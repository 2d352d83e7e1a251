import WireSchema.Json.Parser
import WireSchema.Proofs.Documents

/-!
# Documents that were read

Results about documents ask that their numbers are ones that JSON can write. A text that is read as
a document gives such numbers only: a literal without point and exponent becomes an integer only if
64 bits hold it, and every other literal becomes a finite double or is refused.

The machine that reads a text holds finished values in its stack and, at the end, in its result.
That all of them are valid is preserved by every character, so it holds of the document.
-/

namespace WireSchema.Json

/-! ## Literals -/

theorem collect_le {limit number : Nat} (h : number ≤ limit) (digits : List Char) :
    (collect limit number digits).1 ≤ limit := by
  induction digits generalizing number with
  | nil => exact h
  | cons c rest ih =>
    unfold collect
    dsimp only
    split
    · exact h
    · exact ih (by omega)

theorem collect_maxSignificand_le {number : Nat} (h : number ≤ maxSignificand)
    (digits : List Char) : (collect maxSignificand number digits).1 ≤ 2 ^ (64 : Nat) :=
  Nat.le_trans (collect_le h digits) (by decide)

theorem one_le_powerOfTen (n : Nat) : Double.one ≤ (powerOfTen n).magnitude :=
  Double.one_le_magnitude_ofNat (Nat.pow_pos (by decide))

theorem isFinite_scale {significand x : Double} {exponent : Int} {divisions : Nat}
    (hs : significand.isFinite = true) (h : scale significand exponent divisions = some x) :
    x.isFinite = true := by
  induction divisions generalizing significand exponent with
  | zero =>
    injection h with h
    exact h ▸ hs
  | succ divisions ih =>
    unfold scale at h
    dsimp only at h
    split at h
    · split at h
      · -- a product is only taken if it is finite
        split at h
        · rename_i hfinite
          injection h with h
          exact h ▸ hfinite
        · exact nomatch h
      · injection h with h
        exact h ▸ Double.isFinite_divMagnitude hs (one_le_powerOfTen _)
    · split at h
      · injection h with h
        exact h ▸ hs
      · split at h
        · exact nomatch h
        · exact ih (Double.isFinite_divMagnitude hs (one_le_powerOfTen _)) h

theorem Literal.isFinite_toDouble? {l : Literal} {x : Double} (h : l.toDouble? = some x) :
    x.isFinite = true := by
  have hfirst : (collect maxSignificand 0 l.whole).1 ≤ maxSignificand :=
    collect_le (Nat.zero_le _) l.whole
  have hsecond := collect_maxSignificand_le hfirst (l.fraction.getD [])
  -- however the magnitude is found, the sign is put on last
  have hsign : ∀ {magnitude? : Option Double},
      (∀ magnitude, magnitude? = some magnitude → magnitude.isFinite = true) →
      (magnitude?.bind fun magnitude =>
        some (if l.negative then magnitude.negate else magnitude)) = some x →
      x.isFinite = true := by
    intro magnitude? hfinite h
    obtain ⟨magnitude, hmagnitude, h⟩ := Option.bind_eq_some_iff.mp h
    injection h with h
    subst h
    split
    · exact Double.isFinite_negate (hfinite magnitude hmagnitude)
    · exact hfinite magnitude hmagnitude
  unfold toDouble? at h
  dsimp only at h
  split at h
  · exact hsign (fun _ => isFinite_scale (Double.isFinite_ofNat hsecond)) h
  · split at h
    · split at h
      · exact nomatch h
      · exact hsign (fun _ hm => Option.some.inj hm ▸ Double.isFinite_ofNat (Nat.zero_le _)) h
    · exact hsign (fun _ => isFinite_scale (Double.isFinite_ofNat hsecond)) h

/-- **A literal stands for a number that JSON can write.** -/
theorem Literal.valid_toNumber? {l : Literal} {n : Number} (h : l.toNumber? = some n) :
    n.Valid := by
  unfold toNumber? at h
  dsimp only at h
  split at h
  · rename_i hint
    have hle : (collect maxSignificand 0 l.whole).1 ≤ maxSignificand :=
      collect_le (Nat.zero_le _) l.whole
    injection h with h
    subst h
    simp only [Bool.and_eq_true, Bool.or_eq_true, decide_eq_true_eq, Bool.not_eq_true'] at hint
    generalize (collect maxSignificand 0 l.whole).1 = k at hint hle
    change k ≤ 2 ^ (64 : Nat) - 1 at hle
    -- the bounds differ: below zero the sign takes one of the bits
    split
    · rename_i hneg
      have hsmall := (hint.2.resolve_left (by rw [hneg]; decide)).2
      exact ⟨by omega, by omega⟩
    · exact ⟨by omega, by omega⟩
  · obtain ⟨x, hx, rfl⟩ := Option.map_eq_some_iff.mp h
    exact isFinite_toDouble? hx

theorem valid_number? {text : List Char} {n : Number} (h : number? text = some n) : n.Valid := by
  obtain ⟨l, _, hl⟩ := Option.bind_eq_some_iff.mp h
  exact Literal.valid_toNumber? hl

/-! ## The machine -/

/-- The finished parts of an open container are valid. -/
def Frame.Valid : Frame → Prop
  | .array items => ∀ j ∈ items, j.Valid
  | .object members _ => ∀ m ∈ members, m.2.Valid

/-- Everything that was finished so far is valid. What is expected next and the lexeme that is being
collected play no part in it. -/
structure Machine.Valid (m : Machine) : Prop where
  stack : ∀ frame ∈ m.stack, frame.Valid
  result : ∀ j, m.result = some j → j.Valid

namespace Machine

variable {m m' : Machine}

/-- Nothing is finished by a change of what is expected or of the lexeme. -/
theorem Valid.unfinished {expecting : Expecting} {lexeme : Lexeme} (h : m.Valid)
    (hm : some { m with expecting, lexeme } = some m') : m'.Valid :=
  Option.some.inj hm ▸ ⟨h.stack, h.result⟩

theorem Valid.tail {frame : Frame} {stack : List Frame} (h : m.Valid)
    (hstack : m.stack = frame :: stack) : frame.Valid ∧ ∀ other ∈ stack, other.Valid :=
  List.forall_mem_cons.mp (hstack ▸ h.stack)

theorem Valid.accept {v : Json} (h : m.Valid) (hv : v.Valid) (ha : m.accept v = some m') :
    m'.Valid := by
  unfold Machine.accept at ha
  split at ha
  case h_3 => exact nomatch ha
  all_goals
    split at ha <;> injection ha with ha <;> subst ha
    · -- nothing is open, so this is the document
      exact ⟨h.stack, fun j hj => Option.some.inj hj ▸ hv⟩
    · rename_i hstack
      obtain ⟨hitems, hrest⟩ := h.tail hstack
      exact ⟨List.forall_mem_cons.mpr ⟨List.forall_mem_cons.mpr ⟨hv, hitems⟩, hrest⟩, h.result⟩
    · rename_i hstack
      obtain ⟨hmembers, hrest⟩ := h.tail hstack
      exact ⟨List.forall_mem_cons.mpr ⟨List.forall_mem_cons.mpr ⟨hv, hmembers⟩, hrest⟩, h.result⟩

theorem Valid.acceptText {text : String} (h : m.Valid) (ha : m.acceptText text = some m') :
    m'.Valid := by
  unfold Machine.acceptText at ha
  split at ha
  · exact h.unfinished ha
  · exact h.unfinished ha
  · exact h.accept (.string text) ha

theorem Valid.push {frame : Frame} {expecting : Expecting} (h : m.Valid) (hframe : frame.Valid)
    (hp : m.push frame expecting = some m') : m'.Valid := by
  unfold Machine.push at hp
  split at hp
  case h_3 => exact nomatch hp
  all_goals
    split at hp
    · injection hp with hp
      exact hp ▸ ⟨List.forall_mem_cons.mpr ⟨hframe, h.stack⟩, h.result⟩
    · exact nomatch hp

theorem Valid.pop {v : Json} {stack : List Frame} (h : m.Valid) (hv : v.Valid)
    (hstack : ∀ frame ∈ stack, frame.Valid) (hp : m.pop v stack = some m') : m'.Valid := by
  have hm : Valid { m with stack, expecting := .value } := ⟨hstack, h.result⟩
  exact hm.accept hv hp

theorem valid_members {read : List (String × Json)} (h : ∀ m ∈ read, m.2.Valid) :
    ∀ m ∈ members read, m.2.Valid := by
  have hstep : ∀ (done : List (String × Json)), (∀ m ∈ done, m.2.Valid) → ∀ e ∈ read.reverse,
      ∀ m ∈ addMember done e.1 e.2, m.2.Valid := by
    intro done hdone e he m hm
    have hvalid := h e (List.mem_reverse.mp he)
    unfold addMember at hm
    split at hm
    · rcases mem_insertMember hm with hj | hm
      · exact hj ▸ hvalid
      · exact hdone m hm
    · rcases List.mem_cons.mp hm with rfl | hm
      · exact hvalid
      · exact hdone m hm
  intro m hm
  exact List.foldlRecOn read.reverse _ (fun m hm => absurd hm (by simp)) hstep m
    (List.mem_reverse.mp hm)

theorem Valid.punctuation {c : Char} (h : m.Valid) (hp : m.punctuation c = some m') :
    m'.Valid := by
  have harray : Frame.Valid (.array []) := List.forall_mem_nil _
  have hobject : Frame.Valid (.object [] "") := List.forall_mem_nil _
  unfold Machine.punctuation at hp
  split at hp
  case h_6 => exact h.push harray hp
  case h_7 => exact h.push hobject hp
  case h_8 hstack =>
    -- the key moves from what is expected to its container
    obtain ⟨hmembers, hrest⟩ := h.tail hstack
    exact Option.some.inj hp ▸ ⟨List.forall_mem_cons.mpr ⟨hmembers, hrest⟩, h.result⟩
  case h_11 hstack =>
    obtain ⟨hitems, hrest⟩ := h.tail hstack
    exact h.pop (.array fun j hj => hitems j (List.mem_reverse.mp hj)) hrest hp
  case h_12 hstack => exact h.pop (.array harray) (h.tail hstack).2 hp
  case h_13 hstack =>
    obtain ⟨hmembers, hrest⟩ := h.tail hstack
    exact h.pop (.object (valid_members hmembers)) hrest hp
  case h_14 hstack => exact h.pop (.object hobject) (h.tail hstack).2 hp
  case h_15 =>
    split at hp
    · exact h.unfinished hp
    · split at hp
      · exact h.unfinished hp
      · exact nomatch hp
  all_goals exact h.unfinished hp

theorem Valid.endWord {word : List Char} (h : m.Valid) (he : m.endWord word = some m') :
    m'.Valid := by
  have hm : Valid { m with lexeme := .none } := ⟨h.stack, h.result⟩
  unfold Machine.endWord at he
  dsimp only at he
  split at he
  · exact hm.accept .null he
  · exact hm.accept (.bool true) he
  · exact hm.accept (.bool false) he
  · exact nomatch he

theorem Valid.endNumber {digits : List Char} (h : m.Valid) (he : m.endNumber digits = some m') :
    m'.Valid := by
  obtain ⟨n, hn, he⟩ := Option.bind_eq_some_iff.mp he
  have hm : Valid { m with lexeme := .none } := ⟨h.stack, h.result⟩
  exact hm.accept (.number (valid_number? hn)) he

theorem Valid.endUnit {chars : List Char} {high : Option Nat} {unit : Nat} (h : m.Valid)
    (he : m.endUnit chars high unit = some m') : m'.Valid := by
  unfold Machine.endUnit at he
  split at he
  · split at he
    · exact h.unfinished he
    · exact nomatch he
  · split at he
    · exact h.unfinished he
    · split at he
      · exact nomatch he
      · exact h.unfinished he

/-- **Preserved by every character.** -/
theorem Valid.step {c : Char} (h : m.Valid) (hs : m.step c = some m') : m'.Valid := by
  unfold Machine.step at hs
  split at hs
  case h_1 => exact h.punctuation hs
  case h_2 =>
    split at hs
    · exact h.unfinished hs
    · -- the character that ends a word is looked at again
      obtain ⟨m₁, hword, hs⟩ := Option.bind_eq_some_iff.mp hs
      exact (h.endWord hword).punctuation hs
  case h_3 =>
    split at hs
    · exact h.unfinished hs
    · obtain ⟨m₁, hnumber, hs⟩ := Option.bind_eq_some_iff.mp hs
      exact (h.endNumber hnumber).punctuation hs
  case h_4 =>
    split at hs
    · have hm : Valid { m with lexeme := .none } := ⟨h.stack, h.result⟩
      exact hm.acceptText hs
    · split at hs
      · exact h.unfinished hs
      · split at hs
        · exact nomatch hs
        · exact h.unfinished hs
  case h_5 =>
    split at hs
    · exact h.unfinished hs
    · obtain ⟨c', _, hs⟩ := Option.bind_eq_some_iff.mp hs
      exact h.unfinished hs
  case h_6 =>
    obtain ⟨digit, _, hs⟩ := Option.bind_eq_some_iff.mp hs
    dsimp only at hs
    split at hs
    · exact h.endUnit hs
    · exact h.unfinished hs
  case h_7 =>
    split at hs
    · exact h.unfinished hs
    · exact nomatch hs
  case h_8 =>
    split at hs
    · exact h.unfinished hs
    · exact nomatch hs

/-- **Preserved by every text.** -/
theorem Valid.run {chars : List Char} (h : m.Valid) (hr : chars.foldlM Machine.step m = some m') :
    m'.Valid := by
  induction chars generalizing m with
  | nil => exact Option.some.inj hr ▸ h
  | cons c rest ih =>
    rw [List.foldlM_cons] at hr
    obtain ⟨m₁, hstep, hrest⟩ := Option.bind_eq_some_iff.mp hr
    exact ih (h.step hstep) hrest

theorem Valid.finish {j : Json} (h : m.Valid) (hf : m.finish = some j) : j.Valid := by
  unfold Machine.finish at hf
  dsimp only at hf
  split at hf
  case h_4 => cases hf
  all_goals
    -- the last lexeme is taken, and then the document is the result if nothing is open
    obtain ⟨m₁, hm, hf⟩ := Option.bind_eq_some_iff.mp hf
    split at hf
    case h_2 => cases hf
  · cases hm
    exact h.result j hf
  · exact (h.endWord hm).result j hf
  · exact (h.endNumber hm).result j hf

end Machine

/-- **A text that is read as a document gives a valid one.** -/
theorem valid_of_parse? {text : String} {j : Json} (h : parse? text = some j) : j.Valid := by
  obtain ⟨m, hrun, hfinish⟩ := Option.bind_eq_some_iff.mp h
  have hstart : Machine.Valid {} := ⟨List.forall_mem_nil _, fun _ hj => nomatch hj⟩
  exact (hstart.run hrun).finish hfinish

end WireSchema.Json
