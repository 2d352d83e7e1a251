import WireSchema.Text.Blank
import Mathlib.Data.List.TakeWhile

/-!
# String literals

What a string literal in generated code denotes. A character stands for itself, with three exceptions:

* a quote ends the literal;
* a backslash begins an escape, which stands for one character, or for none if it is the last
  character of a line: then the line break and the blanks behind it do not count;
* a carriage return may only stand in front of a line feed, and is lost there.

So a text without the three **denotes itself**. Any other text denotes something else: an escape is
written with two characters or more that are not blanks and stands for one at most, so a literal
denotes **less than it is written with**, as far as blanks are not counted, if there is an escape in
it. This does not hold of a literal that runs on past the place where it should have ended. Such a
literal denotes a text with a quote in it.
-/

namespace WireSchema

namespace Text

theorem cutAt?_eq_some {c : Char} {cs before after : List Char}
    (h : cutAt? c cs = some (before, after)) : cs = before ++ c :: after ∧ c ∉ before := by
  unfold cutAt? at h
  split at h
  · exact nomatch h
  · rename_i d rest hrest
    simp only [Option.some.injEq, Prod.mk.injEq] at h
    obtain ⟨rfl, rfl⟩ := h
    obtain rfl : d = c := by
      have hstop := List.head?_dropWhile_not (· != c) cs
      rw [hrest] at hstop
      simpa using hstop
    refine ⟨?_, fun hmem => ?_⟩
    · rw [← hrest, List.takeWhile_append_dropWhile]
    · have hpass := List.mem_takeWhile_imp hmem
      exact absurd rfl (bne_iff_ne.mp hpass)

end Text

namespace Literal

/-! ## What a literal denotes -/

/-- The value of a hexadecimal digit. -/
def hexDigit? (c : Char) : Option Nat :=
  if '0' ≤ c ∧ c ≤ '9' then some (c.toNat - '0'.toNat)
  else if 'a' ≤ c ∧ c ≤ 'f' then some (c.toNat - 'a'.toNat + 10)
  else if 'A' ≤ c ∧ c ≤ 'F' then some (c.toNat - 'A'.toNat + 10)
  else none

/-- The number that hexadecimal digits stand for. -/
def number? (digits : List Char) : Option Nat :=
  if digits.all fun c => (hexDigit? c).isSome then
    some (digits.foldl (fun n c => 16 * n + (hexDigit? c).getD 0) 0)
  else none

/-- The character with a number that has up to six digits. There may be underscores behind the first
digit. -/
def scalar? (digits : List Char) : Option Char :=
  let significant := digits.filter (· != '_')
  if digits.head? = some '_' ∨ significant = [] ∨ 6 < significant.length then none
  else (number? significant).bind fun n => if n.isValidChar then some (Char.ofNat n) else none

/-- The character that a single character stands for behind a backslash. -/
def simple? : Char → Option Char
  | 'n' => some '\n'
  | 'r' => some '\r'
  | 't' => some '\t'
  | '0' => some '\x00'
  | '\\' => some '\\'
  | '\'' => some '\''
  | '"' => some '"'
  | _ => none

/-- What a line may begin with that goes on with a literal. -/
def isSpace (c : Char) : Bool :=
  c == ' ' || c == '\t' || c == '\n' || c == '\r'

/-- What an escape stands for, from behind its backslash on, and the text behind it. -/
def escape? : List Char → Option (List Char × List Char)
  | [] => none
  | 'x' :: high :: low :: cs =>
    match number? [high, low] with
    | some n => if n < 128 then some ([Char.ofNat n], cs) else none
    | none => none
  | 'u' :: '\x7b' :: cs =>
    match Text.cutAt? '\x7d' cs with
    | some (digits, rest) => (scalar? digits).map fun c => ([c], rest)
    | none => none
  | '\n' :: cs => some ([], cs.dropWhile isSpace)
  | '\r' :: '\n' :: cs => some ([], cs.dropWhile isSpace)
  | c :: cs => (simple? c).map fun d => ([d], cs)

/-- Characters that are not lost where a text is put on other lines. -/
def isInk (c : Char) : Bool :=
  c != ' ' && c != '\r'

/-- How many characters of a text are neither blanks nor carriage returns. -/
def inked (cs : List Char) : Nat :=
  cs.countP isInk

theorem inked_append (cs ds : List Char) : inked (cs ++ ds) = inked cs + inked ds :=
  List.countP_append

theorem inked_cons (c : Char) (cs : List Char) : inked (c :: cs) = inked [c] + inked cs :=
  inked_append [c] cs

theorem one_le_inked {cs : List Char} {c : Char} (hmem : c ∈ cs) (hc : isInk c = true) :
    1 ≤ inked cs :=
  List.countP_pos_iff.mpr ⟨c, hmem, hc⟩

theorem number?_quote {digits : List Char} {n : Nat} (h : number? digits = some n) :
    '"' ∉ digits := by
  unfold number? at h
  split at h
  · rename_i hall
    intro hmem
    exact absurd (List.all_eq_true.mp hall _ hmem) (by decide)
  · exact nomatch h

theorem scalar?_quote {digits : List Char} {c : Char} (h : scalar? digits = some c) :
    '"' ∉ digits := by
  unfold scalar? at h
  dsimp only at h
  split at h
  · exact nomatch h
  · obtain ⟨n, hn, _⟩ := Option.bind_eq_some_iff.mp h
    exact fun hmem => number?_quote hn (List.mem_filter.mpr ⟨hmem, by decide⟩)

/-- What is known of an escape: `taken` is how it is written behind its backslash. -/
structure Escapes (taken chars : List Char) : Prop where
  one : chars.length ≤ 1
  ink : 1 ≤ inked taken
  quote : '"' ∈ taken → '"' ∈ chars

/-- A line break in a literal, and what the next line begins with. -/
theorem Escapes.lineEnd {lineBreak : List Char} (hline : '\n' ∈ lineBreak) (hq : '"' ∉ lineBreak)
    (cs : List Char) : Escapes (lineBreak ++ cs.takeWhile isSpace) [] where
  one := Nat.zero_le 1
  ink := one_le_inked (List.mem_append_left _ hline) (by decide)
  quote := by
    intro hmem
    rcases List.mem_append.mp hmem with hmem | hmem
    · exact absurd hmem hq
    · exact absurd (List.mem_takeWhile_imp hmem) (by decide)

theorem escape?_eq_some {cs chars rest : List Char} (h : escape? cs = some (chars, rest)) :
    ∃ taken, cs = taken ++ rest ∧ Escapes taken chars := by
  unfold escape? at h
  split at h
  · exact nomatch h
  · -- two digits
    rename_i high low cs
    split at h
    · rename_i n hn
      split at h
      · obtain ⟨rfl, rfl⟩ := Prod.mk.inj (Option.some.inj h)
        refine ⟨['x', high, low], rfl, Nat.le_refl _, ?_, fun hmem => ?_⟩
        · exact one_le_inked List.mem_cons_self (by decide)
        · rcases List.mem_cons.mp hmem with hx | hmem
          · exact absurd hx (by decide)
          · exact absurd hmem (number?_quote hn)
      · exact nomatch h
    · exact nomatch h
  · -- digits in braces
    rename_i cs
    split at h
    · rename_i digits rest' hcut
      obtain ⟨c, hc, heq⟩ := Option.map_eq_some_iff.mp h
      obtain ⟨rfl, rfl⟩ := Prod.mk.inj heq
      refine ⟨'u' :: '\x7b' :: (digits ++ ['\x7d']), ?_, Nat.le_refl _, ?_, fun hmem => ?_⟩
      · rw [(Text.cutAt?_eq_some hcut).1]
        simp
      · exact one_le_inked List.mem_cons_self (by decide)
      · simp only [List.mem_cons, List.mem_append, scalar?_quote hc] at hmem
        exact absurd hmem (by decide)
    · exact nomatch h
  · -- the end of a line, which may be marked by a carriage return too
    rename_i cs
    obtain ⟨rfl, rfl⟩ := Prod.mk.inj (Option.some.inj h)
    refine ⟨['\n'] ++ cs.takeWhile isSpace, ?_, .lineEnd (by decide) (by decide) cs⟩
    rw [List.append_assoc, List.takeWhile_append_dropWhile, List.singleton_append]
  · rename_i cs
    obtain ⟨rfl, rfl⟩ := Prod.mk.inj (Option.some.inj h)
    refine ⟨['\r', '\n'] ++ cs.takeWhile isSpace, ?_, .lineEnd (by decide) (by decide) cs⟩
    rw [List.append_assoc, List.takeWhile_append_dropWhile]
    rfl
  · -- one character, which is not a blank: there is no such escape
    rename_i c cs _ _ _ _
    obtain ⟨d, hd, heq⟩ := Option.map_eq_some_iff.mp h
    obtain ⟨rfl, rfl⟩ := Prod.mk.inj heq
    refine ⟨[c], rfl, Nat.le_refl _, ?_, fun hmem => ?_⟩
    · refine one_le_inked List.mem_cons_self ?_
      by_contra hblank
      have hnone : simple? c = none := by
        unfold isInk at hblank
        simp only [Bool.and_eq_true, bne_iff_ne, not_and_or, not_not] at hblank
        rcases hblank with rfl | rfl <;> rfl
      rw [hnone] at hd
      exact nomatch hd
    · rw [← List.mem_singleton.mp hmem] at hd
      rw [← Option.some.inj hd]
      exact List.mem_singleton_self _

/-- The text that a literal denotes, from behind its first quote on. -/
def value? (cs : List Char) : Option (List Char) :=
  match cs with
  | [] => none
  | '"' :: _ => some []
  | '\\' :: cs =>
    match h : escape? cs with
    | some (chars, rest) =>
      have : rest.length < cs.length + 1 := by
        obtain ⟨taken, rfl, _⟩ := escape?_eq_some h
        rw [List.length_append]
        omega
      (value? rest).map (chars ++ ·)
    | none => none
  | '\r' :: '\n' :: cs => (value? cs).map ('\n' :: ·)
  | '\r' :: _ => none
  | c :: cs => (value? cs).map (c :: ·)
termination_by cs.length

/-! ## Texts that denote themselves -/

/-- A character that stands for itself. -/
def isPlain (c : Char) : Bool :=
  c != '"' && c != '\\' && c != '\r'

theorem isPlain_iff {c : Char} : isPlain c = true ↔ c ≠ '"' ∧ c ≠ '\\' ∧ c ≠ '\r' := by
  rw [isPlain, Bool.and_eq_true, Bool.and_eq_true, bne_iff_ne, bne_iff_ne, bne_iff_ne, and_assoc]

theorem value?_cons {c : Char} (hc : isPlain c = true) (cs : List Char) :
    value? (c :: cs) = (value? cs).map (c :: ·) := by
  obtain ⟨hquote, hslash, hreturn⟩ := isPlain_iff.mp hc
  rw [value?]
  · exact hquote
  · exact hslash
  · exact fun _ h _ => hreturn h
  · exact hreturn

theorem value?_escape {cs chars rest : List Char} (h : escape? cs = some (chars, rest)) :
    value? ('\\' :: cs) = (value? rest).map (chars ++ ·) := by
  rw [value?]
  split
  · rename_i chars' rest' hsome
    obtain ⟨rfl, rfl⟩ := Prod.mk.inj (Option.some.inj (h.symm.trans hsome))
    rfl
  · rename_i hnone
    exact nomatch h.symm.trans hnone

/-- **A plain text denotes itself.** -/
theorem value?_of_plain {body : List Char} (h : ∀ c ∈ body, isPlain c = true) (tail : List Char) :
    value? (body ++ '"' :: tail) = some body := by
  induction body with
  | nil => rw [List.nil_append, value?]
  | cons c body ih =>
    obtain ⟨hc, hbody⟩ := List.forall_mem_cons.mp h
    rw [List.cons_append, value?_cons hc, ih hbody]
    rfl

/-! ## Texts that do not -/

/-- A part of a text that has no quote ends in front of the first quote. -/
theorem exists_of_append_eq_quote {taken : List Char} (hq : '"' ∉ taken) {rest body tail : List Char}
    (h : taken ++ rest = body ++ '"' :: tail) :
    ∃ more, body = taken ++ more ∧ rest = more ++ '"' :: tail := by
  rcases List.append_eq_append_iff.mp h with ⟨more, hbody, hrest⟩ | ⟨more, htaken, htail⟩
  · exact ⟨more, hbody, hrest⟩
  · cases more with
    | nil => exact ⟨[], by simpa using htaken.symm, by simpa using htail.symm⟩
    | cons c more =>
      obtain rfl := (List.cons.inj htail).1
      exact absurd (htaken ▸ by simp) hq

/-- How a text without quotes is read, if reading it ends where the text does. -/
inductive Denotes : List Char → List Char → Prop where
  | nil : Denotes [] []
  | escape {taken chars body value : List Char} :
      Escapes taken chars → Denotes body value → Denotes ('\\' :: (taken ++ body)) (chars ++ value)
  | lineBreak {body value : List Char} :
      Denotes body value → Denotes ('\r' :: '\n' :: body) ('\n' :: value)
  | plain {c : Char} {body value : List Char} :
      isPlain c = true → Denotes body value → Denotes (c :: body) (c :: value)

/-- **A literal runs on past the quote behind it, or is read up to there.** -/
theorem denotes_of_value? {body tail value : List Char} (hq : '"' ∉ body)
    (h : value? (body ++ '"' :: tail) = some value) : '"' ∈ value ∨ Denotes body value := by
  generalize htext : body ++ '"' :: tail = text at h
  fun_induction value? text generalizing body value with
  | case1 => exact nomatch h
  | case2 rest =>
    obtain rfl := Option.some.inj h
    cases body with
    | nil => exact .inr .nil
    | cons c body => exact absurd (List.cons.inj htext).1 fun hc => hq (hc ▸ List.mem_cons_self)
  | case3 cs chars rest hescape _ ih =>
    obtain ⟨value, hvalue, rfl⟩ := Option.map_eq_some_iff.mp h
    obtain ⟨taken, hcs, htaken⟩ := escape?_eq_some hescape
    cases body with
    | nil => exact absurd (List.cons.inj htext).1 (by decide)
    | cons c body =>
      obtain ⟨rfl, hbody⟩ := List.cons.inj htext
      by_cases hquote : '"' ∈ taken
      · -- the quote that should have ended the literal is part of it
        exact .inl (List.mem_append_left _ (htaken.quote hquote))
      · obtain ⟨more, rfl, hmore⟩ := exists_of_append_eq_quote hquote (hcs.symm.trans hbody.symm)
        rcases ih (fun hmem => hq (by simp [hmem])) hmore.symm hvalue with hmem | hdenotes
        · exact .inl (List.mem_append_right _ hmem)
        · exact .inr (.escape htaken hdenotes)
  | case4 => exact nomatch h
  | case5 cs ih =>
    obtain ⟨value, hvalue, rfl⟩ := Option.map_eq_some_iff.mp h
    have hline : '"' ∉ ['\r', '\n'] := by decide
    obtain ⟨more, rfl, hmore⟩ := exists_of_append_eq_quote hline htext.symm
    rcases ih (fun hmem => hq (by simp [hmem])) hmore.symm hvalue with hmem | hdenotes
    · exact .inl (List.mem_cons_of_mem _ hmem)
    · exact .inr (.lineBreak hdenotes)
  | case6 => exact nomatch h
  | case7 c cs hquote hslash _ hreturn ih =>
    obtain ⟨value, hvalue, rfl⟩ := Option.map_eq_some_iff.mp h
    have hc : '"' ∉ [c] := fun hmem => hquote (List.mem_singleton.mp hmem).symm
    obtain ⟨more, rfl, hmore⟩ := exists_of_append_eq_quote hc htext.symm
    rcases ih (fun hmem => hq (by simp [hmem])) hmore.symm hvalue with hmem | hdenotes
    · exact .inl (List.mem_cons_of_mem _ hmem)
    · exact .inr (.plain (isPlain_iff.mpr ⟨hquote, hslash, hreturn⟩) hdenotes)

namespace Denotes

variable {body value : List Char}

/-- **Escapes make a text shorter.** -/
theorem inked_le (h : Denotes body value) :
    inked value ≤ inked body ∧ ('\\' ∈ body → inked value < inked body) := by
  induction h with
  | nil => exact ⟨Nat.le_refl _, fun hmem => absurd hmem List.not_mem_nil⟩
  | @escape taken chars body value htaken _ ih =>
    have hchars : inked chars ≤ 1 := List.countP_le_length.trans htaken.one
    have hslash : inked ['\\'] = 1 := by decide
    have hink := htaken.ink
    rw [inked_cons '\\', inked_append, inked_append, hslash]
    omega
  | @lineBreak body value _ ih =>
    have hreturn : inked ['\r'] = 0 := by decide
    rw [inked_cons '\n' value, inked_cons '\r', inked_cons '\n' body, hreturn]
    refine ⟨by omega, fun hmem => ?_⟩
    have hless := ih.2 (by simpa using hmem)
    omega
  | @plain c body value hc _ ih =>
    rw [inked_cons c value, inked_cons c body]
    refine ⟨by omega, fun hmem => ?_⟩
    have hless := ih.2 ((List.mem_cons.mp hmem).resolve_left (isPlain_iff.mp hc).2.1.symm)
    omega

/-- Without escapes there is no way to write a carriage return. -/
theorem return_not_mem (h : Denotes body value) (hslash : '\\' ∉ body) : '\r' ∉ value := by
  induction h with
  | nil => exact List.not_mem_nil
  | escape => exact absurd List.mem_cons_self hslash
  | lineBreak _ ih =>
    have hrest := ih fun hmem => hslash (by simp [hmem])
    exact List.not_mem_cons_of_ne_of_not_mem (by decide) hrest
  | plain hc _ ih =>
    have hrest := ih fun hmem => hslash (List.mem_cons_of_mem _ hmem)
    exact List.not_mem_cons_of_ne_of_not_mem (isPlain_iff.mp hc).2.2.symm hrest

end Denotes

theorem mem_iff_of_ink {body text : List Char} (h : body.filter isInk = text.filter isInk) {c : Char}
    (hc : isInk c = true) : c ∈ body ↔ c ∈ text := by
  have hmem : c ∈ body.filter isInk ↔ c ∈ text.filter isInk := by rw [h]
  simpa [List.mem_filter, hc] using hmem

/--
**A literal that denotes the text it was written for has no escapes in it.** The literal is written with
the characters of the text, blanks and carriage returns apart.
-/
theorem plain_of_value?_eq_some {text body tail : List Char} (hq : '"' ∉ text)
    (hink : body.filter isInk = text.filter isInk) (h : value? (body ++ '"' :: tail) = some text) :
    '\\' ∉ text ∧ '\r' ∉ text := by
  have hqbody : '"' ∉ body := fun hmem => hq ((mem_iff_of_ink hink (by decide)).mp hmem)
  have hcount : inked text = inked body := by
    rw [inked, inked, List.countP_eq_length_filter, List.countP_eq_length_filter, hink]
  have hdenotes : Denotes body text := (denotes_of_value? hqbody h).resolve_left hq
  have hslash : '\\' ∉ body := fun hmem => absurd hcount (Nat.ne_of_lt (hdenotes.inked_le.2 hmem))
  exact ⟨fun hmem => hslash ((mem_iff_of_ink hink (by decide)).mpr hmem),
    hdenotes.return_not_mem hslash⟩

end Literal

end WireSchema
