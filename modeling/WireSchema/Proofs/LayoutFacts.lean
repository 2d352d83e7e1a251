import WireSchema.Proofs.Cycles
import WireSchema.Proofs.Sizes

/-!
# Facts that are worked out twice

How deep structs lie inside each other is worked out by the schema check, in rounds over all structs,
and by the analysis, along its walk. Whether a struct has a fixed size is worked out for canonical
order, in rounds again, and by the analysis. In a schema without cycles these are one fact each, and
both can be said without any traversal: the depth of a struct is the length of **the longest path**
that starts at it, and a struct has a fixed size if **every type inside it** is a required primitive
with a width or a required struct.

The argument is the same both times. A round makes what it says of a struct out of what the round
before said of the structs it leads to, in the way in which layouts are made of layouts. Layouts of
structs below a rank are thus found by as many rounds, and there are as many rounds as ranks.
-/

namespace WireSchema

theorem foldl_max_eq_or_mem (xs : List Nat) (start : Nat) :
    xs.foldl max start = start ∨ xs.foldl max start ∈ xs := by
  induction xs generalizing start with
  | nil => exact .inl rfl
  | cons x xs ih =>
    rw [List.foldl_cons]
    rcases ih (max start x) with h | h
    · rcases Nat.le_total x start with hle | hle
      · exact .inl (h.trans (Nat.max_eq_left hle))
      · refine .inr ?_
        rw [h, Nat.max_eq_right hle]
        exact List.mem_cons_self
    · exact .inr (List.mem_cons_of_mem _ h)

theorem Ty.isFixed_congr {known known' : Nat → Bool} {t : Ty}
    (h : ∀ id, t.innermost? = some id → known id = known' id) :
    t.isFixed known = t.isFixed known' := by
  cases t with
  | primitive p o => rfl
  | struct id o => rw [isFixed, isFixed, h id rfl]
  | array e o => rfl

/-- Required primitives with a width, and required structs. -/
def Ty.IsPlain (t : Ty) : Prop :=
  (∃ p width, t = .primitive p false ∧ p.width? = some width) ∨ ∃ id, t = .struct id false

/-- A type of fixed size is plain, and a plain one has a fixed size if the struct it is has. -/
theorem Ty.isFixed_iff {known : Nat → Bool} {t : Ty} : t.isFixed known = true ↔
    t.IsPlain ∧ ∀ id, t.innermost? = some id → known id = true := by
  unfold IsPlain
  cases t with
  | primitive p o => cases o <;> simp [isFixed, innermost?, Option.isSome_iff_exists]
  | struct id o => cases o <;> simp [isFixed, innermost?]
  | array e o => simp [isFixed]

namespace Schema

variable {s : Schema} {rank : Nat → Nat} {L : Nat → Layout}

/-! ## Rounds and ranks -/

/-- From the structs that a struct leads to up to the struct itself. -/
theorem Ranked.struct_induction (hr : s.Ranked rank) {P : Nat → Prop}
    (h : ∀ id, (∀ target ∈ s.targets id, P target) → P id) (id : Nat) : P id := by
  induction hn : rank id using Nat.strongRecOn generalizing id with
  | ind n ih =>
    refine h id fun target ht => ih (rank target) ?_ target rfl
    rw [← hn]
    exact hr.target_lt id target ht

/-- **Rounds find a value** that a struct has because of the structs it leads to: as many rounds find
it for the structs of lower rank, whatever they start from. -/
theorem Ranked.rounds_eq (hr : s.Ranked rank) (hs : s.InRange) {α : Type}
    {step : Array α → Array α} {d : α} (value : Nat → α)
    (hstep : ∀ known : Array α, ∀ id < s.structs.length,
      (∀ target ∈ s.targets id, known.getD target d = value target) →
      (step known).getD id d = value id)
    (start : Array α) (n : Nat) :
    ∀ id < s.structs.length, rank id < n → (rounds step n start).getD id d = value id := by
  induction n with
  | zero =>
    intro id _ hrank
    omega
  | succ n ih =>
    intro id hid hrank
    rw [rounds_succ]
    refine hstep _ id hid fun target ht => ih target (hs.target_lt ht) ?_
    have hdown := hr.target_lt id target ht
    omega

/-! ## Depth -/

/-- The longest path that starts at a struct has `n` steps. -/
structure IsDepth (s : Schema) (id n : Nat) : Prop where
  reached : ∃ rest, List.IsChain s.Leads (id :: rest) ∧ rest.length = n
  longest : ∀ rest, List.IsChain s.Leads (id :: rest) → rest.length ≤ n

theorem IsDepth.unique {id n n' : Nat} (h : s.IsDepth id n) (h' : s.IsDepth id n') : n = n' := by
  obtain ⟨rest, hpath, hlen⟩ := h.reached
  obtain ⟨rest', hpath', hlen'⟩ := h'.reached
  have hle := h'.longest rest hpath
  have hge := h.longest rest' hpath'
  omega

/-- **The step.** A struct is one deeper than the deepest struct that it leads to. -/
theorem isDepth_of_targets {depth : Nat → Nat} {id : Nat}
    (h : ∀ target ∈ s.targets id, s.IsDepth target (depth target)) :
    s.IsDepth id (((s.targets id).map fun target => 1 + depth target).foldl max 0) := by
  constructor
  · rcases foldl_max_eq_or_mem ((s.targets id).map fun target => 1 + depth target) 0 with hzero | hmem
    · rw [hzero]
      exact ⟨[], List.isChain_singleton id, rfl⟩
    · obtain ⟨target, ht, hdepth⟩ := List.mem_map.mp hmem
      obtain ⟨rest, hpath, hlen⟩ := (h target ht).reached
      refine ⟨target :: rest, List.isChain_cons_cons.mpr ⟨ht, hpath⟩, ?_⟩
      rw [← hdepth, List.length_cons]
      omega
  · intro rest hpath
    cases rest with
    | nil => exact Nat.zero_le _
    | cons target rest =>
      obtain ⟨ht, hpath⟩ := List.isChain_cons_cons.mp hpath
      have hbelow := (h target ht).longest rest hpath
      have hle : 1 + depth target ≤
          ((s.targets id).map fun target => 1 + depth target).foldl max 0 :=
        le_foldl_max (.inr (List.mem_map.mpr ⟨target, ht, rfl⟩))
      rw [List.length_cons]
      omega

theorem nesting_layout (L : Nat → Layout) (t : Ty) :
    (t.layout L).nesting = (t.innermost?.map fun id => (L id).nesting).getD 0 := by
  induction t with
  | primitive p o => cases p <;> cases o <;> rfl
  | struct id o => cases o <;> rfl
  | array e o ih => cases o <;> exact ih

/-- The structs that fields lead to make a struct deeper, and nothing else does. -/
theorem nesting_ofFields (L : Nat → Layout) (fields : List Field) :
    (Layout.ofFields L fields).nesting =
      ((fieldTargets fields).map fun target => 1 + (L target).nesting).foldl max 0 := by
  have hclose : ∀ l : Layout, l.close.nesting = l.nesting := by
    intro l
    unfold Layout.close
    split <;> rfl
  have hfold : ∀ whole : Layout,
      (fields.foldl (fun whole f => whole.addField f.ty (f.ty.layout L)) whole).nesting
        = ((fieldTargets fields).map fun target => 1 + (L target).nesting).foldl max
            whole.nesting := by
    induction fields with
    | nil => exact fun whole => rfl
    | cons f fields ih =>
      intro whole
      rw [List.foldl_cons, ih, Layout.addField, nesting_layout]
      unfold fieldTargets
      rw [List.filterMap_cons]
      cases f.ty.innermost? with
      | none => rfl
      | some target =>
        rw [List.map_cons, List.foldl_cons, Nat.add_comm 1]
        rfl
  rw [Layout.ofFields, hclose, hfold]
  rfl

/-- **The analysis finds the depth of every struct.** -/
theorem Ranked.isDepth_nesting (hr : s.Ranked rank) (hL : s.IsLayout L) (id : Nat) :
    s.IsDepth id (L id).nesting := by
  refine hr.struct_induction (P := fun id => s.IsDepth id (L id).nesting) (fun id ih => ?_) id
  rw [hL id, nesting_ofFields]
  exact isDepth_of_targets ih

/-- The rounds of the schema check find what the analysis finds. -/
theorem Ranked.depths_eq (hr : s.Ranked rank) (hs : s.InRange) (hL : s.IsLayout L) {id : Nat}
    (hid : id < s.structs.length) : s.depths.getD id 0 = (L id).nesting := by
  unfold depths
  rw [settle_eq_rounds]
  refine hr.rounds_eq hs (fun id => (L id).nesting) (fun known id _ hbelow => ?_) _ _ id hid
    (hr.lt id hid)
  rw [getD_depthStep, hL id, nesting_ofFields]
  exact congrArg (List.foldl max 0) (List.map_congr_left fun target ht => by rw [hbelow target ht])

/-! ## Structs of fixed size -/

theorem isFixed_layout (L : Nat → Layout) (t : Ty) :
    (t.layout L).isFixed = t.isFixed fun id => (L id).isFixed := by
  cases t with
  | primitive p o => cases p <;> cases o <;> rfl
  | struct id o => cases o <;> rfl
  | array e o => cases o <;> rfl

/-- The rounds of canonical order find what the analysis finds. -/
theorem Ranked.isFixedStruct_eq (hr : s.Ranked rank) (hs : s.InRange) (hL : s.IsLayout L) {id : Nat}
    (hid : id < s.structs.length) : s.isFixedStruct id = (L id).isFixed := by
  unfold isFixedStruct fixedStructs
  rw [settle_eq_rounds]
  refine hr.rounds_eq hs (fun id => (L id).isFixed) (fun known id hid hbelow => ?_) _ _ id hid
    (hr.lt id hid)
  rw [Rearranged.getD_fixedStep hid, hL id, isFixed_ofFields, Bool.eq_iff_iff, List.all_eq_true,
    List.all_eq_true]
  refine forall₂_congr fun f hf => ?_
  rw [isFixed_layout, Ty.isFixed_congr fun target ht => hbelow target (mem_targets hf ht)]

/-- The types of the fields of a struct, and of the structs that it leads to, at any depth. -/
inductive Inside (s : Schema) : Nat → Ty → Prop where
  | field {id : Nat} {f : Field} : f ∈ s.fieldsOf id → Inside s id f.ty
  | deeper {id target : Nat} {t : Ty} : s.Leads id target → Inside s target t → Inside s id t

/-- **The structs of fixed size are those with plain types inside.** -/
theorem Ranked.isFixed_iff (hr : s.Ranked rank) (hL : s.IsLayout L) (id : Nat) :
    (L id).isFixed = true ↔ ∀ t, s.Inside id t → t.IsPlain := by
  refine hr.struct_induction (P := fun id => (L id).isFixed = true ↔
    ∀ t, s.Inside id t → t.IsPlain) (fun id ih => ?_) id
  have hfields : (L id).isFixed = true ↔ ∀ f ∈ s.fieldsOf id, f.ty.IsPlain ∧
      ∀ target, f.ty.innermost? = some target → (L target).isFixed = true := by
    rw [hL id, isFixed_ofFields, List.all_eq_true]
    refine forall₂_congr fun f _ => ?_
    rw [isFixed_layout, Ty.isFixed_iff]
  rw [hfields]
  constructor
  · intro h t hinside
    cases hinside with
    | field hf => exact (h _ hf).1
    | deeper hleads hinside =>
      obtain ⟨f, hf, ht⟩ := List.mem_filterMap.mp hleads
      exact (ih _ hleads).mp ((h f hf).2 _ ht) t hinside
  · intro h f hf
    refine ⟨h f.ty (.field hf), fun target ht => ?_⟩
    have hleads := mem_targets hf ht
    exact (ih target hleads).mpr fun t hinside => h t (.deeper hleads hinside)

/-! ## The check for depth -/

theorem structLayout_analysisWith (L : Nat → Layout) {id : Nat} (hid : id < s.structs.length) :
    (s.analysisWith L).structLayout id = L id := by
  unfold Analysis.structLayout analysisWith structIds
  rw [List.getElem?_map, List.getElem?_range hid]
  rfl

/-- A struct with a path of more steps than are allowed, and its depth. -/
structure TooDeep (s : Schema) (id depth : Nat) : Prop where
  isDepth : s.IsDepth id depth
  lt : 32 < depth

/-- The struct that is named as too deep: the first one. -/
structure FirstTooDeep (s : Schema) (id depth : Nat) : Prop extends s.TooDeep id depth where
  first : ∀ earlier < id, ∀ n, ¬ s.TooDeep earlier n

theorem FirstTooDeep.unique {id id' n n' : Nat} (h : s.FirstTooDeep id n)
    (h' : s.FirstTooDeep id' n') : id = id' ∧ n = n' := by
  have hid : id = id' := by
    rcases Nat.lt_trichotomy id id' with hlt | heq | hgt
    · exact absurd h.toTooDeep (h'.first id hlt n)
    · exact heq
    · exact absurd h'.toTooDeep (h.first id' hgt n')
  subst hid
  exact ⟨rfl, h.isDepth.unique h'.isDepth⟩

theorem Ranked.forall_length_le_iff (hr : s.Ranked rank) (hL : s.IsLayout L) :
    (∀ id rest, List.IsChain s.Leads (id :: rest) → rest.length ≤ 32) ↔
      ∀ id n, ¬ s.TooDeep id n := by
  constructor
  · intro h id n hdeep
    obtain ⟨rest, hpath, hlen⟩ := hdeep.isDepth.reached
    have hle := h id rest hpath
    have hlt := hdeep.lt
    omega
  · intro h id rest hpath
    by_contra hlong
    have hmax := hr.isDepth_nesting hL id
    have hle := hmax.longest rest hpath
    exact h id _ ⟨hmax, by omega⟩

/-- Only a struct of the schema leads anywhere. -/
theorem TooDeep.id_lt {id n : Nat} (h : s.TooDeep id n) : id < s.structs.length := by
  obtain ⟨rest, hpath, hlen⟩ := h.isDepth.reached
  cases rest with
  | nil =>
    have hlt := h.lt
    rw [List.length_nil] at hlen
    omega
  | cons target rest => exact lt_of_leads (List.isChain_cons_cons.mp hpath).1

/-- The check for depth passes where nothing is too deep, and names the first struct that is. -/
theorem checkNesting_cases (hdepth : ∀ id < s.structs.length, s.IsDepth id (s.depths.getD id 0)) :
    (s.checkNesting = .ok () ∧ ∀ id n, ¬ s.TooDeep id n) ∨
      ∃ id n, s.FirstTooDeep id n ∧ s.checkNesting = .error (.nesting (s.structName id) n) := by
  have hfound : ∀ id n, s.TooDeep id n → 32 < s.depths.getD id 0 := by
    intro id n h
    rw [← h.isDepth.unique (hdepth id h.id_lt)]
    exact h.lt
  unfold checkNesting structIds
  dsimp only
  cases hfind : (List.range s.structs.length).find? fun id => s.depths.getD id 0 > maxNesting with
  | none =>
    refine .inl ⟨rfl, fun id n h => ?_⟩
    have hle := List.find?_eq_none.mp hfind id (List.mem_range.mpr h.id_lt)
    have hlt := hfound id n h
    rw [decide_eq_true_eq, maxNesting] at hle
    omega
  | some id =>
    obtain ⟨hdeep, hid, hearlier⟩ := List.find?_range_eq_some.mp hfind
    rw [decide_eq_true_eq, maxNesting] at hdeep
    refine .inr ⟨id, _, ⟨⟨hdepth id (List.mem_range.mp hid), hdeep⟩, fun i hi n h => ?_⟩, rfl⟩
    have hle := hearlier i hi
    have hlt := hfound i n h
    rw [Bool.not_eq_true', decide_eq_false_iff_not, maxNesting] at hle
    omega

theorem checkNesting_exact (hdepth : ∀ id < s.structs.length, s.IsDepth id (s.depths.getD id 0)) :
    (s.checkNesting = .ok () ↔ ∀ id n, ¬ s.TooDeep id n)
      ∧ ∀ e, s.checkNesting = .error e ↔
          ∃ id n, s.FirstTooDeep id n ∧ e = .nesting (s.structName id) n := by
  rcases checkNesting_cases hdepth with ⟨hok, hnone⟩ | ⟨id, n, hfirst, herror⟩
  · rw [hok]
    refine ⟨⟨fun _ => hnone, fun _ => rfl⟩, fun e => ⟨fun h => absurd h (by simp), ?_⟩⟩
    rintro ⟨id, n, hfirst, _⟩
    exact absurd hfirst.toTooDeep (hnone id n)
  · rw [herror]
    refine ⟨⟨fun h => absurd h (by simp), fun h => absurd hfirst.toTooDeep (h id n)⟩, fun e => ?_⟩
    constructor
    · intro h
      exact ⟨id, n, hfirst, (Except.error.inj h).symm⟩
    · rintro ⟨id', n', hfirst', rfl⟩
      obtain ⟨rfl, rfl⟩ := hfirst.unique hfirst'
      rfl

/-- Structs inside structs, behind an array, as a plain field and behind an optional. -/
def fleetSchema : Schema where
  package := "fleet"
  structs := [
    ⟨"Fleet", .start, [⟨"Devices", .start, .array (.struct 1 false) false, none⟩]⟩,
    ⟨"Device", .start, [
      ⟨"Where", .start, .struct 2 false, none⟩,
      ⟨"Last", .start, .struct 2 true, none⟩]⟩,
    ⟨"Point", .start, [⟨"X", .start, .primitive (.number .float32) false, none⟩]⟩]
  declarations := [
    ⟨"Fleet", .start, .struct 0 false⟩, ⟨"Device", .start, .struct 1 false⟩,
    ⟨"Point", .start, .struct 2 false⟩]
  messages := [⟨"Fleet", .struct 0 false⟩]

end Schema

end WireSchema
