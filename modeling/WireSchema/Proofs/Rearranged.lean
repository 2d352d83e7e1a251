import WireSchema.Proofs.Walks

/-!
# Schemas in another order

A schema can be written down in many orders: the fields of a struct, the structs themselves and the
declarations may stand anywhere. `Rearranged σ s s'` says that `s'` is `s` in another order, in which
the struct `id` has become the struct `σ id`. What is found out about a schema is the same in every
order:

* the structs of **fixed size** are the same, because a round looks at all fields of a struct and not
  at their order, so that every round finds the same structs in both schemas;
* the **canonical order** of fields of different names is the same, because it is a sorted list and
  there is only one;
* the **layouts** are the same, because adding a field to a layout commutes with adding another.

Putting fields into canonical order is itself a rearrangement, one that leaves structs where they are.
-/

namespace WireSchema

/-! ## Structs numbered anew -/

/-- The type with its struct numbered anew. -/
def Ty.renumber (σ : Nat → Nat) : Ty → Ty
  | .primitive p o => .primitive p o
  | .struct id o => .struct (σ id) o
  | .array e o => .array (e.renumber σ) o

def Field.renumber (σ : Nat → Nat) (f : Field) : Field :=
  { f with ty := f.ty.renumber σ }

def StructDef.renumber (σ : Nat → Nat) (d : StructDef) : StructDef :=
  { d with fields := d.fields.map (Field.renumber σ) }

def Declaration.renumber (σ : Nat → Nat) (d : Declaration) : Declaration :=
  { d with ty := d.ty.renumber σ }

def Message.renumber (σ : Nat → Nat) (m : Message) : Message :=
  { m with ty := m.ty.renumber σ }

namespace Ty

variable {σ : Nat → Nat}

theorem optional_renumber (t : Ty) : (t.renumber σ).optional = t.optional := by
  cases t <;> rfl

theorem innermost?_renumber (t : Ty) :
    (t.renumber σ).innermost? = t.innermost?.map σ := by
  induction t with
  | primitive p o => rfl
  | struct id o => rfl
  | array e o ih => exact ih

theorem renumber_id (t : Ty) : t.renumber id = t := by
  induction t with
  | primitive p o => rfl
  | struct id o => rfl
  | array e o ih => rw [renumber, ih]

theorem InRange.renumber {n : Nat} {t : Ty} (ht : t.InRange n) (hσ : ∀ id < n, σ id < n) :
    (t.renumber σ).InRange n := by
  intro id hid
  rw [innermost?_renumber] at hid
  obtain ⟨id', hid', rfl⟩ := Option.map_eq_some_iff.mp hid
  exact hσ id' (ht id' hid')

theorem isFixed_renumber {known known' : Nat → Bool} {t : Ty}
    (h : ∀ id, t.innermost? = some id → known' (σ id) = known id) :
    (t.renumber σ).isFixed known' = t.isFixed known := by
  cases t with
  | primitive p o => rfl
  | struct id o => rw [renumber, isFixed, isFixed, h id rfl]
  | array e o => rfl

theorem category_renumber {known known' : Nat → Bool} {t : Ty}
    (h : ∀ id, t.innermost? = some id → known' (σ id) = known id) :
    (t.renumber σ).category known' = t.category known := by
  cases t with
  | primitive p o => cases o <;> rfl
  | struct id o =>
    cases o
    · rw [renumber, category, category, h id rfl]
    · rfl
  | array e o => cases o <;> rfl

theorem layout_renumber {L L' : Nat → Layout} {t : Ty}
    (h : ∀ id, t.innermost? = some id → L' (σ id) = L id) :
    (t.renumber σ).layout L' = t.layout L := by
  induction t with
  | primitive p o => rfl
  | struct id o => rw [renumber, layout, layout, h id rfl]; rfl
  | array e o ih => rw [renumber, layout, layout, ih h]; rfl

end Ty

theorem Field.renumber_id : renumber id = id :=
  funext fun f => by rw [renumber, Ty.renumber_id, id]

theorem Declaration.renumber_id : renumber id = id :=
  funext fun d => by rw [renumber, Ty.renumber_id, id]

theorem Message.renumber_id : renumber id = id :=
  funext fun m => by rw [renumber, Ty.renumber_id, id]

/-! ## Sorting -/

namespace Field

variable {known : Nat → Bool}

theorem precedes_iff {f g : Field} : f.precedes known g = true ↔
    (f.ty.category known).rank < (g.ty.category known).rank ∨
      (f.ty.category known).rank = (g.ty.category known).rank ∧ f.name ≤ g.name := by
  simp only [precedes, Bool.or_eq_true, Bool.and_eq_true, beq_iff_eq, decide_eq_true_eq,
    Bool.not_eq_true', decide_eq_false_iff_not, String.not_lt]

theorem precedes_trans (f g h : Field) (h₁ : f.precedes known g = true)
    (h₂ : g.precedes known h = true) : f.precedes known h = true := by
  rw [precedes_iff] at h₁ h₂ ⊢
  rcases h₁ with h₁ | ⟨h₁, hfg⟩
  · left
    omega
  · rcases h₂ with h₂ | ⟨h₂, hgh⟩
    · left
      omega
    · exact .inr ⟨h₁.trans h₂, String.le_trans hfg hgh⟩

theorem precedes_total (f g : Field) : (f.precedes known g || g.precedes known f) = true := by
  rw [Bool.or_eq_true, precedes_iff, precedes_iff]
  rcases Nat.lt_trichotomy (f.ty.category known).rank (g.ty.category known).rank with h | h | h
  · exact .inl (.inl h)
  · rcases String.le_total f.name g.name with hle | hle
    · exact .inl (.inr ⟨h, hle⟩)
    · exact .inr (.inr ⟨h.symm, hle⟩)
  · exact .inr (.inl h)

theorem pairwise_mergeSort (fields : List Field) :
    (fields.mergeSort (precedes known)).Pairwise fun f g => f.precedes known g = true :=
  List.pairwise_mergeSort precedes_trans precedes_total fields

/-- Fields that may stand in front of each other have one name. -/
theorem name_eq_of_precedes {f g : Field} (h : f.precedes known g = true)
    (h' : g.precedes known f = true) : f.name = g.name := by
  rw [precedes_iff] at h h'
  rcases h with h | ⟨hrank, h⟩
  · rcases h' with h' | ⟨h', _⟩ <;> omega
  · rcases h' with h' | ⟨_, h'⟩
    · omega
    · exact String.le_antisymm h h'

/-- **Fields of different names are sorted into one list**, in whatever order they come. -/
theorem mergeSort_eq_of_perm {fields fields' : List Field} (h : fields'.Perm fields)
    (hnames : (fields.map (·.name)).Nodup) :
    fields'.mergeSort (precedes known) = fields.mergeSort (precedes known) := by
  have hsorted : (fields'.mergeSort (precedes known)).Perm (fields.mergeSort (precedes known)) :=
    ((List.mergeSort_perm _ _).trans h).trans (List.mergeSort_perm _ _).symm
  refine hsorted.eq_of_pairwise (fun f g hf hg hfg hgf => ?_) (pairwise_mergeSort fields')
    (pairwise_mergeSort fields)
  have hf' := h.mem_iff.mp (List.mem_mergeSort.mp hf)
  exact List.inj_on_of_nodup_map hnames hf' (List.mem_mergeSort.mp hg) (name_eq_of_precedes hfg hgf)

theorem precedes_renumber {σ : Nat → Nat} {known' : Nat → Bool} {f g : Field}
    (hf : ∀ id, f.ty.innermost? = some id → known' (σ id) = known id)
    (hg : ∀ id, g.ty.innermost? = some id → known' (σ id) = known id) :
    (f.renumber σ).precedes known' (g.renumber σ) = f.precedes known g := by
  unfold precedes renumber
  rw [Ty.category_renumber hf, Ty.category_renumber hg]

end Field

/-! ## Layouts of fields in another order -/

theorem addSize_right_comm (a b c : Nat) : addSize (addSize a b) c = addSize (addSize a c) b := by
  unfold addSize
  omega

theorem Layout.addField_right_comm (whole : Layout) (t t' : Ty) (l l' : Layout) :
    (whole.addField t l).addField t' l' = (whole.addField t' l').addField t l := by
  unfold addField
  congr 1
  · exact Bool.and_right_comm _ _ _
  · exact addSize_right_comm _ _ _
  · exact Bool.or_right_comm _ _ _
  · exact Bool.or_right_comm _ _ _
  · dsimp only
    split <;> split <;> omega

/-- The order of fields makes no difference to the layout of a struct. -/
theorem Layout.ofFields_perm {L : Nat → Layout} {fields fields' : List Field}
    (h : fields'.Perm fields) : ofFields L fields' = ofFields L fields := by
  unfold ofFields
  rw [h.foldl_eq' fun f _ g _ whole => addField_right_comm whole f.ty g.ty _ _]

theorem Layout.ofFields_renumber {σ : Nat → Nat} {L L' : Nat → Layout} {fields : List Field}
    (h : ∀ id ∈ fieldTargets fields, L' (σ id) = L id) :
    ofFields L' (fields.map (Field.renumber σ)) = ofFields L fields := by
  unfold ofFields
  rw [List.foldl_map]
  congr 1
  refine List.foldl_ext _ _ _ fun whole f hf => ?_
  have hlayout : (f.renumber σ).ty.layout L' = f.ty.layout L :=
    Ty.layout_renumber fun id hid => h id (mem_fieldTargets hf hid)
  have hinner : (f.renumber σ).ty.innermost?.isSome = f.ty.innermost?.isSome := by
    rw [Field.renumber, Ty.innermost?_renumber, Option.isSome_map]
  unfold addField
  rw [hlayout, hinner]

namespace Schema

variable {s s' : Schema} {σ : Nat → Nat}

/-! ## Rearrangements -/

/-- `s'` is `s` with its structs, the fields of each of them, its declarations and its messages in
another order. The struct `id` of `s` is the struct `σ id` of `s'`. -/
structure Rearranged (σ : Nat → Nat) (s s' : Schema) : Prop where
  package : s'.package = s.package
  length : s'.structs.length = s.structs.length
  maps : ∀ id < s.structs.length, σ id < s.structs.length
  inj : ∀ id < s.structs.length, ∀ id' < s.structs.length, σ id = σ id' → id = id'
  structs : ∀ id d, s.structs[id]? = some d →
    ∃ fields, fields.Perm (d.fields.map (Field.renumber σ)) ∧
      s'.structs[σ id]? = some { d with fields }
  declarations : s'.declarations.Perm (s.declarations.map (Declaration.renumber σ))
  messages : s'.messages.Perm (s.messages.map (Message.renumber σ))

theorem fieldsOf_of_getElem? {id : Nat} {d : StructDef} (h : s.structs[id]? = some d) :
    s.fieldsOf id = d.fields := by
  rw [fieldsOf, h]

theorem exists_struct {id : Nat} (h : id < s.structs.length) :
    ∃ d, s.structs[id]? = some d ∧ s.fieldsOf id = d.fields :=
  ⟨_, List.getElem?_eq_getElem h, fieldsOf_of_getElem? (List.getElem?_eq_getElem h)⟩

theorem InRange.fieldsOf (hs : s.InRange) {id : Nat} {f : Field} (hf : f ∈ s.fieldsOf id) :
    f.ty.InRange s.structs.length := by
  obtain ⟨d, hd, hfd⟩ := mem_fieldsOf hf
  exact hs.fields d hd f hfd

/-- Putting fields into canonical order moves no struct. -/
theorem rearranged_canonical (s : Schema) : s.Rearranged id s.canonical where
  package := rfl
  length := List.length_map _
  maps _ h := h
  inj _ _ _ _ h := h
  structs i d hd := by
    refine ⟨d.fields.mergeSort (Field.precedes fun id => s.fixedStructs.getD id false), ?_, ?_⟩
    · rw [Field.renumber_id, List.map_id]
      exact List.mergeSort_perm _ _
    · rw [canonical, List.getElem?_map, id, hd]
      rfl
  declarations := by
    rw [Declaration.renumber_id, List.map_id]
    exact .rfl
  messages := by
    rw [Message.renumber_id, List.map_id]
    exact .rfl

namespace Rearranged

variable (h : s.Rearranged σ s')
include h

/-- The same fields, numbered anew and in some order. -/
theorem fieldsOf {id : Nat} (hid : id < s.structs.length) :
    (s'.fieldsOf (σ id)).Perm ((s.fieldsOf id).map (Field.renumber σ)) := by
  obtain ⟨d, hd, hfields⟩ := exists_struct hid
  obtain ⟨fields, hperm, hd'⟩ := h.structs id d hd
  rw [hfields, fieldsOf_of_getElem? hd']
  exact hperm

theorem targets {id : Nat} (hid : id < s.structs.length) :
    (s'.targets (σ id)).Perm ((s.targets id).map σ) := by
  have hperm := (h.fieldsOf hid).filterMap (·.ty.innermost?)
  rw [List.filterMap_map] at hperm
  have hmap : (s.targets id).map σ
      = (s.fieldsOf id).filterMap ((·.ty.innermost?) ∘ Field.renumber σ) := by
    unfold Schema.targets fieldTargets
    rw [List.map_filterMap]
    exact List.filterMap_congr fun f _ => (Ty.innermost?_renumber f.ty).symm
  rw [hmap]
  exact hperm

/-- Every struct has come from somewhere. -/
theorem surj {id' : Nat} (hid' : id' < s.structs.length) : ∃ id < s.structs.length, σ id = id' := by
  have hnodup : ((List.range s.structs.length).map σ).Nodup := by
    refine List.Nodup.map_on (fun a ha b hb => ?_) List.nodup_range
    exact h.inj a (List.mem_range.mp ha) b (List.mem_range.mp hb)
  have hsub : (List.range s.structs.length).map σ ⊆ List.range s.structs.length := by
    intro id hid
    obtain ⟨i, hi, rfl⟩ := List.mem_map.mp hid
    exact List.mem_range.mpr (h.maps i (List.mem_range.mp hi))
  -- as many numbers as there are, all different, are all numbers
  have hperm := (List.subperm_of_subset hnodup hsub).perm_of_length_le (by simp)
  obtain ⟨id, hid, hσ⟩ := List.mem_map.mp (hperm.mem_iff.mpr (List.mem_range.mpr hid'))
  exact ⟨id, List.mem_range.mp hid, hσ⟩

theorem inRange (hs : s.InRange) : s'.InRange := by
  refine ⟨fun d' hd' f hf => ?_, fun d hd => ?_, fun m hm => ?_⟩
  · obtain ⟨id', hid'⟩ := List.mem_iff_getElem?.mp hd'
    obtain ⟨hlt, _⟩ := List.getElem?_eq_some_iff.mp hid'
    rw [h.length] at hlt ⊢
    obtain ⟨id, hid, rfl⟩ := h.surj hlt
    have hfields := h.fieldsOf hid
    rw [fieldsOf_of_getElem? hid'] at hfields
    obtain ⟨g, hg, rfl⟩ := List.mem_map.mp (hfields.mem_iff.mp hf)
    exact (hs.fieldsOf hg).renumber h.maps
  · obtain ⟨d₀, hd₀, rfl⟩ := List.mem_map.mp (h.declarations.mem_iff.mp hd)
    rw [h.length]
    exact (hs.declarations d₀ hd₀).renumber h.maps
  · obtain ⟨m₀, hm₀, rfl⟩ := List.mem_map.mp (h.messages.mem_iff.mp hm)
    rw [h.length]
    exact (hs.messages m₀ hm₀).renumber h.maps

/-- A struct takes its rank along. -/
theorem exists_rank (hs : s.InRange) {rank : Nat → Nat} (hr : s.Ranked rank) :
    ∃ rank', s'.Ranked rank' := by
  classical
  let back (id' : Nat) : Nat :=
    if hid' : id' < s.structs.length then (h.surj hid').choose else 0
  have hback : ∀ id < s.structs.length, back (σ id) = id := by
    intro id hid
    have hchosen := (h.surj (h.maps id hid)).choose_spec
    have heq : back (σ id) = (h.surj (h.maps id hid)).choose := dif_pos (h.maps id hid)
    rw [heq]
    exact h.inj _ hchosen.1 id hid hchosen.2
  refine ⟨fun id' => rank (back id'), fun id' target' ht => ?_, fun id' hid' => ?_⟩
  · have hid' := lt_of_leads ht
    rw [h.length] at hid'
    obtain ⟨id, hid, rfl⟩ := h.surj hid'
    obtain ⟨target, htarget, rfl⟩ := List.mem_map.mp ((h.targets hid).mem_iff.mp ht)
    rw [hback id hid, hback target (hs.target_lt htarget)]
    exact hr.target_lt id target htarget
  · rw [h.length] at hid' ⊢
    obtain ⟨id, hid, rfl⟩ := h.surj hid'
    rw [hback id hid]
    exact hr.lt id hid

/-! ### Structs of fixed size -/

omit h in
theorem getD_fixedStep {s : Schema} {known : Array Bool} {id : Nat} (hid : id < s.structs.length) :
    (s.fixedStep known).getD id false
      = (s.fieldsOf id).all fun f => f.ty.isFixed fun id => known.getD id false := by
  obtain ⟨d, hd, hfields⟩ := exists_struct hid
  rw [fixedStep, Array.getD_eq_getD_getElem?, List.getElem?_toArray, List.getElem?_map, hd, hfields]
  rfl

/-- **The step.** From the same structs, a round finds the same structs. -/
theorem fixedStep (hs : s.InRange) {known known' : Array Bool}
    (hknown : ∀ id < s.structs.length, known'.getD (σ id) false = known.getD id false) :
    ∀ id < s.structs.length,
      (s'.fixedStep known').getD (σ id) false = (s.fixedStep known).getD id false := by
  intro id hid
  have hid' : σ id < s'.structs.length := h.length ▸ h.maps id hid
  rw [getD_fixedStep hid', getD_fixedStep hid, (h.fieldsOf hid).all_eq, List.all_map]
  rw [Bool.eq_iff_iff, List.all_eq_true, List.all_eq_true]
  refine forall₂_congr fun f hf => ?_
  rw [Function.comp_apply, Field.renumber,
    Ty.isFixed_renumber fun i hi => hknown i (hs.fieldsOf hf i hi)]

/-- **The run.** So do any number of rounds. -/
theorem rounds_fixedStep (hs : s.InRange) (n : Nat) : ∀ {known known' : Array Bool},
    (∀ id < s.structs.length, known'.getD (σ id) false = known.getD id false) →
    ∀ id < s.structs.length, (rounds s'.fixedStep n known').getD (σ id) false
      = (rounds s.fixedStep n known).getD id false := by
  induction n with
  | zero => exact fun hknown => hknown
  | succ n ih =>
    intro known known' hknown
    exact ih (h.fixedStep hs hknown)

/-- **The structs of fixed size are the same.** -/
theorem isFixedStruct (hs : s.InRange) {id : Nat} (hid : id < s.structs.length) :
    s'.isFixedStruct (σ id) = s.isFixedStruct id := by
  have hnone : ∀ (structs : List StructDef) (id : Nat),
      (structs.map fun _ => false).toArray.getD id false = false := by
    intro structs id
    rw [Array.getD_eq_getD_getElem?, List.getElem?_toArray, List.getElem?_map]
    cases structs[id]? <;> rfl
  unfold Schema.isFixedStruct fixedStructs
  rw [settle_eq_rounds, settle_eq_rounds, h.length]
  refine h.rounds_fixedStep hs _ (fun i _ => ?_) id hid
  rw [hnone, hnone]

/-- **Canonical order does not depend on the order it starts from**, where fields have different
names. -/
theorem canonical_structs (hs : s.InRange) (hnames : ∀ d ∈ s.structs, (d.fields.map (·.name)).Nodup)
    {id : Nat} {d : StructDef} (hd : s.canonical.structs[id]? = some d) :
    s'.canonical.structs[σ id]? = some (d.renumber σ) := by
  rw [canonical, List.getElem?_map, Option.map_eq_some_iff] at hd
  obtain ⟨d₀, hd₀, rfl⟩ := hd
  have hmem := List.mem_of_getElem? hd₀
  obtain ⟨fields, hperm, hd'⟩ := h.structs id d₀ hd₀
  rw [canonical, List.getElem?_map, hd']
  have hnames' : ((d₀.fields.map (Field.renumber σ)).map (·.name)).Nodup := by
    rw [List.map_map]
    exact hnames d₀ hmem
  have hfixed : ∀ f ∈ d₀.fields, ∀ i, f.ty.innermost? = some i →
      s'.fixedStructs.getD (σ i) false = s.fixedStructs.getD i false :=
    fun f hf i hi => h.isFixedStruct hs (hs.fields d₀ hmem f hf i hi)
  have hsorted : (d₀.fields.map (Field.renumber σ)).mergeSort
        (Field.precedes fun id => s'.fixedStructs.getD id false)
      = (d₀.fields.mergeSort (Field.precedes fun id => s.fixedStructs.getD id false)).map
        (Field.renumber σ) := by
    refine (List.map_mergeSort fun f hf g hg => ?_).symm
    exact (Field.precedes_renumber (hfixed f hf) (hfixed g hg)).symm
  rw [Option.map_some, StructDef.renumber, Field.mergeSort_eq_of_perm hperm hnames', hsorted]

/-! ### Layouts -/

/-- **The layouts are the same.** -/
theorem layout_eq (hs : s.InRange) {rank : Nat → Nat} (hr : s.Ranked rank) {L L' : Nat → Layout}
    (hL : s.IsLayout L) (hL' : s'.IsLayout L') : ∀ id < s.structs.length, L' (σ id) = L id := by
  have hbelow : ∀ n id, rank id < n → id < s.structs.length → L' (σ id) = L id := by
    intro n
    induction n with
    | zero => exact fun id hid => absurd hid (Nat.not_lt_zero _)
    | succ n ih =>
      intro id hrank hid
      rw [hL' (σ id), hL id, Layout.ofFields_perm (h.fieldsOf hid)]
      refine Layout.ofFields_renumber fun target ht => ?_
      have hdown := hr.target_lt id target ht
      exact ih target (by omega) (hs.target_lt ht)
  exact fun id hid => hbelow _ id (Nat.lt_succ_self _) hid

end Rearranged

/-! ## Analyses -/

/-- The analysis of a schema whose structs have the given layouts. -/
def analysisWith (s : Schema) (L : Nat → Layout) : Analysis where
  structs := s.structIds.map L
  declarations := s.declarations.foldl
    (fun found d => insertByName d.name (d.ty.layout L) found) []
  messages := s.messages.foldl (fun found m => insertByName m.name (m.ty.layout L) found) []

/-- **A schema with ranks is analyzed**, and its analysis is made of its layouts. -/
theorem Ranked.analyze_eq (hs : s.InRange) {rank : Nat → Nat} (hr : s.Ranked rank) :
    ∃ L, s.IsLayout L ∧ s.analyze = .ok (s.analysisWith L) := by
  obtain ⟨known, hknown⟩ := hr.layoutStructs_ok
  obtain ⟨hb, hall⟩ := layoutStructs_built hs hknown
  refine ⟨layoutIn known, hb.isLayout hall, ?_⟩
  rw [analyze, hknown]
  rfl

/-- **Canonical order makes no difference to the analysis.** -/
theorem Ranked.analyze_canonical (hs : s.InRange) {rank : Nat → Nat} (hr : s.Ranked rank) :
    ∃ a, s.analyze = .ok a ∧ s.canonical.analyze = .ok a := by
  have h := s.rearranged_canonical
  obtain ⟨L, hL, ha⟩ := hr.analyze_eq hs
  obtain ⟨rank', hr'⟩ := h.exists_rank hs hr
  obtain ⟨L', hL', ha'⟩ := hr'.analyze_eq (h.inRange hs)
  refine ⟨_, ha, ?_⟩
  have hlayout : ∀ id < s.structs.length, L' id = L id := h.layout_eq hs hr hL hL'
  have hty : ∀ t : Ty, t.InRange s.structs.length → t.layout L' = t.layout L :=
    fun t ht => Ty.layout_congr fun id hid => hlayout id (ht id hid)
  have hsame : s.canonical.analysisWith L' = s.analysisWith L := by
    unfold analysisWith structIds
    congr 1
    · rw [h.length]
      exact List.map_congr_left fun id hid => hlayout id (List.mem_range.mp hid)
    · exact List.foldl_ext _ _ _ fun found d hd => by rw [hty d.ty (hs.declarations d hd)]
    · exact List.foldl_ext _ _ _ fun found m hm => by rw [hty m.ty (hs.messages m hm)]
  rw [ha', hsame]

/-- No two declarations of this name have different types. -/
def DeclarationsAgree (s : Schema) (name : String) : Prop :=
  ∀ d ∈ s.declarations, ∀ d' ∈ s.declarations, d.name = name → d'.name = name → d.ty = d'.ty

/-- No two messages of this name have different types. -/
def MessagesAgree (s : Schema) (name : String) : Prop :=
  ∀ m ∈ s.messages, ∀ m' ∈ s.messages, m.name = name → m'.name = name → m.ty = m'.ty

theorem lookup_declarations (L : Nat → Layout) {d : Declaration} (hd : d ∈ s.declarations)
    (hagree : s.DeclarationsAgree d.name) :
    (s.analysisWith L).declarations.lookup d.name = some (d.ty.layout L) := by
  refine inserts_insertByName.lookup_foldl_of_agree hd (fun d' hd' hname => ?_) []
  rw [hagree d' hd' d hd hname rfl]

theorem lookup_messages (L : Nat → Layout) {m : Message} (hm : m ∈ s.messages)
    (hagree : s.MessagesAgree m.name) :
    (s.analysisWith L).messages.lookup m.name = some (m.ty.layout L) := by
  refine inserts_insertByName.lookup_foldl_of_agree hm (fun m' hm' hname => ?_) []
  rw [hagree m' hm' m hm hname rfl]

theorem Rearranged.declarationsAgree (h : s.Rearranged σ s') {name : String}
    (hagree : s.DeclarationsAgree name) : s'.DeclarationsAgree name := by
  intro e he e' he' hname hname'
  obtain ⟨d, hd, rfl⟩ := List.mem_map.mp (h.declarations.mem_iff.mp he)
  obtain ⟨d', hd', rfl⟩ := List.mem_map.mp (h.declarations.mem_iff.mp he')
  exact congrArg (Ty.renumber σ) (hagree d hd d' hd' hname hname')

theorem Rearranged.messagesAgree (h : s.Rearranged σ s') {name : String}
    (hagree : s.MessagesAgree name) : s'.MessagesAgree name := by
  intro e he e' he' hname hname'
  obtain ⟨m, hm, rfl⟩ := List.mem_map.mp (h.messages.mem_iff.mp he)
  obtain ⟨m', hm', rfl⟩ := List.mem_map.mp (h.messages.mem_iff.mp he')
  exact congrArg (Ty.renumber σ) (hagree m hm m' hm' hname hname')

/-- **Analyses of a schema and of its rearrangement agree** about every struct, and about every
declaration and message of which there are not two of one name and different types. -/
theorem Rearranged.analyze (h : s.Rearranged σ s') (hs : s.InRange) {rank : Nat → Nat}
    (hr : s.Ranked rank) :
    ∃ a a', s.analyze = .ok a ∧ s'.analyze = .ok a' ∧
      (∀ id < s.structs.length, ∃ l, a.structs[id]? = some l ∧ a'.structs[σ id]? = some l) ∧
      (∀ d ∈ s.declarations, s.DeclarationsAgree d.name →
        ∃ l, a.declarations.lookup d.name = some l ∧ a'.declarations.lookup d.name = some l) ∧
      ∀ m ∈ s.messages, s.MessagesAgree m.name →
        ∃ l, a.messages.lookup m.name = some l ∧ a'.messages.lookup m.name = some l := by
  obtain ⟨L, hL, ha⟩ := hr.analyze_eq hs
  obtain ⟨rank', hr'⟩ := h.exists_rank hs hr
  obtain ⟨L', hL', ha'⟩ := hr'.analyze_eq (h.inRange hs)
  have hlayout := h.layout_eq hs hr hL hL'
  have hty : ∀ t : Ty, t.InRange s.structs.length → (t.renumber σ).layout L' = t.layout L :=
    fun t ht => Ty.layout_renumber fun id hid => hlayout id (ht id hid)
  refine ⟨_, _, ha, ha', fun id hid => ⟨L id, ?_, ?_⟩, fun d hd hagree => ⟨d.ty.layout L, ?_, ?_⟩,
    fun m hm hagree => ⟨m.ty.layout L, ?_, ?_⟩⟩
  · rw [analysisWith, structIds, List.getElem?_map, List.getElem?_range hid]
    rfl
  · rw [analysisWith, structIds, List.getElem?_map, h.length, List.getElem?_range (h.maps id hid),
      Option.map_some, hlayout id hid]
  · exact lookup_declarations L hd hagree
  · have hd' := h.declarations.mem_iff.mpr (List.mem_map_of_mem hd)
    rw [← hty d.ty (hs.declarations d hd)]
    exact lookup_declarations L' hd' (h.declarationsAgree hagree)
  · exact lookup_messages L hm hagree
  · have hm' := h.messages.mem_iff.mpr (List.mem_map_of_mem hm)
    rw [← hty m.ty (hs.messages m hm)]
    exact lookup_messages L' hm' (h.messagesAgree hagree)

end Schema

end WireSchema
