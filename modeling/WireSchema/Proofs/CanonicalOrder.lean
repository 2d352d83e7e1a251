import WireSchema.Proofs.WellFormed

/-!
# The laws of canonical order

Canonical order is a **stable sort** of the fields of every struct: by category, by name in one
category, and with fields of one category and one name as they stood. `StablySorted` says this of two
lists without a sorting algorithm, and there is only one list that it holds of. Nothing here asks for
names to be different or for structs to be free of circles. All laws follow from one fact: the
structs of fixed size are the same when fields are put into another order. So the categories that a
second pass sorts by are those of the first, and it finds every list sorted.
-/

namespace WireSchema

/-! ## Lists that are sorted stably -/

section Lists

variable {α κ : Type} [DecidableEq κ] {key : α → κ} {before : α → α → Prop}

/-- A list in which nothing stands behind what it comes before is known by what it holds of every
key, in order. -/
theorem eq_of_filter_key_eq (htotal : ∀ a b, ¬ before a b → ¬ before b a → key a = key b) :
    ∀ {as bs : List α}, as.Pairwise (fun a b => ¬ before b a) →
      bs.Pairwise (fun a b => ¬ before b a) →
      (∀ k, as.filter (key · = k) = bs.filter (key · = k)) → as = bs := by
  have hmem : ∀ {as bs : List α}, (∀ k, as.filter (key · = k) = bs.filter (key · = k)) →
      ∀ a ∈ as, a ∈ bs := by
    intro as bs h a ha
    have hfilter : a ∈ as.filter (key · = key a) := List.mem_filter.mpr ⟨ha, by simp⟩
    rw [h] at hfilter
    exact (List.mem_filter.mp hfilter).1
  intro as
  induction as with
  | nil =>
    intro bs _ _ h
    cases bs with
    | nil => rfl
    | cons b bs => exact absurd (hmem (fun k => (h k).symm) b List.mem_cons_self) (by simp)
  | cons a as ih =>
    intro bs has hbs h
    cases bs with
    | nil => exact absurd (hmem h a List.mem_cons_self) (by simp)
    | cons b bs =>
      rw [List.pairwise_cons] at has hbs
      -- each head is in the other list, so neither comes before the other
      have hkey : key a = key b := by
        rcases List.mem_cons.mp (hmem h a List.mem_cons_self) with hab | ha
        · rw [hab]
        · rcases List.mem_cons.mp (hmem (fun k => (h k).symm) b List.mem_cons_self) with hba | hb
          · rw [hba]
          · exact htotal a b (hbs.1 a ha) (has.1 b hb)
      have hheads := h (key b)
      rw [List.filter_cons_of_pos (by simp [hkey]), List.filter_cons_of_pos (by simp)] at hheads
      injection hheads with hab htails
      subst hab
      congr 1
      refine ih has.2 hbs.2 fun k => ?_
      by_cases hk : key a = k
      · rw [← hk]
        exact htails
      · have hk' := h k
        rwa [List.filter_cons_of_neg (by simpa using hk),
          List.filter_cons_of_neg (by simpa using hk)] at hk'

/-- Sorting by `le` leaves elements that may stand on either side of each other as they are. -/
theorem filter_mergeSort {le : α → α → Bool} (htrans : ∀ a b c, le a b → le b c → le a c)
    (hle : ∀ a b, le a b || le b a) (p : α → Bool) (l : List α)
    (hp : ∀ a b, p a → p b → le a b) : (l.mergeSort le).filter p = l.filter p := by
  have hsorted : (l.filter p).Pairwise (le · ·) := by
    refine List.pairwise_of_forall_mem_list fun a ha b hb => ?_
    exact hp a b (List.mem_filter.mp ha).2 (List.mem_filter.mp hb).2
  have hsub := (List.sublist_mergeSort htrans hle hsorted List.filter_sublist).filter p
  simp only [List.filter_filter, Bool.and_self] at hsub
  exact (hsub.eq_of_length ((List.mergeSort_perm l le).filter p).length_eq.symm).symm

/-- To compare neighbours is enough. -/
theorem isOrdered_iff_pairwise {precedes : α → α → Bool}
    (htrans : ∀ a b c, precedes a b → precedes b c → precedes a c) {l : List α} :
    isOrdered precedes l = true ↔ l.Pairwise (precedes · ·) := by
  have hneighbours : isOrdered precedes l = true ↔ l.IsChain (precedes · ·) := by
    induction l with
    | nil => simp [isOrdered]
    | cons a l ih =>
      cases l with
      | nil => simp [isOrdered]
      | cons b l => rw [isOrdered, Bool.and_eq_true, ih, List.isChain_cons_cons]
  have : Trans (precedes · · : α → α → Prop) (precedes · ·) (precedes · ·) := ⟨htrans _ _ _⟩
  rw [hneighbours, List.isChain_iff_pairwise]

end Lists

namespace Schema

/-! ## Canonical order as a stable sort -/

section Sorting

variable (s : Schema)

/-- What fields are sorted by. -/
def sortKey (f : Field) : Category × String :=
  (s.categoryOf f, f.name)

/-- `sorted` is the list of fields that a stable sort by category and name makes of `fields`. -/
structure StablySorted (fields sorted : List Field) : Prop where
  perm : sorted.Perm fields
  ordered : sorted.Pairwise fun f g => ¬ s.Before g f
  /-- Fields of one category and one name keep the order they have. -/
  stable : ∀ key, sorted.filter (s.sortKey · = key) = fields.filter (s.sortKey · = key)

/-- `d'` is `d` with its fields sorted stably, and the only struct that is. -/
def SortedInto (d d' : StructDef) : Prop :=
  ∃ fields, d' = { d with fields } ∧ ∀ sorted, s.StablySorted d.fields sorted ↔ sorted = fields

variable {s}

theorem sortKey_eq_of_not_before {f g : Field} (h : ¬ s.Before f g) (h' : ¬ s.Before g f) :
    s.sortKey f = s.sortKey g := by
  unfold Before at h h'
  have hrank : (s.categoryOf f).rank = (s.categoryOf g).rank := by omega
  have hcategory := Category.rank_inj hrank
  have hle : g.name ≤ f.name := String.not_lt.mp fun hlt => h (.inr ⟨hcategory, hlt⟩)
  have hge : f.name ≤ g.name := String.not_lt.mp fun hlt => h' (.inr ⟨hcategory.symm, hlt⟩)
  unfold sortKey
  rw [hcategory, String.le_antisymm hge hle]

theorem precedes_iff_not_before {f g : Field} :
    f.precedes s.isFixedStruct g = true ↔ ¬ s.Before g f := by
  rw [Field.precedes_iff]
  unfold Before
  change (s.categoryOf f).rank < (s.categoryOf g).rank ∨
    (s.categoryOf f).rank = (s.categoryOf g).rank ∧ f.name ≤ g.name ↔ _
  constructor
  · intro h hbefore
    rcases hbefore with hlt | ⟨hcategory, hlt⟩
    · omega
    · rcases h with h | ⟨_, hle⟩
      · rw [hcategory] at h
        omega
      · exact String.not_lt.mpr hle hlt
  · intro h
    rcases Nat.lt_trichotomy (s.categoryOf f).rank (s.categoryOf g).rank with hlt | heq | hgt
    · exact .inl hlt
    · refine .inr ⟨heq, String.not_lt.mp fun hlt => h (.inr ⟨(Category.rank_inj heq).symm, hlt⟩)⟩
    · exact absurd (.inl hgt) h

theorem StablySorted.unique {fields sorted sorted' : List Field} (h : s.StablySorted fields sorted)
    (h' : s.StablySorted fields sorted') : sorted = sorted' := by
  have htotal : ∀ f g, ¬ s.Before f g → ¬ s.Before g f → s.sortKey f = s.sortKey g :=
    fun _ _ => sortKey_eq_of_not_before
  refine eq_of_filter_key_eq htotal h.ordered h'.ordered fun key => ?_
  rw [h.stable, h'.stable]

theorem stablySorted_mergeSort (fields : List Field) :
    s.StablySorted fields (fields.mergeSort (Field.precedes s.isFixedStruct)) := by
  refine ⟨List.mergeSort_perm _ _, ?_, fun key => ?_⟩
  · exact (Field.pairwise_mergeSort fields).imp precedes_iff_not_before.mp
  · refine filter_mergeSort Field.precedes_trans Field.precedes_total _ fields fun f g hf hg => ?_
    rw [decide_eq_true_eq] at hf hg
    obtain ⟨hcategory, hname⟩ := Prod.mk.inj (hf.trans hg.symm)
    have hle : f.name ≤ g.name := by simp only [hname, String.le_refl]
    exact Field.precedes_iff.mpr (.inr ⟨congrArg Category.rank hcategory, hle⟩)

/-- **Every struct is sorted stably**, and nothing but its fields is touched. -/
theorem sortedInto_canonical (s : Schema) :
    List.Forall₂ s.SortedInto s.structs s.canonical.structs := by
  rw [canonical, List.forall₂_map_right_iff, List.forall₂_same]
  intro d _
  refine ⟨_, rfl, fun sorted => ⟨fun h => h.unique (stablySorted_mergeSort _), ?_⟩⟩
  rintro rfl
  exact stablySorted_mergeSort _

end Sorting

/-! ## A second pass -/

variable {s : Schema}

theorem isFixedStruct_of_le {id : Nat} (h : s.structs.length ≤ id) : s.isFixedStruct id = false := by
  have hnone : s.structs[id]? = none := List.getElem?_eq_none h
  unfold isFixedStruct fixedStructs
  rw [settle_eq_rounds]
  cases s.structs.length with
  | zero =>
    rw [rounds, Array.getD_eq_getD_getElem?, List.getElem?_toArray, List.getElem?_map, hnone]
    rfl
  | succ n =>
    rw [rounds_succ, fixedStep, Array.getD_eq_getD_getElem?, List.getElem?_toArray,
      List.getElem?_map, hnone]
    rfl

/-- **Canonical order leaves the structs of fixed size as they are.** -/
theorem isFixedStruct_canonical (hs : s.InRange) : s.canonical.isFixedStruct = s.isFixedStruct := by
  funext id
  have h := s.rearranged_canonical
  rcases Nat.lt_or_ge id s.structs.length with hid | hid
  · exact h.isFixedStruct hs hid
  · rw [isFixedStruct_of_le hid, isFixedStruct_of_le (h.length ▸ hid)]

theorem isCanonical_iff : s.isCanonical = true ↔
    ∀ d ∈ s.structs, d.fields.Pairwise fun f g => f.precedes s.isFixedStruct g = true := by
  unfold isCanonical
  rw [List.all_eq_true]
  exact forall₂_congr fun d _ => isOrdered_iff_pairwise Field.precedes_trans

/-- A schema in canonical order is left as it is. -/
theorem canonical_eq_self (h : s.isCanonical = true) : s.canonical = s :=
  canonical_of_ordered (isCanonical_iff.mp h)

/-- **Canonical order is in canonical order.** -/
theorem isCanonical_canonical (hs : s.InRange) : s.canonical.isCanonical = true := by
  rw [isCanonical_iff, isFixedStruct_canonical hs]
  intro d hd
  obtain ⟨d₀, _, hfields⟩ := mem_canonical hd
  rw [hfields]
  exact Field.pairwise_mergeSort _

/-- A struct that contains itself, with two fields of one name. -/
def tangledSchema : Schema where
  package := "knots"
  structs := [
    ⟨"Knot", .start, [
      ⟨"Next", .start, .struct 0 false, none⟩,
      ⟨"Twin", .start, .primitive (.number .int32) false, some "json:\"second\""⟩,
      ⟨"Twin", .start, .primitive (.number .float32) false, some "json:\"first\""⟩,
      ⟨"Id", .start, .primitive (.number .int64) false, none⟩]⟩]
  declarations := [⟨"Knot", .start, .struct 0 false⟩]
  messages := [⟨"Knot", .struct 0 false⟩]

example : (tangledSchema.canonical.fieldsOf 0).map (·.tag) =
    [none, some "json:\"second\"", some "json:\"first\"", none] := by cbv

end Schema

end WireSchema
