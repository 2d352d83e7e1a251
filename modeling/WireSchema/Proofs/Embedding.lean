import WireSchema.Proofs.CanonicalOrder
import WireSchema.Proofs.LayoutFacts
import WireSchema.Proofs.Reachable

/-!
# A schema inside a larger one

`Embeds σ s s'` says that the structs of `s` are found again in `s'`: the struct `id` has the number
`σ id` there, the same name, and the same fields in the same order. There may be any number of other
structs in `s'`, before, behind and in between. What is found out about a struct depends on nothing
but what is inside it, so it is the same in both schemas:

* its **layout** and whether it has a **fixed size**, from the structs it leads to upwards;
* the **canonical order** of its fields, because it goes by fixed sizes and names;
* the structs that a **walk** from it leaves, in their order, because the walk in `s'` takes the
  same steps as the one in `s`. How deep the two may go does not matter as long as it is deep enough.

A number that no struct of `s` has is taken to one that no struct of `s'` has. Nothing therefore has
to be said about which numbers are in range.
-/

namespace WireSchema

/-! ## Fields that match -/

/-- The field without the place where it was written. -/
def Field.unplaced (f : Field) : Field :=
  { f with pos := .start }

/-- `g` is `f` with its struct numbered anew, wherever the two were written. -/
structure Field.Matches (σ : Nat → Nat) (f g : Field) : Prop where
  name : g.name = f.name
  ty : g.ty = f.ty.renumber σ
  tag : g.tag = f.tag

variable {σ : Nat → Nat}

namespace Field

theorem matches_iff {f g : Field} : Matches σ f g ↔ (f.renumber σ).unplaced = g.unplaced := by
  constructor
  · rintro ⟨hname, hty, htag⟩
    rw [unplaced, unplaced, hname, hty, htag]
    rfl
  · intro h
    injection h with hname _ hty htag
    exact ⟨hname.symm, hty.symm, htag.symm⟩

theorem Matches.key {f g : Field} (h : Matches σ f g) : g.key = f.key := by
  unfold Field.key
  rw [h.name, h.tag]

theorem forall₂_matches_iff {fields fields' : List Field} :
    List.Forall₂ (Matches σ) fields fields' ↔
      fields.map (fun f => (f.renumber σ).unplaced) = fields'.map unplaced := by
  rw [← List.forall₂_eq_eq_eq, List.forall₂_map_left_iff, List.forall₂_map_right_iff]
  constructor
  · exact fun h => h.imp fun _ _ => matches_iff.mp
  · exact fun h => h.imp fun _ _ => matches_iff.mpr

/-- What is read off a field alone is read off matching fields alike. -/
theorem map_eq_of_matches {α : Type} (g g' : Field → α) {fields fields' : List Field}
    (h : List.Forall₂ (Matches σ) fields fields')
    (hg : ∀ f f', Matches σ f f' → g' f' = g f) : fields'.map g' = fields.map g := by
  rw [← List.forall₂_eq_eq_eq, List.forall₂_map_left_iff, List.forall₂_map_right_iff]
  exact h.flip.imp fun f' f hmatch => hg f f' hmatch

theorem matches_filter (p p' : Field → Bool) {fields fields' : List Field}
    (h : List.Forall₂ (Matches σ) fields fields')
    (hp : ∀ f f', Matches σ f f' → p' f' = p f) :
    List.Forall₂ (Matches σ) (fields.filter p) (fields'.filter p') :=
  List.rel_filter (fun f f' hmatch => iff_of_eq (congrArg (· = true) (hp f f' hmatch).symm)) h

/-- **Matching fields are sorted alike**, if the same structs are known to have a fixed size. -/
theorem matches_mergeSort {known known' : Nat → Bool} (hknown : ∀ id, known' (σ id) = known id)
    {fields fields' : List Field} (h : List.Forall₂ (Matches σ) fields fields') :
    List.Forall₂ (Matches σ) (fields.mergeSort (precedes known))
      (fields'.mergeSort (precedes known')) := by
  rw [forall₂_matches_iff] at h ⊢
  have hrenumber : ∀ f ∈ fields, ∀ g ∈ fields, f.precedes known g
      = (f.renumber σ).unplaced.precedes known' (g.renumber σ).unplaced := by
    intro f _ g _
    exact (precedes_renumber (fun id _ => hknown id) fun id _ => hknown id).symm
  have hunplaced : ∀ f ∈ fields', ∀ g ∈ fields', f.precedes known' g
      = f.unplaced.precedes known' g.unplaced :=
    fun _ _ _ _ => rfl
  rw [List.map_mergeSort hrenumber, List.map_mergeSort hunplaced, h]

end Field

theorem Ty.renumber_injective (hσ : Function.Injective σ) : Function.Injective (renumber σ) := by
  intro t u h
  induction t generalizing u with
  | primitive p o =>
    cases u with
    | primitive p' o' => exact h
    | _ => exact absurd h (by simp [renumber])
  | struct id o =>
    cases u with
    | struct id' o' =>
      injection h with hid ho
      rw [hσ hid, ho]
    | _ => exact absurd h (by simp [renumber])
  | array e o ih =>
    cases u with
    | array e' o' =>
      injection h with he ho
      rw [ih he, ho]
    | _ => exact absurd h (by simp [renumber])

theorem fieldTargets_of_matches {fields fields' : List Field}
    (h : List.Forall₂ (Field.Matches σ) fields fields') :
    fieldTargets fields' = (fieldTargets fields).map σ := by
  unfold fieldTargets
  rw [List.map_filterMap]
  have htargets : fields'.map (·.ty.innermost?) = fields.map fun f => f.ty.innermost?.map σ := by
    refine Field.map_eq_of_matches _ _ h fun f f' hmatch => ?_
    rw [hmatch.ty, Ty.innermost?_renumber]
  have hfilter : ∀ {α : Type} (l : List α) (g : α → Option Nat),
      l.filterMap g = (l.map g).filterMap id :=
    fun l g => by rw [List.filterMap_map, Function.id_comp]
  rw [hfilter fields', hfilter fields, htargets]

/-- The types of fields are all that matters to a layout. -/
theorem Layout.ofFields_congr_types {L : Nat → Layout} {fields fields' : List Field}
    (h : fields'.map (·.ty) = fields.map (·.ty)) : ofFields L fields' = ofFields L fields := by
  have hfold : ∀ fields : List Field, ofFields L fields =
      ((fields.map (·.ty)).foldl (fun whole t => addField whole t (t.layout L)) empty).close :=
    fun fields => by rw [ofFields, List.foldl_map]
  rw [hfold fields', hfold fields, h]

theorem Layout.ofFields_of_matches {L L' : Nat → Layout} {fields fields' : List Field}
    (h : List.Forall₂ (Field.Matches σ) fields fields')
    (hL : ∀ id ∈ fieldTargets fields, L' (σ id) = L id) :
    ofFields L' fields' = ofFields L fields := by
  have htypes : fields'.map (·.ty) = (fields.map (Field.renumber σ)).map (·.ty) := by
    rw [List.map_map]
    exact Field.map_eq_of_matches _ _ h fun f f' hmatch => hmatch.ty
  rw [ofFields_congr_types htypes, ofFields_renumber hL]

section Sizes

variable {layoutOf layoutOf' : Ty → Layout} (hl : ∀ t : Ty, layoutOf' (t.renumber σ) = layoutOf t)
  {fields fields' : List Field} (h : List.Forall₂ (Field.Matches σ) fields fields')
include hl h

/-- The fields of fixed size take the same sizes. -/
theorem fixedSizes_of_matches :
    (fields'.filter fun f => (layoutOf' f.ty).isFixed).map (fun f => (layoutOf' f.ty).fixedSize)
      = (fields.filter fun f => (layoutOf f.ty).isFixed).map fun f =>
          (layoutOf f.ty).fixedSize := by
  have hfixed := Field.matches_filter (fun f => (layoutOf f.ty).isFixed)
    (fun f => (layoutOf' f.ty).isFixed) h fun f f' hmatch => by rw [hmatch.ty, hl]
  exact Field.map_eq_of_matches _ _ hfixed fun f f' hmatch => by rw [hmatch.ty, hl]

/-- The other fields match. -/
theorem matches_varying :
    List.Forall₂ (Field.Matches σ) (fields.filter (not ∘ fun f => (layoutOf f.ty).isFixed))
      (fields'.filter (not ∘ fun f => (layoutOf' f.ty).isFixed)) := by
  refine Field.matches_filter _ _ h fun f f' hmatch => ?_
  rw [Function.comp_apply, Function.comp_apply, hmatch.ty, hl]

end Sizes

/-- Segments made of fields that match. -/
inductive Segment.Matches (σ : Nat → Nat) : Segment → Segment → Prop where
  | single {f f' : Field} : Field.Matches σ f f' → Matches σ (.single f) (.single f')
  | run {fields fields' : List Field} :
      List.Forall₂ (Field.Matches σ) fields fields' → Matches σ (.run fields) (.run fields')

theorem Ty.fixedWidth?_renumber (t : Ty) : (t.renumber σ).fixedWidth? = t.fixedWidth? := by
  cases t with
  | primitive p o => cases o <;> rfl
  | struct id o => rfl
  | array e o => rfl

theorem runsFrom_of_matches {fields fields' : List Field}
    (h : List.Forall₂ (Field.Matches σ) fields fields') (index : Nat) (begun : Option Nat) :
    runsFrom index begun fields' = runsFrom index begun fields := by
  induction h generalizing index begun with
  | nil => rfl
  | cons hmatch _ ih =>
    unfold runsFrom
    rw [hmatch.ty, Ty.fixedWidth?_renumber]
    split <;> simp only [ih]

/-- **Matching fields are cut into matching segments.** -/
theorem segmentsFrom_of_matches (runs : List Run) (index : Nat) {fields fields' : List Field}
    (h : List.Forall₂ (Field.Matches σ) fields fields') :
    List.Forall₂ (Segment.Matches σ) (segmentsFrom runs index fields)
      (segmentsFrom runs index fields') := by
  fun_induction segmentsFrom runs index fields generalizing fields' with
  | case1 index =>
    cases h
    rw [segmentsFrom]
    exact .nil
  | case2 index f rest r hfind hsize ih =>
    cases h with
    | cons hmatch hrest =>
      rw [segmentsFrom]
      split
      · rename_i r' hfind'
        obtain rfl : r = r' := Option.some.inj (hfind.symm.trans hfind')
        have hfields := List.Forall₂.cons hmatch hrest
        exact .cons (.run (List.forall₂_take _ hfields)) (ih (List.forall₂_drop _ hfields))
      · rename_i hfind'
        exact absurd (hfind.symm.trans hfind') (by simp)
  | case3 index f rest hfind ih =>
    cases h with
    | cons hmatch hrest =>
      rw [segmentsFrom]
      split
      · rename_i r' hfind'
        exact absurd (hfind.symm.trans hfind') (by simp)
      · exact .cons (.single hmatch) (ih hrest)

namespace Schema

variable {s s' : Schema} {rank rank' : Nat → Nat} {L L' : Nat → Layout}

/-! ## Embeddings -/

/-- The structs of `s` are found again in `s'`, the struct `id` under the number `σ id`. -/
structure Embeds (σ : Nat → Nat) (s s' : Schema) : Prop where
  inj : Function.Injective σ
  lt_iff : ∀ id, σ id < s'.structs.length ↔ id < s.structs.length
  structName : ∀ id, s'.structName (σ id) = s.structName id
  fieldsOf : ∀ id, List.Forall₂ (Field.Matches σ) (s.fieldsOf id) (s'.fieldsOf (σ id))

/-- A struct in canonical order has its fields sorted. -/
theorem fieldsOf_canonical (s : Schema) (id : Nat) :
    s.canonical.fieldsOf id = (s.fieldsOf id).mergeSort (Field.precedes s.isFixedStruct) := by
  unfold fieldsOf canonical
  rw [List.getElem?_map]
  cases s.structs[id]? with
  | none => exact List.mergeSort_nil.symm
  | some d => rfl

theorem structName_canonical (s : Schema) (id : Nat) :
    s.canonical.structName id = s.structName id := by
  unfold structName canonical
  rw [List.getElem?_map]
  cases s.structs[id]? with
  | none => rfl
  | some d => rfl

/-- The analysis knows the layout of every struct, and takes what is none to be empty. -/
theorem IsLayout.structLayout (hL : s.IsLayout L) (id : Nat) :
    (s.analysisWith L).structLayout id = L id := by
  rcases Nat.lt_or_ge id s.structs.length with hid | hid
  · exact structLayout_analysisWith L hid
  · have hnone : (s.structIds.map L)[id]? = none := by
      rw [List.getElem?_eq_none_iff, List.length_map, structIds, List.length_range]
      exact hid
    rw [Analysis.structLayout, analysisWith, hnone, hL id, fieldsOf_of_le hid]
    rfl

namespace Embeds

variable (h : s.Embeds σ s')
include h

theorem targets (id : Nat) : s'.targets (σ id) = (s.targets id).map σ :=
  fieldTargets_of_matches (h.fieldsOf id)

theorem segments (id : Nat) :
    List.Forall₂ (Segment.Matches σ) (s.segments id) (s'.segments (σ id)) := by
  unfold Schema.segments runs
  rw [runsFrom_of_matches (h.fieldsOf id)]
  exact segmentsFrom_of_matches _ _ (h.fieldsOf id)

theorem length_le : s.structs.length ≤ s'.structs.length := by
  have hnodup : ((List.range s.structs.length).map σ).Nodup :=
    List.Nodup.map h.inj List.nodup_range
  have hsub : (List.range s.structs.length).map σ ⊆ List.range s'.structs.length := by
    intro id' hid'
    obtain ⟨id, hid, rfl⟩ := List.mem_map.mp hid'
    exact List.mem_range.mpr ((h.lt_iff id).mpr (List.mem_range.mp hid))
  have hle := (List.subperm_of_subset hnodup hsub).length_le
  rwa [List.length_map, List.length_range, List.length_range] at hle

/-- **A struct has the same layout in both schemas.** -/
theorem layout_eq (hr : s.Ranked rank) (hL : s.IsLayout L) (hL' : s'.IsLayout L') (id : Nat) :
    L' (σ id) = L id := by
  refine hr.struct_induction (P := fun id => L' (σ id) = L id) (fun id ih => ?_) id
  rw [hL' (σ id), hL id]
  exact Layout.ofFields_of_matches (h.fieldsOf id) ih

/-- **A struct has a fixed size in both schemas or in neither.** -/
theorem isFixedStruct (hs : s.InRange) (hr : s.Ranked rank) (hs' : s'.InRange)
    (hr' : s'.Ranked rank') (id : Nat) : s'.isFixedStruct (σ id) = s.isFixedStruct id := by
  obtain ⟨L, hL, _⟩ := hr.analyze_eq hs
  obtain ⟨L', hL', _⟩ := hr'.analyze_eq hs'
  by_cases hid : id < s.structs.length
  · rw [hr.isFixedStruct_eq hs hL hid, hr'.isFixedStruct_eq hs' hL' ((h.lt_iff id).mpr hid),
      h.layout_eq hr hL hL']
  · have hid' := mt (h.lt_iff id).mp hid
    rw [isFixedStruct_of_le (Nat.le_of_not_lt hid), isFixedStruct_of_le (Nat.le_of_not_lt hid')]

/-- **Canonical order keeps one schema inside the other.** -/
theorem canonical (hs : s.InRange) (hr : s.Ranked rank) (hs' : s'.InRange)
    (hr' : s'.Ranked rank') : s.canonical.Embeds σ s'.canonical where
  inj := h.inj
  lt_iff id := by
    rw [s.rearranged_canonical.length, s'.rearranged_canonical.length]
    exact h.lt_iff id
  structName id := by
    rw [structName_canonical, structName_canonical]
    exact h.structName id
  fieldsOf id := by
    rw [fieldsOf_canonical, fieldsOf_canonical]
    exact Field.matches_mergeSort (h.isFixedStruct hs hr hs' hr') (h.fieldsOf id)

end Embeds

/-! ## Walks -/

/-- The state of the same walk with structs numbered anew. -/
def Visit.renumber (σ : Nat → Nat) (state : Visit) : Visit where
  seen := state.seen.map σ
  left := state.left.map σ

theorem Visit.foldl_renumber (step step' : Visit → Nat → Visit) {ids : List Nat}
    (hstep : ∀ id ∈ ids, ∀ state : Visit,
      step' (state.renumber σ) (σ id) = (step state id).renumber σ) (state : Visit) :
    (ids.map σ).foldl step' (state.renumber σ) = (ids.foldl step state).renumber σ := by
  induction ids generalizing state with
  | nil => rfl
  | cons id ids ih =>
    rw [List.map_cons, List.foldl_cons, List.foldl_cons, hstep id List.mem_cons_self]
    exact ih (fun i hi => hstep i (List.mem_cons_of_mem _ hi)) (step state id)

namespace Embeds

variable (h : s.Embeds σ s')
include h

/-- **The step.** Walking on from a struct takes the same steps in both schemas. -/
theorem visit (hr : s.Ranked rank) (depth : Nat) : ∀ {depth' : Nat} (state : Visit) {id : Nat},
    rank id < depth → rank id < depth' →
    s'.visit depth' (state.renumber σ) (σ id) = (s.visit depth state id).renumber σ := by
  induction depth with
  | zero =>
    intro depth' state id hdepth
    omega
  | succ depth ih =>
    intro depth' state id hdepth hdepth'
    cases depth' with
    | zero => omega
    | succ depth' =>
      by_cases hid : id ∈ state.seen
      · have hid' : σ id ∈ (state.renumber σ).seen := List.mem_map_of_mem hid
        rw [visit_of_mem hid, visit_of_mem hid']
      · -- different structs have different numbers, so the struct is new in both walks
        have hid' : σ id ∉ (state.renumber σ).seen :=
          fun hmem => hid ((List.mem_map_of_injective h.inj).mp hmem)
        have hstep : ∀ target ∈ s.targets id, ∀ state : Visit,
            s'.visit depth' (state.renumber σ) (σ target)
              = (s.visit depth state target).renumber σ := by
          intro target ht state
          have hdown := hr.target_lt id target ht
          exact ih state (by omega) (by omega)
        have hinside := Visit.foldl_renumber (s.visit depth) (s'.visit depth') hstep
          { state with seen := id :: state.seen }
        unfold Schema.visit
        rw [if_neg (mt List.contains_iff_mem.mp hid), if_neg (mt List.contains_iff_mem.mp hid')]
        dsimp only
        rw [h.targets id]
        exact congrArg (fun inside : Visit => { inside with left := σ id :: inside.left }) hinside

/-- **The run.** The same structs are reached in the same order. -/
theorem reachable (hr : s.Ranked rank) {types : List Ty}
    (ht : ∀ t ∈ types, t.InRange s.structs.length) :
    s'.reachable (types.map (Ty.renumber σ)) = (s.reachable types).map σ := by
  have hroots : (types.map (Ty.renumber σ)).filterMap Ty.innermost?
      = (types.filterMap Ty.innermost?).map σ := by
    rw [List.filterMap_map, List.map_filterMap]
    exact List.filterMap_congr fun t _ => Ty.innermost?_renumber t
  have hstep : ∀ id ∈ types.filterMap Ty.innermost?, ∀ state : Visit,
      s'.visit s'.structs.length (state.renumber σ) (σ id)
        = (s.visit s.structs.length state id).renumber σ := by
    intro id hid state
    obtain ⟨t, hmem, hinner⟩ := List.mem_filterMap.mp hid
    have hrank := hr.lt id (ht t hmem id hinner)
    exact h.visit hr _ state hrank (Nat.lt_of_lt_of_le hrank h.length_le)
  have hwalk :=
    Visit.foldl_renumber (s.visit s.structs.length) (s'.visit s'.structs.length) hstep {}
  unfold Schema.reachable
  dsimp only
  rw [hroots, List.map_reverse]
  exact congrArg (fun state : Visit => state.left.reverse) hwalk

end Embeds

end Schema

/-! ## Selections -/

/-- What is built for each item of a list is built for each related item of another alike. -/
theorem Fresh.mapM_of_forall₂ {α β γ δ : Type} {R : α → β → Prop} (f : α → Fresh γ)
    (f' : β → Fresh δ) (g : γ → δ) {xs : List α} {ys : List β} (h : List.Forall₂ R xs ys)
    (hf : ∀ x y, R x y → f' y = g <$> f x) : ys.mapM f' = List.map g <$> xs.mapM f := by
  induction h with
  | nil => rfl
  | cons hxy _ ih =>
    rw [List.mapM_cons, List.mapM_cons, hf _ _ hxy, ih]
    rfl

theorem flatMap_map_of_eq {α β γ : Type} {f : β → List γ} {f' : α → List γ} {g : α → β}
    (h : ∀ x, f (g x) = f' x) (xs : List α) : (xs.map g).flatMap f = xs.flatMap f' := by
  rw [List.flatMap_map]
  exact List.flatMap_congr fun x _ => h x

theorem arrayStrategy_renumber (bulkArrays : Bool) (e : Ty) :
    arrayStrategy bulkArrays (e.renumber σ) = arrayStrategy bulkArrays e := by
  cases e <;> rfl

/-- Code is generated for the same messages of a schema and of one that it is inside of. -/
structure Selection.Embeds (σ : Nat → Nat) (sel sel' : Selection) : Prop where
  schema : sel.schema.Embeds σ sel'.schema
  package : sel'.package = sel.package
  options : sel'.options = sel.options
  messages : sel'.messages = sel.messages.map (Message.renumber σ)
  structs : sel'.structs = sel.structs.map σ
  structLayout : ∀ id, sel'.analysis.structLayout (σ id) = sel.analysis.structLayout id

namespace Selection.Embeds

variable {sel sel' : Selection} (h : sel.Embeds σ sel')
include h

theorem layoutOf (t : Ty) : sel'.layoutOf (t.renumber σ) = sel.layoutOf t :=
  Ty.layout_renumber fun id _ => h.structLayout id

theorem isNamedStruct (m : Message) :
    sel'.isNamedStruct (m.renumber σ) = sel.isNamedStruct m := by
  obtain ⟨name, ty⟩ := m
  cases ty with
  | primitive p o => rfl
  | struct id o =>
    cases o with
    | false => exact congrArg (· == name) (h.schema.structName id)
    | true => rfl
  | array e o => rfl

/-- A struct is the same message under its own name. -/
theorem ownMessage? (id : Nat) :
    sel'.ownMessage? (σ id) = (sel.ownMessage? id).map (Message.renumber σ) := by
  unfold Selection.ownMessage?
  dsimp only
  rw [h.messages, List.find?_map, h.schema.structName]
  refine congrArg (Option.map _) (congrArg (List.find? · sel.messages) (funext fun m => ?_))
  have hty : ((m.ty.renumber σ) == .struct (σ id) false) = (m.ty == .struct id false) :=
    (Ty.renumber_injective h.schema.inj).beq_eq (a := m.ty) (b := .struct id false)
  exact congrArg (m.name == sel.schema.structName id && ·) hty

end Selection.Embeds

end WireSchema
