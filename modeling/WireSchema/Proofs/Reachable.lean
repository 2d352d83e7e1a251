import WireSchema.Code.Generate
import WireSchema.Proofs.Identifiers

/-!
# The structs a selection is made of

Code is generated for the structs that a depth first walk from some types comes to. `Reached` says
which these should be, with no walk: the innermost structs of the types, and whatever a reached struct
leads to. The walk keeps lists of the structs it has seen and of those it has left again, and the
argument is about these two lists: what was left leads only to what was seen, and what was seen but
not left lies on the path of the walk. When the walk is over the path is empty, so the list it leaves
behind is closed, and **it holds exactly the structs that are reached**, each of them once.

`Selection.Lawful` gathers this and all else that the routines for messages of a compiled schema rely
on.
-/

namespace WireSchema.Schema

variable (s : Schema)

/-- The structs that types are made of, at any depth. -/
inductive Reached (types : List Ty) : Nat → Prop where
  | root {t : Ty} {id : Nat} : t ∈ types → t.innermost? = some id → Reached types id
  | target {id target : Nat} : Reached types id → target ∈ s.targets id → Reached types target

variable {s} {types : List Ty}

theorem Reached.lt (hs : s.InRange) (ht : ∀ t ∈ types, t.InRange s.structs.length) {id : Nat}
    (h : s.Reached types id) : id < s.structs.length := by
  cases h with
  | root hmem hid => exact ht _ hmem _ hid
  | target _ htarget => exact hs.target_lt htarget

/-- What holds of a walk below the structs of `path`. -/
structure Visit.Sound (s : Schema) (types : List Ty) (path : List Nat) (state : Visit) : Prop where
  nodup : state.seen.Nodup
  reached : ∀ id ∈ state.seen, s.Reached types id
  left_seen : ∀ id ∈ state.left, id ∈ state.seen
  /-- A struct that was seen and not left is one that the walk is inside of. -/
  seen_left : ∀ id ∈ state.seen, id ∈ state.left ∨ id ∈ path
  closed : ∀ id ∈ state.left, ∀ target ∈ s.targets id, target ∈ state.seen

/-- A walk sees a struct only once, so it is never deeper than the number of structs it has not
seen. -/
theorem Visit.Sound.length_lt {path : List Nat} {state : Visit} (h : state.Sound s types path)
    (hrange : ∀ id, s.Reached types id → id < s.structs.length) {id : Nat}
    (hid : s.Reached types id) (hnew : id ∉ state.seen) :
    state.seen.length < s.structs.length := by
  have hnodup : (id :: state.seen).Nodup := List.nodup_cons.mpr ⟨hnew, h.nodup⟩
  have hsub : id :: state.seen ⊆ List.range s.structs.length := by
    intro i hi
    rcases List.mem_cons.mp hi with rfl | hi
    · exact List.mem_range.mpr (hrange i hid)
    · exact List.mem_range.mpr (hrange i (h.reached i hi))
  have hle := (List.subperm_of_subset hnodup hsub).length_le
  rw [List.length_range, List.length_cons] at hle
  exact hle

/-- What a walk from some structs does to the state it starts in. -/
structure Visit.Grows (s : Schema) (types : List Ty) (path ids : List Nat) (state state' : Visit) :
    Prop where
  sound : state'.Sound s types path
  keeps : state.seen <:+ state'.seen
  sees : ∀ id ∈ ids, id ∈ state'.seen

theorem Visit.Sound.foldl {path : List Nat} {step : Visit → Nat → Visit} {ids : List Nat}
    {low : Nat}
    (hstep : ∀ id ∈ ids, ∀ state : Visit, state.Sound s types path → low ≤ state.seen.length →
      Visit.Grows s types path [id] state (step state id))
    {state : Visit} (h : state.Sound s types path) (hlow : low ≤ state.seen.length) :
    Visit.Grows s types path ids state (ids.foldl step state) := by
  induction ids generalizing state with
  | nil => exact ⟨h, List.suffix_refl _, fun id hid => absurd hid (by simp)⟩
  | cons id ids ih =>
    have hfirst := hstep id List.mem_cons_self state h hlow
    have hlow' := Nat.le_trans hlow hfirst.keeps.length_le
    have hrest := ih (fun i hi => hstep i (List.mem_cons_of_mem _ hi)) hfirst.sound hlow'
    refine ⟨hrest.sound, hfirst.keeps.trans hrest.keeps, fun i hi => ?_⟩
    rcases List.mem_cons.mp hi with rfl | hi
    · exact hrest.keeps.subset (hfirst.sees i List.mem_cons_self)
    · exact hrest.sees i hi

theorem visit_of_mem {depth id : Nat} {state : Visit} (h : id ∈ state.seen) :
    s.visit depth state id = state := by
  unfold visit
  rw [if_pos (List.contains_iff_mem.mpr h)]

theorem Visit.Sound.grows {path : List Nat} {state : Visit} (h : state.Sound s types path)
    {id : Nat} (hid : id ∈ state.seen) : Visit.Grows s types path [id] state state :=
  ⟨h, List.suffix_refl _, List.forall_mem_singleton.mpr hid⟩

/-- A struct that was not seen is entered: it is on the path of what lies inside it. -/
theorem Visit.Sound.enter {path : List Nat} {state : Visit} (h : state.Sound s types path)
    {id : Nat} (hid : s.Reached types id) (hnew : id ∉ state.seen) :
    Visit.Sound s types (id :: path) { state with seen := id :: state.seen } := by
  refine ⟨List.nodup_cons.mpr ⟨hnew, h.nodup⟩, ?_, ?_, ?_, ?_⟩
  · intro i hi
    rcases List.mem_cons.mp hi with rfl | hi
    · exact hid
    · exact h.reached i hi
  · exact fun i hi => List.mem_cons_of_mem _ (h.left_seen i hi)
  · intro i hi
    rcases List.mem_cons.mp hi with rfl | hi
    · exact .inr List.mem_cons_self
    · exact (h.seen_left i hi).imp_right (List.mem_cons_of_mem _)
  · exact fun i hi target ht => List.mem_cons_of_mem _ (h.closed i hi target ht)

/-- **The step.** A walk from a struct sees it, and leaves what it enters. -/
theorem visit_grows (hrange : ∀ id, s.Reached types id → id < s.structs.length) (depth : Nat) :
    ∀ {path : List Nat} {state : Visit} {id : Nat}, s.Reached types id →
      state.Sound s types path → s.structs.length ≤ depth + state.seen.length →
      Visit.Grows s types path [id] state (s.visit depth state id) := by
  induction depth with
  | zero =>
    intro path state id hid h hdepth
    by_cases hseen : id ∈ state.seen
    · rw [visit_of_mem hseen]
      exact h.grows hseen
    · -- a struct that was not seen would be one more than there are
      have hlt := h.length_lt hrange hid hseen
      omega
  | succ depth ih =>
    intro path state id hid h hdepth
    by_cases hnew : id ∈ state.seen
    · rw [visit_of_mem hnew]
      exact h.grows hnew
    · unfold visit
      rw [if_neg fun hseen => hnew (List.contains_iff_mem.mp hseen)]
      have hinside := (h.enter hid hnew).foldl
        (fun target ht inner hinner (hlow : state.seen.length + 1 ≤ inner.seen.length) =>
          ih (.target hid ht) hinner (by omega))
        (Nat.le_refl _)
      have hkeeps := hinside.keeps
      have hself := hkeeps.subset (List.mem_cons_self (a := id))
      refine ⟨⟨hinside.sound.nodup, hinside.sound.reached, ?_, ?_, ?_⟩,
        (List.suffix_cons _ _).trans hkeeps, List.forall_mem_singleton.mpr hself⟩
      · intro i hi
        rcases List.mem_cons.mp hi with rfl | hi
        · exact hself
        · exact hinside.sound.left_seen i hi
      · -- the struct itself is left now, so what is still open is the path above it
        intro i hi
        rcases hinside.sound.seen_left i hi with hleft | hpath
        · exact .inl (List.mem_cons_of_mem _ hleft)
        · rcases List.mem_cons.mp hpath with rfl | hpath
          · exact .inl List.mem_cons_self
          · exact .inr hpath
      · intro i hi target ht
        rcases List.mem_cons.mp hi with rfl | hi
        · exact hinside.sees target ht
        · exact hinside.sound.closed i hi target ht

/-- **The list of a walk holds exactly the structs that are reached.** -/
theorem mem_reachable (hs : s.InRange) (ht : ∀ t ∈ types, t.InRange s.structs.length) {id : Nat} :
    id ∈ s.reachable types ↔ s.Reached types id := by
  have hstart : Visit.Sound s types [] {} :=
    ⟨List.nodup_nil, by simp, by simp, by simp, by simp⟩
  have hwalk : Visit.Grows s types [] (types.filterMap Ty.innermost?) {}
      ((types.filterMap Ty.innermost?).foldl (fun state id => s.visit s.structs.length state id) {}) := by
    refine hstart.foldl (fun id hid state hstate _ => ?_) (Nat.zero_le _)
    obtain ⟨t, hmem, hinner⟩ := List.mem_filterMap.mp hid
    exact visit_grows (fun _ => Reached.lt hs ht) s.structs.length (.root hmem hinner) hstate
      (Nat.le_add_right _ _)
  have hseen : ∀ i ∈ ((types.filterMap Ty.innermost?).foldl
      (fun state id => s.visit s.structs.length state id) {}).seen, i ∈ s.reachable types := by
    intro i hi
    rcases hwalk.sound.seen_left i hi with hleft | hpath
    · exact List.mem_reverse.mpr hleft
    · exact absurd hpath (by simp)
  constructor
  · intro h
    exact hwalk.sound.reached id (hwalk.sound.left_seen id (List.mem_reverse.mp h))
  · intro h
    induction h with
    | root hmem hinner =>
      exact hseen _ (hwalk.sees _ (List.mem_filterMap.mpr ⟨_, hmem, hinner⟩))
    | target _ htarget ih =>
      exact hseen _ (hwalk.sound.closed _ (List.mem_reverse.mp ih) _ htarget)

/-- A walk below the structs of `path` has left none of them, and nothing twice. -/
structure Visit.Tidy (path : List Nat) (state : Visit) : Prop where
  nodup : state.left.Nodup
  left_seen : ∀ id ∈ state.left, id ∈ state.seen
  path_seen : ∀ id ∈ path, id ∈ state.seen
  apart : ∀ id ∈ path, id ∉ state.left

theorem Visit.Tidy.foldl {path : List Nat} {f : Visit → Nat → Visit}
    (hf : ∀ {state : Visit}, state.Tidy path → ∀ id, (f state id).Tidy path) {state : Visit}
    (h : state.Tidy path) (ids : List Nat) : (ids.foldl f state).Tidy path := by
  induction ids generalizing state with
  | nil => exact h
  | cons id ids ih => exact ih (hf h id)

theorem visit_tidy (s : Schema) (depth : Nat) : ∀ {path : List Nat} {state : Visit},
    state.Tidy path → ∀ id, (s.visit depth state id).Tidy path := by
  induction depth with
  | zero =>
    intro path state h id
    unfold visit
    split
    · exact h
    · exact h
  | succ depth ih =>
    intro path state h id
    by_cases hseen : id ∈ state.seen
    · rw [visit_of_mem hseen]
      exact h
    · unfold visit
      rw [if_neg fun hin => hseen (List.contains_iff_mem.mp hin)]
      have hentered : Visit.Tidy (id :: path) { state with seen := id :: state.seen } := by
        refine ⟨h.nodup, fun i hi => List.mem_cons_of_mem _ (h.left_seen i hi), ?_, ?_⟩
        · intro i hi
          rcases List.mem_cons.mp hi with rfl | hi
          · exact List.mem_cons_self
          · exact List.mem_cons_of_mem _ (h.path_seen i hi)
        · intro i hi
          rcases List.mem_cons.mp hi with rfl | hi
          · exact fun hleft => hseen (h.left_seen i hleft)
          · exact h.apart i hi
      have hinside := hentered.foldl (f := fun state target => s.visit depth state target)
        (fun hstate target => ih hstate target) (s.targets id)
      have hself := hinside.apart id List.mem_cons_self
      refine ⟨List.nodup_cons.mpr ⟨hself, hinside.nodup⟩, ?_, ?_, ?_⟩
      · intro i hi
        rcases List.mem_cons.mp hi with rfl | hi
        · exact hinside.path_seen i List.mem_cons_self
        · exact hinside.left_seen i hi
      · exact fun i hi => hinside.path_seen i (List.mem_cons_of_mem _ hi)
      · -- the struct that is left was new, so it is not one of those above
        intro i hi hleft
        rcases List.mem_cons.mp hleft with rfl | hleft
        · exact hseen (h.path_seen i hi)
        · exact hinside.apart i (List.mem_cons_of_mem _ hi) hleft

/-- **The list of a walk has every struct once.** -/
theorem nodup_reachable (s : Schema) (types : List Ty) : (s.reachable types).Nodup := by
  have hstart : Visit.Tidy [] {} := ⟨List.nodup_nil, by simp, by simp, by simp⟩
  have hwalk := hstart.foldl (f := fun state id => s.visit s.structs.length state id)
    (fun hstate id => visit_tidy s _ hstate id) (types.filterMap Ty.innermost?)
  exact List.nodup_reverse.mpr hwalk.nodup

end WireSchema.Schema

namespace WireSchema

open Naming (rustField cppField)

/-! ## Messages of a compiled schema -/

/-- What holds of messages of a compiled schema, whichever they are. -/
structure Selection.Lawful (sel : Selection) (rank : Nat → Nat) : Prop where
  ranked : sel.schema.Ranked rank
  reached : ∀ id, id ∈ sel.structs ↔ sel.schema.Reached (sel.messages.map (·.ty)) id
  rustNames : ∀ id, ((sel.schema.fieldsOf id).map fun f => rustField f.name).Nodup
  cppNames : ∀ id, ((sel.schema.fieldsOf id).map fun f => cppField f.name).Nodup
  inRange : ∀ m ∈ sel.messages, m.ty.InRange sel.schema.structs.length
  /-- A message is known by its name. -/
  found : ∀ m ∈ sel.messages, sel.schema.message? m.name = some m

namespace Selection.Lawful

variable {sel : Selection} {rank : Nat → Nat}

theorem target_mem (h : sel.Lawful rank) {id target : Nat} (hid : id ∈ sel.structs)
    (ht : target ∈ sel.schema.targets id) : target ∈ sel.structs :=
  (h.reached target).mpr (.target ((h.reached id).mp hid) ht)

theorem root_mem (h : sel.Lawful rank) {m : Message} (hm : m ∈ sel.messages) {id : Nat}
    (hid : m.ty.innermost? = some id) : id ∈ sel.structs :=
  (h.reached id).mpr (.root (List.mem_map.mpr ⟨m, hm, rfl⟩) hid)

theorem struct_lt (h : sel.Lawful rank) (hs : sel.schema.InRange) {id : Nat}
    (hid : id ∈ sel.structs) : id < sel.schema.structs.length := by
  refine ((h.reached id).mp hid).lt hs fun t ht => ?_
  obtain ⟨m, hm, rfl⟩ := List.mem_map.mp ht
  exact h.inRange m hm

theorem rank_lt (h : sel.Lawful rank) {m : Message} (hm : m ∈ sel.messages) {id : Nat}
    (hid : m.ty.innermost? = some id) : rank id < sel.schema.structs.length :=
  h.ranked.lt id (h.inRange m hm id hid)

theorem eq_of_name (h : sel.Lawful rank) {m : Message} (hm : m ∈ sel.messages) :
    ∀ m' ∈ sel.messages, m'.name = m.name → m' = m := by
  intro m' hm' hname
  have hfound := h.found m' hm'
  rw [hname, h.found m hm] at hfound
  exact (Option.some.inj hfound).symm

end Selection.Lawful

/-- **Every selection of messages of a compiled schema is lawful.** -/
theorem Compiled.lawful_select {text : String} {c : Compiled} (h : compile text = .ok c)
    {messages : List Message} (hsub : messages ⊆ c.schema.messages) (options : Options) :
    ∃ rank, (c.select messages options).Lawful rank := by
  have hc := lawful_of_compile h
  obtain ⟨rank, hr⟩ := hc.exists_rank
  have hrange : ∀ m ∈ messages, m.ty.InRange c.schema.structs.length :=
    fun m hm => hc.inRange.messages m (hsub hm)
  refine ⟨rank, hr, fun id => ?_, fun id => (nodup_of_compile h id).1,
    fun id => (nodup_of_compile h id).2, hrange, fun m hm => ?_⟩
  · refine Schema.mem_reachable hc.inRange fun t ht => ?_
    obtain ⟨m, hm, rfl⟩ := List.mem_map.mp ht
    exact hrange m hm
  · cases hfound : c.schema.message? m.name with
    | none => exact absurd (List.find?_eq_none.mp hfound m (hsub hm)) (by simp)
    | some m' =>
      obtain ⟨hm', hname⟩ := Schema.mem_of_message? hfound
      have hsame := List.inj_on_of_nodup_map hc.names hm' (hsub hm) hname
      rw [show (c.select messages options).schema = c.schema from rfl, hfound, hsame]

end WireSchema
