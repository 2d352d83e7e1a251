import WireSchema.Proofs.Denotation
import WireSchema.Proofs.Layering

/-!
# Walks through structs

A schema whose structs do not contain themselves has ranks, and with ranks every walk through its
structs comes to an end: the structs on the path of a walk have higher ranks than the one it is at,
so it never meets one of them again, and it has steps left because ranks are small. The walk of the
schema check and the walk of the analysis keep different records of where they have been, but they
take the same steps and fail in the same way. So what passes the check can be analyzed, in whatever
order its fields are put afterwards.

The check also bounds how deep structs lie inside each other. Rounds find the longest way down: after
`n` of them the number of a struct is not below the length of any path of at most `n` steps.
-/

namespace WireSchema

theorem rounds_succ {α : Type} (step : α → α) (n : Nat) (x : α) :
    rounds step (n + 1) x = step (rounds step n x) := by
  induction n generalizing x with
  | zero => rfl
  | succ n ih => rw [rounds, ih, rounds]

theorem le_foldl_max {xs : List Nat} {start x : Nat} (h : x = start ∨ x ∈ xs) :
    x ≤ xs.foldl max start := by
  induction xs generalizing start x with
  | nil =>
    rcases h with rfl | h
    · exact Nat.le_refl _
    · exact absurd h (by simp)
  | cons y ys ih =>
    rw [List.foldl_cons]
    have hstart : max start y ≤ ys.foldl max (max start y) := ih (.inl rfl)
    rcases h with rfl | h
    · omega
    · rcases List.mem_cons.mp h with rfl | h
      · omega
      · exact ih (.inr h)

namespace Schema

variable {s : Schema} {rank : Nat → Nat}

/-! ## Ranks -/

/-- A struct has a field that is made of another. -/
def Leads (s : Schema) (id target : Nat) : Prop :=
  target ∈ s.targets id

/-- No struct contains itself, at any depth. -/
def Acyclic (s : Schema) : Prop :=
  ∀ id, ¬ Relation.TransGen s.Leads id id

theorem lt_of_leads {id target : Nat} (h : s.Leads id target) : id < s.structs.length := by
  rcases Nat.lt_or_ge id s.structs.length with hid | hid
  · exact hid
  · unfold Leads targets at h
    rw [fieldsOf_of_le hid] at h
    exact absurd h (by simp [fieldTargets])

theorem Acyclic.exists_rank (hs : s.InRange) (h : s.Acyclic) : ∃ rank, s.Ranked rank := by
  have hnodes : ∀ id target, s.Leads id target → target ∈ Finset.range s.structs.length :=
    fun _ _ hleads => Finset.mem_range.mpr (hs.target_lt hleads)
  obtain ⟨rank, hdown, hlt⟩ := exists_rank_of_acyclic hnodes h
  refine ⟨rank, hdown, fun id hid => ?_⟩
  have hcard := hlt id (Finset.mem_range.mpr hid)
  rwa [Finset.card_range] at hcard

theorem Ranked.acyclic (hr : s.Ranked rank) : s.Acyclic := by
  have hdown : ∀ {a b}, Relation.TransGen s.Leads a b → rank b < rank a := by
    intro a b h
    induction h with
    | single h => exact hr.target_lt _ _ h
    | tail _ h ih => exact Nat.lt_trans (hr.target_lt _ _ h) ih
  exact fun id h => Nat.lt_irrefl _ (hdown h)

/-! ## Walks come to an end -/

/-- **The step.** With more steps left than its rank, and below structs of higher ranks only, the
layout of a struct is found. -/
theorem Ranked.layoutStruct_ok (hr : s.Ranked rank) (depth : Nat) :
    ∀ {path : List Nat} {id : Nat} (known : Layouts), rank id < depth →
      (∀ above ∈ path, rank id < rank above) →
      ∃ known', s.layoutStruct depth path known id = .ok known' := by
  induction depth with
  | zero => exact fun _ h => absurd h (Nat.not_lt_zero _)
  | succ depth ih =>
    intro path id known hdepth hpath
    have hnew : ¬ path.contains id = true := by
      intro h
      exact Nat.lt_irrefl _ (hpath id (List.contains_iff_mem.mp h))
    unfold layoutStruct
    by_cases hknown : (known.lookup id).isSome
    · exact ⟨known, if_pos hknown⟩
    rw [if_neg hknown, if_neg hnew]
    have hinside : ∃ inner, (s.targets id).foldlM
        (fun known target => s.layoutStruct depth (path ++ [id]) known target) known = .ok inner := by
      refine Result.foldlM_ok (fun target ht known => ?_) known
      have hdown := hr.target_lt id target ht
      refine ih known (by omega) fun above habove => ?_
      rcases List.mem_append.mp habove with habove | habove
      · exact Nat.lt_trans hdown (hpath above habove)
      · rwa [List.mem_singleton.mp habove]
    obtain ⟨inner, hinner⟩ := hinside
    exact ⟨_, by dsimp only; rw [hinner]; rfl⟩

/-- **A schema with ranks can be analyzed.** -/
theorem Ranked.layoutStructs_ok (hr : s.Ranked rank) : ∃ known, s.layoutStructs = .ok known := by
  refine Result.foldlM_ok (fun id hid known => ?_) []
  exact hr.layoutStruct_ok _ known (hr.lt id (List.mem_range.mp hid)) fun _ h => absurd h (by simp)

/-! ## The walk of the check -/

theorem contains_map_fst (known : Layouts) (id : Nat) :
    (known.map Prod.fst).contains id = (known.lookup id).isSome := by
  rw [Bool.eq_iff_iff, List.contains_iff_mem, List.lookup_isSome_iff, List.mem_map]
  constructor
  · rintro ⟨entry, hentry, rfl⟩
    exact ⟨entry, hentry, beq_self_eq_true _⟩
  · rintro ⟨entry, hentry, hid⟩
    exact ⟨entry, hentry, (eq_of_beq hid).symm⟩

/-- The check walks like the analysis; it only forgets the layouts. -/
theorem walk_eq (depth : Nat) : ∀ (path : List Nat) (known : Layouts) (id : Nat),
    s.walk depth path (known.map Prod.fst) id
      = (s.layoutStruct depth path known id).map (·.map Prod.fst) := by
  induction depth with
  | zero =>
    intro path known id
    unfold walk layoutStruct
    rw [contains_map_fst]
    split
    · rfl
    · split <;> rfl
  | succ depth ih =>
    intro path known id
    unfold walk layoutStruct
    rw [contains_map_fst]
    split
    · rfl
    · split
      · rfl
      · dsimp only
        rw [Result.foldlM_map (List.map Prod.fst) fun target _ inner =>
          ih (path ++ [id]) inner target]
        cases (s.targets id).foldlM
          (fun known target => s.layoutStruct depth (path ++ [id]) known target) known <;> rfl

theorem findCycle_eq : s.findCycle = s.layoutStructs.map fun _ => () := by
  unfold findCycle layoutStructs
  have hwalk : s.structIds.foldlM (fun done id => s.walk s.structs.length [] done id) []
      = (s.structIds.foldlM (fun known id => s.layoutStruct s.structs.length [] known id) []).map
        (List.map Prod.fst) :=
    Result.foldlM_map (List.map Prod.fst) (fun id _ known => walk_eq s.structs.length [] known id) []
  rw [hwalk, Result.map_map]

/-- **A schema that passes the check for cycles has ranks.** -/
theorem exists_rank_of_checkCycles (hs : s.InRange) (h : s.checkCycles = .ok ()) :
    ∃ rank, s.Ranked rank := by
  unfold checkCycles at h
  split at h
  · rename_i hcycle
    rw [findCycle_eq] at hcycle
    obtain ⟨known, hknown, _⟩ := Result.map_eq_ok.mp hcycle
    obtain ⟨hb, hall⟩ := layoutStructs_built hs hknown
    exact ⟨rankIn known, hb.ranked hall⟩
  · exact absurd h (by simp)

/-! ## Depth -/

theorem getD_depthStep (known : Array Nat) (id : Nat) : (s.depthStep known).getD id 0 =
    ((s.targets id).map fun target => 1 + known.getD target 0).foldl max 0 := by
  rw [depthStep, Array.getD_eq_getD_getElem?, List.getElem?_toArray, List.getElem?_map]
  unfold targets fieldsOf
  cases s.structs[id]? <;> rfl

/-- A path of at most as many steps as there were rounds is no longer than what they found. -/
theorem length_le_rounds (start : Array Nat) (n : Nat) :
    ∀ {id : Nat} {rest : List Nat}, List.IsChain s.Leads (id :: rest) → rest.length ≤ n →
      rest.length ≤ (rounds s.depthStep n start).getD id 0 := by
  induction n with
  | zero =>
    intro id rest _ hlen
    omega
  | succ n ih =>
    intro id rest hpath hlen
    cases rest with
    | nil => exact Nat.zero_le _
    | cons target rest =>
      obtain ⟨hleads, hpath⟩ := List.isChain_cons_cons.mp hpath
      rw [List.length_cons] at hlen ⊢
      have hbelow := ih hpath (by omega)
      rw [rounds_succ, getD_depthStep]
      have hfound : 1 + (rounds s.depthStep n start).getD target 0 ≤
          ((s.targets id).map fun target =>
            1 + (rounds s.depthStep n start).getD target 0).foldl max 0 :=
        le_foldl_max (.inr (List.mem_map.mpr ⟨target, hleads, rfl⟩))
      omega

theorem Ranked.length_le_rank (hr : s.Ranked rank) {rest : List Nat} :
    ∀ {id : Nat}, List.IsChain s.Leads (id :: rest) → rest.length ≤ rank id := by
  induction rest with
  | nil => exact fun _ => Nat.zero_le _
  | cons target rest ih =>
    intro id hpath
    obtain ⟨hleads, hpath⟩ := List.isChain_cons_cons.mp hpath
    have hdown := hr.target_lt id target hleads
    have hrest := ih hpath
    rw [List.length_cons]
    omega

/-- **No path is longer than the check allows.** -/
theorem Ranked.length_path (hr : s.Ranked rank) (h : s.checkNesting = .ok ()) {path : List Nat}
    (hpath : List.IsChain s.Leads path) : path.length ≤ maxNesting + 1 := by
  cases path with
  | nil => exact Nat.zero_le _
  | cons id rest =>
    rw [List.length_cons]
    refine Nat.succ_le_succ ?_
    cases rest with
    | nil => exact Nat.zero_le _
    | cons target rest =>
      have hid := lt_of_leads (List.isChain_cons_cons.mp hpath).1
      have hrank := hr.lt id hid
      have hsteps := hr.length_le_rank hpath
      have hdepth := length_le_rounds (s.structs.map fun _ => 0).toArray s.structs.length
        hpath (by omega)
      rw [← settle_eq_rounds] at hdepth
      unfold checkNesting at h
      dsimp only at h
      split at h
      · exact absurd h (by simp)
      · rename_i hnone
        have hle := List.find?_eq_none.mp hnone id (List.mem_range.mpr hid)
        simp only [decide_eq_true_eq] at hle
        unfold depths at hle
        omega

end Schema

end WireSchema
