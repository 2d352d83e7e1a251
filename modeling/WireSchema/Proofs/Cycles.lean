import WireSchema.Proofs.Rearranged
import Mathlib.Data.List.Chain
import Mathlib.Data.List.TakeWhile

/-!
# Cycles that are found

Ranks show that a walk succeeds where no struct contains itself, and that a walk which succeeds leaves
no cycle behind. What remains is the walk that fails: the structs on its path lead to each other, down
to the struct it is at, and no struct is on the path twice. So a struct that is met on the path closes
**a genuine cycle**, and the part of the path from there on, which is what the walk reports, goes
round it once. A walk never runs out of depth: a path without repetition through existing structs is
not longer than their number.

The check and the analysis walk alike, so they find the same cycle.
-/

namespace WireSchema

namespace Result

variable {ε α β : Type}

theorem map_eq_error {f : α → β} {x : Except ε α} {e : ε} : x.map f = .error e ↔ x = .error e := by
  cases x <;> simp [Except.map]

/-- A loop fails where one of its steps does. -/
theorem exists_of_foldlM_eq_error {f : β → α → Except ε β} {xs : List α} {b : β} {e : ε}
    (h : xs.foldlM f b = .error e) : ∃ x ∈ xs, ∃ b', f b' x = .error e := by
  induction xs generalizing b with
  | nil => exact absurd h (by simp [pure, Except.pure])
  | cons x xs ih =>
    rw [List.foldlM_cons] at h
    cases hx : f b x with
    | error e' =>
      rw [hx] at h
      exact ⟨x, List.mem_cons_self, b, hx.trans h⟩
    | ok b' =>
      rw [hx] at h
      obtain ⟨y, hy, b'', hfail⟩ := ih h
      exact ⟨y, List.mem_cons_of_mem _ hy, b'', hfail⟩

end Result

namespace Schema

variable {s : Schema}

/-- A list of structs that goes round once: each leads to the next, the last is the first, and there
is no other repetition. -/
structure IsCycle (s : Schema) (cycle : List Nat) : Prop where
  leads : cycle.IsChain s.Leads
  closed : ∃ id rest, cycle = id :: rest ++ [id] ∧ (id :: rest).Nodup

/-- What holds of a walk that has come to a struct along `path`. -/
structure Came (s : Schema) (path : List Nat) (id : Nat) : Prop where
  leads : (path ++ [id]).IsChain s.Leads
  nodup : path.Nodup
  lt : ∀ i ∈ path ++ [id], i < s.structs.length

theorem came_nil {id : Nat} (hid : id < s.structs.length) : s.Came [] id :=
  ⟨List.isChain_singleton id, List.nodup_nil, List.forall_mem_singleton.mpr hid⟩

namespace Came

variable {path : List Nat} {id : Nat}

theorem nodup_of_new (h : s.Came path id) (hnew : id ∉ path) : (path ++ [id]).Nodup := by
  rw [← List.concat_eq_append]
  exact h.nodup.concat hnew

/-- A new struct is one more on the path of those inside it. -/
theorem into (h : s.Came path id) (hs : s.InRange) (hnew : id ∉ path) {target : Nat}
    (ht : s.Leads id target) : s.Came (path ++ [id]) target where
  leads := by
    refine h.leads.append (List.isChain_singleton target) ?_
    simpa using ht
  nodup := h.nodup_of_new hnew
  lt := by
    intro i hi
    rcases List.mem_append.mp hi with hi | hi
    · exact h.lt i hi
    · rw [List.mem_singleton.mp hi]
      exact hs.target_lt ht

/-- A path that a new struct can be added to is shorter than there are structs. -/
theorem length_lt (h : s.Came path id) (hnew : id ∉ path) : path.length < s.structs.length := by
  have hle := (List.subperm_of_subset (h.nodup_of_new hnew) fun i hi =>
    List.mem_range.mpr (h.lt i hi)).length_le
  rw [List.length_append, List.length_range, List.length_singleton] at hle
  omega

/-- **A struct on its own path closes a cycle**, and what is reported goes round it once. -/
theorem isCycle (h : s.Came path id) (hid : id ∈ path) : s.IsCycle (closeCycle path id) := by
  have hleads := h.leads
  rw [← List.takeWhile_append_dropWhile (p := (· != id)) (l := path), List.append_assoc] at hleads
  refine ⟨hleads.right_of_append, ?_⟩
  cases hdrop : path.dropWhile (· != id) with
  | nil =>
    -- everything on the path would differ from a struct that is on it
    rw [List.dropWhile_eq_nil_iff] at hdrop
    exact absurd (hdrop id hid) (by simp)
  | cons first rest =>
    have hfirst : first = id := by
      have hhead := List.head?_dropWhile_not (· != id) path
      rw [hdrop] at hhead
      simpa using hhead
    refine ⟨id, rest, ?_, ?_⟩
    · rw [closeCycle, hdrop, hfirst]
    · rw [← hfirst, ← hdrop]
      exact h.nodup.sublist (List.dropWhile_sublist _)

end Came

/-- **The step.** A walk that fails has met a cycle. -/
theorem isCycle_of_walk (hs : s.InRange) (depth : Nat) :
    ∀ {path done cycle : List Nat} {id : Nat}, s.Came path id →
      s.structs.length ≤ path.length + depth → s.walk depth path done id = .error cycle →
      s.IsCycle cycle := by
  induction depth using Nat.strongRecOn with
  | ind depth ih =>
    intro path done cycle id hcame hdepth h
    unfold walk at h
    split at h
    · exact absurd h (by simp)
    · split at h
      · rename_i hmem
        injection h with h
        subst h
        exact hcame.isCycle (List.contains_iff_mem.mp hmem)
      · rename_i hcontains
        have hnew : id ∉ path := fun hmem => hcontains (List.contains_iff_mem.mpr hmem)
        have hlt := hcame.length_lt hnew
        split at h
        · -- the depth is used up only by a path that has room for nothing new
          omega
        · rename_i depth
          rw [Result.map_eq_error] at h
          obtain ⟨target, ht, inner, hfail⟩ := Result.exists_of_foldlM_eq_error h
          refine ih depth (Nat.lt_succ_self _) (hcame.into hs hnew ht) ?_ hfail
          rw [List.length_append, List.length_singleton]
          omega

/-- **The cycle that is found is one.** -/
theorem isCycle_of_findCycle (hs : s.InRange) {cycle : List Nat} (h : s.findCycle = .error cycle) :
    s.IsCycle cycle := by
  unfold findCycle at h
  rw [Result.map_eq_error] at h
  obtain ⟨id, hid, done, hfail⟩ := Result.exists_of_foldlM_eq_error h
  exact isCycle_of_walk hs _ (came_nil (List.mem_range.mp hid)) (by simp) hfail

/-- **A cycle is found exactly if there is one.** -/
theorem findCycle_eq_ok (hs : s.InRange) : s.findCycle = .ok () ↔ s.Acyclic := by
  constructor
  · intro h
    obtain ⟨rank, hr⟩ := exists_rank_of_checkCycles hs (by rw [checkCycles, h])
    exact hr.acyclic
  · intro h
    obtain ⟨rank, hr⟩ := h.exists_rank hs
    obtain ⟨known, hknown⟩ := hr.layoutStructs_ok
    rw [findCycle_eq, hknown]
    rfl

/-- What the check says of a cycle, and what the analysis says. -/
theorem checkCycles_cases :
    (s.findCycle = .ok () ∧ s.checkCycles = .ok () ∧ ∃ a, s.analyze = .ok a) ∨
      ∃ cycle, s.findCycle = .error cycle
        ∧ s.checkCycles = .error (.circularReference (s.names cycle))
        ∧ s.analyze = .error (.circularType (s.names cycle)) := by
  unfold checkCycles analyze
  rw [findCycle_eq]
  cases s.layoutStructs with
  | ok known => exact .inl ⟨rfl, rfl, _, rfl⟩
  | error cycle => exact .inr ⟨cycle, rfl, rfl, rfl⟩

/--
**Cycle detection is exact**, for every schema whose structs exist, and both detectors agree. The
check passes exactly if no struct contains itself. If it fails, the path it reports names the structs
of a genuine cycle, from one of them once round and back to it. The analysis then fails with the same
path, and it succeeds otherwise.
-/
theorem checkCycles_exact (hs : s.InRange) :
    (s.checkCycles = .ok () ↔ s.Acyclic)
      ∧ (∀ e, s.checkCycles = .error e →
          ∃ cycle, s.IsCycle cycle ∧ e = .circularReference (s.names cycle))
      ∧ (∀ path, s.analyze = .error (.circularType path) ↔
          s.checkCycles = .error (.circularReference path))
      ∧ ((∃ a, s.analyze = .ok a) ↔ s.checkCycles = .ok ()) := by
  rcases s.checkCycles_cases with ⟨hfind, hcheck, a, ha⟩ | ⟨cycle, hfind, hcheck, ha⟩
  · rw [hcheck, ha]
    have hacyclic := (findCycle_eq_ok hs).mp hfind
    simp [hacyclic]
  · have hcycle := isCycle_of_findCycle hs hfind
    have hnot : ¬ s.Acyclic := by
      rw [← findCycle_eq_ok hs, hfind]
      simp
    rw [hcheck, ha]
    refine ⟨by simp [hnot], fun e he => ⟨cycle, hcycle, by simpa using he.symm⟩, by simp, by simp⟩

/-- A struct that leads into a circle of two others, behind an array and an optional. -/
def circularSchema : Schema where
  package := "circles"
  structs := [
    ⟨"Root", .start, [⟨"First", .start, .struct 1 false, none⟩]⟩,
    ⟨"Parent", .start, [⟨"Children", .start, .array (.struct 2 false) false, none⟩]⟩,
    ⟨"Child", .start, [⟨"Parent", .start, .struct 1 true, none⟩]⟩]
  declarations := [
    ⟨"Root", .start, .struct 0 false⟩, ⟨"Parent", .start, .struct 1 false⟩,
    ⟨"Child", .start, .struct 2 false⟩]
  messages := [⟨"Root", .struct 0 false⟩]

theorem checkCycles_exact_circular :
    circularSchema.InRange
      ∧ circularSchema.checkCycles = .error (.circularReference ["Parent", "Child", "Parent"])
      ∧ circularSchema.analyze = .error (.circularType ["Parent", "Child", "Parent"])
      ∧ ¬ circularSchema.Acyclic := by
  have hs : circularSchema.InRange := by decide
  have hcheck : circularSchema.checkCycles
      = .error (.circularReference ["Parent", "Child", "Parent"]) := by rfl
  obtain ⟨hacyclic, _, hanalyze, _⟩ := checkCycles_exact hs
  refine ⟨hs, hcheck, (hanalyze _).mpr hcheck, fun h => ?_⟩
  rw [hacyclic.mpr h] at hcheck
  exact absurd hcheck (by simp)

end Schema

end WireSchema
