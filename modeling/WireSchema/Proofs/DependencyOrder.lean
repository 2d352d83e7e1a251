import WireSchema.Proofs.Cycles
import WireSchema.Proofs.Reachable

/-!
# Structs behind the structs inside them

A struct can only be declared in C++ when the structs it is made of have been. The walk that gathers
the structs of some types leaves a struct when it has come back from everything the struct leads to,
so the order in which structs are left should do. What could go wrong is a struct that was seen
before and not left yet: the walk passes over it and leaves the struct it came from first. But such a
struct lies on the path of the walk, so it leads to where the walk is and would contain itself.

`Stacked` says that the structs left so far are in order. It holds along the walk, and at its end it
gives **the order of dependencies**.
-/

namespace WireSchema.Schema

variable {s : Schema} {types : List Ty}

/-- Structs, the latest first, each of which was put on top of all it leads to. -/
inductive Stacked (s : Schema) : List Nat → Prop where
  | nil : Stacked s []
  | cons {id : Nat} {below : List Nat} :
      (∀ target, s.Leads id target → target ∈ below) → Stacked s below → Stacked s (id :: below)

namespace Stacked

variable {ids : List Nat}

theorem mem_of_leads (h : s.Stacked ids) {id target : Nat} (hid : id ∈ ids)
    (hleads : s.Leads id target) : target ∈ ids := by
  induction h with
  | nil => exact absurd hid (by simp)
  | cons hall _ ih =>
    rcases List.mem_cons.mp hid with rfl | hid
    · exact List.mem_cons_of_mem _ (hall target hleads)
    · exact List.mem_cons_of_mem _ (ih hid)

/-- Whatever a struct leads to, in any number of steps, is there too. -/
theorem closed (h : s.Stacked ids) {id target : Nat} (hid : id ∈ ids)
    (hleads : Relation.ReflTransGen s.Leads id target) : target ∈ ids := by
  induction hleads with
  | refl => exact hid
  | tail _ hlast ih => exact h.mem_of_leads ih hlast

/-- A struct stands on top of whatever it leads to. -/
theorem sublist (h : s.Stacked ids) {id target : Nat} (hid : id ∈ ids)
    (hleads : Relation.TransGen s.Leads id target) : [id, target].Sublist ids := by
  induction h with
  | nil => exact absurd hid (by simp)
  | @cons top below hall hbelow ih =>
    rcases List.mem_cons.mp hid with rfl | hid
    · obtain ⟨first, hfirst, hrest⟩ := Relation.TransGen.head'_iff.mp hleads
      exact (List.singleton_sublist.mpr (hbelow.closed (hall first hfirst) hrest)).cons_cons _
    · exact (ih hid).cons top

end Stacked

theorem Visit.Sound.foldl_stacked {path : List Nat} {step : Visit → Nat → Visit} {ids : List Nat}
    {low : Nat}
    (hgrows : ∀ id ∈ ids, ∀ state : Visit, state.Sound s types path → low ≤ state.seen.length →
      Visit.Grows s types path [id] state (step state id))
    (hstacked : ∀ id ∈ ids, ∀ state : Visit, state.Sound s types path → low ≤ state.seen.length →
      s.Stacked state.left → s.Stacked (step state id).left)
    {state : Visit} (h : state.Sound s types path) (hlow : low ≤ state.seen.length)
    (hleft : s.Stacked state.left) : s.Stacked (ids.foldl step state).left := by
  induction ids generalizing state with
  | nil => exact hleft
  | cons id ids ih =>
    have hfirst := hgrows id List.mem_cons_self state h hlow
    exact ih (fun i hi => hgrows i (List.mem_cons_of_mem _ hi))
      (fun i hi => hstacked i (List.mem_cons_of_mem _ hi)) hfirst.sound
      (Nat.le_trans hlow hfirst.keeps.length_le)
      (hstacked id List.mem_cons_self state h hlow hleft)

/-- **The step.** A walk that came to a struct along `path` keeps what is left in order. -/
theorem Acyclic.visit_stacked (hacyclic : s.Acyclic)
    (hrange : ∀ id, s.Reached types id → id < s.structs.length) (depth : Nat) :
    ∀ {path : List Nat} {state : Visit} {id : Nat}, s.Reached types id →
      (∀ above ∈ path, Relation.TransGen s.Leads above id) → state.Sound s types path →
      s.structs.length ≤ depth + state.seen.length → s.Stacked state.left →
      s.Stacked (s.visit depth state id).left := by
  induction depth with
  | zero =>
    intro path state id _ _ _ _ hleft
    unfold visit
    split
    · exact hleft
    · exact hleft
  | succ depth ih =>
    intro path state id hid hpath h hdepth hleft
    by_cases hnew : id ∈ state.seen
    · rw [visit_of_mem hnew]
      exact hleft
    · unfold visit
      rw [if_neg fun hseen => hnew (List.contains_iff_mem.mp hseen)]
      have hentered := h.enter hid hnew
      have hgrows : ∀ target ∈ s.targets id, ∀ inner : Visit, inner.Sound s types (id :: path) →
          state.seen.length + 1 ≤ inner.seen.length →
          Visit.Grows s types (id :: path) [target] inner (s.visit depth inner target) :=
        fun target ht inner hinner hlow =>
          visit_grows hrange depth (.target hid ht) hinner (by omega)
      have hbelow : ∀ target ∈ s.targets id, ∀ above ∈ id :: path,
          Relation.TransGen s.Leads above target := by
        intro target ht above habove
        rcases List.mem_cons.mp habove with rfl | habove
        · exact .single ht
        · exact (hpath above habove).tail ht
      have hinside := hentered.foldl hgrows (Nat.le_refl _)
      refine .cons (fun target ht => ?_) (hentered.foldl_stacked hgrows
        (fun target ht inner hinner hlow hleft =>
          ih (.target hid ht) (hbelow target ht) hinner (by omega) hleft) (Nat.le_refl _) hleft)
      -- a struct inside that is not left yet is on the path, and so it contains itself
      rcases hinside.sound.seen_left target (hinside.sees target ht) with hdone | habove
      · exact hdone
      · exact absurd (hbelow target ht target habove) (hacyclic target)

/-- **The walk from all roots leaves structs in order.** -/
theorem Acyclic.stacked_reachable (hacyclic : s.Acyclic) (hs : s.InRange)
    (ht : ∀ t ∈ types, t.InRange s.structs.length) : s.Stacked (s.reachable types).reverse := by
  have hrange : ∀ id, s.Reached types id → id < s.structs.length := fun _ => Reached.lt hs ht
  have hstart : Visit.Sound s types [] {} :=
    ⟨List.nodup_nil, by simp, by simp, by simp, by simp⟩
  have hroot : ∀ id ∈ types.filterMap Ty.innermost?, s.Reached types id := by
    intro id hid
    obtain ⟨t, hmem, hinner⟩ := List.mem_filterMap.mp hid
    exact .root hmem hinner
  rw [reachable, List.reverse_reverse]
  refine hstart.foldl_stacked (fun id hid state hstate _ => ?_)
    (fun id hid state hstate _ hleft => ?_) (Nat.zero_le _) .nil
  · exact visit_grows hrange _ (hroot id hid) hstate (Nat.le_add_right _ _)
  · exact hacyclic.visit_stacked hrange _ (hroot id hid) (fun _ habove => absurd habove (by simp))
      hstate (Nat.le_add_right _ _) hleft

theorem reached_iff {id : Nat} : s.Reached types id ↔
    ∃ t ∈ types, ∃ root, t.innermost? = some root ∧ Relation.ReflTransGen s.Leads root id := by
  constructor
  · intro h
    induction h with
    | root hmem hid => exact ⟨_, hmem, _, hid, .refl⟩
    | target _ htarget ih =>
      obtain ⟨t, hmem, root, hroot, hleads⟩ := ih
      exact ⟨t, hmem, root, hroot, hleads.tail htarget⟩
  · rintro ⟨t, hmem, root, hroot, hleads⟩
    induction hleads with
    | refl => exact .root hmem hroot
    | tail _ hlast ih => exact .target ih hlast

/-- The structs of messages are those that their types lead to. -/
theorem mem_reachable_messages (hs : s.InRange) {messages : List Message}
    (hm : ∀ m ∈ messages, m.ty.InRange s.structs.length) {id : Nat} :
    id ∈ s.reachable (messages.map (·.ty)) ↔ ∃ m ∈ messages, ∃ root,
      m.ty.innermost? = some root ∧ Relation.ReflTransGen s.Leads root id := by
  rw [mem_reachable hs (List.forall_mem_map.mpr hm), reached_iff]
  simp only [List.mem_map, exists_exists_and_eq_and]

/--
**The structs of messages are listed in the order of their dependencies.** The list holds the structs
that the type of some message leads to, through any number of fields, and no others; it holds each of
them once. If no struct contains itself, every struct in it stands behind all structs that lie inside
it, at any depth.
-/
theorem reachable_dependency_order (hs : s.InRange) {messages : List Message}
    (hm : ∀ m ∈ messages, m.ty.InRange s.structs.length) :
    (∀ id, id ∈ s.reachable (messages.map (·.ty)) ↔ ∃ m ∈ messages, ∃ root,
        m.ty.innermost? = some root ∧ Relation.ReflTransGen s.Leads root id)
      ∧ (s.reachable (messages.map (·.ty))).Nodup
      ∧ (s.Acyclic → ∀ id ∈ s.reachable (messages.map (·.ty)), ∀ target,
          Relation.TransGen s.Leads id target →
          [target, id].Sublist (s.reachable (messages.map (·.ty)))) := by
  refine ⟨fun id => mem_reachable_messages hs hm, s.nodup_reachable _,
    fun hacyclic id hid target hleads => ?_⟩
  have hstacked := hacyclic.stacked_reachable hs (List.forall_mem_map.mpr hm)
  exact List.reverse_sublist.mp (hstacked.sublist (List.mem_reverse.mpr hid) hleads)

/-- A diamond: a station has two devices and a site of its own, all of them lead to one kind of
point, and two messages start in different places. A struct that no message mentions comes first. -/
def stationSchema : Schema where
  package := "stations"
  structs := [
    ⟨"Spare", .start, [⟨"At", .start, .struct 4 false, none⟩]⟩,
    ⟨"Station", .start, [
      ⟨"Devices", .start, .array (.struct 3 false) false, none⟩,
      ⟨"Site", .start, .struct 2 true, none⟩]⟩,
    ⟨"Site", .start, [⟨"Corner", .start, .struct 4 false, none⟩]⟩,
    ⟨"Device", .start, [⟨"Where", .start, .array (.struct 4 true) false, none⟩]⟩,
    ⟨"Point", .start, [⟨"X", .start, .primitive (.number .float32) false, none⟩]⟩]
  declarations := []
  messages := [⟨"Sites", .array (.struct 2 false) false⟩, ⟨"Station", .struct 1 false⟩]

theorem reachable_dependency_order_station :
    stationSchema.InRange ∧ stationSchema.Acyclic
      ∧ stationSchema.reachable (stationSchema.messages.map (·.ty)) = [4, 2, 3, 1]
      ∧ (∃ m ∈ stationSchema.messages, ∃ root, m.ty.innermost? = some root
          ∧ Relation.ReflTransGen stationSchema.Leads root 3)
      ∧ Relation.TransGen stationSchema.Leads 1 4
      ∧ [4, 1].Sublist (stationSchema.reachable (stationSchema.messages.map (·.ty))) := by
  have hs : stationSchema.InRange := by decide
  have hacyclic : stationSchema.Acyclic := (findCycle_eq_ok hs).mp (by rfl)
  have hlist : stationSchema.reachable (stationSchema.messages.map (·.ty)) = [4, 2, 3, 1] := by rfl
  have hleads : Relation.TransGen stationSchema.Leads 1 4 :=
    .tail (.single (show 3 ∈ stationSchema.targets 1 by decide))
      (show 4 ∈ stationSchema.targets 3 by decide)
  obtain ⟨hmem, _, horder⟩ := reachable_dependency_order hs hs.messages
  refine ⟨hs, hacyclic, hlist, (hmem 3).mp ?_, hleads, horder hacyclic 1 ?_ 4 hleads⟩
  · rw [hlist]
    decide
  · rw [hlist]
    decide

end WireSchema.Schema
