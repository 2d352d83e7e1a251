import WireSchema.Proofs.Identifiers
import WireSchema.Proofs.Lookup
import WireSchema.Proofs.RustMeaning

/-!
# What a statement does to the names in scope

Statements that set a value up only ever put bindings in front of those that are there: `Adds` says
so, and it says which names the new bindings can have. Nothing else about a statement matters to the
names around it. A name that is not among the new ones stands for what it stood for; a block that
ends takes exactly the new bindings with it; and pushing to a variable from outside a block reaches
that variable.
-/

namespace WireSchema.RustCode

open Naming (isRustLocal rustTemporaries)

/-! ## New names -/

/-- A numbered variable, of a number in a range. -/
def IsTemporary (low high : Nat) (name : String) : Prop :=
  ∃ stem ∈ rustTemporaries, ∃ k, low ≤ k ∧ k < high ∧ name = temporary stem k

/-- The names that statements can bind: one that was given, and temporaries. -/
def IsNew (given : Option String) (low high : Nat) (name : String) : Prop :=
  given = some name ∨ IsTemporary low high name

/-- A name that was given is none of those the routine uses itself. -/
def IsOwn (given : Option String) : Prop :=
  ∀ name, given = some name → isRustLocal name = false

theorem isOwn_none : IsOwn none :=
  fun _ h => nomatch h

theorem IsTemporary.isRustLocal {low high : Nat} {name : String} (h : IsTemporary low high name) :
    isRustLocal name = true := by
  obtain ⟨stem, hstem, k, _, _, rfl⟩ := h
  exact isRustLocal_temporary hstem k

theorem IsTemporary.ne_buffer {low high : Nat} {name : String} (h : IsTemporary low high name) :
    name ≠ bufferVariable := by
  obtain ⟨stem, hstem, k, _, _, rfl⟩ := h
  exact temporary_ne (numberOf_of_mem hstem) (by decide) k

theorem ne_buffer_of_own {name : String} (h : isRustLocal name = false) :
    name ≠ bufferVariable := by
  rintro rfl
  exact absurd h (by decide)

theorem IsNew.ne_buffer {given : Option String} (hown : IsOwn given) {low high : Nat}
    {name : String} (h : IsNew given low high name) : name ≠ bufferVariable := by
  rcases h with hgiven | htemporary
  · exact ne_buffer_of_own (hown name hgiven)
  · exact htemporary.ne_buffer

/-- A temporary is not new to statements that count on from behind it. -/
theorem not_isNew_temporary {stem : String} (hstem : stem ∈ rustTemporaries) {k low high : Nat}
    (h : k < low) : ¬ IsNew none low high (temporary stem k) := by
  rintro (hnone | ⟨stem', hstem', k', hlow, _, heq⟩)
  · exact nomatch hnone
  · have hk := temporary_inj (numberOf_of_mem hstem) (numberOf_of_mem hstem') heq
    omega

theorem not_isTemporary_of_own {name : String} (h : isRustLocal name = false) {low high : Nat} :
    ¬ IsTemporary low high name := by
  intro htemporary
  rw [htemporary.isRustLocal] at h
  exact nomatch h

/-! ## Bindings in front -/

namespace Scope

/-- `inner` is `outer` behind bindings of names with the property `P`. -/
def Adds (P : String → Prop) (outer inner : Scope) : Prop :=
  ∃ added : Scope, inner = added ++ outer ∧ ∀ binding ∈ added, P binding.1

variable {P Q : String → Prop} {outer inner : Scope} {name : String}

namespace Adds

theorem refl (scope : Scope) : Adds P scope scope :=
  ⟨[], rfl, fun _ h => absurd h (by simp)⟩

theorem cons (h : Adds P outer inner) (hname : P name) (cell : Cell) :
    Adds P outer ((name, cell) :: inner) := by
  obtain ⟨added, rfl, hadded⟩ := h
  exact ⟨(name, cell) :: added, rfl, List.forall_mem_cons.mpr ⟨hname, hadded⟩⟩

theorem mono (h : Adds P outer inner) (hPQ : ∀ name, P name → Q name) : Adds Q outer inner := by
  obtain ⟨added, rfl, hadded⟩ := h
  exact ⟨added, rfl, fun binding hb => hPQ _ (hadded binding hb)⟩

theorem trans {innermost : Scope} (h : Adds P outer inner) (h' : Adds P inner innermost) :
    Adds P outer innermost := by
  obtain ⟨added, rfl, hadded⟩ := h
  obtain ⟨added', rfl, hadded'⟩ := h'
  exact ⟨added' ++ added, (List.append_assoc _ _ _).symm,
    List.forall_mem_append.mpr ⟨hadded', hadded⟩⟩

/-- A name that is not new stands for what it stood for. -/
theorem lookup_eq (h : Adds P outer inner) (hname : ¬ P name) :
    inner.lookup name = outer.lookup name := by
  obtain ⟨added, rfl, hadded⟩ := h
  induction added with
  | nil => rfl
  | cons binding added ih =>
    obtain ⟨n, cell⟩ := binding
    have hne : name ≠ n := by
      rintro rfl
      exact hname (hadded _ List.mem_cons_self)
    rw [List.cons_append, List.lookup_cons_of_ne hne]
    exact ih fun binding hb => hadded binding (List.mem_cons_of_mem _ hb)

theorem value?_eq (h : Adds P outer inner) (hname : ¬ P name) :
    inner.value? name = outer.value? name := by
  rw [value?, h.lookup_eq hname, value?]

theorem hasBuffer (h : Adds P outer inner) (hname : ¬ P bufferVariable)
    (hbuf : outer.hasBuffer = true) : inner.hasBuffer = true := by
  rw [Scope.hasBuffer, h.lookup_eq hname]
  exact hbuf

/-- A block takes its own bindings with it. -/
theorem leave_eq (h : Adds P outer inner) : outer.leave inner = outer := by
  obtain ⟨added, rfl, _⟩ := h
  rw [leave, List.length_append, Nat.add_sub_cancel, List.drop_left]

/-- A push from inside a block reaches a variable from outside. -/
theorem push_eq (h : Adds P outer inner) (hname : ¬ P name) {v : Value} {outer' : Scope}
    (hpush : outer.push name v = some outer') (hlen : outer'.length = outer.length) :
    ∃ inner', inner.push name v = some inner' ∧ outer.leave inner' = outer' := by
  obtain ⟨added, rfl, hadded⟩ := h
  have happend : Scope.push name v (added ++ outer) = some (added ++ outer') := by
    induction added with
    | nil => exact hpush
    | cons binding added ih =>
      obtain ⟨n, cell⟩ := binding
      have hne : n ≠ name := by
        rintro rfl
        exact hname (hadded _ List.mem_cons_self)
      have hrest := ih fun binding hb => hadded binding (List.mem_cons_of_mem _ hb)
      change Scope.push name v ((n, cell) :: (added ++ outer)) = _
      unfold push
      rw [if_neg hne, hrest]
      rfl
  refine ⟨added ++ outer', happend, ?_⟩
  rw [leave, List.length_append, hlen, Nat.add_sub_cancel, List.drop_left]

end Adds

theorem value?_cons_self (scope : Scope) (name : String) (v : Value) :
    value? ((name, .value v) :: scope) name = some v := by
  rw [value?, List.lookup_cons_self]

theorem count?_cons_self (scope : Scope) (name : String) (n : Nat) :
    count? ((name, .count n) :: scope) name = some n := by
  rw [count?, List.lookup_cons_self]

theorem push_cons_self (scope : Scope) (name : String) (items : List Value) (v : Value) :
    push name v ((name, .value (.list items)) :: scope)
      = some ((name, .value (.list (items ++ [v]))) :: scope) := by
  rw [push, if_pos rfl]

theorem hasBuffer_cons {scope : Scope} (h : scope.hasBuffer = true) (hname : name ≠ bufferVariable)
    (cell : Cell) : hasBuffer ((name, cell) :: scope) = true := by
  rw [hasBuffer, List.lookup_cons_of_ne hname.symm]
  exact h

end Scope

end WireSchema.RustCode
