import WireSchema.Source.Token

/-!
# A place in a list of tokens

The parser always sees one token; when it has taken the last one it goes on seeing it. A list of
tokens normally ends in the empty token, which no rule of the grammar but the end of the text takes,
so this matters only for lists that lack it. `Reaches` says that one cursor is some tokens further on
than another; every rule of the grammar moves the cursor this way.
-/

namespace WireSchema

/-- The token in view and the ones behind it. -/
structure Cursor where
  token : Token
  ahead : List Token
  deriving DecidableEq, Repr

namespace Cursor

/-- One token further, if there is one. -/
def advance (c : Cursor) : Cursor :=
  match c.ahead with
  | [] => c
  | t :: rest => ⟨t, rest⟩

/-- The cursor `n` tokens further on. -/
def advances : Nat → Cursor → Cursor
  | 0, c => c
  | n + 1, c => advances n c.advance

/-- `c'` is some tokens further on than `c`. -/
def Reaches (c c' : Cursor) : Prop :=
  ∃ n, c' = c.advances n

theorem advance_of_ahead_eq_nil {c : Cursor} (h : c.ahead = []) : c.advance = c := by
  simp [advance, h]

theorem length_ahead_advance (c : Cursor) : c.advance.ahead.length = c.ahead.length - 1 := by
  unfold advance
  split <;> simp [*]

theorem advances_add (m n : Nat) (c : Cursor) : c.advances (m + n) = (c.advances m).advances n := by
  induction m generalizing c with
  | zero => simp [advances]
  | succ m ih => rw [Nat.succ_add, advances, ih, advances]

theorem advances_of_ahead_eq_nil {c : Cursor} (h : c.ahead = []) (n : Nat) : c.advances n = c := by
  induction n with
  | zero => rfl
  | succ n ih => rw [advances, advance_of_ahead_eq_nil h, ih]

theorem length_ahead_advances (n : Nat) (c : Cursor) :
    (c.advances n).ahead.length = c.ahead.length - n := by
  induction n generalizing c with
  | zero => rfl
  | succ n ih =>
    rw [advances, ih, length_ahead_advance]
    omega

namespace Reaches

theorem refl (c : Cursor) : Reaches c c :=
  ⟨0, rfl⟩

theorem advance (c : Cursor) : Reaches c c.advance :=
  ⟨1, rfl⟩

theorem trans {a b c : Cursor} (h₁ : Reaches a b) (h₂ : Reaches b c) : Reaches a c := by
  obtain ⟨m, rfl⟩ := h₁
  obtain ⟨n, rfl⟩ := h₂
  exact ⟨m + n, (advances_add m n a).symm⟩

theorem length_le {c c' : Cursor} (h : Reaches c c') : c'.ahead.length ≤ c.ahead.length := by
  obtain ⟨n, rfl⟩ := h
  rw [length_ahead_advances]
  omega

theorem eq_of_ahead_eq_nil {c c' : Cursor} (h : Reaches c c') (hc : c.ahead = []) : c' = c := by
  obtain ⟨n, rfl⟩ := h
  exact advances_of_ahead_eq_nil hc n

end Reaches

/-- Behind a taken token fewer are left, unless it was the last. -/
theorem length_lt_of_reaches_advance {c c' : Cursor} (h : Reaches c.advance c')
    (hc : c.ahead ≠ []) : c'.ahead.length < c.ahead.length := by
  have hle := h.length_le
  rw [length_ahead_advance] at hle
  have : c.ahead.length ≠ 0 := by simpa using hc
  omega

/-- The cursor behind line breaks and semicolons. -/
def skip (test : String → Bool) (c : Cursor) : Cursor :=
  match c with
  | ⟨t, []⟩ => ⟨t, []⟩
  | ⟨t, u :: rest⟩ => if test t.text then skip test ⟨u, rest⟩ else ⟨t, u :: rest⟩
termination_by c.ahead.length

theorem reaches_skip (test : String → Bool) (c : Cursor) : Reaches c (c.skip test) := by
  fun_induction skip test c with
  | case1 t => exact .refl _
  | case2 t u rest _ ih => exact (Reaches.advance ⟨t, u :: rest⟩).trans ih
  | case3 t u rest _ => exact .refl _

end Cursor

end WireSchema
