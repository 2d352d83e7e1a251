/-!
# Rounds

Facts about all structs at once are found in rounds, each of which looks one struct further than the
one before. A round that finds nothing new is the last that matters: `settle` stops there, and
`settle_eq_rounds` says that it gives what all the rounds would give.
-/

namespace WireSchema

variable {α : Type}

/-- What a number of rounds make of something. -/
def rounds (step : α → α) : (n : Nat) → α → α
  | 0, x => x
  | n + 1, x => rounds step n (step x)

/-- What a number of rounds make of something, found without the idle ones at the end. -/
def settle [DecidableEq α] (step : α → α) : (n : Nat) → α → α
  | 0, x => x
  | n + 1, x =>
    let next := step x
    if next = x then x else settle step n next

theorem rounds_of_idle {step : α → α} {x : α} (h : step x = x) (n : Nat) :
    rounds step n x = x := by
  induction n with
  | zero => rfl
  | succ n ih => rw [rounds, h, ih]

/-- Idle rounds can be left out. -/
theorem settle_eq_rounds [DecidableEq α] (step : α → α) (n : Nat) (x : α) :
    settle step n x = rounds step n x := by
  induction n generalizing x with
  | zero => rfl
  | succ n ih =>
    unfold settle
    dsimp only
    split
    · rename_i h
      exact (rounds_of_idle h (n + 1)).symm
    · exact ih (step x)

end WireSchema
