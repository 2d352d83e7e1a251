import WireSchema.Number.Power

/-!
# Fresh names

Temporaries of a generated function are numbered in the order in which they are made, whatever they
are called, so no two of them have the same name.
-/

namespace WireSchema

/-- Building a piece of a generated function; the state is the next number. -/
abbrev Fresh := StateM Nat

/-- A new temporary. -/
def fresh (stem : String) : Fresh String := do
  let n ← get
  set (n + 1)
  return s!"{stem}{n}"

/-- What is built for a function of its own. -/
def Fresh.build {α : Type} (x : Fresh α) : α :=
  (x.run 0).1

/-- The things a list is made into are made one after the other. -/
theorem Fresh.run_mapM_cons {α β : Type} (g : α → Fresh β) (x : α) (xs : List α) (n : Nat) :
    ((x :: xs).mapM g).run n
      = (((g x).run n).1 :: ((xs.mapM g).run ((g x).run n).2).1,
        ((xs.mapM g).run ((g x).run n).2).2) := by
  rw [List.mapM_cons]
  rfl

/-- The sum of two machine words. -/
def wordAdd (a b : Nat) : Nat :=
  (a + b) % 2 ^ (64 : Nat)

end WireSchema
