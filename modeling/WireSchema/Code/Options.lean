import WireSchema.Schema.Ty

/-!
# Choices in generated code
-/

namespace WireSchema

/-- What a user may choose about generated code. -/
structure Options where
  /-- Takes the place of the schema's package name. -/
  package : Option String := none
  /-- Where generated Rust code finds the wire buffers. -/
  runtimeCrate : String := "ffire"
  /-- Arrays of numbers are copied as one block. -/
  bulkArrays : Bool := true
  /-- Generated Rust structs can be read from and written as documents. -/
  serde : Bool := false
  deriving DecidableEq, Repr

/-- How the elements of an array are written. -/
inductive ArrayStrategy where
  /-- A length and one block. -/
  | bulk (kind : Numeric)
  /-- A length and one element after the other. -/
  | elementWise
  deriving DecidableEq, Repr

/-- Only required numbers can be copied as a block. -/
def arrayStrategy (bulkArrays : Bool) : (element : Ty) → ArrayStrategy
  | .primitive (.number kind) false => if bulkArrays then .bulk kind else .elementWise
  | _ => .elementWise

theorem eq_of_arrayStrategy {bulkArrays : Bool} {e : Ty} {kind : Numeric}
    (h : arrayStrategy bulkArrays e = .bulk kind) : e = .primitive (.number kind) false := by
  unfold arrayStrategy at h
  split at h
  · split at h
    · injection h with h
      rw [h]
    · exact absurd h (by simp)
  · exact absurd h (by simp)

end WireSchema
