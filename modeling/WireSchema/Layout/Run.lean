import WireSchema.Schema.Basic

/-!
# Runs of fixed-width fields

Required primitives with a width that stand next to each other form a run; a decoder can check the
length of the input once for all of it. Runs are given as index ranges into the list of fields, the
end excluded, and reach as far as they can on both sides.
-/

namespace WireSchema

/-- A range of indices, `stop` excluded. -/
structure Run where
  start : Nat
  stop : Nat
  deriving DecidableEq, Repr

/-- Number of fields in a run. -/
def Run.size (r : Run) : Nat :=
  r.stop - r.start

/-- The runs among the fields from `index` on; `begun` is where the current run began. -/
def runsFrom (index : Nat) (begun : Option Nat) : List Field → List Run
  | [] =>
    match begun with
    | some start => [⟨start, index⟩]
    | none => []
  | f :: rest =>
    match f.ty.fixedWidth?.isSome, begun with
    | true, none => runsFrom (index + 1) (some index) rest
    | false, some start => ⟨start, index⟩ :: runsFrom (index + 1) none rest
    | _, _ => runsFrom (index + 1) begun rest

/-- The runs of a struct. -/
def Schema.runs (s : Schema) (id : Nat) : List Run :=
  runsFrom 0 none (s.fieldsOf id)

/-- Fields that are decoded together. -/
inductive Segment where
  | single (field : Field)
  /-- A run of more than one field. -/
  | run (fields : List Field)

/-- The fields from `index` on, cut along the runs of more than one field. -/
def segmentsFrom (runs : List Run) (index : Nat) (fields : List Field) : List Segment :=
  match fields with
  | [] => []
  | f :: rest =>
    match h : runs.find? fun r => r.start == index && decide (1 < r.size) with
    | some r =>
      have : 1 < r.size := by simpa using And.right (by simpa using List.find?_some h)
      .run ((f :: rest).take r.size) :: segmentsFrom runs r.stop ((f :: rest).drop r.size)
    | none => .single f :: segmentsFrom runs (index + 1) rest
termination_by fields.length
decreasing_by
  · simp; omega
  · simp

/-- The fields of a struct, cut along its runs. -/
def Schema.segments (s : Schema) (id : Nat) : List Segment :=
  segmentsFrom (s.runs id) 0 (s.fieldsOf id)

end WireSchema
