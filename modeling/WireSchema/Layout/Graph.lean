import WireSchema.Layout.Rounds
import WireSchema.Schema.Basic

/-!
# Structs inside structs

A struct leads to another when one of its fields is made of it, through any number of arrays and
whether optional or not. Walks over this graph are depth first, in the order of the fields. A walk
that keeps off the structs it has come through is at most as deep as there are structs, so that number
bounds every recursion here.
-/

namespace WireSchema

/-- The structs that fields lead to, in order. -/
def fieldTargets (fields : List Field) : List Nat :=
  fields.filterMap (·.ty.innermost?)

namespace Schema

/-- The structs a struct leads to, field by field. -/
def targets (s : Schema) (id : Nat) : List Nat :=
  fieldTargets (s.fieldsOf id)

/-- The positions of all structs. -/
def structIds (s : Schema) : List Nat :=
  List.range s.structs.length

/-- The part of a path from `id` on, closed with `id`. -/
def closeCycle (path : List Nat) (id : Nat) : List Nat :=
  path.dropWhile (· != id) ++ [id]

/-- The names of structs. -/
def names (s : Schema) (ids : List Nat) : List String :=
  ids.map s.structName

/-- Walks on from a struct that was reached by `path`, and adds it to the structs in `done`, from
which no cycle can be reached. Fails with the first cycle met. -/
def walk (s : Schema) (depth : Nat) (path done : List Nat) (id : Nat) :
    Except (List Nat) (List Nat) :=
  if done.contains id then .ok done
  else if path.contains id then .error (closeCycle path id)
  else
    match depth with
    | 0 => .error (closeCycle path id)
    | depth + 1 =>
      ((s.targets id).foldlM (fun done target => s.walk depth (path ++ [id]) done target) done).map
        (id :: ·)

/-- The first cycle met on walks from every struct in turn, or that there is none. -/
def findCycle (s : Schema) : Except (List Nat) Unit :=
  (s.structIds.foldlM (fun done id => s.walk s.structs.length [] done id) []).map fun _ => ()

/-- Structs seen on a walk, and those the walk has left, latest first. -/
structure Visit where
  seen : List Nat := []
  left : List Nat := []

/-- Walks on from a struct unless it has been seen. -/
def visit (s : Schema) (depth : Nat) (state : Visit) (id : Nat) : Visit :=
  if state.seen.contains id then state
  else
    match depth with
    | 0 => state
    | depth + 1 =>
      let inside := (s.targets id).foldl (fun state target => s.visit depth state target)
        { state with seen := id :: state.seen }
      { inside with left := id :: inside.left }

/-- The structs reached from some types, each behind every struct it leads to. -/
def reachable (s : Schema) (types : List Ty) : List Nat :=
  let roots := types.filterMap Ty.innermost?
  (roots.foldl (fun state id => s.visit s.structs.length state id) {}).left.reverse

/-- How far down structs are found to go one round after `known`. -/
def depthStep (s : Schema) (known : Array Nat) : Array Nat :=
  (s.structs.map fun d =>
    ((fieldTargets d.fields).map fun target => 1 + known.getD target 0).foldl max 0).toArray

/-- The longest way down from every struct, in a schema without cycles. -/
def depths (s : Schema) : Array Nat :=
  settle s.depthStep s.structs.length (s.structs.map fun _ => 0).toArray

end Schema

end WireSchema
