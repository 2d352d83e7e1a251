import WireSchema.Data.Fit

/-!
# Documents that conform to a message

A document conforms to a type when it has the type's form, `null` or a missing key standing for a
value that is absent. The check walks the document in the order of the schema's fields and of the
array's items, and reports the first place where it does not conform.
-/

namespace WireSchema

namespace Json

theorem sizeOf_held_lt (key : String) (members : List (String × Json)) :
    sizeOf (held key members) < 1 + sizeOf members := by
  induction members with
  | nil => simp [held]
  | cons m rest ih =>
    obtain ⟨k, v⟩ := m
    by_cases h : key == k
    · simp [held, List.lookup_cons, h]; omega
    · simp [held, List.lookup_cons, h] at ih ⊢; omega

end Json

/-- Checks a value that is present against a primitive. -/
def Primitive.check (p : Primitive) (path : Path) (j : Json) : Except Error Unit :=
  match p with
  | .bool => (j.boolean path).map fun _ => ()
  | .string => (j.text path).map fun _ => ()
  | .number .float32 =>
    (j.double path).bind fun x =>
      if x.exceedsSingle then .error (.data path (.singleRange x)) else .ok ()
  | .number .float64 => (j.double path).map fun _ => ()
  | .number type => (j.integer type path).map fun _ => ()

/-- Checks a value of a document against a type. -/
def Schema.checkValue (s : Schema) (t : Ty) (path : Path) (j : Json) : Except Error Unit :=
  match j with
  | .null => if t.optional then .ok () else .error (.data path .missing)
  | j =>
    match t with
    | .primitive p _ => p.check path j
    | .struct id _ =>
      match j with
      | .object members =>
        (s.fieldsOf id).forM fun f =>
          have := Json.sizeOf_held_lt f.key members
          s.checkValue f.ty (.key f.key :: path) (Json.held f.key members)
      | _ => .error (.data path (.expected .object))
    | .array e _ =>
      match j with
      | .array items =>
        if items.length ≤ Wire.maxLength then
          items.attach.zipIdx.forM fun (⟨item, _⟩, i) => s.checkValue e (.index i :: path) item
        else .error (.capacity path .array items.length)
      | _ => .error (.data path (.expected .array))
termination_by sizeOf j

/-- The message of a name. -/
def Schema.findMessage (s : Schema) (name : String) : Except Error Message :=
  match s.message? name with
  | some m => .ok m
  | none => .error (.messageNotFound name)

/-- Checks a document against a message. -/
def Schema.checkData (s : Schema) (message : String) (j : Json) : Except Error Unit := do
  let m ← s.findMessage message
  s.checkValue m.ty [] j

end WireSchema
