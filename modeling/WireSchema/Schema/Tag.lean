import WireSchema.Text.Blank

/-!
# Field tags

A tag is a list of entries `key:"value"`. The lookup goes from left to right and gives up at the
first thing that is not an entry, so an entry behind such a thing is never found.
-/

namespace WireSchema.Tag

/-- The value of the first entry with the given key. -/
def find? (key : List Char) (tag : List Char) : Option (List Char) :=
  match hc : Text.cutAt? ':' tag with
  | some (name, '"' :: quoted) =>
    match hq : Text.cutAt? '"' quoted with
    | some (value, rest) =>
      have : (Text.trimStart rest).length < tag.length := by
        have h₁ := Text.length_of_cutAt? hc
        have h₂ := Text.length_of_cutAt? hq
        have h₃ := Text.length_trimStart_le rest
        simp only [List.length_cons] at h₁
        omega
      if Text.trim name = key then some value else find? key (Text.trimStart rest)
    | none => none
  | _ => none
termination_by tag.length

/-- The value of a key in a tag. -/
def value? (tag key : String) : Option String :=
  (find? key.toList (Text.trim tag.toList)).map String.ofList

/-- The part of an entry's value before its first comma. -/
def firstOption (value : String) : String :=
  String.ofList (value.toList.takeWhile (· != ','))

end WireSchema.Tag
