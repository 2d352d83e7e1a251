import WireSchema.Proofs.Reachable
import WireSchema.Proofs.RoundTrip

/-!
# Members of a C++ struct

A struct of the schema is declared in C++ with a member for each field, and one of fixed size gets
its size as a constant on top. The fields were checked against each other, before anything was known
about sizes, and nothing was checked against the constant. So the members of a struct have
**different names exactly if no field of a struct of fixed size takes the name of the constant**.
-/

namespace WireSchema

open Naming (cppField)

/-- The text of a step that is a line and nothing else. -/
def CodeStep.line? : CodeStep → Option String
  | .line text => some text
  | _ => none

namespace CppCode

/-- What is declared inside of a struct. -/
structure Member where
  type : String
  name : String
  /-- What the member is set to, as it is written behind the name. -/
  initial : String
  deriving DecidableEq

/-- The line that declares a member. -/
def Member.line (m : Member) : String :=
  m.type ++ " " ++ m.name ++ m.initial ++ ";"

/-- The name of the constant in a struct of fixed size. -/
def sizeName : String := "encoded_size"

/-- The constant in a struct of fixed size. -/
def sizeMember (size : Nat) : Member :=
  ⟨"static constexpr std::size_t", sizeName, " = " ++ toString size⟩

/-- The member of a field. -/
def dataMember (sel : Selection) (f : Field) : Member :=
  ⟨typeText (structType sel) f.ty, cppField f.name, "\x7b\x7d"⟩

/-- The members of a struct, in the order in which they are declared. -/
def members (sel : Selection) (id : Nat) : List Member :=
  let layout := sel.analysis.structLayout id
  (if layout.isFixed then [sizeMember layout.fixedSize] else [])
    ++ (sel.schema.fieldsOf id).map (dataMember sel)

theorem line_sizeMember (size : Nat) : (sizeMember size).line
    = "static constexpr std::size_t encoded_size = " ++ toString size ++ ";" := by
  have hstart : "static constexpr std::size_t" ++ " " ++ sizeName ++ " = "
      = "static constexpr std::size_t encoded_size = " := by decide
  rw [Member.line, sizeMember, ← String.append_assoc, hstart]

theorem line_dataMember (sel : Selection) (f : Field) : (dataMember sel f).line
    = s!"{typeText (structType sel) f.ty} {cppField f.name}\x7b\x7d;" := by
  have hend : "\x7b\x7d" ++ ";" = "\x7b\x7d;" := by decide
  rw [Member.line, dataMember, String.append_assoc, hend]
  rfl

/-- **Every line inside of a struct declares a member, and every member has a line.** -/
theorem lines_structDeclaration (sel : Selection) (id : Nat) :
    (structDeclaration sel id).filterMap CodeStep.line? = (members sel id).map Member.line := by
  have hfields : ((sel.schema.fieldsOf id).map fun f =>
        CodeStep.line s!"{typeText (structType sel) f.ty} {cppField f.name}\x7b\x7d;").filterMap
          CodeStep.line?
      = ((sel.schema.fieldsOf id).map (dataMember sel)).map Member.line := by
    rw [List.filterMap_map, List.map_map, ← List.filterMap_eq_map]
    refine List.filterMap_congr fun f _ => ?_
    exact congrArg some (line_dataMember sel f).symm
  unfold structDeclaration members
  dsimp only
  rw [List.filterMap_append, List.filterMap_append, List.filterMap_append, hfields, List.map_append]
  -- neither the braces nor the blank lines are lines of their own
  change _ ++ [] = _
  rw [List.append_nil]
  by_cases hfixed : (sel.analysis.structLayout id).isFixed = true
  · rw [if_pos hfixed, if_pos hfixed, List.map_cons, line_sizeMember]
    rfl
  · rw [if_neg hfixed, if_neg hfixed]
    rfl

/-- Fields that differ among themselves need only be told from the constant. -/
theorem nodup_members_iff {sel : Selection} {id : Nat}
    (h : ((sel.schema.fieldsOf id).map fun f => cppField f.name).Nodup) :
    ((members sel id).map Member.name).Nodup ↔
      ((sel.analysis.structLayout id).isFixed = true →
        ∀ f ∈ sel.schema.fieldsOf id, cppField f.name ≠ sizeName) := by
  have hdata : ((sel.schema.fieldsOf id).map (dataMember sel)).map Member.name
      = (sel.schema.fieldsOf id).map fun f => cppField f.name := by
    rw [List.map_map]
    rfl
  unfold members
  dsimp only
  rw [List.map_append, hdata]
  by_cases hfixed : (sel.analysis.structLayout id).isFixed = true
  · have hconstant : [sizeMember (sel.analysis.structLayout id).fixedSize].map Member.name
        = [sizeName] := rfl
    rw [if_pos hfixed, hconstant, List.singleton_append, List.nodup_cons, and_iff_left h]
    constructor
    · intro hnew _ f hf hname
      exact hnew (List.mem_map.mpr ⟨f, hf, hname⟩)
    · intro hnames hmem
      obtain ⟨f, hf, hname⟩ := List.mem_map.mp hmem
      exact hnames hfixed f hf hname
  · rw [if_neg hfixed, List.map_nil, List.nil_append]
    exact iff_of_true h fun hfixed' => absurd hfixed' hfixed

end CppCode

open CppCode

/--
**When the members of a C++ struct have different names.** For every struct of a compiled schema,
whatever messages code is generated for: the lines inside of its declaration are those of its
members, and no two members have the same name exactly if the struct is not of fixed size or none of
its fields is called like the constant that holds the size.
-/
theorem cpp_members_distinct_iff {text : String} {c : Compiled} (hc : compile text = .ok c)
    {messages : List Message} (hsub : messages ⊆ c.schema.messages) (options : Options) (id : Nat) :
    let sel := c.select messages options
    (structDeclaration sel id).filterMap CodeStep.line? = (members sel id).map Member.line
      ∧ (((members sel id).map Member.name).Nodup ↔
          ((sel.analysis.structLayout id).isFixed = true →
            ∀ f ∈ sel.schema.fieldsOf id, cppField f.name ≠ sizeName)) := by
  obtain ⟨rank, hlawful⟩ := Compiled.lawful_select hc hsub options
  exact ⟨lines_structDeclaration _ id, nodup_members_iff (hlawful.cppNames id)⟩

/-- A struct of fixed size and one that is not, without a field of that name. -/
theorem cpp_members_distinct_iff_reading :
    compile readingText = .ok reading ∧
    ∀ options, let sel := reading.select readingSchema.messages options
      (0 ∈ sel.structs ∧ ((members sel 0).map Member.name).Nodup) ∧
      1 ∈ sel.structs ∧ (reading.analysis.structLayout 1).isFixed = true ∧
        ((members sel 1).map Member.name).Nodup := by
  have hreached : readingSchema.reachable [.struct 0 false] = [1, 0] := by decide
  have hfirst : 0 ∈ readingSchema.reachable [.struct 0 false] := by rw [hreached]; decide
  have hsecond : 1 ∈ readingSchema.reachable [.struct 0 false] := by rw [hreached]; decide
  have hvarying : ¬ (reading.analysis.structLayout 0).isFixed = true := by decide
  have hnames : ∀ f ∈ readingSchema.fieldsOf 1, cppField f.name ≠ sizeName := by decide
  refine ⟨compile_readingText, fun options => ⟨⟨hfirst, ?_⟩, hsecond, by decide, ?_⟩⟩
  · exact (cpp_members_distinct_iff compile_readingText (List.Subset.refl _) options 0).2.mpr
      fun hfixed => absurd hfixed hvarying
  · exact (cpp_members_distinct_iff compile_readingText (List.Subset.refl _) options 1).2.mpr
      fun _ => hnames

/-- A field that is called like the constant. -/
def sizedText : String :=
  "package p\n" ++
  "type Point struct \x7b EncodedSize int32 \x7d\n"

def sizedSchema : Schema where
  package := "p"
  structs := [⟨"Point", ⟨2, 6⟩, [
    ⟨"EncodedSize", ⟨2, 21⟩, .primitive (.number .int32) false, none⟩]⟩]
  declarations := [⟨"Point", ⟨2, 6⟩, .struct 0 false⟩]
  messages := [⟨"Point", .struct 0 false⟩]

def sized : Compiled where
  schema := sizedSchema
  analysis := {
    structs := [⟨true, 4, 4, false, false, 0⟩]
    declarations := [("Point", ⟨true, 4, 4, false, false, 0⟩)]
    messages := [("Point", ⟨true, 4, 4, false, false, 0⟩)] }

theorem compile_sizedText : compile sizedText = .ok sized := by
  have hparse : Schema.parse sizedText = .ok sizedSchema := by decide +kernel
  have hanalyze : sizedSchema.analyze = .ok sized.analysis := by decide
  exact compile_of_ordered hparse (by decide) (by decide) hanalyze

/-- The constant and the field have one name. -/
theorem size_member_declared_twice :
    compile sizedText = .ok sized ∧
    ∀ options, let sel := sized.select sizedSchema.messages options
      sel.structs = [0] ∧ (members sel 0).map Member.name = ["encoded_size", "encoded_size"] ∧
      (structDeclaration sel 0).filterMap CodeStep.line? =
        ["static constexpr std::size_t encoded_size = 4;",
          "std::int32_t encoded_size\x7b\x7d;"] := by
  have hstructs : sizedSchema.reachable [.struct 0 false] = [0] := by decide
  have hname : cppField "EncodedSize" = "encoded_size" := by decide
  refine ⟨compile_sizedText, fun options => ?_⟩
  have hmembers : members (sized.select sizedSchema.messages options) 0
      = [sizeMember 4, ⟨"std::int32_t", "encoded_size", "\x7b\x7d"⟩] := by
    rw [← hname]
    rfl
  dsimp only
  rw [lines_structDeclaration, hmembers]
  exact ⟨hstructs, rfl, by decide⟩

end WireSchema
