import WireSchema.Proofs.FileLines
import WireSchema.Proofs.LegalNames
import WireSchema.Proofs.RoundTrip
import WireSchema.Proofs.TagLookup

/-!
# Keys in generated structs

A generated struct can be read from documents and written as one. The key of a field there is the
field's own name in generated code, unless an attribute in front of the field gives another one as a
string literal. The key of the schema is put into that literal as it is, and the module's lines are
moved further in when the file is put together. So the two keys are the same **exactly if the key is
the field's name or has neither a backslash nor a line break nor a carriage return in it**: a backslash
begins an escape, a key with a line break gets the blanks that its second line is moved by, and a
carriage return must not stand in a literal.
-/

namespace WireSchema

open Grammar (isIdentifier)
open Naming (rustField)

/-! ## Keys of the schema -/

theorem Field.quote_not_mem_key {f : Field} (h : isIdentifier f.name = true) :
    '"' ∉ f.key.toList := by
  have hname : '"' ∉ f.name.toList := fun hmem =>
    absurd ((Grammar.isIdentifier_iff.mp h).2 _ hmem) (by decide)
  unfold key
  split
  · rename_i name hentry
    split
    · exact hname
    · obtain ⟨value, hvalue, rfl⟩ := Option.map_eq_some_iff.mp hentry
      obtain ⟨tag, _, htag⟩ := Option.bind_eq_some_iff.mp hvalue
      obtain ⟨chars, hchars, rfl⟩ := Option.map_eq_some_iff.mp htag
      unfold Tag.firstOption
      rw [String.toList_ofList, String.toList_ofList]
      exact fun hmem => Tag.quote_not_mem_find? hchars ((List.takeWhile_sublist _).subset hmem)
  · exact hname

/-- A name that the schema or generated code gives a field is made of letters, digits and
underscores. -/
theorem Naming.isWordChar_rustField {name : String} (h : isIdentifier name = true) :
    ∀ c ∈ (rustField name).toList, Piece.isWordChar c = true := by
  by_cases hname : name = "_"
  · rw [hname, rustField_underscore]
    exact List.forall_mem_singleton.mpr (by decide)
  · exact (Grammar.isIdentifier_iff.mp (isLegal_iff.mp ((isLegal_rustField h).mpr hname)).1).2

namespace RustCode

/-! ## Keys of the file -/

/-- What a field that has a key of its own begins with. -/
def renameOpening : List Char :=
  "#[serde(rename = \"".toList

/-- The key of a field by its declaration: what the literal of the attribute denotes, or else the
name. -/
def declaredKey? (declaration : List Char) : Option String :=
  match declaration.dropPrefix? renameOpening with
  | some literal => (Literal.value? literal).map String.ofList
  | none =>
    (declaration.dropPrefix? "pub ".toList).map fun rest =>
      String.ofList (rest.takeWhile (· != ':'))

/-- The key of the field that is declared at the beginning of a text. -/
def externalKey? (text : List Char) : Option String :=
  declaredKey? (text.dropWhile (· == ' '))

/-- The steps of the module in front of a field: those of the structs `front`, and those of the struct
`id` down to the field. -/
def stepsBefore (sel : Selection) (front : List Nat) (id : Nat) (fields : List Field) :
    List CodeStep :=
  front.flatMap (fun id => structDeclaration sel id ++ structMethods sel (structRoutines sel id))
    ++ structHead sel id
    ++ fields.flatMap (fieldSteps sel)

/-- What the file begins with when some steps of the module have been written. -/
def writtenWith (sel : Selection) (steps : List CodeStep) : List Char :=
  ((CodeWriter.run { unit := indentation } (moduleHead sel (program sel))).nested indentation
    steps).text

theorem stepsBefore_prefix_body {sel : Selection} {front back : List Nat} {id : Nat}
    (hid : sel.structs = front ++ id :: back) {fields others : List Field} {f : Field}
    (hf : sel.schema.fieldsOf id = fields ++ f :: others) :
    stepsBefore sel front id fields ++ fieldSteps sel f <+: body sel (program sel) := by
  have hstruct : structDeclaration sel id = structHead sel id
      ++ (fields.flatMap (fieldSteps sel) ++ (fieldSteps sel f ++ others.flatMap (fieldSteps sel)))
      ++ [.leave "\x7d", .blank] := by
    rw [structDeclaration, hf, List.flatMap_append, List.flatMap_cons]
  unfold stepsBefore body program
  dsimp only
  rw [hid, List.flatMap_map, List.flatMap_append, List.flatMap_cons]
  change _ <+: front.flatMap (fun id => structDeclaration sel id ++ structMethods sel (structRoutines sel id))
    ++ ((structDeclaration sel id ++ structMethods sel (structRoutines sel id)) ++ _) ++ _
  rw [hstruct]
  simp only [List.append_assoc, List.prefix_append_right_inj, List.prefix_append]

theorem margin_moduleHead (sel : Selection) (p : Program) :
    (CodeWriter.run { unit := indentation } (moduleHead sel p)).margin = indentation.toList := by
  have hblank : ∀ w : CodeWriter, (w.run [.blank]).margin = w.margin :=
    fun w => w.margin_step_blank
  have hserde : ∀ (w : CodeWriter) (serde : Bool) (first second : String),
      (w.run (if serde = true then [.line first, .line second] else [])).margin = w.margin := by
    intro w serde first second
    split
    · exact w.margin_run_lines [first, second]
    · rfl
  -- only the line of the module itself changes the depth
  have hopen : ∀ first second third : String, (CodeWriter.run { unit := indentation }
      [.line first, .blank, .enter second, .line third]).margin = indentation.toList := by
    intro first second third
    have hone : (String.join (List.replicate 1 indentation)).toList = indentation.toList := by decide
    change (((CodeWriter.step _ .blank).step (.enter second)).step (.line third)).margin = _
    rcases CodeWriter.step_blank (.step { unit := indentation } (.line first)) with h | h
    · rw [h]
      exact hone
    · rw [h]
      exact hone
  unfold moduleHead
  dsimp only
  rw [CodeWriter.run_append, CodeWriter.run_append, hblank, hserde]
  exact hopen _ _ _

theorem source_eq_finish (sel : Selection) : source sel
    = ((CodeWriter.run { unit := indentation } (moduleHead sel (program sel))).run
        ((Text.lines (renderCode indentation (body sel (program sel)))).map .line
          ++ [.leave "\x7d"])).finish := by
  rw [← CodeWriter.run_append, ← List.append_assoc]
  rfl

/-- **A line of the module** stands behind what was written before it. -/
theorem source_line {sel : Selection} {before after : List CodeStep} {text : String}
    (hbody : body sel (program sel) = before ++ .line text :: after) (htext : text ≠ "") :
    writtenWith sel before ++ relined indentation.toList
        ((CodeWriter.run { unit := indentation } before).margin ++ (text.toList ++ ['\n']))
      <+: (source sel).toList := by
  have hclose : "\x7d" ≠ "" := by decide
  rw [source_eq_finish, hbody, writtenWith, ← margin_moduleHead sel (program sel)]
  exact CodeWriter.text_nested _ htext hclose before after

/-- A line of the module with a text in it. -/
theorem source_text {sel : Selection} {before after : List CodeStep} {text : String}
    (hbody : body sel (program sel) = before ++ .line text :: after) {front back : List Char}
    (hfront : Text.LinePart front) (hback : Text.LinePart back) {inside : List Char}
    (htext : text.toList = front ++ (inside ++ back)) :
    ∃ blanks written tail, (∀ c ∈ blanks, c = ' ') ∧
      (source sel).toList = writtenWith sel before ++ (blanks ++ (front ++ (written ++ (back ++ tail))))
      ∧ ('\n' ∉ inside → written = inside) ∧ ('\n' ∈ inside → Relined inside written) := by
  have hunit : ∀ c ∈ indentation.toList, c = ' ' := by
    have hfour : indentation.toList = List.replicate 4 ' ' := by decide
    rw [hfour]
    exact fun c hc => List.eq_of_mem_replicate hc
  let inner := CodeWriter.run { unit := indentation } before
  have hinner : ∀ c ∈ inner.margin, c = ' ' := by
    refine inner.blank_of_mem_margin ?_
    rw [CodeWriter.unit_run]
    exact hunit
  have hne : text ≠ "" := by
    rintro rfl
    exact hfront.ne_nil (List.append_eq_nil_iff.mp htext.symm).1
  obtain ⟨rest, hrest⟩ := source_line hbody hne
  have hmargin : '\n' ∉ inner.margin := fun hmem => absurd (hinner _ hmem) (by decide)
  obtain ⟨written, hwritten, hsame, hmoved⟩ :=
    relined_line hunit (by decide) (hfront.append hmargin) hback inside []
  refine ⟨indentation.toList ++ inner.margin, written, '\n' :: rest, ?_, ?_, hsame, hmoved⟩
  · exact List.forall_mem_append.mpr ⟨hunit, hinner⟩
  · have hline : inner.margin ++ (text.toList ++ ['\n'])
        = inner.margin ++ front ++ (inside ++ (back ++ '\n' :: [])) := by
      rw [htext]
      simp
    rw [← hrest, hline, hwritten]
    simp [relined, Text.linesFrom]

/-! ## Reading keys -/

theorem externalKey?_blanks {blanks : List Char} (hblanks : ∀ c ∈ blanks, c = ' ') {c : Char}
    (hc : c ≠ ' ') (rest : List Char) :
    externalKey? (blanks ++ c :: rest) = declaredKey? (c :: rest) := by
  have hdrop : ∀ b ∈ blanks, (b == ' ') = true := fun b hb => beq_iff_eq.mpr (hblanks b hb)
  rw [externalKey?, List.dropWhile_append_of_pos hdrop,
    List.dropWhile_cons_of_neg (by simpa using hc)]

theorem declaredKey?_attribute (literal : List Char) :
    declaredKey? (renameOpening ++ literal) = (Literal.value? literal).map String.ofList := by
  rw [declaredKey?, List.dropPrefix?_append_of_beq literal (beq_self_eq_true renameOpening)]

theorem declaredKey?_name {name : List Char} (hname : ':' ∉ name) (rest : List Char) :
    declaredKey? ("pub ".toList ++ (name ++ ':' :: rest)) = some (String.ofList name) := by
  have hattribute : ("pub ".toList ++ (name ++ ':' :: rest)).dropPrefix? renameOpening = none := rfl
  have hpass : ∀ c ∈ name, (c != ':') = true := by
    intro c hc
    rw [bne_iff_ne]
    rintro rfl
    exact hname hc
  rw [declaredKey?, hattribute]
  dsimp only
  rw [List.dropPrefix?_append_of_beq _ (beq_self_eq_true "pub ".toList), Option.map_some,
    List.takeWhile_append_of_pos hpass, List.takeWhile_cons_of_neg (by decide), List.append_nil]

theorem map_ofList_eq_some {cs : Option (List Char)} {s : String} :
    cs.map String.ofList = some s ↔ cs = some s.toList := by
  rw [Option.map_eq_some_iff]
  constructor
  · rintro ⟨chars, rfl, rfl⟩
    rw [String.toList_ofList]
  · rintro rfl
    exact ⟨_, rfl, String.ofList_toList⟩

/-- **A key that was put into a literal** is denoted by it if it is plain. -/
theorem value?_eq_key_iff {key written : List Char} (hq : '"' ∉ key)
    (hsame : '\n' ∉ key → written = key) (hmoved : '\n' ∈ key → Relined key written)
    (tail : List Char) : Literal.value? (written ++ '"' :: tail) = some key ↔
      ∀ c ∈ key, c ≠ '\\' ∧ c ≠ '\n' ∧ c ≠ '\r' := by
  constructor
  · intro h
    have hink : written.filter Literal.isInk = key.filter Literal.isInk := by
      by_cases hline : '\n' ∈ key
      · exact (hmoved hline).ink
      · rw [hsame hline]
    obtain ⟨hslash, hreturn⟩ := Literal.plain_of_value?_eq_some hq hink h
    have hline : '\n' ∉ key := by
      intro hline
      obtain ⟨hreturn', hlt⟩ := (hmoved hline).longer hreturn
      -- the literal would denote itself, and it is longer than the key
      have hplain : ∀ c ∈ written, Literal.isPlain c = true := by
        intro c hc
        refine Literal.isPlain_iff.mpr ⟨?_, ?_, ?_⟩
        · rintro rfl
          exact hq ((Literal.mem_iff_of_ink hink (by decide)).mp hc)
        · rintro rfl
          exact hslash ((Literal.mem_iff_of_ink hink (by decide)).mp hc)
        · rintro rfl
          exact hreturn' hc
      rw [Literal.value?_of_plain hplain, Option.some.injEq] at h
      rw [h] at hlt
      exact Nat.lt_irrefl _ hlt
    intro c hc
    refine ⟨?_, ?_, ?_⟩ <;> rintro rfl
    · exact hslash hc
    · exact hline hc
    · exact hreturn hc
  · intro h
    have hline : '\n' ∉ key := fun hmem => (h _ hmem).2.1 rfl
    rw [hsame hline]
    refine Literal.value?_of_plain (fun c hc => Literal.isPlain_iff.mpr ⟨?_, (h c hc).1, (h c hc).2.2⟩) _
    rintro rfl
    exact hq hc

/-- **A key of its own** stands in the literal of an attribute, as it is or moved. -/
theorem exists_literal {sel : Selection} (hserde : sel.options.serde = true) {f : Field}
    (hkey : f.key ≠ rustField f.name) {before : List CodeStep}
    (hbody : before ++ fieldSteps sel f <+: body sel (program sel)) :
    ∃ written tail rest, (source sel).toList = writtenWith sel before ++ rest ∧
      externalKey? rest = (Literal.value? (written ++ '"' :: tail)).map String.ofList ∧
      ('\n' ∉ f.key.toList → written = f.key.toList) ∧
      ('\n' ∈ f.key.toList → Relined f.key.toList written) := by
  obtain ⟨after, hafter⟩ := hbody
  obtain ⟨text, more, hsteps, htext⟩ : ∃ text more, fieldSteps sel f = .line text :: more ∧
      text.toList = renameOpening ++ (f.key.toList ++ ['"', ')', ']']) := by
    unfold fieldSteps
    dsimp only
    rw [hserde, if_pos (by simpa using hkey)]
    refine ⟨_, _, rfl, ?_⟩
    rw [String.toList_append, String.toList_append, List.append_assoc]
    rfl
  rw [hsteps, List.append_assoc] at hafter
  have hfront : Text.LinePart renameOpening := ⟨by decide, _, rfl, by decide⟩
  have hback : Text.LinePart ['"', ')', ']'] := ⟨by decide, _, rfl, by decide⟩
  obtain ⟨blanks, written, tail, hblanks, hsource, hsame, hmoved⟩ :=
    source_text hafter.symm hfront hback htext
  refine ⟨written, [')', ']'] ++ tail, _, hsource, ?_, hsame, hmoved⟩
  have hhash : ('#' : Char) ≠ ' ' := by decide
  exact (externalKey?_blanks hblanks hhash _).trans (declaredKey?_attribute _)

/-- **Without a key of its own** a field is known by its name. -/
theorem externalKey?_of_name {sel : Selection} {f : Field} (hname : isIdentifier f.name = true)
    (hkey : f.key = rustField f.name) {before : List CodeStep}
    (hbody : before ++ fieldSteps sel f <+: body sel (program sel)) :
    ∃ rest, (source sel).toList = writtenWith sel before ++ rest ∧ externalKey? rest = some f.key := by
  obtain ⟨after, hafter⟩ := hbody
  have hchars := Naming.isWordChar_rustField hname
  have hnot : ∀ c, Piece.isWordChar c = false → c ∉ (rustField f.name).toList :=
    fun c hc hmem => absurd ((hchars c hmem).symm.trans hc) (by decide)
  obtain ⟨text, type, hsteps, htext⟩ : ∃ text, ∃ type : String, fieldSteps sel f = [.line text] ∧
      text.toList = ("pub ".toList ++ ((rustField f.name).toList ++ [':', ' ']))
        ++ (type.toList ++ [',']) := by
    unfold fieldSteps
    dsimp only
    rw [if_neg (by simp [hkey])]
    refine ⟨_, typeText (structType sel) f.ty, rfl, ?_⟩
    simp only [String.toList_append, List.append_assoc]
    rfl
  rw [hsteps, List.append_assoc] at hafter
  have hcolon : Text.LinePart [':', ' '] := ⟨by decide, _, rfl, by decide⟩
  have hfront := (hcolon.append (hnot '\n' (by decide))).append (show '\n' ∉ "pub ".toList by decide)
  have hback : Text.LinePart [','] := ⟨by decide, _, rfl, by decide⟩
  obtain ⟨blanks, written, tail, hblanks, hsource, _⟩ := source_text hafter.symm hfront hback htext
  refine ⟨_, hsource, ?_⟩
  have hpub : ('p' : Char) ≠ ' ' := by decide
  rw [List.append_assoc, List.append_assoc]
  refine (externalKey?_blanks hblanks hpub _).trans ?_
  rw [hkey]
  exact (declaredKey?_name (hnot ':' (by decide)) _).trans (congrArg some String.ofList_toList)

end RustCode

open RustCode

/--
**The key of a field in generated code is the key of the schema** exactly if it is the field's name there
or has no backslash, no line break and no carriage return in it. The key in generated code is read
where the file declares the field, which is behind what the structs and fields before it have written.
-/
theorem serde_key_eq_iff {text : String} {c : Compiled} (hc : compile text = .ok c)
    (messages : List Message) {options : Options} (hserde : options.serde = true) :
    let sel := c.select messages options
    ∀ front id back, sel.structs = front ++ id :: back →
      ∀ fields f others, sel.schema.fieldsOf id = fields ++ f :: others →
        stepsBefore sel front id fields ++ fieldSteps sel f <+: body sel (program sel) ∧
        ∃ rest, (source sel).toList = writtenWith sel (stepsBefore sel front id fields) ++ rest ∧
          (externalKey? rest = some f.key ↔ f.key = rustField f.name ∨
            ∀ ch ∈ f.key.toList, ch ≠ '\\' ∧ ch ≠ '\n' ∧ ch ≠ '\r') := by
  intro sel front id back hid fields f others hf
  have hname : isIdentifier f.name = true :=
    (Compiled.named_of_compile hc).fieldsOf id f (by rw [show c.schema.fieldsOf id = _ from hf]; simp)
  have hbody := stepsBefore_prefix_body hid hf
  refine ⟨hbody, ?_⟩
  by_cases hkey : f.key = rustField f.name
  · -- the field has no attribute
    obtain ⟨rest, hsource, hrest⟩ := externalKey?_of_name hname hkey hbody
    exact ⟨rest, hsource, iff_of_true hrest (.inl hkey)⟩
  · obtain ⟨written, tail, rest, hsource, hrest, hsame, hmoved⟩ := exists_literal hserde hkey hbody
    refine ⟨rest, hsource, ?_⟩
    rw [hrest, map_ofList_eq_some, or_iff_right hkey]
    exact value?_eq_key_iff (Field.quote_not_mem_key hname) hsame hmoved tail

/-- The second field of the second struct, which is called `level` in generated code. -/
theorem serde_key_eq_iff_reading : compile readingText = .ok reading ∧
    let sel := reading.select readingSchema.messages { serde := true }
    let level : Field := ⟨"Level", ⟨4, 3⟩, .primitive (.number .float32) false, none⟩
    sel.structs = [1, 0] ∧ level ∈ sel.schema.fieldsOf 0 ∧ level.key ≠ rustField level.name ∧
    ∃ rest, (source sel).toList
        = writtenWith sel (stepsBefore sel [1] 0 ((sel.schema.fieldsOf 0).take 1)) ++ rest ∧
      externalKey? rest = some "Level" := by
  have hstructs : readingSchema.reachable [.struct 0 false] = [1, 0] := by decide
  have hserde : ({ serde := true } : Options).serde = true := rfl
  have hname : "Level" ≠ rustField "Level" := by decide
  have hfields : readingSchema.fieldsOf 0 = (readingSchema.fieldsOf 0).take 1
      ++ ⟨"Level", ⟨4, 3⟩, .primitive (.number .float32) false, none⟩
        :: (readingSchema.fieldsOf 0).drop 2 := rfl
  obtain ⟨_, rest, hsource, hkey⟩ := serde_key_eq_iff compile_readingText readingSchema.messages
    hserde [1] 0 [] hstructs _ _ _ hfields
  have hplain : "Level".toList.all
      (fun ch => decide (ch ≠ '\\' ∧ ch ≠ '\n' ∧ ch ≠ '\r')) = true := by decide
  refine ⟨compile_readingText, hstructs, by decide, hname, rest, hsource, hkey.mpr (.inr ?_)⟩
  exact fun ch hch => of_decide_eq_true (List.all_eq_true.mp hplain ch hch)

/-- Keys with a backslash and with a line break. -/
def escapedText : String :=
  "package p\n" ++
  "type Point struct \x7b\n" ++
  "\tX int32 \x60json:\"a\\tb\"\x60\n" ++
  "\tY int32 \x60json:\"c\nd\"\x60\n" ++
  "\x7d\n"

/-- The field with the backslash. -/
def escapedX : Field :=
  ⟨"X", ⟨3, 2⟩, .primitive (.number .int32) false, some "json:\"a\\tb\""⟩

/-- The field with the line break. -/
def escapedY : Field :=
  ⟨"Y", ⟨4, 2⟩, .primitive (.number .int32) false, some "json:\"c\nd\""⟩

def escapedSchema : Schema where
  package := "p"
  structs := [⟨"Point", ⟨2, 6⟩, [escapedX, escapedY]⟩]
  declarations := [⟨"Point", ⟨2, 6⟩, .struct 0 false⟩]
  messages := [⟨"Point", .struct 0 false⟩]

def escaped : Compiled where
  schema := escapedSchema
  analysis := {
    structs := [⟨true, 8, 8, false, false, 0⟩]
    declarations := [("Point", ⟨true, 8, 8, false, false, 0⟩)]
    messages := [("Point", ⟨true, 8, 8, false, false, 0⟩)] }

theorem compile_escapedText : compile escapedText = .ok escaped := by
  have hparse : Schema.parse escapedText = .ok escapedSchema := by decide +kernel
  have hanalyze : escapedSchema.analyze = .ok escaped.analysis := by decide
  exact compile_of_ordered hparse (by decide) (by decide) hanalyze

theorem key_escapedX : escapedX.key = "a\\tb" := by
  have hname : (Tag.value? "json:\"a\\tb\"" "json").map Tag.firstOption = some "a\\tb" := by
    cbv
  unfold Field.key escapedX
  dsimp only [Option.bind_some]
  rw [hname]
  rfl

theorem key_escapedY : escapedY.key = "c\nd" := by
  have hname : (Tag.value? "json:\"c\nd\"" "json").map Tag.firstOption = some "c\nd" := by
    cbv
  unfold Field.key escapedY
  dsimp only [Option.bind_some]
  rw [hname]
  rfl

/-- The key with the backslash is read as one with a tab, and the other one gets blanks. -/
theorem serde_keys_changed : compile escapedText = .ok escaped ∧
    let sel := escaped.select escapedSchema.messages { serde := true }
    sel.structs = [0] ∧ sel.schema.fieldsOf 0 = [escapedX, escapedY] ∧
    (∃ rest, (source sel).toList = writtenWith sel (stepsBefore sel [] 0 []) ++ rest ∧
      escapedX.key = "a\\tb" ∧ externalKey? rest = some "a\tb") ∧
    ∃ rest, (source sel).toList = writtenWith sel (stepsBefore sel [] 0 [escapedX]) ++ rest ∧
      escapedY.key = "c\nd" ∧ externalKey? rest ≠ some "c\nd" := by
  have hstructs : escapedSchema.reachable [.struct 0 false] = [0] := by decide
  have hserde : ({ serde := true } : Options).serde = true := rfl
  -- neither key is a name, so both fields have attributes
  have hattribute : ∀ (name key : String) (c : Char), isIdentifier name = true → c ∈ key.toList →
      Piece.isWordChar c = false → key ≠ rustField name := by
    rintro name _ c hname hmem hc rfl
    exact absurd ((Naming.isWordChar_rustField hname c hmem).symm.trans hc) (by decide)
  let sel := escaped.select escapedSchema.messages { serde := true }
  have hid : sel.structs = [] ++ 0 :: [] := hstructs
  have hx : stepsBefore sel [] 0 [] ++ fieldSteps sel escapedX <+: body sel (program sel) :=
    stepsBefore_prefix_body hid rfl
  have hy : stepsBefore sel [] 0 [escapedX] ++ fieldSteps sel escapedY <+: body sel (program sel) :=
    stepsBefore_prefix_body hid rfl
  refine ⟨compile_escapedText, hstructs, rfl, ?_, ?_⟩
  · have hne : escapedX.key ≠ rustField escapedX.name := by
      rw [key_escapedX]
      exact hattribute "X" _ '\\' (by decide) (by decide) (by decide)
    obtain ⟨written, tail, rest, hsource, hrest, hsame, _⟩ :=
      exists_literal hserde hne hx
    rw [key_escapedX] at hsame
    refine ⟨rest, hsource, key_escapedX, ?_⟩
    have htab : Literal.escape? ('t' :: 'b' :: '"' :: tail) = some (['\t'], 'b' :: '"' :: tail) := rfl
    have hrest' : Literal.value? (['b'] ++ '"' :: tail) = some ['b'] :=
      Literal.value?_of_plain (List.forall_mem_singleton.mpr (by decide)) tail
    rw [hrest, hsame (by decide), map_ofList_eq_some]
    change Literal.value? ('a' :: '\\' :: 't' :: 'b' :: '"' :: tail) = some ['a', '\t', 'b']
    rw [Literal.value?_cons (by decide), Literal.value?_escape htab, ← List.singleton_append (x := 'b'),
      hrest']
    rfl
  · have hne : escapedY.key ≠ rustField escapedY.name := by
      rw [key_escapedY]
      exact hattribute "Y" _ '\n' (by decide) (by decide) (by decide)
    obtain ⟨written, tail, rest, hsource, hrest, hsame, hmoved⟩ :=
      exists_literal hserde hne hy
    rw [key_escapedY] at hsame hmoved
    refine ⟨rest, hsource, key_escapedY, ?_⟩
    rw [hrest, ne_eq, map_ofList_eq_some, value?_eq_key_iff (by decide) hsame hmoved]
    exact fun hplain => (hplain '\n' (by decide)).2.1 rfl

end WireSchema
