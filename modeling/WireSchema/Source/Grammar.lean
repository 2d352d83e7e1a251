import WireSchema.Result
import WireSchema.Source.Cursor
import WireSchema.Source.Expr

/-!
# The grammar

A text is an optional package clause and a list of type declarations, single or in parentheses.
Statements end at a line break or a semicolon, or right before a closing bracket or the end. Each
rule takes a cursor and gives what it read with the cursor behind it, or the first problem it meets;
the lemmas beside the rules say that they only move forward, which is why the loops end.
-/

namespace WireSchema

namespace Grammar

/-! ## Token classes -/

def isIdentifier (text : String) : Bool :=
  match text.toList with
  | [] => false
  | c :: rest => Piece.isWordStart c && rest.all Piece.isWordChar

def isInteger (text : String) : Bool :=
  !text.isEmpty && text.toList.all Text.isDecimalDigit

/-- Text between backquotes. -/
def isTag (text : String) : Bool :=
  match text.toList with
  | '\x60' :: rest => rest.getLast? == some '\x60' && !rest.dropLast.contains '\x60'
  | _ => false

/-- The text between the backquotes of a tag. -/
def tagText (text : String) : String :=
  String.ofList (text.toList.drop 1).dropLast

def isSeparator (text : String) : Bool :=
  text == "\n" || text == ";"

/-- Words for types that schemas do not have. -/
def isForeignKeyword (text : String) : Bool :=
  ["map", "interface", "chan", "func"].contains text

/-! ## Rules -/

/-- Takes a token of a class. -/
def expect (what : Expected) (test : String → Bool) (c : Cursor) : Except Error (Token × Cursor) :=
  if test c.token.text then .ok (c.token, c.advance)
  else .error (.parse (.expected what c.token.text) c.token.pos)

/-- A token no rule can take. -/
def unexpected (t : Token) : Error :=
  .parse (if t.text = "" then .endOfInput else .unexpected t.text) t.pos

/-- The end of a statement. -/
def endStatement (c : Cursor) : Except Error Cursor :=
  if isSeparator c.token.text then .ok c.advance
  else if c.token.text = ")" ∨ c.token.text = "\x7d" ∨ c.token.text = "" then .ok c
  else .error (unexpected c.token)

def skipSeparators (c : Cursor) : Cursor :=
  c.skip isSeparator

theorem reaches_of_expect {what : Expected} {test : String → Bool} {c c' : Cursor} {t : Token}
    (h : expect what test c = .ok (t, c')) : t = c.token ∧ test t.text ∧ c' = c.advance := by
  unfold expect at h
  split at h
  · rename_i ht
    simp only [Except.ok.injEq, Prod.mk.injEq] at h
    exact ⟨h.1.symm, by rw [← h.1]; exact ht, h.2.symm⟩
  · simp at h

theorem reaches_of_endStatement {c c' : Cursor} (h : endStatement c = .ok c') : c.Reaches c' := by
  unfold endStatement at h
  split at h
  · simp only [Except.ok.injEq] at h
    exact h ▸ .advance c
  · split at h
    · simp only [Except.ok.injEq] at h
      exact h ▸ .refl c
    · simp at h

/-- No statement ends at an identifier. -/
theorem endStatement_identifier {c : Cursor} (h : isIdentifier c.token.text = true) :
    endStatement c = .error (unexpected c.token) := by
  have hne : ∀ s : String, isIdentifier s = false → c.token.text ≠ s := by
    intro s hs he
    rw [he, hs] at h
    exact absurd h (by decide)
  have hsep : isSeparator c.token.text = false := by
    simp [isSeparator, hne "\n" (by decide), hne ";" (by decide)]
  simp [endStatement, hsep, hne ")" (by decide), hne "\x7d" (by decide), hne "" (by decide)]

/-- A type: a name behind stars and empty brackets. -/
def typeExpr (c : Cursor) : Except Error (TypeExpr × Cursor) :=
  let t := c.token
  if t.text = "*" then
    if h : c.ahead = [] then .error (.parse (.expected .type t.text) t.pos)
    else
      have : c.advance.ahead.length < c.ahead.length :=
        Cursor.length_lt_of_reaches_advance (.refl _) h
      (typeExpr c.advance).map fun (e, c) => (.optional e, c)
  else if hb : t.text = "[" then
    if hc : c.advance.token.text = "]" then
      have : c.advance.advance.ahead.length < c.ahead.length := by
        refine Cursor.length_lt_of_reaches_advance (.advance _) fun hnil => ?_
        rw [Cursor.advance_of_ahead_eq_nil hnil] at hc
        exact absurd (hb.symm.trans hc) (by decide)
      (typeExpr c.advance.advance).map fun (e, c) => (.array e, c)
    else if isInteger c.advance.token.text || isIdentifier c.advance.token.text then
      .error (.unsupported .fixedSizeArray t.pos)
    else .error (unexpected c.advance.token)
  else if t.text = "struct" then .error (.unsupported .anonymousStruct t.pos)
  else if isForeignKeyword t.text then .error (.unsupported (.builtinType t.text) t.pos)
  else if isIdentifier t.text then
    if c.advance.token.text = "." then .error (.unsupported (.qualifiedName t.text) t.pos)
    else .ok (.named t.text t.pos, c.advance)
  else .error (.parse (.expected .type t.text) t.pos)
termination_by c.ahead.length

theorem reaches_of_typeExpr {c c' : Cursor} {e : TypeExpr} (h : typeExpr c = .ok (e, c')) :
    c.Reaches c' := by
  fun_induction typeExpr c generalizing e c' with
  | case2 c =>
    rename_i ih
    obtain ⟨⟨e', c''⟩, hr, he⟩ := Result.map_eq_ok.mp h
    simp only [Prod.mk.injEq] at he
    exact he.2 ▸ (Cursor.Reaches.advance c).trans (ih hr)
  | case3 c =>
    rename_i ih
    obtain ⟨⟨e', c''⟩, hr, he⟩ := Result.map_eq_ok.mp h
    simp only [Prod.mk.injEq] at he
    exact he.2 ▸ ((Cursor.Reaches.advance c).trans (.advance _)).trans (ih hr)
  | case9 c t =>
    simp only [Except.ok.injEq, Prod.mk.injEq] at h
    exact h.2 ▸ .advance c
  | _ => simp at h

/-- Further names in front of one type, behind the names in `done`, which has the latest first. -/
def moreNames (c : Cursor) (done : List Token) : Except Error (List Token × Cursor) :=
  if hcomma : c.token.text = "," then
    match h : expect .fieldName isIdentifier c.advance with
    | .error e => .error e
    | .ok (name, after) =>
      have : after.ahead.length < c.ahead.length := by
        obtain ⟨hname, hid, hafter⟩ := reaches_of_expect h
        refine Cursor.length_lt_of_reaches_advance (hafter ▸ .advance _) fun hnil => ?_
        rw [hname, Cursor.advance_of_ahead_eq_nil hnil, hcomma] at hid
        exact absurd hid (by decide)
      moreNames after (name :: done)
  else .ok (done.reverse, c)
termination_by c.ahead.length

theorem reaches_of_moreNames {c c' : Cursor} {done names : List Token}
    (h : moreNames c done = .ok (names, c')) : c.Reaches c' := by
  fun_induction moreNames c done with
  | case1 => simp at h
  | case2 c done _ name after hexp _ ih =>
    obtain ⟨_, _, rfl⟩ := reaches_of_expect hexp
    exact ((Cursor.Reaches.advance c).trans (.advance _)).trans (ih h)
  | case3 c done _ =>
    simp only [Except.ok.injEq, Prod.mk.injEq] at h
    exact h.2 ▸ .refl c

/-- A tag, if there is one. -/
def tag? (c : Cursor) : Option String × Cursor :=
  if isTag c.token.text then (some (tagText c.token.text), c.advance) else (none, c)

theorem reaches_tag? (c : Cursor) : c.Reaches (tag? c).2 := by
  unfold tag?
  split
  · exact .advance c
  · exact .refl c

/-- What may stand behind a name that is a whole field by itself. -/
def endsField (text : String) : Bool :=
  isSeparator text || text == "\x7d" || isTag text || text == "."

/-- Fields with a common type and tag. -/
def fieldGroup (c : Cursor) : Except Error (List FieldExpr × Cursor) :=
  if c.token.text = "*" then .error (.unsupported .embeddedPointer c.token.pos)
  else do
    let (first, c) ← expect .fieldName isIdentifier c
    if endsField c.token.text then .error (.unsupported (.embeddedField first.text) first.pos)
    else do
      let (names, c) ← moreNames c [first]
      let (type, c) ← typeExpr c
      let (tag, c) := tag? c
      let c ← endStatement c
      return (names.map fun t => { name := t.text, pos := t.pos, type, tag }, c)

/-- A statement that starts with an identifier and ends takes at least one token. -/
theorem length_of_statement {c body c' : Cursor} (hid : isIdentifier c.token.text = true)
    (hbody : c.advance.Reaches body) (hend : endStatement body = .ok c') :
    c'.ahead.length < c.ahead.length := by
  refine Cursor.length_lt_of_reaches_advance (hbody.trans (reaches_of_endStatement hend))
    fun hnil => ?_
  rw [Cursor.advance_of_ahead_eq_nil hnil] at hbody
  rw [hbody.eq_of_ahead_eq_nil hnil, endStatement_identifier hid] at hend
  simp at hend

/-- A group of fields takes at least one token. -/
theorem length_of_fieldGroup {c c' : Cursor} {fields : List FieldExpr}
    (h : fieldGroup c = .ok (fields, c')) : c'.ahead.length < c.ahead.length := by
  unfold fieldGroup at h
  split at h
  · simp at h
  · obtain ⟨⟨first, c₁⟩, hfirst, h₁⟩ := Result.bind_eq_ok.mp h
    dsimp only at h₁
    split at h₁
    · simp at h₁
    · obtain ⟨⟨names, c₂⟩, hnames, h₂⟩ := Result.bind_eq_ok.mp h₁
      obtain ⟨⟨type, c₃⟩, htype, h₃⟩ := Result.bind_eq_ok.mp h₂
      obtain ⟨c₄, hend, h₄⟩ := Result.bind_eq_ok.mp h₃
      simp only [pure, Except.pure, Except.ok.injEq, Prod.mk.injEq] at h₄
      obtain ⟨rfl, hid, rfl⟩ := reaches_of_expect hfirst
      refine length_of_statement hid ?_ (h₄.2 ▸ hend)
      exact ((reaches_of_moreNames hnames).trans (reaches_of_typeExpr htype)).trans (reaches_tag? c₃)

/-- The fields up to the closing brace, behind the ones in `done`, which has the latest first. -/
def fields (c : Cursor) (done : List FieldExpr) : Except Error (List FieldExpr × Cursor) :=
  if (skipSeparators c).token.text = "\x7d" then .ok (done.reverse, (skipSeparators c).advance)
  else
    match h : fieldGroup (skipSeparators c) with
    | .error e => .error e
    | .ok (group, after) =>
      have : after.ahead.length < c.ahead.length :=
        Nat.lt_of_lt_of_le (length_of_fieldGroup h) (Cursor.reaches_skip _ c).length_le
      fields after (group.reverse ++ done)
termination_by c.ahead.length

/-- The body of a struct. -/
def structBody (c : Cursor) : Except Error (List FieldExpr × Cursor) := do
  let (_, c) ← expect .openBrace (· == "\x7b") c
  fields c []

/-- The sign between a name and an alias may be left out. -/
def skipEquals (c : Cursor) : Cursor :=
  if c.token.text = "=" then c.advance else c

/-- What a declared name stands for. -/
def declBody (c : Cursor) : Except Error (DeclBody × Cursor) :=
  if c.token.text = "struct" then
    (structBody c.advance).map fun (fields, c) => (.struct fields, c)
  else (typeExpr c).map fun (e, c) => (.alias e, c)

/-- One declaration, without the keyword in front of it. -/
def typeSpec (c : Cursor) : Except Error (DeclExpr × Cursor) := do
  let (name, c) ← expect .typeName isIdentifier c
  let (body, c) ← declBody (skipEquals c)
  return ({ name := name.text, pos := name.pos, body }, c)

/-- A declaration and the end of its statement. -/
def groupedSpec (c : Cursor) : Except Error (DeclExpr × Cursor) := do
  let (decl, c) ← typeSpec c
  let c ← endStatement c
  return (decl, c)

theorem reaches_of_fieldGroup {c c' : Cursor} {fs : List FieldExpr}
    (h : fieldGroup c = .ok (fs, c')) : c.Reaches c' := by
  unfold fieldGroup at h
  split at h
  · simp at h
  · obtain ⟨⟨first, c₁⟩, hfirst, h₁⟩ := Result.bind_eq_ok.mp h
    dsimp only at h₁
    split at h₁
    · simp at h₁
    · obtain ⟨⟨names, c₂⟩, hnames, h₂⟩ := Result.bind_eq_ok.mp h₁
      obtain ⟨⟨type, c₃⟩, htype, h₃⟩ := Result.bind_eq_ok.mp h₂
      obtain ⟨c₄, hend, h₄⟩ := Result.bind_eq_ok.mp h₃
      simp only [pure, Except.pure, Except.ok.injEq, Prod.mk.injEq] at h₄
      obtain ⟨rfl, _, rfl⟩ := reaches_of_expect hfirst
      refine h₄.2 ▸ (Cursor.Reaches.advance c).trans ?_
      exact (((reaches_of_moreNames hnames).trans (reaches_of_typeExpr htype)).trans
        (reaches_tag? c₃)).trans (reaches_of_endStatement hend)

theorem reaches_of_fields {c c' : Cursor} {done fs : List FieldExpr}
    (h : fields c done = .ok (fs, c')) : c.Reaches c' := by
  fun_induction fields c done with
  | case1 c done _ =>
    simp only [Except.ok.injEq, Prod.mk.injEq] at h
    exact h.2 ▸ (Cursor.reaches_skip _ c).trans (.advance _)
  | case2 => simp at h
  | case3 c done _ group after hgroup _ ih =>
    exact ((Cursor.reaches_skip _ c).trans (reaches_of_fieldGroup hgroup)).trans (ih h)

theorem reaches_of_declBody {c c' : Cursor} {body : DeclBody}
    (h : declBody c = .ok (body, c')) : c.Reaches c' := by
  unfold declBody at h
  split at h
  · obtain ⟨⟨fs, c₁⟩, hbody, he⟩ := Result.map_eq_ok.mp h
    obtain ⟨⟨brace, c₂⟩, hbrace, hfields⟩ := Result.bind_eq_ok.mp hbody
    obtain ⟨_, _, rfl⟩ := reaches_of_expect hbrace
    simp only [Prod.mk.injEq] at he
    refine he.2 ▸ (Cursor.Reaches.advance c).trans ?_
    exact (Cursor.Reaches.advance _).trans (reaches_of_fields hfields)
  · obtain ⟨⟨e, c₁⟩, htype, he⟩ := Result.map_eq_ok.mp h
    simp only [Prod.mk.injEq] at he
    exact he.2 ▸ reaches_of_typeExpr htype

theorem reaches_skipEquals (c : Cursor) : c.Reaches (skipEquals c) := by
  unfold skipEquals
  split
  · exact .advance c
  · exact .refl c

/-- A declaration starts with an identifier and moves on behind it. -/
theorem reaches_of_typeSpec {c c' : Cursor} {decl : DeclExpr}
    (h : typeSpec c = .ok (decl, c')) :
    isIdentifier c.token.text = true ∧ c.advance.Reaches c' := by
  obtain ⟨⟨name, c₁⟩, hname, h₁⟩ := Result.bind_eq_ok.mp h
  obtain ⟨⟨body, c₂⟩, hbody, h₂⟩ := Result.bind_eq_ok.mp h₁
  simp only [pure, Except.pure, Except.ok.injEq, Prod.mk.injEq] at h₂
  obtain ⟨rfl, hid, rfl⟩ := reaches_of_expect hname
  exact ⟨hid, h₂.2 ▸ (reaches_skipEquals _).trans (reaches_of_declBody hbody)⟩

theorem length_of_groupedSpec {c c' : Cursor} {decl : DeclExpr}
    (h : groupedSpec c = .ok (decl, c')) : c'.ahead.length < c.ahead.length := by
  obtain ⟨⟨d, c₁⟩, hspec, h₁⟩ := Result.bind_eq_ok.mp h
  obtain ⟨c₂, hend, h₂⟩ := Result.bind_eq_ok.mp h₁
  simp only [pure, Except.pure, Except.ok.injEq, Prod.mk.injEq] at h₂
  obtain ⟨hid, hreach⟩ := reaches_of_typeSpec hspec
  exact length_of_statement hid hreach (h₂.2 ▸ hend)

theorem reaches_of_groupedSpec {c c' : Cursor} {decl : DeclExpr}
    (h : groupedSpec c = .ok (decl, c')) : c.Reaches c' := by
  obtain ⟨⟨d, c₁⟩, hspec, h₁⟩ := Result.bind_eq_ok.mp h
  obtain ⟨c₂, hend, h₂⟩ := Result.bind_eq_ok.mp h₁
  simp only [pure, Except.pure, Except.ok.injEq, Prod.mk.injEq] at h₂
  obtain ⟨_, hreach⟩ := reaches_of_typeSpec hspec
  exact h₂.2 ▸ ((Cursor.Reaches.advance c).trans hreach).trans (reaches_of_endStatement hend)

/-- The declarations up to the closing parenthesis, behind the ones in `done`, which has the latest
first. -/
def group (c : Cursor) (done : List DeclExpr) : Except Error (List DeclExpr × Cursor) :=
  if (skipSeparators c).token.text = ")" then .ok (done.reverse, (skipSeparators c).advance)
  else
    match h : groupedSpec (skipSeparators c) with
    | .error e => .error e
    | .ok (decl, after) =>
      have : after.ahead.length < c.ahead.length :=
        Nat.lt_of_lt_of_le (length_of_groupedSpec h) (Cursor.reaches_skip _ c).length_le
      group after (decl :: done)
termination_by c.ahead.length

theorem reaches_of_group {c c' : Cursor} {done decls : List DeclExpr}
    (h : group c done = .ok (decls, c')) : c.Reaches c' := by
  fun_induction group c done with
  | case1 c done _ =>
    simp only [Except.ok.injEq, Prod.mk.injEq] at h
    exact h.2 ▸ (Cursor.reaches_skip _ c).trans (.advance _)
  | case2 => simp at h
  | case3 c done _ decl after hspec _ ih =>
    exact ((Cursor.reaches_skip _ c).trans (reaches_of_groupedSpec hspec)).trans (ih h)

/-- What follows the keyword `type`: one declaration, or several in parentheses. -/
def typeSpecs (c : Cursor) : Except Error (List DeclExpr × Cursor) :=
  if c.token.text = "(" then group c.advance []
  else (typeSpec c).map fun (decl, c) => ([decl], c)

theorem reaches_of_typeSpecs {c c' : Cursor} {decls : List DeclExpr}
    (h : typeSpecs c = .ok (decls, c')) : c.Reaches c' := by
  unfold typeSpecs at h
  split at h
  · exact (Cursor.Reaches.advance c).trans (reaches_of_group h)
  · obtain ⟨⟨decl, c₁⟩, hspec, he⟩ := Result.map_eq_ok.mp h
    simp only [Prod.mk.injEq] at he
    exact he.2 ▸ (Cursor.Reaches.advance c).trans (reaches_of_typeSpec hspec).2

/-- A type statement. -/
def typeStatement (c : Cursor) : Except Error (List DeclExpr × Cursor) := do
  let (_, c) ← expect .typeKeyword (· == "type") c
  let (decls, c) ← typeSpecs c
  let c ← endStatement c
  return (decls, c)

/-- A type statement takes at least one token. -/
theorem length_of_typeStatement {c c' : Cursor} {decls : List DeclExpr}
    (h : typeStatement c = .ok (decls, c')) : c'.ahead.length < c.ahead.length := by
  obtain ⟨⟨keyword, c₁⟩, hkeyword, h₁⟩ := Result.bind_eq_ok.mp h
  obtain ⟨⟨specs, c₂⟩, hspecs, h₂⟩ := Result.bind_eq_ok.mp h₁
  obtain ⟨c₃, hend, h₃⟩ := Result.bind_eq_ok.mp h₂
  simp only [pure, Except.pure, Except.ok.injEq, Prod.mk.injEq] at h₃
  obtain ⟨rfl, htext, rfl⟩ := reaches_of_expect hkeyword
  have hid : isIdentifier c.token.text = true := by
    rw [eq_of_beq htext]
    decide
  exact length_of_statement hid (reaches_of_typeSpecs hspecs) (h₃.2 ▸ hend)

/-- The declarations up to the end of the text, behind the ones in `done`, which has the latest
first. -/
def declarations (c : Cursor) (done : List DeclExpr) : Except Error (List DeclExpr) :=
  if (skipSeparators c).token.text = "" then .ok done.reverse
  else
    match h : typeStatement (skipSeparators c) with
    | .error e => .error e
    | .ok (decls, after) =>
      have : after.ahead.length < c.ahead.length :=
        Nat.lt_of_lt_of_le (length_of_typeStatement h) (Cursor.reaches_skip _ c).length_le
      declarations after (decls.reverse ++ done)
termination_by c.ahead.length

/-- The package clause, if there is one. -/
def packageClause (c : Cursor) : Except Error (String × Cursor) :=
  if c.token.text = "package" then do
    let (name, c) ← expect .packageName isIdentifier c.advance
    let c ← endStatement c
    return (name.text, c)
  else .ok ("", c)

end Grammar

/-- Reads a list of tokens as a schema text. -/
def Source.ofTokens : List Token → Except Error Source
  | [] => .error (.parse .endOfInput .start)
  | t :: rest => do
    let (package, c) ← Grammar.packageClause (Grammar.skipSeparators ⟨t, rest⟩)
    let decls ← Grammar.declarations c []
    return { package, decls }

end WireSchema
