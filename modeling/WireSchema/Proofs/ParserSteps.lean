import WireSchema.Source.Grammar

/-!
# Parsing, one decision at a time

The rules of the grammar call each other, so how far the cursor has come in the middle of one cannot
be said of them. Here the same grammar runs on a machine that looks at one token at a time: a `Task`
is all that is left to do with what has been read so far, and `Task.next` says, for the token in view,
what the next task is and whether the token was taken. The place of the cursor is a number, which
only counts the tokens taken; beyond the last token the last one stays in view.

Two facts about one decision carry what is said about whole runs, each with a case per task:

* `progress_next`: the token is taken and is not the empty one, or it is not taken and the new task has
  a lower `rank`, or the parser is done;
* `result_next`: what the grammar makes of the rest of the text is not changed.
-/

namespace WireSchema.Parser

/-! ## Tasks -/

/-- What has been read of a text in front of a statement; the latest declaration is the first. -/
structure Draft where
  package : String
  decls : List DeclExpr

/-- Where a declaration stands: by itself, or in parentheses behind others, of which the latest is
the first. -/
structure Site where
  draft : Draft
  grouped : Option (List DeclExpr)

/-- A declaration whose name has been read. -/
structure Head where
  site : Site
  name : Token

/-- Fields whose names are being read, in a struct that has the fields in `done` so far. Here too the
latest is the first. -/
structure Row where
  head : Head
  done : List FieldExpr
  names : List Token

/-- What stands in front of the name of a type. -/
inductive Wrapper where
  | optional
  | array

/-- What a type is read for. -/
inductive Use where
  | synonym (head : Head)
  | row (r : Row)

/-- The places where any number of separators may stand: in front of the package clause, of a
statement, of a declaration in parentheses, and of a row of fields. -/
inductive Gap where
  | opening
  | file (draft : Draft)
  | group (draft : Draft) (done : List DeclExpr)
  | body (head : Head) (done : List FieldExpr)

/-- What the parser is about to do. -/
inductive Task where
  | separators (gap : Gap)
  /-- What comes behind the separators. -/
  | item (gap : Gap)
  | packageName
  | packageEnd (name : String)
  | specs (draft : Draft)
  | spec (site : Site)
  | equals (head : Head)
  | declBody (head : Head)
  | openBrace (head : Head)
  /-- Whether the first name of a row is followed by anything. -/
  | first (head : Head) (done : List FieldExpr) (name : Token)
  | comma (row : Row)
  | nextName (row : Row)
  | type (use : Use) (wrappers : List Wrapper)
  | bracket (use : Use) (wrappers : List Wrapper) (opening : Token)
  /-- Whether the name of a type is followed by a dot. -/
  | dot (use : Use) (wrappers : List Wrapper) (name : Token)
  | tag (row : Row) (e : TypeExpr)
  | rowEnd (row : Row) (e : TypeExpr) (tag? : Option String)
  | specEnd (head : Head) (body : DeclBody)
  | statementEnd (draft : Draft)

namespace Wrapper

def wrap : Wrapper → TypeExpr → TypeExpr
  | .optional => .optional
  | .array => .array

/-- The wrappers around a type, the innermost first. -/
def wrapAll (wrappers : List Wrapper) (e : TypeExpr) : TypeExpr :=
  wrappers.foldl (fun e w => w.wrap e) e

end Wrapper

def Draft.source (draft : Draft) : Source :=
  { package := draft.package, decls := draft.decls.reverse }

def Head.decl (head : Head) (body : DeclBody) : DeclExpr :=
  { name := head.name.text, pos := head.name.pos, body }

/-- All fields of the struct once the type and the tag of the row are known. -/
def Row.fields (row : Row) (e : TypeExpr) (tag? : Option String) : List FieldExpr :=
  (row.names.map fun t => { name := t.text, pos := t.pos, type := e, tag := tag? }) ++ row.done

/-- What is to be done behind a type. -/
def Use.behind (e : TypeExpr) : Use → Task
  | .synonym head => .specEnd head (.alias e)
  | .row r => .tag r e

/-! ## Decisions -/

/-- A decision about the token in view. -/
inductive Move where
  | stay (task : Task)
  | take (task : Task)
  | fail (e : Error)
  /-- Takes the end of the text. -/
  | accept (source : Source)

namespace Move

/-- Takes a token of a class. -/
def expect (what : Expected) (test : String → Bool) (t : Token) (task : Task) : Move :=
  if test t.text then .take task else .fail (.parse (.expected what t.text) t.pos)

/-- Takes the end of a statement, or sees it. -/
def endStatement (t : Token) (task : Task) : Move :=
  if Grammar.isSeparator t.text then .take task
  else if t.text = ")" ∨ t.text = "\x7d" ∨ t.text = "" then .stay task
  else .fail (Grammar.unexpected t)

end Move

/-- A declaration in parentheses ends its own statement. -/
def Site.behind (t : Token) (decl : DeclExpr) : Site → Move
  | { draft, grouped := none } =>
    .stay (.statementEnd { draft with decls := decl :: draft.decls })
  | { draft, grouped := some done } =>
    .endStatement t (.separators (.group draft (decl :: done)))

open Grammar in
/-- What follows on each task when `t` is in view. -/
@[simp] def Task.next (t : Token) : Task → Move
  | .separators gap => if isSeparator t.text then .take (.separators gap) else .stay (.item gap)
  | .item .opening =>
    if t.text = "package" then .take .packageName
    else .stay (.separators (.file { package := "", decls := [] }))
  | .packageName => .expect .packageName isIdentifier t (.packageEnd t.text)
  | .packageEnd name => .endStatement t (.separators (.file { package := name, decls := [] }))
  | .item (.file draft) =>
    if t.text = "" then .accept draft.source
    else .expect .typeKeyword (· == "type") t (.specs draft)
  | .specs draft =>
    if t.text = "(" then .take (.separators (.group draft []))
    else .stay (.spec { draft, grouped := none })
  | .item (.group draft done) =>
    if t.text = ")" then .take (.statementEnd { draft with decls := done ++ draft.decls })
    else .stay (.spec { draft, grouped := some done })
  | .spec site => .expect .typeName isIdentifier t (.equals { site, name := t })
  | .equals head => if t.text = "=" then .take (.declBody head) else .stay (.declBody head)
  | .declBody head =>
    if t.text = "struct" then .take (.openBrace head) else .stay (.type (.synonym head) [])
  | .openBrace head => .expect .openBrace (· == "\x7b") t (.separators (.body head []))
  | .item (.body head done) =>
    if t.text = "\x7d" then .take (.specEnd head (.struct done.reverse))
    else if t.text = "*" then .fail (.unsupported .embeddedPointer t.pos)
    else .expect .fieldName isIdentifier t (.first head done t)
  | .first head done name =>
    if endsField t.text then .fail (.unsupported (.embeddedField name.text) name.pos)
    else .stay (.comma { head, done, names := [name] })
  | .comma row => if t.text = "," then .take (.nextName row) else .stay (.type (.row row) [])
  | .nextName row => .expect .fieldName isIdentifier t (.comma { row with names := t :: row.names })
  | .type use wrappers =>
    if t.text = "*" then .take (.type use (.optional :: wrappers))
    else if t.text = "[" then .take (.bracket use wrappers t)
    else if t.text = "struct" then .fail (.unsupported .anonymousStruct t.pos)
    else if isForeignKeyword t.text then .fail (.unsupported (.builtinType t.text) t.pos)
    else .expect .type isIdentifier t (.dot use wrappers t)
  | .bracket use wrappers opening =>
    if t.text = "]" then .take (.type use (.array :: wrappers))
    else if isInteger t.text || isIdentifier t.text then
      .fail (.unsupported .fixedSizeArray opening.pos)
    else .fail (unexpected t)
  | .dot use wrappers name =>
    if t.text = "." then .fail (.unsupported (.qualifiedName name.text) name.pos)
    else .stay (use.behind (Wrapper.wrapAll wrappers (.named name.text name.pos)))
  | .tag row e =>
    if isTag t.text then .take (.rowEnd row e (some (tagText t.text)))
    else .stay (.rowEnd row e none)
  | .rowEnd row e tag? => .endStatement t (.separators (.body row.head (row.fields e tag?)))
  | .specEnd head body => head.site.behind t (head.decl body)
  | .statementEnd draft => .endStatement t (.separators (.file draft))

/-! ## Progress -/

/-- Bounds the number of decisions before the next token is taken. -/
@[simp] def Task.rank : Task → Nat
  | .item (.file _) | .item (.body _ _) | .spec _ | .packageName | .openBrace _ | .nextName _
  | .type _ _ | .bracket _ _ _ => 0
  | .item (.group _ _) | .specs _ | .declBody _ | .comma _ => 1
  | .separators (.file _) | .separators (.group _ _) | .separators (.body _ _) | .equals _
  | .first _ _ _ => 2
  | .item .opening | .packageEnd _ | .rowEnd _ _ _ | .statementEnd _ => 3
  | .separators .opening | .tag _ _ | .specEnd _ _ => 4
  | .dot _ _ _ => 5

theorem Task.rank_le (task : Task) : task.rank ≤ 5 := by
  unfold Task.rank
  split <;> decide

/-- A token is taken that is not the empty one, or the rank falls, or the parser is done. -/
def Move.Progresses (t : Token) (rank : Nat) : Move → Prop
  | .stay task => task.rank < rank
  | .take _ => t.text ≠ ""
  | .fail _ => True
  | .accept _ => True

namespace Move

variable {t : Token} {rank : Nat} {task : Task}

/-- A token of a class that the empty token is not in is taken, or something else is done. -/
theorem progresses_ite {p : String → Prop} [DecidablePred p] {other : Move} (hp : ¬ p "")
    (hother : other.Progresses t rank) :
    (if p t.text then take task else other).Progresses t rank := by
  split
  · rename_i ht
    intro hempty
    exact hp (hempty ▸ ht)
  · exact hother

theorem progresses_expect {what : Expected} {test : String → Bool} (htest : ¬ test "" = true) :
    (expect what test t task).Progresses t rank := by
  refine progresses_ite (p := fun text => test text = true) htest ?_
  trivial

theorem progresses_endStatement (h : task.rank < rank) :
    (endStatement t task).Progresses t rank := by
  refine progresses_ite (p := fun text => Grammar.isSeparator text = true) (by decide) ?_
  split
  · exact h
  · trivial

end Move

open Move in
theorem progress_next (t : Token) (task : Task) : (task.next t).Progresses t task.rank := by
  have hlower : ∀ {task' : Task}, task'.rank < task.rank →
      (Move.stay task').Progresses t task.rank := fun h => h
  cases task with
  | separators gap =>
    refine progresses_ite (p := fun text => Grammar.isSeparator text = true) (by decide) (hlower ?_)
    cases gap <;> simp
  | item gap =>
    cases gap with
    | opening => exact progresses_ite (p := (· = "package")) (by decide) (hlower (by decide))
    | file draft =>
      rw [Task.next]
      split
      · trivial
      · exact progresses_expect (by decide)
    | group draft done =>
      exact progresses_ite (p := (· = ")")) (by decide) (hlower (by simp))
    | body head done =>
      refine progresses_ite (p := (· = "\x7d")) (by decide) ?_
      split
      · trivial
      · exact progresses_expect (by decide)
  | packageName | spec | openBrace | nextName =>
    rw [Task.next]
    exact progresses_expect (by decide)
  | packageEnd | rowEnd | statementEnd => exact progresses_endStatement (by simp)
  | specs draft => exact progresses_ite (p := (· = "(")) (by decide) (hlower (by simp))
  | equals head => exact progresses_ite (p := (· = "=")) (by decide) (hlower (by simp))
  | declBody head =>
    exact progresses_ite (p := (· = "struct")) (by decide) (hlower (by simp))
  | first head done name =>
    rw [Task.next]
    split
    · trivial
    · exact hlower (by simp)
  | comma row => exact progresses_ite (p := (· = ",")) (by decide) (hlower (by simp))
  | type use wrappers =>
    refine progresses_ite (p := (· = "*")) (by decide) ?_
    refine progresses_ite (p := (· = "[")) (by decide) ?_
    split
    · trivial
    · split
      · trivial
      · exact progresses_expect (by decide)
  | bracket use wrappers opening =>
    refine progresses_ite (p := (· = "]")) (by decide) ?_
    split <;> trivial
  | dot use wrappers name =>
    rw [Task.next]
    split
    · trivial
    · cases use <;> exact hlower (by simp [Use.behind])
  | tag row e =>
    exact progresses_ite (p := fun text => Grammar.isTag text = true) (by decide)
      (hlower (by simp))
  | specEnd head body =>
    rw [Task.next]
    unfold Site.behind
    split
    · exact hlower (by simp)
    · exact progresses_endStatement (by simp)

/-! ## What the grammar makes of the rest -/

section Results

open Grammar

def Draft.finish (draft : Draft) (c : Cursor) : Except Error Source :=
  (declarations c draft.decls).map fun decls => { package := draft.package, decls }

def Draft.finishStatement (draft : Draft) (c : Cursor) : Except Error Source := do
  draft.finish (← Grammar.endStatement c)

/-- The rest of a text behind declarations of one statement, given in order. -/
def Draft.finishSpecs (draft : Draft) : List DeclExpr × Cursor → Except Error Source
  | (decls, c) => { draft with decls := decls.reverse ++ draft.decls : Draft }.finishStatement c

def Draft.finishGroup (draft : Draft) (done : List DeclExpr) (c : Cursor) : Except Error Source := do
  draft.finishSpecs (← group c done)

def Site.finish (decl : DeclExpr) (c : Cursor) : Site → Except Error Source
  | { draft, grouped := none } => draft.finishSpecs ([decl], c)
  | { draft, grouped := some done } => do draft.finishGroup (decl :: done) (← Grammar.endStatement c)

def Head.finish (head : Head) (body : DeclBody) (c : Cursor) : Except Error Source :=
  head.site.finish (head.decl body) c

def Head.finishBody (head : Head) (done : List FieldExpr) (c : Cursor) : Except Error Source := do
  let (fs, c) ← fields c done
  head.finish (.struct fs) c

def Row.finish (row : Row) (e : TypeExpr) (tag? : Option String) (c : Cursor) :
    Except Error Source := do
  row.head.finishBody (row.fields e tag?) (← Grammar.endStatement c)

def Row.finishTag (row : Row) (e : TypeExpr) (c : Cursor) : Except Error Source :=
  row.finish e (tag? c).1 (tag? c).2

def Row.finishNames (row : Row) (c : Cursor) : Except Error Source := do
  let (names, c) ← moreNames c row.names
  let (e, c) ← typeExpr c
  { row with names := names.reverse : Row }.finishTag e c

def Use.finish (e : TypeExpr) (c : Cursor) : Use → Except Error Source
  | .synonym head => head.finish (.alias e) c
  | .row r => r.finishTag e c

def Use.finishType (use : Use) (wrappers : List Wrapper) (c : Cursor) : Except Error Source := do
  let (e, c) ← typeExpr c
  use.finish (Wrapper.wrapAll wrappers e) c

/-- What the rules of the grammar make of the rest of a text behind its separators. -/
@[simp] def Gap.result (c : Cursor) : Gap → Except Error Source
  | .opening => do
    let (package, c) ← packageClause c
    Draft.finish { package, decls := [] } c
  | .file draft =>
    if c.token.text = "" then .ok draft.source
    else do
      let (decls, c) ← typeStatement c
      Draft.finish { draft with decls := decls.reverse ++ draft.decls } c
  | .group draft done =>
    if c.token.text = ")" then
      Draft.finishStatement { draft with decls := done ++ draft.decls } c.advance
    else do
      let (decl, c) ← groupedSpec c
      draft.finishGroup (decl :: done) c
  | .body head done =>
    if c.token.text = "\x7d" then head.finish (.struct done.reverse) c.advance
    else do
      let (fs, c) ← fieldGroup c
      head.finishBody (fs.reverse ++ done) c

/-- What the rules of the grammar make of the rest of a text, from the middle of one of them on. -/
@[simp] def Task.result (c : Cursor) : Task → Except Error Source
  | .separators gap => gap.result (skipSeparators c)
  | .item gap => gap.result c
  | .packageName => do
    let (name, c) ← Grammar.expect .packageName isIdentifier c
    Draft.finishStatement { package := name.text, decls := [] } c
  | .packageEnd name => Draft.finishStatement { package := name, decls := [] } c
  | .specs draft => do draft.finishSpecs (← typeSpecs c)
  | .spec site => do
    let (decl, c) ← typeSpec c
    site.finish decl c
  | .equals head => do
    let (body, c) ← Grammar.declBody (skipEquals c)
    head.finish body c
  | .declBody head => do
    let (body, c) ← Grammar.declBody c
    head.finish body c
  | .openBrace head => do
    let (fs, c) ← structBody c
    head.finish (.struct fs) c
  | .first head done name =>
    if endsField c.token.text then .error (.unsupported (.embeddedField name.text) name.pos)
    else Row.finishNames { head, done, names := [name] } c
  | .comma row => row.finishNames c
  | .nextName row => do
    let (name, c) ← Grammar.expect .fieldName isIdentifier c
    Row.finishNames { row with names := name :: row.names } c
  | .type use wrappers => use.finishType wrappers c
  | .bracket use wrappers opening =>
    if c.token.text = "]" then use.finishType (.array :: wrappers) c.advance
    else if isInteger c.token.text || isIdentifier c.token.text then
      .error (.unsupported .fixedSizeArray opening.pos)
    else .error (unexpected c.token)
  | .dot use wrappers name =>
    if c.token.text = "." then .error (.unsupported (.qualifiedName name.text) name.pos)
    else use.finish (Wrapper.wrapAll wrappers (.named name.text name.pos)) c
  | .tag row e => row.finishTag e c
  | .rowEnd row e tag? => row.finish e tag? c
  | .specEnd head body => head.finish body c
  | .statementEnd draft => draft.finishStatement c

def Move.result (c : Cursor) : Move → Except Error Source
  | .stay task => task.result c
  | .take task => task.result c.advance
  | .fail e => .error e
  | .accept source => .ok source

variable {c : Cursor}

/-- Every loop of the grammar passes over separators first. -/
theorem finish_eq (draft : Draft) (c : Cursor) :
    draft.finish c = (Gap.file draft).result (skipSeparators c) := by
  rw [Draft.finish, declarations, Gap.result]
  split
  · rfl
  · split
    · rename_i h
      rw [h]
      rfl
    · rename_i h
      dsimp only
      rw [h]
      rfl

theorem finishGroup_eq (draft : Draft) (done : List DeclExpr) (c : Cursor) :
    draft.finishGroup done c = (Gap.group draft done).result (skipSeparators c) := by
  rw [Draft.finishGroup, group, Gap.result]
  split
  · show Draft.finishStatement { draft with decls := done.reverse.reverse ++ draft.decls } _ = _
    rw [List.reverse_reverse]
  · split
    · rename_i h
      rw [h]
      rfl
    · rename_i h
      dsimp only
      rw [h]
      rfl

theorem finishBody_eq (head : Head) (done : List FieldExpr) (c : Cursor) :
    head.finishBody done c = (Gap.body head done).result (skipSeparators c) := by
  rw [Head.finishBody, fields, Gap.result]
  split
  · rfl
  · split
    · rename_i h
      rw [h]
      rfl
    · rename_i h
      dsimp only
      rw [h]
      rfl

theorem skipSeparators_take (hmark : c.ahead = [] → c.token.text = "")
    (h : isSeparator c.token.text = true) : skipSeparators c = skipSeparators c.advance := by
  obtain ⟨t, ahead⟩ := c
  cases ahead with
  | nil =>
    rw [hmark rfl] at h
    exact absurd h (by decide)
  | cons u rest =>
    rw [skipSeparators, Cursor.skip, if_pos h]
    rfl

theorem skipSeparators_stay (h : ¬ isSeparator c.token.text = true) : skipSeparators c = c := by
  obtain ⟨t, ahead⟩ := c
  cases ahead with
  | nil => rw [skipSeparators, Cursor.skip]
  | cons u rest => rw [skipSeparators, Cursor.skip, if_neg h]

theorem result_expect {what : Expected} {test : String → Bool} {task : Task}
    {f : Token × Cursor → Except Error Source} (h : f (c.token, c.advance) = task.result c.advance) :
    (Move.expect what test c.token task).result c = Grammar.expect what test c >>= f := by
  unfold Move.expect Grammar.expect
  split
  · exact h.symm
  · rfl

theorem result_endStatement {task : Task} {f : Cursor → Except Error Source}
    (h : ∀ c, f c = task.result c) :
    (Move.endStatement c.token task).result c = Grammar.endStatement c >>= f := by
  unfold Move.endStatement Grammar.endStatement
  split
  · exact (h _).symm
  · split
    · exact (h _).symm
    · rfl

theorem result_opening (c : Cursor) :
    ((Task.item .opening).next c.token).result c = (Task.item .opening).result c := by
  rw [Task.next, Task.result, Gap.result, packageClause]
  split
  · simp only [bind_assoc, pure_bind]
    rfl
  · show Gap.result (skipSeparators c) (.file _) = Draft.finish _ c
    rw [finish_eq]

theorem result_file (draft : Draft) (c : Cursor) :
    ((Task.item (.file draft)).next c.token).result c = (Task.item (.file draft)).result c := by
  rw [Task.next, Task.result, Gap.result]
  split
  · rfl
  · simp only [typeStatement, bind_assoc, pure_bind]
    exact result_expect rfl

theorem result_group (draft : Draft) (done : List DeclExpr) (c : Cursor) :
    ((Task.item (.group draft done)).next c.token).result c
      = (Task.item (.group draft done)).result c := by
  rw [Task.next, Task.result, Gap.result]
  split
  · rfl
  · simp only [groupedSpec, bind_assoc, pure_bind]
    rfl

theorem result_body (head : Head) (done : List FieldExpr) (c : Cursor) :
    ((Task.item (.body head done)).next c.token).result c
      = (Task.item (.body head done)).result c := by
  rw [Task.next, Task.result, Gap.result]
  split
  · rfl
  · rw [fieldGroup]
    split
    · rfl
    · rw [bind_assoc]
      refine result_expect ?_
      dsimp only
      rw [Task.result]
      split
      · rfl
      · simp only [bind_assoc, pure_bind, Row.finishNames, Row.finishTag, Row.finish, Row.fields,
          List.map_reverse]

theorem result_comma (row : Row) (c : Cursor) :
    ((Task.comma row).next c.token).result c = (Task.comma row).result c := by
  rw [Task.next, Task.result, Row.finishNames, moreNames]
  split
  · show (Task.nextName row).result c.advance = _
    rw [Task.result]
    split
    · rename_i h
      rw [h]
      rfl
    · rename_i h
      dsimp only
      rw [h]
      rfl
  · show (typeExpr c >>= fun (e, c) => row.finishTag e c) = typeExpr c >>= fun (e, c) =>
      { row with names := row.names.reverse.reverse : Row }.finishTag e c
    rw [List.reverse_reverse]

theorem result_type (hmark : c.ahead = [] → c.token.text = "") (use : Use)
    (wrappers : List Wrapper) :
    ((Task.type use wrappers).next c.token).result c = (Task.type use wrappers).result c := by
  rw [Task.next, Task.result, Use.finishType, typeExpr]
  dsimp only
  split
  · -- a star is never the last token
    rename_i hstar
    rw [dif_neg fun hnil => absurd ((hmark hnil).symm.trans hstar) (by decide)]
    show use.finishType (.optional :: wrappers) c.advance = _
    rw [Use.finishType]
    cases typeExpr c.advance <;> rfl
  · split
    · show (Task.bracket use wrappers c.token).result c.advance = _
      rw [Task.result]
      split
      · rw [Use.finishType]
        cases typeExpr c.advance.advance <;> rfl
      · split <;> rfl
    · split
      · rfl
      · split
        · rfl
        · unfold Move.expect
          split
          · show (Task.dot use wrappers c.token).result c.advance = _
            rw [Task.result]
            split <;> rfl
          · rfl

theorem result_next (hmark : c.ahead = [] → c.token.text = "") (task : Task) :
    (task.next c.token).result c = task.result c := by
  cases task with
  | separators gap =>
    rw [Task.next, Task.result]
    split
    · rename_i h
      rw [skipSeparators_take hmark h]
      rfl
    · rename_i h
      rw [skipSeparators_stay h]
      rfl
  | item gap =>
    cases gap with
    | opening => exact result_opening c
    | file draft => exact result_file draft c
    | group draft done => exact result_group draft done c
    | body head done => exact result_body head done c
  | packageName => exact result_expect rfl
  | packageEnd name => exact result_endStatement fun c => finish_eq _ c
  | specs draft =>
    rw [Task.next, Task.result, typeSpecs]
    split
    · show Gap.result (skipSeparators c.advance) (.group draft []) = _
      rw [← finishGroup_eq]
      rfl
    · show (Task.spec _).result c = _
      rw [Task.result]
      cases typeSpec c <;> rfl
  | spec site =>
    rw [Task.next, Task.result, typeSpec, bind_assoc]
    refine result_expect ?_
    simp only [bind_assoc, pure_bind]
    rfl
  | equals head =>
    rw [Task.next, Task.result, skipEquals]
    split <;> rfl
  | declBody head =>
    rw [Task.next, Task.result, Grammar.declBody]
    split
    · show (Task.openBrace head).result c.advance = _
      rw [Task.result]
      cases structBody c.advance <;> rfl
    · show Use.finishType _ _ c = _
      rw [Use.finishType]
      cases typeExpr c <;> rfl
  | openBrace head =>
    rw [Task.next, Task.result, structBody, bind_assoc]
    exact result_expect (finishBody_eq head [] c.advance)
  | first head done name =>
    rw [Task.next, Task.result]
    split <;> rfl
  | comma row => exact result_comma row c
  | nextName row => exact result_expect rfl
  | type use wrappers => exact result_type hmark use wrappers
  | bracket use wrappers opening =>
    rw [Task.next, Task.result]
    split
    · rfl
    · split <;> rfl
  | dot use wrappers name =>
    rw [Task.next, Task.result]
    split
    · rfl
    · cases use <;> rfl
  | tag row e =>
    rw [Task.next, Task.result, Row.finishTag, tag?]
    split <;> rfl
  | rowEnd row e tag? => exact result_endStatement fun c => finishBody_eq _ _ c
  | specEnd head body =>
    rw [Task.next, Task.result, Head.finish]
    unfold Site.behind Site.finish
    split
    · rfl
    · exact result_endStatement fun c => finishGroup_eq _ _ c
  | statementEnd draft => exact result_endStatement fun c => finish_eq draft c

end Results

end WireSchema.Parser
