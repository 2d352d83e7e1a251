import WireSchema.Proofs.Spelling

/-!
# Every way of writing a source

There are many ways to write one source. Statements are separated by any number of line breaks and
semicolons, and the last one in a list needs none behind it; a sign may stand between a name and what
it stands for; declarations can be put together in parentheses; and fields that have a type and a tag
in common can be put together in front of them. `Written` says that a text is one of these ways.
Every source whose names are identifiers and whose tags have no backquotes can be written.
-/

namespace WireSchema

/-! ## Sources without positions -/

def TypeExpr.unplaced : TypeExpr → TypeExpr
  | .named name _ => .named name .start
  | .optional e => .optional e.unplaced
  | .array e => .array e.unplaced

def FieldExpr.unplaced (f : FieldExpr) : FieldExpr :=
  { f with pos := .start, type := f.type.unplaced }

def DeclBody.unplaced : DeclBody → DeclBody
  | .struct fields => .struct (fields.map (·.unplaced))
  | .alias e => .alias e.unplaced

def DeclExpr.unplaced (d : DeclExpr) : DeclExpr :=
  { d with pos := .start, body := d.body.unplaced }

/-- A source with every position at the start. -/
def Source.unplaced (src : Source) : Source :=
  { src with decls := src.decls.map (·.unplaced) }

/-! ## Sources that can be written -/

/-- The name in a type is not the keyword of another kind of type. -/
def TypeExpr.isWritable (e : TypeExpr) : Bool :=
  Grammar.isIdentifier e.name && !(["struct", "map", "interface", "chan", "func"].contains e.name)

theorem TypeExpr.isWritable_named {name : String} {pos : Position} :
    (TypeExpr.named name pos).isWritable = true ↔ Grammar.isIdentifier name = true ∧
      name ∉ ["struct", "map", "interface", "chan", "func"] := by
  rw [isWritable, Bool.and_eq_true, Bool.not_eq_true', ← Bool.not_eq_true, List.contains_iff_mem]
  rfl

/-- There is no way to write a backquote in a tag. -/
def FieldExpr.isWritable (f : FieldExpr) : Bool :=
  Grammar.isIdentifier f.name && f.type.isWritable && f.tag.all fun tag => !tag.toList.contains '\x60'

theorem FieldExpr.isWritable_iff {f : FieldExpr} : f.isWritable = true ↔
    Grammar.isIdentifier f.name = true ∧ f.type.isWritable = true ∧
      (f.tag.all fun tag => !tag.toList.contains '\x60') = true := by
  rw [isWritable, Bool.and_eq_true, Bool.and_eq_true, and_assoc]

def DeclBody.isWritable : DeclBody → Bool
  | .struct fields => fields.all (·.isWritable)
  | .alias e => e.isWritable

def DeclExpr.isWritable (d : DeclExpr) : Bool :=
  Grammar.isIdentifier d.name && d.body.isWritable

def Source.isWritable (src : Source) : Bool :=
  (src.package == "" || Grammar.isIdentifier src.package) && src.decls.all (·.isWritable)

def TypeExpr.tokens : TypeExpr → List String
  | .named name _ => [name]
  | .optional e => "*" :: e.tokens
  | .array e => "[" :: "]" :: e.tokens

namespace Grammar

/-! ## What can be written -/

def tagTokens : Option String → List String
  | none => []
  | some tag => ["\x60" ++ tag ++ "\x60"]

/-- Names behind a first one, each behind a comma. -/
def nameTokens (names : List String) : List String :=
  names.flatMap fun name => [",", name]

/-- Separators only. -/
def AreSeparators (toks : List String) : Prop :=
  ∀ t ∈ toks, isSeparator t = true

theorem areSeparators_nil : AreSeparators [] :=
  fun _ h => absurd h List.not_mem_nil

/-- Statements one after the other. Each is an item, which may stand for several elements. -/
inductive Statements {α : Type} (Item : List α → List String → Prop) :
    List α → List String → Prop where
  | none {seps : List String} : AreSeparators seps → Statements Item [] seps
  /-- The last statement needs no separator. -/
  | last {seps toks : List String} {xs : List α} :
      AreSeparators seps → Item xs toks → Statements Item xs (seps ++ toks)
  | more {seps toks rest : List String} {sep : String} {xs ys : List α} :
      AreSeparators seps → Item xs toks → isSeparator sep = true → Statements Item ys rest →
      Statements Item (xs ++ ys) (seps ++ (toks ++ sep :: rest))

/-- Fields that have a type and a tag in common, written together. -/
inductive FieldGroup : List FieldExpr → List String → Prop where
  | mk {f : FieldExpr} {more : List FieldExpr} :
      (∀ g ∈ more, g.type.unplaced = f.type.unplaced ∧ g.tag = f.tag) →
      FieldGroup (f :: more)
        (f.name :: (nameTokens (more.map (·.name)) ++ (f.type.tokens ++ tagTokens f.tag)))

/-- What a declared name stands for. -/
inductive Body : DeclBody → List String → Prop where
  | struct {fields : List FieldExpr} {toks : List String} :
      Statements FieldGroup fields toks →
      Body (.struct fields) ("struct" :: "\x7b" :: (toks ++ ["\x7d"]))
  | synonym (e : TypeExpr) : Body (.alias e) e.tokens

/-- A declaration, with or without the sign behind its name. -/
inductive Spec : DeclExpr → List String → Prop where
  | plain {d : DeclExpr} {toks : List String} : Body d.body toks → Spec d (d.name :: toks)
  | equals {d : DeclExpr} {toks : List String} : Body d.body toks → Spec d (d.name :: "=" :: toks)

/-- A single declaration among others in parentheses. -/
def GroupedSpec (decls : List DeclExpr) (toks : List String) : Prop :=
  ∃ d, decls = [d] ∧ Spec d toks

/-- Declarations behind the keyword. -/
inductive TypeStatement : List DeclExpr → List String → Prop where
  | single {d : DeclExpr} {toks : List String} : Spec d toks → TypeStatement [d] ("type" :: toks)
  | group {decls : List DeclExpr} {toks : List String} :
      Statements GroupedSpec decls toks →
      TypeStatement decls ("type" :: "(" :: (toks ++ [")"]))

/-- A whole text. -/
inductive File : Source → List String → Prop where
  | bare {decls : List DeclExpr} {toks : List String} :
      Statements TypeStatement decls toks → File ⟨"", decls⟩ toks
  | package {seps toks : List String} {name sep : String} {decls : List DeclExpr} :
      AreSeparators seps → name ≠ "" → isSeparator sep = true →
      Statements TypeStatement decls toks →
      File ⟨name, decls⟩ (seps ++ "package" :: name :: sep :: toks)
  | packageOnly {seps : List String} {name : String} :
      AreSeparators seps → name ≠ "" → File ⟨name, []⟩ (seps ++ ["package", name])

end Grammar

/-- A text is a way of writing a source. -/
def Source.Written (src : Source) (text : String) : Prop :=
  ∃ toks, Grammar.File src toks ∧ Spelled toks text.toList

namespace Grammar

/-! ## Every source can be written -/

/-- The text of a tag stands between two backquotes. -/
theorem isTag_tagTokens {tag : String} (h : (!tag.toList.contains '\x60') = true) :
    isTag ("\x60" ++ tag ++ "\x60") = true ∧ tagText ("\x60" ++ tag ++ "\x60") = tag := by
  have hchars : ("\x60" ++ tag ++ "\x60").toList = '\x60' :: (tag.toList ++ ['\x60']) := by
    simp [String.toList_append]
  constructor
  · unfold isTag
    rw [hchars]
    change ((tag.toList ++ ['\x60']).getLast? == some '\x60' &&
      !(tag.toList ++ ['\x60']).dropLast.contains '\x60') = true
    rw [List.dropLast_concat, h, List.getLast?_concat]
    rfl
  · unfold tagText
    rw [hchars, List.drop_succ_cons, List.drop_zero, List.dropLast_concat, String.ofList_toList]

/-- Tokens that a text can spell. -/
def AreTokens (toks : List String) : Prop :=
  ∀ t ∈ toks, isToken t = true

theorem areTokens_append {first second : List String} (h : AreTokens first) (h' : AreTokens second) :
    AreTokens (first ++ second) :=
  fun t ht => (List.mem_append.mp ht).elim (h t) (h' t)

theorem areTokens_cons {t : String} {toks : List String} (ht : isToken t = true)
    (h : AreTokens toks) : AreTokens (t :: toks) :=
  List.forall_mem_cons.mpr ⟨ht, h⟩

theorem areTokens_nil : AreTokens [] :=
  fun _ h => absurd h List.not_mem_nil

theorem isToken_of_isIdentifier {t : String} (h : isIdentifier t = true) : isToken t = true := by
  simp [isToken, h]

theorem areTokens_typeExpr {e : TypeExpr} (he : e.isWritable = true) : AreTokens e.tokens := by
  induction e with
  | named name pos =>
    have hid := (TypeExpr.isWritable_named.mp he).1
    exact areTokens_cons (isToken_of_isIdentifier hid) areTokens_nil
  | optional e ih => exact areTokens_cons (by decide) (ih he)
  | array e ih => exact areTokens_cons (by decide) (areTokens_cons (by decide) (ih he))

/-- Items of one element each, with a line break behind every one. -/
theorem exists_statements {α : Type} {Item : List α → List String → Prop} {xs : List α}
    (h : ∀ x ∈ xs, ∃ toks, Item [x] toks ∧ AreTokens toks) :
    ∃ toks, Statements Item xs toks ∧ AreTokens toks := by
  induction xs with
  | nil => exact ⟨[], .none areSeparators_nil, areTokens_nil⟩
  | cons x xs ih =>
    obtain ⟨toks, hitem, htoks⟩ := h x List.mem_cons_self
    obtain ⟨rest, hstatements, hrest⟩ := ih fun y hy => h y (List.mem_cons_of_mem _ hy)
    refine ⟨toks ++ "\n" :: rest, ?_, areTokens_append htoks (areTokens_cons (by decide) hrest)⟩
    exact .more areSeparators_nil hitem (by decide) hstatements

theorem exists_fieldGroup {f : FieldExpr} (hf : f.isWritable = true) :
    ∃ toks, FieldGroup [f] toks ∧ AreTokens toks := by
  obtain ⟨hname, htype, htag⟩ := FieldExpr.isWritable_iff.mp hf
  have htags : AreTokens (tagTokens f.tag) := by
    cases htagged : f.tag with
    | none => exact areTokens_nil
    | some tag =>
      rw [htagged] at htag
      refine areTokens_cons ?_ areTokens_nil
      simp [isToken, (isTag_tagTokens htag).1]
  refine ⟨_, .mk fun _ h => absurd h List.not_mem_nil, ?_⟩
  exact areTokens_cons (isToken_of_isIdentifier hname)
    (areTokens_append areTokens_nil (areTokens_append (areTokens_typeExpr htype) htags))

theorem exists_typeStatement {d : DeclExpr} (hd : d.isWritable = true) :
    ∃ toks, TypeStatement [d] toks ∧ AreTokens toks := by
  obtain ⟨hname, hbody⟩ := Bool.and_eq_true_iff.mp hd
  have hwritten : ∃ toks, Body d.body toks ∧ AreTokens toks := by
    rcases hshape : d.body with fields | e
    · rw [hshape] at hbody
      have hfields := List.all_eq_true.mp hbody
      obtain ⟨toks, hstatements, htoks⟩ := exists_statements fun f hf => exists_fieldGroup (hfields f hf)
      refine ⟨_, .struct hstatements, areTokens_cons (by decide) (areTokens_cons (by decide) ?_)⟩
      exact areTokens_append htoks (areTokens_cons (by decide) areTokens_nil)
    · rw [hshape] at hbody
      exact ⟨_, .synonym e, areTokens_typeExpr hbody⟩
  obtain ⟨toks, hbody, htoks⟩ := hwritten
  exact ⟨_, .single (.plain hbody),
    areTokens_cons (by decide) (areTokens_cons (isToken_of_isIdentifier hname) htoks)⟩

theorem exists_file {src : Source} (hsrc : src.isWritable = true) :
    ∃ toks, File src toks ∧ AreTokens toks := by
  obtain ⟨package, decls⟩ := src
  obtain ⟨hpackage, hdecls⟩ := Bool.and_eq_true_iff.mp hsrc
  have hdecls := List.all_eq_true.mp hdecls
  obtain ⟨toks, hstatements, htoks⟩ :=
    exists_statements fun d hd => exists_typeStatement (hdecls d hd)
  by_cases hempty : package = ""
  · subst hempty
    exact ⟨toks, .bare hstatements, htoks⟩
  · have hid : isIdentifier package = true := by
      rcases Bool.or_eq_true_iff.mp hpackage with h | h
      · exact absurd (eq_of_beq h) hempty
      · exact h
    have hline : isSeparator "\n" = true := by decide
    refine ⟨_, .package areSeparators_nil hempty hline hstatements, ?_⟩
    exact areTokens_cons (by decide) (areTokens_cons (isToken_of_isIdentifier hid)
      (areTokens_cons (by decide) htoks))

end Grammar

/-- Tokens can be spelled with a blank behind each of them. -/
theorem spelled_flatMap {toks : List String} (h : Grammar.AreTokens toks) :
    Spelled toks (toks.flatMap fun t => t.toList ++ [' ']) := by
  induction toks with
  | nil => exact .nil
  | cons t toks ih =>
    have hrest := ih fun s hs => h s (List.mem_cons_of_mem _ hs)
    rw [List.flatMap_cons, List.append_assoc, List.singleton_append]
    refine .token (h t List.mem_cons_self) (fun _ c hc => ?_) (.blank rfl hrest)
    obtain rfl := Option.some.inj hc
    decide

/-- **A source can be written** if its names are identifiers and its tags have no backquotes. -/
theorem Source.exists_written {src : Source} (hsrc : src.isWritable = true) :
    ∃ text, src.Written text := by
  obtain ⟨toks, hfile, htoks⟩ := Grammar.exists_file hsrc
  refine ⟨String.ofList (toks.flatMap fun t => t.toList ++ [' ']), toks, hfile, ?_⟩
  rw [String.toList_ofList]
  exact spelled_flatMap htoks

end WireSchema
