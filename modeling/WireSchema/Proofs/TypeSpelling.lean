import WireSchema.Proofs.Extension
import WireSchema.Proofs.LegalNames
import WireSchema.Proofs.Recovered
import WireSchema.Proofs.RoundTrip

/-!
# Types as text

`typeName` writes a type the way schema text does: a star for a value that may be absent, brackets for
an array, and behind them the name of a primitive or a struct. Read as text among the declarations the
schema came from, such a name is **the type it was made from**, so two types never have one name. Three
readers have to agree with the writer about it: the scanner, which finds a star, two brackets or a word
at every place; the grammar, whose star is in front of everything that follows it; and resolving, where
the name of a struct leads to that struct's number.

A struct may be called `struct`, `map`, `interface`, `chan` or `func`. It can then be declared and not
be mentioned, since these words begin a type of another kind.
-/

namespace WireSchema

namespace TypeExpr

/-- An expression, behind a star if there is one. -/
def starred (star : Bool) (e : TypeExpr) : TypeExpr :=
  if star then .optional e else e

theorem isWritable_starred (star : Bool) (e : TypeExpr) :
    (starred star e).isWritable = e.isWritable := by
  cases star <;> rfl

theorem tokens_starred (star : Bool) (e : TypeExpr) :
    (starred star e).tokens = (if star then ["*"] else []) ++ e.tokens := by
  cases star <;> rfl

/-- Stars, brackets and one word need nothing between them. -/
theorem spelled_tokens {e : TypeExpr} (he : e.isWritable = true) :
    Spelled e.tokens (e.tokens.flatMap String.toList) := by
  induction e with
  | named name pos =>
    have hid := (isWritable_named.mp he).1
    refine .token (Grammar.isToken_of_isIdentifier hid) (fun _ c hc => ?_) .nil
    exact nomatch hc
  | optional e ih =>
    exact .token (t := "*") (by decide) (fun h => absurd h (by decide)) (ih he)
  | array e ih =>
    refine .token (t := "[") (by decide) (fun h => absurd h (by decide)) ?_
    exact .token (t := "]") (by decide) (fun h => absurd h (by decide)) (ih he)

end TypeExpr

namespace Schema

variable (s : Schema)

/-- The expression that is written for a type. -/
def spelling : Ty → TypeExpr
  | .primitive p o => .starred o (.named p.name .start)
  | .struct id o => .starred o (.named (s.structName id) .start)
  | .array e o => .starred o (.array (spelling e))

/-- The name of a type is the tokens of its expression. -/
theorem toList_typeName (ty : Ty) :
    (s.typeName ty).toList = (s.spelling ty).tokens.flatMap String.toList := by
  have hstar : ∀ o : Bool, (if o then "*" else "").toList
      = (if o then ["*"] else []).flatMap String.toList := by
    decide
  induction ty with
  | primitive p o =>
    rw [typeName, spelling, TypeExpr.tokens_starred, List.flatMap_append, String.toList_append, hstar]
    simp [TypeExpr.tokens]
  | struct id o =>
    rw [typeName, spelling, TypeExpr.tokens_starred, List.flatMap_append, String.toList_append, hstar]
    simp [TypeExpr.tokens]
  | array e o ih =>
    rw [typeName, spelling, TypeExpr.tokens_starred, List.flatMap_append, String.toList_append,
      String.toList_append, hstar, ih, List.append_assoc]
    rfl

variable {s}

/-- The structs can be mentioned: none is called like another kind of type. -/
def Mentionable (s : Schema) : Prop :=
  ∀ d ∈ s.structs, d.name ∉ ["struct", "map", "interface", "chan", "func"]

instance : Decidable s.Mentionable :=
  inferInstanceAs (Decidable (∀ d ∈ s.structs, _))

theorem isWritable_spelling (hids : ∀ d ∈ s.structs, Grammar.isIdentifier d.name = true)
    (hnames : s.Mentionable) {ty : Ty} (hty : ty.InRange s.structs.length) :
    (s.spelling ty).isWritable = true := by
  induction ty with
  | primitive p o =>
    rw [spelling, TypeExpr.isWritable_starred]
    cases p with
    | number kind => cases kind <;> decide
    | _ => decide
  | struct id o =>
    have hlt : id < s.structs.length := hty id rfl
    have hget := List.getElem?_eq_getElem hlt
    have hmem := List.mem_of_getElem? hget
    have hname : s.structName id = s.structs[id].name := by
      rw [structName, hget]
    rw [spelling, TypeExpr.isWritable_starred, hname]
    exact TypeExpr.isWritable_named.mpr ⟨hids _ hmem, hnames _ hmem⟩
  | array e o ih =>
    rw [spelling, TypeExpr.isWritable_starred]
    exact ih hty

end Schema

namespace Source

variable {src : Source}

/-- What an expression stands for does not depend on where it is written. -/
theorem Denotes.of_unplaced {e e' : TypeExpr} {ty : Ty} (h : src.Denotes e ty)
    (he : e'.unplaced = e.unplaced) : src.Denotes e' ty := by
  induction h generalizing e' with
  | primitive p pos =>
    obtain ⟨pos', rfl⟩ := TypeExpr.eq_named_of_unplaced he
    exact .primitive p pos'
  | struct pos hid =>
    obtain ⟨pos', rfl⟩ := TypeExpr.eq_named_of_unplaced he
    exact .struct pos' hid
  | synonym pos hmem hbody hd =>
    obtain ⟨pos', rfl⟩ := TypeExpr.eq_named_of_unplaced he
    exact .synonym pos' hmem hbody hd
  | optional _ ih =>
    obtain ⟨e₂, rfl, he₂⟩ := TypeExpr.eq_optional_of_unplaced he
    exact .optional (ih he₂)
  | array _ ih =>
    obtain ⟨e₂, rfl, he₂⟩ := TypeExpr.eq_array_of_unplaced he
    exact .array (ih he₂)

theorem Denotes.starred {e : TypeExpr} (ty : Ty) (h : src.Denotes e ty.required) :
    src.Denotes (.starred ty.optional e) ty := by
  cases hoptional : ty.optional with
  | false =>
    rw [← ty.withOptional_optional, hoptional]
    exact h
  | true =>
    have hty : ty.required.asOptional = ty := by
      rw [← ty.withOptional_optional, hoptional]
      cases ty <;> rfl
    have hstar := h.optional
    rwa [hty] at hstar

/-- **The expression that is written for a type stands for it.** -/
theorem ResolvesTo.denotes_spelling {s : Schema} (hto : src.ResolvesTo s) {ty : Ty}
    (hty : ty.InRange s.structs.length) : src.Denotes (s.spelling ty) ty := by
  induction ty with
  | primitive p o => exact .starred (.primitive p o) (.primitive p .start)
  | struct id o =>
    have hget := List.getElem?_eq_getElem (hty id rfl)
    obtain ⟨decl, hdecl, hdenotes⟩ := Result.exists_of_getElem?_right hto.structs hget
    have hname : s.structName id = decl.name := by
      rw [Schema.structName, hget]
      exact hdenotes.name
    rw [Schema.spelling, hname]
    exact .starred (.struct id o) (.struct .start hdecl)
  | array e o ih => exact .starred (.array e o) (.array (ih hty))

/-- The type that a text stands for by itself, where `src` is what is declared. -/
def typeOf (src : Source) (text : String) : Except Error Ty := do
  match ← Token.scan text with
  | [] => .error (.parse .endOfInput .start)
  | t :: rest =>
    let (e, c) ← Grammar.typeExpr ⟨t, rest⟩
    if c.token.text = "" then (src.resolveExpr e).run' (structTypes 0 src.decls)
    else .error (Grammar.unexpected c.token)

theorem WellNamed.run_resolveExpr (hn : src.WellNamed) {e : TypeExpr} {ty : Ty}
    (h : src.Denotes e ty) : (src.resolveExpr e).run' (structTypes 0 src.decls) = .ok ty := by
  rcases hn.decides_resolveExpr e _ src.faithful_structTypes with
    ⟨ty', known, hrun, hty', _⟩ | ⟨_, _, hnone⟩
  · rw [hn.denotes_unique h hty']
    exact congrArg (Except.map Prod.fst) hrun
  · exact absurd h (hnone ty)

/-- A text that spells an expression stands for the type that the expression does. -/
theorem WellNamed.typeOf_of_spelled (hn : src.WellNamed) {e : TypeExpr} (he : e.isWritable = true)
    {ty : Ty} (hty : src.Denotes e ty) {text : String} (htext : Spelled e.tokens text.toList) :
    src.typeOf text = .ok ty := by
  obtain ⟨tokens, hscan, htokens⟩ := Token.scanFrom_of_spelled htext .start []
  cases tokens with
  | nil => exact absurd htokens (by simp)
  | cons t rest =>
    have hreads : Grammar.Reads Grammar.typeExpr (·.unplaced) (e.tokens ++ [""]) e.unplaced [""] :=
      Grammar.reads_typeExpr he (by decide)
    obtain ⟨e', c, hread, he', hc⟩ := hreads ⟨t, rest⟩ htokens
    unfold typeOf
    rw [Token.scan, hscan]
    change (do
      let (e, c) ← Grammar.typeExpr ⟨t, rest⟩
      if c.token.text = "" then (src.resolveExpr e).run' (structTypes 0 src.decls)
      else .error (Grammar.unexpected c.token)) = Except.ok ty
    -- behind the expression only the empty token is left
    rw [hread]
    change (if c.token.text = "" then _ else _) = _
    rw [if_pos (Cursor.text_eq hc)]
    exact hn.run_resolveExpr (hty.of_unplaced he')

end Source

/--
**The name of a type is read as that type**, among the declarations its schema came from. So types that
are made of the structs of a schema have different names if they are different.
-/
theorem typeName_faithful {tokens : List Token} {s : Schema} (h : Schema.ofTokens tokens = .ok s)
    (hnames : s.Mentionable) :
    ∃ src, Source.ofTokens tokens = .ok src ∧ src.resolve = .ok s ∧
      (∀ ty : Ty, ty.InRange s.structs.length → src.typeOf (s.typeName ty) = .ok ty) ∧
      ∀ ty ty' : Ty, ty.InRange s.structs.length → ty'.InRange s.structs.length →
        s.typeName ty = s.typeName ty' → ty = ty' := by
  obtain ⟨src, hsrc, hresolve⟩ := Result.bind_eq_ok.mp h
  obtain ⟨hresolvable, hto⟩ := Source.resolve_eq_ok hresolve
  have hids : ∀ d ∈ s.structs, Grammar.isIdentifier d.name = true := by
    intro d hd
    obtain ⟨decl, hmem, hstruct⟩ := Result.exists_of_mem_right hto.structs hd
    rw [hstruct.name]
    exact Source.areNamed_of_ofTokens hsrc decl (Source.mem_structDecls.mp hmem).1 _
      List.mem_cons_self
  have hread : ∀ ty : Ty, ty.InRange s.structs.length → src.typeOf (s.typeName ty) = .ok ty := by
    intro ty hty
    have hwritable := Schema.isWritable_spelling hids hnames hty
    refine hresolvable.toWellNamed.typeOf_of_spelled hwritable (hto.denotes_spelling hty) ?_
    rw [s.toList_typeName]
    exact TypeExpr.spelled_tokens hwritable
  refine ⟨src, hsrc, hresolve, hread, fun ty ty' hty hty' heq => ?_⟩
  -- the name has one reading, and it is both types
  have hsame := hread ty hty
  rw [heq, hread ty' hty'] at hsame
  exact (Except.ok.inj hsame).symm

theorem typeName_faithful_reading : readingSchema.Mentionable ∧
    readingSchema.typeName (.array (.array (.struct 1 true) false) true) = "*[][]*State" ∧
    ∃ tokens src, Schema.ofTokens tokens = .ok readingSchema ∧ Source.ofTokens tokens = .ok src ∧
      src.typeOf "*[][]*State" = .ok (.array (.array (.struct 1 true) false) true) := by
  have hnames : readingSchema.Mentionable := by decide
  have hspelled : readingSchema.typeName (.array (.array (.struct 1 true) false) true)
      = "*[][]*State" := by decide
  obtain ⟨tokens, _, hschema⟩ := Result.bind_eq_ok.mp parse_readingText
  obtain ⟨src, hsrc, _, hread, _⟩ := typeName_faithful hschema hnames
  refine ⟨hnames, hspelled, tokens, src, hschema, hsrc, ?_⟩
  rw [← hspelled]
  exact hread _ (by decide)

end WireSchema
