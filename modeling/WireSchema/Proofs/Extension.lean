import WireSchema.Proofs.CppNumbering
import WireSchema.Proofs.RustNumbering
import WireSchema.Proofs.Written

/-!
# Declarations that a message has nothing to do with

The file for a message holds the message and the structs inside it, and nothing else of the schema
text it comes from. So further declarations can be written anywhere into the text, and as long as
the message is still one, its file stays the same to the last character. The argument has three
parts:

* a type expression **denotes the same type** in the longer source. Only the numbers of structs are
  different, because structs are numbered as they come;
* the schema of the shorter source is thus **inside** that of the longer one, and remains so in
  canonical order;
* code for messages of a schema that is inside another **does not show the numbers**.
-/

namespace WireSchema

theorem Ty.asOptional_renumber {σ : Nat → Nat} (t : Ty) :
    t.asOptional.renumber σ = (t.renumber σ).asOptional := by
  cases t <;> rfl

/-! ## The same text elsewhere -/

namespace TypeExpr

theorem eq_named_of_unplaced {e : TypeExpr} {name : String} {pos : Position}
    (h : e.unplaced = (named name pos).unplaced) : ∃ pos', e = .named name pos' := by
  cases e with
  | named name' pos' =>
    injection h with hname
    exact ⟨pos', by rw [hname]⟩
  | _ => exact absurd h (by simp [unplaced])

theorem eq_optional_of_unplaced {e e₁ : TypeExpr} (h : e.unplaced = (optional e₁).unplaced) :
    ∃ e₂, e = .optional e₂ ∧ e₂.unplaced = e₁.unplaced := by
  cases e with
  | optional e₂ =>
    injection h with he
    exact ⟨e₂, rfl, he⟩
  | _ => exact absurd h (by simp [unplaced])

theorem eq_array_of_unplaced {e e₁ : TypeExpr} (h : e.unplaced = (array e₁).unplaced) :
    ∃ e₂, e = .array e₂ ∧ e₂.unplaced = e₁.unplaced := by
  cases e with
  | array e₂ =>
    injection h with he
    exact ⟨e₂, rfl, he⟩
  | _ => exact absurd h (by simp [unplaced])

end TypeExpr

namespace DeclBody

theorem eq_struct_of_unplaced {body : DeclBody} {fields : List FieldExpr}
    (h : body.unplaced = (struct fields).unplaced) :
    ∃ fields', body = .struct fields' ∧ fields'.map (·.unplaced) = fields.map (·.unplaced) := by
  rcases body with fields' | e
  · injection h with hfields
    exact ⟨fields', rfl, hfields⟩
  · exact absurd h (by simp [unplaced])

theorem eq_alias_of_unplaced {body : DeclBody} {e : TypeExpr}
    (h : body.unplaced = (DeclBody.alias e).unplaced) :
    ∃ e', body = .alias e' ∧ e'.unplaced = e.unplaced := by
  rcases body with fields | e'
  · exact absurd h (by simp [unplaced])
  · injection h with he
    exact ⟨e', rfl, he⟩

end DeclBody

theorem FieldExpr.same_of_unplaced {f f' : FieldExpr} (h : f'.unplaced = f.unplaced) :
    f'.name = f.name ∧ f'.type.unplaced = f.type.unplaced ∧ f'.tag = f.tag := by
  injection h with hname _ htype htag
  exact ⟨hname, htype, htag⟩

theorem DeclExpr.same_of_unplaced {decl decl' : DeclExpr} (h : decl'.unplaced = decl.unplaced) :
    decl'.name = decl.name ∧ decl'.body.unplaced = decl.body.unplaced := by
  injection h with hname _ hbody
  exact ⟨hname, hbody⟩

/-! ## Sources with further declarations -/

namespace Source

variable {src src' : Source}

/-- `src'` declares everything that `src` does, in whatever order and among whatever else. Where
things are written in the two texts makes no difference. -/
structure IsPartOf (src src' : Source) : Prop where
  package : src'.package = src.package
  decls : src.decls.map (·.unplaced) ⊆ src'.decls.map (·.unplaced)

/-- The number in `src'` of the struct that has the number `id` in `src`. -/
def numberIn (src' src : Source) (id : Nat) : Nat :=
  match src.structDecls[id]? with
  | some decl => src'.structDecls.findIdx (·.name == decl.name)
  | none => src'.structDecls.length + id

/-- Structs have different names, so a name has one number. -/
theorem WellNamed.number_unique (hn : src.WellNamed) {id id' : Nat} {decl decl' : DeclExpr}
    (h : src.structDecls[id]? = some decl) (h' : src.structDecls[id']? = some decl')
    (hname : decl.name = decl'.name) : id = id' := by
  obtain ⟨hlt, _⟩ := List.getElem?_eq_some_iff.mp h
  have hlt' : id < (src.structDecls.map (·.name)).length := by rwa [List.length_map]
  refine (List.getElem?_inj hlt' hn.nodup_structDecls).mp ?_
  rw [List.getElem?_map, List.getElem?_map, h, h']
  exact congrArg some hname

namespace IsPartOf

variable (h : src.IsPartOf src') (hn' : src'.WellNamed)

include h in
theorem exists_decl {decl : DeclExpr} (hmem : decl ∈ src.decls) :
    ∃ decl' ∈ src'.decls, decl'.unplaced = decl.unplaced :=
  List.mem_map.mp (h.decls (List.mem_map_of_mem hmem))

include h hn'

theorem getElem?_numberIn {id : Nat} {decl : DeclExpr} (hid : src.structDecls[id]? = some decl) :
    ∃ decl', src'.structDecls[src'.numberIn src id]? = some decl'
      ∧ decl'.unplaced = decl.unplaced := by
  obtain ⟨hmem, fields, hbody⟩ := mem_structDecls.mp (List.mem_of_getElem? hid)
  obtain ⟨decl', hmem', hsame⟩ := h.exists_decl hmem
  obtain ⟨hname, hbody'⟩ := DeclExpr.same_of_unplaced hsame
  have hstruct : decl' ∈ src'.structDecls := by
    rw [hbody] at hbody'
    obtain ⟨fields', hfields', _⟩ := DeclBody.eq_struct_of_unplaced hbody'
    exact mem_structDecls.mpr ⟨hmem', fields', hfields'⟩
  have hlt : src'.structDecls.findIdx (·.name == decl.name) < src'.structDecls.length :=
    List.findIdx_lt_length.mpr ⟨decl', hstruct, beq_iff_eq.mpr hname⟩
  -- names are different, so what is found under the name is the declaration
  have hfound := beq_iff_eq.mp (List.findIdx_getElem (w := hlt))
  have hfoundMem := (mem_structDecls.mp (List.getElem_mem hlt)).1
  refine ⟨decl', ?_, hsame⟩
  rw [numberIn, hid, ← hn'.eq_of_name hfoundMem hmem' (hfound.trans hname.symm)]
  exact List.getElem?_eq_getElem hlt

theorem numberIn_lt_iff (id : Nat) :
    src'.numberIn src id < src'.structDecls.length ↔ id < src.structDecls.length := by
  cases hid : src.structDecls[id]? with
  | none =>
    have hle := List.getElem?_eq_none_iff.mp hid
    rw [numberIn, hid]
    dsimp only
    omega
  | some decl =>
    obtain ⟨decl', hdecl', _⟩ := h.getElem?_numberIn hn' hid
    obtain ⟨hlt, _⟩ := List.getElem?_eq_some_iff.mp hid
    obtain ⟨hlt', _⟩ := List.getElem?_eq_some_iff.mp hdecl'
    exact ⟨fun _ => hlt, fun _ => hlt'⟩

theorem numberIn_injective (hn : src.WellNamed) : Function.Injective (src'.numberIn src) := by
  intro a b hab
  have hiff : a < src.structDecls.length ↔ b < src.structDecls.length := by
    rw [← h.numberIn_lt_iff hn' a, ← h.numberIn_lt_iff hn' b, hab]
  cases ha : src.structDecls[a]? with
  | none =>
    -- numbers of no struct are moved up
    have hle := List.getElem?_eq_none_iff.mp ha
    have hb : src.structDecls[b]? = none := List.getElem?_eq_none_iff.mpr (by omega)
    rw [numberIn, numberIn, ha, hb] at hab
    exact Nat.add_left_cancel hab
  | some decl =>
    obtain ⟨hlt, _⟩ := List.getElem?_eq_some_iff.mp ha
    have hb := List.getElem?_eq_getElem (hiff.mp hlt)
    obtain ⟨decl', hdecl', hsame⟩ := h.getElem?_numberIn hn' ha
    obtain ⟨other', hother', hsame'⟩ := h.getElem?_numberIn hn' hb
    rw [← hab, hdecl'] at hother'
    obtain rfl := Option.some.inj hother'
    obtain ⟨hname, _⟩ := DeclExpr.same_of_unplaced (hsame.symm.trans hsame')
    exact hn.number_unique ha hb hname

/-- **An expression denotes the same type in a longer source.** -/
theorem denotes {e : TypeExpr} {ty : Ty} (hd : src.Denotes e ty) :
    ∀ {e' : TypeExpr}, e'.unplaced = e.unplaced →
      src'.Denotes e' (ty.renumber (src'.numberIn src)) := by
  induction hd with
  | primitive p pos =>
    intro e' he
    obtain ⟨pos', rfl⟩ := TypeExpr.eq_named_of_unplaced he
    exact .primitive p pos'
  | struct pos hid =>
    intro e' he
    obtain ⟨pos', rfl⟩ := TypeExpr.eq_named_of_unplaced he
    obtain ⟨decl', hid', hsame⟩ := h.getElem?_numberIn hn' hid
    rw [← (DeclExpr.same_of_unplaced hsame).1]
    exact .struct pos' hid'
  | @synonym decl e ty pos hmem hbody _ ih =>
    intro e' he
    obtain ⟨pos', rfl⟩ := TypeExpr.eq_named_of_unplaced he
    obtain ⟨decl', hmem', hsame⟩ := h.exists_decl hmem
    obtain ⟨hname, hbody'⟩ := DeclExpr.same_of_unplaced hsame
    rw [hbody] at hbody'
    obtain ⟨e'', halias, he''⟩ := DeclBody.eq_alias_of_unplaced hbody'
    rw [← hname]
    exact .synonym pos' hmem' halias (ih he'')
  | optional _ ih =>
    intro e' he
    obtain ⟨e'', rfl, he''⟩ := TypeExpr.eq_optional_of_unplaced he
    rw [Ty.asOptional_renumber]
    exact .optional (ih he'')
  | array _ ih =>
    intro e' he
    obtain ⟨e'', rfl, he''⟩ := TypeExpr.eq_array_of_unplaced he
    exact .array (ih he'')

theorem matches_fields {fields fields' : List FieldExpr} {gs gs' : List Field}
    (hgs : List.Forall₂ src.FieldDenotes fields gs)
    (hgs' : List.Forall₂ src'.FieldDenotes fields' gs')
    (hsame : fields'.map (·.unplaced) = fields.map (·.unplaced)) :
    List.Forall₂ (Field.Matches (src'.numberIn src)) gs gs' := by
  induction hgs generalizing fields' gs' with
  | nil =>
    rw [List.map_nil, List.map_eq_nil_iff] at hsame
    subst hsame
    cases hgs'
    exact .nil
  | @cons f g fields gs hg _ ih =>
    cases hgs' with
    | nil => exact absurd hsame (by simp)
    | @cons f' g' fields' gs' hg' hrest =>
      rw [List.map_cons, List.map_cons, List.cons.injEq] at hsame
      obtain ⟨hf, hsame⟩ := hsame
      obtain ⟨hname, htype, htag⟩ := FieldExpr.same_of_unplaced hf
      refine .cons ⟨?_, ?_, ?_⟩ (ih hrest hsame)
      · rw [hg.name, hg'.name, hname]
      · exact hn'.denotes_unique hg'.ty (h.denotes hn' hg.ty htype)
      · rw [hg.tag, hg'.tag, htag]

theorem exists_struct {s s' : Schema} (hs : src.ResolvesTo s) (hs' : src'.ResolvesTo s') {id : Nat}
    {d : StructDef} (hd : s.structs[id]? = some d) :
    ∃ d', s'.structs[src'.numberIn src id]? = some d' ∧ d'.name = d.name
      ∧ List.Forall₂ (Field.Matches (src'.numberIn src)) d.fields d'.fields := by
  obtain ⟨decl, hdecl, hdenotes⟩ := Result.exists_of_getElem?_right hs.structs hd
  obtain ⟨decl', hdecl', hsame⟩ := h.getElem?_numberIn hn' hdecl
  obtain ⟨d', hd', hdenotes'⟩ := Result.exists_of_getElem?_right hs'.structs.flip hdecl'
  obtain ⟨fields, hbody, hfields⟩ := hdenotes.fields
  obtain ⟨fields', hbody', hfields'⟩ := hdenotes'.fields
  obtain ⟨hname, hunplaced⟩ := DeclExpr.same_of_unplaced hsame
  rw [hbody, hbody'] at hunplaced
  injection hunplaced with hunplaced
  refine ⟨d', hd', ?_, h.matches_fields hn' hfields hfields' hunplaced⟩
  rw [hdenotes.name, hdenotes'.name, hname]

/-- **The schema of a source is inside that of a longer one.** -/
theorem embeds {s s' : Schema} (hn : src.WellNamed) (hs : src.ResolvesTo s)
    (hs' : src'.ResolvesTo s') : s.Embeds (src'.numberIn src) s' := by
  have hlt : ∀ id, src'.numberIn src id < s'.structs.length ↔ id < s.structs.length := by
    intro id
    rw [← hs.structs.length_eq, ← hs'.structs.length_eq]
    exact h.numberIn_lt_iff hn' id
  have hnone : ∀ id, s.structs[id]? = none → s'.structs[src'.numberIn src id]? = none := by
    intro id hid
    rw [List.getElem?_eq_none_iff] at hid ⊢
    have hiff := hlt id
    omega
  refine ⟨h.numberIn_injective hn' hn, hlt, fun id => ?_, fun id => ?_⟩
  · unfold Schema.structName
    cases hid : s.structs[id]? with
    | none => rw [hnone id hid]
    | some d =>
      obtain ⟨d', hd', hname, _⟩ := h.exists_struct hn' hs hs' hid
      rw [hd']
      exact hname
  · unfold Schema.fieldsOf
    cases hid : s.structs[id]? with
    | none =>
      rw [hnone id hid]
      exact .nil
    | some d =>
      obtain ⟨d', hd', _, hfields⟩ := h.exists_struct hn' hs hs' hid
      rw [hd']
      exact hfields

end IsPartOf

/-- A message has the type that its name denotes. -/
theorem ResolvesTo.denotes_message {s : Schema} (hs : src.ResolvesTo s) {m : Message}
    (hm : m ∈ s.messages) : ∃ pos, src.Denotes (.named m.name pos) m.ty := by
  rw [hs.messages] at hm
  obtain ⟨d, hd, rfl⟩ := List.mem_map.mp hm
  obtain ⟨decl, _, hdenotes⟩ := Result.exists_of_mem_right hs.declarations (List.mem_filter.mp hd).1
  refine ⟨decl.pos, ?_⟩
  rw [hdenotes.name]
  exact hdenotes.ty

theorem IsPartOf.message_eq (h : src.IsPartOf src') (hn' : src'.WellNamed) {s s' : Schema}
    (hs : src.ResolvesTo s) (hs' : src'.ResolvesTo s') {m m' : Message} (hm : m ∈ s.messages)
    (hm' : m' ∈ s'.messages) (hname : m'.name = m.name) :
    m' = m.renumber (src'.numberIn src) := by
  obtain ⟨pos, hd⟩ := hs.denotes_message hm
  obtain ⟨pos', hd'⟩ := hs'.denotes_message hm'
  rw [hname] at hd'
  have hsame : (TypeExpr.named m.name pos').unplaced = (TypeExpr.named m.name pos).unplaced := rfl
  have hty := hn'.denotes_unique hd' (h.denotes hn' hd hsame)
  obtain ⟨name', ty'⟩ := m'
  subst hname
  subst hty
  rfl

end Source

/-! ## Files -/

theorem Selection.generateWith_supports (sel : Selection) (language : Language) :
    sel.generateWith language language.supports
      = .ok ⟨language, language.fileName sel.package, sel.source language⟩ := by
  have hnone : sel.primitives.find? (fun p => !(language.backend language.supports).supports p)
      = none :=
    List.find?_eq_none.mpr fun p _ => by simp [Language.backend, Language.supports]
  rw [generateWith, Backend.generate, hnone]
  rfl

/-- **The files are the same**, in every language. -/
theorem Selection.Embeds.generateWith_eq {σ : Nat → Nat} {sel sel' : Selection}
    (h : sel.Embeds σ sel') (language : Language) :
    sel'.generateWith language language.supports = sel.generateWith language language.supports := by
  rw [generateWith_supports, generateWith_supports, h.package]
  cases language with
  | rust => rw [source, source, RustCode.source_renumber h]
  | cpp => rw [source, source, CppCode.source_renumber h]

namespace Compiled

/-- What a source has become; `s` is its schema before canonical order. -/
structure ComesFrom (c : Compiled) (src : Source) (s : Schema) : Prop where
  wellNamed : src.WellNamed
  resolvesTo : src.ResolvesTo s
  inRange : s.InRange
  acyclic : s.Acyclic
  schema : c.schema = s.canonical
  analyze : s.canonical.analyze = .ok c.analysis

theorem exists_comesFrom {text : String} {src : Source} {c : Compiled}
    (hread : (Token.scan text >>= Source.ofTokens) = .ok src) (hc : compile text = .ok c) :
    ∃ s, c.ComesFrom src s := by
  obtain ⟨s, hparse, hc⟩ := Result.bind_eq_ok.mp hc
  obtain ⟨_, hcheck, hc⟩ := Result.bind_eq_ok.mp hc
  obtain ⟨a, ha, hc⟩ := Result.bind_eq_ok.mp hc
  injection hc with hc
  subst hc
  have hrange := (Schema.declared_of_parse hparse).inRange
  have hsound := Schema.sound_of_check hrange hcheck
  obtain ⟨tokens, hscan, hresolve⟩ := Result.bind_eq_ok.mp hparse
  obtain ⟨found, hfound, hresolve⟩ := Result.bind_eq_ok.mp hresolve
  obtain rfl : found = src :=
    Except.ok.inj ((Result.bind_eq_ok.mpr ⟨tokens, hscan, hfound⟩).symm.trans hread)
  obtain ⟨hresolvable, hto⟩ := Source.resolve_eq_ok hresolve
  exact ⟨s, hresolvable.toWellNamed, hto, hrange, hsound.acyclic, rfl, ha⟩

/-- **A message is selected alike from a source and from a longer one.** -/
theorem ComesFrom.embeds_select {src src' : Source} {c c' : Compiled} {s s' : Schema}
    (h : src.IsPartOf src') (hc : c.ComesFrom src s) (hc' : c'.ComesFrom src' s') {m m' : Message}
    (hm : m ∈ s.messages) (hm' : m' ∈ s'.messages) (hname : m'.name = m.name) (options : Options) :
    (c.select [m] options).Embeds (src'.numberIn src) (c'.select [m'] options) := by
  obtain ⟨rank, hr⟩ := hc.acyclic.exists_rank hc.inRange
  obtain ⟨rank', hr'⟩ := hc'.acyclic.exists_rank hc'.inRange
  have hrange := Schema.inRange_canonical hc.inRange
  have hembeds := (h.embeds hc'.wellNamed hc.wellNamed hc.resolvesTo hc'.resolvesTo).canonical
    hc.inRange hr hc'.inRange hr'
  -- canonical order has ranks and layouts of its own
  obtain ⟨rank, hr⟩ := s.rearranged_canonical.exists_rank hc.inRange hr
  obtain ⟨rank', hr'⟩ := s'.rearranged_canonical.exists_rank hc'.inRange hr'
  obtain ⟨L, hL, ha⟩ := hr.analyze_eq hrange
  obtain ⟨L', hL', ha'⟩ := hr'.analyze_eq (Schema.inRange_canonical hc'.inRange)
  have hanalysis := Except.ok.inj (hc.analyze.symm.trans ha)
  have hanalysis' := Except.ok.inj (hc'.analyze.symm.trans ha')
  have hmessage := h.message_eq hc'.wellNamed hc.resolvesTo hc'.resolvesTo hm hm' hname
  obtain ⟨schema, analysis⟩ := c
  obtain ⟨schema', analysis'⟩ := c'
  obtain rfl : schema = s.canonical := hc.schema
  obtain rfl : schema' = s'.canonical := hc'.schema
  refine ⟨hembeds, ?_, rfl, congrArg (· :: []) hmessage, ?_, fun id => ?_⟩
  · have hpackage : s'.package = s.package := by
      rw [hc.resolvesTo.package, hc'.resolvesTo.package, h.package]
    exact congrArg options.package.getD hpackage
  · have hty : ∀ t ∈ [m.ty], t.InRange s.canonical.structs.length :=
      List.forall_mem_singleton.mpr (hrange.messages m hm)
    rw [hmessage]
    exact hembeds.reachable hr hty
  · have hlayout := hembeds.layout_eq hr hL hL' id
    rw [← hL.structLayout, ← hL'.structLayout, ← hanalysis, ← hanalysis'] at hlayout
    exact hlayout

theorem exists_message {c : Compiled} {message : String} (h : message ∈ c.messageNames) :
    ∃ m ∈ c.schema.messages, m.name = message ∧ ∀ language options,
      c.generateMessage language message options
        = (c.select [m] options).generateWith language language.supports := by
  cases hfound : c.schema.message? message with
  | none =>
    obtain ⟨m, hm, hname⟩ := List.mem_map.mp h
    exact absurd hname (by simpa using List.find?_eq_none.mp hfound m hm)
  | some m =>
    obtain ⟨hm, hname⟩ := Schema.mem_of_message? hfound
    refine ⟨m, hm, hname, fun language options => ?_⟩
    rw [generateMessage, Schema.findMessage_eq_ok.mpr hfound]
    rfl

/--
**The file for a message does not depend on unrelated declarations.** Two texts are compiled, and
all that the first declares is also declared by the second, under the same package name, in any order
and among any further declarations. Then for every message of the first that is one of the second
too, in every language and under all options, code is generated from both, and it is the same file.
-/
theorem generateMessage_ignores_unrelated {text text' : String} {src src' : Source}
    {c c' : Compiled} (hread : (Token.scan text >>= Source.ofTokens) = .ok src)
    (hread' : (Token.scan text' >>= Source.ofTokens) = .ok src') (hpart : src.IsPartOf src')
    (hc : compile text = .ok c) (hc' : compile text' = .ok c') {message : String}
    (hm : message ∈ c.messageNames) (hm' : message ∈ c'.messageNames) (language : Language)
    (options : Options) :
    ∃ file, c.generateMessage language message options = .ok file
      ∧ c'.generateMessage language message options = .ok file := by
  obtain ⟨s, hs⟩ := exists_comesFrom hread hc
  obtain ⟨s', hs'⟩ := exists_comesFrom hread' hc'
  obtain ⟨m, hmem, hname, hfile⟩ := exists_message hm
  obtain ⟨m', hmem', hname', hfile'⟩ := exists_message hm'
  rw [hs.schema] at hmem
  rw [hs'.schema] at hmem'
  have hembeds := hs.embeds_select hpart hs' hmem hmem' (hname'.trans hname.symm) options
  refine ⟨_, (hfile language options).trans (Selection.generateWith_supports _ language), ?_⟩
  rw [hfile', hembeds.generateWith_eq, Selection.generateWith_supports]

end Compiled

/-! ### Two texts -/

theorem Schema.parse_of_read {text : String} {src : Source} {s : Schema}
    (hread : (Token.scan text >>= Source.ofTokens) = .ok src) (hresolve : src.resolve = .ok s) :
    Schema.parse text = .ok s := by
  obtain ⟨tokens, hscan, hsource⟩ := Result.bind_eq_ok.mp hread
  exact Result.bind_eq_ok.mpr ⟨tokens, hscan, Result.bind_eq_ok.mpr ⟨src, hsource, hresolve⟩⟩

def deviceText : String :=
  "package fleet\n" ++
  "type Device struct \x7b At Point \x7d\n" ++
  "type Point struct \x7b X int8 \x7d\n"

def deviceSource : Source where
  package := "fleet"
  decls := [
    ⟨"Device", ⟨2, 6⟩, .struct [⟨"At", ⟨2, 22⟩, .named "Point" ⟨2, 25⟩, none⟩]⟩,
    ⟨"Point", ⟨3, 6⟩, .struct [⟨"X", ⟨3, 21⟩, .named "int8" ⟨3, 23⟩, none⟩]⟩]

def deviceSchema : Schema where
  package := "fleet"
  structs := [
    ⟨"Device", ⟨2, 6⟩, [⟨"At", ⟨2, 22⟩, .struct 1 false, none⟩]⟩,
    ⟨"Point", ⟨3, 6⟩, [⟨"X", ⟨3, 21⟩, .primitive (.number .int8) false, none⟩]⟩]
  declarations := [⟨"Device", ⟨2, 6⟩, .struct 0 false⟩, ⟨"Point", ⟨3, 6⟩, .struct 1 false⟩]
  messages := [⟨"Device", .struct 0 false⟩]

/-- The same, with a struct in front that uses one of the structs and an alias in between. -/
def loggedText : String :=
  "package fleet\n" ++
  "type Log struct \x7b Last *Point \x7d\n" ++
  "type Device struct \x7b At Point \x7d\n" ++
  "type Count int32\n" ++
  "type Point struct \x7b X int8 \x7d\n"

def loggedSource : Source where
  package := "fleet"
  decls := [
    ⟨"Log", ⟨2, 6⟩, .struct [⟨"Last", ⟨2, 19⟩, .optional (.named "Point" ⟨2, 25⟩), none⟩]⟩,
    ⟨"Device", ⟨3, 6⟩, .struct [⟨"At", ⟨3, 22⟩, .named "Point" ⟨3, 25⟩, none⟩]⟩,
    ⟨"Count", ⟨4, 6⟩, .alias (.named "int32" ⟨4, 12⟩)⟩,
    ⟨"Point", ⟨5, 6⟩, .struct [⟨"X", ⟨5, 21⟩, .named "int8" ⟨5, 23⟩, none⟩]⟩]

def loggedSchema : Schema where
  package := "fleet"
  structs := [
    ⟨"Log", ⟨2, 6⟩, [⟨"Last", ⟨2, 19⟩, .struct 2 true, none⟩]⟩,
    ⟨"Device", ⟨3, 6⟩, [⟨"At", ⟨3, 22⟩, .struct 2 false, none⟩]⟩,
    ⟨"Point", ⟨5, 6⟩, [⟨"X", ⟨5, 21⟩, .primitive (.number .int8) false, none⟩]⟩]
  declarations := [
    ⟨"Log", ⟨2, 6⟩, .struct 0 false⟩, ⟨"Device", ⟨3, 6⟩, .struct 1 false⟩,
    ⟨"Count", ⟨4, 6⟩, .primitive (.number .int32) false⟩, ⟨"Point", ⟨5, 6⟩, .struct 2 false⟩]
  messages := [
    ⟨"Log", .struct 0 false⟩, ⟨"Device", .struct 1 false⟩,
    ⟨"Count", .primitive (.number .int32) false⟩]

theorem generateMessage_ignores_unrelated_device :
    ∃ c c', compile deviceText = .ok c ∧ compile loggedText = .ok c'
      ∧ deviceSource.IsPartOf loggedSource
      ∧ c.schema.message? "Device" = some ⟨"Device", .struct 0 false⟩
      ∧ c'.schema.message? "Device" = some ⟨"Device", .struct 1 false⟩
      ∧ ∀ language options, ∃ file, c.generateMessage language "Device" options = .ok file
        ∧ c'.generateMessage language "Device" options = .ok file := by
  have hread : (Token.scan deviceText >>= Source.ofTokens) = .ok deviceSource := by decide +kernel
  have hread' : (Token.scan loggedText >>= Source.ofTokens) = .ok loggedSource := by decide +kernel
  have hpart : deviceSource.IsPartOf loggedSource := ⟨rfl, by decide⟩
  have hparse : Schema.parse deviceText = .ok deviceSchema :=
    Schema.parse_of_read hread (by decide +kernel)
  have hparse' : Schema.parse loggedText = .ok loggedSchema :=
    Schema.parse_of_read hread' (by decide +kernel)
  have hc := compile_of_ordered hparse (by decide) (by decide) rfl
  have hc' := compile_of_ordered hparse' (by decide) (by decide) rfl
  exact ⟨_, _, hc, hc', hpart, by decide, by decide, fun language options =>
    Compiled.generateMessage_ignores_unrelated hread hread' hpart hc hc' (by decide) (by decide)
      language options⟩

end WireSchema
