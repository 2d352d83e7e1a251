import WireSchema.Proofs.Reachable
import WireSchema.Proofs.WellFormed

/-!
# Names that can be used

Every name of a schema was read as an identifier, so it is made of ASCII letters, digits and
underscores and does not start with a digit. Generated code does not use these names as they are. It
puts them into another case, and then an underscore behind those that are taken. What becomes of an
identifier is this:

* `snake_case` keeps it an identifier. A field is `_` in generated code if it is `_` in the schema,
  and a name that can be used otherwise.
* `PascalCase` drops the underscores. What is left need not be an identifier any more: it starts with
  whatever stood behind the underscores in front, which may be a digit or nothing.

So the types of messages, which start with a capital, can always be used, and **the names that cannot
are those of fields called `_` and of types without a letter behind the underscores in front**.
Nothing that is checked of a schema rules them out.
-/

namespace WireSchema

open Grammar (isIdentifier)
open Piece (isWordStart isWordChar)

/-! ## Names that were read -/

/-- The names of the fields in the body of a declaration. -/
def DeclBody.fieldNames : DeclBody → List String
  | .struct fields => fields.map (·.name)
  | .alias _ => []

/-- The names that a declaration gives to things. -/
def DeclExpr.given (d : DeclExpr) : List String :=
  d.name :: d.body.fieldNames

/-- Declarations that give identifiers as names. -/
def AreNamed (decls : List DeclExpr) : Prop :=
  ∀ d ∈ decls, ∀ name ∈ d.given, isIdentifier name = true

namespace Grammar

theorem isIdentifier_of_moreNames {c c' : Cursor} {done names : List Token}
    (h : moreNames c done = .ok (names, c')) (hdone : ∀ t ∈ done, isIdentifier t.text = true) :
    ∀ t ∈ names, isIdentifier t.text = true := by
  fun_induction moreNames c done with
  | case1 => simp at h
  | case2 c done _ name after hexp _ ih =>
    obtain ⟨_, hname, _⟩ := reaches_of_expect hexp
    exact ih h (List.forall_mem_cons.mpr ⟨hname, hdone⟩)
  | case3 c done _ =>
    simp only [Except.ok.injEq, Prod.mk.injEq] at h
    intro t ht
    exact hdone t (List.mem_reverse.mp (h.1 ▸ ht))

theorem isIdentifier_of_fieldGroup {c c' : Cursor} {fs : List FieldExpr}
    (h : fieldGroup c = .ok (fs, c')) : ∀ f ∈ fs, isIdentifier f.name = true := by
  unfold fieldGroup at h
  split at h
  · simp at h
  · obtain ⟨⟨first, c₁⟩, hfirst, h₁⟩ := Result.bind_eq_ok.mp h
    dsimp only at h₁
    split at h₁
    · simp at h₁
    · obtain ⟨⟨names, c₂⟩, hnames, h₂⟩ := Result.bind_eq_ok.mp h₁
      obtain ⟨⟨type, c₃⟩, _, h₃⟩ := Result.bind_eq_ok.mp h₂
      obtain ⟨c₄, _, h₄⟩ := Result.bind_eq_ok.mp h₃
      simp only [pure, Except.pure, Except.ok.injEq, Prod.mk.injEq] at h₄
      have hfirst := (reaches_of_expect hfirst).2.1
      rw [← h₄.1, List.forall_mem_map]
      exact isIdentifier_of_moreNames hnames (List.forall_mem_singleton.mpr hfirst)

theorem isIdentifier_of_fields {c c' : Cursor} {done fs : List FieldExpr}
    (h : fields c done = .ok (fs, c')) (hdone : ∀ f ∈ done, isIdentifier f.name = true) :
    ∀ f ∈ fs, isIdentifier f.name = true := by
  fun_induction fields c done with
  | case1 c done _ =>
    simp only [Except.ok.injEq, Prod.mk.injEq] at h
    intro f hf
    exact hdone f (List.mem_reverse.mp (h.1 ▸ hf))
  | case2 => simp at h
  | case3 c done _ group after hgroup _ ih =>
    refine ih h (List.forall_mem_append.mpr ⟨fun f hf => ?_, hdone⟩)
    exact isIdentifier_of_fieldGroup hgroup f (List.mem_reverse.mp hf)

theorem isIdentifier_of_declBody {c c' : Cursor} {body : DeclBody}
    (h : declBody c = .ok (body, c')) : ∀ name ∈ body.fieldNames, isIdentifier name = true := by
  unfold declBody at h
  split at h
  · obtain ⟨⟨fs, c₁⟩, hbody, he⟩ := Result.map_eq_ok.mp h
    obtain ⟨_, _, hfields⟩ := Result.bind_eq_ok.mp hbody
    simp only [Prod.mk.injEq] at he
    rw [← he.1, DeclBody.fieldNames, List.forall_mem_map]
    exact isIdentifier_of_fields hfields (List.forall_mem_nil _)
  · obtain ⟨⟨e, c₁⟩, _, he⟩ := Result.map_eq_ok.mp h
    simp only [Prod.mk.injEq] at he
    rw [← he.1]
    exact List.forall_mem_nil _

theorem isIdentifier_of_typeSpec {c c' : Cursor} {decl : DeclExpr}
    (h : typeSpec c = .ok (decl, c')) : ∀ name ∈ decl.given, isIdentifier name = true := by
  obtain ⟨⟨name, c₁⟩, hname, h₁⟩ := Result.bind_eq_ok.mp h
  obtain ⟨⟨body, c₂⟩, hbody, h₂⟩ := Result.bind_eq_ok.mp h₁
  simp only [pure, Except.pure, Except.ok.injEq, Prod.mk.injEq] at h₂
  rw [← h₂.1]
  exact List.forall_mem_cons.mpr
    ⟨(reaches_of_expect hname).2.1, isIdentifier_of_declBody hbody⟩

theorem areNamed_of_group {c c' : Cursor} {done decls : List DeclExpr}
    (h : group c done = .ok (decls, c')) (hdone : AreNamed done) : AreNamed decls := by
  fun_induction group c done with
  | case1 c done _ =>
    simp only [Except.ok.injEq, Prod.mk.injEq] at h
    intro d hd
    exact hdone d (List.mem_reverse.mp (h.1 ▸ hd))
  | case2 => simp at h
  | case3 c done _ decl after hspec _ ih =>
    obtain ⟨⟨d, c₁⟩, htype, h₁⟩ := Result.bind_eq_ok.mp hspec
    obtain ⟨c₂, _, h₂⟩ := Result.bind_eq_ok.mp h₁
    simp only [pure, Except.pure, Except.ok.injEq, Prod.mk.injEq] at h₂
    exact ih h (List.forall_mem_cons.mpr ⟨h₂.1 ▸ isIdentifier_of_typeSpec htype, hdone⟩)

theorem areNamed_of_typeStatement {c c' : Cursor} {decls : List DeclExpr}
    (h : typeStatement c = .ok (decls, c')) : AreNamed decls := by
  obtain ⟨_, _, h₁⟩ := Result.bind_eq_ok.mp h
  obtain ⟨⟨specs, c₂⟩, hspecs, h₂⟩ := Result.bind_eq_ok.mp h₁
  obtain ⟨c₃, _, h₃⟩ := Result.bind_eq_ok.mp h₂
  simp only [pure, Except.pure, Except.ok.injEq, Prod.mk.injEq] at h₃
  rw [← h₃.1]
  unfold typeSpecs at hspecs
  split at hspecs
  · exact areNamed_of_group hspecs (List.forall_mem_nil _)
  · obtain ⟨⟨decl, c₄⟩, hspec, he⟩ := Result.map_eq_ok.mp hspecs
    simp only [Prod.mk.injEq] at he
    rw [← he.1]
    exact List.forall_mem_singleton.mpr (isIdentifier_of_typeSpec hspec)

theorem areNamed_of_declarations {c : Cursor} {done decls : List DeclExpr}
    (h : declarations c done = .ok decls) (hdone : AreNamed done) : AreNamed decls := by
  fun_induction declarations c done with
  | case1 c done _ =>
    simp only [Except.ok.injEq] at h
    intro d hd
    exact hdone d (List.mem_reverse.mp (h ▸ hd))
  | case2 => simp at h
  | case3 c done _ found after hstatement _ ih =>
    refine ih h (List.forall_mem_append.mpr ⟨fun d hd => ?_, hdone⟩)
    exact areNamed_of_typeStatement hstatement d (List.mem_reverse.mp hd)

end Grammar

theorem Source.areNamed_of_ofTokens {tokens : List Token} {src : Source}
    (h : Source.ofTokens tokens = .ok src) : AreNamed src.decls := by
  unfold ofTokens at h
  split at h
  · simp at h
  · obtain ⟨⟨package, c⟩, _, h₁⟩ := Result.bind_eq_ok.mp h
    obtain ⟨decls, hdecls, h₂⟩ := Result.bind_eq_ok.mp h₁
    simp only [pure, Except.pure, Except.ok.injEq] at h₂
    rw [← h₂]
    exact Grammar.areNamed_of_declarations hdecls (List.forall_mem_nil _)

/-- All names in a schema are identifiers. -/
structure Schema.Named (s : Schema) : Prop where
  declarations : ∀ d ∈ s.declarations, isIdentifier d.name = true
  structs : ∀ d ∈ s.structs, isIdentifier d.name = true
  fields : ∀ d ∈ s.structs, ∀ f ∈ d.fields, isIdentifier f.name = true
  messages : ∀ m ∈ s.messages, isIdentifier m.name = true

namespace Schema

variable {s : Schema}

theorem named_of_parse {text : String} (h : Schema.parse text = .ok s) : s.Named := by
  have hmessages := (declared_of_parse h).messages
  obtain ⟨tokens, _, h⟩ := Result.bind_eq_ok.mp h
  obtain ⟨src, hsrc, h⟩ := Result.bind_eq_ok.mp h
  obtain ⟨_, hto⟩ := Source.resolve_eq_ok h
  have hnamed := Source.areNamed_of_ofTokens hsrc
  have hdeclarations : ∀ d ∈ s.declarations, isIdentifier d.name = true := by
    intro d hd
    obtain ⟨decl, hmem, hdenotes⟩ := Result.exists_of_mem_right hto.declarations hd
    rw [hdenotes.name]
    exact hnamed decl hmem _ List.mem_cons_self
  refine ⟨hdeclarations, fun d hd => ?_, fun d hd f hf => ?_, fun m hm => ?_⟩
  · obtain ⟨decl, hmem, hstruct⟩ := Result.exists_of_mem_right hto.structs hd
    rw [hstruct.name]
    exact hnamed decl (Source.mem_structDecls.mp hmem).1 _ List.mem_cons_self
  · obtain ⟨decl, hmem, hstruct⟩ := Result.exists_of_mem_right hto.structs hd
    obtain ⟨fields, hbody, hfields⟩ := hstruct.fields
    obtain ⟨f', hf', hdenotes⟩ := Result.exists_of_mem_right hfields hf
    rw [hdenotes.name]
    refine hnamed decl (Source.mem_structDecls.mp hmem).1 _ (List.mem_cons_of_mem _ ?_)
    rw [hbody]
    exact List.mem_map.mpr ⟨f', hf', rfl⟩
  · obtain ⟨d, hd, rfl⟩ := List.mem_map.mp (hmessages.subset hm)
    exact hdeclarations d hd

theorem Named.canonical (h : s.Named) : s.canonical.Named := by
  refine ⟨h.declarations, fun d hd => ?_, fun d hd f hf => ?_, h.messages⟩
  · obtain ⟨id, hid⟩ := List.mem_iff_getElem?.mp hd
    obtain ⟨d₀, hd₀, hname, _⟩ := getElem?_canonical hid
    rw [hname]
    exact h.structs d₀ (List.mem_of_getElem? hd₀)
  · obtain ⟨d₀, hd₀, hfields⟩ := mem_canonical hd
    rw [hfields] at hf
    exact h.fields d₀ hd₀ f (List.mem_mergeSort.mp hf)

end Schema

/-- **All names in a compiled schema are identifiers.** -/
theorem Compiled.named_of_compile {text : String} {c : Compiled} (h : compile text = .ok c) :
    c.schema.Named := by
  obtain ⟨s, hparse, h⟩ := Result.bind_eq_ok.mp h
  obtain ⟨_, _, h⟩ := Result.bind_eq_ok.mp h
  obtain ⟨a, _, h⟩ := Result.bind_eq_ok.mp h
  injection h with h
  subst h
  exact (Schema.named_of_parse hparse).canonical

/-! ## Characters of identifiers -/

/-- What holds of all 128 characters of ASCII. -/
theorem Text.of_isAscii (test : Char → Bool)
    (h : (List.range 128).all (fun n => test (Char.ofNat n)) = true) {c : Char}
    (hc : isAscii c = true) : test c = true := by
  have hmem : c.toNat ∈ List.range 128 := List.mem_range.mpr (of_decide_eq_true hc)
  have htest := List.all_eq_true.mp h _ hmem
  rwa [Char.ofNat_toNat] at htest

namespace Piece

theorem isAscii_of_isWordChar {c : Char} (h : isWordChar c = true) : Text.isAscii c = true := by
  rcases (Bool.or_eq_true _ _).mp h with h | h
  · have hbound : ∀ last : Char, last.val.toNat < 128 → c.val ≤ last.val → c.val.toNat < 128 := by
      intro last hlast hle
      have := UInt32.le_iff_toNat_le.mp hle
      omega
    refine decide_eq_true ?_
    rcases (Bool.or_eq_true _ _).mp h with halpha | hdigit
    · rcases (Bool.or_eq_true _ _).mp halpha with hupper | hlower
      · exact hbound 'Z' (by decide) (of_decide_eq_true hupper).2
      · exact hbound 'z' (by decide) (of_decide_eq_true ((Bool.and_eq_true _ _).mp hlower).2)
    · exact hbound '9' (by decide) (of_decide_eq_true ((Bool.and_eq_true _ _).mp hdigit).2)
  · rw [eq_of_beq h]
    decide

/-- What becomes of a character of an identifier in the other case. -/
structure KeepsCase (c : Char) : Prop where
  lower : isWordChar c.toLower = true
  lowerStart : isWordStart c = true → isWordStart c.toLower = true
  lowerUnderscore : c.toLower = '_' → c = '_'
  lowerAlphanum : c.isAlphanum = true → c.toLower.isAlphanum = true
  upperAlphanum : c.isAlphanum = true → c.toUpper.isAlphanum = true
  upperAlpha : c.toUpper.isAlpha = c.isAlpha

theorem keepsCase_of_isWordChar {c : Char} (h : isWordChar c = true) : KeepsCase c := by
  have htest := Text.of_isAscii (fun c => decide (isWordChar c = true →
      isWordChar c.toLower = true ∧ (isWordStart c = true → isWordStart c.toLower = true) ∧
      (c.toLower = '_' → c = '_') ∧ (c.isAlphanum = true → c.toLower.isAlphanum = true) ∧
      (c.isAlphanum = true → c.toUpper.isAlphanum = true) ∧ c.toUpper.isAlpha = c.isAlpha))
    (by decide +kernel) (isAscii_of_isWordChar h)
  obtain ⟨h₁, h₂, h₃, h₄, h₅, h₆⟩ := of_decide_eq_true htest h
  exact ⟨h₁, h₂, h₃, h₄, h₅, h₆⟩

end Piece

namespace Text

variable {c : Char} {cs : List Char}

theorem upperChar_of_isWordChar (h : isWordChar c = true) : upperChar c = [c.toUpper] :=
  if_pos (Piece.isAscii_of_isWordChar h)

theorem lowerChar_of_isWordChar (h : isWordChar c = true) : lowerChar c = [c.toLower] :=
  if_pos (Piece.isAscii_of_isWordChar h)

theorem lowerAfter_of_isWordChar (h : ∀ c ∈ cs, isWordChar c = true) (before : List Char) :
    lowerAfter before cs = cs.map Char.toLower := by
  induction cs generalizing before with
  | nil => rfl
  | cons c cs ih =>
    obtain ⟨hc, hcs⟩ := List.forall_mem_cons.mp h
    have hsigma : c ≠ 'Σ' := by
      rintro rfl
      exact absurd hc (by decide)
    rw [lowerAfter, lowerWithin, if_neg hsigma, lowerChar_of_isWordChar hc, ih hcs]
    rfl

theorem lower_of_isWordChar (h : ∀ c ∈ cs, isWordChar c = true) : lower cs = cs.map Char.toLower :=
  lowerAfter_of_isWordChar h []

end Text

namespace Grammar

theorem isIdentifier_iff {name : String} : isIdentifier name = true ↔
    (∃ c rest, name.toList = c :: rest ∧ isWordStart c = true) ∧
      ∀ c ∈ name.toList, isWordChar c = true := by
  unfold isIdentifier
  cases hname : name.toList with
  | nil => simp
  | cons c rest =>
    have hstart : isWordStart c = true → isWordChar c = true := by
      unfold isWordStart isWordChar Char.isAlphanum
      grind
    dsimp only
    rw [Bool.and_eq_true, List.all_eq_true, List.forall_mem_cons]
    constructor
    · intro ⟨hc, hrest⟩
      exact ⟨⟨c, rest, rfl, hc⟩, hstart hc, hrest⟩
    · rintro ⟨⟨_, _, heq, hc⟩, _, hrest⟩
      injection heq with hhead htail
      exact ⟨hhead ▸ hc, hrest⟩

end Grammar

namespace Naming

/-! ## `snake_case` -/

/-- What a character becomes by itself. -/
def snakeChar (c : Char) : Char :=
  if Text.isUppercase c then c.toLower else c

theorem snakeAfter_cons {c : Char} (h : isWordChar c = true) (previous : Option Char)
    (rest : List Char) : ∃ front, (front = [] ∨ front = ['_'] ∧ previous ≠ none) ∧
      snakeAfter previous (c :: rest) = front ++ snakeChar c :: snakeAfter (some c) rest := by
  simp only [snakeAfter, snakeChar]
  split
  · rw [Text.lowerChar_of_isWordChar h]
    split
    · rename_i hword
      refine ⟨['_'], .inr ⟨rfl, ?_⟩, rfl⟩
      rintro rfl
      exact absurd hword (by simp [startsWord])
    · exact ⟨[], .inl rfl, rfl⟩
  · exact ⟨[], .inl rfl, rfl⟩

theorem isWordChar_snakeChar {c : Char} (h : isWordChar c = true) :
    isWordChar (snakeChar c) = true := by
  unfold snakeChar
  split
  · exact (Piece.keepsCase_of_isWordChar h).lower
  · exact h

theorem isWordChar_of_mem_snakeAfter {cs : List Char} (h : ∀ c ∈ cs, isWordChar c = true)
    (previous : Option Char) : ∀ c ∈ snakeAfter previous cs, isWordChar c = true := by
  induction cs generalizing previous with
  | nil => exact List.forall_mem_nil _
  | cons c cs ih =>
    obtain ⟨hc, hcs⟩ := List.forall_mem_cons.mp h
    obtain ⟨front, hfront, heq⟩ := snakeAfter_cons hc previous cs
    rw [heq]
    refine List.forall_mem_append.mpr ⟨?_, List.forall_mem_cons.mpr
      ⟨isWordChar_snakeChar hc, ih hcs (some c)⟩⟩
    rcases hfront with rfl | ⟨rfl, _⟩
    · exact List.forall_mem_nil _
    · exact List.forall_mem_singleton.mpr (by decide)

/-- The first character of an identifier stays where it is. -/
theorem toList_snake {name : String} {c : Char} {rest : List Char} (hname : name.toList = c :: rest)
    (hc : isWordChar c = true) :
    (snake name).toList = snakeChar c :: snakeAfter (some c) rest := by
  obtain ⟨front, hfront, heq⟩ := snakeAfter_cons hc none rest
  have hfront : front = [] := hfront.resolve_right fun h => h.2 rfl
  rw [snake, String.toList_ofList, hname, heq, hfront]
  rfl

/-- **`snake_case` keeps identifiers.** -/
theorem isIdentifier_snake {name : String} (h : isIdentifier name = true) :
    isIdentifier (snake name) = true := by
  obtain ⟨⟨c, rest, hname, hstart⟩, hchars⟩ := Grammar.isIdentifier_iff.mp h
  have hc : isWordChar c = true := hchars c (hname ▸ List.mem_cons_self)
  refine Grammar.isIdentifier_iff.mpr ⟨⟨_, _, toList_snake hname hc, ?_⟩, ?_⟩
  · unfold snakeChar
    split
    · exact (Piece.keepsCase_of_isWordChar hc).lowerStart hstart
    · exact hstart
  · rw [snake, String.toList_ofList]
    exact isWordChar_of_mem_snakeAfter hchars none

/-- Only an underscore becomes one. -/
theorem snake_eq_underscore {name : String} (h : isIdentifier name = true) :
    snake name = "_" ↔ name = "_" := by
  constructor
  · intro hsnake
    obtain ⟨⟨c, rest, hname, _⟩, hchars⟩ := Grammar.isIdentifier_iff.mp h
    have hc : isWordChar c = true := hchars c (hname ▸ List.mem_cons_self)
    have hlist := toList_snake hname hc
    rw [hsnake] at hlist
    injection hlist with hhead hrest
    have hunderscore : c = '_' := by
      unfold snakeChar at hhead
      split at hhead
      · exact (Piece.keepsCase_of_isWordChar hc).lowerUnderscore hhead.symm
      · exact hhead.symm
    -- a second character would become a second character
    have hnil : rest = [] := by
      cases rest with
      | nil => rfl
      | cons d rest =>
        obtain ⟨front, _, heq⟩ := snakeAfter_cons (hchars d (by simp [hname])) (some c) rest
        rw [heq] at hrest
        exact absurd hrest (by simp)
    rw [← String.ofList_toList (s := name), hname, hunderscore, hnil]
  · rintro rfl
    decide

/-! ## `PascalCase` -/

theorem words_ne_nil (cs : List Char) : words cs ≠ [] := by
  cases cs with
  | nil => simp [words]
  | cons c rest =>
    rw [words]
    split
    · simp
    · split
      · simp
      · simp

theorem words_cons (c : Char) (rest : List Char) : ∃ word more, words rest = word :: more ∧
    words (c :: rest) = if c = '_' then [] :: word :: more else (c :: word) :: more := by
  obtain ⟨word, more, hwords⟩ := List.exists_cons_of_ne_nil (words_ne_nil rest)
  exact ⟨word, more, hwords, by rw [words, hwords]⟩

/-- Words are made of the characters between the underscores. -/
theorem mem_of_mem_words {cs : List Char} :
    ∀ word ∈ words cs, ∀ c ∈ word, c ∈ cs ∧ c ≠ '_' := by
  induction cs with
  | nil => simp [words]
  | cons c rest ih =>
    obtain ⟨word, more, hwords, heq⟩ := words_cons c rest
    rw [hwords] at ih
    obtain ⟨hword, hmore⟩ := List.forall_mem_cons.mp ih
    have hwider : ∀ {d : Char}, d ∈ rest ∧ d ≠ '_' → d ∈ c :: rest ∧ d ≠ '_' :=
      fun h => ⟨List.mem_cons_of_mem _ h.1, h.2⟩
    rw [heq]
    split
    · refine List.forall_mem_cons.mpr ⟨List.forall_mem_nil _, ?_⟩
      exact fun w hw d hd => hwider (ih w hw d hd)
    · rename_i hc
      refine List.forall_mem_cons.mpr ⟨List.forall_mem_cons.mpr ⟨⟨List.mem_cons_self, hc⟩, ?_⟩, ?_⟩
      · exact fun d hd => hwider (hword d hd)
      · exact fun w hw d hd => hwider (hmore w hw d hd)

theorem isWordChar_of_isAlphanum {c : Char} (h : c.isAlphanum = true) : isWordChar c = true :=
  (Bool.or_eq_true _ _).mpr (.inl h)

theorem isAlphanum_of_isWordChar {c : Char} (h : isWordChar c = true) (hc : c ≠ '_') :
    c.isAlphanum = true :=
  ((Bool.or_eq_true _ _).mp h).resolve_right fun h => hc (eq_of_beq h)

theorem capitalize_cons {c : Char} (h : isWordChar c = true) (lowerRest : Bool)
    (rest : List Char) : capitalize lowerRest (c :: rest)
      = c.toUpper :: if lowerRest then Text.lower rest else rest := by
  rw [capitalize, Text.upperChar_of_isWordChar h]
  rfl

theorem isAlphanum_of_mem_capitalize {word : List Char} (h : ∀ c ∈ word, c.isAlphanum = true)
    (lowerRest : Bool) : ∀ c ∈ capitalize lowerRest word, c.isAlphanum = true := by
  cases word with
  | nil => exact List.forall_mem_nil _
  | cons c rest =>
    obtain ⟨hc, hrest⟩ := List.forall_mem_cons.mp h
    have hword := fun d hd => isWordChar_of_isAlphanum (hrest d hd)
    rw [capitalize_cons (isWordChar_of_isAlphanum hc)]
    refine List.forall_mem_cons.mpr ⟨?_, ?_⟩
    · exact (Piece.keepsCase_of_isWordChar (isWordChar_of_isAlphanum hc)).upperAlphanum hc
    · split
      · rw [Text.lower_of_isWordChar hword, List.forall_mem_map]
        exact fun d hd => (Piece.keepsCase_of_isWordChar (hword d hd)).lowerAlphanum (hrest d hd)
      · exact hrest

theorem head?_flatMap_words {cs : List Char} (h : ∀ c ∈ cs, isWordChar c = true) :
    ((words cs).flatMap (capitalize true)).head?
      = (cs.dropWhile (· == '_')).head?.map Char.toUpper := by
  induction cs with
  | nil => rfl
  | cons c rest ih =>
    obtain ⟨hc, hrest⟩ := List.forall_mem_cons.mp h
    obtain ⟨word, more, hwords, heq⟩ := words_cons c rest
    rw [heq]
    split
    · -- an empty word gives nothing, and its underscore is dropped
      rename_i hunderscore
      rw [← hwords, List.flatMap_cons, capitalize, List.nil_append, ih hrest, hunderscore,
        List.dropWhile_cons_of_pos (by decide)]
    · rename_i hother
      rw [List.flatMap_cons, capitalize_cons hc, List.cons_append, List.head?_cons,
        List.dropWhile_cons_of_neg (by simpa using hother)]
      rfl

variable {name : String}

/-- No underscore is left. -/
theorem isAlphanum_of_mem_pascal (h : isIdentifier name = true) :
    ∀ c ∈ (pascal name).toList, c.isAlphanum = true := by
  obtain ⟨_, hchars⟩ := Grammar.isIdentifier_iff.mp h
  unfold pascal
  dsimp only
  rw [String.toList_ofList]
  split
  · intro c hc
    obtain ⟨word, hword, hc⟩ := List.mem_flatMap.mp hc
    refine isAlphanum_of_mem_capitalize (fun d hd => ?_) true c hc
    obtain ⟨hmem, hne⟩ := mem_of_mem_words word hword d hd
    exact isAlphanum_of_isWordChar (hchars d hmem) hne
  · rename_i hunderscore
    refine isAlphanum_of_mem_capitalize (fun d hd => ?_) _
    refine isAlphanum_of_isWordChar (hchars d hd) fun hd' => hunderscore ?_
    exact List.contains_iff_mem.mpr (hd' ▸ hd)

/-- The first character is the one behind the underscores in front, as a capital. -/
theorem head?_pascal (h : isIdentifier name = true) :
    (pascal name).toList.head? = (name.toList.dropWhile (· == '_')).head?.map Char.toUpper := by
  obtain ⟨⟨c, rest, hname, _⟩, hchars⟩ := Grammar.isIdentifier_iff.mp h
  unfold pascal
  dsimp only
  rw [String.toList_ofList]
  split
  · exact head?_flatMap_words hchars
  · rename_i hunderscore
    have hc : c ≠ '_' := by
      rintro rfl
      exact hunderscore (List.contains_iff_mem.mpr (hname ▸ List.mem_cons_self))
    rw [hname] at hchars ⊢
    rw [capitalize_cons (hchars c List.mem_cons_self),
      List.dropWhile_cons_of_neg (by simpa using hc)]
    rfl

theorem pascal_ne_underscore (h : isIdentifier name = true) : pascal name ≠ "_" := by
  intro heq
  have hall := isAlphanum_of_mem_pascal h
  rw [heq] at hall
  exact absurd (hall '_' (by decide)) (by decide)

/-- There is a letter behind the underscores in front. -/
def leadsWithLetter (name : String) : Bool :=
  (name.toList.dropWhile (· == '_')).head?.any Char.isAlpha

/-- **`PascalCase` keeps identifiers that start with a letter**, underscores apart. -/
theorem isIdentifier_pascal (h : isIdentifier name = true) :
    isIdentifier (pascal name) = true ↔ leadsWithLetter name = true := by
  obtain ⟨_, hchars⟩ := Grammar.isIdentifier_iff.mp h
  have hall := isAlphanum_of_mem_pascal h
  have hhead := head?_pascal h
  unfold leadsWithLetter
  rw [Grammar.isIdentifier_iff, and_iff_left fun c hc => isWordChar_of_isAlphanum (hall c hc)]
  cases hfirst : (name.toList.dropWhile (· == '_')).head? with
  | none =>
    rw [hfirst, Option.map_none, List.head?_eq_none_iff] at hhead
    simp [hhead]
  | some c =>
    have hc : isWordChar c = true :=
      hchars c ((List.dropWhile_sublist _).subset (List.mem_of_head? hfirst))
    rw [hfirst, Option.map_some] at hhead
    obtain ⟨rest, hrest⟩ := List.head?_eq_some_iff.mp hhead
    have halnum : c.toUpper.isAlphanum = true := hall _ (hrest ▸ List.mem_cons_self)
    have hne : c.toUpper ≠ '_' := by
      intro heq
      rw [heq] at halnum
      exact absurd halnum (by decide)
    rw [Option.any_some, ← (Piece.keepsCase_of_isWordChar hc).upperAlpha, hrest]
    constructor
    · rintro ⟨_, _, heq, hstart⟩
      rw [← (List.cons.inj heq).1] at hstart
      exact ((Bool.or_eq_true _ _).mp hstart).resolve_right fun h => hne (eq_of_beq h)
    · intro halpha
      exact ⟨_, _, rfl, (Bool.or_eq_true _ _).mpr (.inl halpha)⟩

theorem leadsWithLetter_of_isExported (h : isExported name = true) : leadsWithLetter name = true := by
  unfold isExported at h
  unfold leadsWithLetter
  split at h
  · rename_i c rest hname
    have hc : c ≠ '_' := by
      rintro rfl
      exact absurd h (by decide)
    rw [hname, List.dropWhile_cons_of_neg (by simpa using hc), List.head?_cons, Option.any_some]
    exact (Bool.or_eq_true _ _).mpr (.inl h)
  · exact absurd h (by simp)

/-! ## Names that can be used -/

/-- A name that a language accepts: an identifier, which is neither the underscore by itself nor one
of its keywords. -/
structure IsLegal (keywords : List String) (name : String) : Prop where
  start : ∃ c rest, name.toList = c :: rest ∧ (c.isAlpha = true ∨ c = '_')
  chars : ∀ c ∈ name.toList, c.isAlphanum = true ∨ c = '_'
  ne_underscore : name ≠ "_"
  not_keyword : name ∉ keywords

theorem isLegal_iff {keywords : List String} : IsLegal keywords name ↔
    isIdentifier name = true ∧ name ≠ "_" ∧ name ∉ keywords := by
  have hstart : ∀ c : Char, (c.isAlpha = true ∨ c = '_') ↔ isWordStart c = true := by
    simp [isWordStart]
  have hchar : ∀ c : Char, (c.isAlphanum = true ∨ c = '_') ↔ isWordChar c = true := by
    simp [isWordChar]
  rw [Grammar.isIdentifier_iff]
  constructor
  · intro ⟨h₁, h₂, h₃, h₄⟩
    simp only [hstart, hchar] at h₁ h₂
    exact ⟨⟨h₁, h₂⟩, h₃, h₄⟩
  · intro ⟨⟨h₁, h₂⟩, h₃, h₄⟩
    simp only [← hstart, ← hchar] at h₁ h₂
    exact ⟨h₁, h₂, h₃, h₄⟩

/-- Words that are identifiers and do not end with an underscore. -/
def AreKeywords (keywords : List String) : Prop :=
  ∀ word ∈ keywords, isIdentifier word = true ∧ word.toList.getLast? ≠ some '_'

theorem areKeywords_rust : AreKeywords rustKeywords := by
  unfold AreKeywords
  decide +kernel

theorem areKeywords_cpp : AreKeywords cppKeywords := by
  unfold AreKeywords
  decide +kernel

section Escape

variable {keywords : List String} (hk : AreKeywords keywords)
include hk

/-- An identifier with an underscore behind it can be used. -/
theorem isLegal_append (h : isIdentifier name = true) : IsLegal keywords (name ++ "_") := by
  obtain ⟨⟨c, rest, hname, hstart⟩, hchars⟩ := Grammar.isIdentifier_iff.mp h
  have hlist : (name ++ "_").toList = name.toList ++ ['_'] := String.toList_append
  refine isLegal_iff.mpr ⟨Grammar.isIdentifier_iff.mpr ⟨⟨c, rest ++ ['_'], ?_, hstart⟩, ?_⟩, ?_, ?_⟩
  · rw [hlist, hname]
    rfl
  · rw [hlist]
    exact List.forall_mem_append.mpr ⟨hchars, List.forall_mem_singleton.mpr (by decide)⟩
  · intro heq
    have hlen := congrArg (fun s => s.toList.length) heq
    rw [hlist, hname] at hlen
    exact absurd hlen (by simp)
  · intro hmem
    refine (hk _ hmem).2 ?_
    rw [hlist]
    exact List.getLast?_concat

/-- **Escaping makes keywords usable**, and nothing else. -/
theorem isLegal_escape (name : String) :
    IsLegal keywords (escape keywords name) ↔ isIdentifier name = true ∧ name ≠ "_" := by
  unfold escape
  split
  · rename_i hmem
    obtain ⟨hname, hlast⟩ := hk name (List.contains_iff_mem.mp hmem)
    refine iff_of_true (isLegal_append hk hname) ⟨hname, ?_⟩
    rintro rfl
    exact hlast rfl
  · rename_i hmem
    rw [isLegal_iff, and_iff_left fun h => hmem (List.contains_iff_mem.mpr h)]

theorem escape_underscore : escape keywords "_" = "_" :=
  if_neg fun h => (hk _ (List.contains_iff_mem.mp h)).2 rfl

theorem isLegal_type (h : isIdentifier name = true) :
    IsLegal keywords (escape keywords (pascal name)) ↔ leadsWithLetter name = true := by
  rw [isLegal_escape hk, isIdentifier_pascal h, and_iff_left (pascal_ne_underscore h)]

theorem isLegal_snake (h : isIdentifier name = true) :
    IsLegal keywords (escape keywords (snake name)) ↔ name ≠ "_" := by
  rw [isLegal_escape hk, and_iff_right (isIdentifier_snake h), ne_eq, ne_eq, snake_eq_underscore h]

end Escape

theorem snake_underscore : snake "_" = "_" :=
  (snake_eq_underscore (by decide)).mpr rfl

theorem rustField_underscore : rustField "_" = "_" := by
  have hescape : escapeRust (snake "_") = "_" := by
    rw [snake_underscore]
    exact escape_underscore areKeywords_rust
  have hlocal : ¬ isRustLocal "_" = true := fun h => getLast?_of_isRustLocal h rfl
  unfold rustField
  dsimp only
  rw [hescape, if_neg hlocal]

theorem cppField_underscore : cppField "_" = "_" := by
  rw [cppField, snake_underscore]
  exact escape_underscore areKeywords_cpp

theorem isLegal_rustField (h : isIdentifier name = true) :
    IsLegal rustKeywords (rustField name) ↔ name ≠ "_" := by
  by_cases hname : name = "_"
  · rw [hname, rustField_underscore]
    exact iff_of_false (fun hlegal => hlegal.ne_underscore rfl) (fun hne => hne rfl)
  · have hlegal := (isLegal_snake areKeywords_rust h).mpr hname
    refine iff_of_true ?_ hname
    unfold rustField
    dsimp only
    split
    · exact isLegal_append areKeywords_rust (isLegal_iff.mp hlegal).1
    · exact hlegal

theorem isLegal_rustType (h : isIdentifier name = true) :
    IsLegal rustKeywords (rustType name) ↔ leadsWithLetter name = true := by
  rw [rustType, escapeRust, isLegal_type areKeywords_rust h]

theorem isLegal_cppType (h : isIdentifier name = true) :
    IsLegal cppKeywords (cppType name) ↔ leadsWithLetter name = true := by
  rw [cppType, escapeCpp, isLegal_type areKeywords_cpp h]

theorem isLegal_cppField (h : isIdentifier name = true) :
    IsLegal cppKeywords (cppField name) ↔ name ≠ "_" := by
  rw [cppField, escapeCpp, isLegal_snake areKeywords_cpp h]

end Naming

open Naming

/-- The name of a struct that types are made of. -/
theorem Schema.Named.structName {s : Schema} (h : s.Named) {id : Nat} (hid : id < s.structs.length) :
    isIdentifier (s.structName id) = true := by
  have hd := List.getElem?_eq_getElem hid
  rw [Schema.structName, hd]
  exact h.structs _ (List.mem_of_getElem? hd)

theorem Schema.Named.fieldsOf {s : Schema} (h : s.Named) (id : Nat) :
    ∀ f ∈ s.fieldsOf id, isIdentifier f.name = true := by
  unfold Schema.fieldsOf
  split
  · rename_i d hd
    exact h.fields d (List.mem_of_getElem? hd)
  · exact List.forall_mem_nil _

/--
**Which names of generated code can be used.** Whatever messages of a compiled schema code is
generated for: the type of a message can be used in both languages; that of a struct can be used
exactly if there is a letter behind the underscores in front of the struct's name; and a field can be
used exactly if it is not called `_`.
-/
theorem legal_names_of_compile {text : String} {c : Compiled} (hc : compile text = .ok c)
    {messages : List Message} (hsub : messages ⊆ c.schema.messages) (options : Options) :
    let sel := c.select messages options
    (∀ m ∈ sel.messages,
        IsLegal rustKeywords (rustType m.name) ∧ IsLegal cppKeywords (cppType m.name))
      ∧ ∀ id ∈ sel.structs,
        (IsLegal rustKeywords (RustCode.structType sel id) ↔
            leadsWithLetter (sel.schema.structName id) = true)
          ∧ (IsLegal cppKeywords (CppCode.structType sel id) ↔
            leadsWithLetter (sel.schema.structName id) = true)
          ∧ ∀ f ∈ sel.schema.fieldsOf id,
            (IsLegal rustKeywords (rustField f.name) ↔ f.name ≠ "_")
              ∧ (IsLegal cppKeywords (cppField f.name) ↔ f.name ≠ "_") := by
  have hnamed := Compiled.named_of_compile hc
  have hdeclared := (Compiled.wellFormed_of_compile hc).declared
  obtain ⟨rank, hlawful⟩ := Compiled.lawful_select hc hsub options
  refine ⟨fun m hm => ?_, fun id hid => ?_⟩
  · have hname := hnamed.messages m (hsub hm)
    have hletter := leadsWithLetter_of_isExported (hdeclared.exported m (hsub hm))
    exact ⟨(isLegal_rustType hname).mpr hletter, (isLegal_cppType hname).mpr hletter⟩
  · have hname := hnamed.structName (hlawful.struct_lt hdeclared.inRange hid)
    refine ⟨isLegal_rustType hname, isLegal_cppType hname, fun f hf => ?_⟩
    have hfield := hnamed.fieldsOf id f hf
    exact ⟨isLegal_rustField hfield, isLegal_cppField hfield⟩

/-- A type of one digit for a field without a name. -/
def bareText : String :=
  "package p\n" ++
  "type Point struct \x7b _ _9 \x7d\n" ++
  "type _9 struct \x7b X int32 \x7d\n"

def bareSchema : Schema where
  package := "p"
  structs := [
    ⟨"Point", ⟨2, 6⟩, [⟨"_", ⟨2, 21⟩, .struct 1 false, none⟩]⟩,
    ⟨"_9", ⟨3, 6⟩, [⟨"X", ⟨3, 18⟩, .primitive (.number .int32) false, none⟩]⟩]
  declarations := [⟨"Point", ⟨2, 6⟩, .struct 0 false⟩, ⟨"_9", ⟨3, 6⟩, .struct 1 false⟩]
  messages := [⟨"Point", .struct 0 false⟩]

def bare : Compiled where
  schema := bareSchema
  analysis := {
    structs := [⟨true, 4, 4, false, false, 1⟩, ⟨true, 4, 4, false, false, 0⟩]
    declarations := [("Point", ⟨true, 4, 4, false, false, 1⟩), ("_9", ⟨true, 4, 4, false, false, 0⟩)]
    messages := [("Point", ⟨true, 4, 4, false, false, 1⟩)] }

theorem compile_bareText : compile bareText = .ok bare := by
  have hparse : Schema.parse bareText = .ok bareSchema := by decide +kernel
  have hanalyze : bareSchema.analyze = .ok bare.analysis := by decide
  exact compile_of_ordered hparse (by decide) (by decide) hanalyze

/-- Of the two structs one has a name that can be used, and of the two fields the other one's. -/
theorem legal_names_of_compile_bare :
    compile bareText = .ok bare ∧ bareSchema.messages ⊆ bare.schema.messages ∧
    ∀ options, let sel := bare.select bareSchema.messages options
      (0 ∈ sel.structs ∧ IsLegal rustKeywords (RustCode.structType sel 0) ∧
        IsLegal cppKeywords (CppCode.structType sel 0) ∧ ¬ IsLegal rustKeywords (rustField "_") ∧
        ¬ IsLegal cppKeywords (cppField "_")) ∧
      1 ∈ sel.structs ∧ ¬ IsLegal rustKeywords (RustCode.structType sel 1) ∧
        ¬ IsLegal cppKeywords (CppCode.structType sel 1) ∧ IsLegal rustKeywords (rustField "X") ∧
        IsLegal cppKeywords (cppField "X") := by
  refine ⟨compile_bareText, List.Subset.refl _, fun options => ?_⟩
  obtain ⟨_, hstructs⟩ :=
    legal_names_of_compile compile_bareText (List.Subset.refl bareSchema.messages) options
  have hreached : bareSchema.reachable [.struct 0 false] = [1, 0] := by decide
  have hfirst : 0 ∈ bareSchema.reachable [.struct 0 false] := by rw [hreached]; decide
  have hsecond : 1 ∈ bareSchema.reachable [.struct 0 false] := by rw [hreached]; decide
  obtain ⟨hrust, hcpp, hfields⟩ := hstructs 0 hfirst
  obtain ⟨hrust', hcpp', hfields'⟩ := hstructs 1 hsecond
  have hfield := hfields _ List.mem_cons_self
  have hfield' := hfields' _ List.mem_cons_self
  have hpoint : leadsWithLetter "Point" = true := by decide
  have hnine : ¬ leadsWithLetter "_9" = true := by decide
  exact ⟨⟨hfirst, hrust.mpr hpoint, hcpp.mpr hpoint, fun h => hfield.1.mp h rfl,
    fun h => hfield.2.mp h rfl⟩, hsecond, fun h => hnine (hrust'.mp h), fun h => hnine (hcpp'.mp h),
    hfield'.1.mpr (by decide), hfield'.2.mpr (by decide)⟩

/-- The type is a digit and the field is an underscore. -/
theorem bare_names_not_legal :
    compile bareText = .ok bare ∧
    ∀ options, let sel := bare.select bareSchema.messages options
      sel.structs = [1, 0] ∧ RustCode.structType sel 1 = "9" ∧ CppCode.structType sel 1 = "9" ∧
      (sel.schema.fieldsOf 0).map (fun f => rustField f.name) = ["_"] ∧
      (sel.schema.fieldsOf 0).map (fun f => cppField f.name) = ["_"] := by
  have hstructs : bareSchema.reachable [.struct 0 false] = [1, 0] := by decide
  have hrust : rustType "_9" = "9" := by decide
  have hcpp : cppType "_9" = "9" := by decide
  refine ⟨compile_bareText, fun options => ⟨hstructs, hrust, hcpp, ?_, ?_⟩⟩
  · exact congrArg (· :: []) rustField_underscore
  · exact congrArg (· :: []) cppField_underscore

end WireSchema
