import WireSchema.Proofs.LegalNames

/-!
# The laws of `snake_case`

Whether a capital gets an underscore in front depends on the characters on both sides of it. What
becomes of the name as a whole is simpler: it is **cut into words**, and the words are put into lower
case and joined by underscores. A word starts with a capital behind something other than an underscore,
so no cut is at an end of the name or beside an underscore. Everything else follows from this. Nothing
but underscores is added, so two names that become the same differ in case and underscores only; and
there are no capitals left, so nothing changes when it is done again.
-/

namespace WireSchema.Naming

open Grammar (isIdentifier)
open Piece (isWordChar)

/-- What is left of a name where neither case nor underscores matter. -/
def folded (name : String) : List Char :=
  (name.toList.map Char.toLower).filter (· != '_')

/-- Between `p` and `c` a word ends and another one starts, which goes on with `rest`: `c` is a
capital, `p` is no underscore, and if `p` is a capital too then `c` is the last one in the row. -/
def WordStart (p c : Char) (rest : List Char) : Prop :=
  c.isUpper = true ∧ p ≠ '_' ∧ (p.isUpper = false ∨ ∃ d ∈ rest.head?, d.isLower = true)

/-- The words that a name is made of. -/
structure IsCut (name : List Char) (words : List (List Char)) : Prop where
  joined : words.flatten = name
  ne_nil : ∀ word ∈ words, word ≠ []
  /-- Where two words meet, the second one starts. -/
  seams : words.IsChain fun word next =>
    ∃ p ∈ word.getLast?, ∃ c rest, next = c :: rest ∧ WordStart p c rest
  /-- Inside a word no other one starts. -/
  inside : ∀ word ∈ words, ∀ p c rest, p :: c :: rest <:+ word → ¬ WordStart p c rest

/-- Words in lower case with underscores between them. -/
def joinWords (words : List (List Char)) : List Char :=
  ['_'].intercalate (words.map (List.map Char.toLower))

/-! ## One character -/

theorem isUppercase_of_isWordChar {c : Char} (h : isWordChar c = true) :
    Text.isUppercase c = c.isUpper :=
  if_pos (Piece.isAscii_of_isWordChar h)

theorem isLowercase_of_isWordChar {c : Char} (h : isWordChar c = true) :
    Text.isLowercase c = c.isLower :=
  if_pos (Piece.isAscii_of_isWordChar h)

theorem isLower_of_isUpper {c : Char} (h : c.isUpper = true) : c.isLower = false := by
  rw [← Bool.not_eq_true]
  intro hlower
  have hlast : c.val.toNat ≤ 90 := UInt32.le_iff_toNat_le.mp (of_decide_eq_true h).2
  have hfirst : 97 ≤ c.val.toNat :=
    UInt32.le_iff_toNat_le.mp (of_decide_eq_true ((Bool.and_eq_true _ _).mp hlower).1)
  omega

theorem toLower_of_not_isUpper {c : Char} (h : c.isUpper = false) : c.toLower = c :=
  dif_neg (of_decide_eq_false h)

theorem isUpper_toLower (c : Char) : c.toLower.isUpper = false := by
  cases h : c.isUpper with
  | false => rw [toLower_of_not_isUpper h, h]
  | true =>
    have hrange : c.val ≥ 'A'.val ∧ c.val ≤ 'Z'.val := of_decide_eq_true h
    have hval : c.toLower.val = c.val + 32 := congrArg Char.val (dif_pos hrange)
    refine decide_eq_false fun hupper => ?_
    -- a capital moved on by 32 is behind the last capital
    have hfirst : 65 ≤ c.val.toNat := UInt32.le_iff_toNat_le.mp hrange.1
    have hlast : c.toLower.val.toNat ≤ 90 := UInt32.le_iff_toNat_le.mp hupper.2
    have hbound : c.val.toNat ≤ 90 := UInt32.le_iff_toNat_le.mp hrange.2
    have hshift : (32 : UInt32).toNat = 32 := rfl
    rw [hval, UInt32.toNat_add] at hlast
    omega

/-- A character of an identifier becomes its lower case, behind an underscore if it is a capital
that starts a word. -/
theorem snakeAfter_cons_eq {c : Char} (h : isWordChar c = true) (previous : Option Char)
    (rest : List Char) : snakeAfter previous (c :: rest)
      = (if c.isUpper && startsWord previous rest then ['_'] else [])
        ++ c.toLower :: snakeAfter (some c) rest := by
  rw [snakeAfter, isUppercase_of_isWordChar h]
  cases hupper : c.isUpper with
  | true =>
    rw [Text.lowerChar_of_isWordChar h]
    simp
  | false =>
    rw [toLower_of_not_isUpper hupper]
    simp

/-- Which capitals of an identifier start a word. -/
theorem startsWord_iff {p c : Char} {rest : List Char} (hp : isWordChar p = true)
    (hrest : ∀ d ∈ rest, isWordChar d = true) :
    (c.isUpper && startsWord (some p) rest) = true ↔ WordStart p c rest := by
  have hnext : (rest.head?.map Text.isLowercase).getD false = true ↔
      ∃ d ∈ rest.head?, d.isLower = true := by
    cases rest with
    | nil => simp
    | cons d rest => simp [isLowercase_of_isWordChar (hrest d List.mem_cons_self)]
  rw [WordStart, startsWord, isUppercase_of_isWordChar hp, Bool.and_eq_true, Bool.and_eq_true,
    Bool.or_eq_true, hnext]
  simp

theorem WordStart.append {p c : Char} {rest : List Char} (h : WordStart p c rest)
    (more : List Char) : WordStart p c (rest ++ more) := by
  obtain ⟨hc, hp, hnext⟩ := h
  refine ⟨hc, hp, hnext.imp_right fun hlower => ?_⟩
  obtain ⟨d, hd, hlower⟩ := hlower
  exact ⟨d, by rw [List.head?_append, Option.mem_def.mp hd]; rfl, hlower⟩

/-! ## Words -/

namespace IsCut

variable {c d : Char} {name word : List Char} {words : List (List Char)}

theorem single (c : Char) : IsCut [c] [[c]] where
  joined := rfl
  ne_nil := by simp
  seams := .singleton [c]
  inside := by
    intro word hword p d rest hsuffix
    obtain rfl := List.mem_singleton.mp hword
    exact absurd hsuffix.length_le (by simp)

/-- The first word starts with the name. -/
theorem exists_first (h : IsCut (c :: name) words) : ∃ word more, words = (c :: word) :: more ∧
    name = word ++ more.flatten := by
  have hjoined := h.joined
  cases words with
  | nil => exact absurd hjoined (by simp)
  | cons first more =>
    cases first with
    | nil => exact absurd rfl (h.ne_nil [] List.mem_cons_self)
    | cons d word =>
      rw [List.flatten_cons] at hjoined
      injection hjoined with hhead htail
      exact ⟨word, more, by rw [hhead], htail.symm⟩

/-- Behind the first word there is a capital, so a small letter belongs to it. -/
theorem wordStart_first {p : Char} (h : IsCut (c :: name) ((c :: word) :: words))
    (hstart : WordStart p c (word ++ words.flatten)) : WordStart p c word := by
  obtain ⟨hc, hp, hnext⟩ := hstart
  refine ⟨hc, hp, hnext.imp_right fun hlower => ?_⟩
  obtain ⟨d, hd, hlower⟩ := hlower
  cases word with
  | cons e word => exact ⟨d, hd, hlower⟩
  | nil =>
    cases words with
    | nil => exact absurd hd (by simp)
    | cons next more =>
      obtain ⟨_, _, e, rest, rfl, hupper, _⟩ := (List.isChain_cons_cons.mp h.seams).1
      obtain rfl : e = d := by simpa using hd
      exact absurd hlower (by rw [isLower_of_isUpper hupper]; decide)

/-- A character in front that no word ends with belongs to the first word. -/
theorem extend (h : IsCut (d :: name) ((d :: word) :: words)) (hstart : ¬ WordStart c d word) :
    IsCut (c :: d :: name) ((c :: d :: word) :: words) where
  joined := by
    have hjoined := h.joined
    rw [List.flatten_cons] at hjoined ⊢
    rw [List.cons_append, hjoined]
  ne_nil := by
    intro w hw
    rcases List.mem_cons.mp hw with rfl | hw
    · exact List.cons_ne_nil c _
    · exact h.ne_nil w (List.mem_cons_of_mem _ hw)
  seams := by
    have hseams := h.seams
    cases words with
    | nil => exact .singleton _
    | cons next more =>
      rw [List.isChain_cons_cons] at hseams ⊢
      rwa [List.getLast?_cons_cons]
  inside := by
    intro w hw p e rest hsuffix
    rcases List.mem_cons.mp hw with rfl | hw
    · rcases List.suffix_cons_iff.mp hsuffix with heq | hsuffix
      · -- the new pair of neighbours
        injection heq with hp heq
        injection heq with he hrest
        rw [hp, he, hrest]
        exact hstart
      · exact h.inside _ List.mem_cons_self p e rest hsuffix
    · exact h.inside w (List.mem_cons_of_mem _ hw) p e rest hsuffix

/-- A character in front that a word ends with is a word by itself. -/
theorem split (h : IsCut (d :: name) ((d :: word) :: words)) (hstart : WordStart c d word) :
    IsCut (c :: d :: name) ([c] :: (d :: word) :: words) where
  joined := by
    rw [List.flatten_cons, h.joined]
    rfl
  ne_nil := by
    intro w hw
    rcases List.mem_cons.mp hw with rfl | hw
    · exact List.cons_ne_nil c []
    · exact h.ne_nil w hw
  seams := .cons_cons ⟨c, rfl, d, word, rfl, hstart⟩ h.seams
  inside := by
    intro w hw p e rest hsuffix
    rcases List.mem_cons.mp hw with rfl | hw
    · exact absurd hsuffix.length_le (by simp)
    · exact h.inside w hw p e rest hsuffix

end IsCut

theorem joinWords_cons_cons (word next : List Char) (more : List (List Char)) :
    joinWords (word :: next :: more) = word.map Char.toLower ++ '_' :: joinWords (next :: more) := by
  simp [joinWords]

/-- **The rest of a name is cut into words.** The character in front of it is part of the first one. -/
theorem exists_isCut {p : Char} {cs : List Char} (hp : isWordChar p = true)
    (hcs : ∀ c ∈ cs, isWordChar c = true) : ∃ words, IsCut (p :: cs) words ∧
      p.toLower :: snakeAfter (some p) cs = joinWords words := by
  induction cs generalizing p with
  | nil => exact ⟨[[p]], .single p, by simp [snakeAfter, joinWords]⟩
  | cons c cs ih =>
    obtain ⟨hc, hcs⟩ := List.forall_mem_cons.mp hcs
    obtain ⟨words, hcut, hsnake⟩ := ih hc hcs
    obtain ⟨word, more, rfl, hname⟩ := hcut.exists_first
    rw [snakeAfter_cons_eq hc, hsnake]
    by_cases hstart : WordStart p c cs
    · -- a cut in front of `c`
      have hfirst : WordStart p c word := hcut.wordStart_first (hname ▸ hstart)
      refine ⟨[p] :: (c :: word) :: more, hcut.split hfirst, ?_⟩
      rw [if_pos ((startsWord_iff hp hcs).mpr hstart), joinWords_cons_cons]
      rfl
    · have hfirst : ¬ WordStart p c word := fun h => hstart (hname ▸ h.append _)
      refine ⟨(p :: c :: word) :: more, hcut.extend hfirst, ?_⟩
      rw [if_neg fun h => hstart ((startsWord_iff hp hcs).mp h)]
      simp [joinWords]

/-- **A name in `snake_case` is its words in lower case, joined by underscores.** -/
theorem exists_isCut_snake {name : String} (h : isIdentifier name = true) :
    ∃ words, IsCut name.toList words ∧ (snake name).toList = joinWords words := by
  obtain ⟨⟨c, rest, hname, _⟩, hchars⟩ := Grammar.isIdentifier_iff.mp h
  rw [hname] at hchars
  obtain ⟨hc, hrest⟩ := List.forall_mem_cons.mp hchars
  obtain ⟨words, hcut, hsnake⟩ := exists_isCut hc hrest
  refine ⟨words, hname ▸ hcut, ?_⟩
  rw [snake, String.toList_ofList, hname, snakeAfter_cons_eq hc, ← hsnake]
  simp [startsWord]

/-! ## The laws -/

/-- Joining adds nothing but underscores. -/
theorem filter_joinWords (words : List (List Char)) :
    (joinWords words).filter (· != '_')
      = (words.flatten.map Char.toLower).filter (· != '_') := by
  induction words with
  | nil => rfl
  | cons word words ih =>
    cases words with
    | nil => simp [joinWords]
    | cons next more =>
      rw [joinWords_cons_cons, List.filter_append, List.filter_cons_of_neg (by decide), ih,
        ← List.filter_append, ← List.map_append, ← List.flatten_cons]

theorem filter_snake {name : String} (h : isIdentifier name = true) :
    (snake name).toList.filter (· != '_') = folded name := by
  obtain ⟨words, hcut, hsnake⟩ := exists_isCut_snake h
  rw [hsnake, filter_joinWords, hcut.joined]
  rfl

theorem isUpper_of_mem_snake {name : String} (h : isIdentifier name = true) :
    ∀ c ∈ (snake name).toList, c.isUpper = false := by
  intro c hc
  by_cases hunderscore : c = '_'
  · rw [hunderscore]
    decide
  · -- what is no underscore comes from the name
    have hmem : c ∈ (snake name).toList.filter (· != '_') :=
      List.mem_filter.mpr ⟨hc, by simpa using hunderscore⟩
    rw [filter_snake h] at hmem
    obtain ⟨d, _, rfl⟩ := List.mem_map.mp (List.mem_filter.mp hmem).1
    exact isUpper_toLower d

/-- A text without capitals stays as it is. -/
theorem snakeAfter_of_no_capitals {cs : List Char} (h : ∀ c ∈ cs, Text.isUppercase c = false)
    (previous : Option Char) : snakeAfter previous cs = cs := by
  induction cs generalizing previous with
  | nil => rfl
  | cons c cs ih =>
    obtain ⟨hc, hcs⟩ := List.forall_mem_cons.mp h
    rw [snakeAfter, hc, ih hcs]
    rfl

theorem snake_of_snake {name : String} (h : isIdentifier name = true) :
    snake (snake name) = snake name := by
  have hchars := (Grammar.isIdentifier_iff.mp (isIdentifier_snake h)).2
  have hnone : ∀ c ∈ (snake name).toList, Text.isUppercase c = false := by
    intro c hc
    rw [isUppercase_of_isWordChar (hchars c hc)]
    exact isUpper_of_mem_snake h c hc
  rw [snake, snakeAfter_of_no_capitals hnone, String.ofList_toList]

/--
**The laws of `snake_case`.** There are no capitals in it. Without its underscores it is the name in
lower case without the underscores of the name. It is made of the words of the name, so the underscores
that are added stand where two words meet: behind something other than an underscore and in front of
what was a capital. To put it into `snake_case` again changes nothing. And names that become the same
are the same but for case and underscores.
-/
theorem snake_laws {name : String} (h : isIdentifier name = true) :
    (∀ c ∈ (snake name).toList, c.isUpper = false)
      ∧ (snake name).toList.filter (· != '_') = folded name
      ∧ (∃ words, IsCut name.toList words ∧ (snake name).toList = joinWords words)
      ∧ snake (snake name) = snake name
      ∧ ∀ other, isIdentifier other = true → snake other = snake name →
          folded other = folded name := by
  refine ⟨isUpper_of_mem_snake h, filter_snake h, exists_isCut_snake h, snake_of_snake h, ?_⟩
  intro other hother heq
  rw [← filter_snake hother, ← filter_snake h, heq]

/-- Three words, one of them with an underscore of its own; another spelling becomes the same. -/
theorem snake_laws_acronym :
    isIdentifier "myHTTPServer_ID" = true ∧ isIdentifier "MyHttp_ServerID" = true
      ∧ snake "myHTTPServer_ID" = "my_http_server_id"
      ∧ (snake "myHTTPServer_ID").toList.filter (· != '_') = folded "myHTTPServer_ID"
      ∧ (∃ words, IsCut "myHTTPServer_ID".toList words
          ∧ "my_http_server_id".toList = joinWords words)
      ∧ snake "my_http_server_id" = "my_http_server_id"
      ∧ snake "MyHttp_ServerID" = snake "myHTTPServer_ID"
      ∧ folded "MyHttp_ServerID" = folded "myHTTPServer_ID" := by
  have hname : isIdentifier "myHTTPServer_ID" = true := by decide
  have hother : isIdentifier "MyHttp_ServerID" = true := by decide
  have hsnake : snake "myHTTPServer_ID" = "my_http_server_id" := by decide
  have hsame : snake "MyHttp_ServerID" = snake "myHTTPServer_ID" := by decide
  obtain ⟨_, hfilter, hwords, hagain, hfolded⟩ := snake_laws hname
  rw [hsnake] at hwords hagain
  exact ⟨hname, hother, hsnake, hfilter, hwords, hagain, hsame, hfolded _ hother hsame⟩

end WireSchema.Naming
