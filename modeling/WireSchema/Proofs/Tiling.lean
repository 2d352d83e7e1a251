import WireSchema.Proofs.Spelling

/-!
# Tokens tile the text

The kinds of pieces that a text is cut into are given here by **patterns**, and a pattern comes with a
preference among the ways in which it can match: as many characters as possible, as few as possible,
one thing rather than another. At every place the first kind that matches at all is taken, in the way
it prefers. Scanning knows nothing of patterns and of ways to match, but it cuts off the same pieces.

So a text is scanned if and only if such pieces tile it from its start to its end. The tokens are then
those of the pieces that are neither comments nor blanks, each at the **line and column that the
characters before it give**, however many line breaks comments and tags contain. A text that is not
scanned is tiled up to a place where no piece can start, and the error names that place.
-/

namespace WireSchema

/-! ## Patterns -/

/-- A pattern over characters. -/
inductive Pattern where
  | one (test : Char → Bool)
  /-- Any number of characters, as many as possible. -/
  | many (test : Char → Bool)
  /-- Any number of characters, as few as possible. -/
  | few (test : Char → Bool)
  | seq (p q : Pattern)

namespace Pattern

/-- What is left behind any number of characters, least first. -/
def restsOfMany (test : Char → Bool) : List Char → List (List Char)
  | [] => [[]]
  | c :: cs => if test c then restsOfMany test cs ++ [c :: cs] else [c :: cs]

/-- What is left behind any number of characters, most first. -/
def restsOfFew (test : Char → Bool) : List Char → List (List Char)
  | [] => [[]]
  | c :: cs => (c :: cs) :: if test c then restsOfFew test cs else []

/-- What the ways to match at the front of a text leave of it, the preferred way first. -/
def rests : Pattern → List Char → List (List Char)
  | .one _, [] => []
  | .one test, c :: cs => if test c then [cs] else []
  | .many test, cs => restsOfMany test cs
  | .few test, cs => restsOfFew test cs
  | .seq p q, cs => (p.rests cs).flatMap q.rests

/-- What the preferred way to match leaves. -/
def rest? (p : Pattern) (cs : List Char) : Option (List Char) :=
  (p.rests cs).head?

def char (c : Char) : Pattern :=
  .one (· == c)

variable {test : Char → Bool} {p q : Pattern} {c : Char} {cs : List Char}

theorem rest?_one_cons : (one test).rest? (c :: cs) = if test c then some cs else none := by
  rw [rest?, rests]
  split <;> rfl

theorem rest?_seq_one_cons :
    (seq (one test) p).rest? (c :: cs) = if test c then p.rest? cs else none := by
  rw [rest?, rests, rests]
  split
  · rw [List.flatMap_singleton]
    rfl
  · rfl

theorem rest?_seq_char_self : (seq (char c) p).rest? (c :: cs) = p.rest? cs := by
  rw [char, rest?_seq_one_cons, if_pos (beq_self_eq_true c)]

theorem rest?_seq_char_of_ne {d : Char} (h : c ≠ d) : (seq (char d) p).rest? (c :: cs) = none := by
  rw [char, rest?_seq_one_cons, if_neg (by simpa using h)]

/-- As many as possible are all up to the first that does not pass the test. -/
theorem rest?_many : (many test).rest? cs = some (cs.dropWhile test) := by
  rw [rest?, rests]
  induction cs with
  | nil => rfl
  | cons c cs ih =>
    rw [restsOfMany, List.dropWhile_cons]
    split
    · rw [List.head?_append, ih]
      rfl
    · rfl

/-- What follows as many as possible can only begin where they end, if it does not begin like them. -/
theorem rest?_many_seq_one {test' : Char → Bool} (h : ∀ c, test c = !test' c) :
    (seq (many test) (one test')).rest? cs = (cs.dropWhile test).tail? := by
  rw [rest?, rests, rests]
  induction cs with
  | nil => rfl
  | cons c cs ih =>
    have hhere : (one test').rests (c :: cs) = if test c then [] else [cs] := by
      rw [rests, h c]
      cases test' c <;> rfl
    rw [restsOfMany, List.dropWhile_cons]
    split
    · rename_i htest
      rw [List.flatMap_append, List.flatMap_singleton, hhere, if_pos htest, List.append_nil]
      exact ih
    · rename_i htest
      rw [List.flatMap_singleton, hhere, if_neg htest]
      rfl

/-- As few as possible end at the first place where what follows can begin. -/
theorem rest?_few_seq_cons :
    (seq (few fun _ => true) p).rest? (c :: cs)
      = (p.rest? (c :: cs)).or ((seq (few fun _ => true) p).rest? cs) := by
  rw [rest?, rests, rests, restsOfFew, if_pos rfl, List.flatMap_cons, List.head?_append]
  rfl

end Pattern

namespace Piece

/-! ## Kinds of pieces -/

/-- The kinds of pieces, in the order in which they are tried. -/
inductive Kind where
  | lineComment
  | comment
  | tag
  | lineBreak
  | blanks
  | word
  | number
  | sign
  deriving DecidableEq

namespace Kind

def all : List Kind :=
  [.lineComment, .comment, .tag, .lineBreak, .blanks, .word, .number, .sign]

open Pattern

/-- What pieces of a kind look like. -/
def pattern : Kind → Pattern
  | .lineComment => .seq (char '/') (.seq (char '/') (.many (· != '\n')))
  | .comment =>
    .seq (char '/') (.seq (char '*') (.seq (.few fun _ => true) (.seq (char '*') (char '/'))))
  | .tag => .seq (char '\x60') (.seq (.many (· != '\x60')) (char '\x60'))
  | .lineBreak => char '\n'
  | .blanks => .seq (.one isBlank) (.many isBlank)
  | .word => .seq (.one isWordStart) (.many isWordChar)
  | .number => .seq (.one Text.isDecimalDigit) (.many Text.isDecimalDigit)
  | .sign => .one isSign

/-- Comments and blanks. -/
def isSkipped : Kind → Bool
  | .lineComment | .comment | .blanks => true
  | .tag | .lineBreak | .word | .number | .sign => false

/-- The first kind that matches at the front of a text, and what the way it prefers leaves. -/
def first? (cs : List Char) : Option (Kind × List Char) :=
  all.findSome? fun kind => (kind.pattern.rest? cs).map (kind, ·)

/-! ### The kind at a character -/

variable {c : Char} {cs : List Char}

theorem findSome?_cons_or {α : Type} (f : Kind → Option α) (kind : Kind) (kinds : List Kind) :
    (kind :: kinds).findSome? f = (f kind).or (kinds.findSome? f) := by
  rw [List.findSome?_cons]
  cases f kind <;> rfl

/-- Only comments begin with a slash. -/
theorem first?_slash : first? ('/' :: cs) =
    (((Pattern.seq (char '/') (.many (· != '\n'))).rest? cs).map (lineComment, ·)).or
      (((Pattern.seq (char '*') (.seq (.few fun _ => true) (.seq (char '*') (char '/')))).rest? cs).map
        (comment, ·)) := by
  have hother : ([tag, lineBreak, blanks, word, number, sign].findSome? fun kind =>
      (kind.pattern.rest? ('/' :: cs)).map (kind, ·)) = none := rfl
  rw [first?, all, findSome?_cons_or, findSome?_cons_or, hother, Option.or_none, pattern, pattern,
    rest?_seq_char_self, rest?_seq_char_self]

/-- Only tags begin with a backquote. -/
theorem first?_quote :
    first? ('\x60' :: cs) = ((cs.dropWhile (· != '\x60')).tail?).map (tag, ·) := by
  have hbefore : lineComment.pattern.rest? ('\x60' :: cs) = none ∧
      comment.pattern.rest? ('\x60' :: cs) = none := ⟨rfl, rfl⟩
  have hbehind : ([lineBreak, blanks, word, number, sign].findSome? fun kind =>
      (kind.pattern.rest? ('\x60' :: cs)).map (kind, ·)) = none := rfl
  have htag : (Pattern.seq (.many (· != '\x60')) (char '\x60')).rest? cs
      = (cs.dropWhile (· != '\x60')).tail? :=
    rest?_many_seq_one fun _ => rfl
  rw [first?, all, findSome?_cons_or, findSome?_cons_or, findSome?_cons_or, hbehind, hbefore.1,
    hbefore.2, Option.or_none, pattern, rest?_seq_char_self, htag]
  rfl

/-- For any other character the kinds are told apart by it. -/
theorem first?_cons (hslash : c ≠ '/') (hquote : c ≠ '\x60') : first? (c :: cs) =
    if c = '\n' then some (lineBreak, cs)
    else if isBlank c then some (blanks, cs.dropWhile isBlank)
    else if isWordStart c then some (word, cs.dropWhile isWordChar)
    else if Text.isDecimalDigit c then some (number, cs.dropWhile Text.isDecimalDigit)
    else if isSign c then some (sign, cs)
    else none := by
  have hor : ∀ (b : Prop) [Decidable b] (kind : Kind) (rest : List Char)
      (other : Option (Kind × List Char)),
      ((if b then some rest else none).map (kind, ·)).or other
        = if b then some (kind, rest) else other := by
    intro b _ kind rest other
    split <;> rfl
  simp only [first?, all, findSome?_cons_or, List.findSome?_nil, pattern,
    rest?_seq_char_of_ne hslash, rest?_seq_char_of_ne hquote, Option.map_none, Option.none_or]
  simp only [char, rest?_one_cons, rest?_seq_one_cons, rest?_many, hor, beq_iff_eq]

end Kind

/-! ## Scanning takes the piece that the kinds choose -/

/-- The end of a comment is the first one. -/
theorem rest?_comment (passed cs : List Char) :
    (Pattern.seq (.few fun _ => true) (.seq (.char '*') (.char '/'))).rest? cs
      = (commentEnd? passed cs).map Prod.snd := by
  fun_induction commentEnd? passed cs with
  | case1 passed rest =>
    rw [Pattern.rest?_few_seq_cons]
    rfl
  | case2 passed c rest hnot ih =>
    have hhere : (Pattern.seq (.char '*') (.char '/')).rest? (c :: rest) = none := by
      by_cases hstar : c = '*'
      · subst hstar
        rw [Pattern.rest?_seq_char_self]
        cases rest with
        | nil => rfl
        | cons d rest =>
          have hslash : d ≠ '/' := fun h => hnot rest rfl (by rw [h])
          rw [Pattern.char, Pattern.rest?_one_cons, if_neg (by simpa using hslash)]
      · exact Pattern.rest?_seq_char_of_ne hstar
    rw [Pattern.rest?_few_seq_cons, hhere, ih]
    rfl
  | case3 passed => rfl

/-- **Scanning and the kinds agree**: on what is left behind a piece and on whether it is skipped. -/
theorem first?_agrees (cs : List Char) :
    (Kind.first? cs).map (fun found => (found.1.isSkipped, found.2))
      = (next? cs).map fun found => (found.1.skipped, found.2) := by
  unfold next?
  split
  · rfl
  · rename_i rest
    rw [Kind.first?_slash, Pattern.rest?_seq_char_self, Pattern.rest?_many]
    rfl
  · rename_i rest
    rw [Kind.first?_slash, Pattern.rest?_seq_char_of_ne (by decide), Pattern.rest?_seq_char_self,
      rest?_comment ['*', '/']]
    cases commentEnd? ['*', '/'] rest <;> rfl
  · rename_i rest
    rw [Kind.first?_quote]
    cases rest.dropWhile (· != '\x60') <;> rfl
  · rename_i c rest hline hblock hquote
    by_cases hslash : c = '/'
    · -- a slash that begins no comment begins nothing
      subst hslash
      rw [Kind.first?_slash]
      cases rest with
      | nil => rfl
      | cons d rest =>
        rw [Pattern.rest?_seq_char_of_ne fun h => hline rest rfl (by rw [h]),
          Pattern.rest?_seq_char_of_ne fun h => hblock rest rfl (by rw [h])]
        rfl
    · rw [Kind.first?_cons hslash hquote]
      split_ifs <;> rfl

/-- No kind matches at the front of the text in any way. -/
def Stuck (cs : List Char) : Prop :=
  ∀ kind : Kind, kind.pattern.rests cs = []

theorem first?_eq_none {cs : List Char} : Kind.first? cs = none ↔ Stuck cs := by
  have hall : ∀ kind, kind ∈ Kind.all := fun kind => by cases kind <;> decide
  rw [Kind.first?, List.findSome?_eq_none_iff]
  refine ⟨fun h kind => ?_, fun h kind _ => ?_⟩
  · exact List.head?_eq_none_iff.mp (Option.map_eq_none_iff.mp (h kind (hall kind)))
  · rw [Pattern.rest?, h kind]
    rfl

theorem next?_eq_none {cs : List Char} : next? cs = none ↔ Stuck cs := by
  rw [← first?_eq_none, ← Option.map_eq_none_iff, ← first?_agrees, Option.map_eq_none_iff]

/-- The piece at a place is the one that the first kind cuts off there. -/
theorem next?_of_first? {kind : Kind} {part rest : List Char}
    (h : Kind.first? (part ++ rest) = some (kind, rest)) :
    next? (part ++ rest) = some (⟨part, kind.isSkipped⟩, rest) := by
  have hagrees := first?_agrees (part ++ rest)
  rw [h, Option.map_some] at hagrees
  obtain ⟨⟨piece, rest'⟩, hnext, heq⟩ := Option.map_eq_some_iff.mp hagrees.symm
  obtain ⟨hskipped, rfl⟩ := Prod.mk.inj heq
  have hchars := List.append_cancel_right (next?_append hnext)
  rw [hnext, ← hchars, ← hskipped]

theorem exists_first?_of_next? {cs rest : List Char} {piece : Piece}
    (h : next? cs = some (piece, rest)) : ∃ kind, Kind.first? cs = some (kind, rest) := by
  have hagrees := first?_agrees cs
  rw [h, Option.map_some] at hagrees
  obtain ⟨⟨kind, rest'⟩, hfirst, heq⟩ := Option.map_eq_some_iff.mp hagrees
  obtain ⟨_, rfl⟩ := Prod.mk.inj heq
  exact ⟨kind, hfirst⟩

/-! ## Texts tiled by pieces -/

/-- A piece of a text, with its kind. -/
structure Tile where
  kind : Kind
  chars : List Char

/-- The text of tiles. -/
def joined (tiles : List Tile) : List Char :=
  tiles.flatMap Tile.chars

/-- The first text is the tiles and behind them the second one, and each tile is what the kinds choose
at its place. -/
inductive Tiles : List Tile → List Char → List Char → Prop where
  | nil {rest : List Char} : Tiles [] rest rest
  | cons {tile : Tile} {tiles : List Tile} {cs rest : List Char} :
      Kind.first? (tile.chars ++ cs) = some (tile.kind, cs) → Tiles tiles cs rest →
      Tiles (tile :: tiles) (tile.chars ++ cs) rest

theorem Tiles.joined_append {tiles : List Tile} {cs rest : List Char} (h : Tiles tiles cs rest) :
    joined tiles ++ rest = cs := by
  induction h with
  | nil => rfl
  | cons _ _ ih => rw [joined, List.flatMap_cons, List.append_assoc, ← joined, ih]

/-- Every text can be tiled up to a place where no piece can start. -/
theorem exists_tiles (cs : List Char) : ∃ tiles rest, Tiles tiles cs rest ∧ Stuck rest := by
  induction hlen : cs.length using Nat.strongRecOn generalizing cs with
  | ind n ih =>
    cases hnext : next? cs with
    | none => exact ⟨[], cs, .nil, next?_eq_none.mp hnext⟩
    | some found =>
      obtain ⟨piece, behind⟩ := found
      obtain ⟨kind, hfirst⟩ := exists_first?_of_next? hnext
      obtain ⟨tiles, rest, htiles, hstuck⟩ := ih _ (hlen ▸ next?_length hnext) behind rfl
      have hcs := next?_append hnext
      rw [← hcs] at hfirst ⊢
      exact ⟨⟨kind, piece.chars⟩ :: tiles, rest, .cons hfirst htiles, hstuck⟩

/-- No piece starts inside of the gap, and one does behind it unless the text ends there. -/
structure IsGap (gap after : List Char) : Prop where
  nowhere : ∀ i < gap.length, Stuck ((gap ++ after).drop i)
  behind : after = [] ∨ ¬ Stuck after

/-- The text that is reported goes up to where the next piece starts. -/
theorem exists_gap (passed cs : List Char) : ∃ gap after, cs = gap ++ after ∧ IsGap gap after ∧
    stray passed cs = passed.reverse ++ gap := by
  induction cs generalizing passed with
  | nil => exact ⟨[], [], rfl, ⟨fun _ h => absurd h (Nat.not_lt_zero _), .inl rfl⟩, by simp [stray]⟩
  | cons c cs ih =>
    rw [stray]
    split
    · rename_i hsome
      have hstarts : ¬ Stuck (c :: cs) := fun h => by simp [next?_eq_none.mpr h] at hsome
      exact ⟨[], c :: cs, rfl, ⟨fun _ h => absurd h (Nat.not_lt_zero _), .inr hstarts⟩, by simp⟩
    · rename_i hnone
      have hstuck : Stuck (c :: cs) := next?_eq_none.mp (by simpa using hnone)
      obtain ⟨gap, after, rfl, hgap, hstray⟩ := ih (c :: passed)
      refine ⟨c :: gap, after, rfl, ⟨fun i hi => ?_, hgap.behind⟩, by rw [hstray]; simp⟩
      cases i with
      | zero => exact hstuck
      | succ i => exact hgap.nowhere i (Nat.lt_of_succ_lt_succ hi)

end Piece

/-! ## Places -/

/-- The place behind characters: one line for every line break among them, and one column for every
character behind the last of these. -/
def Position.behind (before : List Char) : Position :=
  ⟨1 + before.count '\n', 1 + (before.reverse.takeWhile (· != '\n')).length⟩

theorem Position.advance_behind (before : List Char) (c : Char) :
    (behind before).advance c = behind (before ++ [c]) := by
  unfold advance behind
  rw [List.reverse_append, List.reverse_singleton, List.singleton_append, List.takeWhile_cons,
    List.count_append, List.count_singleton]
  by_cases hc : c = '\n'
  · simp [hc, Nat.add_assoc]
  · simp [hc, Nat.add_comm]

/-- **Going through a piece character by character leads to the place behind it.** -/
theorem Position.foldl_advance_behind (before part : List Char) :
    part.foldl advance (behind before) = behind (before ++ part) := by
  induction part generalizing before with
  | nil => rw [List.append_nil, List.foldl_nil]
  | cons c part ih => rw [List.foldl_cons, advance_behind, ih, List.append_assoc, List.singleton_append]

namespace Token

open Piece

/-- The tokens among tiles, each at the place behind everything before it. -/
def ofTiles (before : List Char) : List Tile → List Token
  | [] => []
  | tile :: rest =>
    (if tile.kind.isSkipped then [] else [⟨String.ofList tile.chars, .behind before⟩])
      ++ ofTiles (before ++ tile.chars) rest

/-- **The run.** Tiles are scanned one after the other, whatever was found before them. -/
theorem scanFrom_tiles {tiles : List Tile} {cs rest : List Char} (h : Tiles tiles cs rest)
    (before : List Char) (done : List Token) :
    scanFrom (.behind before) done cs
      = scanFrom (.behind (before ++ joined tiles)) ((ofTiles before tiles).reverse ++ done) rest := by
  induction h generalizing before done with
  | nil => rw [joined, List.flatMap_nil, List.append_nil, ofTiles, List.reverse_nil, List.nil_append]
  | @cons tile tiles cs rest hfirst _ ih =>
    rw [scanFrom_piece (next?_of_first? hfirst), Position.foldl_advance_behind, ih, joined, joined,
      List.flatMap_cons, ofTiles, List.reverse_append, List.append_assoc, List.append_assoc]
    cases tile.kind.isSkipped <;> rfl

theorem scanFrom_stuck {pos : Position} {done : List Token} {cs : List Char} (hne : cs ≠ [])
    (h : Stuck cs) :
    scanFrom pos done cs = .error (.parse (.stray (String.ofList (stray [] cs))) pos) := by
  cases cs with
  | nil => exact absurd rfl hne
  | cons c tail =>
    rw [scanFrom]
    split
    · rfl
    · rename_i piece rest hsome
      rw [next?_eq_none.mpr h] at hsome
      cases hsome

theorem scan_eq_ok_of_tiles {text : String} {tiles : List Tile} (h : Tiles tiles text.toList []) :
    scan text = .ok (ofTiles [] tiles ++ [⟨"", .behind text.toList⟩]) := by
  have hjoined := h.joined_append
  rw [List.append_nil] at hjoined
  have hscan := scanFrom_tiles h [] []
  rw [List.nil_append, List.append_nil, hjoined] at hscan
  rw [scan, show Position.start = .behind [] from rfl, hscan, scanFrom, List.reverse_cons,
    List.reverse_reverse]

theorem scan_eq_error_of_tiles {text : String} {tiles : List Tile} {rest : List Char}
    (h : Tiles tiles text.toList rest) (hne : rest ≠ []) (hstuck : Stuck rest) :
    scan text = .error
      (.parse (.stray (String.ofList (stray [] rest))) (.behind (joined tiles))) := by
  rw [scan, show Position.start = .behind [] from rfl, scanFrom_tiles h, scanFrom_stuck hne hstuck,
    List.nil_append]

end Token

open Piece

end WireSchema
