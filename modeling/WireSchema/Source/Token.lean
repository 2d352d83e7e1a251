import WireSchema.Error
import WireSchema.Text.Digit

/-!
# Tokens

Schema text is cut into pieces from left to right: at every place the first of a fixed list of forms
that fits gives the piece there, as long as it can be. Comments and blanks are skipped; every other
piece is a token, line breaks included, and an empty token stands at the end. The pieces put
together are the text, so a token's position is the position behind all the pieces before it.
-/

namespace WireSchema

/-- A word, a sign, a tag or a line break of schema text; the empty token ends the text. -/
structure Token where
  text : String
  pos : Position
  deriving DecidableEq, Repr

/-- Characters cut off the front of a text. -/
structure Piece where
  chars : List Char
  /-- Comments and blanks. -/
  skipped : Bool
  deriving DecidableEq, Repr

namespace Piece

def isWordStart (c : Char) : Bool :=
  c.isAlpha || c == '_'

def isWordChar (c : Char) : Bool :=
  c.isAlphanum || c == '_'

def isBlank (c : Char) : Bool :=
  c == ' ' || c == '\t' || c == '\r'

/-- The signs, each a token by itself. -/
def isSign (c : Char) : Bool :=
  ['\x7b', '\x7d', '[', ']', '(', ')', '*', ',', ';', '=', '.'].contains c

/-- The text up to and with the end of a comment, behind the characters `passed` (latest first). -/
def commentEnd? (passed : List Char) : List Char → Option (List Char × List Char)
  | '*' :: '/' :: rest => some (('/' :: '*' :: passed).reverse, rest)
  | c :: rest => commentEnd? (c :: passed) rest
  | [] => none

/-- A piece that starts with `first` and goes on for as long as its characters pass the test. -/
def run (skipped : Bool) (test : Char → Bool) (first : List Char) (rest : List Char) :
    Piece × List Char :=
  (⟨first ++ rest.takeWhile test, skipped⟩, rest.dropWhile test)

/-- The piece at the front of a text, and the text behind it. -/
def next? : List Char → Option (Piece × List Char)
  | [] => none
  | '/' :: '/' :: rest => some (run true (· != '\n') ['/', '/'] rest)
  | '/' :: '*' :: rest =>
    (commentEnd? ['*', '/'] rest).map fun (comment, rest) => (⟨comment, true⟩, rest)
  | '\x60' :: rest =>
    match rest.dropWhile (· != '\x60') with
    | [] => none
    | _ :: after =>
      some (⟨'\x60' :: rest.takeWhile (· != '\x60') ++ ['\x60'], false⟩, after)
  | c :: rest =>
    if c = '\n' then some (⟨[c], false⟩, rest)
    else if isBlank c then some (run true isBlank [c] rest)
    else if isWordStart c then some (run false isWordChar [c] rest)
    else if Text.isDecimalDigit c then some (run false Text.isDecimalDigit [c] rest)
    else if isSign c then some (⟨[c], false⟩, rest)
    else none

theorem commentEnd?_append {passed cs comment rest : List Char}
    (h : commentEnd? passed cs = some (comment, rest)) : comment ++ rest = passed.reverse ++ cs := by
  fun_induction commentEnd? passed cs with
  | case1 passed tail =>
    simp only [Option.some.injEq, Prod.mk.injEq] at h
    simp [← h.1, ← h.2]
  | case2 passed c tail _ ih => simpa using ih h
  | case3 => simp at h

theorem commentEnd?_length {passed cs comment rest : List Char}
    (h : commentEnd? passed cs = some (comment, rest)) : rest.length < cs.length := by
  fun_induction commentEnd? passed cs with
  | case1 passed tail =>
    simp only [Option.some.injEq, Prod.mk.injEq] at h
    simp only [← h.2, List.length_cons]
    omega
  | case2 passed c tail _ ih =>
    have := ih h
    simp only [List.length_cons]
    omega
  | case3 => simp at h

theorem dropWhile_cons_split {p : Char → Bool} {cs rest : List Char} {c : Char}
    (h : cs.dropWhile p = c :: rest) : cs.takeWhile p ++ c :: rest = cs := by
  rw [← h, List.takeWhile_append_dropWhile]

/-- Cutting loses nothing: the piece and what is behind it are the text. -/
theorem next?_append {cs rest : List Char} {piece : Piece} (h : next? cs = some (piece, rest)) :
    piece.chars ++ rest = cs := by
  unfold next? at h
  split at h
  · simp at h
  · simp only [run, Option.some.injEq, Prod.mk.injEq] at h
    simp [← h.1, ← h.2, List.takeWhile_append_dropWhile]
  · rename_i tail
    obtain ⟨⟨comment, after⟩, hc, he⟩ := Option.map_eq_some_iff.mp h
    simp only [Prod.mk.injEq] at he
    have := commentEnd?_append hc
    simpa [← he.1, ← he.2] using this
  · rename_i tail
    split at h
    · simp at h
    · rename_i c after hd
      have hc : c = '\x60' := by
        have := List.head?_dropWhile_not (· != '\x60') tail
        simpa [hd] using this
      simp only [Option.some.injEq, Prod.mk.injEq] at h
      have hsplit := dropWhile_cons_split hd
      rw [hc] at hsplit
      rw [← h.1, ← h.2]
      simpa using hsplit
  · rename_i c tail _ _ _
    repeat' split at h
    all_goals first
      | simp at h; done
      | (simp only [run, Option.some.injEq, Prod.mk.injEq] at h
         simp [← h.1, ← h.2, List.takeWhile_append_dropWhile])

/-- Every piece takes at least one character. -/
theorem next?_length {cs rest : List Char} {piece : Piece} (h : next? cs = some (piece, rest)) :
    rest.length < cs.length := by
  unfold next? at h
  split at h
  · simp at h
  · rename_i tail
    simp only [run, Option.some.injEq, Prod.mk.injEq] at h
    have := Text.length_dropWhile_le (· != '\n') tail
    simp only [← h.2, List.length_cons]
    omega
  · rename_i tail
    obtain ⟨⟨comment, after⟩, hc, he⟩ := Option.map_eq_some_iff.mp h
    simp only [Prod.mk.injEq] at he
    have := commentEnd?_length hc
    simp only [← he.2, List.length_cons]
    omega
  · rename_i tail
    split at h
    · simp at h
    · rename_i c after hd
      have hle := Text.length_dropWhile_le (· != '\x60') tail
      simp only [hd, List.length_cons] at hle
      simp only [Option.some.injEq, Prod.mk.injEq] at h
      simp only [← h.2, List.length_cons]
      omega
  · rename_i c tail _ _ _
    have hle := fun p => Text.length_dropWhile_le p tail
    repeat' split at h
    all_goals first
      | simp at h; done
      | (simp only [run, Option.some.injEq, Prod.mk.injEq] at h
         simp only [← h.2, List.length_cons]
         first | exact Nat.lt_succ_of_le (hle _) | exact Nat.lt_succ_self _)

/-- The characters at the front of a text at which no piece can start. -/
def stray (passed : List Char) (cs : List Char) : List Char :=
  match cs with
  | [] => passed.reverse
  | c :: rest => if (next? cs).isSome then passed.reverse else stray (c :: passed) rest

end Piece

/-- The tokens of a text that starts at `pos`, behind the ones in `done` (latest first). -/
def Token.scanFrom (pos : Position) (done : List Token) (cs : List Char) :
    Except Error (List Token) :=
  match cs with
  | [] => .ok ((⟨"", pos⟩ :: done).reverse)
  | c :: tail =>
    match h : Piece.next? (c :: tail) with
    | none => .error (.parse (.stray (String.ofList (Piece.stray [] (c :: tail)))) pos)
    | some (piece, rest) =>
      have := Piece.next?_length h
      let after := piece.chars.foldl Position.advance pos
      if piece.skipped then scanFrom after done rest
      else scanFrom after (⟨String.ofList piece.chars, pos⟩ :: done) rest
termination_by cs.length
decreasing_by all_goals assumption

/-- The tokens of schema text. -/
def Token.scan (text : String) : Except Error (List Token) :=
  scanFrom .start [] text.toList

end WireSchema
