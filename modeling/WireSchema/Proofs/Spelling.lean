import WireSchema.Source.Grammar
import Mathlib.Data.List.Infix

/-!
# Texts that spell tokens

`Spelled toks cs` says that the characters `cs` are the tokens `toks` one after the other, with blanks
and comments between them. The only rule about what stands between tokens is that something must stand
between two words, which would otherwise be one. Scanning goes the other way: it takes the longest
piece at every place. A piece it takes is a token, a comment or a row of blanks of the spelling, since
none of these can be longer than it is: a word ends where no character of a word follows, a comment
ends at the first end of a comment, and so on.
-/

namespace WireSchema

/-- The texts that are one token: words, tags, line breaks and signs. -/
def isToken (text : String) : Bool :=
  Grammar.isIdentifier text || Grammar.isTag text || text == "\n" ||
    match text.toList with
    | [c] => Piece.isSign c
    | _ => false

/-- Characters that spell tokens. -/
inductive Spelled : List String → List Char → Prop where
  | nil : Spelled [] []
  | blank {toks : List String} {cs : List Char} {c : Char} :
      Piece.isBlank c = true → Spelled toks cs → Spelled toks (c :: cs)
  | comment {toks : List String} {cs body : List Char} :
      ¬ ['*', '/'] <:+: body → Spelled toks cs →
      Spelled toks ('/' :: '*' :: (body ++ '*' :: '/' :: cs))
  /-- A comment may also go on to the end of its line. -/
  | lineComment {toks : List String} {cs body : List Char} :
      '\n' ∉ body → (∀ c ∈ cs.head?, c = '\n') → Spelled toks cs →
      Spelled toks ('/' :: '/' :: (body ++ cs))
  /-- No word goes on behind its end. -/
  | token {toks : List String} {cs : List Char} {t : String} :
      isToken t = true →
      (Grammar.isIdentifier t = true → ∀ c ∈ cs.head?, Piece.isWordChar c = false) →
      Spelled toks cs → Spelled (t :: toks) (t.toList ++ cs)

namespace Piece

/-! ## Pieces -/

theorem ne_of_isWordStart {c d : Char} (h : isWordStart c = true) (hd : isWordStart d = false) :
    c ≠ d := by
  rintro rfl
  exact absurd (h.symm.trans hd) (by simp)

/-- A piece ends where the first character that fails its test stands. -/
theorem run_eq {test : Char → Bool} {body cs : List Char} (hbody : ∀ c ∈ body, test c = true)
    (hcs : ∀ c ∈ cs.head?, test c = false) (skipped : Bool) (first : List Char) :
    run skipped test first (body ++ cs) = (⟨first ++ body, skipped⟩, cs) := by
  have hstop : cs.takeWhile test = [] ∧ cs.dropWhile test = cs := by
    cases cs with
    | nil => exact ⟨rfl, rfl⟩
    | cons c cs =>
      have hc := hcs c rfl
      rw [List.takeWhile_cons, List.dropWhile_cons, hc]
      exact ⟨rfl, rfl⟩
  unfold run
  rw [List.takeWhile_append_of_pos hbody, List.dropWhile_append_of_pos hbody, hstop.1, hstop.2,
    List.append_nil]

/-- The piece at a character that starts neither a comment nor a tag. -/
theorem next?_cons {c : Char} (hslash : c ≠ '/') (hquote : c ≠ '\x60') (cs : List Char) :
    next? (c :: cs) =
      if c = '\n' then some (⟨[c], false⟩, cs)
      else if isBlank c then some (run true isBlank [c] cs)
      else if isWordStart c then some (run false isWordChar [c] cs)
      else if Text.isDecimalDigit c then some (run false Text.isDecimalDigit [c] cs)
      else if isSign c then some (⟨[c], false⟩, cs)
      else none := by
  rw [next?]
  · exact fun _ h _ => absurd h hslash
  · exact fun _ h _ => absurd h hslash
  · exact fun h => absurd h hquote

theorem next?_word {t : String} (ht : Grammar.isIdentifier t = true) {cs : List Char}
    (hcs : ∀ c ∈ cs.head?, isWordChar c = false) :
    next? (t.toList ++ cs) = some (⟨t.toList, false⟩, cs) := by
  unfold Grammar.isIdentifier at ht
  cases htext : t.toList with
  | nil =>
    rw [htext] at ht
    exact absurd ht (by simp)
  | cons c rest =>
    rw [htext] at ht
    obtain ⟨hc, hrest⟩ := Bool.and_eq_true_iff.mp ht
    have hne := fun d => ne_of_isWordStart (d := d) hc
    have hblank : isBlank c = false := by
      simp [isBlank, hne ' ' (by decide), hne '\t' (by decide), hne '\r' (by decide)]
    rw [List.cons_append, next?_cons (hne _ (by decide)) (hne _ (by decide)),
      if_neg (hne '\n' (by decide)), if_neg (by simp [hblank]), if_pos hc,
      run_eq (List.all_eq_true.mp hrest) hcs]
    rfl

theorem next?_tag {t : String} (ht : Grammar.isTag t = true) (cs : List Char) :
    next? (t.toList ++ cs) = some (⟨t.toList, false⟩, cs) := by
  unfold Grammar.isTag at ht
  split at ht
  · rename_i rest htext
    obtain ⟨hlast, hbody⟩ := Bool.and_eq_true_iff.mp ht
    have hsplit : rest = rest.dropLast ++ ['\x60'] :=
      (List.dropLast_append_getLast? _ (eq_of_beq hlast)).symm
    have hpass : ∀ c ∈ rest.dropLast, (c != '\x60') = true := by
      intro c hc
      simp only [Bool.not_eq_true', List.contains_eq_mem, decide_eq_false_iff_not] at hbody
      rw [bne_iff_ne]
      rintro rfl
      exact hbody hc
    rw [htext, hsplit, List.cons_append, List.append_assoc, next?]
    rw [List.dropWhile_append_of_pos hpass, List.takeWhile_append_of_pos hpass]
    simp
  · exact absurd ht (by simp)

theorem next?_sign {c : Char} (hc : isSign c = true) (cs : List Char) :
    next? (c :: cs) = some (⟨[c], false⟩, cs) := by
  have hmem : c ∈ ['\x7b', '\x7d', '[', ']', '(', ')', '*', ',', ';', '=', '.'] :=
    List.contains_iff_mem.mp hc
  -- As a `List.all`, so that only the signs are gone through and not every character.
  have hall : ['\x7b', '\x7d', '[', ']', '(', ')', '*', ',', ';', '=', '.'].all (fun d =>
      decide ((d ≠ '/' ∧ d ≠ '\x60' ∧ d ≠ '\n') ∧ isBlank d = false ∧ isWordStart d = false ∧
        Text.isDecimalDigit d = false)) = true := by
    decide
  obtain ⟨⟨hslash, hquote, hline⟩, hblank, hword, hdigit⟩ :=
    of_decide_eq_true (List.all_eq_true.mp hall c hmem)
  rw [next?_cons hslash hquote, if_neg hline, if_neg (by simp [hblank]), if_neg (by simp [hword]),
    if_neg (by simp [hdigit]), if_pos hc]

/-- **A token is the piece at its place.** -/
theorem next?_token {t : String} (ht : isToken t = true) {cs : List Char}
    (hcs : Grammar.isIdentifier t = true → ∀ c ∈ cs.head?, isWordChar c = false) :
    next? (t.toList ++ cs) = some (⟨t.toList, false⟩, cs) := by
  unfold isToken at ht
  rcases Bool.or_eq_true_iff.mp ht with ht | hsign
  · rcases Bool.or_eq_true_iff.mp ht with ht | hline
    · rcases Bool.or_eq_true_iff.mp ht with hword | htag
      · exact next?_word hword (hcs hword)
      · exact next?_tag htag cs
    · rw [eq_of_beq hline]
      rfl
  · split at hsign
    · rename_i c htext
      rw [htext]
      exact next?_sign hsign cs
    · exact absurd hsign (by simp)

/-- A comment ends at the first place where it can. -/
theorem commentEnd?_of_not_infix {body : List Char} (h : ¬ ['*', '/'] <:+: body) (cs : List Char)
    (passed : List Char) : commentEnd? passed (body ++ '*' :: '/' :: cs)
      = some (passed.reverse ++ body ++ ['*', '/'], cs) := by
  induction body generalizing passed with
  | nil => simp [commentEnd?]
  | cons c body ih =>
    have hbody : ¬ ['*', '/'] <:+: body := fun hin => h (hin.trans (List.suffix_cons c body).isInfix)
    rw [List.cons_append, commentEnd?, ih hbody]
    · simp
    · -- the end does not begin here, neither inside the comment nor with its last character
      intro rest hc hrest
      cases body with
      | nil => exact absurd (List.cons.inj hrest).1 (by decide)
      | cons d body =>
        rw [hc, (List.cons.inj hrest).1] at h
        exact h ⟨[], body, rfl⟩

end Piece

namespace Token

open Piece

/-! ## Scanning -/

variable {pos : Position} {done : List Token} {cs : List Char}

/-- **The step.** A piece is taken, and kept if it is a token. -/
theorem scanFrom_piece {piece : Piece} {rest : List Char} (h : next? cs = some (piece, rest)) :
    scanFrom pos done cs = scanFrom (piece.chars.foldl Position.advance pos)
      (if piece.skipped then done else ⟨String.ofList piece.chars, pos⟩ :: done) rest := by
  cases cs with
  | nil => exact absurd h (by simp [next?])
  | cons c tail =>
    rw [scanFrom]
    split
    · rename_i hnone
      rw [h] at hnone
      exact absurd hnone (by simp)
    · rename_i piece' rest' hsome
      rw [h] at hsome
      obtain ⟨rfl, rfl⟩ := Prod.mk.inj (Option.some.inj hsome)
      dsimp only
      split <;> rfl

/-- A row of blanks can be passed one by one. -/
theorem scanFrom_blank {b : Char} (hb : isBlank b = true) :
    scanFrom pos done (b :: cs) = scanFrom (pos.advance b) done cs := by
  have hrun : ∀ {b : Char} (cs : List Char), isBlank b = true →
      next? (b :: cs) = some (run true isBlank [b] cs) := by
    intro b cs hb
    have hne : ∀ d, isBlank d = false → b ≠ d := by
      rintro d hd rfl
      exact absurd (hb.symm.trans hd) (by simp)
    rw [next?_cons (hne _ (by decide)) (hne _ (by decide)), if_neg (hne '\n' (by decide)), if_pos hb]
  rw [scanFrom_piece (hrun cs hb)]
  cases cs with
  | nil => rfl
  | cons c cs =>
    by_cases hc : isBlank c = true
    · rw [scanFrom_piece (hrun cs hc)]
      simp [hc]
    · simp [hc]

/-- **What is spelled is scanned**, token by token, with an empty token at the end. -/
theorem scanFrom_of_spelled {toks : List String} (h : Spelled toks cs) (pos : Position)
    (done : List Token) : ∃ tokens, scanFrom pos done cs = .ok (done.reverse ++ tokens) ∧
      tokens.map (·.text) = toks ++ [""] := by
  induction h generalizing pos done with
  | nil => exact ⟨[⟨"", pos⟩], by rw [scanFrom, List.reverse_cons], rfl⟩
  | blank hc _ ih =>
    rw [scanFrom_blank hc]
    exact ih _ _
  | @comment toks cs body hbody _ ih =>
    have hnext : next? ('/' :: '*' :: (body ++ '*' :: '/' :: cs))
        = some (⟨'/' :: '*' :: body ++ ['*', '/'], true⟩, cs) := by
      rw [next?, commentEnd?_of_not_infix hbody]
      rfl
    rw [scanFrom_piece hnext]
    exact ih _ _
  | @lineComment toks cs body hbody hcs _ ih =>
    have hpass : ∀ c ∈ body, (c != '\n') = true := by
      intro c hc
      rw [bne_iff_ne]
      rintro rfl
      exact hbody hc
    have hnext : next? ('/' :: '/' :: (body ++ cs)) = some (⟨'/' :: '/' :: body, true⟩, cs) := by
      rw [next?, run_eq hpass fun c hc => by rw [hcs c hc]; rfl]
      rfl
    rw [scanFrom_piece hnext]
    exact ih _ _
  | @token toks cs t ht hcs _ ih =>
    rw [scanFrom_piece (next?_token ht hcs)]
    obtain ⟨tokens, hscan, htexts⟩ := ih (t.toList.foldl Position.advance pos) (⟨t, pos⟩ :: done)
    refine ⟨⟨t, pos⟩ :: tokens, ?_, by rw [List.map_cons, htexts]; rfl⟩
    rw [if_neg (by simp), String.ofList_toList, hscan, List.reverse_cons, List.append_assoc]
    rfl

end Token

end WireSchema
