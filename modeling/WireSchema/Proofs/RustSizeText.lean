import WireSchema.Proofs.LegalNames
import WireSchema.Proofs.RustExpressions
import WireSchema.Proofs.SizeSums

/-!
# The text of sizes

The text of a size is read back here. Its words and signs are those of its parts, and they are
parsed to an expression that has the parts where the tree of the size has them. This takes a size
that needs no brackets but those in its text, and `IsProper` says which these are. The terms of a
struct are written one after the other with plus signs between them, so the text takes apart what is
together in the tree of a term: everything is **added up from the left**.

All sizes that are generated are proper. One that begins with a conditional is nothing else, and it
gets brackets where other terms follow: **without them the conditional would be the whole body**.
-/

namespace WireSchema.RustCode

open Naming (rustField)
open Piece (isWordChar isWordStart)

/-! ## Cutting a text -/

/-- A text that does not begin in the middle of a word. -/
def opensApart (text : String) : Bool :=
  text.toList.head?.any fun c => !isWordChar c

/-- A text that does not end in the middle of a word. -/
def closesApart (text : String) : Bool :=
  text.toList.getLast?.any fun c => !isWordChar c

theorem closesApart_append (a : String) {b : String} (h : closesApart b = true) :
    closesApart (a ++ b) = true := by
  unfold closesApart at h ⊢
  rw [String.toList_append, List.getLast?_append]
  cases hb : b.toList.getLast? with
  | none => rw [hb] at h; cases h
  | some c => rwa [hb] at h

theorem lexAfter_of_word {w : List Char} (h : ∀ c ∈ w, isWordChar c = true)
    (pending cs : List Char) : lexAfter pending (w ++ cs) = lexAfter (pending ++ w) cs := by
  induction w generalizing pending with
  | nil => rw [List.nil_append, List.append_nil]
  | cons c w ih =>
    obtain ⟨hc, hw⟩ := List.forall_mem_cons.mp h
    rw [List.cons_append, lexAfter, if_pos hc, ih hw, List.append_assoc, List.singleton_append]

/-- A word ends where another character follows. -/
theorem lexAfter_of_apart {c : Char} (hc : isWordChar c = false) (pending cs : List Char) :
    lexAfter pending (c :: cs) = Lexeme.ofPending pending ++ lexAfter [] (c :: cs) := by
  have hword : ¬ isWordChar c = true := by rw [hc]; exact Bool.false_ne_true
  rw [lexAfter, lexAfter, if_neg hword, if_neg hword, List.append_assoc]
  rfl

/-- What follows a text makes no difference to it, if its last word cannot go on. -/
theorem lexAfter_append {cs rest : List Char} {pending : List Char}
    (h : (cs.getLast?.any fun c => !isWordChar c) = true ∨
      (rest.head?.any fun c => !isWordChar c) = true) :
    lexAfter pending (cs ++ rest) = lexAfter pending cs ++ lexAfter [] rest := by
  induction cs generalizing pending with
  | nil =>
    rcases h with h | h
    · cases h
    · cases rest with
      | nil => cases h
      | cons c rest =>
        have hc : isWordChar c = false := by simpa using h
        rw [List.nil_append, lexAfter_of_apart hc]
        rfl
  | cons c cs ih =>
    -- behind the first character there may be nothing left to end with
    have hrest : (cs.getLast?.any fun c => !isWordChar c) = true ∨
        (rest.head?.any fun c => !isWordChar c) = true ∨ (cs = [] ∧ isWordChar c = false) := by
      rcases h with h | h
      · cases cs with
        | nil => exact .inr (.inr ⟨rfl, by simpa using h⟩)
        | cons d cs => exact .inl (by rwa [List.getLast?_cons_cons] at h)
      · exact .inr (.inl h)
    rw [List.cons_append, lexAfter, lexAfter]
    by_cases hc : isWordChar c = true
    · rw [if_pos hc, if_pos hc]
      rcases hrest with h | h | ⟨_, h⟩
      · exact ih (.inl h)
      · exact ih (.inr h)
      · exact absurd hc (by rw [h]; exact Bool.false_ne_true)
    · rw [if_neg hc, if_neg hc, List.append_assoc _ (lexAfter [] cs)]
      rcases hrest with h | h | ⟨rfl, _⟩
      · rw [ih (.inl h)]
      · rw [ih (.inr h)]
      · rfl

theorem lex_append_of_closes {a : String} (h : closesApart a = true) (b : String) :
    lex (a ++ b) = lex a ++ lex b := by
  rw [lex, String.toList_append]
  exact lexAfter_append (.inl h)

theorem lex_append_of_opens (a : String) {b : String} (h : opensApart b = true) :
    lex (a ++ b) = lex a ++ lex b := by
  rw [lex, String.toList_append]
  exact lexAfter_append (.inr h)

/-- A text between two others, which is cut off from both. -/
theorem lex_between {b : String} (hopens : opensApart b = true) (hcloses : closesApart b = true)
    (a c : String) : lex (a ++ b ++ c) = lex a ++ lex b ++ lex c := by
  rw [lex_append_of_closes (closesApart_append a hcloses), lex_append_of_opens a hopens]

/-- A row of word characters is one word. -/
theorem lex_word {w : String} (h : ∀ c ∈ w.toList, isWordChar c = true) (hne : w.toList ≠ []) :
    lex w = [.word w] := by
  have hword := lexAfter_of_word h [] []
  rw [List.append_nil, List.nil_append] at hword
  rw [lex, hword, lexAfter, Lexeme.ofPending, if_neg (by rwa [List.isEmpty_iff]),
    String.ofList_toList]

theorem lex_identifier {w : String} (h : Grammar.isIdentifier w = true) : lex w = [.word w] := by
  obtain ⟨⟨c, rest, hw, _⟩, hchars⟩ := Grammar.isIdentifier_iff.mp h
  exact lex_word hchars (by rw [hw]; exact List.cons_ne_nil c rest)

theorem isWordChar_of_isDigit {c : Char} (h : c.isDigit = true) : isWordChar c = true := by
  unfold isWordChar Char.isAlphanum
  rw [h, Bool.or_true, Bool.true_or]

theorem lex_toString (n : Nat) : lex (toString n) = [.word (toString n)] := by
  have hdigits : (toString n).toList = Nat.toDigits 10 n := Nat.toList_repr
  refine lex_word (fun c hc => ?_) (by rw [hdigits]; exact Nat.toDigits_ne_nil)
  rw [hdigits] at hc
  exact isWordChar_of_isDigit (isDigit_of_mem_toDigits c hc)

/-! ## Expressions that need no more brackets -/

/-- The words and signs of a call without arguments. -/
def callLexemes (method : String) : List Lexeme :=
  [.sign '.', .word method, .sign '(', .sign ')']

/-- What stands in front of the function that a value is given to if it is there. -/
def mapOrLexemes : List Lexeme :=
  callLexemes "as_ref" ++ [.sign '.', .word "map_or", .sign '(', .word "0", .sign ',', .sign '|']

/-- What stands in front of the function that items are given to. -/
def iterLexemes : List Lexeme :=
  callLexemes "iter" ++ [.sign '.', .word "map", .sign '(', .sign '|']

/-- What stands behind it. -/
def sumLexemes : List Lexeme :=
  [.sign ')', .sign '.', .word "sum", .sign ':', .sign ':', .sign '<', .word "usize", .sign '>',
    .sign '(', .sign ')']

/-- What stands behind the condition. -/
def thenLexemes : List Lexeme :=
  callLexemes "is_some" ++ [.sign '\x7b']

/-- What stands between the blocks of a conditional. -/
def elseLexemes : List Lexeme :=
  [.sign '\x7d', .word "else", .sign '\x7b']

namespace Place

/-- Names that a text can have at this place. -/
def IsProper : Place → Prop
  | .field name => Grammar.isIdentifier name = true
  | .ref name => Grammar.isIdentifier name = true ∧ name ≠ "if"

def lexemes : Place → List Lexeme
  | .field name => [.word "self", .sign '.', .word name]
  | .ref name => [.word name]

/-- The expression that stands for the value at a place. -/
def tree : Place → Expr
  | .field name => .field (.var "self") name
  | .ref name => .var name

end Place

namespace SizeExpr

/-- An expression that is no sum. -/
def isTerm : SizeExpr → Bool
  | .add _ _ => false
  | _ => true

/-- An expression that is neither a sum nor a product. -/
def isOperand : SizeExpr → Bool
  | .add _ _ => false
  | .mul _ _ => false
  | _ => true

/-- An expression whose text begins with a conditional. -/
def leads : SizeExpr → Bool
  | .ifSome _ _ _ => true
  | .add a _ => a.leads
  | .mul a _ => a.leads
  | _ => false

/-- An expression whose text means what its tree says. -/
def IsProper : SizeExpr → Prop
  | .literal _ => True
  | .length p => p.IsProper
  | .encodedLen _ p => p.IsProper
  | .add a b => a.IsProper ∧ b.IsProper ∧ b.isTerm = true
  | .mul a b => a.IsProper ∧ b.IsProper ∧ a.isTerm = true ∧ b.isOperand = true
  | .ifSome p yes no =>
    p.IsProper ∧ (yes.IsProper ∧ yes.leads = false) ∧ no.IsProper ∧ no.leads = false
  | .mapOr p v body => p.IsProper ∧ Grammar.isIdentifier v = true ∧ body.IsProper
  | .sumOver p v body => p.IsProper ∧ Grammar.isIdentifier v = true ∧ body.IsProper
  | .paren e => e.IsProper

def lexemes : SizeExpr → List Lexeme
  | .literal n => [.word (toString n)]
  | .length p => p.lexemes ++ callLexemes "len"
  | .encodedLen _ p => p.lexemes ++ callLexemes "encoded_len"
  | .add a b => a.lexemes ++ [.sign '+'] ++ b.lexemes
  | .mul a b => a.lexemes ++ [.sign '*'] ++ b.lexemes
  | .ifSome p yes no =>
    [.word "if"] ++ p.lexemes ++ thenLexemes ++ yes.lexemes ++ elseLexemes ++ no.lexemes
      ++ [.sign '\x7d']
  | .mapOr p v body =>
    p.lexemes ++ mapOrLexemes ++ [.word v] ++ [.sign '|'] ++ body.lexemes ++ [.sign ')']
  | .sumOver p v body =>
    p.lexemes ++ iterLexemes ++ [.word v] ++ [.sign '|'] ++ body.lexemes ++ sumLexemes
  | .paren e => [.sign '('] ++ e.lexemes ++ [.sign ')']

/-- The expression with the same parts. -/
def tree : SizeExpr → Expr
  | .literal n => .literal n
  | .length p => .call p.tree "len"
  | .encodedLen _ p => .call p.tree "encoded_len"
  | .add a b => .add a.tree b.tree
  | .mul a b => .mul a.tree b.tree
  | .ifSome p yes no => .cond (.call p.tree "is_some") yes.tree no.tree
  | .mapOr p v body => .mapOr (.call p.tree "as_ref") (.literal 0) v body.tree
  | .sumOver p v body => .total (.map (.call p.tree "iter") v body.tree)
  | .paren e => e.tree

end SizeExpr

theorem Place.lex_text {p : Place} (h : p.IsProper) : lex p.text = p.lexemes := by
  cases p with
  | field name =>
    have hself : lex "self." = [.word "self", .sign '.'] := by decide
    change lex ("self." ++ name) = _
    rw [lex_append_of_closes (by decide), hself, lex_identifier h]
    rfl
  | ref name => exact lex_identifier h.1

/-- A call of a place that is given a function. -/
theorem lex_closure {p : Place} (hp : p.IsProper) {v : String} (hv : Grammar.isIdentifier v = true)
    {opening closing : String} (hopens : opensApart opening = true)
    (hcloses : closesApart opening = true) (hend : opensApart closing = true) (body : String) :
    lex (p.text ++ opening ++ v ++ "| " ++ body ++ closing)
      = p.lexemes ++ lex opening ++ [.word v] ++ [.sign '|'] ++ lex body ++ lex closing := by
  have hbar : lex "| " = [.sign '|'] := by decide
  rw [lex_append_of_opens _ hend, lex_between (by decide) (by decide), hbar,
    lex_between hopens hcloses, Place.lex_text hp, lex_identifier hv]

/-- **The words and signs of a size are those of its parts.** -/
theorem SizeExpr.lex_text {e : SizeExpr} (h : e.IsProper) : lex e.text = e.lexemes := by
  induction e with
  | literal n => exact lex_toString n
  | length p =>
    have hcall : lex ".len()" = callLexemes "len" := by decide
    change lex (p.text ++ ".len()") = _
    rw [lex_append_of_opens _ (by decide), hcall, Place.lex_text h, lexemes]
  | encodedLen id p =>
    have hcall : lex ".encoded_len()" = callLexemes "encoded_len" := by decide
    change lex (p.text ++ ".encoded_len()") = _
    rw [lex_append_of_opens _ (by decide), hcall, Place.lex_text h, lexemes]
  | add a b iha ihb =>
    have hplus : lex " + " = [.sign '+'] := by decide
    change lex (a.text ++ " + " ++ b.text) = _
    rw [lex_between (by decide) (by decide), hplus, iha h.1, ihb h.2.1, lexemes]
  | mul a b iha ihb =>
    have hstar : lex " * " = [.sign '*'] := by decide
    change lex (a.text ++ " * " ++ b.text) = _
    rw [lex_between (by decide) (by decide), hstar, iha h.1, ihb h.2.1, lexemes]
  | ifSome p yes no ihyes ihno =>
    obtain ⟨hp, ⟨hyes, _⟩, hno, _⟩ := h
    have hif : lex "if " = [.word "if"] := by decide
    have hcall : lex ".is_some() \x7b " = thenLexemes := by decide
    have helse : lex " \x7d else \x7b " = elseLexemes := by decide
    have hend : lex " \x7d" = [.sign '\x7d'] := by decide
    change lex ("if " ++ p.text ++ ".is_some() \x7b " ++ yes.text ++ " \x7d else \x7b " ++ no.text
      ++ " \x7d") = _
    rw [lex_append_of_opens _ (by decide), hend, lex_between (by decide) (by decide), helse,
      lex_between (by decide) (by decide), hcall, lex_append_of_closes (by decide), hif,
      Place.lex_text hp, ihyes hyes, ihno hno, lexemes]
  | mapOr p v body ih =>
    obtain ⟨hp, hv, hbody⟩ := h
    have hcall : lex ".as_ref().map_or(0, |" = mapOrLexemes := by decide
    have hclose : lex ")" = [.sign ')'] := by decide
    change lex (p.text ++ ".as_ref().map_or(0, |" ++ v ++ "| " ++ body.text ++ ")") = _
    rw [lex_closure hp hv (by decide) (by decide) (by decide), hcall, hclose, ih hbody, lexemes]
  | sumOver p v body ih =>
    obtain ⟨hp, hv, hbody⟩ := h
    have hcall : lex ".iter().map(|" = iterLexemes := by decide
    have hclose : lex ").sum::<usize>()" = sumLexemes := by decide
    change lex (p.text ++ ".iter().map(|" ++ v ++ "| " ++ body.text ++ ").sum::<usize>()") = _
    rw [lex_closure hp hv (by decide) (by decide) (by decide), hcall, hclose, ih hbody, lexemes]
  | paren e ih =>
    have hopen : lex "(" = [.sign '('] := by decide
    have hclose : lex ")" = [.sign ')'] := by decide
    change lex ("(" ++ e.text ++ ")") = _
    rw [lex_append_of_opens _ (by decide), hclose, lex_append_of_closes (by decide), hopen, ih h,
      lexemes]

/-! ## Parsing -/

@[simp] theorem sign?_self (c : Char) (rest : Rest) : sign? c (.sign c :: rest) = some rest :=
  if_pos rfl

theorem sign?_of_ne {c d : Char} (h : d ≠ c) (rest : Rest) : sign? c (.sign d :: rest) = none :=
  if_neg h

@[simp] theorem sign?_word (c : Char) (w : String) (rest : Rest) :
    sign? c (.word w :: rest) = none :=
  rfl

@[simp] theorem word?_word (w : String) (rest : Rest) : word? (.word w :: rest) = some (w, rest) :=
  rfl

theorem goOn_of_lt {α : Type} {ts rest : Rest} (h : rest.length < ts.length)
    (next : rest.length < ts.length → Option α) : goOn ts rest next = next h :=
  dif_pos h

/-- Something has been read. -/
theorem length_lt_append {ls : List Lexeme} (h : ls ≠ []) (rest : Rest) :
    rest.length < (ls ++ rest).length := by
  have hpos := List.length_pos_iff.mpr h
  rw [List.length_append]
  omega

/-- What follows does not go on with an operand. -/
def EndsOperand (rest : Rest) : Prop :=
  sign? '.' rest = none

/-- What follows does not go on with a term. -/
def EndsTerm (rest : Rest) : Prop :=
  EndsOperand rest ∧ sign? '*' rest = none

/-- What follows does not go on with a sum. -/
def EndsSum (rest : Rest) : Prop :=
  EndsTerm rest ∧ sign? '+' rest = none

theorem endsSum_nil : EndsSum [] :=
  ⟨⟨rfl, rfl⟩, rfl⟩

theorem endsSum_sign {c : Char} (hdot : c ≠ '.') (hstar : c ≠ '*') (hplus : c ≠ '+') (rest : Rest) :
    EndsSum (.sign c :: rest) :=
  ⟨⟨sign?_of_ne hdot rest, sign?_of_ne hstar rest⟩, sign?_of_ne hplus rest⟩

/-- A text that is an operand of a product. -/
def ParsesOperand (ls : List Lexeme) (e : Expr) : Prop :=
  ∀ rest, EndsOperand rest → parseOperand (ls ++ rest) = some (e, rest)

/-- A text that is a term of a sum, or the beginning of one. -/
def ParsesTerm (ls : List Lexeme) (e : Expr) : Prop :=
  ∀ rest, EndsOperand rest → parseProduct (ls ++ rest) = moreFactors e rest

/-- A text that is a sum, or the beginning of one. -/
def ParsesSum (ls : List Lexeme) (e : Expr) : Prop :=
  ∀ rest, EndsTerm rest → parseSum (ls ++ rest) = moreTerms e rest

theorem moreTerms_of_ends {rest : Rest} (h : EndsSum rest) (e : Expr) :
    moreTerms e rest = some (e, rest) := by
  rw [moreTerms, h.2]

theorem moreFactors_of_ends {rest : Rest} (h : EndsTerm rest) (e : Expr) :
    moreFactors e rest = some (e, rest) := by
  rw [moreFactors, h.2]

theorem moreCalls_of_ends {rest : Rest} (h : EndsOperand rest) (e : Expr) :
    moreCalls e rest = some (e, rest) := by
  rw [moreCalls, h]

theorem parseOperand_nil : parseOperand [] = none := by
  rw [parseOperand, parsePrimary]
  rfl

theorem ParsesOperand.ne_nil {ls : List Lexeme} {e : Expr} (h : ParsesOperand ls e) : ls ≠ [] := by
  rintro rfl
  have hparse := h [] endsSum_nil.1.1
  rw [List.append_nil, parseOperand_nil] at hparse
  cases hparse

theorem ParsesTerm.ne_nil {ls : List Lexeme} {e : Expr} (h : ParsesTerm ls e) : ls ≠ [] := by
  rintro rfl
  have hparse := h [] endsSum_nil.1.1
  rw [List.append_nil, parseProduct, parseOperand_nil, moreFactors_of_ends endsSum_nil.1] at hparse
  cases hparse

theorem ParsesOperand.term {ls : List Lexeme} {e : Expr} (h : ParsesOperand ls e) :
    ParsesTerm ls e := by
  intro rest hrest
  rw [parseProduct, h rest hrest]
  exact goOn_of_lt (length_lt_append h.ne_nil rest) fun _ => moreFactors e rest

theorem ParsesTerm.sum {ls : List Lexeme} {e : Expr} (h : ParsesTerm ls e) : ParsesSum ls e := by
  intro rest hrest
  rw [parseSum, h rest hrest.1, moreFactors_of_ends hrest]
  exact goOn_of_lt (length_lt_append h.ne_nil rest) fun _ => moreTerms e rest

/-- A sum that nothing is added to. -/
theorem ParsesSum.whole {ls : List Lexeme} {e : Expr} (h : ParsesSum ls e) {rest : Rest}
    (hrest : EndsSum rest) : parseSum (ls ++ rest) = some (e, rest) := by
  rw [h rest hrest.1, moreTerms_of_ends hrest]

/-! ### Sums and products -/

theorem parsesTerm_mul {la lb : List Lexeme} {a b : Expr} (ha : ParsesTerm la a)
    (hb : ParsesOperand lb b) : ParsesTerm (la ++ [.sign '*'] ++ lb) (.mul a b) := by
  intro rest hrest
  have hstar : EndsOperand (.sign '*' :: (lb ++ rest)) := sign?_of_ne (by decide) _
  have hlt := length_lt_append (List.cons_ne_nil (.sign '*') lb) rest
  rw [List.append_assoc, List.append_assoc, List.singleton_append, ha _ hstar, moreFactors,
    sign?_self]
  dsimp only
  rw [goOn_of_lt (Nat.lt_succ_self _), hb rest hrest]
  exact goOn_of_lt hlt fun _ => moreFactors (.mul a b) rest

/-- One more term. -/
theorem moreTerms_plus {lb : List Lexeme} {b : Expr} (hb : ParsesTerm lb b) (a : Expr)
    {rest : Rest} (hrest : EndsTerm rest) :
    moreTerms a (.sign '+' :: (lb ++ rest)) = moreTerms (.add a b) rest := by
  have hlt := length_lt_append (List.cons_ne_nil (.sign '+') lb) rest
  rw [moreTerms, sign?_self]
  dsimp only
  rw [goOn_of_lt (Nat.lt_succ_self _), hb rest hrest.1, moreFactors_of_ends hrest]
  exact goOn_of_lt hlt fun _ => moreTerms (.add a b) rest

theorem endsTerm_plus (rest : Rest) : EndsTerm (.sign '+' :: rest) :=
  ⟨sign?_of_ne (by decide) _, sign?_of_ne (by decide) _⟩

theorem parsesSum_add {la lb : List Lexeme} {a b : Expr} (ha : ParsesSum la a)
    (hb : ParsesTerm lb b) : ParsesSum (la ++ [.sign '+'] ++ lb) (.add a b) := by
  intro rest hrest
  rw [List.append_assoc, List.append_assoc, List.singleton_append, ha _ (endsTerm_plus _),
    moreTerms_plus hb a hrest]

/-! ### Operands -/

theorem parseOperand_of_primary {ts rest : Rest} {a : Expr}
    (h : parsePrimary ts = some (a, rest)) (hlt : rest.length < ts.length) :
    parseOperand ts = moreCalls a rest := by
  rw [parseOperand, h]
  exact goOn_of_lt hlt fun _ => moreCalls a rest

theorem parsesOperand_literal (n : Nat) : ParsesOperand [.word (toString n)] (.literal n) := by
  intro rest hrest
  have hdigits : (toString n).toList = Nat.toDigits 10 n := Nat.toList_repr
  have hall : (Nat.toDigits 10 n).all Char.isDigit = true :=
    List.all_eq_true.mpr isDigit_of_mem_toDigits
  have hvalue : Nat.ofDigitChars 10 (Nat.toDigits 10 n) 0 = n :=
    Nat.ofDigitChars_toDigits (by decide) (by decide)
  have hif : toString n ≠ "if" := by
    intro heq
    rw [← hdigits, heq] at hall
    exact absurd hall (by decide)
  have hprimary : parsePrimary (.word (toString n) :: rest) = some (.literal n, rest) := by
    rw [parsePrimary, sign?_word]
    dsimp only
    rw [word?_word]
    change (if toString n = "if" then _ else _) = _
    rw [if_neg hif, hdigits, if_pos hall, hvalue]
  rw [List.singleton_append, parseOperand_of_primary hprimary (Nat.lt_succ_self _),
    moreCalls_of_ends hrest]

theorem parsesOperand_constant :
    ParsesOperand [.word "Self", .sign ':', .sign ':', .word "ENCODED_SIZE"]
      (.constant "Self" "ENCODED_SIZE") := by
  intro rest hrest
  have hprimary : parsePrimary ([.word "Self", .sign ':', .sign ':', .word "ENCODED_SIZE"] ++ rest)
      = some (.constant "Self" "ENCODED_SIZE", rest) := by
    have hif : "Self" ≠ "if" := by decide
    have hdigits : ¬ "Self".toList.all Char.isDigit = true := by decide
    rw [List.cons_append, parsePrimary, sign?_word]
    simp only [word?_word, Option.bind_eq_bind, Option.bind_some, if_neg hif, if_neg hdigits]
    rfl
  rw [parseOperand_of_primary hprimary (length_lt_append (List.cons_ne_nil _ _) rest),
    moreCalls_of_ends hrest]

theorem parsesOperand_paren {ls : List Lexeme} {e : Expr} (h : ParsesSum ls e) :
    ParsesOperand ([.sign '('] ++ ls ++ [.sign ')']) e := by
  intro rest hrest
  have hclose : EndsSum (.sign ')' :: rest) := endsSum_sign (by decide) (by decide) (by decide) rest
  have hprimary : parsePrimary (.sign '(' :: (ls ++ .sign ')' :: rest)) = some (e, rest) := by
    rw [parsePrimary, sign?_self]
    dsimp only
    rw [goOn_of_lt (Nat.lt_succ_self _), h.whole hclose]
    simp only [Option.bind_eq_bind, Option.bind_some, sign?_self]
    rfl
  have hlt : rest.length < (Lexeme.sign '(' :: (ls ++ .sign ')' :: rest)).length := by
    simp only [List.length_cons, List.length_append]
    omega
  rw [List.append_assoc, List.append_assoc, List.singleton_append, List.singleton_append,
    parseOperand_of_primary hprimary hlt, moreCalls_of_ends hrest]

theorem not_isDigit_of_isWordStart {c : Char} (h : isWordStart c = true) : ¬ c.isDigit = true := by
  intro hdigit
  rcases (Bool.or_eq_true _ _).mp h with hletter | hunderscore
  · unfold Char.isAlpha Char.isUpper Char.isLower at hletter
    unfold Char.isDigit at hdigit
    grind
  · rw [eq_of_beq hunderscore] at hdigit
    exact absurd hdigit (by decide)

/-- A name is none of the other things that words can be. -/
theorem parsePrimary_var {x : String} (hx : Grammar.isIdentifier x = true) (hif : x ≠ "if")
    (rest : Rest) :
    parsePrimary (.word x :: .sign '.' :: rest) = some (.var x, .sign '.' :: rest) := by
  obtain ⟨⟨c, cs, hchars, hstart⟩, _⟩ := Grammar.isIdentifier_iff.mp hx
  have hdigits : ¬ x.toList.all Char.isDigit = true := by
    rw [hchars, List.all_cons, Bool.and_eq_true]
    exact fun hall => not_isDigit_of_isWordStart hstart hall.1
  have hpath : signs? [':', ':'] (.sign '.' :: rest) = none := by
    rw [signs?, List.foldlM_cons, sign?_of_ne (by decide)]
    rfl
  rw [parsePrimary]
  simp only [sign?_word, word?_word, Option.bind_eq_bind, Option.bind_some]
  rw [if_neg hif, if_neg hdigits, hpath]

/-- A name without a bracket behind it is a field. -/
theorem moreCalls_field (a : Expr) (name : String) (rest : Rest) :
    moreCalls a (.sign '.' :: .word name :: .sign '.' :: rest)
      = moreCalls (.field a name) (.sign '.' :: rest) := by
  have htyped : typedCall? (.sign '.' :: rest) = none := by
    rw [typedCall?, signs?, List.foldlM_cons, sign?_of_ne (by decide)]
    rfl
  have hbracket : sign? '(' (.sign '.' :: rest) = none := sign?_of_ne (by decide) rest
  have hlt : (Lexeme.sign '.' :: rest).length
      < (Lexeme.sign '.' :: .word name :: .sign '.' :: rest).length := by
    simp only [List.length_cons]
    omega
  rw [moreCalls]
  simp only [sign?_self, word?_word, Option.bind_eq_bind, Option.bind_some, htyped, hbracket,
    goOn_of_lt hlt]

/-- What follows a place is the first thing that is done with the value there. -/
theorem parseOperand_place {p : Place} (h : p.IsProper) (rest : Rest) :
    parseOperand (p.lexemes ++ .sign '.' :: rest) = moreCalls p.tree (.sign '.' :: rest) := by
  cases p with
  | ref name =>
    rw [Place.lexemes, List.singleton_append,
      parseOperand_of_primary (parsePrimary_var h.1 h.2 rest) (Nat.lt_succ_self _)]
    rfl
  | field name =>
    have hself := parsePrimary_var (x := "self") (by decide) (by decide)
      (.word name :: .sign '.' :: rest)
    change parseOperand (.word "self" :: .sign '.' :: .word name :: .sign '.' :: rest) = _
    rw [parseOperand_of_primary hself (Nat.lt_succ_self _)]
    exact moreCalls_field _ name rest

/-- A bracket behind a name makes it a method. -/
theorem moreCalls_method {a b : Expr} {method : String} {ts rest : Rest}
    (h : parseArguments a method ts = some (b, rest)) (hlt : rest.length < ts.length) :
    moreCalls a (.sign '.' :: .word method :: .sign '(' :: ts) = moreCalls b rest := by
  have hcall : ts.length < (Lexeme.sign '.' :: .word method :: .sign '(' :: ts).length := by
    simp only [List.length_cons]
    omega
  rw [moreCalls]
  simp only [sign?_self, word?_word, Option.bind_eq_bind, Option.bind_some, goOn_of_lt hcall, h,
    goOn_of_lt (Nat.lt_trans hlt hcall)]

theorem moreCalls_call {method : String} (hmapOr : method ≠ "map_or") (hmap : method ≠ "map")
    (a : Expr) (rest : Rest) :
    moreCalls a (callLexemes method ++ rest) = moreCalls (.call a method) rest := by
  have harguments : parseArguments a method (.sign ')' :: rest) = some (.call a method, rest) := by
    rw [parseArguments, if_neg hmapOr, if_neg hmap, sign?_self]
    rfl
  exact moreCalls_method harguments (Nat.lt_succ_self _)

theorem parsesOperand_call {p : Place} (h : p.IsProper) {method : String}
    (hmapOr : method ≠ "map_or") (hmap : method ≠ "map") :
    ParsesOperand (p.lexemes ++ callLexemes method) (.call p.tree method) := by
  intro rest hrest
  rw [List.append_assoc]
  refine (parseOperand_place h _).trans ?_
  change moreCalls p.tree (callLexemes method ++ rest) = _
  rw [moreCalls_call hmapOr hmap, moreCalls_of_ends hrest]

/-- A function reaches to the bracket that closes the call. -/
theorem parseClosure_eq {ls : List Lexeme} {body : Expr} (h : ParsesSum ls body) (v : String)
    (rest : Rest) :
    parseClosure (.sign '|' :: .word v :: .sign '|' :: (ls ++ .sign ')' :: rest))
      = some (v, body, .sign ')' :: rest) := by
  have hclose : EndsSum (.sign ')' :: rest) := endsSum_sign (by decide) (by decide) (by decide) rest
  have hlt : (ls ++ .sign ')' :: rest).length
      < (Lexeme.sign '|' :: .word v :: .sign '|' :: (ls ++ .sign ')' :: rest)).length := by
    simp only [List.length_cons]
    omega
  rw [parseClosure]
  simp only [sign?_self, word?_word, Option.bind_eq_bind, Option.bind_some, goOn_of_lt hlt,
    h.whole hclose]
  rfl

theorem parseArguments_mapOr {ls : List Lexeme} {body : Expr} (h : ParsesSum ls body) (a : Expr)
    (v : String) (rest : Rest) :
    parseArguments a "map_or" (.word "0" :: .sign ',' :: .sign '|' :: .word v :: .sign '|' ::
        (ls ++ .sign ')' :: rest))
      = some (.mapOr a (.literal 0) v body, rest) := by
  have hcomma : ∀ ts, EndsSum (.sign ',' :: ts) :=
    endsSum_sign (by decide) (by decide) (by decide)
  have hzero : ∀ ts, parseSum (.word "0" :: .sign ',' :: ts) = some (.literal 0, .sign ',' :: ts) :=
    fun ts => (parsesOperand_literal 0).term.sum.whole (hcomma ts)
  have hlt : ∀ ts : Rest, ts.length < (Lexeme.word "0" :: .sign ',' :: ts).length := by
    intro ts
    simp only [List.length_cons]
    omega
  rw [parseArguments, if_pos rfl]
  simp only [hzero, Option.bind_eq_bind, Option.bind_some, sign?_self, goOn_of_lt (hlt _),
    parseClosure_eq h]
  rfl

theorem parseArguments_map {ls : List Lexeme} {body : Expr} (h : ParsesSum ls body) (a : Expr)
    (v : String) (rest : Rest) :
    parseArguments a "map" (.sign '|' :: .word v :: .sign '|' :: (ls ++ .sign ')' :: rest))
      = some (.map a v body, rest) := by
  rw [parseArguments, if_neg (by decide), if_pos rfl]
  simp only [Option.bind_eq_bind, Option.bind_some, sign?_self, parseClosure_eq h]
  rfl

/-- The sum of what items are mapped to. -/
theorem moreCalls_total (a : Expr) (rest : Rest) :
    moreCalls a (.sign '.' :: .word "sum" :: .sign ':' :: .sign ':' :: .sign '<' ::
        .word "usize" :: .sign '>' :: .sign '(' :: .sign ')' :: rest)
      = moreCalls (.total a) rest := by
  have htyped : typedCall? (.sign ':' :: .sign ':' :: .sign '<' :: .word "usize" :: .sign '>' ::
      .sign '(' :: .sign ')' :: rest) = some rest := rfl
  have hbracket : ∀ ts, sign? '(' (.sign ':' :: ts) = none := sign?_of_ne (by decide)
  rw [moreCalls]
  simp only [sign?_self, word?_word, Option.bind_eq_bind, Option.bind_some, htyped, hbracket,
    if_true]
  refine goOn_of_lt ?_ _
  simp only [List.length_cons]
  omega

theorem parsesOperand_mapOr {p : Place} (hp : p.IsProper) {ls : List Lexeme} {body : Expr}
    (h : ParsesSum ls body) (v : String) :
    ParsesOperand (p.lexemes ++ mapOrLexemes ++ [.word v] ++ [.sign '|'] ++ ls ++ [.sign ')'])
      (.mapOr (.call p.tree "as_ref") (.literal 0) v body) := by
  intro rest hrest
  simp only [mapOrLexemes, List.append_assoc, List.cons_append, List.nil_append]
  refine (parseOperand_place hp _).trans ?_
  refine (moreCalls_call (by decide) (by decide) _ _).trans ?_
  rw [moreCalls_method (parseArguments_mapOr h _ v rest) ?shorter, moreCalls_of_ends hrest]
  simp only [List.length_cons, List.length_append]
  omega

theorem parsesOperand_sumOver {p : Place} (hp : p.IsProper) {ls : List Lexeme} {body : Expr}
    (h : ParsesSum ls body) (v : String) :
    ParsesOperand (p.lexemes ++ iterLexemes ++ [.word v] ++ [.sign '|'] ++ ls ++ sumLexemes)
      (.total (.map (.call p.tree "iter") v body)) := by
  intro rest hrest
  simp only [iterLexemes, sumLexemes, List.append_assoc, List.cons_append, List.nil_append]
  refine (parseOperand_place hp _).trans ?_
  refine (moreCalls_call (by decide) (by decide) _ _).trans ?_
  rw [moreCalls_method (parseArguments_map h _ v _) ?shorter, moreCalls_total,
    moreCalls_of_ends hrest]
  simp only [List.length_cons, List.length_append]
  omega

/-! ### Conditionals -/

@[simp] theorem keyword?_self (w : String) (rest : Rest) :
    keyword? w (.word w :: rest) = some rest :=
  if_pos rfl

theorem keyword?_of_ne {w x : String} (h : x ≠ w) (rest : Rest) :
    keyword? w (.word x :: rest) = none :=
  if_neg h

/-- At the end of a block, an expression that does not begin with a conditional is read as
anywhere else. -/
theorem parseTail_eq {ls : List Lexeme} {e : Expr} (h : ParsesSum ls e)
    (hif : ∀ rest, keyword? "if" (ls ++ rest) = none) {rest : Rest} (hrest : EndsSum rest) :
    parseTail (ls ++ rest) = some (e, rest) := by
  rw [parseTail, hif]
  exact h.whole hrest

/-- A conditional ends with its last brace, whatever follows. -/
theorem parseConditional_eq {p : Place} (hp : p.IsProper) {lyes lno : List Lexeme} {yes no : Expr}
    (hyes : ∀ {rest}, EndsSum rest → parseTail (lyes ++ rest) = some (yes, rest))
    (hno : ∀ {rest}, EndsSum rest → parseTail (lno ++ rest) = some (no, rest)) (rest : Rest) :
    parseConditional
        (p.lexemes ++ thenLexemes ++ lyes ++ elseLexemes ++ lno ++ .sign '\x7d' :: rest)
      = some (.cond (.call p.tree "is_some") yes no, rest) := by
  have hbrace : ∀ ts, EndsSum (.sign '\x7b' :: ts) :=
    endsSum_sign (by decide) (by decide) (by decide)
  have hend : ∀ ts, EndsSum (.sign '\x7d' :: ts) := endsSum_sign (by decide) (by decide) (by decide)
  have hcond : ∀ ts, parseSum (p.lexemes ++ (callLexemes "is_some" ++ .sign '\x7b' :: ts))
      = some (.call p.tree "is_some", .sign '\x7b' :: ts) := by
    intro ts
    rw [← List.append_assoc]
    exact (parsesOperand_call hp (by decide) (by decide)).term.sum.whole (hbrace ts)
  simp only [thenLexemes, elseLexemes, List.append_assoc, List.cons_append, List.nil_append]
  have hltYes : ∀ ts : Rest,
      ts.length < (p.lexemes ++ (callLexemes "is_some" ++ .sign '\x7b' :: ts)).length := by
    intro ts
    simp only [List.length_append, List.length_cons]
    omega
  have hltNo : ∀ ts : Rest, ts.length < (p.lexemes ++ (callLexemes "is_some" ++ .sign '\x7b' ::
      (lyes ++ .sign '\x7d' :: .word "else" :: .sign '\x7b' :: ts))).length := by
    intro ts
    simp only [List.length_append, List.length_cons]
    omega
  rw [parseConditional]
  simp only [hcond, Option.bind_eq_bind, Option.bind_some, sign?_self, keyword?_self,
    goOn_of_lt (hltYes _), goOn_of_lt (hltNo _), hyes (hend _), hno (hend _)]
  rfl

/-- Inside of an expression a conditional is an operand. -/
theorem parsesOperand_ifSome {p : Place} (hp : p.IsProper) {lyes lno : List Lexeme} {yes no : Expr}
    (hyes : ∀ {rest}, EndsSum rest → parseTail (lyes ++ rest) = some (yes, rest))
    (hno : ∀ {rest}, EndsSum rest → parseTail (lno ++ rest) = some (no, rest)) :
    ParsesOperand ([.word "if"] ++ p.lexemes ++ thenLexemes ++ lyes ++ elseLexemes ++ lno
        ++ [.sign '\x7d'])
      (.cond (.call p.tree "is_some") yes no) := by
  intro rest hrest
  have hparse := parseConditional_eq hp hyes hno rest
  have hprimary : parsePrimary (.word "if" ::
      (p.lexemes ++ thenLexemes ++ lyes ++ elseLexemes ++ lno ++ .sign '\x7d' :: rest))
        = some (.cond (.call p.tree "is_some") yes no, rest) := by
    rw [parsePrimary]
    simp only [sign?_word, word?_word, Option.bind_eq_bind, Option.bind_some, if_true, hparse]
    exact goOn_of_lt (Nat.lt_succ_self _) _
  rw [← moreCalls_of_ends hrest, ← parseOperand_of_primary hprimary ?shorter]
  · simp only [List.append_assoc, List.cons_append, List.nil_append]
  · simp only [List.length_append, List.length_cons]
    omega

/-! ### Sizes -/

/-- Only a conditional begins like one. -/
theorem SizeExpr.keyword?_lexemes {e : SizeExpr} (h : e.IsProper) (hleads : e.leads = false)
    (rest : Rest) : keyword? "if" (e.lexemes ++ rest) = none := by
  have hplace : ∀ {p : Place} (ts : Rest), p.IsProper → keyword? "if" (p.lexemes ++ ts) = none := by
    intro p ts hp
    cases p with
    | field name => exact keyword?_of_ne (by decide) _
    | ref name => exact keyword?_of_ne hp.2 _
  induction e generalizing rest with
  | literal n =>
    refine keyword?_of_ne (fun heq => ?_) rest
    have hdigits : (toString n).toList = Nat.toDigits 10 n := Nat.toList_repr
    have hall : (Nat.toDigits 10 n).all Char.isDigit = true :=
      List.all_eq_true.mpr isDigit_of_mem_toDigits
    rw [← hdigits, heq] at hall
    exact absurd hall (by decide)
  | length p => rw [lexemes, List.append_assoc, hplace _ h]
  | encodedLen id p => rw [lexemes, List.append_assoc, hplace _ h]
  | add a b iha _ => rw [lexemes, List.append_assoc, List.append_assoc, iha h.1 hleads]
  | mul a b iha _ => rw [lexemes, List.append_assoc, List.append_assoc, iha h.1 hleads]
  | ifSome p yes no _ _ => cases hleads
  | mapOr p v body _ => simp only [lexemes, List.append_assoc, hplace _ h.1]
  | sumOver p v body _ => simp only [lexemes, List.append_assoc, hplace _ h.1]
  | paren e _ => rfl

/-- **The text of a size is read as its tree.** -/
theorem SizeExpr.parses_lexemes {e : SizeExpr} (h : e.IsProper) :
    (e.isOperand = true → ParsesOperand e.lexemes e.tree) ∧
      (e.isTerm = true → ParsesTerm e.lexemes e.tree) ∧ ParsesSum e.lexemes e.tree := by
  -- an operand is a term, and a term is a sum
  have hoperand : ∀ {P Q : Prop} {ls : List Lexeme} {t : Expr}, ParsesOperand ls t →
      (P → ParsesOperand ls t) ∧ (Q → ParsesTerm ls t) ∧ ParsesSum ls t :=
    fun h => ⟨fun _ => h, fun _ => h.term, h.term.sum⟩
  induction e with
  | literal n => exact hoperand (parsesOperand_literal n)
  | length p => exact hoperand (parsesOperand_call h (by decide) (by decide))
  | encodedLen id p => exact hoperand (parsesOperand_call h (by decide) (by decide))
  | add a b iha ihb =>
    obtain ⟨ha, hb, hterm⟩ := h
    refine ⟨fun hno => absurd hno Bool.false_ne_true, fun hno => absurd hno Bool.false_ne_true, ?_⟩
    exact parsesSum_add (iha ha).2.2 ((ihb hb).2.1 hterm)
  | mul a b iha ihb =>
    obtain ⟨ha, hb, hterm, hfactor⟩ := h
    have hmul := parsesTerm_mul ((iha ha).2.1 hterm) ((ihb hb).1 hfactor)
    exact ⟨fun hno => absurd hno Bool.false_ne_true, fun _ => hmul, hmul.sum⟩
  | ifSome p yes no ihyes ihno =>
    obtain ⟨hp, ⟨hyes, hyesLeads⟩, hno, hnoLeads⟩ := h
    exact hoperand (parsesOperand_ifSome hp
      (fun hrest => parseTail_eq (ihyes hyes).2.2 (keyword?_lexemes hyes hyesLeads) hrest)
      (fun hrest => parseTail_eq (ihno hno).2.2 (keyword?_lexemes hno hnoLeads) hrest))
  | mapOr p v body ih => exact hoperand (parsesOperand_mapOr h.1 (ih h.2.2).2.2 v)
  | sumOver p v body ih => exact hoperand (parsesOperand_sumOver h.1 (ih h.2.2).2.2 v)
  | paren e ih => exact hoperand (parsesOperand_paren (ih h).2.2)

/-- The capacity of a message is read as its tree. -/
theorem readArgument_text {e : SizeExpr} (h : e.IsProper) : readArgument e.text = some e.tree := by
  have hparse := (SizeExpr.parses_lexemes h).2.2.whole endsSum_nil
  rw [List.append_nil] at hparse
  rw [readArgument, SizeExpr.lex_text h, hparse]
  rfl

/-- The size of a struct of fixed size is read as its constant. -/
theorem readBody_constant :
    readBody "Self::ENCODED_SIZE" = some (.constant "Self" "ENCODED_SIZE") := by
  have hlex : lex "Self::ENCODED_SIZE"
      = [.word "Self", .sign ':', .sign ':', .word "ENCODED_SIZE"] := by decide
  have hparse := parseTail_eq parsesOperand_constant.term.sum (fun _ => rfl) endsSum_nil
  rw [List.append_nil] at hparse
  rw [readBody, hlex, hparse]
  rfl

/-! ## The terms of a struct -/

/-- What is behind a plus sign is added term by term. -/
def SizeExpr.addTo (sum : Expr) : SizeExpr → Expr
  | .add a b => .add (a.addTo sum) b.tree
  | e => .add sum e.tree

/-- The expression that terms with plus signs between them stand for. -/
def termsTree : List SizeExpr → Expr
  | [] => .literal 0
  | e :: terms => terms.foldl SizeExpr.addTo e.tree

theorem moreTerms_addTo {e : SizeExpr} (h : e.IsProper) (sum : Expr) {rest : Rest}
    (hrest : EndsTerm rest) :
    moreTerms sum (.sign '+' :: (e.lexemes ++ rest)) = moreTerms (e.addTo sum) rest := by
  induction e generalizing rest with
  | add a b iha _ =>
    obtain ⟨ha, hb, hterm⟩ := h
    rw [SizeExpr.lexemes, List.append_assoc, List.append_assoc, List.singleton_append,
      iha ha (endsTerm_plus _), moreTerms_plus ((SizeExpr.parses_lexemes hb).2.1 hterm) _ hrest,
      SizeExpr.addTo]
  | _ => exact moreTerms_plus ((SizeExpr.parses_lexemes h).2.1 rfl) sum hrest

/-- The words and signs behind the first of several terms. -/
def laterLexemes (terms : List SizeExpr) : List Lexeme :=
  terms.flatMap fun e => .sign '+' :: e.lexemes

theorem endsTerm_laterLexemes (terms : List SizeExpr) : EndsTerm (laterLexemes terms) := by
  cases terms with
  | nil => exact endsSum_nil.1
  | cons e terms => exact endsTerm_plus _

theorem lex_sizeText {e : SizeExpr} {terms : List SizeExpr} (h : e.IsProper)
    (hterms : ∀ e ∈ terms, e.IsProper) :
    lex (sizeText (e :: terms)) = e.lexemes ++ laterLexemes terms := by
  have hplus : lex " + " = [.sign '+'] := by decide
  induction terms generalizing e with
  | nil =>
    rw [sizeText, List.map_cons, List.map_nil, String.intercalate_singleton, SizeExpr.lex_text h]
    exact (List.append_nil _).symm
  | cons f terms ih =>
    obtain ⟨hf, hterms⟩ := List.forall_mem_cons.mp hterms
    have hrest := ih hf hterms
    rw [sizeText] at hrest ⊢
    rw [List.map_cons, List.map_cons, String.intercalate_cons_cons, ← List.map_cons,
      lex_between (by decide) (by decide), hplus, hrest, SizeExpr.lex_text h, List.append_assoc]
    rfl

theorem moreTerms_laterLexemes {terms : List SizeExpr} (h : ∀ e ∈ terms, e.IsProper) (sum : Expr) :
    moreTerms sum (laterLexemes terms) = some (terms.foldl SizeExpr.addTo sum, []) := by
  induction terms generalizing sum with
  | nil => exact moreTerms_of_ends endsSum_nil sum
  | cons e terms ih =>
    obtain ⟨he, hterms⟩ := List.forall_mem_cons.mp h
    change moreTerms sum (.sign '+' :: (e.lexemes ++ laterLexemes terms)) = _
    rw [moreTerms_addTo he sum (endsTerm_laterLexemes terms), ih hterms]
    rfl

/-- **The terms of a struct are read as their sum.** The first must not be a conditional, unless it
is the only one. -/
theorem readBody_sizeText {e : SizeExpr} {terms : List SizeExpr} (h : e.IsProper)
    (hterms : ∀ e ∈ terms, e.IsProper)
    (hleads : e.leads = true → e.isOperand = true ∧ terms = []) :
    readBody (sizeText (e :: terms)) = some (termsTree (e :: terms)) := by
  rw [readBody, lex_sizeText h hterms]
  by_cases hcond : e.leads = true
  · obtain ⟨hoperand, rfl⟩ := hleads hcond
    cases e with
    | ifSome p yes no =>
      obtain ⟨hp, ⟨hyes, hyesLeads⟩, hno, hnoLeads⟩ := h
      have hparse := parseConditional_eq hp
        (fun hrest => parseTail_eq (SizeExpr.parses_lexemes hyes).2.2
          (SizeExpr.keyword?_lexemes hyes hyesLeads) hrest)
        (fun hrest => parseTail_eq (SizeExpr.parses_lexemes hno).2.2
          (SizeExpr.keyword?_lexemes hno hnoLeads) hrest) []
      simp only [SizeExpr.lexemes, List.append_assoc, List.cons_append, List.nil_append] at hparse ⊢
      rw [parseTail, keyword?_self]
      dsimp only
      rw [goOn_of_lt (Nat.lt_succ_self _)]
      exact congrArg whole? hparse
    | add a b => cases hoperand
    | mul a b => cases hoperand
    | _ => cases hcond
  · have hif := SizeExpr.keyword?_lexemes h (eq_false_of_ne_true hcond) (laterLexemes terms)
    rw [parseTail, hif]
    dsimp only
    rw [(SizeExpr.parses_lexemes h).2.2 _ (endsTerm_laterLexemes terms),
      moreTerms_laterLexemes hterms]
    rfl

/-! ## Sizes that are generated -/

theorem isIdentifier_temporary (n : Nat) : Grammar.isIdentifier (temporary "v" n) = true := by
  have hlist : (temporary "v" n).toList = 'v' :: Nat.toDigits 10 n := toList_temporary "v" n
  refine Grammar.isIdentifier_iff.mpr ⟨⟨'v', _, hlist, by decide⟩, fun c hc => ?_⟩
  rw [hlist] at hc
  rcases List.mem_cons.mp hc with rfl | hc
  · decide
  · exact isWordChar_of_isDigit (isDigit_of_mem_toDigits c hc)

theorem Place.isProper_temporary (n : Nat) : (Place.ref (temporary "v" n)).IsProper := by
  refine ⟨isIdentifier_temporary n, fun heq => ?_⟩
  have hlist : (temporary "v" n).toList = 'v' :: Nat.toDigits 10 n := toList_temporary "v" n
  rw [heq] at hlist
  exact absurd (List.cons.inj hlist).1 (by decide)

/-- The identifier of a field is one word, even if it is not one that the language accepts. -/
theorem Place.isProper_field {name : String} (h : Grammar.isIdentifier name = true) :
    (Place.field (rustField name)).IsProper := by
  by_cases hname : name = "_"
  · have hword : Grammar.isIdentifier "_" = true := by decide
    rw [hname, Naming.rustField_underscore]
    exact hword
  · exact (Naming.isLegal_iff.mp ((Naming.isLegal_rustField h).mpr hname)).1

/-- A size that begins with a conditional is one. -/
def SizeExpr.IsReadable (e : SizeExpr) : Prop :=
  e.IsProper ∧ (e.leads = true → e.isOperand = true)

theorem isReadable_sizeOptional {body : Place → Fresh SizeExpr}
    (h : ∀ p n, p.IsProper → ((body p).run n).1.IsReadable) (o : Bool) (inner : Layout) {p : Place}
    (hp : p.IsProper) (n : Nat) : ((sizeOptional o inner p body).run n).1.IsReadable := by
  unfold sizeOptional
  cases o <;> cases inner.isFixed
  case false.true => exact ⟨trivial, fun hno => absurd hno Bool.false_ne_true⟩
  case false.false => exact h p n hp
  case true.true => exact ⟨⟨hp, ⟨trivial, rfl⟩, trivial, rfl⟩, fun _ => rfl⟩
  case true.false =>
    have hbody := (h (.ref (temporary "v" n)) (n + 1) (Place.isProper_temporary n)).1
    exact ⟨⟨trivial, ⟨hp, isIdentifier_temporary n, hbody⟩, rfl⟩,
      fun hno => absurd hno Bool.false_ne_true⟩

/-- **Sizes are generated with all the brackets they need.** -/
theorem isReadable_size (layoutOf : Ty → Layout) (t : Ty) {p : Place} (hp : p.IsProper) (n : Nat) :
    ((size layoutOf t p).run n).1.IsReadable := by
  induction t generalizing p n with
  | primitive prim o =>
    refine isReadable_sizeOptional (fun p n hp => ?_) o _ hp n
    exact ⟨⟨trivial, hp, rfl⟩, fun hno => absurd hno Bool.false_ne_true⟩
  | struct id o =>
    refine isReadable_sizeOptional (fun p n hp => ?_) o _ hp n
    exact ⟨hp, fun hno => absurd hno Bool.false_ne_true⟩
  | array e o ih =>
    refine isReadable_sizeOptional (fun p n hp => ?_) o _ hp n
    cases (layoutOf e).isFixed with
    | true =>
      exact ⟨⟨trivial, ⟨hp, trivial, rfl, rfl⟩, rfl⟩, fun hno => absurd hno Bool.false_ne_true⟩
    | false =>
      have hbody := (ih (Place.isProper_temporary n) (n + 1)).1
      exact ⟨⟨trivial, ⟨hp, isIdentifier_temporary n, hbody⟩, rfl⟩,
        fun hno => absurd hno Bool.false_ne_true⟩

/-- So are the terms of a struct, before it is known how many there are. -/
theorem isReadable_terms (layoutOf : Ty → Layout) (constant : Nat) {fields : List Field}
    (hnamed : ∀ f ∈ fields, Grammar.isIdentifier f.name = true) (n : Nat) :
    ∀ e ∈ withConstant .literal constant ((fields.mapM fun f =>
      size layoutOf f.ty (.field (rustField f.name))).run n).1, e.IsReadable := by
  have hliteral : (SizeExpr.literal constant).IsReadable :=
    ⟨trivial, fun hno => absurd hno Bool.false_ne_true⟩
  refine forall_mem_withConstant hliteral (Fresh.forall_mem_run_mapM (fun f hf n => ?_) n)
  exact isReadable_size layoutOf f.ty (Place.isProper_field (hnamed f hf)) n

theorem SizeExpr.IsReadable.asTerm {e : SizeExpr} (h : e.IsReadable) :
    e.asTerm.IsProper ∧ e.asTerm.leads = false := by
  obtain ⟨hproper, hleads⟩ := h
  cases e with
  | add a b =>
    refine ⟨hproper, eq_false_of_ne_true fun htrue => ?_⟩
    exact absurd (hleads htrue) Bool.false_ne_true
  | mul a b =>
    refine ⟨hproper, eq_false_of_ne_true fun htrue => ?_⟩
    exact absurd (hleads htrue) Bool.false_ne_true
  | _ => exact ⟨hproper, rfl⟩

/-- **The terms of a struct are read as their sum**, brackets where there are several. -/
theorem readBody_bracketed {terms : List SizeExpr} (hne : terms ≠ [])
    (h : ∀ e ∈ terms, e.IsReadable) :
    readBody (sizeText (bracketed terms)) = some (termsTree (bracketed terms)) := by
  match terms, hne, h with
  | [e], _, h =>
    obtain ⟨hproper, hleads⟩ := h e List.mem_cons_self
    exact readBody_sizeText hproper (List.forall_mem_nil _) fun hcond => ⟨hleads hcond, rfl⟩
  | e :: f :: terms, _, h =>
    have hseveral : bracketed (e :: f :: terms) = e.asTerm :: (f :: terms).map SizeExpr.asTerm :=
      if_pos (Nat.one_lt_succ_succ _)
    obtain ⟨he, hterms⟩ := List.forall_mem_cons.mp h
    rw [hseveral]
    refine readBody_sizeText he.asTerm.1 (fun g hg => ?_) fun hcond => ?_
    · obtain ⟨g', hg', rfl⟩ := List.mem_map.mp hg
      exact (hterms g' hg').asTerm.1
    · rw [he.asTerm.2] at hcond
      cases hcond

end WireSchema.RustCode
