import WireSchema.Proofs.Written

/-!
# Sources are recovered from texts

Whichever way a source was written, reading the text gives it back. Each rule of the grammar reads
what can be written for it, up to what ends it, and stops there: behind a statement stands a separator
or a token that closes a list of statements, and none of these could belong to the statement. The three
loops of the grammar go through statements in the same manner, so what a loop reads is shown once, for
any rule that reads its items.
-/

namespace WireSchema

/-! ## Cursors -/

namespace Cursor

/-- The tokens from the one in view on. -/
def texts (c : Cursor) : List String :=
  c.token.text :: c.ahead.map (·.text)

variable {c : Cursor} {t : String} {tail : List String}

theorem text_eq (h : c.texts = t :: tail) : c.token.text = t :=
  (List.cons.inj h).1

theorem ahead_ne_nil (h : c.texts = t :: tail) (htail : tail ≠ []) : c.ahead ≠ [] := by
  intro hnil
  have htexts := (List.cons.inj h).2
  rw [hnil] at htexts
  exact htail htexts.symm

theorem texts_advance (h : c.texts = t :: tail) (htail : tail ≠ []) : c.advance.texts = tail := by
  obtain ⟨token, ahead⟩ := c
  cases ahead with
  | nil => exact absurd rfl (ahead_ne_nil h htail)
  | cons u rest => exact (List.cons.inj h).2

end Cursor

namespace Grammar

/-- The rule reads `input` as something that looks like `b`, and goes on to `output`. -/
def Reads {α β : Type} (rule : Cursor → Except Error (α × Cursor)) (view : α → β)
    (input : List String) (b : β) (output : List String) : Prop :=
  ∀ c : Cursor, c.texts = input → ∃ a c', rule c = .ok (a, c') ∧ view a = b ∧ c'.texts = output

theorem reads_expect (what : Expected) (test : String → Bool) {t : String} {tail : List String}
    (ht : test t = true) (htail : tail ≠ []) :
    Reads (expect what test) (·.text) (t :: tail) t tail := by
  intro c hc
  have htext := Cursor.text_eq hc
  refine ⟨c.token, c.advance, ?_, htext, Cursor.texts_advance hc htail⟩
  rw [expect, if_pos (by rw [htext]; exact ht)]

theorem texts_skipSeparators {seps tail : List String} {next : String} (hseps : AreSeparators seps)
    (hnext : isSeparator next = false) {c : Cursor} (hc : c.texts = seps ++ next :: tail) :
    (skipSeparators c).texts = next :: tail := by
  induction seps generalizing c with
  | nil =>
    obtain ⟨t, ahead⟩ := c
    have htext : t.text = next := Cursor.text_eq hc
    unfold skipSeparators
    rw [Cursor.skip.eq_def]
    cases ahead with
    | nil => exact hc
    | cons u rest =>
      dsimp only
      rw [if_neg (by rw [htext, hnext]; simp)]
      exact hc
  | cons sep seps ih =>
    obtain ⟨t, ahead⟩ := c
    have htext : t.text = sep := Cursor.text_eq hc
    have hne : seps ++ next :: tail ≠ [] := by simp
    cases ahead with
    | nil => exact absurd rfl (Cursor.ahead_ne_nil hc hne)
    | cons u rest =>
      unfold skipSeparators
      rw [Cursor.skip, if_pos (by rw [htext]; exact hseps sep List.mem_cons_self)]
      exact ih (fun s hs => hseps s (List.mem_cons_of_mem _ hs)) (Cursor.texts_advance hc hne)

theorem skipSeparators_skipSeparators (c : Cursor) :
    skipSeparators (skipSeparators c) = skipSeparators c := by
  unfold skipSeparators
  fun_induction Cursor.skip isSeparator c with
  | case1 t => rw [Cursor.skip]
  | case2 t u rest _ ih => exact ih
  | case3 t u rest hne => rw [Cursor.skip, if_neg hne]

/-! ## Ends of statements -/

/-- What is left behind the end of a statement. -/
inductive Ended : List String → List String → Prop where
  | separator {sep : String} {rest : List String} :
      isSeparator sep = true → rest ≠ [] → Ended (sep :: rest) rest
  | closing {t : String} {rest : List String} :
      t = ")" ∨ t = "\x7d" ∨ t = "" → Ended (t :: rest) (t :: rest)

/-- Where a statement ends stands neither a tag nor a sign that a type goes on with. -/
theorem Ended.exists_head {tail tail' : List String} (h : Ended tail tail') :
    ∃ next rest, tail = next :: rest ∧ isTag next = false ∧ next ≠ "." := by
  cases h with
  | separator hsep _ =>
    refine ⟨_, _, rfl, ?_⟩
    unfold isSeparator at hsep
    rcases Bool.or_eq_true_iff.mp hsep with h | h <;> rw [eq_of_beq h] <;> decide
  | closing ht =>
    refine ⟨_, _, rfl, ?_⟩
    rcases ht with rfl | rfl | rfl <;> decide

theorem endStatement_of_ended {tail tail' : List String} (h : Ended tail tail') {c : Cursor}
    (hc : c.texts = tail) : ∃ c', endStatement c = .ok c' ∧ c'.texts = tail' := by
  unfold endStatement
  cases h with
  | separator hsep hrest =>
    rw [Cursor.text_eq hc, if_pos hsep]
    exact ⟨_, rfl, Cursor.texts_advance hc hrest⟩
  | closing ht =>
    have hsep : ∀ t : String, t = ")" ∨ t = "\x7d" ∨ t = "" → isSeparator t = false := by
      rintro t (rfl | rfl | rfl) <;> decide
    rw [Cursor.text_eq hc, if_neg (by rw [hsep _ ht]; simp), if_pos ht]
    exact ⟨c, rfl, hc⟩

/-! ## Types and fields -/

theorem ne_of_isIdentifier {t s : String} (ht : isIdentifier t = true)
    (hs : isIdentifier s = false) : t ≠ s := by
  rintro rfl
  exact absurd (ht.symm.trans hs) (by simp)

theorem reads_typeExpr {e : TypeExpr} (he : e.isWritable = true) {next : String}
    {rest : List String} (hnext : next ≠ ".") :
    Reads typeExpr (·.unplaced) (e.tokens ++ next :: rest) e.unplaced (next :: rest) := by
  induction e with
  | named name pos =>
    intro c hc
    have htext := Cursor.text_eq hc
    have hafter := Cursor.texts_advance hc (by simp)
    obtain ⟨hid, hkeyword⟩ := TypeExpr.isWritable_named.mp he
    have hne := fun s => ne_of_isIdentifier (s := s) hid
    have hforeign : isForeignKeyword name = false := by
      unfold isForeignKeyword
      simp only [List.mem_cons, not_or] at hkeyword
      simp [hkeyword]
    rw [typeExpr]
    dsimp only
    rw [htext, if_neg (hne "*" (by decide)), dif_neg (hne "[" (by decide)),
      if_neg (by rintro rfl; exact hkeyword (by decide)), if_neg (by rw [hforeign]; simp),
      if_pos hid, if_neg (by rw [Cursor.text_eq hafter]; exact hnext)]
    exact ⟨_, _, rfl, rfl, hafter⟩
  | optional e ih =>
    intro c hc
    have htail : e.tokens ++ next :: rest ≠ [] := by simp
    obtain ⟨e', c', hrule, hview, htexts⟩ := ih he c.advance (Cursor.texts_advance hc htail)
    rw [typeExpr]
    dsimp only
    rw [if_pos (Cursor.text_eq hc), dif_neg (Cursor.ahead_ne_nil hc htail), hrule]
    exact ⟨_, _, rfl, congrArg TypeExpr.optional hview, htexts⟩
  | array e ih =>
    intro c hc
    have htail : e.tokens ++ next :: rest ≠ [] := by simp
    have hbracket := Cursor.texts_advance hc (by simp)
    obtain ⟨e', c', hrule, hview, htexts⟩ :=
      ih he c.advance.advance (Cursor.texts_advance hbracket htail)
    rw [typeExpr]
    dsimp only
    rw [if_neg (by rw [Cursor.text_eq hc]; decide), dif_pos (Cursor.text_eq hc),
      dif_pos (Cursor.text_eq hbracket), hrule]
    exact ⟨_, _, rfl, congrArg TypeExpr.array hview, htexts⟩

theorem isTag_of_isIdentifier {t : String} (ht : isIdentifier t = true) : isTag t = false := by
  unfold isTag
  split
  · rename_i rest htext
    unfold isIdentifier at ht
    rw [htext] at ht
    exact absurd ht (by simp [Piece.isWordStart])
  · rfl

theorem isSeparator_of_isIdentifier {t : String} (ht : isIdentifier t = true) :
    isSeparator t = false := by
  have hne := fun s => ne_of_isIdentifier (s := s) ht
  simp [isSeparator, hne "\n" (by decide), hne ";" (by decide)]

/-- A type starts with a token that starts nothing else. -/
theorem exists_head_tokens {e : TypeExpr} (he : e.isWritable = true) :
    ∃ t more, e.tokens = t :: more ∧ endsField t = false ∧ t ∉ [",", "=", "struct"] := by
  cases e with
  | named name pos =>
    obtain ⟨hid, hkeyword⟩ := TypeExpr.isWritable_named.mp he
    have hne := fun s => ne_of_isIdentifier (s := s) hid
    refine ⟨name, [], rfl, ?_, ?_⟩
    · simp [endsField, isSeparator_of_isIdentifier hid, isTag_of_isIdentifier hid,
        hne "\x7d" (by decide), hne "." (by decide)]
    · have hstruct : name ≠ "struct" := by
        rintro rfl
        exact hkeyword (by decide)
      simp [hne "," (by decide), hne "=" (by decide), hstruct]
  | optional e => exact ⟨"*", e.tokens, rfl, by decide, by decide⟩
  | array e => exact ⟨"[", "]" :: e.tokens, rfl, by decide, by decide⟩

theorem reads_moreNames {names : List String} (hnames : ∀ name ∈ names, isIdentifier name = true)
    {next : String} {rest : List String} (hnext : next ≠ ",") (done : List Token) :
    Reads (moreNames · done) (·.map (·.text)) (nameTokens names ++ next :: rest)
      (done.reverse.map (·.text) ++ names) (next :: rest) := by
  induction names generalizing done with
  | nil =>
    intro c hc
    refine ⟨done.reverse, c, ?_, by rw [List.append_nil], hc⟩
    change moreNames c done = _
    rw [moreNames, dif_neg (by rw [Cursor.text_eq hc]; exact hnext)]
  | cons name names ih =>
    intro c hc
    have hname := hnames name List.mem_cons_self
    have hcomma := Cursor.texts_advance hc (by simp)
    obtain ⟨t, c₁, hexpect, htext, hc₁⟩ :=
      reads_expect .fieldName isIdentifier hname (by simp) c.advance hcomma
    obtain ⟨tokens, c₂, hmore, hview, hc₂⟩ :=
      ih (fun n hn => hnames n (List.mem_cons_of_mem _ hn)) (t :: done) c₁ hc₁
    refine ⟨tokens, c₂, ?_, ?_, hc₂⟩
    · change moreNames c done = _
      rw [moreNames, dif_pos (Cursor.text_eq hc)]
      split
      · rename_i err herr
        rw [hexpect] at herr
        exact absurd herr (by simp)
      · rename_i t' after hok
        rw [hexpect] at hok
        obtain ⟨rfl, rfl⟩ := Prod.mk.inj (Except.ok.inj hok)
        exact hmore
    · rw [hview, List.reverse_cons, List.map_append, List.append_assoc, ← htext]
      rfl

theorem tag?_of_texts {tag : Option String} (htag : tag.all (fun t => !t.toList.contains '\x60'))
    {next : String} {rest : List String} (hnext : isTag next = false) {c : Cursor}
    (hc : c.texts = tagTokens tag ++ next :: rest) :
    (tag? c).1 = tag ∧ (tag? c).2.texts = next :: rest := by
  unfold tag?
  cases tag with
  | none =>
    rw [if_neg (by rw [Cursor.text_eq hc, hnext]; simp)]
    exact ⟨rfl, hc⟩
  | some tag =>
    obtain ⟨his, htext⟩ := isTag_tagTokens htag
    rw [Cursor.text_eq hc, if_pos his, htext]
    exact ⟨rfl, Cursor.texts_advance hc (by simp)⟩

/-- A type does not go on with what stands behind it in a field. -/
theorem exists_head_tagTokens {tag : Option String}
    (htag : tag.all (fun t => !t.toList.contains '\x60')) {next : String} (hnext : next ≠ ".")
    (rest : List String) : ∃ t more, tagTokens tag ++ next :: rest = t :: more ∧ t ≠ "." := by
  cases tag with
  | none => exact ⟨next, rest, rfl, hnext⟩
  | some tag =>
    refine ⟨_, _, rfl, fun heq => ?_⟩
    have his := (isTag_tagTokens htag).1
    rw [heq] at his
    exact absurd his (by decide)

/-- Fields that have a type and a tag in common differ in their names. -/
theorem map_unplaced_of_same {f : FieldExpr} {more : List FieldExpr}
    (hsame : ∀ g ∈ more, g.type.unplaced = f.type.unplaced ∧ g.tag = f.tag) :
    (f :: more).map (·.unplaced) = ((f :: more).map (·.name)).map fun name =>
      ⟨name, .start, f.type.unplaced, f.tag⟩ := by
  rw [List.map_map]
  refine List.map_congr_left fun g hg => ?_
  rcases List.mem_cons.mp hg with rfl | hg
  · rfl
  · rw [FieldExpr.unplaced, (hsame g hg).1, (hsame g hg).2]
    rfl

theorem reads_fieldGroup {fields : List FieldExpr} {toks : List String} (h : FieldGroup fields toks)
    (hfields : ∀ f ∈ fields, f.isWritable = true) {tail tail' : List String}
    (hend : Ended tail tail') :
    Reads fieldGroup (·.map (·.unplaced)) (toks ++ tail) (fields.map (·.unplaced)) tail' := by
  obtain ⟨next, rest, rfl, hnotTag, hnotDot⟩ := hend.exists_head
  obtain @⟨f, more, hsame⟩ := h
  obtain ⟨hname, htype, htag⟩ := FieldExpr.isWritable_iff.mp (hfields f List.mem_cons_self)
  obtain ⟨t, types, htypes, hfield, hother⟩ := exists_head_tokens htype
  have hcomma : t ≠ "," := by
    rintro rfl
    exact hother (by decide)
  intro c hc
  rw [List.cons_append, List.append_assoc, List.append_assoc] at hc
  obtain ⟨first, c₁, hfirst, (hfirstText : first.text = f.name), hc₁⟩ :=
    reads_expect .fieldName isIdentifier hname (by simp) c hc
  have hgoesOn : endsField c₁.token.text = false := by
    cases more with
    | nil =>
      rw [htypes] at hc₁
      rw [Cursor.text_eq hc₁]
      exact hfield
    | cons g more =>
      rw [Cursor.text_eq hc₁]
      decide
  have hnames : ∀ name ∈ more.map (·.name), isIdentifier name = true := by
    intro name hmem
    obtain ⟨g, hg, rfl⟩ := List.mem_map.mp hmem
    exact (FieldExpr.isWritable_iff.mp (hfields g (List.mem_cons_of_mem _ hg))).1
  rw [htypes, List.cons_append] at hc₁
  obtain ⟨tokens, c₂, hmore, (htexts : tokens.map (·.text) = first.text :: more.map (·.name)), hc₂⟩ :=
    reads_moreNames hnames hcomma [first] c₁ hc₁
  obtain ⟨n, r, hbehind, hdot⟩ := exists_head_tagTokens htag hnotDot rest
  rw [← List.cons_append, ← htypes, hbehind] at hc₂
  obtain ⟨type, c₃, htypeExpr, htypeView, hc₃⟩ := reads_typeExpr htype hdot c₂ hc₂
  rw [← hbehind] at hc₃
  obtain ⟨htagFound, hc₄⟩ := tag?_of_texts htag hnotTag hc₃
  obtain ⟨c₅, hended, hc₅⟩ := endStatement_of_ended hend hc₄
  refine ⟨tokens.map fun t => ⟨t.text, t.pos, type, (tag? c₃).1⟩, c₅, ?_, ?_, hc₅⟩
  · unfold fieldGroup
    rw [if_neg (by rw [Cursor.text_eq hc]; exact ne_of_isIdentifier hname (by decide))]
    refine Result.bind_eq_ok.mpr ⟨_, hfirst, ?_⟩
    dsimp only
    rw [if_neg (by rw [hgoesOn]; simp)]
    exact Result.bind_eq_ok.mpr ⟨_, hmore, Result.bind_eq_ok.mpr ⟨_, htypeExpr,
      Result.bind_eq_ok.mpr ⟨_, hended, rfl⟩⟩⟩
  · -- the fields that were read have the names of those written, and their type and tag
    have hnames : tokens.map (·.text) = (f :: more).map (·.name) := by
      rw [htexts, hfirstText, List.map_cons]
    calc (tokens.map fun t => (⟨t.text, t.pos, type, (tag? c₃).1⟩ : FieldExpr)).map (·.unplaced)
        = (tokens.map (·.text)).map fun name => ⟨name, .start, f.type.unplaced, f.tag⟩ := by
          rw [List.map_map, List.map_map, ← htypeView, htagFound]
          rfl
      _ = (f :: more).map (·.unplaced) := by rw [hnames, map_unplaced_of_same hsame]

/-! ## Loops -/

section Loops

variable {α β γ : Type}

/-- A loop reads statements with a rule, up to a token that closes them. What it has read is passed
on in reverse. -/
structure IsLoop (rule : Cursor → Except Error (List α × Cursor))
    (loop : Cursor → List α → Except Error γ) (finish : List α → Cursor → γ) (close : String) :
    Prop where
  stop : ∀ c done, (skipSeparators c).token.text = close →
    loop c done = .ok (finish done (skipSeparators c))
  step : ∀ c done, (skipSeparators c).token.text ≠ close →
    loop c done = rule (skipSeparators c) >>= fun p => loop p.2 (p.1.reverse ++ done)

/-- A rule reads the items of statements that are closed by a token, if their elements are good. -/
structure ReadsItems (rule : Cursor → Except Error (List α × Cursor))
    (Item : List α → List String → Prop) (good : α → Prop) (view : α → β) (close : String) :
    Prop where
  closing : close = ")" ∨ close = "\x7d" ∨ close = ""
  /-- An item is not mistaken for something else. -/
  start : ∀ {xs toks}, Item xs toks → (∀ x ∈ xs, good x) →
    ∃ t more, toks = t :: more ∧ isSeparator t = false ∧ t ≠ close
  read : ∀ {xs toks}, Item xs toks → (∀ x ∈ xs, good x) → ∀ {tail tail'}, Ended tail tail' →
    Reads rule (·.map view) (toks ++ tail) (xs.map view) tail'

variable {rule : Cursor → Except Error (List α × Cursor)} {Item : List α → List String → Prop}
  {good : α → Prop} {view : α → β} {loop : Cursor → List α → Except Error γ}
  {finish : List α → Cursor → γ} {close : String}

/-- A loop starts by passing separators over, so they may have been passed over before. -/
theorem IsLoop.skip (hloop : IsLoop rule loop finish close) (c : Cursor) (done : List α) :
    loop (skipSeparators c) done = loop c done := by
  have hsame := skipSeparators_skipSeparators c
  by_cases hstop : (skipSeparators c).token.text = close
  · rw [hloop.stop c done hstop, hloop.stop _ done (by rw [hsame]; exact hstop), hsame]
  · rw [hloop.step c done hstop, hloop.step _ done (by rw [hsame]; exact hstop), hsame]

/-- **The step.** A loop reads an item and the end of its statement. -/
theorem IsLoop.step_of_item (hloop : IsLoop rule loop finish close)
    (hitems : ReadsItems rule Item good view close) {seps toks : List String} {xs : List α}
    (hseps : AreSeparators seps) (hitem : Item xs toks) (hgood : ∀ x ∈ xs, good x)
    {tail tail' : List String} (hend : Ended tail tail') {c : Cursor}
    (hc : c.texts = seps ++ (toks ++ tail)) (done : List α) :
    ∃ (xs' : List α) (c' : Cursor), loop c done = loop c' (xs'.reverse ++ done) ∧
      xs'.map view = xs.map view ∧ c'.texts = tail' := by
  obtain ⟨t, more, htoks, hnotSep, hnotClose⟩ := hitems.start hitem hgood
  rw [htoks, List.cons_append] at hc
  have hskip := texts_skipSeparators hseps hnotSep hc
  rw [← List.cons_append, ← htoks] at hskip
  obtain ⟨xs', c', hrule, hview, hc'⟩ := hitems.read hitem hgood hend _ hskip
  rw [htoks, List.cons_append] at hskip
  have hopen : (skipSeparators c).token.text ≠ close := by
    rw [Cursor.text_eq hskip]
    exact hnotClose
  refine ⟨xs', c', ?_, hview, hc'⟩
  rw [hloop.step c done hopen, hrule]
  rfl

/-- **The run.** A loop reads statements up to the token that closes them. -/
theorem IsLoop.run (hloop : IsLoop rule loop finish close)
    (hitems : ReadsItems rule Item good view close) {xs : List α} {toks : List String}
    (h : Statements Item xs toks) : (∀ x ∈ xs, good x) → ∀ {rest : List String} {c : Cursor},
      c.texts = toks ++ close :: rest → ∀ done : List α, ∃ (xs' : List α) (c' : Cursor),
        loop c done = .ok (finish (xs'.reverse ++ done) c') ∧ xs'.map view = xs.map view ∧
          c'.texts = close :: rest := by
  have hnotSep : isSeparator close = false := by
    rcases hitems.closing with h | h | h <;> rw [h] <;> decide
  -- separators may stand in front of the token that closes
  have hclose : ∀ {seps rest : List String} {c : Cursor}, AreSeparators seps →
      c.texts = seps ++ close :: rest → ∀ done : List α,
        loop c done = .ok (finish done (skipSeparators c)) ∧
          (skipSeparators c).texts = close :: rest := by
    intro seps rest c hseps hc done
    have hskip := texts_skipSeparators hseps hnotSep hc
    exact ⟨hloop.stop c done (Cursor.text_eq hskip), hskip⟩
  induction h with
  | none hseps =>
    intro _ rest c hc done
    obtain ⟨hok, hskip⟩ := hclose hseps hc done
    exact ⟨[], _, hok, rfl, hskip⟩
  | last hseps hitem =>
    intro hgood rest c hc done
    rw [List.append_assoc] at hc
    obtain ⟨xs', c₁, hstep, hview, hc₁⟩ :=
      hloop.step_of_item hitems hseps hitem hgood (.closing hitems.closing) hc done
    obtain ⟨hok, hskip⟩ := hclose areSeparators_nil hc₁ (xs'.reverse ++ done)
    exact ⟨xs', _, hstep.trans hok, hview, hskip⟩
  | @more seps toks after sep xs ys hseps hitem hsep _ ih =>
    intro hgood rest c hc done
    have hxs : ∀ x ∈ xs, good x := fun x hx => hgood x (List.mem_append_left _ hx)
    have hys : ∀ y ∈ ys, good y := fun y hy => hgood y (List.mem_append_right _ hy)
    rw [List.append_assoc, List.append_assoc, List.cons_append] at hc
    obtain ⟨xs', c₁, hstep, hview, hc₁⟩ :=
      hloop.step_of_item hitems hseps hitem hxs (.separator hsep (by simp)) hc done
    obtain ⟨ys', c₂, hrun, hview', hc₂⟩ := ih hys hc₁ (xs'.reverse ++ done)
    refine ⟨xs' ++ ys', c₂, ?_, ?_, hc₂⟩
    · rw [hstep, hrun, List.reverse_append, List.append_assoc]
    · rw [List.map_append, List.map_append, hview, hview']

end Loops

/-! ## Declarations -/

theorem isLoop_fields :
    IsLoop fieldGroup fields (fun done c => (done.reverse, c.advance)) "\x7d" where
  stop c done h := by rw [fields, if_pos h]
  step c done hne := by
    rw [fields, if_neg hne]
    split
    · rename_i e he
      rw [he]
      rfl
    · rename_i group after hok
      dsimp only
      rw [hok]
      rfl

theorem readsItems_fieldGroup :
    ReadsItems fieldGroup FieldGroup (·.isWritable = true) (·.unplaced) "\x7d" where
  closing := .inr (.inl rfl)
  start := by
    rintro _ _ @⟨f, more, _⟩ hgood
    have hname := (FieldExpr.isWritable_iff.mp (hgood f List.mem_cons_self)).1
    exact ⟨_, _, rfl, isSeparator_of_isIdentifier hname, ne_of_isIdentifier hname (by decide)⟩
  read hitem hgood _ _ hend := reads_fieldGroup hitem hgood hend

theorem reads_declBody {body : DeclBody} {toks : List String} (h : Body body toks)
    (hbody : body.isWritable = true) {next : String} {rest : List String} (hnext : next ≠ ".") :
    Reads declBody (·.unplaced) (toks ++ next :: rest) body.unplaced (next :: rest) := by
  intro c hc
  unfold declBody
  cases h with
  | @struct fs toks hstatements =>
    rw [List.cons_append, List.cons_append, List.append_assoc, List.singleton_append] at hc
    rw [if_pos (Cursor.text_eq hc)]
    have hopen := Cursor.texts_advance hc (by simp)
    obtain ⟨_, c₁, hexpect, _, hc₁⟩ :=
      reads_expect .openBrace (· == "\x7b") (beq_self_eq_true _) (by simp) c.advance hopen
    obtain ⟨fs', c₂, hfields, hview, hc₂⟩ := isLoop_fields.run readsItems_fieldGroup hstatements
      (List.all_eq_true.mp hbody) hc₁ []
    rw [List.append_nil, List.reverse_reverse] at hfields
    have hstruct : structBody c.advance = .ok (fs', c₂.advance) :=
      Result.bind_eq_ok.mpr ⟨_, hexpect, hfields⟩
    rw [hstruct]
    exact ⟨_, _, rfl, congrArg DeclBody.struct hview, Cursor.texts_advance hc₂ (by simp)⟩
  | synonym e =>
    obtain ⟨t, more, htokens, _, hother⟩ := exists_head_tokens hbody
    obtain ⟨e', c₁, htype, hview, hc₁⟩ := reads_typeExpr hbody hnext c hc
    rw [htokens] at hc
    rw [if_neg (by rw [Cursor.text_eq hc]; rintro rfl; exact hother (by decide)), htype]
    exact ⟨_, _, rfl, congrArg DeclBody.alias hview, hc₁⟩

/-- What a name stands for does not start with the sign in front of it. -/
theorem Body.exists_head {body : DeclBody} {toks : List String} (h : Body body toks)
    (hbody : body.isWritable = true) : ∃ t more, toks = t :: more ∧ t ≠ "=" := by
  cases h with
  | struct _ => exact ⟨_, _, rfl, by decide⟩
  | synonym e =>
    obtain ⟨t, more, htokens, _, hother⟩ := exists_head_tokens hbody
    exact ⟨t, more, htokens, by rintro rfl; exact hother (by decide)⟩

theorem reads_typeSpec {d : DeclExpr} {toks : List String} (h : Spec d toks)
    (hd : d.isWritable = true) {next : String} {rest : List String} (hnext : next ≠ ".") :
    Reads typeSpec (·.unplaced) (toks ++ next :: rest) d.unplaced (next :: rest) := by
  obtain ⟨hname, hbody⟩ := Bool.and_eq_true_iff.mp hd
  -- the sign is passed over if it is there
  have hskip : ∃ signs body, toks = d.name :: (signs ++ body) ∧ Body d.body body ∧
      ∀ {c : Cursor}, c.texts = signs ++ (body ++ next :: rest) →
        (skipEquals c).texts = body ++ next :: rest := by
    cases h with
    | @plain toks hb =>
      refine ⟨[], toks, rfl, hb, fun {c} hc => ?_⟩
      obtain ⟨t, more, rfl, ht⟩ := hb.exists_head hbody
      rw [skipEquals, if_neg (by rw [Cursor.text_eq hc]; exact ht)]
      exact hc
    | @equals toks hb =>
      refine ⟨["="], toks, rfl, hb, fun {c} hc => ?_⟩
      rw [skipEquals, if_pos (Cursor.text_eq hc)]
      exact Cursor.texts_advance hc (by simp)
  obtain ⟨signs, body, rfl, hb, hskip⟩ := hskip
  intro c hc
  rw [List.cons_append, List.append_assoc] at hc
  obtain ⟨t, c₁, hexpect, (htext : t.text = d.name), hc₁⟩ :=
    reads_expect .typeName isIdentifier hname (by simp) c hc
  obtain ⟨b, c₂, hdecl, (hview : b.unplaced = d.body.unplaced), hc₂⟩ :=
    reads_declBody hb hbody hnext _ (hskip hc₁)
  refine ⟨⟨t.text, t.pos, b⟩, c₂, ?_, ?_, hc₂⟩
  · exact Result.bind_eq_ok.mpr ⟨_, hexpect, Result.bind_eq_ok.mpr ⟨_, hdecl, rfl⟩⟩
  · change (⟨t.text, .start, b.unplaced⟩ : DeclExpr) = ⟨d.name, .start, d.body.unplaced⟩
    rw [htext, hview]

/-- A declaration in parentheses, as a list of one. -/
def groupedSpecs (c : Cursor) : Except Error (List DeclExpr × Cursor) :=
  (groupedSpec c).map fun p => ([p.1], p.2)

theorem isLoop_group :
    IsLoop groupedSpecs group (fun done c => (done.reverse, c.advance)) ")" where
  stop c done h := by rw [group, if_pos h]
  step c done hne := by
    rw [group, if_neg hne, groupedSpecs]
    split
    · rename_i e he
      rw [he]
      rfl
    · rename_i decl after hok
      dsimp only
      rw [hok]
      rfl

theorem readsItems_groupedSpecs :
    ReadsItems groupedSpecs GroupedSpec (·.isWritable = true) (·.unplaced) ")" where
  closing := .inl rfl
  start := by
    rintro _ toks ⟨d, rfl, hspec⟩ hgood
    have hname := (Bool.and_eq_true_iff.mp (hgood d List.mem_cons_self)).1
    cases hspec with
    | _ => exact ⟨_, _, rfl, isSeparator_of_isIdentifier hname, ne_of_isIdentifier hname (by decide)⟩
  read := by
    rintro _ toks ⟨d, rfl, hspec⟩ hgood tail tail' hend c hc
    obtain ⟨next, rest, rfl, _, hdot⟩ := hend.exists_head
    obtain ⟨d', c₁, htype, (hview : d'.unplaced = d.unplaced), hc₁⟩ :=
      reads_typeSpec hspec (hgood d List.mem_cons_self) hdot c hc
    obtain ⟨c₂, hended, hc₂⟩ := endStatement_of_ended hend hc₁
    refine ⟨[d'], c₂, Result.map_eq_ok.mpr ⟨(d', c₂), ?_, rfl⟩, ?_, hc₂⟩
    · exact Result.bind_eq_ok.mpr ⟨_, htype, Result.bind_eq_ok.mpr ⟨_, hended, rfl⟩⟩
    · exact congrArg (fun d => [d]) hview

theorem reads_typeSpecs {decls : List DeclExpr} {toks : List String}
    (h : TypeStatement decls ("type" :: toks)) (hdecls : ∀ d ∈ decls, d.isWritable = true)
    {next : String} {rest : List String} (hnext : next ≠ ".") :
    Reads typeSpecs (·.map (·.unplaced)) (toks ++ next :: rest) (decls.map (·.unplaced))
      (next :: rest) := by
  intro c hc
  unfold typeSpecs
  cases h with
  | @single d toks hspec =>
    have hname := (Bool.and_eq_true_iff.mp (hdecls d List.mem_cons_self)).1
    have hfirst : c.token.text = d.name := by
      cases hspec with
      | _ => exact Cursor.text_eq hc
    obtain ⟨d', c₁, htype, (hview : d'.unplaced = d.unplaced), hc₁⟩ :=
      reads_typeSpec hspec (hdecls d List.mem_cons_self) hnext c hc
    rw [if_neg (by rw [hfirst]; exact ne_of_isIdentifier hname (by decide)), htype]
    refine ⟨_, _, rfl, ?_, hc₁⟩
    exact congrArg (fun d => [d]) hview
  | @group decls toks hstatements =>
    rw [List.cons_append, List.append_assoc, List.singleton_append] at hc
    rw [if_pos (Cursor.text_eq hc)]
    obtain ⟨decls', c₁, hgroup, hview, hc₁⟩ := isLoop_group.run readsItems_groupedSpecs hstatements
      hdecls (Cursor.texts_advance hc (by simp)) []
    rw [List.append_nil, List.reverse_reverse] at hgroup
    exact ⟨decls', _, hgroup, hview, Cursor.texts_advance hc₁ (by simp)⟩

theorem isLoop_declarations :
    IsLoop typeStatement declarations (fun done _ => done.reverse) "" where
  stop c done h := by rw [declarations, if_pos h]
  step c done hne := by
    rw [declarations, if_neg hne]
    split
    · rename_i e he
      rw [he]
      rfl
    · rename_i decls after hok
      dsimp only
      rw [hok]
      rfl

theorem TypeStatement.exists_head {decls : List DeclExpr} {toks : List String}
    (h : TypeStatement decls toks) : ∃ more, toks = "type" :: more := by
  cases h with
  | _ => exact ⟨_, rfl⟩

theorem readsItems_typeStatement :
    ReadsItems typeStatement TypeStatement (·.isWritable = true) (·.unplaced) "" where
  closing := .inr (.inr rfl)
  start h _ := by
    obtain ⟨more, rfl⟩ := h.exists_head
    exact ⟨_, _, rfl, by decide, by decide⟩
  read := by
    intro decls toks h hdecls tail tail' hend c hc
    obtain ⟨next, rest, rfl, _, hdot⟩ := hend.exists_head
    obtain ⟨more, rfl⟩ := h.exists_head
    obtain ⟨_, c₁, hexpect, _, hc₁⟩ :=
      reads_expect .typeKeyword (· == "type") (beq_self_eq_true _) (by simp) c hc
    obtain ⟨decls', c₂, hspecs, hview, hc₂⟩ := reads_typeSpecs h hdecls hdot c₁ hc₁
    obtain ⟨c₃, hended, hc₃⟩ := endStatement_of_ended hend hc₂
    refine ⟨decls', c₃, ?_, hview, hc₃⟩
    exact Result.bind_eq_ok.mpr ⟨_, hexpect, Result.bind_eq_ok.mpr ⟨_, hspecs,
      Result.bind_eq_ok.mpr ⟨_, hended, rfl⟩⟩⟩

/-! ## Whole texts -/

theorem declarations_of_statements {decls : List DeclExpr} {toks : List String}
    (h : Statements TypeStatement decls toks) (hdecls : ∀ d ∈ decls, d.isWritable = true)
    {c : Cursor} (hc : c.texts = toks ++ [""]) :
    ∃ decls', declarations c [] = .ok decls' ∧ decls'.map (·.unplaced) = decls.map (·.unplaced) := by
  obtain ⟨decls', _, hok, hview, _⟩ :=
    isLoop_declarations.run readsItems_typeStatement h hdecls hc []
  rw [List.append_nil, List.reverse_reverse] at hok
  exact ⟨decls', hok, hview⟩

/-- A text of declarations does not start with a package clause. -/
theorem not_package_of_statements {decls : List DeclExpr} {toks : List String}
    (h : Statements TypeStatement decls toks) {c : Cursor} (hc : c.texts = toks ++ [""]) :
    (skipSeparators c).token.text ≠ "package" := by
  have hfirst : ∃ seps t tail, AreSeparators seps ∧ c.texts = seps ++ t :: tail ∧
      (t = "type" ∨ t = "") := by
    cases h with
    | none hseps => exact ⟨_, _, _, hseps, hc, .inr rfl⟩
    | last hseps hitem =>
      obtain ⟨more, rfl⟩ := hitem.exists_head
      rw [List.append_assoc] at hc
      exact ⟨_, _, _, hseps, hc, .inl rfl⟩
    | more hseps hitem _ _ =>
      obtain ⟨more, rfl⟩ := hitem.exists_head
      rw [List.append_assoc] at hc
      exact ⟨_, _, _, hseps, hc, .inl rfl⟩
  obtain ⟨seps, t, tail, hseps, htexts, ht⟩ := hfirst
  have hnotSep : isSeparator t = false := by
    rcases ht with rfl | rfl <;> decide
  rw [Cursor.text_eq (texts_skipSeparators hseps hnotSep htexts)]
  rcases ht with rfl | rfl <;> decide

/-- The package clause is read up to the end of its statement. -/
theorem packageClause_of_texts {name : String} (hname : isIdentifier name = true)
    {tail tail' : List String} (hend : Ended tail tail') {c : Cursor}
    (hc : c.texts = "package" :: name :: tail) :
    ∃ c', packageClause c = .ok (name, c') ∧ c'.texts = tail' := by
  obtain ⟨next, rest, rfl, _⟩ := hend.exists_head
  obtain ⟨t, c₁, hexpect, (htext : t.text = name), hc₁⟩ := reads_expect .packageName isIdentifier
    hname (by simp) c.advance (Cursor.texts_advance hc (by simp))
  obtain ⟨c₂, hended, hc₂⟩ := endStatement_of_ended hend hc₁
  refine ⟨c₂, ?_, hc₂⟩
  unfold packageClause
  rw [if_pos (Cursor.text_eq hc), ← htext]
  exact Result.bind_eq_ok.mpr ⟨_, hexpect, Result.bind_eq_ok.mpr ⟨_, hended, rfl⟩⟩

/-- **What is written is read**, token by token. -/
theorem ofTokens_of_file {src : Source} {toks : List String} (h : File src toks)
    (hsrc : src.isWritable = true) {tokens : List Token}
    (htokens : tokens.map (·.text) = toks ++ [""]) :
    ∃ found, Source.ofTokens tokens = .ok found ∧ found.unplaced = src.unplaced := by
  obtain ⟨hpackage, hdecls⟩ := Bool.and_eq_true_iff.mp hsrc
  have hdecls := List.all_eq_true.mp hdecls
  cases tokens with
  | nil => exact absurd htokens (by simp)
  | cons t rest =>
    have hc : (⟨t, rest⟩ : Cursor).texts = toks ++ [""] := htokens
    -- it is enough to read the clause and then the declarations
    have hparts : ∀ {package : String} {c : Cursor} {decls' : List DeclExpr},
        packageClause (skipSeparators ⟨t, rest⟩) = .ok (package, c) →
        declarations c [] = .ok decls' → package = src.package →
        decls'.map (·.unplaced) = src.decls.map (·.unplaced) →
        ∃ found, Source.ofTokens (t :: rest) = .ok found ∧ found.unplaced = src.unplaced := by
      intro package c decls' hclause hdeclarations hname hview
      refine ⟨⟨package, decls'⟩, ?_, ?_⟩
      · exact Result.bind_eq_ok.mpr ⟨_, hclause, Result.bind_eq_ok.mpr ⟨_, hdeclarations, rfl⟩⟩
      · unfold Source.unplaced
        rw [hname, hview]
    have hname : src.package ≠ "" → isIdentifier src.package = true := by
      intro hne
      rcases Bool.or_eq_true_iff.mp hpackage with hempty | hid
      · exact absurd (eq_of_beq hempty) hne
      · exact hid
    cases h with
    | bare hstatements =>
      obtain ⟨decls', hok, hview⟩ := declarations_of_statements hstatements hdecls hc
      rw [← isLoop_declarations.skip] at hok
      have hclause : packageClause (skipSeparators ⟨t, rest⟩) = .ok ("", skipSeparators ⟨t, rest⟩) :=
        if_neg (not_package_of_statements hstatements hc)
      exact hparts hclause hok rfl hview
    | package hseps hne hsep hstatements =>
      rw [List.append_assoc] at hc
      have hskip := texts_skipSeparators hseps (by decide) hc
      obtain ⟨c₁, hclause, hc₁⟩ :=
        packageClause_of_texts (hname hne) (.separator hsep (by simp)) hskip
      obtain ⟨decls', hok, hview⟩ := declarations_of_statements hstatements hdecls hc₁
      exact hparts hclause hok rfl hview
    | packageOnly hseps hne =>
      rw [List.append_assoc] at hc
      have hskip := texts_skipSeparators hseps (by decide) hc
      obtain ⟨c₁, hclause, hc₁⟩ :=
        packageClause_of_texts (hname hne) (.closing (.inr (.inr rfl))) hskip
      obtain ⟨decls', hok, hview⟩ :=
        declarations_of_statements (.none areSeparators_nil) hdecls hc₁
      exact hparts hclause hok rfl hview

end Grammar

/--
**Reading recovers a source from every way of writing it.** A source whose names are identifiers, and
whose tags have no backquotes, can be written; and whichever way it was written, the text is read as
this source, positions aside.
-/
theorem read_written {src : Source} (hsrc : src.isWritable = true) :
    (∃ text, src.Written text)
      ∧ ∀ text, src.Written text →
          ∃ found, (Token.scan text >>= Source.ofTokens) = .ok found
            ∧ found.unplaced = src.unplaced := by
  refine ⟨Source.exists_written hsrc, fun text h => ?_⟩
  obtain ⟨toks, hfile, hspelled⟩ := h
  obtain ⟨tokens, hscan, htexts⟩ := Token.scanFrom_of_spelled hspelled .start []
  obtain ⟨found, hok, hview⟩ := Grammar.ofTokens_of_file hfile hsrc htexts
  exact ⟨found, Result.bind_eq_ok.mpr ⟨tokens, hscan, hok⟩, hview⟩

/-! ### A source and a text -/

/-- Two fields of one type. -/
def pairFields : List FieldExpr :=
  [⟨"X", .start, .optional (.named "Unit" .start), some "k"⟩,
    ⟨"Y", .start, .optional (.named "Unit" .start), some "k"⟩]

/-- A struct and an alias. -/
def pairSource : Source where
  package := ""
  decls := [⟨"Pair", .start, .struct pairFields⟩,
    ⟨"Unit", .start, .alias (.array (.named "int8" .start))⟩]

/-- Declarations in parentheses, fields put together, and a sign. -/
def pairTokens : List String :=
  ["type", "(", "Pair", "struct", "\x7b", "X", ",", "Y", "*", "Unit", "\x60k\x60", "\x7d", ";", "Unit",
    "=", "[", "]", "int8", ")"]

def pairText : String :=
  "/* ** */type ( Pair struct \x7b X , Y * Unit \x60k\x60 \x7d ; Unit = [ ] int8 ) "

theorem written_pairText : pairSource.Written pairText := by
  have hfields : Grammar.FieldGroup pairFields ["X", ",", "Y", "*", "Unit", "\x60k\x60"] :=
    .mk (by decide)
  have hpair : Grammar.GroupedSpec [⟨"Pair", .start, .struct pairFields⟩]
      ["Pair", "struct", "\x7b", "X", ",", "Y", "*", "Unit", "\x60k\x60", "\x7d"] :=
    ⟨_, rfl, .plain (.struct (.last Grammar.areSeparators_nil hfields))⟩
  have hunit : Grammar.GroupedSpec [⟨"Unit", .start, .alias (.array (.named "int8" .start))⟩]
      ["Unit", "=", "[", "]", "int8"] :=
    ⟨_, rfl, .equals (.synonym _)⟩
  have hsemicolon : Grammar.isSeparator ";" = true := by decide
  have hgroup := Grammar.TypeStatement.group (.more Grammar.areSeparators_nil hpair hsemicolon
    (.last Grammar.areSeparators_nil hunit))
  have htokens : ∀ t ∈ pairTokens, isToken t = true := by decide
  have hchars : pairText.toList = '/' :: '*' :: ([' ', '*', '*', ' '] ++ '*' :: '/' ::
      pairTokens.flatMap fun t => t.toList ++ [' ']) := by decide
  refine ⟨pairTokens, .bare (.last Grammar.areSeparators_nil hgroup), ?_⟩
  rw [hchars]
  exact .comment (by decide) (spelled_flatMap htokens)

theorem read_written_pair : pairSource.isWritable = true ∧ pairSource.Written pairText ∧
    ∃ found, (Token.scan pairText >>= Source.ofTokens) = .ok found
      ∧ found.unplaced = pairSource := by
  have hwritable : pairSource.isWritable = true := by decide
  obtain ⟨_, hread⟩ := read_written hwritable
  exact ⟨hwritable, written_pairText, hread pairText written_pairText⟩

end WireSchema
