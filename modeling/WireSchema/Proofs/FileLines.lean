import WireSchema.Code.Writer
import WireSchema.Text.Lines
import WireSchema.Proofs.StringLiterals

/-!
# Lines of a file

Generated text is a list of lines, and what has been written stays as it is: the text of the lines so
far is the beginning of the finished file, empty lines at the end apart. A text can be written twice,
first as a list of lines and then, cut where its line breaks are, as lines of another file that are
further in. A line that was written with **a line break inside** then falls apart into several, which
are all moved. So such a text does not stand in the file as it was given: it has gained blanks, and
carriage returns in front of line breaks are gone.
-/

namespace WireSchema

open Literal (isInk)

namespace CodeWriter

variable (w : CodeWriter)

/-! ## What has been written -/

/-- The lines so far, each with a line break behind it. -/
def text : List Char :=
  w.lines.reverse.flatMap fun line => line.toList ++ ['\n']

/-- What lines begin with at the current depth. -/
def margin : List Char :=
  (String.join (List.replicate w.depth w.unit)).toList

/-- A line behind a margin, which an empty line does not have. -/
def placed (margin : List Char) (line : String) : List Char :=
  if line.isEmpty then [] else margin ++ line.toList

theorem placed_ofList {line : List Char} (h : line ≠ []) (margin : List Char) :
    placed margin (String.ofList line) = margin ++ line := by
  rw [placed, if_neg (by simpa using h), String.toList_ofList]

theorem run_append (steps steps' : List CodeStep) :
    w.run (steps ++ steps') = (w.run steps).run steps' :=
  List.foldl_append

theorem step_blank : w.step .blank = w ∨ w.step .blank = { w with lines := "" :: w.lines } := by
  rw [step]
  split
  · split
    · exact .inl rfl
    · exact .inr rfl
  · exact .inl rfl

theorem lines_step (s : CodeStep) : w.lines <:+ (w.step s).lines := by
  cases s with
  | line text => exact List.suffix_cons _ _
  | enter text => exact List.suffix_cons _ _
  | leave text => exact List.suffix_cons _ _
  | blank =>
    rcases w.step_blank with h | h
    · simp only [h, List.suffix_rfl]
    · simp only [h, List.suffix_cons]
  | indent => exact List.suffix_rfl
  | dedent => exact List.suffix_rfl

theorem lines_run (steps : List CodeStep) : w.lines <:+ (w.run steps).lines := by
  induction steps generalizing w with
  | nil => exact List.suffix_rfl
  | cons s steps ih => exact (w.lines_step s).trans (ih (w.step s))

/-- **What has been written stays.** -/
theorem text_run (steps : List CodeStep) : w.text <+: (w.run steps).text := by
  obtain ⟨later, hlater⟩ := w.lines_run steps
  unfold text
  rw [← hlater, List.reverse_append, List.flatMap_append]
  exact List.prefix_append _ _

theorem toList_intercalate_line {lines : List String} (h : lines ≠ []) :
    ("\n".intercalate lines ++ "\n").toList = lines.flatMap fun line => line.toList ++ ['\n'] := by
  induction lines with
  | nil => exact absurd rfl h
  | cons line lines ih =>
    cases lines with
    | nil => simp
    | cons line' lines =>
      rw [String.intercalate_cons_cons, String.append_assoc, String.toList_append, ih (by simp)]
      simp

/-- The finished text begins with the lines up to one that is not empty. -/
theorem text_finish {line : String} {earlier : List String} (hlines : w.lines = line :: earlier)
    (hline : line ≠ "") (steps : List CodeStep) :
    w.text <+: (w.run steps).finish.toList := by
  obtain ⟨later, hlater⟩ := w.lines_run steps
  -- empty lines are dropped behind `line` only
  obtain ⟨kept, hkept⟩ : ∃ kept, (w.run steps).lines.dropWhile String.isEmpty = kept ++ w.lines := by
    rw [← hlater, List.dropWhile_append]
    split
    · refine ⟨[], ?_⟩
      rw [hlines, List.dropWhile_cons_of_neg (by simp [hline])]
      rfl
    · exact ⟨_, rfl⟩
  unfold finish
  rw [hkept, toList_intercalate_line (by simp [hlines]), List.reverse_append, List.flatMap_append]
  exact List.prefix_append _ _

theorem lines_line {text : String} (h : text ≠ "") :
    ∃ line, (w.line text).lines = line :: w.lines ∧ line ≠ "" := by
  refine ⟨_, rfl, ?_⟩
  rw [if_neg (by simpa using h)]
  exact fun heq => h (String.append_eq_empty_iff.mp heq).2

/-- In front of a last line that is not empty nothing is dropped. -/
theorem text_finish_leave {close : String} (h : close ≠ "") (steps : List CodeStep) :
    w.text <+: (w.run (steps ++ [.leave close])).finish.toList := by
  have hrun : w.run (steps ++ [.leave close]) = (w.run steps).step (.leave close) :=
    w.run_append steps [.leave close]
  obtain ⟨line, hlines, hline⟩ :=
    lines_line { w.run steps with depth := (w.run steps).depth - 1 } h
  have hfinish := text_finish ((w.run steps).step (.leave close)) hlines hline []
  have htext := w.text_run (steps ++ [.leave close])
  rw [hrun] at htext ⊢
  exact htext.trans hfinish

/-- Lines are added at the same depth. -/
theorem text_run_lines (lines : List String) : (w.run (lines.map .line)).text
    = w.text ++ lines.flatMap fun line => placed w.margin line ++ ['\n'] := by
  induction lines generalizing w with
  | nil => exact (List.append_nil _).symm
  | cons line lines ih =>
    have hstep : (w.step (.line line)).text = w.text ++ (placed w.margin line ++ ['\n']) := by
      unfold text placed margin step CodeWriter.line
      dsimp only
      rw [List.reverse_cons, List.flatMap_append, List.flatMap_singleton]
      split
      · rfl
      · rw [String.toList_append]
    change ((w.step (.line line)).run (lines.map .line)).text = _
    rw [ih, hstep, List.flatMap_cons, List.append_assoc]
    rfl

theorem margin_step_blank : (w.step .blank).margin = w.margin := by
  rcases w.step_blank with h | h <;> rw [h]
  rfl

theorem unit_run (steps : List CodeStep) : (w.run steps).unit = w.unit := by
  induction steps generalizing w with
  | nil => rfl
  | cons s steps ih =>
    have hstep : (w.step s).unit = w.unit := by
      cases s with
      | blank => rcases w.step_blank with h | h <;> rw [h]
      | _ => rfl
    exact (ih (w.step s)).trans hstep

/-- Lines begin with blanks only, if depth is shown by blanks. -/
theorem blank_of_mem_margin (h : ∀ c ∈ w.unit.toList, c = ' ') : ∀ c ∈ w.margin, c = ' ' := by
  intro c hc
  rw [margin, String.toList_join] at hc
  obtain ⟨unit, hunit, hc⟩ := List.mem_flatMap.mp hc
  rw [(List.mem_replicate.mp hunit).2] at hc
  exact h c hc

theorem margin_run_lines (lines : List String) : (w.run (lines.map .line)).margin = w.margin := by
  induction lines generalizing w with
  | nil => rfl
  | cons line lines ih => exact ih (w.step (.line line))

end CodeWriter

/-! ## Lines inside a text -/

namespace Text

theorem linesFrom_line {cs : List Char} (h : '\n' ∉ cs) (line rest : List Char) :
    linesFrom line (cs ++ '\n' :: rest)
      = String.ofList (dropReturn (cs.reverse ++ line)).reverse :: linesFrom [] rest := by
  induction cs generalizing line with
  | nil => rw [List.nil_append, linesFrom, if_pos rfl, List.reverse_nil, List.nil_append]
  | cons c cs ih =>
    have hc : c ≠ '\n' := fun heq => h (heq ▸ List.mem_cons_self)
    rw [List.cons_append, linesFrom, if_neg hc, ih fun hmem => h (List.mem_cons_of_mem _ hmem),
      List.reverse_cons, List.append_assoc, List.singleton_append]

theorem linesFrom_append (line cs rest : List Char) :
    linesFrom line (cs ++ '\n' :: rest) = linesFrom line (cs ++ ['\n']) ++ linesFrom [] rest := by
  induction cs generalizing line with
  | nil => simp [linesFrom]
  | cons c cs ih =>
    rw [List.cons_append, List.cons_append, linesFrom, linesFrom]
    split
    · rw [ih, List.cons_append]
    · exact ih _

/-- The lines of several texts that are ended are those of one after the other. -/
theorem linesFrom_text (w : CodeWriter) (rest : List Char) :
    linesFrom [] (w.text ++ rest) = linesFrom [] w.text ++ linesFrom [] rest := by
  unfold CodeWriter.text
  induction w.lines.reverse with
  | nil => rfl
  | cons line lines ih =>
    rw [List.flatMap_cons, List.append_assoc, List.append_assoc, List.append_assoc,
      List.singleton_append, List.singleton_append, linesFrom_append, ih,
      linesFrom_append _ _ (lines.flatMap _), List.append_assoc]

theorem dropReturn_of_head? {line : List Char} (h : line.head? ≠ some '\r') :
    dropReturn line = line := by
  unfold dropReturn
  split
  · exact absurd rfl h
  · rfl

theorem dropReturn_append {line more : List Char} (h : more.head? ≠ some '\r') :
    dropReturn (line ++ more) = dropReturn line ++ more := by
  cases line with
  | nil => exact dropReturn_of_head? h
  | cons c line =>
    by_cases hc : c = '\r'
    · rw [hc]
      rfl
    · have hhead : ∀ {rest : List Char}, (c :: rest).head? ≠ some '\r' :=
        fun hsome => hc (Option.some.inj hsome)
      rw [List.cons_append, dropReturn_of_head? hhead, dropReturn_of_head? hhead, List.cons_append]

/-- A part of a line. Its last character would not be lost at the end of the line. -/
structure LinePart (cs : List Char) : Prop where
  line : '\n' ∉ cs
  last : ∃ c, cs.getLast? = some c ∧ c ≠ '\r'

namespace LinePart

variable {cs ds : List Char}

theorem ne_nil (h : LinePart cs) : cs ≠ [] := by
  rintro rfl
  obtain ⟨_, hnone, _⟩ := h.last
  exact nomatch hnone

theorem append (hcs : '\n' ∉ cs) (h : LinePart ds) : LinePart (cs ++ ds) := by
  obtain ⟨c, hc, hreturn⟩ := h.last
  refine ⟨fun hmem => (List.mem_append.mp hmem).elim hcs h.line, c, ?_, hreturn⟩
  rw [List.getLast?_append, hc]
  rfl

theorem head?_reverse (h : LinePart cs) (line : List Char) :
    (cs.reverse ++ line).head? ≠ some '\r' := by
  obtain ⟨c, hc, hreturn⟩ := h.last
  rw [List.head?_append, List.head?_reverse, hc]
  simpa using hreturn

theorem reverse_dropReturn (h : LinePart cs) (line : List Char) :
    (dropReturn (cs.reverse ++ line)).reverse = line.reverse ++ cs := by
  rw [dropReturn_of_head? (h.head?_reverse line), List.reverse_append, List.reverse_reverse]

end LinePart

theorem filter_dropReturn (line : List Char) :
    (dropReturn line).filter isInk = line.filter isInk := by
  unfold dropReturn
  split
  · exact (List.filter_cons_of_neg (by decide)).symm
  · rfl

end Text

/-- A text cut into lines, which are put behind a margin. -/
def relined (margin cs : List Char) : List Char :=
  (Text.linesFrom [] cs).flatMap fun line => CodeWriter.placed margin line ++ ['\n']

/-- How a text stands on other lines: with more blanks, and with fewer carriage returns. -/
structure Relined (text body : List Char) : Prop where
  ink : body.filter isInk = text.filter isInk
  longer : '\r' ∉ text → '\r' ∉ body ∧ text.length < body.length

section Relined

variable {margin : List Char} (hblank : ∀ c ∈ margin, c = ' ') (hmargin : margin ≠ [])
include hblank

theorem filter_margin : margin.filter isInk = [] := by
  refine List.filter_eq_nil_iff.mpr fun c hc => ?_
  rw [hblank c hc]
  decide

theorem return_not_mem_margin : '\r' ∉ margin :=
  fun hmem => absurd (hblank _ hmem) (by decide)

/-- A line without carriage returns is kept. -/
theorem length_placed {line : List Char} (h : '\r' ∉ line) :
    '\r' ∉ CodeWriter.placed margin (String.ofList (Text.dropReturn line).reverse) ∧ line.length
      ≤ (CodeWriter.placed margin (String.ofList (Text.dropReturn line).reverse)).length := by
  have hhead : line.head? ≠ some '\r' := fun hsome => h (List.mem_of_head? hsome)
  rw [Text.dropReturn_of_head? hhead]
  unfold CodeWriter.placed
  split
  · rename_i hempty
    have hnil : line = [] := by
      rw [String.isEmpty_iff, ← String.toList_inj, String.toList_ofList] at hempty
      simpa using hempty
    exact ⟨List.not_mem_nil, by simp [hnil]⟩
  · rw [String.toList_ofList]
    refine ⟨fun hmem => ?_, by simp⟩
    rcases List.mem_append.mp hmem with hmem | hmem
    · exact return_not_mem_margin hblank hmem
    · exact h (List.mem_reverse.mp hmem)

theorem filter_placed (line : List Char) :
    (CodeWriter.placed margin (String.ofList (Text.dropReturn line).reverse)).filter isInk
      = line.reverse.filter isInk := by
  have hline : (Text.dropReturn line).reverse.filter isInk = line.reverse.filter isInk := by
    rw [List.filter_reverse, List.filter_reverse, Text.filter_dropReturn]
  unfold CodeWriter.placed
  split
  · rename_i hempty
    rw [← hline, ← String.toList_ofList (l := (Text.dropReturn line).reverse),
      String.isEmpty_iff.mp hempty]
    rfl
  · rw [List.filter_append, filter_margin hblank, String.toList_ofList, hline, List.nil_append]

include hmargin

/-- A text that begins in the line `line` and ends in front of `back`. -/
theorem exists_relined {back : List Char} (hback : Text.LinePart back) (text rest line : List Char) :
    ∃ body, ((Text.linesFrom line (text ++ (back ++ '\n' :: rest))).flatMap fun line =>
        CodeWriter.placed margin line ++ ['\n']) = body ++ (back ++ '\n' :: relined margin rest)
      ∧ Relined (line.reverse ++ text) body := by
  induction text generalizing line with
  | nil =>
    refine ⟨margin ++ line.reverse, ?_, ?_, ?_⟩
    · rw [List.nil_append, Text.linesFrom_line hback.line, List.flatMap_cons,
        hback.reverse_dropReturn, CodeWriter.placed_ofList (by simp [hback.ne_nil])]
      simp [relined]
    · rw [List.filter_append, filter_margin hblank, List.nil_append, List.append_nil]
    · intro hreturn
      rw [List.append_nil] at hreturn ⊢
      have hpos := List.length_pos_iff.mpr hmargin
      refine ⟨fun hmem => (List.mem_append.mp hmem).elim (return_not_mem_margin hblank) hreturn, ?_⟩
      rw [List.length_append]
      omega
  | cons c text ih =>
    rw [List.cons_append, Text.linesFrom]
    split
    · -- a line ends here, and what follows is moved
      rename_i hc
      subst hc
      obtain ⟨body, hbody, hink, hlonger⟩ := ih []
      refine ⟨CodeWriter.placed margin (String.ofList (Text.dropReturn line).reverse) ++ '\n' :: body,
        ?_, ?_, ?_⟩
      · rw [List.flatMap_cons, hbody]
        simp
      · rw [List.filter_append, List.filter_append, filter_placed hblank,
          List.filter_cons_of_pos (by decide), List.filter_cons_of_pos (by decide), hink]
        rfl
      · intro hreturn
        rw [List.mem_append, List.mem_reverse, List.mem_cons] at hreturn
        obtain ⟨hbefore, hafter⟩ := not_or.mp hreturn
        obtain ⟨hplaced, hlength⟩ := length_placed hblank hbefore
        obtain ⟨hrest, hlt⟩ := hlonger fun hmem => hafter (.inr hmem)
        refine ⟨?_, ?_⟩
        · rw [List.mem_append, List.mem_cons]
          rintro (hmem | hmem | hmem)
          · exact hplaced hmem
          · exact absurd hmem (by decide)
          · exact hrest hmem
        · rw [List.reverse_nil, List.nil_append] at hlt
          rw [List.length_append, List.length_append, List.length_reverse, List.length_cons,
            List.length_cons]
          omega
    · obtain ⟨body, hbody, hrelined⟩ := ih (c :: line)
      rw [List.reverse_cons, List.append_assoc, List.singleton_append] at hrelined
      exact ⟨body, hbody, hrelined⟩

/-- **A line with a text in it.** Only a text with a line break is changed. -/
theorem relined_line {front back : List Char} (hfront : Text.LinePart front)
    (hback : Text.LinePart back) (text rest : List Char) :
    ∃ body, relined margin (front ++ (text ++ (back ++ '\n' :: rest)))
        = margin ++ (front ++ (body ++ (back ++ '\n' :: relined margin rest)))
      ∧ ('\n' ∉ text → body = text) ∧ ('\n' ∈ text → Relined text body) := by
  by_cases hline : '\n' ∈ text
  · -- `front` is kept together with the first line of the text, and the others are moved
    obtain ⟨before, after, rfl, hbefore⟩ := List.eq_append_cons_of_mem hline
    obtain ⟨body, hbody, hink, hlonger⟩ :=
      exists_relined hblank hmargin hback after rest []
    have hfirst : '\n' ∉ front ++ before :=
      fun hmem => (List.mem_append.mp hmem).elim hfront.line hbefore
    have hhead : front.reverse.head? ≠ some '\r' := by simpa using hfront.head?_reverse []
    refine ⟨(Text.dropReturn before.reverse).reverse ++ '\n' :: body, ?_, fun h => absurd hline h,
      fun _ => ⟨?_, fun hreturn => ?_⟩⟩
    · have hsplit : front ++ (before ++ '\n' :: after ++ (back ++ '\n' :: rest))
          = (front ++ before) ++ '\n' :: (after ++ (back ++ '\n' :: rest)) := by simp
      rw [relined, hsplit, Text.linesFrom_line hfirst, List.flatMap_cons, hbody, List.append_nil,
        List.reverse_append, Text.dropReturn_append hhead, List.reverse_append, List.reverse_reverse,
        CodeWriter.placed_ofList (by simp [hfront.ne_nil])]
      simp
    · rw [List.filter_append, List.filter_append, List.filter_reverse, Text.filter_dropReturn,
        List.filter_reverse, List.reverse_reverse, List.filter_cons_of_pos (by decide),
        List.filter_cons_of_pos (by decide), hink]
      rfl
    · obtain ⟨hfirst, hafter⟩ : '\r' ∉ before ∧ '\r' ∉ after := by simpa using hreturn
      obtain ⟨hrest, hlt⟩ := hlonger hafter
      have hkept : Text.dropReturn before.reverse = before.reverse :=
        Text.dropReturn_of_head? fun hsome =>
          hfirst (List.mem_reverse.mp (List.mem_of_head? hsome))
      rw [hkept, List.reverse_reverse]
      exact ⟨by simp [hfirst, hrest], by simpa using hlt⟩
  · refine ⟨text, ?_, fun _ => rfl, fun h => absurd h hline⟩
    have hall : '\n' ∉ front ++ (text ++ back) := by simp [hfront.line, hline, hback.line]
    have hsplit : front ++ (text ++ (back ++ '\n' :: rest))
        = front ++ (text ++ back) ++ '\n' :: rest := by simp
    have hreverse : (front ++ (text ++ back)).reverse ++ []
        = back.reverse ++ (front ++ text).reverse := by simp
    rw [relined, hsplit, Text.linesFrom_line hall, List.flatMap_cons, hreverse,
      hback.reverse_dropReturn, List.reverse_reverse,
      CodeWriter.placed_ofList (by simp [hfront.ne_nil])]
    simp [relined]

end Relined

namespace CodeWriter

variable (w : CodeWriter)

/-- A file behind what `steps` write, which is a text of its own first. -/
def nested (unit : String) (steps : List CodeStep) : CodeWriter :=
  w.run ((Text.lines (String.ofList (run { unit } steps).text)).map .line)

/-- **A line of the inner text** stands in the finished file behind what was written before it. -/
theorem text_nested {unit text close : String} (htext : text ≠ "") (hclose : close ≠ "")
    (before after : List CodeStep) :
    (w.nested unit before).text
        ++ relined w.margin ((run { unit } before).margin ++ (text.toList ++ ['\n']))
      <+: (w.run ((Text.lines (renderCode unit (before ++ .line text :: after))).map .line
        ++ [.leave close])).finish.toList := by
  let inner := run { unit } before
  -- the inner text begins with what was written before the line, and the line
  obtain ⟨rest, hrest⟩ : inner.text ++ (inner.margin ++ text.toList ++ ['\n'])
      <+: (renderCode unit (before ++ .line text :: after)).toList := by
    obtain ⟨line, hlines, hline⟩ := inner.lines_line htext
    have hfinish := text_finish (inner.step (.line text)) hlines hline after
    have hindented : placed inner.margin text = inner.margin ++ text.toList :=
      if_neg (by simpa using htext)
    have hstep : (inner.step (.line text)).text
        = inner.text ++ (inner.margin ++ text.toList ++ ['\n']) := by
      rw [← hindented, ← List.flatMap_singleton (fun line => placed inner.margin line ++ ['\n'])]
      exact inner.text_run_lines [text]
    rw [hstep] at hfinish
    unfold renderCode
    rw [run_append]
    exact hfinish
  let lines := Text.linesFrom [] inner.text
  let moved := Text.linesFrom [] (inner.margin ++ text.toList ++ ['\n'])
  have hlines : Text.lines (renderCode unit (before ++ .line text :: after))
      = lines ++ (moved ++ Text.linesFrom [] rest) := by
    rw [Text.lines, ← hrest, List.append_assoc, Text.linesFrom_text,
      List.append_assoc (inner.margin ++ _), List.singleton_append, Text.linesFrom_append]
  have hnested : w.nested unit before = w.run (lines.map .line) := by
    unfold nested Text.lines
    rw [String.toList_ofList]
  have hmoved : ((w.nested unit before).run (moved.map .line)).text = (w.nested unit before).text
      ++ relined w.margin (inner.margin ++ (text.toList ++ ['\n'])) := by
    rw [text_run_lines, hnested, margin_run_lines, relined, ← List.append_assoc inner.margin]
  rw [← hmoved, hlines, List.map_append, List.append_assoc, run_append, ← hnested, List.map_append,
    List.append_assoc, run_append]
  exact text_finish_leave _ hclose _

end CodeWriter

end WireSchema
