import WireSchema.Proofs.ErrorPositions

/-!
# The parser comes to an end

A parser is a task and the number of tokens taken. A run of it is as many decisions as one likes, and
what holds of one decision holds of runs by induction on their length:

* the pair of the number of tokens still to come and the rank of the task goes down with every
  decision, so a run has an end, and **no loop comes round twice at the same token**;
* the empty token at the end of a text is taken by the last decision only, so the count never exceeds
  the number of tokens;
* what the grammar makes of the rest of the text stays the same, so the end is the grammar's own
  result;
* every position comes from a token.

The mark at the end is needed: behind the last token the last one stays in view, so that a parser
would skip a final separator forever (`runs_on_without_mark`).
-/

namespace WireSchema

/-- Tokens with the empty one at their end. -/
def Token.Marked (tokens : List Token) : Prop :=
  ∃ front pos, tokens = front ++ [⟨"", pos⟩]

namespace Parser

/-! ## States and runs -/

/-- A parser with the number of tokens it has taken. -/
inductive State where
  | busy (index : Nat) (task : Task)
  | done (index : Nat) (result : Except Error Source)

def Move.state (index : Nat) : Move → State
  | .stay task => .busy index task
  | .take task => .busy (index + 1) task
  | .fail e => .done index (.error e)
  | .accept source => .done (index + 1) (.ok source)

/-- The loops of the parser: over separators at four places, over the statements of a text, the
declarations in parentheses, the rows of fields and the names of a row, and through the types that
are parts of a type. -/
inductive Loop where
  | openingSeparators
  | statementSeparators
  | specSeparators
  | rowSeparators
  | statements
  | specs
  | rows
  | names
  | types
  deriving DecidableEq, Repr

/-- The loop that a new turn of begins with a task. -/
def Task.loop? : Task → Option Loop
  | .separators .opening => some .openingSeparators
  | .separators (.file _) => some .statementSeparators
  | .separators (.group _ _) => some .specSeparators
  | .separators (.body _ _) => some .rowSeparators
  | .item (.file _) => some .statements
  | .item (.group _ _) => some .specs
  | .item (.body _ _) => some .rows
  | .comma _ => some .names
  | .type _ _ => some .types
  | _ => none

namespace State

def start : State :=
  .busy 0 (.separators .opening)

def index : State → Nat
  | .busy index _ => index
  | .done index _ => index

/-- One decision of a parser that began at `c`. -/
def step (c : Cursor) : State → Option State
  | .busy index task => some ((task.next (c.advances index).token).state index)
  | .done _ _ => none

def loop? : State → Option Loop
  | .busy _ task => task.loop?
  | .done _ _ => none

def rank : State → Nat
  | .busy _ task => task.rank + 1
  | .done _ _ => 0

def result (c : Cursor) : State → Except Error Source
  | .busy index task => task.result (c.advances index)
  | .done _ result => result

def positions : State → List Position
  | .busy _ task => task.positions
  | .done _ (.ok source) => source.positions
  | .done _ (.error e) => e.pos?.toList

end State

/-- From one state to another in a number of decisions. -/
inductive Runs (c : Cursor) : Nat → State → State → Prop where
  | refl (s : State) : Runs c 0 s s
  | step {n : Nat} {s s' s'' : State} :
      s.step c = some s' → Runs c n s' s'' → Runs c (n + 1) s s''

variable {c : Cursor} {s s' : State}

/-- A parser that is not done decides about the token in view. -/
theorem step_eq_some (h : s.step c = some s') : ∃ index task, s = .busy index task
    ∧ s' = (task.next (c.advances index).token).state index := by
  cases s with
  | done index result => cases h
  | busy index task => exact ⟨index, task, rfl, (Option.some.inj h).symm⟩

/-- What every decision keeps, every run keeps. -/
theorem Runs.preserves {P : State → Prop} (hstep : ∀ s s', s.step c = some s' → P s → P s')
    {n : Nat} (h : Runs c n s s') (hs : P s) : P s' := by
  induction h with
  | refl s => exact hs
  | step hs' _ ih => exact ih (hstep _ _ hs' hs)

/-! ## The token in view -/

theorem advances_succ (c : Cursor) (n : Nat) : c.advances (n + 1) = (c.advances n).advance :=
  Cursor.advances_add n 1 c

/-- The token in view, with the last one behind the end. -/
theorem getElem?_token_advances (c : Cursor) (n : Nat) :
    (c.token :: c.ahead)[min n c.ahead.length]? = some (c.advances n).token := by
  induction n generalizing c with
  | zero =>
    rw [Nat.zero_min]
    rfl
  | succ n ih =>
    obtain ⟨t, ahead⟩ := c
    cases ahead with
    | nil =>
      rw [Cursor.advances_of_ahead_eq_nil rfl]
      rfl
    | cons u rest =>
      rw [List.length_cons, Nat.succ_min_succ, List.getElem?_cons_succ]
      exact ih ⟨u, rest⟩

theorem pos_mem_tokens (c : Cursor) (n : Nat) :
    (c.advances n).token.pos ∈ (c.token :: c.ahead).map Token.pos :=
  List.mem_map_of_mem (List.mem_of_getElem? (getElem?_token_advances c n))

/-- The last of marked tokens is the empty one. -/
theorem text_of_ahead_eq_nil (hmark : Token.Marked (c.token :: c.ahead)) {n : Nat}
    (h : (c.advances n).ahead = []) : (c.advances n).token.text = "" := by
  obtain ⟨front, pos, htokens⟩ := hmark
  have hlength : c.ahead.length = front.length := by
    have := congrArg List.length htokens
    simpa using this
  have hle : c.ahead.length ≤ n := by
    have := Cursor.length_ahead_advances n c
    rw [h, List.length_nil] at this
    omega
  have htoken := getElem?_token_advances c n
  rw [Nat.min_eq_right hle, htokens, hlength, List.getElem?_concat_length] at htoken
  rw [← Option.some.inj htoken]

/-! ## Progress of runs -/

theorem step_progress (h : s.step c = some s') :
    s.index < s'.index ∨ s'.index = s.index ∧ s'.rank < s.rank := by
  obtain ⟨index, task, rfl, rfl⟩ := step_eq_some h
  have hprogress := progress_next (c.advances index).token task
  cases hmove : task.next (c.advances index).token with
  | stay task' =>
    rw [hmove] at hprogress
    exact .inr ⟨rfl, Nat.succ_lt_succ hprogress⟩
  | take task' => exact .inl (Nat.lt_succ_self index)
  | fail e => exact .inr ⟨rfl, Nat.succ_pos _⟩
  | accept source => exact .inl (Nat.lt_succ_self index)

theorem Runs.progress {n : Nat} (h : Runs c (n + 1) s s') :
    s.index < s'.index ∨ s'.index = s.index ∧ s'.rank < s.rank := by
  induction n generalizing s with
  | zero =>
    cases h with
    | step hstep hrest =>
      cases hrest
      exact step_progress hstep
  | succ n ih =>
    cases h with
    | step hstep hrest =>
      -- the order is lexicographic: more tokens taken, or as many and a lower rank
      have h₁ := step_progress hstep
      have h₂ := ih hrest
      omega

def Loop.rank : Loop → Nat
  | .openingSeparators => 4
  | .statementSeparators | .specSeparators | .rowSeparators => 2
  | .specs | .names => 1
  | .statements | .rows | .types => 0

theorem rank_of_loop? {task : Task} {loop : Loop} (h : task.loop? = some loop) :
    task.rank = loop.rank := by
  cases task with
  | separators gap =>
    cases gap <;>
    · cases h
      rfl
  | item gap =>
    cases gap with
    | opening => cases h
    | file | group | body =>
      cases h
      rfl
  | comma | type =>
    cases h
    rfl
  | _ => cases h

/-- No loop comes round twice at the same token. -/
theorem Runs.index_lt {n : Nat} {loop : Loop} (h : Runs c (n + 1) s s') (hs : s.loop? = some loop)
    (hs' : s'.loop? = some loop) : s.index < s'.index := by
  cases s with
  | done index result => exact nomatch hs
  | busy index task =>
    cases s' with
    | done index' result => exact nomatch hs'
    | busy index' task' =>
      rcases h.progress with hlt | ⟨_, hlt⟩
      · exact hlt
      · -- at the same token the rank would have to be lower, and a loop has only one
        have h₁ := rank_of_loop? hs
        have h₂ := rank_of_loop? hs'
        simp only [State.rank] at hlt
        omega

/-! ## The cursor stays in range -/

/-- A parser that is not done has not taken the last token. -/
def State.InRange (c : Cursor) : State → Prop
  | .busy index _ => index ≤ c.ahead.length
  | .done index _ => index ≤ c.ahead.length + 1

theorem State.InRange.index_le (h : s.InRange c) : s.index ≤ c.ahead.length + 1 := by
  cases s with
  | busy index task => exact Nat.le_succ_of_le h
  | done index result => exact h

/-- A token that is not the empty one is not the last. -/
theorem index_lt_of_text_ne (hmark : Token.Marked (c.token :: c.ahead)) {index : Nat}
    (h : (c.advances index).token.text ≠ "") : index < c.ahead.length := by
  have hne : (c.advances index).ahead.length ≠ 0 := fun hnil =>
    h (text_of_ahead_eq_nil hmark (List.eq_nil_of_length_eq_zero hnil))
  rw [Cursor.length_ahead_advances] at hne
  omega

theorem inRange_step (hmark : Token.Marked (c.token :: c.ahead)) (h : s.step c = some s')
    (hs : s.InRange c) : s'.InRange c := by
  obtain ⟨index, task, rfl, rfl⟩ := step_eq_some h
  have hprogress := progress_next (c.advances index).token task
  cases hmove : task.next (c.advances index).token with
  | stay task' => exact hs
  | take task' =>
    rw [hmove] at hprogress
    exact index_lt_of_text_ne hmark hprogress
  | fail e => exact Nat.le_succ_of_le hs
  | accept source => exact Nat.succ_le_succ hs

/-! ## Every run has an end -/

/-- Bounds the number of decisions still to come. -/
def State.potential (c : Cursor) : State → Nat
  | .busy index task => 6 * (c.ahead.length - index) + task.rank + 1
  | .done _ _ => 0

theorem potential_step (hmark : Token.Marked (c.token :: c.ahead)) (h : s.step c = some s') :
    s'.potential c < s.potential c := by
  obtain ⟨index, task, rfl, rfl⟩ := step_eq_some h
  have hprogress := progress_next (c.advances index).token task
  cases hmove : task.next (c.advances index).token with
  | stay task' =>
    rw [hmove] at hprogress
    exact Nat.succ_lt_succ (Nat.add_lt_add_left hprogress _)
  | take task' =>
    rw [hmove] at hprogress
    -- the token that was taken pays for all the decisions up to the next one
    have hlt := index_lt_of_text_ne hmark hprogress
    have hrank := task'.rank_le
    simp only [Move.state, State.potential]
    omega
  | fail e => exact Nat.succ_pos _
  | accept source => exact Nat.succ_pos _

theorem exists_done (hmark : Token.Marked (c.token :: c.ahead)) (s : State) :
    ∃ n ≤ s.potential c, ∃ index result, Runs c n s (.done index result) := by
  induction hp : s.potential c using Nat.strongRecOn generalizing s with
  | ind p ih =>
    cases hstep : s.step c with
    | none =>
      cases s with
      | busy index task => exact nomatch hstep
      | done index result => exact ⟨0, Nat.zero_le _, index, result, .refl _⟩
    | some s' =>
      have hlt := potential_step hmark hstep
      obtain ⟨n, hn, index, result, hrun⟩ := ih _ (hp ▸ hlt) s' rfl
      exact ⟨n + 1, by omega, index, result, .step hstep hrun⟩

/-! ## Results and positions -/

theorem result_step (hmark : Token.Marked (c.token :: c.ahead)) (h : s.step c = some s') :
    s'.result c = s.result c := by
  obtain ⟨index, task, rfl, rfl⟩ := step_eq_some h
  have hresult := result_next (text_of_ahead_eq_nil hmark (n := index)) task
  refine Eq.trans ?_ hresult
  cases task.next (c.advances index).token with
  | stay task' => rfl
  | take task' =>
    show task'.result (c.advances (index + 1)) = task'.result (c.advances index).advance
    rw [advances_succ]
  | fail e => rfl
  | accept source => rfl

theorem result_start (c : Cursor) : State.start.result c = Source.ofTokens (c.token :: c.ahead) := by
  show Gap.result (Grammar.skipSeparators c) .opening = _
  rw [Gap.result, Source.ofTokens]
  refine congrArg _ (funext fun (package, c) => ?_)
  cases h : Grammar.declarations c [] <;> simp only [Draft.finish, h] <;> rfl

/-- At every moment the grammar makes of the rest what it makes of the whole. -/
theorem Runs.result_eq (hmark : Token.Marked (c.token :: c.ahead)) {n : Nat}
    (h : Runs c n .start s) : s.result c = Source.ofTokens (c.token :: c.ahead) := by
  have hkeep := h.preserves (P := fun s => s.result c = State.start.result c)
    (fun _ _ hstep hs => (result_step hmark hstep).trans hs) rfl
  exact hkeep.trans (result_start c)

theorem positions_step (h : s.step c = some s')
    (hs : s.positions ⊆ (c.token :: c.ahead).map Token.pos) :
    s'.positions ⊆ (c.token :: c.ahead).map Token.pos := by
  obtain ⟨index, task, rfl, rfl⟩ := step_eq_some h
  have hnext := List.Subset.trans (positions_next (c.advances index).token task)
    (List.cons_subset.mpr ⟨pos_mem_tokens c index, hs⟩)
  cases hmove : task.next (c.advances index).token <;>
  · rw [hmove] at hnext
    exact hnext

/-- The errors of a parser are where tokens are. -/
theorem exists_token_of_error {e : Error} {pos : Position}
    (hmark : Token.Marked (c.token :: c.ahead))
    (h : Schema.ofTokens (c.token :: c.ahead) = .error e) (hpos : e.pos? = some pos) :
    ∃ t ∈ c.token :: c.ahead, t.pos = pos := by
  obtain ⟨n, _, index, result, hrun⟩ := exists_done hmark State.start
  have hsubset := hrun.preserves (fun _ _ hstep => positions_step hstep) (List.nil_subset _)
  rw [Schema.ofTokens, ← hrun.result_eq hmark] at h
  refine List.mem_map.mp (hsubset ?_)
  cases result with
  | error e' =>
    obtain rfl : e' = e := Except.error.inj h
    exact Option.mem_toList.mpr hpos
  | ok source => exact Source.pos_of_resolve h hpos

end Parser

/-- Scanning marks the end of the text. -/
theorem Token.marked_of_scanFrom {pos : Position} {done tokens : List Token} {cs : List Char}
    (h : scanFrom pos done cs = .ok tokens) : Marked tokens := by
  fun_induction scanFrom pos done cs with
  | case1 pos done =>
    obtain rfl := Except.ok.inj h
    exact ⟨done.reverse, pos, List.reverse_cons⟩
  | case2 => cases h
  | case3 =>
    rename_i ih
    exact ih h
  | case4 =>
    rename_i ih
    exact ih h

namespace Parser

/-- Without the mark a parser may go on forever: a separator at the end is skipped again and again. -/
theorem runs_on_without_mark (pos : Position) (n : Nat) :
    Runs ⟨⟨";", pos⟩, []⟩ n .start (.busy n (.separators .opening)) := by
  have hstep : ∀ m, (State.busy m (.separators .opening)).step ⟨⟨";", pos⟩, []⟩
      = some (.busy (m + 1) (.separators .opening)) := by
    intro m
    rw [State.step, Cursor.advances_of_ahead_eq_nil rfl]
    rfl
  have hrun : ∀ m, Runs ⟨⟨";", pos⟩, []⟩ n (.busy m (.separators .opening))
      (.busy (m + n) (.separators .opening)) := by
    induction n with
    | zero => exact fun m => .refl _
    | succ n ih =>
      intro m
      have hnext := ih (m + 1)
      rw [Nat.add_right_comm, Nat.add_assoc] at hnext
      exact .step (hstep m) hnext
  have h := hrun 0
  rwa [Nat.zero_add] at h

/--
**The parser always makes progress.** Scanning a text gives tokens with the empty one at their end. On
all such tokens the parser comes to an end after a number of decisions that is bounded by the number
of tokens, with the result of the grammar. On the way the count of taken tokens never exceeds the
number of tokens, and the rules of the grammar, applied where the cursor is, give that same result.
Whenever a loop begins a new turn, or a type is read that is a part of a type, the count is higher
than at the turn before. Errors about a place in the text, of the parser or of the names it has read,
are at one of the tokens.
-/
theorem parser_makes_progress :
    (∀ (text : String) (tokens : List Token), Token.scan text = .ok tokens → Token.Marked tokens)
      ∧ ∀ (first : Token) (rest : List Token), Token.Marked (first :: rest) →
        (∃ n ≤ 6 * (first :: rest).length, ∃ index,
            Runs ⟨first, rest⟩ n .start (.done index (Source.ofTokens (first :: rest))))
          ∧ (∀ n s, Runs ⟨first, rest⟩ n .start s → s.index ≤ (first :: rest).length
              ∧ s.result ⟨first, rest⟩ = Source.ofTokens (first :: rest))
          ∧ (∀ n s s' loop, Runs ⟨first, rest⟩ (n + 1) s s' →
              s.loop? = some loop → s'.loop? = some loop → s.index < s'.index)
          ∧ ∀ e pos, Schema.ofTokens (first :: rest) = .error e → e.pos? = some pos →
              ∃ t ∈ first :: rest, t.pos = pos := by
  refine ⟨fun text tokens h => Token.marked_of_scanFrom h, fun first rest hmark => ⟨?_, ?_, ?_, ?_⟩⟩
  · obtain ⟨n, hn, index, result, hrun⟩ := exists_done (c := ⟨first, rest⟩) hmark .start
    have hresult : result = Source.ofTokens (first :: rest) := hrun.result_eq hmark
    refine ⟨n, Nat.le_trans hn ?_, index, hresult ▸ hrun⟩
    simp only [State.start, State.potential, Task.rank, List.length_cons]
    omega
  · intro n s hrun
    have hrange := hrun.preserves (fun _ _ hstep => inRange_step hmark hstep) (Nat.zero_le _)
    exact ⟨hrange.index_le, hrun.result_eq hmark⟩
  · intro n s s' loop hrun hs hs'
    exact hrun.index_lt hs hs'
  · intro e pos h hpos
    exact exists_token_of_error (c := ⟨first, rest⟩) hmark h hpos

/-- The tokens behind the first one of a declaration that breaks off behind a star. -/
def brokenOff : List Token :=
  [⟨"T", ⟨1, 6⟩⟩, ⟨"*", ⟨1, 8⟩⟩, ⟨"", ⟨1, 9⟩⟩]

theorem runs_brokenOff : Runs ⟨⟨"type", ⟨1, 1⟩⟩, brokenOff⟩ 10 .start
    (.done 3 (.error (.parse (.expected .type "") ⟨1, 9⟩))) := by
  iterate 10 refine .step rfl ?_
  exact .refl _

theorem parser_makes_progress_broken_off :
    Token.Marked (⟨"type", ⟨1, 1⟩⟩ :: brokenOff)
      ∧ (∃ n ≤ 24, ∃ index, Runs ⟨⟨"type", ⟨1, 1⟩⟩, brokenOff⟩ n .start
          (.done index (.error (.parse (.expected .type "") ⟨1, 9⟩))))
      ∧ Schema.ofTokens (⟨"type", ⟨1, 1⟩⟩ :: brokenOff)
          = .error (.parse (.expected .type "") ⟨1, 9⟩)
      ∧ ∃ t ∈ ⟨"type", ⟨1, 1⟩⟩ :: brokenOff, t.pos = ⟨1, 9⟩ := by
  have hmark : Token.Marked (⟨"type", ⟨1, 1⟩⟩ :: brokenOff) :=
    ⟨[⟨"type", ⟨1, 1⟩⟩, ⟨"T", ⟨1, 6⟩⟩, ⟨"*", ⟨1, 8⟩⟩], ⟨1, 9⟩, rfl⟩
  have hsource : Except.error _ = Source.ofTokens _ := runs_brokenOff.result_eq hmark
  have hschema : Schema.ofTokens (⟨"type", ⟨1, 1⟩⟩ :: brokenOff)
      = .error (.parse (.expected .type "") ⟨1, 9⟩) := by
    rw [Schema.ofTokens, ← hsource]
    rfl
  obtain ⟨hruns, _, _, herrors⟩ := parser_makes_progress.2 _ _ hmark
  rw [← hsource] at hruns
  exact ⟨hmark, hruns, hschema, herrors _ _ hschema rfl⟩

end Parser

end WireSchema
