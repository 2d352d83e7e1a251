import WireSchema.Source.Resolve
import WireSchema.Proofs.ParserSteps

/-!
# Errors point at tokens

Positions enter a parser only with the tokens it looks at. A declaration keeps the positions of its
name, of its fields and of the names in its types, and an error has the position of one of these or
of the token in view. So `positions` lists all that a task holds, `positions_next` says that a
decision adds at most the position of the token in view, and `pos_of_resolve` that resolving names
adds none: **what fails, fails at something that was written**.
-/

namespace WireSchema

/-! ## Positions of what is written -/

/-- Where an error is, if it is about a place in a text. -/
def Error.pos? : Error → Option Position
  | .parse _ pos => some pos
  | .undefinedType _ pos => some pos
  | .unsupported _ pos => some pos
  | _ => none

def TypeExpr.pos : TypeExpr → Position
  | .named _ pos => pos
  | .optional e => e.pos
  | .array e => e.pos

def FieldExpr.positions (f : FieldExpr) : List Position :=
  [f.pos, f.type.pos]

def DeclBody.positions : DeclBody → List Position
  | .struct fields => fields.flatMap FieldExpr.positions
  | .alias e => [e.pos]

def DeclExpr.positions (decl : DeclExpr) : List Position :=
  decl.pos :: decl.body.positions

def Source.positions (s : Source) : List Position :=
  s.decls.flatMap DeclExpr.positions

namespace Parser

def Draft.positions (draft : Draft) : List Position :=
  draft.decls.flatMap DeclExpr.positions

def Site.positions (site : Site) : List Position :=
  (site.grouped.getD []).flatMap DeclExpr.positions ++ site.draft.positions

def Head.positions (head : Head) : List Position :=
  head.name.pos :: head.site.positions

def Row.positions (row : Row) : List Position :=
  row.names.map Token.pos ++ row.done.flatMap FieldExpr.positions ++ row.head.positions

def Use.positions : Use → List Position
  | .synonym head => head.positions
  | .row r => r.positions

def Gap.positions : Gap → List Position
  | .opening => []
  | .file draft => draft.positions
  | .group draft done => done.flatMap DeclExpr.positions ++ draft.positions
  | .body head done => done.flatMap FieldExpr.positions ++ head.positions

/-- The positions a parser holds. -/
def Task.positions : Task → List Position
  | .separators gap | .item gap => gap.positions
  | .packageName | .packageEnd _ => []
  | .specs draft | .statementEnd draft => draft.positions
  | .spec site => site.positions
  | .equals head | .declBody head | .openBrace head => head.positions
  | .first head done name => name.pos :: (done.flatMap FieldExpr.positions ++ head.positions)
  | .comma row | .nextName row => row.positions
  | .type use _ => use.positions
  | .bracket use _ opening => opening.pos :: use.positions
  | .dot use _ name => name.pos :: use.positions
  | .tag row e | .rowEnd row e _ => e.pos :: row.positions
  | .specEnd head body => body.positions ++ head.positions

def Move.positions : Move → List Position
  | .stay task | .take task => task.positions
  | .fail e => e.pos?.toList
  | .accept source => source.positions

variable {t : Token} {ps : List Position}

theorem pos_wrapAll (wrappers : List Wrapper) (e : TypeExpr) :
    (Wrapper.wrapAll wrappers e).pos = e.pos := by
  induction wrappers generalizing e with
  | nil => rfl
  | cons w wrappers ih =>
    have hw : (w.wrap e).pos = e.pos := by cases w <;> rfl
    exact (ih (w.wrap e)).trans hw

/-- The fields of a row have the positions of their names and of their common type. -/
theorem mem_positions_of_row {row : Row} {e : TypeExpr} {tag? : Option String} {pos : Position}
    (h : pos ∈ (row.fields e tag?).flatMap FieldExpr.positions) : pos ∈ e.pos :: row.positions := by
  obtain ⟨f, hf, hpos⟩ := List.mem_flatMap.mp h
  simp only [Row.positions, List.mem_cons, List.mem_append]
  rcases List.mem_append.mp hf with hf | hf
  · obtain ⟨name, hname, rfl⟩ := List.mem_map.mp hf
    rcases List.mem_cons.mp hpos with rfl | hpos
    · exact .inr (.inl (.inl (List.mem_map_of_mem hname)))
    · exact .inl (List.mem_singleton.mp hpos)
  · exact .inr (.inl (.inr (List.mem_flatMap.mpr ⟨f, hf, hpos⟩)))

theorem positions_expect {what : Expected} {test : String → Bool} {task : Task}
    (h : task.positions ⊆ t.pos :: ps) : (Move.expect what test t task).positions ⊆ t.pos :: ps := by
  unfold Move.expect
  split
  · exact h
  · exact List.cons_subset_cons _ (List.nil_subset _)

theorem positions_endStatement {task : Task} (h : task.positions ⊆ t.pos :: ps) :
    (Move.endStatement t task).positions ⊆ t.pos :: ps := by
  unfold Move.endStatement
  split
  · exact h
  · split
    · exact h
    · exact List.cons_subset_cons _ (List.nil_subset _)

/-- Behind a declaration its positions are kept with the ones of its site. -/
theorem positions_behind (t : Token) (decl : DeclExpr) (site : Site) :
    (site.behind t decl).positions ⊆ t.pos :: (decl.positions ++ site.positions) := by
  obtain ⟨draft, grouped⟩ := site
  cases grouped with
  | none =>
    show (decl :: draft.decls).flatMap DeclExpr.positions ⊆ _
    rw [List.flatMap_cons]
    exact List.subset_cons_self _ _
  | some done =>
    refine positions_endStatement ?_
    show (decl :: done).flatMap DeclExpr.positions ++ draft.positions ⊆ _
    rw [List.flatMap_cons, List.append_assoc]
    exact List.subset_cons_self _ _

theorem positions_next (t : Token) (task : Task) :
    (task.next t).positions ⊆ t.pos :: task.positions := by
  have hview : [t.pos] ⊆ t.pos :: task.positions := List.cons_subset_cons _ (List.nil_subset _)
  have hkeep : task.positions ⊆ t.pos :: task.positions := List.subset_cons_self _ _
  cases task with
  | separators gap =>
    rw [Task.next]
    split <;> exact hkeep
  | item gap =>
    cases gap with
    | opening =>
      rw [Task.next]
      split <;> exact List.nil_subset _
    | file draft =>
      rw [Task.next]
      split
      · intro pos hpos
        obtain ⟨decl, hdecl, hpos⟩ := List.mem_flatMap.mp hpos
        exact hkeep (List.mem_flatMap.mpr ⟨decl, List.mem_reverse.mp hdecl, hpos⟩)
      · exact positions_expect hkeep
    | group draft done =>
      rw [Task.next]
      split
      · show ((done ++ draft.decls).flatMap DeclExpr.positions) ⊆ _
        rw [List.flatMap_append]
        exact hkeep
      · exact hkeep
    | body head done =>
      rw [Task.next]
      split
      · intro pos hpos
        rcases List.mem_append.mp hpos with hpos | hpos
        · obtain ⟨f, hf, hpos⟩ := List.mem_flatMap.mp hpos
          refine hkeep (List.mem_append_left _ ?_)
          exact List.mem_flatMap.mpr ⟨f, List.mem_reverse.mp hf, hpos⟩
        · exact hkeep (List.mem_append_right _ hpos)
      · split
        · exact hview
        · exact positions_expect (List.Subset.refl _)
  | packageName => exact positions_expect (List.nil_subset _)
  | spec site => exact positions_expect (List.Subset.refl _)
  | openBrace head =>
    rw [Task.next]
    exact positions_expect (show head.positions ⊆ _ from hkeep)
  | packageEnd | statementEnd => exact positions_endStatement hkeep
  | specs draft =>
    rw [Task.next]
    split <;> exact hkeep
  | equals head =>
    rw [Task.next]
    split <;> exact hkeep
  | declBody head =>
    rw [Task.next]
    split <;> exact hkeep
  | first head done name =>
    rw [Task.next]
    split
    · exact List.cons_subset.mpr ⟨hkeep List.mem_cons_self, List.nil_subset _⟩
    · exact hkeep
  | comma row =>
    rw [Task.next]
    split <;> exact hkeep
  | nextName row => exact positions_expect (List.Subset.refl _)
  | type use wrappers =>
    rw [Task.next]
    split
    · exact hkeep
    · split
      · exact List.Subset.refl _
      · split
        · exact hview
        · split
          · exact hview
          · exact positions_expect (List.Subset.refl _)
  | bracket use wrappers opening =>
    rw [Task.next]
    split
    · exact fun pos hpos => hkeep (List.mem_cons_of_mem _ hpos)
    · split
      · exact List.cons_subset.mpr ⟨hkeep List.mem_cons_self, List.nil_subset _⟩
      · exact hview
  | dot use wrappers name =>
    rw [Task.next]
    split
    · exact List.cons_subset.mpr ⟨hkeep List.mem_cons_self, List.nil_subset _⟩
    · have hpos := pos_wrapAll wrappers (.named name.text name.pos)
      cases use with
      | synonym head =>
        show (Wrapper.wrapAll wrappers _).pos :: head.positions ⊆ _
        rw [hpos]
        exact hkeep
      | row r =>
        show (Wrapper.wrapAll wrappers _).pos :: r.positions ⊆ _
        rw [hpos]
        exact hkeep
  | tag row e =>
    rw [Task.next]
    split <;> exact hkeep
  | rowEnd row e tag? =>
    refine positions_endStatement fun pos hpos => ?_
    rcases List.mem_append.mp hpos with hpos | hpos
    · exact hkeep (mem_positions_of_row hpos)
    · exact hkeep (List.mem_cons_of_mem _ (List.mem_append_right _ hpos))
  | specEnd head body =>
    have hdecl : (head.decl body).positions ⊆ body.positions ++ head.positions := by
      refine List.cons_subset.mpr ⟨?_, List.subset_append_left _ _⟩
      exact List.mem_append_right _ List.mem_cons_self
    have hsite : head.site.positions ⊆ body.positions ++ head.positions := fun pos hpos =>
      List.mem_append_right _ (List.mem_cons_of_mem _ hpos)
    refine List.Subset.trans (positions_behind t _ _) (List.cons_subset_cons _ ?_)
    exact List.append_subset.mpr ⟨hdecl, hsite⟩

end Parser

/-! ## Resolving names -/

theorem Result.bind_eq_error {ε α β : Type} {f : α → Except ε β} {x : Except ε α} {e : ε} :
    x >>= f = .error e ↔ x = .error e ∨ ∃ a, x = .ok a ∧ f a = .error e := by
  cases x <;> simp [bind, Except.bind]

namespace Resolving

variable {α β : Type} {ps : List Position}

/-- Where the computation fails at a place in a text, it is one of `ps`. -/
def FailsAt (ps : List Position) (m : Resolving α) : Prop :=
  ∀ known e pos, m known = .error e → e.pos? = some pos → pos ∈ ps

theorem failsAt_pure {a : α} : FailsAt ps (pure a) :=
  fun _ _ _ h => nomatch h

theorem failsAt_throw {e : Error} (h : ∀ pos, e.pos? = some pos → pos ∈ ps) :
    FailsAt ps (throw e : Resolving α) := by
  intro known e' pos he hpos
  obtain rfl := Except.error.inj he
  exact h pos hpos

theorem failsAt_bind {m : Resolving α} {f : α → Resolving β} (hm : FailsAt ps m)
    (hf : ∀ a, FailsAt ps (f a)) : FailsAt ps (m >>= f) := by
  intro known e pos h hpos
  rcases Result.bind_eq_error.mp h with h | ⟨⟨a, known'⟩, _, h⟩
  · exact hm known e pos h hpos
  · exact hf a known' e pos h hpos

theorem failsAt_get : FailsAt ps (get : Resolving Known) :=
  fun _ _ _ h => nomatch h

theorem failsAt_modify {f : Known → Known} : FailsAt ps (modify f : Resolving Unit) :=
  fun _ _ _ h => nomatch h

theorem failsAt_mapM {f : α → Resolving β} {xs : List α} (h : ∀ x ∈ xs, FailsAt ps (f x)) :
    FailsAt ps (xs.mapM f) := by
  induction xs with
  | nil => exact failsAt_pure
  | cons x xs ih =>
    rw [List.mapM_cons]
    refine failsAt_bind (h x List.mem_cons_self) fun y => ?_
    refine failsAt_bind (ih fun z hz => h z (List.mem_cons_of_mem x hz)) fun ys => ?_
    exact failsAt_pure

/-- In a type expression only its name can fail. -/
theorem failsAt_resolveWith {onName : String → Position → Resolving Ty} {e : TypeExpr}
    (h : ∀ name, FailsAt ps (onName name e.pos)) : FailsAt ps (e.resolveWith onName) := by
  induction e with
  | named name pos => exact h name
  | optional e ih => exact failsAt_bind (ih h) fun ty => failsAt_pure
  | array e ih => exact failsAt_bind (ih h) fun ty => failsAt_pure

end Resolving

namespace Source

open Resolving

variable {s : Source}

theorem mem_positions {decl : DeclExpr} (h : decl ∈ s.decls) {pos : Position}
    (hpos : pos ∈ decl.positions) : pos ∈ s.positions :=
  List.mem_flatMap.mpr ⟨decl, h, hpos⟩

theorem mem_positions_of_synonym? {name : String} {e : TypeExpr} (h : s.synonym? name = some e) :
    e.pos ∈ s.positions := by
  obtain ⟨decl, hdecl, h⟩ := List.exists_of_findSome?_eq_some h
  refine mem_positions hdecl (List.mem_cons_of_mem _ ?_)
  split at h
  · unfold DeclBody.synonym? at h
    split at h
    · exact nomatch h
    · rename_i e' hbody
      obtain rfl := Option.some.inj h
      rw [hbody]
      exact List.mem_singleton_self _
  · exact nomatch h

/-- A name that stands for nothing is reported where it was met, and the names met behind aliases
stand in their bodies. -/
theorem failsAt_resolveName (hops : Nat) (path : List String) (name : String) {pos : Position}
    (hpos : pos ∈ s.positions) : FailsAt s.positions (s.resolveName hops path name pos) := by
  induction hops using Nat.strongRecOn generalizing path name pos with
  | ind hops ih =>
    unfold resolveName
    split
    · exact failsAt_pure
    · refine failsAt_bind failsAt_get fun known => ?_
      split
      · exact failsAt_pure
      · split
        · refine failsAt_throw fun pos' h => ?_
          obtain rfl := Option.some.inj h
          exact hpos
        · rename_i e he
          have hcircular : ∀ names : List String,
              FailsAt s.positions (throw (.circularType names) : Resolving Ty) :=
            fun _ => failsAt_throw fun _ h => nomatch h
          split
          · exact hcircular _
          · split
            · exact hcircular _
            · rename_i hops
              refine failsAt_bind (failsAt_resolveWith fun name =>
                ih hops (Nat.lt_succ_self _) _ name (mem_positions_of_synonym? he)) fun ty => ?_
              exact failsAt_bind failsAt_modify fun _ => failsAt_pure

theorem failsAt_resolveDecl {decl : DeclExpr} (h : decl ∈ s.decls) :
    FailsAt s.positions (s.resolveDecl decl) := by
  unfold resolveDecl
  refine failsAt_bind (failsAt_resolveName _ _ _ (mem_positions h List.mem_cons_self)) fun ty => ?_
  dsimp only
  split
  · rename_i fields hbody
    refine failsAt_bind (failsAt_mapM fun f hf => ?_) fun gs => failsAt_pure
    refine failsAt_bind (failsAt_resolveWith fun name => failsAt_resolveName _ _ name ?_)
      fun ty => failsAt_pure
    refine mem_positions h (List.mem_cons_of_mem _ ?_)
    rw [hbody]
    exact List.mem_flatMap.mpr ⟨f, hf, List.mem_cons_of_mem _ (List.mem_singleton_self _)⟩
  · exact failsAt_pure

/-- A declared name that is taken is reported where it is declared. -/
theorem exists_of_checkNames {seen : List String} {decls : List DeclExpr} {e : Error}
    (h : checkNames seen decls = .error e) : ∃ decl ∈ decls, e.pos? = some decl.pos := by
  induction decls generalizing seen with
  | nil => exact nomatch h
  | cons decl rest ih =>
    unfold checkNames at h
    split at h
    · obtain rfl := Except.error.inj h
      exact ⟨decl, List.mem_cons_self, rfl⟩
    · split at h
      · obtain rfl := Except.error.inj h
        exact ⟨decl, List.mem_cons_self, rfl⟩
      · obtain ⟨decl', hmem, hpos⟩ := ih h
        exact ⟨decl', List.mem_cons_of_mem _ hmem, hpos⟩

/-- What fails while names are resolved, fails at something that was written. -/
theorem pos_of_resolve {e : Error} {pos : Position} (h : s.resolve = .error e)
    (hpos : e.pos? = some pos) : pos ∈ s.positions := by
  rcases Result.bind_eq_error.mp h with h | ⟨_, _, h⟩
  · obtain ⟨decl, hmem, hdecl⟩ := exists_of_checkNames h
    obtain rfl := Option.some.inj (hdecl.symm.trans hpos)
    exact mem_positions hmem List.mem_cons_self
  · rcases Result.bind_eq_error.mp h with h | ⟨resolved, _, h⟩
    · refine failsAt_mapM (fun decl => failsAt_resolveDecl) (structTypes 0 s.decls) e pos ?_ hpos
      cases hrun : s.decls.mapM s.resolveDecl (structTypes 0 s.decls) with
      | error e' =>
        rw [StateT.run', hrun] at h
        obtain rfl : e' = e := Except.error.inj h
        rfl
      | ok result =>
        rw [StateT.run', hrun] at h
        exact nomatch h
    · dsimp only at h
      split at h
      · obtain rfl := Except.error.inj h
        exact nomatch hpos
      · exact nomatch h

end Source

end WireSchema
