import WireSchema.Proofs.Resolved
import Mathlib.Data.Finset.Card
import Mathlib.Logic.Relation

/-!
# What names stand for

`Denotes` says which type an expression stands for, by replacing names and by nothing else: no order
in which declarations are looked at, no list of names that are known already, no path of names that
are being replaced. Resolving a source gives these types, and it fails only if some expression has
none. The two things that can go wrong with a single expression are a name that nobody declares and
an alias that leads back to itself:

* an expression whose name leads into a **circle** stands for nothing, since replacing it never ends;
* **without circles** every declared name stands for a type, because aliases have a rank that goes
  down from an alias to the one in its body.

That the walk stops at the right moment is the invariant of `decides_resolveName`: the names on the
path of the walk lead to the name it is at, so a name that is met again lies on a circle, and a path
without repetition is never longer than the list of declarations.
-/

namespace WireSchema

/-- Where no path leads back to its start, nodes have ranks that go down along edges. A rank is the
number of nodes that can be reached. -/
theorem exists_rank_of_acyclic {α : Type} [DecidableEq α] {edge : α → α → Prop} {nodes : Finset α}
    (hnodes : ∀ a b, edge a b → b ∈ nodes) (hacyclic : ∀ a, ¬ Relation.TransGen edge a a) :
    ∃ rank : α → Nat, (∀ a b, edge a b → rank b < rank a) ∧ ∀ a ∈ nodes, rank a < nodes.card := by
  classical
  have hmem : ∀ a b, Relation.TransGen edge a b → b ∈ nodes := by
    intro a b h
    cases h with
    | single h => exact hnodes _ _ h
    | tail _ h => exact hnodes _ _ h
  refine ⟨fun a => (nodes.filter (Relation.TransGen edge a)).card, ?_, ?_⟩
  · intro a b hab
    refine Finset.card_lt_card (Finset.ssubset_iff_of_subset ?_ |>.mpr ⟨b, ?_, ?_⟩)
    · intro c hc
      have hc' := Finset.mem_filter.mp hc
      exact Finset.mem_filter.mpr ⟨hc'.1, .head hab hc'.2⟩
    · exact Finset.mem_filter.mpr ⟨hnodes a b hab, .single hab⟩
    · exact fun hb => hacyclic b (Finset.mem_filter.mp hb).2
  · intro a ha
    refine Finset.card_lt_card (Finset.ssubset_iff_of_subset (Finset.filter_subset _ _) |>.mpr ?_)
    exact ⟨a, ha, fun h => hacyclic a (Finset.mem_filter.mp h).2⟩

theorem Primitive.ofName?_eq_some {name : String} {p : Primitive} :
    ofName? name = some p ↔ name = p.name := by
  constructor
  · intro h
    have hname := List.find?_some h
    exact (eq_of_beq hname).symm
  · rintro rfl
    exact ofName?_name p

theorem Primitive.ofName?_eq_none {name : String} :
    ofName? name = none ↔ ∀ p : Primitive, name ≠ p.name := by
  constructor
  · intro h p hp
    rw [hp, ofName?_name] at h
    exact absurd h (by simp)
  · intro h
    cases hp : ofName? name with
    | none => rfl
    | some p => exact absurd (ofName?_eq_some.mp hp) (h p)

namespace Source

variable (src : Source)

/-! ## Types of expressions -/

/-- The declarations of structs, in order. The place of one here is the number of its struct. -/
def structDecls : List DeclExpr :=
  src.decls.filter (·.body.isStruct)

/-- `Denotes e ty`: replacing names in `e` until none is left gives `ty`. -/
inductive Denotes : TypeExpr → Ty → Prop where
  | primitive (p : Primitive) (pos : Position) :
      Denotes (.named p.name pos) (.primitive p false)
  | struct {decl : DeclExpr} {id : Nat} (pos : Position) :
      src.structDecls[id]? = some decl → Denotes (.named decl.name pos) (.struct id false)
  | synonym {decl : DeclExpr} {e : TypeExpr} {ty : Ty} (pos : Position) :
      decl ∈ src.decls → decl.body = .alias e → Denotes e ty → Denotes (.named decl.name pos) ty
  /-- A second star changes nothing. -/
  | optional {e : TypeExpr} {ty : Ty} : Denotes e ty → Denotes (.optional e) ty.asOptional
  | array {e : TypeExpr} {ty : Ty} : Denotes e ty → Denotes (.array e) (.array ty false)

/-- A name that is declared with another type expression. -/
def IsAlias (name : String) : Prop :=
  ∃ decl ∈ src.decls, decl.name = name ∧ ∃ e, decl.body = .alias e

/-- The body of the alias `a` is made of the alias `b`. -/
def AliasOf (a b : String) : Prop :=
  (∃ decl ∈ src.decls, decl.name = a ∧ ∃ e, decl.body = .alias e ∧ e.name = b) ∧ src.IsAlias b

/-- A name that is a primitive's or declared. -/
def Defines (name : String) : Prop :=
  (∃ p : Primitive, name = p.name) ∨ name ∈ src.decls.map (·.name)

/-- A declared name is not a primitive's and is declared once. -/
structure WellNamed : Prop where
  reserved : ∀ decl ∈ src.decls, ∀ p : Primitive, decl.name ≠ p.name
  distinct : (src.decls.map (·.name)).Nodup

variable {src}

theorem mem_structDecls {decl : DeclExpr} :
    decl ∈ src.structDecls ↔ decl ∈ src.decls ∧ ∃ fields, decl.body = .struct fields := by
  unfold structDecls
  rw [List.mem_filter]
  refine and_congr_right fun _ => ?_
  rcases decl.body with fields | e
  · exact ⟨fun _ => ⟨fields, rfl⟩, fun _ => rfl⟩
  · exact ⟨fun h => absurd h (by simp [DeclBody.isStruct]), fun ⟨_, h⟩ => nomatch h⟩

namespace WellNamed

variable (hn : src.WellNamed)
include hn

theorem eq_of_name {decl decl' : DeclExpr} (h : decl ∈ src.decls) (h' : decl' ∈ src.decls)
    (hname : decl.name = decl'.name) : decl = decl' :=
  List.inj_on_of_nodup_map hn.distinct h h' hname

/-- A struct is not an alias. -/
theorem not_struct {decl decl' : DeclExpr} {e : TypeExpr} (h : decl ∈ src.decls)
    (hbody : decl.body = .alias e) (h' : decl' ∈ src.structDecls) : decl.name ≠ decl'.name := by
  intro hname
  obtain ⟨hmem, fields, hfields⟩ := mem_structDecls.mp h'
  rw [hn.eq_of_name h hmem hname, hfields] at hbody
  exact nomatch hbody

theorem nodup_structDecls : (src.structDecls.map (·.name)).Nodup :=
  (List.filter_sublist.map _).nodup hn.distinct

/-- The body of an alias denotes what the alias does. -/
theorem denotes_body {decl : DeclExpr} {e : TypeExpr} {ty : Ty} {pos : Position}
    (h : decl ∈ src.decls) (hbody : decl.body = .alias e)
    (hd : src.Denotes (.named decl.name pos) ty) : src.Denotes e ty := by
  generalize hname : decl.name = name at hd
  cases hd with
  | primitive p => exact absurd hname (hn.reserved decl h p)
  | struct _ hid => exact absurd hname (hn.not_struct h hbody (List.mem_of_getElem? hid))
  | synonym _ hmem hbody' hd =>
    rw [← hn.eq_of_name h hmem hname, hbody] at hbody'
    injection hbody' with he
    exact he ▸ hd

/-- **An expression stands for at most one type.** -/
theorem denotes_unique {e : TypeExpr} {ty ty' : Ty} (h : src.Denotes e ty)
    (h' : src.Denotes e ty') : ty = ty' := by
  induction h generalizing ty' with
  | primitive p pos =>
    generalize hname : p.name = name at h'
    cases h' with
    | primitive p' =>
      have hp : some p = some p' := by
        rw [← Primitive.ofName?_name p, ← Primitive.ofName?_name p', hname]
      exact congrArg (Ty.primitive · false) (Option.some.inj hp)
    | struct _ hid =>
      exact absurd hname.symm (hn.reserved _ (mem_structDecls.mp (List.mem_of_getElem? hid)).1 p)
    | synonym _ hmem => exact absurd hname.symm (hn.reserved _ hmem p)
  | @struct decl id pos hid =>
    generalize hname : decl.name = name at h'
    have hdecl := List.mem_of_getElem? hid
    cases h' with
    | primitive p => exact absurd hname (hn.reserved decl (mem_structDecls.mp hdecl).1 p)
    | @struct decl' id' _ hid' =>
      -- struct declarations have different names, so a name has one number
      have hname' : (src.structDecls.map (·.name))[id]? = (src.structDecls.map (·.name))[id']? := by
        rw [List.getElem?_map, List.getElem?_map, hid, hid']
        exact congrArg some hname
      obtain ⟨hlt, _⟩ := List.getElem?_eq_some_iff.mp hid
      have hlt' : id < (src.structDecls.map (·.name)).length := by rwa [List.length_map]
      rw [(List.getElem?_inj hlt' hn.nodup_structDecls).mp hname']
    | synonym _ hmem hbody => exact absurd hname.symm (hn.not_struct hmem hbody hdecl)
  | synonym pos hmem hbody _ ih => exact ih (hn.denotes_body hmem hbody h')
  | optional _ ih =>
    cases h' with
    | optional h' => rw [ih h']
  | array _ ih =>
    cases h' with
    | array h' => rw [ih h']

/-- **An expression that stands for a type does not lead into a circle.** -/
theorem not_circle {e : TypeExpr} {ty : Ty} (h : src.Denotes e ty) :
    ¬ Relation.TransGen src.AliasOf e.name e.name := by
  -- a circle has a first edge, and its start is an alias
  have hfirst : ∀ {a b}, Relation.TransGen src.AliasOf a b → ∃ c, src.AliasOf a c ∧
      Relation.ReflTransGen src.AliasOf c b :=
    fun h => Relation.TransGen.head'_iff.mp h
  induction h with
  | primitive p pos =>
    intro hcircle
    obtain ⟨_, ⟨⟨decl, hmem, hname, _⟩, _⟩, _⟩ := hfirst hcircle
    exact hn.reserved decl hmem p hname
  | struct pos hid =>
    intro hcircle
    obtain ⟨_, ⟨⟨decl, hmem, hname, e, hbody, _⟩, _⟩, _⟩ := hfirst hcircle
    exact hn.not_struct hmem hbody (List.mem_of_getElem? hid) hname
  | synonym pos hmem hbody _ ih =>
    intro hcircle
    obtain ⟨c, hedge, hrest⟩ := hfirst hcircle
    obtain ⟨⟨decl, hmem', hname, e', hbody', hc⟩, _⟩ := id hedge
    rw [hn.eq_of_name hmem' hmem hname, hbody] at hbody'
    injection hbody' with he
    -- the circle can be entered one step later, at the name in the body
    subst he hc
    exact ih (Relation.TransGen.tail' hrest hedge)
  | optional _ ih => exact ih
  | array _ ih => exact ih

end WellNamed

/-- The name in an expression that stands for a type has a meaning of its own. -/
theorem Denotes.defines {e : TypeExpr} {ty : Ty} (h : src.Denotes e ty) : src.Defines e.name := by
  induction h with
  | primitive p pos => exact .inl ⟨p, rfl⟩
  | struct pos hid =>
    have hmem := (mem_structDecls.mp (List.mem_of_getElem? hid)).1
    exact .inr (List.mem_map.mpr ⟨_, hmem, rfl⟩)
  | synonym pos hmem => exact .inr (List.mem_map.mpr ⟨_, hmem, rfl⟩)
  | optional _ ih => exact ih
  | array _ ih => exact ih

/-- Stars and brackets can be put in front of a name that stands for a type. -/
theorem exists_denotes_of_name {e : TypeExpr}
    (h : ∀ pos, ∃ ty, src.Denotes (.named e.name pos) ty) : ∃ ty, src.Denotes e ty := by
  induction e with
  | named name pos => exact h pos
  | optional e ih =>
    obtain ⟨ty, hty⟩ := ih h
    exact ⟨_, .optional hty⟩
  | array e ih =>
    obtain ⟨ty, hty⟩ := ih h
    exact ⟨_, .array hty⟩

/-- A name that is not an alias stands for a primitive or a struct. -/
theorem exists_denotes_of_not_alias {name : String} (h : src.Defines name)
    (halias : ¬ src.IsAlias name) (pos : Position) : ∃ ty, src.Denotes (.named name pos) ty := by
  rcases h with ⟨p, rfl⟩ | h
  · exact ⟨_, .primitive p pos⟩
  · obtain ⟨decl, hmem, rfl⟩ := List.mem_map.mp h
    rcases hbody : decl.body with fields | e
    · obtain ⟨id, hid⟩ := List.mem_iff_getElem?.mp (mem_structDecls.mpr ⟨hmem, fields, hbody⟩)
      exact ⟨_, .struct pos hid⟩
    · exact absurd ⟨decl, hmem, rfl, e, hbody⟩ halias

/-- **Without circles, every expression made of declared names stands for a type.** -/
theorem exists_denotes (hdefined : ∀ decl ∈ src.decls, ∀ name ∈ decl.body.names, src.Defines name)
    (hacyclic : ∀ name, ¬ Relation.TransGen src.AliasOf name name) {e : TypeExpr}
    (he : src.Defines e.name) : ∃ ty, src.Denotes e ty := by
  have hnodes : ∀ a b, src.AliasOf a b → b ∈ (src.decls.map (·.name)).toFinset := by
    intro a b h
    obtain ⟨_, decl, hmem, rfl, _⟩ := h
    exact List.mem_toFinset.mpr (List.mem_map.mpr ⟨decl, hmem, rfl⟩)
  obtain ⟨rank, hrank, _⟩ := exists_rank_of_acyclic hnodes hacyclic
  have hname : ∀ n name, (src.IsAlias name → rank name < n) → src.Defines name →
      ∀ pos, ∃ ty, src.Denotes (.named name pos) ty := by
    intro n
    induction n with
    | zero =>
      intro name hlt hdef
      exact exists_denotes_of_not_alias hdef fun h => Nat.not_lt_zero _ (hlt h)
    | succ n ih =>
      intro name hlt hdef pos
      by_cases halias : src.IsAlias name
      · have hbelow := hlt halias
        obtain ⟨decl, hmem, rfl, body, hbody⟩ := halias
        have hnames : body.name ∈ decl.body.names := by
          rw [hbody]
          exact List.mem_singleton_self _
        -- the rank only has to go down if the body is an alias again
        have hrest : src.IsAlias body.name → rank body.name < n := by
          intro h
          have := hrank _ _ ⟨⟨decl, hmem, rfl, body, hbody, rfl⟩, h⟩
          omega
        obtain ⟨ty, hty⟩ := exists_denotes_of_name (ih _ hrest (hdefined decl hmem _ hnames))
        exact ⟨ty, .synonym pos hmem hbody hty⟩
      · exact exists_denotes_of_not_alias hdef halias pos
  exact exists_denotes_of_name (hname _ e.name (fun _ => Nat.lt_succ_self _) he)

/-! ## Resolving finds the types -/

/-- What is known of names is true, and the structs are among them. -/
structure Faithful (src : Source) (known : Known) : Prop where
  denotes : ∀ entry ∈ known, ∀ pos, src.Denotes (.named entry.1 pos) entry.2
  structs : ∀ decl ∈ src.structDecls, (known.lookup decl.name).isSome

/-- The computation gives a result with a property, or it fails because there is none. -/
def Decides (src : Source) {α : Type} (R : α → Prop) (m : Resolving α) : Prop :=
  ∀ known, src.Faithful known →
    (∃ a known', m known = .ok (a, known') ∧ R a ∧ src.Faithful known') ∨
      ∃ err, m known = .error err ∧ ∀ a, ¬ R a

section Decides

variable {α β : Type} {R : α → Prop} {S : β → Prop}

theorem decides_pure {a : α} (h : R a) : src.Decides R (pure a) :=
  fun known hk => .inl ⟨a, known, rfl, h, hk⟩

theorem decides_throw {err : Error} (h : ∀ a, ¬ R a) : src.Decides R (throw err) :=
  fun _ _ => .inr ⟨err, rfl, h⟩

/-- Of two computations the second builds on what the first gave, and without that there is
nothing to build on. -/
theorem decides_bind {m : Resolving α} {f : α → Resolving β} (hm : src.Decides R m)
    (hf : ∀ a, R a → src.Decides S (f a)) (hS : ∀ b, S b → ∃ a, R a) :
    src.Decides S (m >>= f) := by
  intro known hk
  rcases hm known hk with ⟨a, known₁, hok, ha, hk₁⟩ | ⟨err, herr, hnone⟩
  · have hrun : (m >>= f) known = f a known₁ := by
      change (m known >>= fun p => f p.1 p.2) = _
      rw [hok]
      rfl
    rw [hrun]
    exact hf a ha known₁ hk₁
  · refine .inr ⟨err, ?_, fun b hb => ?_⟩
    · change (m known >>= fun p => f p.1 p.2) = _
      rw [herr]
      rfl
    · obtain ⟨a, ha⟩ := hS b hb
      exact hnone a ha

theorem decides_get {f : Known → Resolving α}
    (h : ∀ known, src.Faithful known → src.Decides R (f known)) : src.Decides R (get >>= f) :=
  fun known hk => h known hk known hk

/-- What an alias was found to stand for may be remembered. -/
theorem decides_learn {name : String} {ty : Ty} {m : Resolving α}
    (hty : ∀ pos, src.Denotes (.named name pos) ty) (h : src.Decides R m) :
    src.Decides R (modify ((name, ty) :: ·) >>= fun _ => m) := by
  intro known hk
  refine h ((name, ty) :: known) ⟨?_, ?_⟩
  · intro entry hentry pos
    rcases List.mem_cons.mp hentry with rfl | hentry
    · exact hty pos
    · exact hk.denotes entry hentry pos
  · intro decl hdecl
    rw [List.lookup_cons]
    split
    · rfl
    · exact hk.structs decl hdecl

theorem decides_mapM {R : α → β → Prop} {f : α → Resolving β} {xs : List α}
    (h : ∀ x ∈ xs, src.Decides (R x) (f x)) : src.Decides (List.Forall₂ R xs) (xs.mapM f) := by
  induction xs with
  | nil =>
    rw [List.mapM_nil]
    exact decides_pure .nil
  | cons x xs ih =>
    rw [List.mapM_cons]
    have hrest := ih fun y hy => h y (List.mem_cons_of_mem x hy)
    refine decides_bind (h x List.mem_cons_self) (fun y hy => ?_) ?_
    · refine decides_bind hrest (fun ys hys => decides_pure (.cons hy hys)) ?_
      rintro _ (_ | ⟨_, hys⟩)
      exact ⟨_, hys⟩
    · rintro _ (_ | ⟨hy, _⟩)
      exact ⟨_, hy⟩

end Decides

theorem decides_resolveWith {onName : String → Position → Resolving Ty} {e : TypeExpr}
    (h : ∀ pos, src.Decides (src.Denotes (.named e.name pos)) (onName e.name pos)) :
    src.Decides (src.Denotes e) (e.resolveWith onName) := by
  induction e with
  | named name pos => exact h pos
  | optional e ih =>
    refine decides_bind (ih h) (fun ty hty => decides_pure (.optional hty)) ?_
    rintro _ (_ | _ | _ | hty | _)
    exact ⟨_, hty⟩
  | array e ih =>
    refine decides_bind (ih h) (fun ty hty => decides_pure (.array hty)) ?_
    rintro _ (_ | _ | _ | _ | hty)
    exact ⟨_, hty⟩

/-- The body of an alias is found under its name. -/
theorem WellNamed.synonym?_eq_some (hn : src.WellNamed) {name : String} {e : TypeExpr} :
    src.synonym? name = some e ↔ ∃ decl ∈ src.decls, decl.name = name ∧ decl.body = .alias e := by
  unfold synonym?
  rw [List.findSome?_eq_some_iff]
  constructor
  · rintro ⟨l₁, decl, l₂, hsplit, hfound, _⟩
    split at hfound
    · rename_i hname
      refine ⟨decl, by rw [hsplit]; simp, eq_of_beq hname, ?_⟩
      unfold DeclBody.synonym? at hfound
      split at hfound
      · exact nomatch hfound
      · rename_i hbody
        rw [hbody, Option.some.inj hfound]
    · exact nomatch hfound
  · rintro ⟨decl, hmem, rfl, hbody⟩
    obtain ⟨l₁, l₂, hsplit⟩ := List.append_of_mem hmem
    refine ⟨l₁, decl, l₂, hsplit, by rw [if_pos (beq_self_eq_true _), hbody]; rfl, ?_⟩
    -- no declaration in front has the name
    intro other hother
    have hdistinct := hn.distinct
    rw [hsplit, List.map_append, List.map_cons] at hdistinct
    have hne : other.name ≠ decl.name := by
      intro hname
      have hmem : decl.name ∈ l₁.map (·.name) := List.mem_map.mpr ⟨other, hother, hname⟩
      exact (List.nodup_append.mp hdistinct).2.2 _ hmem _ List.mem_cons_self rfl
    rw [if_neg (by simpa using hne)]

/-- **The step.** A walk along aliases decides what a name stands for. The names of `path` are
aliases that lead to `name`; none comes twice, so there are hops left whenever one is needed. -/
theorem WellNamed.decides_resolveName (hn : src.WellNamed) (hops : Nat) :
    ∀ {path : List String} {name : String} (pos : Position),
      path.Nodup → (∀ a ∈ path, src.IsAlias a) →
      (src.IsAlias name → ∀ a ∈ path, Relation.TransGen src.AliasOf a name) →
      src.decls.length ≤ hops + path.length →
      src.Decides (src.Denotes (.named name pos)) (src.resolveName hops path name pos) := by
  induction hops using Nat.strongRecOn with
  | ind hops ih =>
    intro path name pos hnodup haliases hleads hhops
    unfold resolveName
    split
    · rename_i p hp
      rw [Primitive.ofName?_eq_some.mp hp]
      exact decides_pure (.primitive p pos)
    rename_i hprimitive
    refine decides_get fun known hk => ?_
    split
    · rename_i ty hty
      obtain ⟨l₁, l₂, hsplit, _⟩ := List.lookup_eq_some_iff.mp hty
      exact decides_pure (hk.denotes (name, ty) (by rw [hsplit]; simp) pos)
    rename_i hunknown
    split
    · -- neither a primitive nor a struct nor an alias
      rename_i hsynonym
      refine decides_throw fun ty hty => ?_
      cases hty with
      | primitive p => exact Primitive.ofName?_eq_none.mp hprimitive p rfl
      | struct _ hid =>
        have hsome := hk.structs _ (List.mem_of_getElem? hid)
        rw [hunknown] at hsome
        exact absurd hsome (by simp)
      | synonym _ hmem hbody =>
        have hsome := hn.synonym?_eq_some.mpr ⟨_, hmem, rfl, hbody⟩
        rw [hsynonym] at hsome
        exact absurd hsome (by simp)
    · rename_i e hsynonym
      obtain ⟨decl, hmem, rfl, hbody⟩ := hn.synonym?_eq_some.mp hsynonym
      have halias : src.IsAlias decl.name := ⟨decl, hmem, rfl, e, hbody⟩
      split
      · rename_i hcontains
        have hcircle := hleads halias _ (List.contains_iff_mem.mp hcontains)
        exact decides_throw fun ty hty => hn.not_circle hty hcircle
      rename_i hcontains
      have hnew : decl.name ∉ path := fun h => hcontains (List.contains_iff_mem.mpr h)
      split
      · -- all names are on the path already, and this is one more
        exfalso
        have hsub : decl.name :: path ⊆ src.decls.map (·.name) := by
          intro a ha
          rcases List.mem_cons.mp ha with rfl | ha
          · exact List.mem_map.mpr ⟨decl, hmem, rfl⟩
          · obtain ⟨other, hother, hname, _⟩ := haliases a ha
            exact List.mem_map.mpr ⟨other, hother, hname⟩
        have hle := (List.subperm_of_subset (List.nodup_cons.mpr ⟨hnew, hnodup⟩) hsub).length_le
        rw [List.length_cons, List.length_map] at hle
        omega
      · rename_i hops
        have hnodup' : (path ++ [decl.name]).Nodup := by
          rw [List.nodup_append]
          refine ⟨hnodup, List.nodup_singleton _, fun a ha b hb => ?_⟩
          rintro rfl
          exact hnew (List.mem_singleton.mp hb ▸ ha)
        have haliases' : ∀ a ∈ path ++ [decl.name], src.IsAlias a := by
          intro a ha
          rcases List.mem_append.mp ha with ha | ha
          · exact haliases a ha
          · exact List.mem_singleton.mp ha ▸ halias
        have hleads' : src.IsAlias e.name → ∀ a ∈ path ++ [decl.name],
            Relation.TransGen src.AliasOf a e.name := by
          intro he a ha
          have hedge : src.AliasOf decl.name e.name := ⟨⟨decl, hmem, rfl, e, hbody, rfl⟩, he⟩
          rcases List.mem_append.mp ha with ha | ha
          · exact (hleads halias a ha).tail hedge
          · exact List.mem_singleton.mp ha ▸ .single hedge
        have hhops' : src.decls.length ≤ hops + (path ++ [decl.name]).length := by
          rw [List.length_append, List.length_singleton]
          omega
        have hinner : src.Decides (src.Denotes e)
            (e.resolveWith (src.resolveName hops (path ++ [decl.name]))) :=
          decides_resolveWith fun pos =>
            ih hops (Nat.lt_succ_self _) pos hnodup' haliases' hleads' hhops'
        refine decides_bind hinner (fun ty hty => ?_) fun ty hty => ?_
        · have hname := fun pos => Denotes.synonym pos hmem hbody hty
          exact decides_learn hname (decides_pure (hname pos))
        · exact ⟨ty, hn.denotes_body hmem hbody hty⟩

theorem WellNamed.decides_resolveExpr (hn : src.WellNamed) (e : TypeExpr) :
    src.Decides (src.Denotes e) (src.resolveExpr e) :=
  decides_resolveWith fun pos => hn.decides_resolveName _ pos List.nodup_nil
    (fun _ h => absurd h (by simp)) (fun _ _ h => absurd h (by simp)) (Nat.le_refl _)

/-! ## The schema of a source -/

section Meaning

variable (src)

/-- A field as written and with its type found. -/
structure FieldDenotes (f : FieldExpr) (g : Field) : Prop where
  name : g.name = f.name
  pos : g.pos = f.pos
  tag : g.tag = f.tag
  ty : src.Denotes f.type g.ty

/-- A declaration as written and with its type found. -/
structure DeclDenotes (decl : DeclExpr) (d : Declaration) : Prop where
  name : d.name = decl.name
  pos : d.pos = decl.pos
  ty : src.Denotes (.named decl.name decl.pos) d.ty

/-- The declaration of a struct, and the struct with the types of its fields found. -/
structure StructDenotes (decl : DeclExpr) (d : StructDef) : Prop where
  name : d.name = decl.name
  pos : d.pos = decl.pos
  fields : ∃ fields, decl.body = .struct fields ∧ List.Forall₂ src.FieldDenotes fields d.fields

/-- The schema that a source declares. -/
structure ResolvesTo (s : Schema) : Prop where
  package : s.package = src.package
  declarations : List.Forall₂ src.DeclDenotes src.decls s.declarations
  /-- Structs stand in the order of their declarations. -/
  structs : List.Forall₂ src.StructDenotes src.structDecls s.structs
  messages : s.messages =
    (s.declarations.filter fun d =>
      isExported d.name ∧ ∀ decl ∈ src.decls, d.name ∉ decl.body.names).map
        fun d => { name := d.name, ty := d.ty }

/-- All that a source must fulfil to declare a schema. -/
structure Resolvable : Prop extends src.WellNamed where
  defined : ∀ decl ∈ src.decls, ∀ name ∈ decl.body.names, src.Defines name
  acyclic : ∀ name, ¬ Relation.TransGen src.AliasOf name name
  root : ∃ decl ∈ src.decls, isExported decl.name ∧
    ∀ other ∈ src.decls, decl.name ∉ other.body.names

end Meaning

/-- What a declaration becomes: itself with its type found, and its struct if it declares one. -/
structure EntryDenotes (src : Source) (decl : DeclExpr) (entry : Declaration × Option StructDef) :
    Prop where
  declaration : src.DeclDenotes decl entry.1
  isStruct : entry.2.isSome = decl.body.isStruct
  struct : ∀ d, entry.2 = some d → src.StructDenotes decl d

namespace WellNamed

variable (hn : src.WellNamed)
include hn

theorem decides_resolveField (f : FieldExpr) :
    src.Decides (src.FieldDenotes f) (src.resolveField f) :=
  decides_bind (hn.decides_resolveExpr f.type)
    (fun _ hty => decides_pure ⟨rfl, rfl, rfl, hty⟩) fun g hg => ⟨g.ty, hg.ty⟩

theorem decides_resolveDecl (decl : DeclExpr) :
    src.Decides (src.EntryDenotes decl) (src.resolveDecl decl) := by
  have hself : src.Decides (src.Denotes (.named decl.name decl.pos))
      (src.resolveName src.decls.length [] decl.name decl.pos) :=
    hn.decides_resolveExpr (.named decl.name decl.pos)
  unfold resolveDecl
  refine decides_bind hself (fun ty hty => ?_) fun entry h => ⟨_, h.declaration.ty⟩
  dsimp only
  split
  · rename_i fields hbody
    refine decides_bind (decides_mapM fun f _ => hn.decides_resolveField f) (fun gs hgs => ?_) ?_
    · refine decides_pure ⟨⟨rfl, rfl, hty⟩, by rw [hbody]; rfl, fun d hd => ?_⟩
      obtain rfl := Option.some.inj hd
      exact ⟨rfl, rfl, fields, hbody, hgs⟩
    · -- a struct without its fields is not what the declaration becomes
      intro entry h
      have hsome := h.isStruct
      rw [hbody] at hsome
      obtain ⟨d, hd⟩ := Option.isSome_iff_exists.mp hsome
      obtain ⟨fields', hbody', hfields⟩ := (h.struct d hd).fields
      rw [hbody] at hbody'
      injection hbody' with heq
      exact ⟨d.fields, heq ▸ hfields⟩
  · rename_i e hbody
    exact decides_pure ⟨⟨rfl, rfl, hty⟩, by rw [hbody]; rfl, fun _ hd => nomatch hd⟩

end WellNamed

theorem structTypes_eq (decls : List DeclExpr) (next : Nat) :
    structTypes next decls = ((decls.filter (·.body.isStruct)).zipIdx next).map
      fun entry => (entry.1.name, .struct entry.2 false) := by
  induction decls generalizing next with
  | nil => rfl
  | cons decl rest ih =>
    unfold structTypes
    split
    · rename_i hs
      rw [List.filter_cons_of_pos (p := fun d : DeclExpr => d.body.isStruct) hs, List.zipIdx_cons,
        List.map_cons, ih]
    · rename_i hs
      rw [List.filter_cons_of_neg (p := fun d : DeclExpr => d.body.isStruct) hs, ih]

/-- At the start the structs are known, and nothing else. -/
theorem faithful_structTypes (src : Source) : src.Faithful (structTypes 0 src.decls) := by
  have hmem : ∀ entry, entry ∈ structTypes 0 src.decls ↔
      ∃ decl id, src.structDecls[id]? = some decl ∧ (decl.name, .struct id false) = entry := by
    intro entry
    rw [structTypes_eq, List.mem_map]
    constructor
    · rintro ⟨⟨decl, id⟩, hid, rfl⟩
      exact ⟨decl, id, List.mem_zipIdx_iff_getElem?.mp hid, rfl⟩
    · rintro ⟨decl, id, hid, rfl⟩
      exact ⟨(decl, id), List.mem_zipIdx_iff_getElem?.mpr hid, rfl⟩
  refine ⟨fun entry hentry pos => ?_, fun decl hdecl => ?_⟩
  · obtain ⟨decl, id, hid, rfl⟩ := (hmem entry).mp hentry
    exact .struct pos hid
  · obtain ⟨id, hid⟩ := List.mem_iff_getElem?.mp hdecl
    exact List.lookup_isSome_iff.mpr
      ⟨_, (hmem _).mpr ⟨decl, id, hid, rfl⟩, beq_self_eq_true decl.name⟩

theorem forall₂_structs {decls : List DeclExpr} {entries : List (Declaration × Option StructDef)}
    (h : List.Forall₂ src.EntryDenotes decls entries) :
    List.Forall₂ src.StructDenotes (decls.filter (·.body.isStruct))
      (entries.filterMap Prod.snd) := by
  induction h with
  | nil => exact .nil
  | @cons decl entry decls entries hentry _ ih =>
    have hsome := hentry.isStruct
    cases hd : entry.2 with
    | none =>
      rw [hd] at hsome
      rw [List.filterMap_cons_none hd, List.filter_cons_of_neg (by rw [← hsome]; simp)]
      exact ih
    | some d =>
      rw [hd] at hsome
      rw [List.filterMap_cons_some hd, List.filter_cons_of_pos (by rw [← hsome]; rfl)]
      exact .cons (hentry.struct d hd) ih

theorem isMessage_iff {name : String} : isMessage src.mentioned name = true ↔
    isExported name ∧ ∀ decl ∈ src.decls, name ∉ decl.body.names := by
  unfold isMessage mentioned
  rw [Bool.and_eq_true]
  refine and_congr_right fun _ => ?_
  simp

/-- **A source in which everything has a meaning is resolvable**, if it has messages. -/
theorem WellNamed.resolvable (hn : src.WellNamed) {s : Schema} (h : src.ResolvesTo s)
    (hmessages : s.messages ≠ []) : src.Resolvable := by
  have hdecl : ∀ decl ∈ src.decls, ∃ ty, src.Denotes (.named decl.name decl.pos) ty := by
    intro decl hmem
    obtain ⟨d, _, hd⟩ := Result.exists_of_mem_right h.declarations.flip hmem
    exact ⟨d.ty, hd.ty⟩
  refine ⟨hn, fun decl hmem name hname => ?_, fun name hcircle => ?_, ?_⟩
  · rcases hbody : decl.body with fields | e
    · -- the fields of the struct have types
      rw [hbody] at hname
      obtain ⟨f, hf, rfl⟩ := List.mem_map.mp hname
      obtain ⟨d, _, hd⟩ := Result.exists_of_mem_right h.structs.flip
        (mem_structDecls.mpr ⟨hmem, fields, hbody⟩)
      obtain ⟨fields', hbody', hfields⟩ := hd.fields
      rw [hbody] at hbody'
      injection hbody' with heq
      subst heq
      obtain ⟨g, _, hg⟩ := Result.exists_of_mem_right hfields.flip hf
      exact hg.ty.defines
    · rw [hbody] at hname
      obtain ⟨ty, hty⟩ := hdecl decl hmem
      rw [List.mem_singleton.mp hname]
      exact (hn.denotes_body hmem hbody hty).defines
  · obtain ⟨_, ⟨⟨decl, hmem, rfl, _⟩, _⟩, _⟩ := Relation.TransGen.head'_iff.mp hcircle
    obtain ⟨ty, hty⟩ := hdecl decl hmem
    exact hn.not_circle hty hcircle
  · obtain ⟨m, hm⟩ := List.exists_mem_of_ne_nil _ hmessages
    rw [h.messages] at hm
    obtain ⟨d, hd, _⟩ := List.mem_map.mp hm
    obtain ⟨hd, hmessage⟩ := List.mem_filter.mp hd
    obtain ⟨decl, hmem, hdenotes⟩ := Result.exists_of_mem_right h.declarations hd
    rw [decide_eq_true_eq, hdenotes.name] at hmessage
    exact ⟨decl, hmem, hmessage⟩

/-- In a resolvable source every declaration becomes something. -/
theorem Resolvable.exists_entries (h : src.Resolvable) :
    ∃ entries, List.Forall₂ src.EntryDenotes src.decls entries := by
  refine Result.exists_forall₂ fun decl hmem => ?_
  obtain ⟨ty, hty⟩ := exists_denotes (e := .named decl.name decl.pos) h.defined h.acyclic
    (.inr (List.mem_map.mpr ⟨decl, hmem, rfl⟩))
  rcases hbody : decl.body with fields | e
  · have hfields : ∀ f ∈ fields, ∃ g, src.FieldDenotes f g := by
      intro f hf
      have hname : f.type.name ∈ decl.body.names := by
        rw [hbody]
        exact List.mem_map.mpr ⟨f, hf, rfl⟩
      obtain ⟨ty, hty⟩ := exists_denotes h.defined h.acyclic (h.defined decl hmem _ hname)
      exact ⟨⟨f.name, f.pos, ty, f.tag⟩, rfl, rfl, rfl, hty⟩
    obtain ⟨gs, hgs⟩ := Result.exists_forall₂ hfields
    refine ⟨(⟨decl.name, decl.pos, ty⟩, some ⟨decl.name, decl.pos, gs⟩), ⟨rfl, rfl, hty⟩,
      by rw [hbody]; rfl, fun d hd => ?_⟩
    obtain rfl := Option.some.inj hd
    exact ⟨rfl, rfl, fields, hbody, hgs⟩
  · exact ⟨(⟨decl.name, decl.pos, ty⟩, none), ⟨rfl, rfl, hty⟩, by rw [hbody]; rfl,
      fun _ hd => nomatch hd⟩

theorem resolvesTo_of_entries {entries : List (Declaration × Option StructDef)}
    (h : List.Forall₂ src.EntryDenotes src.decls entries) :
    src.ResolvesTo {
      package := src.package
      structs := entries.filterMap Prod.snd
      declarations := entries.map Prod.fst
      messages := ((entries.map Prod.fst).filter fun d => isMessage src.mentioned d.name).map
        fun d => { name := d.name, ty := d.ty } } where
  package := rfl
  declarations := List.forall₂_map_right_iff.mpr (h.imp fun _ _ he => he.declaration)
  structs := forall₂_structs h
  messages := by
    refine congrArg (List.map _) (List.filter_congr fun d _ => ?_)
    rw [Bool.eq_iff_iff, isMessage_iff, decide_eq_true_eq]

theorem wellNamed_iff : src.WellNamed ↔ checkNames [] src.decls = .ok () := by
  rw [checkNames_eq_ok]
  constructor
  · intro h
    exact ⟨fun decl hmem => Primitive.ofName?_eq_none.mpr (h.reserved decl hmem), h.distinct,
      fun _ _ => List.not_mem_nil⟩
  · rintro ⟨hreserved, hdistinct, _⟩
    exact ⟨fun decl hmem => Primitive.ofName?_eq_none.mp (hreserved decl hmem), hdistinct⟩

/-- **What resolving gives**: the schema that a well-named source declares, or an error if it
declares none. -/
theorem WellNamed.resolve_cases (hn : src.WellNamed) :
    (∃ s, src.resolve = .ok s ∧ src.ResolvesTo s ∧ s.messages ≠ []) ∨
      ∃ err, src.resolve = .error err ∧ ¬ src.Resolvable := by
  have hresolve : src.resolve =
      (((src.decls.mapM src.resolveDecl) (structTypes 0 src.decls)).map Prod.fst).bind
        fun entries =>
          let messages :=
            ((entries.map Prod.fst).filter fun d => isMessage src.mentioned d.name).map
              fun d => { name := d.name, ty := d.ty }
          if messages.isEmpty then .error .noRootType
          else .ok {
            package := src.package
            structs := entries.filterMap Prod.snd
            declarations := entries.map Prod.fst
            messages } := by
    unfold resolve
    rw [wellNamed_iff.mp hn]
    rfl
  have hall : src.Decides (List.Forall₂ src.EntryDenotes src.decls)
      (src.decls.mapM src.resolveDecl) :=
    decides_mapM fun decl _ => hn.decides_resolveDecl decl
  rcases hall _ (faithful_structTypes src) with
    ⟨entries, known, hok, hentries, _⟩ | ⟨err, herr, hnone⟩
  · have hto := resolvesTo_of_entries hentries
    rw [hresolve, hok]
    dsimp only [Except.map, Except.bind]
    split
    · -- a resolvable source has a message
      rename_i hempty
      refine .inr ⟨_, rfl, fun h => ?_⟩
      obtain ⟨decl, hmem, hroot⟩ := h.root
      obtain ⟨d, hd, hdenotes⟩ := Result.exists_of_mem_right hto.declarations.flip hmem
      have hmessage : d ∈ (entries.map Prod.fst).filter fun d => isMessage src.mentioned d.name := by
        refine List.mem_filter.mpr ⟨hd, isMessage_iff.mpr ?_⟩
        rw [hdenotes.name]
        exact hroot
      rw [List.isEmpty_iff, List.map_eq_nil_iff] at hempty
      rw [hempty] at hmessage
      exact absurd hmessage (by simp)
    · rename_i hempty
      exact .inl ⟨_, rfl, hto, fun h => hempty (List.isEmpty_iff.mpr h)⟩
  · refine .inr ⟨err, ?_, fun h => ?_⟩
    · rw [hresolve, herr]
      rfl
    · obtain ⟨entries, hentries⟩ := h.exists_entries
      exact hnone entries hentries

theorem resolve_eq_ok {s : Schema} (h : src.resolve = .ok s) :
    src.Resolvable ∧ src.ResolvesTo s := by
  have hn : src.WellNamed := by
    obtain ⟨_, hnames, _⟩ := Result.bind_eq_ok.mp h
    exact wellNamed_iff.mpr hnames
  rcases hn.resolve_cases with ⟨s', hok, hto, hmessages⟩ | ⟨err, herr, _⟩
  · obtain rfl : s' = s := Except.ok.inj (hok.symm.trans h)
    exact ⟨hn.resolvable hto hmessages, hto⟩
  · exact absurd (herr.symm.trans h) (by simp)

/-- A source declares one schema only. -/
theorem WellNamed.resolvesTo_unique (hn : src.WellNamed) {s s' : Schema} (h : src.ResolvesTo s)
    (h' : src.ResolvesTo s') : s = s' := by
  have hfield : Relator.RightUnique src.FieldDenotes := by
    rintro f ⟨⟩ ⟨⟩ ⟨rfl, rfl, rfl, hty⟩ ⟨rfl, rfl, rfl, hty'⟩
    cases hn.denotes_unique hty hty'
    rfl
  have hdecl : Relator.RightUnique src.DeclDenotes := by
    rintro decl ⟨⟩ ⟨⟩ ⟨rfl, rfl, hty⟩ ⟨rfl, rfl, hty'⟩
    cases hn.denotes_unique hty hty'
    rfl
  have hstruct : Relator.RightUnique src.StructDenotes := by
    rintro decl ⟨⟩ ⟨⟩ ⟨rfl, rfl, fields, hbody, hfields⟩ ⟨rfl, rfl, fields', hbody', hfields'⟩
    rw [hbody] at hbody'
    injection hbody' with heq
    subst heq
    cases hfield.forall₂ hfields hfields'
    rfl
  have hdeclarations := hdecl.forall₂ h.declarations h'.declarations
  have hmessages := h.messages
  rw [hdeclarations, ← h'.messages] at hmessages
  have hstructs := hstruct.forall₂ h.structs h'.structs
  have hpackage := h.package.trans h'.package.symm
  cases s
  cases s'
  cases hpackage
  cases hstructs
  cases hdeclarations
  cases hmessages
  rfl

end Source

end WireSchema
