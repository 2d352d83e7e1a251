import WireSchema.Source.Resolve
import WireSchema.Proofs.Sequence

/-!
# What resolving promises

Structs are numbered in the order of their declarations, so a number stands for a struct exactly
when it is below the number of structs. Resolving only ever hands out such numbers: the names it
starts from stand for them, and a type made of types in range is in range. Declared names are
different, and with them the names of messages.
-/

namespace WireSchema

/-- The struct a type is made of, if any, is one of the first `n`. -/
def Ty.InRange (n : Nat) (t : Ty) : Prop :=
  ∀ id, t.innermost? = some id → id < n

/-- Every struct that is mentioned anywhere exists. -/
structure Schema.InRange (s : Schema) : Prop where
  fields : ∀ d ∈ s.structs, ∀ f ∈ d.fields, f.ty.InRange s.structs.length
  declarations : ∀ d ∈ s.declarations, d.ty.InRange s.structs.length
  messages : ∀ m ∈ s.messages, m.ty.InRange s.structs.length

instance (n : Nat) (t : Ty) : Decidable (t.InRange n) :=
  inferInstanceAs (Decidable (∀ id ∈ t.innermost?, id < n))

instance (s : Schema) : Decidable s.InRange :=
  decidable_of_iff
    ((∀ d ∈ s.structs, ∀ f ∈ d.fields, f.ty.InRange s.structs.length) ∧
      (∀ d ∈ s.declarations, d.ty.InRange s.structs.length) ∧
      ∀ m ∈ s.messages, m.ty.InRange s.structs.length)
    ⟨fun ⟨hf, hd, hm⟩ => ⟨hf, hd, hm⟩, fun ⟨hf, hd, hm⟩ => ⟨hf, hd, hm⟩⟩

@[simp] theorem Ty.innermost?_withOptional (o : Bool) (t : Ty) :
    (t.withOptional o).innermost? = t.innermost? := by
  cases t <;> rfl

/-- All names stand for types in range. -/
def Known.InRange (n : Nat) (known : Known) : Prop :=
  ∀ entry ∈ known, entry.2.InRange n

namespace Resolving

variable {α β : Type}

/-- From names in range the computation gets to names in range, and its result has a property. -/
def Ensures (n : Nat) (post : α → Prop) (m : Resolving α) : Prop :=
  ∀ known, known.InRange n → ∀ a known', m known = .ok (a, known') → post a ∧ known'.InRange n

variable {n : Nat}

theorem ensures_pure {post : α → Prop} {a : α} (h : post a) : Ensures n post (pure a) := by
  intro known hk a' known' he
  injection he with he
  injection he with h1 h2
  subst h1; subst h2
  exact ⟨h, hk⟩

theorem ensures_bind {post : α → Prop} {post' : β → Prop} {m : Resolving α} {f : α → Resolving β}
    (hm : Ensures n post m) (hf : ∀ a, post a → Ensures n post' (f a)) :
    Ensures n post' (m >>= f) := by
  intro known hk b known' he
  obtain ⟨⟨a, known₁⟩, h1, h2⟩ := Result.bind_eq_ok.mp he
  obtain ⟨ha, hk₁⟩ := hm known hk a known₁ h1
  exact hf a ha known₁ hk₁ b known' h2

theorem ensures_throw {post : α → Prop} {e : Error} : Ensures n post (throw e : Resolving α) := by
  intro known _ a known' he
  exact absurd he (by simp [throw, throwThe, MonadExceptOf.throw, StateT.lift, bind, Except.bind])

theorem ensures_get : Ensures n (Known.InRange n) (get : Resolving Known) := by
  intro known hk a known' he
  injection he with he
  injection he with h1 h2
  subst h1; subst h2
  exact ⟨hk, hk⟩

theorem ensures_learn {name : String} {ty : Ty} (h : ty.InRange n) :
    Ensures n (fun _ => True) (modify ((name, ty) :: ·) : Resolving Unit) := by
  intro known hk a known' he
  injection he with he
  injection he with _ h2
  subst h2
  refine ⟨trivial, fun entry hentry => ?_⟩
  rcases List.mem_cons.mp hentry with rfl | hentry
  · exact h
  · exact hk entry hentry

theorem ensures_mapM {R : α → β → Prop} {f : α → Resolving β} {xs : List α}
    (h : ∀ x ∈ xs, Ensures n (R x) (f x)) : Ensures n (List.Forall₂ R xs) (xs.mapM f) := by
  induction xs with
  | nil =>
    rw [List.mapM_nil]
    exact ensures_pure .nil
  | cons x xs ih =>
    rw [List.mapM_cons]
    refine ensures_bind (h x List.mem_cons_self) fun y hy => ?_
    refine ensures_bind (ih fun z hz => h z (List.mem_cons_of_mem x hz)) fun ys hys => ?_
    exact ensures_pure (.cons hy hys)

/-- A type expression only wraps what its name stands for. -/
theorem ensures_resolveWith {onName : String → Position → Resolving Ty}
    (h : ∀ name pos, Ensures n (Ty.InRange n) (onName name pos)) (e : TypeExpr) :
    Ensures n (Ty.InRange n) (e.resolveWith onName) := by
  induction e with
  | named name pos => exact h name pos
  | optional e ih =>
    refine ensures_bind ih fun ty hty => ensures_pure fun id hid => hty id ?_
    rwa [Ty.asOptional, Ty.innermost?_withOptional] at hid
  | array e ih => exact ensures_bind ih fun ty hty => ensures_pure hty

end Resolving

namespace Source

open Resolving

variable {n : Nat}

theorem ensures_resolveName (src : Source) (hops : Nat) (path : List String) (name : String)
    (pos : Position) : Ensures n (Ty.InRange n) (src.resolveName hops path name pos) := by
  induction hops using Nat.strongRecOn generalizing path name pos with
  | ind hops ih =>
    unfold resolveName
    split
    · exact ensures_pure fun id hid => absurd hid (by simp [Ty.innermost?])
    · refine ensures_bind ensures_get fun known hk => ?_
      split
      · rename_i ty hty
        obtain ⟨l₁, l₂, rfl, _⟩ := List.lookup_eq_some_iff.mp hty
        exact ensures_pure (hk (name, ty) (by simp))
      · split
        · exact ensures_throw
        · split
          · exact ensures_throw
          · split
            · exact ensures_throw
            · -- the alias is replaced by its body, and what it stands for is kept
              rename_i hops
              refine ensures_bind (ensures_resolveWith
                (fun name pos => ih hops (Nat.lt_succ_self _) _ name pos) _) fun ty hty => ?_
              exact ensures_bind (ensures_learn hty) fun _ _ => ensures_pure hty

theorem ensures_resolveField (src : Source) (f : FieldExpr) :
    Ensures n (fun g => g.ty.InRange n) (src.resolveField f) :=
  ensures_bind (ensures_resolveWith (fun name pos => ensures_resolveName src _ _ name pos) _)
    fun _ hty => ensures_pure hty

/-- What a declaration becomes. -/
structure Becomes (n : Nat) (decl : DeclExpr) (result : Declaration × Option StructDef) : Prop where
  name : result.1.name = decl.name
  ty : result.1.ty.InRange n
  /-- Exactly the struct declarations give a struct. -/
  isStruct : result.2.isSome = decl.body.isStruct
  fields : ∀ d, result.2 = some d → ∀ f ∈ d.fields, f.ty.InRange n

theorem ensures_resolveDecl (src : Source) (decl : DeclExpr) :
    Ensures n (Becomes n decl) (src.resolveDecl decl) := by
  unfold resolveDecl
  refine ensures_bind (ensures_resolveName src _ _ _ _) fun ty hty => ?_
  dsimp only
  split
  · rename_i fields hbody
    refine ensures_bind (ensures_mapM (R := fun _ g => g.ty.InRange n)
      fun f _ => ensures_resolveField src f) fun gs hgs => ?_
    refine ensures_pure ⟨rfl, hty, by rw [hbody]; rfl, ?_⟩
    intro d hd f hf
    injection hd with hd
    subst hd
    obtain ⟨_, _, hg⟩ := Result.exists_of_mem_right hgs hf
    exact hg
  · rename_i e hbody
    exact ensures_pure ⟨rfl, hty, by rw [hbody]; rfl, fun d hd => absurd hd (by simp)⟩

/-- The numbers given to structs go up to the number of struct declarations. -/
theorem structTypes_inRange (decls : List DeclExpr) (next : Nat) :
    (structTypes next decls).InRange (next + (decls.filter (·.body.isStruct)).length) := by
  induction decls generalizing next with
  | nil => exact fun entry hentry => absurd hentry (by simp [structTypes])
  | cons decl rest ih =>
    unfold structTypes
    split
    · rename_i hs
      rw [List.filter_cons_of_pos (p := fun d : DeclExpr => d.body.isStruct) hs, List.length_cons]
      intro entry hentry
      rcases List.mem_cons.mp hentry with rfl | hentry
      · intro id hid
        simp only [Ty.innermost?, Option.some.injEq] at hid
        omega
      · have := ih (next + 1) entry hentry
        rwa [Nat.add_right_comm] at this
    · rename_i hs
      rw [List.filter_cons_of_neg (p := fun d : DeclExpr => d.body.isStruct) hs]
      exact ih next

/-- As many structs come out as struct declarations went in. -/
theorem length_structs {decls : List DeclExpr} {results : List (Declaration × Option StructDef)}
    (h : List.Forall₂ (Becomes n) decls results) :
    (results.filterMap Prod.snd).length = (decls.filter (·.body.isStruct)).length := by
  induction h with
  | nil => rfl
  | @cons decl result decls results hb _ ih =>
    obtain ⟨d, struct⟩ := result
    have hs := hb.isStruct
    cases struct with
    | none => rw [List.filterMap_cons_none rfl, List.filter_cons_of_neg (by rw [← hs]; simp), ih]
    | some def' =>
      rw [List.filterMap_cons_some (f := Prod.snd) (b := def') rfl,
        List.filter_cons_of_pos (by rw [← hs]; rfl),
        List.length_cons, List.length_cons, ih]

theorem names_eq {decls : List DeclExpr} {results : List (Declaration × Option StructDef)}
    (h : List.Forall₂ (Becomes n) decls results) :
    results.map (Declaration.name ∘ Prod.fst) = decls.map (·.name) := by
  induction h with
  | nil => rfl
  | cons hb _ ih => rw [List.map_cons, List.map_cons, ih, Function.comp_apply, hb.name]

/-- Names pass if they are different, also from those seen before, and none is a primitive's. -/
theorem checkNames_eq_ok {decls : List DeclExpr} {seen : List String} :
    checkNames seen decls = .ok () ↔
      (∀ decl ∈ decls, Primitive.ofName? decl.name = none) ∧ (decls.map (·.name)).Nodup ∧
        ∀ decl ∈ decls, decl.name ∉ seen := by
  induction decls generalizing seen with
  | nil => simp [checkNames]
  | cons decl rest ih =>
    rw [List.forall_mem_cons, List.forall_mem_cons, List.map_cons, List.nodup_cons]
    unfold checkNames
    split
    · rename_i hreserved
      refine ⟨fun h => absurd h (by simp), fun h => ?_⟩
      rw [h.1.1] at hreserved
      exact absurd hreserved (by simp)
    · rename_i hfree
      split
      · rename_i hseen
        exact ⟨fun h => absurd h (by simp), fun h => absurd (List.contains_iff_mem.mp hseen) h.2.2.1⟩
      · rename_i hseen
        have hnew : decl.name ∉ seen := fun h => hseen (List.contains_iff_mem.mpr h)
        rw [ih]
        constructor
        · rintro ⟨hrest, hnodup, hunseen⟩
          refine ⟨⟨by simpa using hfree, hrest⟩, ⟨fun hmem => ?_, hnodup⟩, hnew, fun d hd hmem => ?_⟩
          · obtain ⟨d, hd, hname⟩ := List.mem_map.mp hmem
            exact hunseen d hd (by rw [hname]; exact List.mem_cons_self)
          · exact hunseen d hd (List.mem_cons_of_mem _ hmem)
        · rintro ⟨⟨_, hrest⟩, ⟨hother, hnodup⟩, _, hunseen⟩
          refine ⟨hrest, hnodup, fun d hd hmem => ?_⟩
          rcases List.mem_cons.mp hmem with hname | hmem
          · exact hother (List.mem_map.mpr ⟨d, hd, hname⟩)
          · exact hunseen d hd hmem

/-- **What a source resolves to.** Every struct it mentions exists, and its messages have different
names. -/
theorem resolve_spec {src : Source} {s : Schema} (h : src.resolve = .ok s) :
    s.InRange ∧ (s.messages.map (·.name)).Nodup := by
  unfold resolve at h
  obtain ⟨_, hnames, h⟩ := Result.bind_eq_ok.mp h
  obtain ⟨results, hresults, h⟩ := Result.bind_eq_ok.mp h
  obtain ⟨⟨results', known⟩, hrun, hfst⟩ := Result.map_eq_ok.mp hresults
  subst hfst
  dsimp only at h
  split at h
  · exact absurd h (by simp)
  · injection h with h
    subst h
    obtain ⟨hall, _⟩ := ensures_mapM (fun decl _ => ensures_resolveDecl src decl) _
      (structTypes_inRange src.decls 0) _ _ hrun
    rw [Nat.zero_add, ← length_structs hall] at hall
    have hall' : ∀ r ∈ results', ∃ decl, Becomes (results'.filterMap Prod.snd).length decl r := by
      intro r hr
      obtain ⟨decl, _, hb⟩ := Result.exists_of_mem_right hall hr
      exact ⟨decl, hb⟩
    have hdecl : ∀ d ∈ results'.map Prod.fst,
        d.ty.InRange (results'.filterMap Prod.snd).length := by
      intro d hd
      obtain ⟨r, hr, rfl⟩ := List.mem_map.mp hd
      exact (hall' r hr).choose_spec.ty
    refine ⟨⟨?_, hdecl, ?_⟩, ?_⟩
    · intro d hd f hf
      obtain ⟨r, hr, hrd⟩ := List.mem_filterMap.mp hd
      exact (hall' r hr).choose_spec.fields d hrd f hf
    · intro m hm
      obtain ⟨d, hd, rfl⟩ := List.mem_map.mp hm
      exact hdecl d (List.mem_filter.mp hd).1
    · -- messages are some of the declarations, in order
      rw [List.map_map]
      have hsub := (List.filter_sublist (l := results'.map Prod.fst)
        (p := fun d => isMessage src.mentioned d.name)).map Declaration.name
      rw [List.map_map, names_eq hall] at hsub
      exact hsub.nodup (checkNames_eq_ok.mp hnames).2.1

end Source

theorem Schema.parse_spec {text : String} {s : Schema} (h : Schema.parse text = .ok s) :
    s.InRange ∧ (s.messages.map (·.name)).Nodup := by
  obtain ⟨tokens, _, h⟩ := Result.bind_eq_ok.mp h
  obtain ⟨src, _, h⟩ := Result.bind_eq_ok.mp h
  exact Source.resolve_spec h

end WireSchema
