import WireSchema.Proofs.Blocks
import WireSchema.Proofs.Decoding
import WireSchema.Proofs.RustScope

/-!
# Rust statements that obtain a value

The statements that are generated for a type obtain the value that reading along the type gives,
and bind nothing but the name they were given and new temporaries: by induction on the type, in any
scope that has the buffer. `Obtains` is what the induction carries. The names matter: what is inside
an optional or a loop is set up under names of its own, so that none of them hides the vector that
the loop collects in.
-/

namespace WireSchema.RustCode

open Wire
open Naming (isRustLocal rustField)

variable {α β : Type}

/-! ## Routines that follow a read -/

/-- A routine stops for the reason for which a read fails. -/
inductive Stop.Matches : Stop → WireError → Prop where
  | failed {e e' : WireError} : e.SameKind e' → Matches (.failed e) e'

/-- A routine does what a read does. -/
abbrev Follows (R : α → β → Prop) (m : Run α) (m' : Read β) : Prop :=
  Mirrors Stop.Matches R m m'

theorem Follows.alike {R : α → β → Prop} {m : Run α} {m' m'' : Read β} (h : Follows R m m')
    (h' : Read.Alike m' m'') : Follows R m m'' := by
  refine Mirrors.trans h h' fun stop e e' hstop hkind => ?_
  cases hstop with
  | failed hsame => exact .failed (hsame.trans hkind)

theorem follows_read {scope : Scope} (h : scope.hasBuffer = true) (m : Read α) :
    Follows Eq (scope.read m) m := by
  intro r
  rw [Scope.read, if_pos h, Run.ofRead]
  cases m r with
  | ok a r' => exact .ok r' rfl
  | error e r' => exact .error r' r' (.failed (.refl e))

/-- A read whose result is put into a value. -/
theorem follows_map {scope : Scope} (h : scope.hasBuffer = true) (m : Read α) (f : α → Value) :
    Follows Eq (do return f (← scope.read m)) (do return f (← m)) :=
  Mirrors.bind (follows_read h m) fun _ _ hab => .pure (congrArg f hab)

/-! ## Statements that obtain a value -/

variable {call : Nat → Run Value}

/-- What statements that obtain a value do: they follow a read, and add to the names in scope. -/
structure Obtains (call : Nat → Run Value) (read : Read Value) (given : Option String)
    (low high : Nat) (d : Decode) : Prop where
  le : low ≤ high
  /-- The value can be used where it was set up. -/
  use : ∀ scope : Scope, scope.hasBuffer = true →
    Follows (fun x v => x.2 = v ∧ Scope.Adds (IsNew given low high) scope x.1)
      (do
        let inside ← d.prepare call scope
        return (inside, ← d.result call inside))
      read
  /-- The value can be bound to the name that was given. -/
  bind : ∀ (scope : Scope) (name : String), given = some name → scope.hasBuffer = true →
    Follows (fun scope' v => scope'.value? name = some v ∧
        Scope.Adds (IsNew given low high) scope scope')
      (d.bind call scope name) read

/-- Statements that obtain the values of a type, whatever name they are given. -/
def Reads (call : Nat → Run Value) (read : Read Value) (statements : Option String → Fresh Decode) :
    Prop :=
  ∀ given low, IsOwn given → Obtains call read given low ((statements given).run low).2
    ((statements given).run low).1

theorem obtains_read {e : ReadExpr} {read : Read Value} (given : Option String) (low : Nat)
    (h : ∀ scope : Scope, scope.hasBuffer = true → Follows Eq (e.eval call scope) read) :
    Obtains call read given low low (.read e) where
  le := Nat.le_refl _
  use scope hbuf := by
    change Follows _ (do return (scope, ← e.eval call scope)) read
    rw [← bind_pure read]
    exact Mirrors.bind (h scope hbuf) fun v v' hv => .pure ⟨hv, .refl scope⟩
  bind scope name hgiven hbuf := by
    rw [Decode.bind, ← bind_pure read]
    refine Mirrors.bind (h scope hbuf) fun v v' hv => .pure ?_
    refine ⟨?_, .cons (.refl scope) (.inl hgiven) _⟩
    rw [Scope.value?_cons_self, hv]

/-- Statements that bind their value to a name of their own. -/
theorem obtains_named {d : Decode} {name : String} {read : Read Value} {given : Option String}
    {low high : Nat} (hle : low ≤ high) (hname : ∀ g, given = some g → g = name)
    (hresult : ∀ scope, d.result call scope = .ofOption (scope.value? name))
    (hbind : ∀ scope g, d.bind call scope g = d.prepare call scope)
    (h : ∀ scope : Scope, scope.hasBuffer = true →
      Follows (fun inside v => inside.value? name = some v ∧
        Scope.Adds (IsNew given low high) scope inside) (d.prepare call scope) read) :
    Obtains call read given low high d where
  le := hle
  use scope hbuf := by
    rw [← bind_pure read]
    refine Mirrors.bind (h scope hbuf) fun inside v hinside => ?_
    rw [hresult, hinside.1]
    exact .pure ⟨rfl, hinside.2⟩
  bind scope g hgiven hbuf := by
    rw [hbind, hname g hgiven]
    exact h scope hbuf

/-- What is done with a value behind the statements that obtain it. -/
theorem Obtains.andThen {γ δ : Type} {S : γ → δ → Prop} {d : Decode} {read : Read Value}
    {given : Option String} {low high : Nat} (h : Obtains call read given low high d)
    {scope : Scope} (hbuf : scope.hasBuffer = true) {f : Scope → Value → Run γ}
    {f' : Value → Read δ}
    (hf : ∀ inside v, Scope.Adds (IsNew given low high) scope inside →
      Follows S (f inside v) (f' v)) :
    Follows S
      (do
        let inside ← d.prepare call scope
        let v ← d.result call inside
        f inside v)
      (read >>= f') := by
  have hbind : Follows S
      ((do
        let inside ← d.prepare call scope
        return (inside, ← d.result call inside)) >>= fun x => f x.1 x.2)
      (read >>= f') := by
    refine Mirrors.bind (h.use scope hbuf) fun x v hx => ?_
    rw [← hx.1]
    exact hf x.1 x.2 hx.2
  simpa only [bind_assoc, pure_bind] using hbind

/-- The name that statements bind: the one that was given, or a temporary. -/
theorem run_nameOr (stem : String) (given : Option String) (low : Nat) :
    ∃ name next, (nameOr stem given).run low = (name, next) ∧ low ≤ next ∧
      (given = some name ∨ given = none ∧ name = temporary stem low ∧ next = low + 1) := by
  cases given with
  | some name => exact ⟨name, low, rfl, Nat.le_refl _, .inl rfl⟩
  | none => exact ⟨temporary stem low, low + 1, rfl, Nat.le_succ _, .inr ⟨rfl, rfl, rfl⟩⟩

theorem run_decodeOptional {given : Option String} {body : Option String → Fresh Decode}
    {name : String} {low next : Nat} (h : (nameOr "v" given).run low = (name, next)) :
    (decodeOptional true given body).run low
      = (.optional name ((body none).run next).1, ((body none).run next).2) := by
  rw [decodeOptional, if_pos rfl, StateT.run_bind, h]
  rfl

theorem reads_optional {read : Read Value} {body : Option String → Fresh Decode}
    (hbody : Reads call read body) (o : Bool) :
    Reads call (readOptional o read) fun given => decodeOptional o given body := by
  intro given low hown
  cases o with
  | false => exact hbody given low hown
  | true =>
    obtain ⟨name, next, hnext, hle, hname⟩ := run_nameOr "v" given low
    have hinner := hbody none next isOwn_none
    rw [run_decodeOptional hnext]
    have hnew : IsNew given low ((body none).run next).2 name := by
      rcases hname with hgiven | ⟨_, rfl, rfl⟩
      · exact .inl hgiven
      · exact .inr ⟨"v", by decide, low, Nat.le_refl _, hinner.le, rfl⟩
    refine obtains_named (Nat.le_trans hle hinner.le) ?_ (fun _ => rfl) (fun _ _ => rfl)
      fun scope hbuf => ?_
    · intro g hg
      rcases hname with hgiven | ⟨hnone, _⟩
      · exact Option.some.inj (hg.symm.trans hgiven)
      · exact nomatch hg.symm.trans hnone
    · rw [Decode.prepare, readOptional, if_pos rfl]
      refine Mirrors.bind (follows_read hbuf _) fun there there' hthere => ?_
      subst hthere
      cases there with
      | false => exact .pure ⟨Scope.value?_cons_self _ _ _, .cons (.refl scope) hnew _⟩
      | true =>
        rw [if_pos rfl]
        refine hinner.andThen hbuf fun inside v hinside => ?_
        -- the names bound inside are gone when the block ends
        rw [hinside.leave_eq]
        exact .pure ⟨Scope.value?_cons_self _ _ _, .cons (.refl scope) hnew _⟩

theorem reads_primitive (p : Primitive) :
    Reads call p.read fun _ => return .read (readPrimitive p) := by
  intro given low _
  refine obtains_read given low fun scope hbuf => ?_
  cases p with
  | bool => exact follows_map hbuf Read.bool Value.bool
  | string => exact follows_map hbuf Read.string Value.text
  | number kind => exact follows_map hbuf (Read.scalar kind) Value.scalar

theorem reads_struct {id : Nat} {read : Read Value} (h : Follows Eq (call id) read) :
    Reads call read fun _ => return .read (.struct id) := by
  intro given low _
  refine obtains_read given low fun scope hbuf => ?_
  rw [ReadExpr.eval, if_pos hbuf]
  exact h

/-- A block of numbers stands for the numbers one by one. -/
theorem reads_bulk (kind : Numeric) (readStruct : Nat → Read Value) :
    Reads call (Ty.read readStruct (.array (.primitive (.number kind) false) false))
      fun _ => return .read (.scalars kind) := by
  intro given low _
  refine obtains_read given low fun scope hbuf => ?_
  refine (follows_map hbuf (Read.scalars kind) fun xs => .list (xs.map .scalar)).alike ?_
  have hscalars := (Read.alike_scalars kind).bind fun xs =>
    Read.Alike.refl (pure (Value.list (xs.map .scalar)))
  have hitems : ∀ n, Read.replicate n (Ty.read readStruct (.primitive (.number kind) false))
      = do return (← Read.replicate n (Read.scalar kind)).map .scalar := by
    intro n
    rw [Read.replicate_eq, Read.replicate_eq, ← Read.map_mapM]
    rfl
  rw [Ty.read, readOptional, if_neg (by simp)]
  simpa only [hitems, bind_assoc, pure_bind] using hscalars

/-- The rounds of a loop that collects items in a vector. -/
theorem follows_iterate {read : Read Value} {low high : Nat} {item : Decode}
    (hitem : Obtains call read none low high item) {name : String}
    (hname : ¬ IsNew none low high name) (hne : name ≠ bufferVariable) {scope : Scope}
    (hbuf : scope.hasBuffer = true) (n : Nat) (items : List Value) :
    Follows (fun scope' more => scope' = (name, .value (.list (items ++ more))) :: scope)
      (Run.iterate (fun scope : Scope => do
          let inside ← item.prepare call scope
          let v ← item.result call inside
          let pushed ← Run.ofOption (inside.push name v)
          return scope.leave pushed)
        n ((name, .value (.list items)) :: scope))
      (Read.replicate n read) := by
  rw [Read.replicate_eq]
  induction n generalizing items with
  | zero =>
    rw [List.replicate_zero, List.mapM_nil]
    exact .pure (by rw [List.append_nil])
  | succ n ih =>
    rw [Run.iterate, List.replicate_succ, List.mapM_cons, bind_assoc]
    simp only [bind_assoc, pure_bind]
    refine hitem.andThen (Scope.hasBuffer_cons hbuf hne _) fun inside v hinside => ?_
    obtain ⟨pushed, hpushed, hleave⟩ :=
      hinside.push_eq hname (Scope.push_cons_self scope name items v) rfl
    rw [hpushed]
    change Follows _ (Run.iterate _ n (Scope.leave _ pushed)) _
    rw [hleave, ← bind_pure (Run.iterate _ n _)]
    refine Mirrors.bind (ih (items ++ [v])) fun scope' more hscope' => .pure ?_
    rw [hscope', List.append_assoc]
    rfl

theorem read_get {γ : Type} {scope : Scope} (h : scope.hasBuffer = true) (m : Run γ) :
    (scope.read get >>= fun _ => m) = m := by
  rw [Scope.read, if_pos h]
  rfl

theorem run_collect {given : Option String} {item : Fresh Decode} {name : String} {low next : Nat}
    (h : (nameOr "items" given).run low = (name, next)) :
    (do
      let items ← nameOr "items" given
      let len ← fresh "len"
      return Decode.collect items len (← item) : Fresh Decode).run low
      = (.collect name (temporary "len" next) (item.run (next + 1)).1,
        (item.run (next + 1)).2) := by
  rw [StateT.run_bind, h]
  rfl

theorem reads_collect {read : Read Value} {item : Fresh Decode}
    (hitem : ∀ low, Obtains call read none low (item.run low).2 (item.run low).1) :
    Reads call (do return .list (← Read.replicate (← Read.length) read)) fun given => do
      let items ← nameOr "items" given
      let len ← fresh "len"
      return .collect items len (← item) := by
  intro given low hown
  obtain ⟨name, next, hnext, hle, hname⟩ := run_nameOr "items" given low
  have hinner := hitem (next + 1)
  rw [run_collect hnext]
  have hhigh := hinner.le
  have hnew : IsNew given low (item.run (next + 1)).2 name := by
    rcases hname with hgiven | ⟨_, rfl, rfl⟩
    · exact .inl hgiven
    · exact .inr ⟨"items", by decide, low, Nat.le_refl _, by omega, rfl⟩
  have hlen : IsNew given low (item.run (next + 1)).2 (temporary "len" next) :=
    .inr ⟨"len", by decide, next, hle, by omega, rfl⟩
  -- the vector is hidden neither by the length nor by anything inside the loop
  have hinside : ¬ IsNew none (next + 1) (item.run (next + 1)).2 name := by
    rcases hname with hgiven | ⟨_, rfl, rfl⟩
    · rintro (hnone | htemporary)
      · exact nomatch hnone
      · exact not_isTemporary_of_own (hown name hgiven) htemporary
    · exact not_isNew_temporary (by decide) (by omega)
  have hne : temporary "len" next ≠ name := by
    rintro rfl
    rcases hname with hgiven | ⟨_, heq, hnext⟩
    · have hlocal := hown _ hgiven
      rw [isRustLocal_temporary (by decide)] at hlocal
      exact nomatch hlocal
    · have := temporary_inj (by decide) (by decide) heq
      omega
  refine obtains_named (by omega) ?_ (fun _ => rfl) (fun _ _ => rfl) fun scope hbuf => ?_
  · intro g hg
    rcases hname with hgiven | ⟨hnone, _⟩
    · exact Option.some.inj (hg.symm.trans hgiven)
    · exact nomatch hg.symm.trans hnone
  · have hbuf₁ : ∀ n, Scope.hasBuffer ((temporary "len" next, .count n) :: scope) = true :=
      fun n => Scope.hasBuffer_cons hbuf (hlen.ne_buffer hown) _
    rw [Decode.prepare]
    refine Mirrors.bind (follows_read hbuf _) fun n n' hn => ?_
    subst hn
    have hcount : Scope.count?
        ((name, .value (.list [])) :: (temporary "len" next, .count n) :: scope)
        (temporary "len" next) = some n := by
      rw [Scope.count?, List.lookup_cons_of_ne hne, List.lookup_cons_self]
    have hloop := follows_iterate hinner hinside (hnew.ne_buffer hown) (hbuf₁ n) n []
    dsimp only
    rw [Scope.count?_cons_self, hcount, read_get (hbuf₁ n)]
    change Follows _ (Run.iterate _ n _) _
    rw [← bind_pure (Run.iterate _ n _)]
    refine Mirrors.bind hloop fun scope' items hscope' => .pure ?_
    rw [hscope']
    exact ⟨Scope.value?_cons_self _ _ _, .cons (.cons (.refl scope) hlen _) hnew _⟩

/-- **The statements for a type obtain what reading along the type gives.** -/
theorem reads_decode (bulkArrays : Bool) {t : Ty} {readStruct : Nat → Read Value}
    (hcall : ∀ id, t.innermost? = some id → Follows Eq (call id) (readStruct id)) :
    Reads call (t.read readStruct) (decode bulkArrays t) := by
  induction t with
  | primitive p o => exact reads_optional (reads_primitive p) o
  | struct id o => exact reads_optional (reads_struct (hcall id rfl)) o
  | array e o ih =>
    refine reads_optional ?_ o
    split
    · rename_i kind hbulk
      obtain rfl := eq_of_arrayStrategy hbulk
      exact reads_bulk kind readStruct
    · exact reads_collect fun low => ih hcall none low isOwn_none

end WireSchema.RustCode
