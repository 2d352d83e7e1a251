import WireSchema.Proofs.Reading
import Mathlib.Algebra.BigOperators.Group.List.Basic
import Mathlib.Algebra.Group.Action.Defs
import Mathlib.Algebra.GroupWithZero.Nat

/-!
# Reading the same in another way

Two computations that read from a buffer *mirror* each other if from every place they either both
succeed, with related results and at the same place, or both fail, with related errors. The relation
passes from parts to wholes like everything else about reading. What it is for: a block of bytes can
be read at once and cut up afterwards, or part by part, and apart from the numbers in the message when
the input is too short **there is no difference**.
-/

namespace WireSchema.Wire

variable {ε ε' ε'' α β γ δ : Type}

/-- Two errors of one kind, whatever place they name. -/
inductive WireError.SameKind : WireError → WireError → Prop where
  | truncated {offset needed remaining offset' needed' remaining' : Nat} :
      SameKind (.truncated offset needed remaining) (.truncated offset' needed' remaining')
  | capacity {kind kind' : LengthKind} {n n' : Nat} : SameKind (.capacity kind n) (.capacity kind' n')
  | invalidUtf8 {offset offset' : Nat} : SameKind (.invalidUtf8 offset) (.invalidUtf8 offset')

namespace WireError.SameKind

theorem refl (e : WireError) : SameKind e e := by
  cases e with
  | truncated => exact .truncated
  | capacity => exact .capacity
  | invalidUtf8 => exact .invalidUtf8

theorem trans {a b c : WireError} (h : SameKind a b) (h' : SameKind b c) : SameKind a c := by
  cases h with
  | truncated => cases h'; exact .truncated
  | capacity => cases h'; exact .capacity
  | invalidUtf8 => cases h'; exact .invalidUtf8

theorem symm {a b : WireError} (h : SameKind a b) : SameKind b a := by
  cases h with
  | truncated => exact .truncated
  | capacity => exact .capacity
  | invalidUtf8 => exact .invalidUtf8

end WireError.SameKind

/-! ## Computations that mirror each other -/

/-- Two ways in which a computation can end. -/
inductive Agree (E : ε → ε' → Prop) (R : α → β → Prop) :
    EStateM.Result ε Reader α → EStateM.Result ε' Reader β → Prop where
  | ok {a : α} {b : β} (r : Reader) : R a b → Agree E R (.ok a r) (.ok b r)
  | error {e : ε} {e' : ε'} (r r' : Reader) : E e e' → Agree E R (.error e r) (.error e' r')

/-- From every place, two computations end in the same way. -/
def Mirrors (E : ε → ε' → Prop) (R : α → β → Prop) (m : EStateM ε Reader α)
    (m' : EStateM ε' Reader β) : Prop :=
  ∀ r, Agree E R (m r) (m' r)

namespace Mirrors

variable {E : ε → ε' → Prop} {R : α → β → Prop} {S : γ → δ → Prop} {m : EStateM ε Reader α}
  {m' : EStateM ε' Reader β}

theorem pure {a : α} {b : β} (h : R a b) : Mirrors E R (pure a) (pure b) :=
  fun r => .ok r h

theorem bind (h : Mirrors E R m m') {f : α → EStateM ε Reader γ} {f' : β → EStateM ε' Reader δ}
    (hf : ∀ a b, R a b → Mirrors E S (f a) (f' b)) : Mirrors E S (m >>= f) (m' >>= f') := by
  intro r
  have hr := h r
  change Agree E S (EStateM.bind m f r) (EStateM.bind m' f' r)
  unfold EStateM.bind
  generalize m r = x at hr
  generalize m' r = x' at hr
  cases hr with
  | ok r' hab => exact hf _ _ hab r'
  | error r₁ r₂ he => exact .error r₁ r₂ he

theorem trans {F : ε' → ε'' → Prop} {G : ε → ε'' → Prop} {m'' : EStateM ε'' Reader β}
    (h : Mirrors E R m m') (h' : Mirrors F Eq m' m'')
    (hG : ∀ e e' e'', E e e' → F e' e'' → G e e'') : Mirrors G R m m'' := by
  intro r
  have hr := h r
  have hr' := h' r
  generalize m r = x at hr
  generalize m' r = x' at hr hr'
  generalize m'' r = x'' at hr'
  cases hr with
  | ok r' hab =>
    cases hr' with
    | ok _ heq => exact .ok r' (heq ▸ hab)
  | error r₁ r₂ he =>
    cases hr' with
    | error _ r₃ he' => exact .error r₁ r₃ (hG _ _ _ he he')

end Mirrors

namespace Read

/-- Two ways to read the same. -/
abbrev Alike (m m' : Read α) : Prop :=
  Mirrors WireError.SameKind Eq m m'

theorem Alike.refl (m : Read α) : Alike m m := by
  intro r
  cases m r with
  | ok a r' => exact .ok r' rfl
  | error e r' => exact .error r' r' (.refl e)

theorem Alike.symm {m m' : Read α} (h : Alike m m') : Alike m' m := by
  intro r
  have hr := h r
  generalize m r = x at hr
  generalize m' r = x' at hr
  cases hr with
  | ok r' hab => exact .ok r' hab.symm
  | error r₁ r₂ he => exact .error r₂ r₁ he.symm

theorem Alike.trans {m m' m'' : Read α} (h : Alike m m') (h' : Alike m' m'') : Alike m m'' :=
  Mirrors.trans h h' fun _ _ _ => WireError.SameKind.trans

theorem Alike.bind {m m' : Read α} (h : Alike m m') {f f' : α → Read β}
    (hf : ∀ a, Alike (f a) (f' a)) : Alike (m >>= f) (m' >>= f') :=
  Mirrors.bind h fun a _ hab => hab ▸ hf a

/-! ## Blocks -/

theorem bytes_of_le {n : Nat} {r : Reader} (h : n ≤ r.rest.length) :
    bytes n r = .ok (r.rest.take n) (r.advance n) := by
  unfold bytes
  dsimp only
  rw [if_neg]
  rw [List.length_take]
  omega

theorem bytes_of_lt {n : Nat} {r : Reader} (h : r.rest.length < n) :
    bytes n r = .error (.truncated r.offset n r.remaining) r := by
  unfold bytes
  dsimp only
  rw [if_pos]
  rw [List.length_take]
  omega

/-- **Bytes at once are bytes in two parts.** -/
theorem alike_bytes_add (a b : Nat) {f : List UInt8 → List UInt8 → α} {g : List UInt8 → α}
    (h : ∀ block, f (block.take a) (block.drop a) = g block) :
    Alike (do let first ← bytes a; let second ← bytes b; return f first second)
      (do return g (← bytes (a + b))) := by
  intro r
  rw [bind_eq, bind_eq]
  by_cases hall : a + b ≤ r.rest.length
  · have hsecond : b ≤ (r.advance a).rest.length := by
      rw [Reader.advance, List.length_drop]
      omega
    have hfirst : (r.rest.take (a + b)).take a = r.rest.take a := by
      rw [List.take_take, Nat.min_eq_left (Nat.le_add_right a b)]
    have hrest : (r.rest.take (a + b)).drop a = (r.advance a).rest.take b := by
      rw [List.drop_take, Nat.add_sub_cancel_left]
      rfl
    have hreader : (r.advance a).advance b = r.advance (a + b) := by
      simp only [Reader.advance, List.drop_drop, Nat.add_assoc]
    rw [bytes_of_le hall, bytes_of_le (Nat.le_trans (Nat.le_add_right a b) hall)]
    dsimp only
    rw [bind_eq, bytes_of_le hsecond, hreader]
    refine .ok _ ?_
    rw [← h, hfirst, hrest]
  · -- whichever part is missing, bytes have run out
    rw [bytes_of_lt (Nat.lt_of_not_le hall)]
    by_cases hfirst : a ≤ r.rest.length
    · have hsecond : (r.advance a).rest.length < b := by
        rw [Reader.advance, List.length_drop]
        omega
      rw [bytes_of_le hfirst]
      dsimp only
      rw [bind_eq, bytes_of_lt hsecond]
      exact .error _ _ .truncated
    · rw [bytes_of_lt (Nat.lt_of_not_le hfirst)]
      exact .error _ _ .truncated

/-- What is in a block, part after part. -/
def carve (width : α → Nat) (value : α → List UInt8 → β) : List α → List UInt8 → List β
  | [], _ => []
  | x :: xs, block =>
    value x (block.take (width x)) :: carve width value xs (block.drop (width x))

/-- **Parts one after the other are a block that is cut up.** -/
theorem alike_carve (width : α → Nat) (value : α → List UInt8 → β) (xs : List α) :
    Alike (xs.mapM fun x => do return value x (← bytes (width x)))
      (do return carve width value xs (← bytes (xs.map width).sum)) := by
  induction xs with
  | nil =>
    intro r
    rw [List.map_nil, List.sum_nil, bind_eq, bytes_of_le (Nat.zero_le _)]
    exact .ok r rfl
  | cons x xs ih =>
    have hsplit := alike_bytes_add (width x) (xs.map width).sum
      (f := fun first second => value x first :: carve width value xs second)
      (g := carve width value (x :: xs)) fun _ => rfl
    rw [List.map_cons, List.sum_cons, List.mapM_cons]
    refine Alike.trans ?_ hsplit
    simp only [bind_assoc, pure_bind]
    refine (Alike.refl _).bind fun first => ?_
    have hrest := ih.bind fun ys => Alike.refl (Pure.pure (value x first :: ys))
    simpa only [bind_assoc, pure_bind] using hrest

theorem splitScalars_eq (kind : Numeric) (n : Nat) (block : List UInt8) (done : List Scalar) :
    splitScalars kind n block done = done.reverse
      ++ carve (fun _ => kind.width) (fun _ => Scalar.decode kind) (List.replicate n ()) block := by
  induction n generalizing block done with
  | zero => rw [splitScalars, List.replicate_zero, carve, List.append_nil]
  | succ n ih =>
    rw [splitScalars, ih, List.replicate_succ, carve, List.reverse_cons, List.append_assoc]
    rfl

/-- **An array of numbers can be read number by number.** -/
theorem alike_scalars (kind : Numeric) :
    Alike (scalars kind) (do replicate (← length) (scalar kind)) := by
  refine (Alike.refl length).bind fun n => ?_
  have hcarve := alike_carve (fun _ : Unit => kind.width) (fun _ => Scalar.decode kind)
    (List.replicate n ())
  have hsize : ((List.replicate n ()).map fun _ => kind.width).sum = n * kind.width := by
    rw [List.map_replicate, List.sum_replicate, smul_eq_mul]
  rw [hsize] at hcarve
  simp only [splitScalars_eq, List.reverse_nil, List.nil_append, replicate_eq]
  exact hcarve.symm

theorem map_mapM (f : β → γ) (g : α → Read β) (xs : List α) :
    (xs.mapM fun x => do return f (← g x)) = do return (← xs.mapM g).map f := by
  induction xs with
  | nil => simp
  | cons x xs ih =>
    rw [List.mapM_cons, List.mapM_cons, ih]
    simp

theorem byte_eq : byte = do return (← bytes 1).headD 0 := by
  funext r
  rw [bind_eq]
  cases hrest : r.rest with
  | nil =>
    rw [bytes_of_lt (by rw [hrest]; exact Nat.zero_lt_one), byte, hrest, Reader.remaining, hrest]
    rfl
  | cons b rest =>
    rw [bytes_of_le (by rw [hrest]; exact Nat.succ_le_succ (Nat.zero_le _)), byte, hrest,
      Reader.advance, hrest]
    rfl

end Read

end WireSchema.Wire
