import WireSchema.Code.CppRoutine
import WireSchema.Proofs.Embedding
import WireSchema.Proofs.Sizes
import WireSchema.Proofs.Written

/-!
# Sums of sizes in generated code

The layouts of an analysis stop at the largest 64-bit number. Where code is generated their sizes
are added up further as machine words, which start again from zero: one byte more for a value that
may be absent, and the fields of fixed size of a struct that is not. `sizeWith` and `structSizeWith`
make the same expressions with any addition. With that of machine words they are what is generated;
with that of numbers they are what is meant. The two are **the same exactly if every sum is at most
`maxSize`**, and that is so wherever the analysis has not stopped at `maxSize` before. A tower of 21
structs of eight fields each goes past it.
-/

namespace WireSchema

/-! ## Sums of machine words -/

theorem wordAdd_eq_iff (a b : Nat) : wordAdd a b = a + b ↔ a + b ≤ maxSize := by
  unfold wordAdd maxSize
  omega

/-- What machine words add up to is off by a multiple of the number of words. -/
theorem foldl_wordAdd (ns : List Nat) (a : Nat) (ha : a ≤ maxSize) :
    ns.foldl wordAdd a = (a + ns.sum) % 2 ^ (64 : Nat) := by
  induction ns generalizing a with
  | nil =>
    rw [List.foldl_nil, List.sum_nil, Nat.add_zero]
    unfold maxSize at ha
    omega
  | cons n ns ih =>
    have hword : wordAdd a n ≤ maxSize := by
      unfold wordAdd maxSize
      omega
    rw [List.foldl_cons, ih _ hword, List.sum_cons, wordAdd, Nat.mod_add_mod, Nat.add_assoc]

theorem foldl_wordAdd_eq_sum_iff (ns : List Nat) :
    ns.foldl wordAdd 0 = ns.sum ↔ ns.sum ≤ maxSize := by
  rw [foldl_wordAdd ns 0 (Nat.zero_le _), Nat.zero_add]
  unfold maxSize
  omega

/-! ## Making two things at once -/

/-- Two things that are made use up the same numbers, and are the same exactly if `P` holds. -/
def Fresh.SameIff {α : Type} (x y : Fresh α) (P : Prop) : Prop :=
  ∀ n, (x.run n).2 = (y.run n).2 ∧ ((x.run n).1 = (y.run n).1 ↔ P)

namespace Fresh.SameIff

variable {α β : Type}

theorem pure {a b : α} {P : Prop} (h : a = b ↔ P) :
    SameIff (Pure.pure a : Fresh α) (Pure.pure b) P :=
  fun _ => ⟨rfl, h⟩

/-- What is made under a new name is put into something that shows it. -/
theorem under {stem : String} {x y : String → Fresh α} {P : Prop} {f : String → α → β}
    (hf : ∀ v a b, f v a = f v b → a = b) (h : ∀ v, SameIff (x v) (y v) P) :
    SameIff (do let v ← fresh stem; return f v (← x v)) (do let v ← fresh stem; return f v (← y v))
      P := by
  intro n
  obtain ⟨hnext, hsame⟩ := h (s!"{stem}{n}") (n + 1)
  refine ⟨hnext, Iff.trans ⟨hf _ _ _, fun heq => ?_⟩ hsame⟩
  exact congrArg (f _) heq

theorem mapM {g g' : β → Fresh α} {P : β → Prop} {xs : List β}
    (h : ∀ x ∈ xs, SameIff (g x) (g' x) (P x)) :
    SameIff (xs.mapM g) (xs.mapM g') (∀ x ∈ xs, P x) := by
  induction xs with
  | nil => exact fun n => ⟨rfl, iff_of_true rfl fun x hx => absurd hx List.not_mem_nil⟩
  | cons x xs ih =>
    intro n
    obtain ⟨hnext, hsame⟩ := h x List.mem_cons_self n
    obtain ⟨hnexts, hsames⟩ :=
      ih (fun x hx => h x (List.mem_cons_of_mem _ hx)) ((g' x).run n).2
    rw [Fresh.run_mapM_cons, Fresh.run_mapM_cons, hnext]
    refine ⟨hnexts, ?_⟩
    rw [List.cons.injEq, hsame, hsames, List.forall_mem_cons]

end Fresh.SameIff

/-- As many things are made as there are elements. -/
theorem Fresh.length_run_mapM {α β : Type} (g : β → Fresh α) (xs : List β) (n : Nat) :
    ((xs.mapM g).run n).1.length = xs.length := by
  induction xs generalizing n with
  | nil => rfl
  | cons x xs ih => rw [Fresh.run_mapM_cons, List.length_cons, ih, List.length_cons]

/-- What is so of each thing made is so of all of them. -/
theorem Fresh.forall_mem_run_mapM {α β : Type} {P : α → Prop} {g : β → Fresh α} {xs : List β}
    (h : ∀ x ∈ xs, ∀ n : Nat, P ((g x).run n).1) (n : Nat) :
    ∀ y ∈ ((xs.mapM g).run n).1, P y := by
  induction xs generalizing n with
  | nil => exact fun y hy => absurd hy List.not_mem_nil
  | cons x xs ih =>
    obtain ⟨hx, hxs⟩ := List.forall_mem_cons.mp h
    rw [Fresh.run_mapM_cons]
    exact List.forall_mem_cons.mpr ⟨hx n, ih hxs _⟩

/-! ## A constant in front of other terms -/

/-- The terms of a sum with a constant in front, unless it is zero and there are others. -/
def withConstant {α : Type} (literal : Nat → α) (constant : Nat) (terms : List α) : List α :=
  if constant > 0 || terms.isEmpty then literal constant :: terms else terms

theorem forall_mem_withConstant {α : Type} {P : α → Prop} {literal : Nat → α} {constant : Nat}
    {terms : List α} (hliteral : P (literal constant)) (h : ∀ x ∈ terms, P x) :
    ∀ x ∈ withConstant literal constant terms, P x := by
  unfold withConstant
  split
  · exact List.forall_mem_cons.mpr ⟨hliteral, h⟩
  · exact h

theorem withConstant_eq_iff {α : Type} {literal : Nat → α} (hinj : Function.Injective literal)
    {a b : Nat} {xs ys : List α} (hlen : xs.length = ys.length) :
    withConstant literal a xs = withConstant literal b ys ↔ a = b ∧ xs = ys := by
  have hempty : xs.isEmpty = ys.isEmpty := by
    cases xs <;> cases ys <;> first | rfl | cases hlen
  constructor
  · intro h
    have hlength := congrArg List.length h
    unfold withConstant at h hlength
    rw [hempty] at h hlength
    by_cases ha : (decide (a > 0) || ys.isEmpty) = true <;>
      by_cases hb : (decide (b > 0) || ys.isEmpty) = true
    · rw [if_pos ha, if_pos hb, List.cons.injEq] at h
      exact ⟨hinj h.1, h.2⟩
    · rw [if_pos ha, if_neg hb, List.length_cons] at hlength
      omega
    · rw [if_neg ha, if_pos hb, List.length_cons] at hlength
      omega
    · rw [if_neg ha, if_neg hb] at h
      simp only [Bool.or_eq_true, decide_eq_true_eq, not_or] at ha hb
      exact ⟨by omega, h⟩
  · rintro ⟨rfl, rfl⟩
    rfl

/-- The sizes of the fields of fixed size, all together. -/
def fixedTotal (layoutOf : Ty → Layout) (fields : List Field) : Nat :=
  ((fields.filter fun f => (layoutOf f.ty).isFixed).map fun f => (layoutOf f.ty).fixedSize).sum

/-- The fields of other sizes. -/
def varyingFields (layoutOf : Ty → Layout) (fields : List Field) : List Field :=
  fields.filter fun f => !(layoutOf f.ty).isFixed

namespace RustCode

open Naming (rustField)

/-- The size of a value that may be absent, with `add` for the sum. -/
def sizeOptionalWith (add : Nat → Nat → Nat) (optional : Bool) (inner : Layout) (p : Place)
    (body : Place → Fresh SizeExpr) : Fresh SizeExpr :=
  match optional, inner.isFixed with
  | false, true => return .literal inner.fixedSize
  | false, false => body p
  | true, true => return .ifSome p (.literal (add 1 inner.fixedSize)) (.literal 1)
  | true, false => do
    let v ← fresh "v"
    return .add (.literal 1) (.mapOr p v (← body (.ref v)))

/-- The size of a value of a type, with `add` for sums. -/
def sizeWith (add : Nat → Nat → Nat) (layoutOf : Ty → Layout) : Ty → Place → Fresh SizeExpr
  | .primitive prim o, p =>
    sizeOptionalWith add o (layoutOf (.primitive prim false)) p fun p =>
      return .add (.literal 2) (.length p)
  | .struct id o, p =>
    sizeOptionalWith add o (layoutOf (.struct id false)) p fun p => return .encodedLen id p
  | .array e o, p =>
    sizeOptionalWith add o (layoutOf (.array e false)) p fun p =>
      if (layoutOf e).isFixed then
        return .add (.literal 2) (.mul (.length p) (.literal (layoutOf e).fixedSize))
      else do
        let v ← fresh "v"
        return .add (.literal 2) (.sumOver p v (← sizeWith add layoutOf e (.ref v)))

/-- Brackets around the conditionals among several terms. -/
def bracketed (terms : List SizeExpr) : List SizeExpr :=
  if terms.length > 1 then terms.map SizeExpr.asTerm else terms

/-- The terms of the size of a struct, with `add` for sums. -/
def structSizeWith (add : Nat → Nat → Nat) (layoutOf : Ty → Layout) (fields : List Field) :
    Fresh (List SizeExpr) := do
  let (fixed, varying) := fields.partition fun f => (layoutOf f.ty).isFixed
  let constant := (fixed.map fun f => (layoutOf f.ty).fixedSize).foldl add 0
  let terms ← varying.mapM fun f => sizeWith add layoutOf f.ty (.field (rustField f.name))
  return bracketed (withConstant .literal constant terms)

/-- **Sizes are generated with the sums of machine words.** -/
theorem size_eq (layoutOf : Ty → Layout) (t : Ty) (p : Place) :
    size layoutOf t p = sizeWith wordAdd layoutOf t p := by
  induction t generalizing p with
  | primitive prim o => rfl
  | struct id o => rfl
  | array e o ih =>
    rw [size, sizeWith]
    simp only [ih]
    rfl

theorem structSize_eq (layoutOf : Ty → Layout) (fields : List Field) :
    structSize layoutOf fields = structSizeWith wordAdd layoutOf fields := by
  unfold structSize structSizeWith
  simp only [size_eq]
  rfl

/-! ### The sums in a size -/

/-- The sums in the size of a value that may be absent; `body` are those in one that is there. -/
def optionalSums (optional : Bool) (inner : Layout) (body : List Nat) : List Nat :=
  match optional, inner.isFixed with
  | false, true => []
  | true, true => [1 + inner.fixedSize]
  | _, false => body

/-- The sums that are made where the size of a type is generated. -/
def sizeSums (layoutOf : Ty → Layout) : Ty → List Nat
  | .primitive prim o => optionalSums o (layoutOf (.primitive prim false)) []
  | .struct id o => optionalSums o (layoutOf (.struct id false)) []
  | .array e o =>
    optionalSums o (layoutOf (.array e false))
      (if (layoutOf e).isFixed then [] else sizeSums layoutOf e)

/-- The sums that are made where the size of a struct is generated. -/
def structSums (layoutOf : Ty → Layout) (fields : List Field) : List Nat :=
  fixedTotal layoutOf fields
    :: (varyingFields layoutOf fields).flatMap fun f => sizeSums layoutOf f.ty

theorem sizeOptionalWith_sameIff {body body' : Place → Fresh SizeExpr} {sums : List Nat}
    (h : ∀ p, (body p).SameIff (body' p) (∀ n ∈ sums, n ≤ maxSize)) (o : Bool) (inner : Layout)
    (p : Place) :
    (sizeOptionalWith wordAdd o inner p body).SameIff (sizeOptionalWith (· + ·) o inner p body')
      (∀ n ∈ optionalSums o inner sums, n ≤ maxSize) := by
  unfold sizeOptionalWith optionalSums
  cases o <;> cases inner.isFixed
  case false.true =>
    exact .pure (iff_of_true rfl fun n hn => absurd hn List.not_mem_nil)
  case false.false => exact h p
  case true.true =>
    refine .pure ?_
    rw [List.forall_mem_singleton, ← wordAdd_eq_iff]
    constructor
    · intro heq
      injection heq with _ hyes
      exact SizeExpr.literal.inj hyes
    · intro heq
      rw [heq]
  case true.false =>
    refine .under (fun v a b heq => ?_) fun v => h (.ref v)
    injection heq with _ hbody
    exact (SizeExpr.mapOr.inj hbody).2.2

/-- A size is what is meant exactly if none of its sums is too large. -/
theorem sizeWith_sameIff (layoutOf : Ty → Layout) (t : Ty) (p : Place) :
    (sizeWith wordAdd layoutOf t p).SameIff (sizeWith (· + ·) layoutOf t p)
      (∀ n ∈ sizeSums layoutOf t, n ≤ maxSize) := by
  have hnone : ∀ x : Fresh SizeExpr, x.SameIff x (∀ n ∈ ([] : List Nat), n ≤ maxSize) :=
    fun x n => ⟨rfl, iff_of_true rfl fun n hn => absurd hn List.not_mem_nil⟩
  induction t generalizing p with
  | primitive prim o => exact sizeOptionalWith_sameIff (fun p => hnone _) o _ p
  | struct id o => exact sizeOptionalWith_sameIff (fun p => hnone _) o _ p
  | array e o ih =>
    refine sizeOptionalWith_sameIff (fun p => ?_) o _ p
    cases (layoutOf e).isFixed with
    | true => exact hnone _
    | false =>
      refine .under (fun v a b heq => ?_) fun v => ih (.ref v)
      injection heq with _ hbody
      exact (SizeExpr.sumOver.inj hbody).2.2

/-! ### Brackets -/

/-- An expression without brackets around it. -/
def SizeExpr.unbracketed : SizeExpr → SizeExpr
  | .paren e => e
  | e => e

theorem SizeExpr.unbracketed_asTerm {e : SizeExpr} (h : e.unbracketed = e) :
    e.asTerm.unbracketed = e := by
  cases e with
  | paren e => exact h
  | _ => rfl

theorem map_unbracketed {terms : List SizeExpr} (h : ∀ e ∈ terms, e.unbracketed = e) :
    (bracketed terms).map SizeExpr.unbracketed = terms := by
  unfold bracketed
  split
  · rw [List.map_map]
    exact (List.map_congr_left fun e he => SizeExpr.unbracketed_asTerm (h e he)).trans
      (List.map_id _)
  · exact (List.map_congr_left h).trans (List.map_id _)

/-- Brackets hide no difference. -/
theorem bracketed_eq_iff {xs ys : List SizeExpr} (hx : ∀ e ∈ xs, e.unbracketed = e)
    (hy : ∀ e ∈ ys, e.unbracketed = e) : bracketed xs = bracketed ys ↔ xs = ys := by
  constructor
  · intro h
    rw [← map_unbracketed hx, h, map_unbracketed hy]
  · rintro rfl
    rfl

theorem unbracketed_sizeWith (add : Nat → Nat → Nat) (layoutOf : Ty → Layout) (t : Ty) (p : Place)
    (n : Nat) : ((sizeWith add layoutOf t p).run n).1.unbracketed
      = ((sizeWith add layoutOf t p).run n).1 := by
  have hoptional : ∀ {body : Place → Fresh SizeExpr},
      (∀ p, ((body p).run n).1.unbracketed = ((body p).run n).1) → ∀ (o : Bool) (inner : Layout),
        ((sizeOptionalWith add o inner p body).run n).1.unbracketed
          = ((sizeOptionalWith add o inner p body).run n).1 := by
    intro body hbody o inner
    unfold sizeOptionalWith
    cases o <;> cases inner.isFixed
    case false.false => exact hbody p
    all_goals rfl
  cases t with
  | primitive prim o => exact hoptional (fun p => rfl) o _
  | struct id o => exact hoptional (fun p => rfl) o _
  | array e o =>
    refine hoptional (fun p => ?_) o _
    cases (layoutOf e).isFixed <;> rfl

/-- No brackets are around the terms of a struct, before it is known how many there are. -/
theorem unbracketed_terms (add : Nat → Nat → Nat) (layoutOf : Ty → Layout) (constant : Nat)
    (fields : List Field) (n : Nat) :
    ∀ e ∈ withConstant .literal constant ((fields.mapM fun f =>
      sizeWith add layoutOf f.ty (.field (rustField f.name))).run n).1, e.unbracketed = e := by
  refine forall_mem_withConstant rfl (Fresh.forall_mem_run_mapM (fun f _ n => ?_) n)
  exact unbracketed_sizeWith add layoutOf f.ty _ n

/-- The size of a struct is what is meant exactly if none of its sums is too large. -/
theorem structSizeWith_sameIff (layoutOf : Ty → Layout) (fields : List Field) :
    (structSizeWith wordAdd layoutOf fields).SameIff (structSizeWith (· + ·) layoutOf fields)
      (∀ n ∈ structSums layoutOf fields, n ≤ maxSize) := by
  intro n
  obtain ⟨hnext, hsame⟩ := Fresh.SameIff.mapM (fun f (_ : f ∈ varyingFields layoutOf fields) =>
    sizeWith_sameIff layoutOf f.ty (.field (rustField f.name))) n
  have hlength := Fresh.length_run_mapM (fun f : Field =>
    sizeWith wordAdd layoutOf f.ty (.field (rustField f.name))) (varyingFields layoutOf fields) n
  rw [← Fresh.length_run_mapM (fun f : Field =>
    sizeWith (· + ·) layoutOf f.ty (.field (rustField f.name))) _ n] at hlength
  unfold structSizeWith
  rw [List.partition_eq_filter_filter]
  refine ⟨hnext, ?_⟩
  refine (bracketed_eq_iff (unbracketed_terms _ _ _ _ _) (unbracketed_terms _ _ _ _ _)).trans ?_
  refine (withConstant_eq_iff (fun a b => SizeExpr.literal.inj) hlength).trans ?_
  rw [structSums, List.forall_mem_cons, hsame, List.forall_mem_flatMap, ← List.sum_eq_foldl]
  exact and_congr_left' (foldl_wordAdd_eq_sum_iff _)

end RustCode

namespace CppCode

open Naming (cppField)

/-- The terms of the size of a struct, with `add` for the sum. -/
def structSizeWith (add : Nat → Nat → Nat) (layoutOf : Ty → Layout) (base : String)
    (fields : List Field) : Fresh (List SizeExpr) := do
  let (fixed, varying) := fields.partition fun f => (layoutOf f.ty).isFixed
  let constant := (fixed.map fun f => (layoutOf f.ty).fixedSize).foldl add 0
  let terms ← varying.mapM fun f => size layoutOf f.ty (.member base (cppField f.name))
  return withConstant .literal constant terms

theorem structSize_eq (layoutOf : Ty → Layout) (base : String) (fields : List Field) :
    structSize layoutOf base fields = structSizeWith wordAdd layoutOf base fields :=
  rfl

/-- The size of a struct is what is meant exactly if its only sum is not too large. -/
theorem structSizeWith_sameIff (layoutOf : Ty → Layout) (base : String) (fields : List Field) :
    (structSizeWith wordAdd layoutOf base fields).SameIff
      (structSizeWith (· + ·) layoutOf base fields) (fixedTotal layoutOf fields ≤ maxSize) := by
  intro n
  unfold structSizeWith
  rw [List.partition_eq_filter_filter]
  refine ⟨rfl, ?_⟩
  refine (withConstant_eq_iff (fun a b => SizeExpr.literal.inj) rfl).trans ?_
  rw [and_iff_left rfl, ← List.sum_eq_foldl]
  exact foldl_wordAdd_eq_sum_iff _

end CppCode

/-! ## Sums of sizes that are exact -/

namespace Schema

variable {s : Schema} {rank : Nat → Nat} {B : Ty → Nat} {L : Nat → Layout}

section Bounds

variable (hr : s.Ranked rank) (hB : s.SizeRules B) (hL : s.IsLayout L)
include hr hB hL

theorem fixedSize_le (t : Ty) : (t.layout L).fixedSize ≤ B t := by
  rw [fixedSize_layout hL]
  split
  · rw [largest_layout hr hB hL]
    exact Nat.min_le_left _ _
  · exact Nat.zero_le _

theorem fixedTotal_le (fields : List Field) :
    fixedTotal (Ty.layout L) fields ≤ (fields.map fun f => B f.ty).sum := by
  induction fields with
  | nil => exact Nat.le_refl _
  | cons f fields ih =>
    have hf := fixedSize_le hr hB hL f.ty
    unfold fixedTotal at ih ⊢
    rw [List.filter_cons, List.map_cons, List.sum_cons]
    split
    · rw [List.map_cons, List.sum_cons]
      exact Nat.add_le_add hf ih
    · exact Nat.le_trans ih (Nat.le_add_left _ _)

/-- A sum is in the size of a value that is there, or counts the byte in front of it. -/
theorem le_of_mem_optionalSums {t : Ty} {sums : List Nat} {n : Nat}
    (hn : n ∈ RustCode.optionalSums t.optional (t.required.layout L) sums)
    (hsums : n ∈ sums → n ≤ B t.required) : n ≤ B t := by
  have hrequired := fixedSize_le hr hB hL t.required
  unfold RustCode.optionalSums at hn
  cases ho : t.optional <;> cases hf : (t.required.layout L).isFixed <;> rw [ho, hf] at hn
  case false.true => exact absurd hn List.not_mem_nil
  case true.true =>
    rw [List.mem_singleton] at hn
    rw [hB.optional t ho]
    omega
  case false.false =>
    have hsame : t.required = t := by cases t <;> cases ho <;> rfl
    rw [hsame] at hsums
    exact hsums hn
  case true.false =>
    rw [hB.optional t ho]
    exact Nat.le_succ_of_le (hsums hn)

/-- No sum in the size of a type is larger than its largest value. -/
theorem le_of_mem_sizeSums {t : Ty} {n : Nat} (hn : n ∈ RustCode.sizeSums (Ty.layout L) t) :
    n ≤ B t := by
  induction t with
  | primitive prim o =>
    exact le_of_mem_optionalSums hr hB hL hn fun h => absurd h List.not_mem_nil
  | struct id o =>
    exact le_of_mem_optionalSums hr hB hL hn fun h => absurd h List.not_mem_nil
  | array e o ih =>
    refine le_of_mem_optionalSums hr hB hL hn fun h => ?_
    split at h
    · exact absurd h List.not_mem_nil
    · have hitem := ih h
      change n ≤ B (.array e false)
      rw [hB.array]
      omega

/-- No sum in the size of a struct is larger than its largest value. -/
theorem le_of_mem_structSums {id n : Nat}
    (hn : n ∈ RustCode.structSums (Ty.layout L) (s.fieldsOf id)) : n ≤ B (.struct id false) := by
  rw [hB.struct]
  rcases List.mem_cons.mp hn with rfl | hn
  · exact fixedTotal_le hr hB hL _
  · obtain ⟨f, hf, hn⟩ := List.mem_flatMap.mp hn
    have hmem : f ∈ s.fieldsOf id := (List.mem_filter.mp hf).1
    exact Nat.le_trans (le_of_mem_sizeSums hr hB hL hn)
      (List.single_le_sum (fun _ _ => Nat.zero_le _) _ (List.mem_map.mpr ⟨f, hmem, rfl⟩))

end Bounds

end Schema

/-- The analysis of a compiled schema holds its layouts. -/
theorem Compiled.isLayout_of_compile {text : String} {c : Compiled} (hc : compile text = .ok c) :
    c.schema.IsLayout c.analysis.structLayout := by
  have hlawful := lawful_of_compile hc
  obtain ⟨rank, hr⟩ := hlawful.exists_rank
  obtain ⟨L, hL, hanalyze⟩ := hr.analyze_eq hlawful.inRange
  have hanalysis : c.analysis = c.schema.analysisWith L :=
    Except.ok.inj (hlawful.analyzed.symm.trans hanalyze)
  rw [hanalysis, funext hL.structLayout]
  exact hL

/--
**When sums of sizes are right.** In the code for any messages of a compiled schema, the size of a
struct and the capacity for a message are those that are meant exactly if no sum in them is more
than a machine word holds. None is where the largest size that the analysis gives is below the
limit.
-/
theorem size_literals_exact_iff {text : String} {c : Compiled} (hc : compile text = .ok c)
    (messages : List Message) (options : Options) :
    let sel := c.select messages options
    (∀ id, (sel.analysis.structLayout id).isFixed = false →
      let fields := sel.schema.fieldsOf id
      ((RustCode.structRoutines sel id).size
          = some (RustCode.structSizeWith (· + ·) sel.layoutOf fields).build ↔
        ∀ n ∈ RustCode.structSums sel.layoutOf fields, n ≤ maxSize) ∧
      ((CppCode.structRoutines sel id).size
          = some (CppCode.structSizeWith (· + ·) sel.layoutOf CppCode.inputVariable fields).build ↔
        fixedTotal sel.layoutOf fields ≤ maxSize) ∧
      ((sel.analysis.structLayout id).largest < maxSize →
        ∀ n ∈ RustCode.structSums sel.layoutOf fields, n ≤ maxSize)) ∧
    ∀ m : Message,
      ((RustCode.messageRoutines sel m).capacity
          = (RustCode.sizeWith (· + ·) sel.layoutOf m.ty (.ref RustCode.messageVariable)).build ↔
        ∀ n ∈ RustCode.sizeSums sel.layoutOf m.ty, n ≤ maxSize) ∧
      ((sel.layoutOf m.ty).largest < maxSize →
        ∀ n ∈ RustCode.sizeSums sel.layoutOf m.ty, n ≤ maxSize) := by
  obtain ⟨rank, hr⟩ := (Compiled.lawful_of_compile hc).exists_rank
  have hL := Compiled.isLayout_of_compile hc
  obtain ⟨B, hB⟩ := Schema.exists_sizeRules hr
  -- a size below the limit was not cut off
  have huncut : ∀ {t : Ty} {n : Nat}, (t.layout c.analysis.structLayout).largest < maxSize →
      n ≤ B t → n ≤ maxSize := by
    intro t n hlargest hn
    rw [Schema.largest_layout hr hB hL] at hlargest
    omega
  refine ⟨fun id hvarying => ⟨?_, ?_, fun hlargest n hn => ?_⟩,
    fun m => ⟨?_, fun hlargest n hn => ?_⟩⟩
  · rw [RustCode.structRoutines, if_neg (by rw [hvarying]; exact Bool.false_ne_true),
      Option.some.injEq, RustCode.structSize_eq]
    exact (RustCode.structSizeWith_sameIff _ _ 0).2
  · rw [CppCode.structRoutines, if_neg (by rw [hvarying]; exact Bool.false_ne_true),
      Option.some.injEq, CppCode.structSize_eq]
    exact (CppCode.structSizeWith_sameIff _ _ _ 0).2
  · exact huncut (t := .struct id false) hlargest (Schema.le_of_mem_structSums hr hB hL hn)
  · change (RustCode.size _ _ _).build = _ ↔ _
    rw [RustCode.size_eq]
    exact (RustCode.sizeWith_sameIff _ _ _ 0).2
  · exact huncut hlargest (Schema.le_of_mem_sizeSums hr hB hL hn)

/-- A constant for two fields, and an optional struct of one byte. -/
theorem size_literals_exact_iff_reading :
    compile readingText = .ok reading ∧
    ∀ options, let sel := reading.select readingSchema.messages options
      RustCode.structSums sel.layoutOf (readingSchema.fieldsOf 0) = [8, 2] ∧
      (RustCode.structRoutines sel 0).size
        = some (RustCode.structSizeWith (· + ·) sel.layoutOf (readingSchema.fieldsOf 0)).build := by
  have hsums : RustCode.structSums reading.analysis.layoutOf (readingSchema.fieldsOf 0)
      = [8, 2] := by decide
  have hvarying : (reading.analysis.structLayout 0).isFixed = false := by decide
  have hlargest : (reading.analysis.structLayout 0).largest < maxSize := by decide
  refine ⟨compile_readingText, fun options => ⟨hsums, ?_⟩⟩
  obtain ⟨hstructs, _⟩ := size_literals_exact_iff compile_readingText readingSchema.messages options
  obtain ⟨hrust, _, hbelow⟩ := hstructs 0 hvarying
  exact hrust.mpr (hbelow hlargest)

/-! ## A tower of structs -/

/-- Tokens at the places where they stand if there is a blank behind each of them. -/
def Token.placed (pos : Position) : List String → List Token
  | [] => [⟨"", pos⟩]
  | t :: rest => ⟨t, pos⟩ :: placed ((t.toList ++ [' ']).foldl Position.advance pos) rest

/-- **Tokens with a blank behind each of them are scanned one by one.** -/
theorem Token.scanFrom_placed {toks : List String} (h : Grammar.AreTokens toks) (pos : Position)
    (done : List Token) :
    scanFrom pos done (toks.flatMap fun t => t.toList ++ [' '])
      = .ok (done.reverse ++ placed pos toks) := by
  induction toks generalizing pos done with
  | nil => rw [List.flatMap_nil, scanFrom, List.reverse_cons, placed]
  | cons t toks ih =>
    obtain ⟨ht, htoks⟩ := List.forall_mem_cons.mp h
    have hblank : ∀ c ∈ (' ' :: toks.flatMap fun t => t.toList ++ [' ']).head?,
        Piece.isWordChar c = false := by
      intro c hc
      obtain rfl := Option.some.inj hc
      decide
    rw [List.flatMap_cons, List.append_assoc, List.singleton_append,
      scanFrom_piece (Piece.next?_token ht fun _ => hblank), if_neg (by simp),
      scanFrom_blank rfl, ih htoks, String.ofList_toList, placed, List.reverse_cons,
      List.append_assoc, List.foldl_append]
    rfl

/-- The letter of a floor. -/
def floorName (k : Nat) : String :=
  String.singleton (Char.ofNat (65 + k))

/-- What the eight fields of a floor are made of: the floor below, or numbers of eight bytes. -/
def floorTokens (k : Nat) : List String :=
  ["type", floorName k, "struct", "\x7b", "a", ",", "b", ",", "c", ",", "d", ",", "e", ",", "f",
    ",", "g", ",", "h", if k = 0 then "int64" else floorName (k - 1), "\x7d", "\n"]

def towerTokens : List String :=
  ["package", "p", "\n"] ++ (List.range 21).flatMap floorTokens ++
    ["type", "Slot", "*", "U", "\n",
      "type", "Pair", "struct", "\x7b", "p", ",", "q", "U", ";", "n", "string", "\x7d", "\n"]

/-- A tower of structs, each of which has eight times the size of the one below, under a message
that is the topmost one or absent and a struct that holds it twice. -/
def towerText : String :=
  String.ofList (towerTokens.flatMap fun t => t.toList ++ [' '])

def floorFields (k : Nat) : List Field :=
  (List.range 8).map fun i => {
    name := String.singleton (Char.ofNat (97 + i))
    pos := ⟨k + 2, 18 + 4 * i⟩
    ty := if k = 0 then .primitive (.number .int64) false else .struct (k - 1) false
    tag := none }

def towerSchema : Schema where
  package := "p"
  structs := (List.range 21).map (fun k => ⟨floorName k, ⟨k + 2, 7⟩, floorFields k⟩) ++
    [⟨"Pair", ⟨24, 7⟩, [
      ⟨"p", ⟨24, 21⟩, .struct 20 false, none⟩,
      ⟨"q", ⟨24, 25⟩, .struct 20 false, none⟩,
      ⟨"n", ⟨24, 31⟩, .primitive .string false, none⟩]⟩]
  declarations := (List.range 21).map (fun k => ⟨floorName k, ⟨k + 2, 7⟩, .struct k false⟩) ++
    [⟨"Slot", ⟨23, 7⟩, .struct 20 true⟩, ⟨"Pair", ⟨24, 7⟩, .struct 21 false⟩]
  messages := [⟨"Slot", .struct 20 true⟩, ⟨"Pair", .struct 21 false⟩]

/-- The size of a floor, as far as 64 bits go. -/
def towerLayout (k : Nat) : Layout :=
  let size := min (2 ^ (6 + 3 * k)) maxSize
  if k < 21 then ⟨true, size, size, false, false, k⟩ else ⟨false, 0, maxSize, true, false, 21⟩

def tower : Compiled :=
  ⟨towerSchema, towerSchema.analysisWith towerLayout⟩

/-- The identifiers of fields come from their names. -/
theorem StructDef.checkIdentifiers_congr (d d' : StructDef)
    (h : d.fields.map Field.name = d'.fields.map Field.name) :
    d.checkIdentifiers = d'.checkIdentifiers := by
  have hnames : ∀ fields : List Field, fields.foldlM takeField ([], [])
      = (fields.map Field.name).foldlM (fun taken name => takeField taken
        ⟨name, .start, .primitive .bool false, none⟩) ([], []) := by
    intro fields
    rw [List.foldlM_map]
    rfl
  unfold checkIdentifiers
  rw [hnames, hnames, h]

/-- What the kernel computes of the tower, all at once. -/
theorem tower_computed :
    (towerTokens.all isToken = true ∧
      Schema.ofTokens (Token.placed .start towerTokens) = .ok towerSchema) ∧
    (towerSchema.checkDeclarations = .ok () ∧ towerSchema.checkCycles = .ok () ∧
      towerSchema.checkNesting = .ok () ∧ ∀ d ∈ towerSchema.structs, d.checkFields = .ok ()) ∧
    ((∀ d ∈ towerSchema.structs, d.fields.map Field.name = ["a", "b", "c", "d", "e", "f", "g", "h"]
        ∨ d.fields.map Field.name = ["p", "q", "n"]) ∧
      (⟨"A", .start, floorFields 0⟩ : StructDef).checkIdentifiers = .ok () ∧
      (⟨"Pair", .start, towerSchema.fieldsOf 21⟩ : StructDef).checkIdentifiers = .ok ()) ∧
    (∀ d ∈ towerSchema.structs, d.fields.Pairwise fun a b =>
      Field.precedes (fun id => towerSchema.fixedStructs.getD id false) a b) ∧
    towerSchema.analyze = .ok tower.analysis := by
  decide +kernel

theorem parse_towerText : Schema.parse towerText = .ok towerSchema := by
  obtain ⟨⟨htokens, hparsed⟩, _⟩ := tower_computed
  refine Result.bind_eq_ok.mpr ⟨_, ?_, hparsed⟩
  rw [Token.scan, towerText, String.toList_ofList]
  exact Token.scanFrom_placed (List.all_eq_true.mp htokens) .start []

theorem check_towerSchema : towerSchema.check = .ok () := by
  obtain ⟨_, ⟨hdeclarations, hcycles, hnesting, hfields⟩, ⟨hnames, hfloor, hpair⟩, _⟩ :=
    tower_computed
  refine Schema.check_eq_ok.mpr
    ⟨⟨by decide, by decide⟩, hfields, hdeclarations, fun d hd => ?_, hcycles, hnesting⟩
  rcases hnames d hd with hname | hname
  · rw [StructDef.checkIdentifiers_congr d ⟨"A", .start, floorFields 0⟩ hname]
    exact hfloor
  · rw [StructDef.checkIdentifiers_congr d ⟨"Pair", .start, towerSchema.fieldsOf 21⟩ hname]
    exact hpair

theorem compile_towerText : compile towerText = .ok tower := by
  obtain ⟨_, _, _, hordered, hanalyze⟩ := tower_computed
  exact compile_of_ordered parse_towerText check_towerSchema hordered hanalyze

/-- The topmost floor has a size that was cut off, so that one byte more makes it zero and twice the
size is hardly more than once. -/
theorem size_literals_wrap :
    compile towerText = .ok tower ∧
    ∀ options, let sel := tower.select towerSchema.messages options
      (sel.layoutOf (.struct 20 false)).fixedSize = 18446744073709551615 ∧
      (RustCode.messageRoutines sel ⟨"Slot", .struct 20 true⟩).capacity.text
        = "if value.is_some() \x7b 0 \x7d else \x7b 1 \x7d" ∧
      (RustCode.structRoutines sel 21).size
        = some [.literal 18446744073709551614, .add (.literal 2) (.length (.field "n"))] ∧
      (CppCode.structRoutines sel 21).size
        = some [.literal 18446744073709551614, .string (.member "value" "n")] := by
  have hsize : (tower.analysis.layoutOf (.struct 20 false)).fixedSize = 18446744073709551615 := by
    decide
  have hcapacity :
      (RustCode.size tower.analysis.layoutOf (.struct 20 true) (.ref "value")).build.text
        = "if value.is_some() \x7b 0 \x7d else \x7b 1 \x7d" := by
    decide
  have hrust : (RustCode.structSize tower.analysis.layoutOf (towerSchema.fieldsOf 21)).build
      = [.literal 18446744073709551614, .add (.literal 2) (.length (.field "n"))] := by
    decide
  have hcpp : (CppCode.structSize tower.analysis.layoutOf "value" (towerSchema.fieldsOf 21)).build
      = [.literal 18446744073709551614, .string (.member "value" "n")] := by
    decide
  exact ⟨compile_towerText, fun options =>
    ⟨hsize, hcapacity, congrArg some hrust, congrArg some hcpp⟩⟩

end WireSchema
