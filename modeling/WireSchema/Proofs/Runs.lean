import WireSchema.Code.RustRoutine
import Mathlib.Algebra.GroupWithZero.Nat

/-!
# Segments and their fields

A decoder goes through a struct segment by segment. Put one behind the other, the segments hold **the
fields of the struct, each once and in order**, and a segment that is decoded as a block holds
**required primitives with a width** only. The second rests on how runs are found: a run that was begun
goes on only over such fields, so every index between its ends belongs to one. In the block they lie
**side by side**, each where the one before it ends.
-/

namespace WireSchema

/-- The fields of a segment. -/
def Segment.fields : Segment → List Field
  | .single f => [f]
  | .run fields => fields

/-- A required primitive that has a width. -/
def Field.IsFixed (f : Field) : Prop :=
  f.ty.fixedWidth?.isSome = true

/-- Cutting fields into segments neither loses nor moves one. -/
theorem flatMap_fields_segmentsFrom (runs : List Run) (index : Nat) (fields : List Field) :
    (segmentsFrom runs index fields).flatMap Segment.fields = fields := by
  fun_induction segmentsFrom runs index fields with
  | case1 => rfl
  | case2 index f rest r _ _ ih =>
    rw [List.flatMap_cons, ih, Segment.fields, List.take_append_drop]
  | case3 index f rest _ ih =>
    rw [List.flatMap_cons, ih]
    rfl

/-- Between the ends of a run there are fields with a width only. -/
def Run.Covers (fields : List Field) (start stop : Nat) : Prop :=
  ∀ i, start ≤ i → i < stop → ∃ f, fields[i]? = some f ∧ f.IsFixed

/-- **The step.** `begun` has come up to `index` over fields with a width. -/
theorem runsFrom_covers (all : List Field) {rest : List Field} {index : Nat} {begun : Option Nat}
    (hrest : rest = all.drop index) (hbegun : ∀ start ∈ begun, Run.Covers all start index) :
    ∀ r ∈ runsFrom index begun rest, Run.Covers all r.start r.stop := by
  induction rest generalizing index begun with
  | nil =>
    intro r hr
    unfold runsFrom at hr
    split at hr
    · rename_i start
      obtain rfl := List.mem_singleton.mp hr
      exact hbegun start rfl
    · exact absurd hr (by simp)
  | cons f rest ih =>
    have hhere : all[index]? = some f := by
      rw [← List.head?_drop, ← hrest]
      rfl
    have hnext : rest = all.drop (index + 1) := by
      rw [← List.tail_drop, ← hrest]
      rfl
    intro r hr
    unfold runsFrom at hr
    split at hr
    · -- a run begins here
      rename_i hfixed
      refine ih hnext (fun start hstart i hle hlt => ?_) r hr
      obtain rfl := Option.some.inj hstart
      have hi : i = index := by omega
      exact ⟨f, hi ▸ hhere, hfixed⟩
    · -- and here one ends
      rename_i start _
      rcases List.mem_cons.mp hr with rfl | hr
      · exact hbegun start rfl
      · exact ih hnext (fun _ hnone => absurd hnone (by simp)) r hr
    · rename_i hstart hend
      refine ih hnext (fun start hmem i hle hlt => ?_) r hr
      by_cases hi : i = index
      · cases hfixed : f.ty.fixedWidth?.isSome with
        | true => exact ⟨f, hi ▸ hhere, hfixed⟩
        | false => exact absurd hmem (hend start hfixed)
      · exact hbegun start hmem i hle (by omega)

theorem segmentsFrom_fixed {all : List Field} {runs : List Run}
    (hruns : ∀ r ∈ runs, Run.Covers all r.start r.stop) (index : Nat) (fields : List Field)
    (hfields : fields = all.drop index) :
    ∀ run, Segment.run run ∈ segmentsFrom runs index fields → ∀ f ∈ run, f.IsFixed := by
  fun_induction segmentsFrom runs index fields with
  | case1 => exact fun run hrun => absurd hrun (by simp)
  | case2 index f rest r hfind hsize ih =>
    have hstart : r.start = index := by
      have htest := List.find?_some hfind
      simp only [Bool.and_eq_true, beq_iff_eq] at htest
      exact htest.1
    have hstop : index + r.size = r.stop := by
      unfold Run.size at hsize ⊢
      omega
    intro run hrun f' hf'
    rcases List.mem_cons.mp hrun with heq | hrun
    · injection heq with heq
      subst heq
      obtain ⟨j, hj, hget⟩ := List.mem_take_iff_getElem.mp hf'
      have hall : all[index + j]? = some f' := by
        rw [← List.getElem?_drop, ← hfields,
          List.getElem?_eq_getElem (Nat.lt_of_lt_of_le hj (Nat.min_le_right _ _)), hget]
      obtain ⟨f'', hf'', hfixed⟩ :=
        hruns r (List.mem_of_find?_eq_some hfind) (index + j) (by omega) (by omega)
      rwa [Option.some.inj (hall.symm.trans hf'')]
    · refine ih ?_ run hrun f' hf'
      rw [hfields, List.drop_drop, hstop]
  | case3 index f rest hfind ih =>
    intro run hrun f' hf'
    rcases List.mem_cons.mp hrun with heq | hrun
    · exact nomatch heq
    · refine ih ?_ run hrun f' hf'
      rw [← List.tail_drop, ← hfields]
      rfl

namespace Schema

variable (s : Schema)

/-- **The segments of a struct hold its fields, in order.** -/
theorem flatMap_fields_segments (id : Nat) :
    (s.segments id).flatMap Segment.fields = s.fieldsOf id :=
  flatMap_fields_segmentsFrom _ _ _

/-- **What is decoded as a block has a width.** -/
theorem fixed_of_mem_segments {id : Nat} {run : List Field} (h : .run run ∈ s.segments id) :
    ∀ f ∈ run, f.IsFixed :=
  segmentsFrom_fixed (runsFrom_covers (s.fieldsOf id) rfl (by simp)) 0 _ rfl run h

end Schema

/-! ## Where the fields of a run are -/

/-- The width of a field that has one. -/
def Field.width (f : Field) : Nat :=
  f.ty.fixedWidth?.getD 0

/-- A field of fixed width, taken apart. -/
theorem Field.IsFixed.exists_primitive {f : Field} (h : f.IsFixed) :
    ∃ p, f.ty = .primitive p false ∧ p.width? = some f.width := by
  unfold IsFixed at h
  unfold width
  cases hty : f.ty with
  | primitive p o =>
    cases o with
    | false =>
      rw [hty] at h
      obtain ⟨width, hwidth⟩ := Option.isSome_iff_exists.mp h
      rw [Ty.fixedWidth?] at hwidth ⊢
      exact ⟨p, rfl, by rw [hwidth]; rfl⟩
    | true => rw [hty] at h; exact nomatch h
  | struct id o => rw [hty] at h; exact nomatch h
  | array e o => rw [hty] at h; exact nomatch h

/-- The kind of a number. -/
def Primitive.numeric? : Primitive → Option Numeric
  | .number kind => some kind
  | _ => none

namespace RustCode

open Naming (rustField)

theorem runFields_cons {f : Field} {p : Primitive} (hty : f.ty = .primitive p false)
    (hwidth : p.width? = some f.width) (offset : Nat) (rest : List Field) :
    runFields offset (f :: rest)
      = ⟨rustField f.name, p.numeric?, offset, f.width⟩ :: runFields (offset + f.width) rest := by
  rw [runFields, hty]
  dsimp only
  rw [hwidth, Option.getD_some]
  cases p <;> rfl

theorem size_runFields {fields : List Field} (h : ∀ f ∈ fields, f.IsFixed) (offset size : Nat) :
    (runFields offset fields).foldl (fun size f => size + f.width) size
      = size + (fields.map Field.width).sum := by
  induction fields generalizing offset size with
  | nil => rfl
  | cons f rest ih =>
    obtain ⟨p, hty, hwidth⟩ := (h f List.mem_cons_self).exists_primitive
    rw [runFields_cons hty hwidth, List.foldl_cons,
      ih fun f' hf' => h f' (List.mem_cons_of_mem _ hf'), List.map_cons, List.sum_cons,
      Nat.add_assoc]

end RustCode

end WireSchema
