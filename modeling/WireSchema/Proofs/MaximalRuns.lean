import WireSchema.Proofs.Runs
import Mathlib.Data.List.Pairwise

/-!
# Runs are maximal and a decoder visits each field once

The scan for runs carries the place where the current run began. Behind that place it finds **exactly
the fields with a width**, in runs of which no two touch; so none of them could be longer.

A decoder follows the runs with an index of its own, and jumps from the start of a run to its end if
the run has more than one field. It never comes to lie inside of a run it has not begun at the start,
because runs do not touch. The ranges it goes through lie **side by side from the first field to
behind the last**, and so do the fields inside of a block, from its first byte to behind its last.
-/

namespace WireSchema

/-! ## Ranges -/

namespace Run

/-- The index lies in the range. -/
def Holds (r : Run) (i : Nat) : Prop :=
  r.start ≤ i ∧ i < r.stop

/-- The indices of a range, in order. -/
def indices (r : Run) : List Nat :=
  List.range' r.start r.size

/-- Ranges that are not empty, each where the one before it ends, from `first` up to `last`. -/
def SideBySide : Nat → List Run → Nat → Prop
  | first, [], last => first = last
  | first, r :: rest, last => r.start = first ∧ r.start < r.stop ∧ SideBySide r.stop rest last

theorem SideBySide.le {first last : Nat} {rs : List Run} (h : SideBySide first rs last) :
    first ≤ last := by
  induction rs generalizing first with
  | nil => exact Nat.le_of_eq h
  | cons r rest ih =>
    obtain ⟨rfl, hlt, hrest⟩ := h
    exact Nat.le_trans (Nat.le_of_lt hlt) (ih hrest)

/-- **Every index comes once, and in order.** -/
theorem SideBySide.indices {first last : Nat} {rs : List Run} (h : SideBySide first rs last) :
    rs.flatMap Run.indices = List.range' first (last - first) := by
  induction rs generalizing first with
  | nil =>
    obtain rfl : first = last := h
    rw [Nat.sub_self]
    rfl
  | cons r rest ih =>
    obtain ⟨rfl, hlt, hrest⟩ := h
    have hle := hrest.le
    have hstop : r.stop = r.start + r.size := by
      unfold size
      omega
    have hsize : last - r.start = r.size + (last - r.stop) := by
      unfold size
      omega
    rw [List.flatMap_cons, ih hrest, hsize, ← List.range'_append_1, ← hstop]
    rfl

end Run

/-! ## The scan for runs -/

/-- The field at an index is a required primitive that has a width. -/
def IsFixedAt (fields : List Field) (i : Nat) : Prop :=
  ∃ f, fields[i]? = some f ∧ f.IsFixed

theorem not_isFixedAt_of_le {fields : List Field} {i : Nat} (h : fields.length ≤ i) :
    ¬ IsFixedAt fields i := by
  rintro ⟨f, hf, _⟩
  rw [List.getElem?_eq_none h] at hf
  exact nomatch hf

/-- Runs that hold exactly the fields with a width from `low` on, and of which no two touch. -/
structure Run.FoundFrom (fields : List Field) (low : Nat) (runs : List Run) : Prop where
  nonempty : ∀ r ∈ runs, low ≤ r.start ∧ r.start < r.stop
  separated : runs.Pairwise fun r r' => r.stop < r'.start
  exact : ∀ i, low ≤ i → ((∃ r ∈ runs, r.Holds i) ↔ IsFixedAt fields i)

namespace Run.FoundFrom

variable {fields : List Field} {low : Nat} {runs : List Run}

/-- Behind the last field there is nothing to be found. -/
theorem nil (h : fields.length ≤ low) : FoundFrom fields low [] where
  nonempty := fun _ hr => absurd hr List.not_mem_nil
  separated := .nil
  exact := fun _ hi => iff_of_false (fun ⟨_, hr, _⟩ => absurd hr List.not_mem_nil)
    (not_isFixedAt_of_le (Nat.le_trans h hi))

/-- A field without a width is passed. -/
theorem pass (h : FoundFrom fields (low + 1) runs) (hlow : ¬ IsFixedAt fields low) :
    FoundFrom fields low runs where
  nonempty := fun r hr => ⟨Nat.le_of_succ_le (h.nonempty r hr).1, (h.nonempty r hr).2⟩
  separated := h.separated
  exact := by
    intro i hi
    rcases Nat.eq_or_lt_of_le hi with rfl | hlt
    · refine iff_of_false ?_ hlow
      rintro ⟨r, hr, hstart, _⟩
      have := (h.nonempty r hr).1
      omega
    · exact h.exact i hlt

/-- A run that ends in front of a field without a width, or behind the last field, is put in front. -/
theorem cons {start stop : Nat} (h : FoundFrom fields (stop + 1) runs) (hlt : start < stop)
    (hcovers : Covers fields start stop) (hstop : ¬ IsFixedAt fields stop) :
    FoundFrom fields start (⟨start, stop⟩ :: runs) where
  nonempty := by
    refine List.forall_mem_cons.mpr ⟨⟨Nat.le_refl _, hlt⟩, fun r hr => ?_⟩
    have := h.nonempty r hr
    omega
  separated := List.pairwise_cons.mpr ⟨fun r hr => (h.nonempty r hr).1, h.separated⟩
  exact := by
    intro i hi
    by_cases hin : i < stop
    · exact iff_of_true ⟨_, List.mem_cons_self, hi, hin⟩ (hcovers i hi hin)
    · have hrest := (h.pass hstop).exact i (Nat.le_of_not_lt hin)
      rw [← hrest]
      constructor
      · rintro ⟨r, hr, hholds⟩
        rcases List.mem_cons.mp hr with rfl | hr
        · exact absurd hholds.2 hin
        · exact ⟨r, hr, hholds⟩
      · rintro ⟨r, hr, hholds⟩
        exact ⟨r, List.mem_cons_of_mem _ hr, hholds⟩

variable (h : FoundFrom fields low runs)
include h

/-- Runs that reach up to the same index are the same run. -/
theorem eq_of_touch {r r' : Run} (hr : r ∈ runs) (hr' : r' ∈ runs) {i : Nat}
    (hi : r.start ≤ i ∧ i ≤ r.stop) (hi' : r'.start ≤ i ∧ i ≤ r'.stop) : r = r' := by
  by_contra hne
  have : Std.Symm fun a b : Run => a.stop < b.start ∨ b.stop < a.start := ⟨fun _ _ => Or.symm⟩
  have hpairs : runs.Pairwise fun a b => a.stop < b.start ∨ b.stop < a.start :=
    h.separated.imp Or.inl
  have hapart := hpairs.forall hr hr' hne
  omega

/-- **A run could not be longer**: on neither side of it there is a field with a width. -/
theorem maximal {r : Run} (hr : r ∈ runs) :
    (∀ i, low ≤ i → i + 1 = r.start → ¬ IsFixedAt fields i) ∧ ¬ IsFixedAt fields r.stop := by
  obtain ⟨hlow, hlt⟩ := h.nonempty r hr
  constructor
  · intro i hi hnext hfixed
    obtain ⟨r', hr', hholds⟩ := (h.exact i hi).mpr hfixed
    have hends : i < r'.stop := hholds.2
    have hstarts : r'.start ≤ i := hholds.1
    obtain rfl := h.eq_of_touch hr hr' (i := i + 1) (by omega) (by omega)
    omega
  · intro hfixed
    obtain ⟨r', hr', hholds⟩ := (h.exact r.stop (by omega)).mpr hfixed
    obtain rfl := h.eq_of_touch hr hr' ⟨Nat.le_of_lt hlt, Nat.le_refl _⟩
      ⟨hholds.1, Nat.le_of_lt hholds.2⟩
    exact Nat.lt_irrefl _ hholds.2

theorem stop_le_length {r : Run} (hr : r ∈ runs) : r.stop ≤ fields.length := by
  obtain ⟨hlow, hlt⟩ := h.nonempty r hr
  refine Nat.le_of_not_lt fun hbehind => ?_
  have hfixed : IsFixedAt fields (r.stop - 1) :=
    (h.exact (r.stop - 1) (by omega)).mp ⟨r, hr, by omega, by omega⟩
  exact not_isFixedAt_of_le (by omega) hfixed

end Run.FoundFrom

/-- **The step.** The scan has come to `index`, and if a run has begun it holds everything since. -/
theorem foundFrom_runsFrom (all : List Field) {rest : List Field} (index : Nat)
    (begun : Option Nat) (hrest : rest = all.drop index)
    (hbegun : ∀ start ∈ begun, start < index ∧ Run.Covers all start index) :
    Run.FoundFrom all (begun.getD index) (runsFrom index begun rest) := by
  induction rest generalizing index begun with
  | nil =>
    have hend : all.length ≤ index := List.drop_eq_nil_iff.mp hrest.symm
    cases begun with
    | none => exact .nil hend
    | some start =>
      obtain ⟨hlt, hcovers⟩ := hbegun start rfl
      exact .cons (.nil (Nat.le_succ_of_le hend)) hlt hcovers (not_isFixedAt_of_le hend)
  | cons f rest ih =>
    have hhere : all[index]? = some f := by
      rw [← List.head?_drop, ← hrest]
      rfl
    have hnext : rest = all.drop (index + 1) := by
      rw [← List.tail_drop, ← hrest]
      rfl
    cases hfixed : f.ty.fixedWidth?.isSome with
    | true =>
      have hcover : ∀ start, (∀ i, start ≤ i → i < index → IsFixedAt all i) →
          Run.Covers all start (index + 1) := by
        intro start hbefore i hle hlt
        rcases Nat.eq_or_lt_of_le (Nat.le_of_lt_succ hlt) with rfl | hlt
        · exact ⟨f, hhere, hfixed⟩
        · exact hbefore i hle hlt
      cases begun with
      | none =>
        have hfound : Run.FoundFrom all index (runsFrom (index + 1) (some index) rest) := by
          refine ih (index + 1) (some index) hnext fun start hstart => ?_
          obtain rfl := Option.some.inj hstart
          exact ⟨Nat.lt_succ_self _, hcover _ fun i hle hlt => absurd hlt (Nat.not_lt_of_le hle)⟩
        unfold runsFrom
        rwa [hfixed]
      | some start =>
        obtain ⟨hlt, hcovers⟩ := hbegun start rfl
        have hfound : Run.FoundFrom all start (runsFrom (index + 1) (some start) rest) := by
          refine ih (index + 1) (some start) hnext fun start' hstart => ?_
          obtain rfl := Option.some.inj hstart
          exact ⟨Nat.lt_succ_of_lt hlt, hcover _ hcovers⟩
        unfold runsFrom
        rwa [hfixed]
    | false =>
      have hgap : ¬ IsFixedAt all index := by
        rintro ⟨f', hf', hfixed'⟩
        obtain rfl := Option.some.inj (hhere.symm.trans hf')
        exact absurd (hfixed'.symm.trans hfixed) (by simp)
      have hfound : Run.FoundFrom all (index + 1) (runsFrom (index + 1) none rest) :=
        ih (index + 1) none hnext (by simp)
      unfold runsFrom
      cases begun with
      | none =>
        rw [hfixed]
        exact hfound.pass hgap
      | some start =>
        obtain ⟨hlt, hcovers⟩ := hbegun start rfl
        rw [hfixed]
        exact hfound.cons hlt hcovers hgap

/-- The runs of a struct are all there are. -/
theorem Schema.foundFrom_runs (s : Schema) (id : Nat) :
    Run.FoundFrom (s.fieldsOf id) 0 (s.runs id) :=
  foundFrom_runsFrom (s.fieldsOf id) 0 none rfl (by simp)

/-! ## The ranges a decoder goes through -/

/-- The fields of a range. -/
def Run.slice (r : Run) (fields : List Field) : List Field :=
  (fields.drop r.start).take r.size

/-- What is decoded for the fields of a range. -/
inductive Segment.Holds (fields : List Field) (runs : List Run) : Run → Segment → Prop where
  /-- A field that no run holds together with another. -/
  | single {i : Nat} {f : Field} :
      fields[i]? = some f → (∀ r ∈ runs, r.Holds i → r = ⟨i, i + 1⟩) →
      Holds fields runs ⟨i, i + 1⟩ (.single f)
  | run {r : Run} : r ∈ runs → 1 < r.size → Holds fields runs r (.run (r.slice fields))

/-- **The step.** No run that holds `index` has begun before it. -/
theorem sideBySide_segmentsFrom {all : List Field} {runs : List Run}
    (hfound : Run.FoundFrom all 0 runs) (index : Nat) (fields : List Field)
    (hfields : fields = all.drop index) (hle : index ≤ all.length)
    (hborder : ∀ r ∈ runs, r.Holds index → r.start = index) :
    ∃ ranges, Run.SideBySide index ranges all.length ∧
      List.Forall₂ (Segment.Holds all runs) ranges (segmentsFrom runs index fields) := by
  fun_induction segmentsFrom runs index fields with
  | case1 index =>
    have hend : all.length ≤ index := List.drop_eq_nil_iff.mp hfields.symm
    exact ⟨[], Nat.le_antisymm hle hend, .nil⟩
  | case2 index f rest r hfind hsize ih =>
    have hmem := List.mem_of_find?_eq_some hfind
    obtain rfl : r.start = index := by
      have htest := List.find?_some hfind
      simp only [Bool.and_eq_true, beq_iff_eq] at htest
      exact htest.1
    obtain ⟨_, hlt⟩ := hfound.nonempty r hmem
    have hstop : r.start + r.size = r.stop := by
      unfold Run.size
      omega
    -- runs do not touch, so none begins where this one ends
    have hborder' : ∀ r' ∈ runs, r'.Holds r.stop → r'.start = r.stop := by
      intro r' hr' hholds
      obtain rfl := hfound.eq_of_touch hmem hr' ⟨Nat.le_of_lt hlt, Nat.le_refl _⟩
        ⟨hholds.1, Nat.le_of_lt hholds.2⟩
      exact absurd hholds.2 (Nat.lt_irrefl _)
    obtain ⟨ranges, hside, hall⟩ :=
      ih (by rw [hfields, List.drop_drop, hstop]) (hfound.stop_le_length hmem) hborder'
    refine ⟨r :: ranges, ⟨rfl, hlt, hside⟩, .cons ?_ hall⟩
    rw [hfields]
    exact .run hmem hsize
  | case3 index f rest hfind ih =>
    have hhere : all[index]? = some f := by
      rw [← List.head?_drop, ← hfields]
      rfl
    have hshort : ∀ r ∈ runs, r.Holds index → r = ⟨index, index + 1⟩ := by
      intro r hr hholds
      obtain rfl := hborder r hr hholds
      have hnot := List.find?_eq_none.mp hfind r hr
      simp only [Bool.and_eq_true, beq_self_eq_true, true_and, decide_eq_true_eq] at hnot
      have hlt := hholds.2
      have hstop : r.stop = r.start + 1 := by
        unfold Run.size at hnot
        omega
      rw [← hstop]
    obtain ⟨hlt, _⟩ := List.getElem?_eq_some_iff.mp hhere
    obtain ⟨ranges, hside, hall⟩ := ih
      (by rw [← List.tail_drop, ← hfields]; rfl) hlt fun r hr hholds => by
        -- a run that began before would hold the field just passed together with this one
        refine Nat.le_antisymm hholds.1 (Nat.lt_of_not_le fun hbefore => ?_)
        have heq := hshort r hr ⟨hbefore, Nat.lt_of_succ_lt hholds.2⟩
        exact Nat.lt_irrefl _ (heq ▸ hholds.2)
    exact ⟨⟨index, index + 1⟩ :: ranges, ⟨rfl, Nat.lt_succ_self _, hside⟩,
      .cons (.single hhere hshort) hall⟩

theorem Schema.sideBySide_segments (s : Schema) (id : Nat) :
    ∃ ranges, Run.SideBySide 0 ranges (s.fieldsOf id).length ∧
      List.Forall₂ (Segment.Holds (s.fieldsOf id) (s.runs id)) ranges (s.segments id) :=
  sideBySide_segmentsFrom (s.foundFrom_runs id) 0 _ rfl (Nat.zero_le _)
    fun _ _ hholds => Nat.le_zero.mp hholds.1

theorem Primitive.width?_pos {p : Primitive} {width : Nat} (h : p.width? = some width) :
    0 < width := by
  cases p with
  | bool => cases h; decide
  | number kind => cases h; cases kind <;> decide
  | string => exact nomatch h

namespace RustCode

open Naming (rustField)

/-! ## The steps of a decoder -/

/-- The bytes of a field in its block. -/
def RunField.slice (part : RunField) : Run :=
  ⟨part.offset, part.offset + part.width⟩

/-- A field and the part of a block that is read for it. -/
structure IsPart (f : Field) (part : RunField) : Prop where
  name : part.name = rustField f.name
  /-- It is as wide as the field's primitive. -/
  primitive : ∃ p, f.ty = .primitive p false ∧ part.kind = p.numeric? ∧ p.width? = some part.width

/-- What a step of a decoder does about the fields of a range. -/
inductive Visits (bulkArrays : Bool) (fields : List Field) (runs : List Run) :
    Run → DecodeStep → Prop where
  /-- A field that no run holds together with another is decoded by itself. -/
  | single {i next : Nat} {f : Field} :
      fields[i]? = some f → (∀ r ∈ runs, r.Holds i → r = ⟨i, i + 1⟩) →
      Visits bulkArrays fields runs ⟨i, i + 1⟩
        (.value (rustField f.name)
          ((decode bulkArrays f.ty (some (rustField f.name))).run next).1)
  /-- The fields of a run lie side by side in a block, from its first byte up to its end. -/
  | block {r : Run} {name : String} {size : Nat} {parts : List RunField} :
      r ∈ runs → 1 < r.size → List.Forall₂ IsPart (r.slice fields) parts →
      Run.SideBySide 0 (parts.map RunField.slice) size →
      Visits bulkArrays fields runs r (.run name size parts)

theorem forall₂_runFields {fields : List Field} (h : ∀ f ∈ fields, f.IsFixed) (offset : Nat) :
    List.Forall₂ IsPart fields (runFields offset fields) := by
  induction fields generalizing offset with
  | nil => exact .nil
  | cons f rest ih =>
    obtain ⟨hf, hrest⟩ := List.forall_mem_cons.mp h
    obtain ⟨p, hty, hwidth⟩ := hf.exists_primitive
    rw [runFields_cons hty hwidth]
    exact .cons ⟨rfl, p, hty, rfl, hwidth⟩ (ih hrest _)

theorem sideBySide_runFields {fields : List Field} (h : ∀ f ∈ fields, f.IsFixed) (offset : Nat) :
    Run.SideBySide offset ((runFields offset fields).map RunField.slice)
      (offset + (fields.map Field.width).sum) := by
  induction fields generalizing offset with
  | nil => rfl
  | cons f rest ih =>
    obtain ⟨hf, hrest⟩ := List.forall_mem_cons.mp h
    obtain ⟨p, hty, hwidth⟩ := hf.exists_primitive
    have hpos := Primitive.width?_pos hwidth
    rw [runFields_cons hty hwidth, List.map_cons, List.map_cons, List.sum_cons, ← Nat.add_assoc]
    exact ⟨rfl, Nat.lt_add_of_pos_right hpos, ih hrest _⟩

/-- A segment is decoded by one step, which visits what the segment holds. -/
theorem visits_decodeSegment {bulkArrays : Bool} {fields : List Field} {runs : List Run} {r : Run}
    {segment : Segment} (h : segment.Holds fields runs r)
    (hfixed : ∀ run, segment = .run run → ∀ f ∈ run, f.IsFixed) (next : Nat) :
    Visits bulkArrays fields runs r ((decodeSegment bulkArrays segment).run next).1 := by
  cases h with
  | single hf hshort => exact .single hf hshort
  | run hr hsize =>
    have hall := hfixed _ rfl
    refine .block hr hsize (forall₂_runFields hall 0) ?_
    rw [size_runFields hall]
    exact sideBySide_runFields hall 0

theorem visits_mapM {bulkArrays : Bool} {fields : List Field} {runs : List Run} {ranges : List Run}
    {segments : List Segment} (h : List.Forall₂ (Segment.Holds fields runs) ranges segments)
    (hfixed : ∀ run, .run run ∈ segments → ∀ f ∈ run, f.IsFixed) (next : Nat) :
    List.Forall₂ (Visits bulkArrays fields runs) ranges
      ((segments.mapM (decodeSegment bulkArrays)).run next).1 := by
  induction h generalizing next with
  | nil => exact .nil
  | cons hfirst _ ih =>
    rw [Fresh.run_mapM_cons]
    refine .cons (visits_decodeSegment hfirst (fun run heq => ?_) next) (ih (fun run hrun => ?_) _)
    · exact hfixed run (heq ▸ List.mem_cons_self)
    · exact hfixed run (List.mem_cons_of_mem _ hrun)

end RustCode

open RustCode

/--
**Runs are maximal, and a decoder visits each field once.** Whatever the fields of a struct: its runs
are not empty, each begins behind a gap after the one before it, they hold exactly the required
primitives that have a width, and none of them could be longer. The steps of its decoder go through
ranges of indices that are, put one behind the other, all indices in order. A range is a single field,
or a run of several, whose fields lie side by side in the block of bytes that is read for the run, each
as wide as its primitive, from the first byte to the last.
-/
theorem decoder_visits_each_field_once (sel : Selection) {id : Nat} {d : StructDef}
    (hd : sel.schema.structs[id]? = some d) :
    let runs := sel.schema.runs id
    (∀ r ∈ runs, r.start < r.stop)
      ∧ runs.Pairwise (fun r r' => r.stop < r'.start)
      ∧ (∀ i, (∃ r ∈ runs, r.Holds i) ↔ IsFixedAt d.fields i)
      ∧ (∀ r ∈ runs, (∀ i, i + 1 = r.start → ¬ IsFixedAt d.fields i) ∧ ¬ IsFixedAt d.fields r.stop)
      ∧ ∃ ranges, ranges.flatMap Run.indices = List.range d.fields.length
          ∧ List.Forall₂ (Visits sel.options.bulkArrays d.fields runs) ranges
              (structRoutines sel id).decode := by
  have hfields : sel.schema.fieldsOf id = d.fields := by
    rw [Schema.fieldsOf, hd]
  have hfound := sel.schema.foundFrom_runs id
  obtain ⟨ranges, hside, hholds⟩ := sel.schema.sideBySide_segments id
  rw [hfields] at hfound hside hholds
  refine ⟨fun r hr => (hfound.nonempty r hr).2, hfound.separated,
    fun i => hfound.exact i (Nat.zero_le i), fun r hr => ?_, ranges, ?_, ?_⟩
  · obtain ⟨hbefore, hbehind⟩ := hfound.maximal hr
    exact ⟨fun i => hbefore i (Nat.zero_le i), hbehind⟩
  · rw [hside.indices, List.range_eq_range', Nat.sub_zero]
  · exact visits_mapM hholds (fun run => sel.schema.fixed_of_mem_segments) 0

/-- A number by itself, a struct, three numbers and a text. -/
def record : StructDef where
  name := "Record"
  pos := .start
  fields := [
    ⟨"Id", .start, .primitive (.number .int64) false, none⟩,
    ⟨"Origin", .start, .struct 0 false, none⟩,
    ⟨"Count", .start, .primitive (.number .int32) false, none⟩,
    ⟨"Ratio", .start, .primitive (.number .float32) false, none⟩,
    ⟨"Flag", .start, .primitive .bool false, none⟩,
    ⟨"Name", .start, .primitive .string false, none⟩]

def recordSelection : Selection where
  schema := ⟨"p", [record], [], []⟩
  analysis := ⟨[], [], []⟩
  options := {}
  messages := []

/-- The number by itself is a run that is not decoded as a block. -/
theorem decoder_visits_each_field_once_record :
    recordSelection.schema.structs[0]? = some record ∧
    recordSelection.schema.runs 0 = [⟨0, 1⟩, ⟨2, 5⟩] ∧
    ∃ ranges, ranges.flatMap Run.indices = [0, 1, 2, 3, 4, 5] ∧
      List.Forall₂ (Visits true record.fields [⟨0, 1⟩, ⟨2, 5⟩]) ranges
        (structRoutines recordSelection 0).decode := by
  have hd : recordSelection.schema.structs[0]? = some record := rfl
  have hruns : recordSelection.schema.runs 0 = [⟨0, 1⟩, ⟨2, 5⟩] := by decide
  obtain ⟨_, _, _, _, hranges⟩ := decoder_visits_each_field_once recordSelection hd
  rw [hruns] at hranges
  exact ⟨hd, hruns, hranges⟩

end WireSchema
