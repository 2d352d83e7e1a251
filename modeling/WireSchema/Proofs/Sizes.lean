import WireSchema.Proofs.RoundTrip
import Mathlib.Algebra.Group.Action.Defs
import Mathlib.Algebra.Order.BigOperators.Group.List
import Mathlib.Algebra.Order.Ring.Nat

/-!
# Sizes of encoded values

`SizeRules` gives the largest size of a type by a rule for each form of type, in plain numbers
without a limit. A schema with ranks has exactly one such function. It is what the layouts of the
analysis hold, cut off at the largest 64-bit number; no value is encoded to more bytes, and there is
a value that is encoded to so many. A layout that is marked as fixed has values of this one size
only.
-/

namespace WireSchema

open Wire

namespace Schema

/-- `B` is the largest size of every type of the schema. -/
structure SizeRules (s : Schema) (B : Ty → Nat) : Prop where
  bool : B (.primitive .bool false) = 1
  number : ∀ k : Numeric, B (.primitive (.number k) false) = k.width
  string : B (.primitive .string false) = 2 + 65535
  array : ∀ e, B (.array e false) = 2 + 65535 * B e
  struct : ∀ id, B (.struct id false) = ((s.fieldsOf id).map fun f => B f.ty).sum
  optional : ∀ t : Ty, t.optional = true → B t = B t.required + 1

variable {s : Schema} {rank : Nat → Nat} {B : Ty → Nat}

/-! ## The rules have one solution -/

/-- The rules leave no choice. -/
theorem SizeRules.unique (hr : s.Ranked rank) (hB : s.SizeRules B) {B' : Ty → Nat}
    (hB' : s.SizeRules B') : B' = B := by
  funext t
  induction t using hr.induction with
  | primitive p =>
    cases p with
    | bool => rw [hB.bool, hB'.bool]
    | number k => rw [hB.number, hB'.number]
    | string => rw [hB.string, hB'.string]
  | array e ih => rw [hB.array, hB'.array, ih]
  | struct id ih => rw [hB.struct, hB'.struct, List.map_congr_left ih]
  | optional t ht ih => rw [hB.optional t ht, hB'.optional t ht, ih]

end Schema

@[simp] theorem Layout.isFixed_close (l : Layout) : l.close.isFixed = l.isFixed := by
  unfold close
  split <;> rfl

@[simp] theorem Layout.largest_close (l : Layout) : l.close.largest = l.largest := by
  unfold close
  split <;> rfl

theorem Layout.fixedSize_close (l : Layout) :
    l.close.fixedSize = if l.isFixed then l.largest else l.fixedSize := by
  unfold close
  split <;> rfl

/-- The largest size of a type, given those of structs. -/
def Ty.bound (ofStruct : Nat → Nat) (t : Ty) : Nat :=
  let required :=
    match t with
    | .primitive p _ => p.width?.getD (2 + 65535)
    | .struct id _ => ofStruct id
    | .array e _ => 2 + 65535 * e.bound ofStruct
  if t.optional then required + 1 else required

namespace Schema

variable {s : Schema} {rank : Nat → Nat} {B : Ty → Nat}

variable (s) in
/-- The largest size of a struct, as far as structs lie at most `depth` deep inside it. -/
def structBound : (depth : Nat) → (id : Nat) → Nat
  | 0, _ => 0
  | depth + 1, id => ((s.fieldsOf id).map fun f => f.ty.bound (structBound depth)).sum

theorem bound_congr {ofStruct ofStruct' : Nat → Nat} {t : Ty}
    (h : ∀ id, t.innermost? = some id → ofStruct id = ofStruct' id) :
    t.bound ofStruct = t.bound ofStruct' := by
  induction t with
  | primitive p o => rfl
  | struct id o => rw [Ty.bound, Ty.bound, h id rfl]
  | array e o ih => rw [Ty.bound, Ty.bound, ih h]

theorem structBound_congr (hr : s.Ranked rank) {depth depth' id : Nat} (h : rank id < depth)
    (h' : rank id < depth') : s.structBound depth id = s.structBound depth' id := by
  refine hr.depth_congr (fun depth depth' id htargets => ?_) h h'
  rw [structBound, structBound]
  refine congrArg List.sum (List.map_congr_left fun f hf => bound_congr fun target ht => ?_)
  exact htargets target (mem_targets hf ht)

/-- **A schema with ranks has largest sizes.** -/
theorem exists_sizeRules (hr : s.Ranked rank) : ∃ B, s.SizeRules B := by
  refine ⟨Ty.bound fun id => s.structBound (rank id + 1) id, rfl, fun _ => rfl, rfl, fun _ => rfl,
    fun id => ?_, fun t ht => ?_⟩
  · -- a struct gets one level more than its rank, so its fields get at least one more than theirs
    change s.structBound (rank id + 1) id = _
    rw [structBound]
    refine congrArg List.sum (List.map_congr_left fun f hf => bound_congr fun target ht => ?_)
    exact structBound_congr hr (hr.target_lt id target (mem_targets hf ht)) (Nat.lt_succ_self _)
  · cases t <;> cases ht <;> rfl

/-! ## Sizes of values -/

/-- A struct has a fixed size if all its fields have. -/
theorem isFixed_ofFields (L : Nat → Layout) (fields : List Field) :
    (Layout.ofFields L fields).isFixed = fields.all fun f => (f.ty.layout L).isFixed := by
  have hfold : ∀ whole : Layout,
      (fields.foldl (fun whole f => whole.addField f.ty (f.ty.layout L)) whole).isFixed
        = (whole.isFixed && fields.all fun f => (f.ty.layout L).isFixed) := by
    induction fields with
    | nil => exact fun whole => (Bool.and_true _).symm
    | cons f fields ih =>
      intro whole
      rw [List.foldl_cons, ih, List.all_cons, Layout.addField, Bool.and_assoc]
  rw [Layout.ofFields, Layout.isFixed_close, hfold]
  rfl

theorem layout_of_optional {t : Ty} (ht : t.optional = true) (L : Nat → Layout) :
    t.layout L = (t.required.layout L).optional := by
  cases t <;> cases ht <;> rfl

/-- **No value is larger than the rules say, and one of fixed size is not smaller either.** -/
theorem Typed.length_encode (hB : s.SizeRules B) {L : Nat → Layout} (hL : s.IsLayout L) {t : Ty}
    {v : Value} (h : s.Typed t v) :
    v.encode.length ≤ B t ∧ ((t.layout L).isFixed = true → v.encode.length = B t) := by
  induction h with
  | bool b =>
    rw [Value.encode, hB.bool]
    exact ⟨Nat.le_refl _, fun _ => rfl⟩
  | scalar x =>
    rw [Value.encode, hB.number, Scalar.length_encode]
    exact ⟨Nat.le_refl _, fun _ => rfl⟩
  | text hlen =>
    rw [Value.encode, hB.string, List.length_append, Read.length_lengthPrefix,
      Read.length_textBytes]
    exact ⟨Nat.add_le_add_left hlen 2, fun hfixed => absurd hfixed Bool.false_ne_true⟩
  | @list e items hmax _ ih =>
    rw [Value.encode, hB.array, List.length_append, Read.length_lengthPrefix, List.length_flatMap]
    refine ⟨Nat.add_le_add_left ?_ 2, fun hfixed => absurd hfixed Bool.false_ne_true⟩
    have hsum : (items.map fun v => v.encode.length).sum ≤ items.length * B e := by
      have hall := List.sum_le_card_nsmul (items.map fun v => v.encode.length) (B e) ?_
      · rwa [List.length_map, smul_eq_mul] at hall
      · intro n hn
        obtain ⟨v, hv, rfl⟩ := List.mem_map.mp hn
        exact (ih v hv).1
    exact Nat.le_trans hsum (Nat.mul_le_mul_right _ hmax)
  | @record id fields hlen _ ih =>
    rw [Value.encode, hB.struct, List.length_flatMap]
    constructor
    · refine List.Forall₂.sum_le_sum ?_
      refine List.forall₂_map_left_iff.mpr (List.forall₂_map_right_iff.mpr ?_)
      refine (List.forall₂_iff_zip.mpr ⟨hlen, fun {f v} hp => ?_⟩).flip
      exact (ih (f, v) hp).1
    · intro hfixed
      -- all fields are of fixed size, so the sums agree term by term
      change (L id).isFixed = true at hfixed
      rw [hL id, isFixed_ofFields, List.all_eq_true] at hfixed
      refine congrArg List.sum (Result.map_eq_map_of_zip hlen fun p hp => ?_).symm
      exact ((ih p hp).2 (hfixed p.1 (List.of_mem_zip hp).1)).symm
  | @absent t ht =>
    rw [Value.encode, hB.optional t ht, layout_of_optional ht]
    exact ⟨Nat.le_add_left 1 _, fun hfixed => absurd hfixed Bool.false_ne_true⟩
  | @present t v ht _ ih =>
    rw [Value.encode, hB.optional t ht, layout_of_optional ht, List.length_append, Nat.add_comm]
    exact ⟨Nat.add_le_add_right ih.1 1, fun hfixed => absurd hfixed Bool.false_ne_true⟩

/-! ## Layouts -/

theorem addSize_min (a b : Nat) :
    addSize (min a maxSize) (min b maxSize) = min (a + b) maxSize := by
  unfold addSize
  omega

theorem mulSize_min (a : Nat) : mulSize (min a maxSize) maxLength = min (65535 * a) maxSize := by
  unfold mulSize maxLength
  omega

theorem fixedSize_foldl (L : Nat → Layout) (fields : List Field) (whole : Layout) :
    (fields.foldl (fun whole f => whole.addField f.ty (f.ty.layout L)) whole).fixedSize
      = whole.fixedSize := by
  induction fields generalizing whole with
  | nil => rfl
  | cons f fields ih => rw [List.foldl_cons, ih, Layout.addField]

/-- A layout names its size a second time if it is fixed. -/
theorem fixedSize_layout {L : Nat → Layout} (hL : s.IsLayout L) (t : Ty) :
    (t.layout L).fixedSize = if (t.layout L).isFixed then (t.layout L).largest else 0 := by
  cases ho : t.optional with
  | true =>
    rw [layout_of_optional ho]
    rfl
  | false =>
    cases t with
    | primitive p o =>
      cases ho
      cases p <;> rfl
    | array e o =>
      cases ho
      rfl
    | struct id o =>
      cases ho
      change (L id).fixedSize = if (L id).isFixed then (L id).largest else 0
      rw [hL id, Layout.ofFields, Layout.fixedSize_close, Layout.isFixed_close,
        Layout.largest_close, fixedSize_foldl]
      rfl

theorem largest_ofFields {L : Nat → Layout} {fields : List Field}
    (h : ∀ f ∈ fields, (f.ty.layout L).largest = min (B f.ty) maxSize) :
    (Layout.ofFields L fields).largest = min (fields.map fun f => B f.ty).sum maxSize := by
  -- what was added up so far may be anything; only its limited form is in the layout
  have hfold : ∀ (whole : Layout) (a : Nat), whole.largest = min a maxSize →
      (fields.foldl (fun whole f => whole.addField f.ty (f.ty.layout L)) whole).largest
        = min (a + (fields.map fun f => B f.ty).sum) maxSize := by
    induction fields with
    | nil => exact fun whole a ha => ha
    | cons f fields ih =>
      intro whole a ha
      rw [List.foldl_cons, List.map_cons, List.sum_cons, ← Nat.add_assoc]
      refine ih (fun g hg => h g (List.mem_cons_of_mem _ hg)) _ _ ?_
      rw [Layout.addField, ha, h f List.mem_cons_self, addSize_min]
  rw [Layout.ofFields, Layout.largest_close, hfold .empty 0 rfl, Nat.zero_add]

/-- **Layouts hold the largest sizes**, as far as 64 bits go. -/
theorem largest_layout (hr : s.Ranked rank) (hB : s.SizeRules B) {L : Nat → Layout}
    (hL : s.IsLayout L) (t : Ty) : (t.layout L).largest = min (B t) maxSize := by
  induction t using hr.induction with
  | primitive p =>
    cases p with
    | bool => rw [hB.bool]; rfl
    | number k => rw [hB.number]; cases k <;> rfl
    | string => rw [hB.string]; rfl
  | array e ih =>
    change addSize (mulSize (e.layout L).largest maxLength) lengthPrefixWidth = _
    rw [ih, mulSize_min, hB.array, Nat.add_comm]
    exact addSize_min _ 2
  | struct id ih =>
    change (L id).largest = _
    rw [hL id, largest_ofFields ih, hB.struct]
  | optional t ht ih =>
    rw [layout_of_optional ht, Layout.optional, ih, hB.optional t ht]
    exact addSize_min _ 1

/-! ## Largest values -/

theorem exists_text (n : Nat) : ∃ text : String, text.utf8ByteSize = n := by
  induction n with
  | zero => exact ⟨"", rfl⟩
  | succ n ih =>
    obtain ⟨text, ht⟩ := ih
    exact ⟨text.push 'a', by rw [String.utf8ByteSize_push, ht]; rfl⟩

theorem exists_largest_primitive (hB : s.SizeRules B) (p : Primitive) :
    ∃ v, s.Typed (.primitive p false) v ∧ v.nonFinite = [] ∧
      v.encode.length = B (.primitive p false) := by
  cases p with
  | bool =>
    refine ⟨.bool true, .bool true, ?_, ?_⟩
    · rw [Value.nonFinite, Value.nonFiniteBefore] <;> simp
    · rw [Value.encode, hB.bool]
      rfl
  | number k =>
    -- zero, which is finite
    have hkind : (Scalar.ofPattern k 0).kind = k := by cases k <;> rfl
    refine ⟨.scalar (.ofPattern k 0), ?_, ?_, ?_⟩
    · have h := Typed.scalar (s := s) (.ofPattern k 0)
      rwa [hkind] at h
    · rw [Value.nonFinite, Value.nonFiniteBefore]
      cases k <;> decide +kernel
    · rw [Value.encode, Scalar.length_encode, hkind, hB.number]
  | string =>
    obtain ⟨text, ht⟩ := exists_text 65535
    refine ⟨.text text, .text (Nat.le_of_eq ht), ?_, ?_⟩
    · rw [Value.nonFinite, Value.nonFiniteBefore] <;> simp
    · rw [Value.encode, List.length_append, Read.length_lengthPrefix, Read.length_textBytes, ht,
        hB.string]
      rfl

/-- **Every type has a value of the largest size**, without infinities and NaNs. -/
theorem exists_largest (hr : s.Ranked rank) (hB : s.SizeRules B) (t : Ty) :
    ∃ v, s.Typed t v ∧ v.nonFinite = [] ∧ v.encode.length = B t := by
  induction t using hr.induction with
  | primitive p => exact exists_largest_primitive hB p
  | array e ih =>
    obtain ⟨v, hv, hf, hlen⟩ := ih
    have hmem : ∀ w ∈ List.replicate 65535 v, w = v := fun w hw => List.eq_of_mem_replicate hw
    refine ⟨.list (List.replicate 65535 v), .list ?_ fun w hw => hmem w hw ▸ hv, ?_, ?_⟩
    · rw [List.length_replicate]
      exact Nat.le_refl _
    · rw [Value.nonFinite_list, List.flatMap_eq_nil_iff]
      exact fun w hw => hmem w hw ▸ hf
    · rw [Value.encode, List.length_append, Read.length_lengthPrefix, List.length_flatMap,
        List.map_replicate, List.sum_replicate, hlen, smul_eq_mul, hB.array]
      rfl
  | struct id ih =>
    obtain ⟨fields, hfields⟩ := Result.exists_forall₂ ih
    obtain ⟨hlen, hall⟩ := List.forall₂_iff_zip.mp hfields
    refine ⟨.record fields, .record hlen fun p hp => (hall hp).1, ?_, ?_⟩
    · rw [Value.nonFinite_record, List.flatMap_eq_nil_iff]
      intro v hv
      obtain ⟨f, hp⟩ := Result.exists_mem_zip hlen hv
      exact (hall hp).2.1
    · rw [Value.encode, List.length_flatMap, hB.struct]
      exact congrArg List.sum (Result.map_eq_map_of_zip hlen fun p hp => (hall hp).2.2.symm).symm
  | optional t ht ih =>
    obtain ⟨v, hv, hf, hlen⟩ := ih
    refine ⟨.present v, .present ht hv, ?_, ?_⟩
    · rwa [Value.nonFinite_present]
    · rw [Value.encode, List.length_append, hlen, hB.optional t ht, Nat.add_comm]
      rfl

end Schema

/-! ## What an analysis promises -/

/--
**Layouts are exact.** A compiled schema has one function of largest sizes, and for every message
the analysis holds its value, as far as 64 bits go. No encoded value is larger, all are of this size
if the layout is fixed, and some valid document is encoded to exactly so many bytes if no two fields
of a struct share a key.
-/
theorem layout_size_exact {text : String} {c : Compiled} (hc : compile text = .ok c) :
    ∃ B, c.schema.SizeRules B ∧ (∀ B', c.schema.SizeRules B' → B' = B) ∧
      ∀ message m, c.schema.message? message = some m →
        ∃ l, c.analysis.message? message = some l ∧
          l.largest = min (B m.ty) (2 ^ 64 - 1) ∧
          (∀ j bytes, c.schema.convert message j = .ok bytes → bytes.length ≤ B m.ty) ∧
          (l.isFixed = true → l.fixedSize = l.largest ∧
            ∀ j bytes, c.schema.convert message j = .ok bytes → bytes.length = B m.ty) ∧
          (l.isFixed = false → l.fixedSize = 0) ∧
          (c.schema.DistinctKeys → ∃ j bytes, j.Valid ∧ c.encode message j = .ok bytes ∧
            bytes.length = B m.ty) := by
  have hlawful := Compiled.lawful_of_compile hc
  obtain ⟨rank, L, hr, hL, hlayout⟩ :=
    Schema.analyze_spec hlawful.inRange hlawful.names hlawful.analyzed
  obtain ⟨B, hB⟩ := Schema.exists_sizeRules hr
  have hfixed := Schema.fixedSize_layout hL
  -- every encoded document is a value of the type of its message
  have hlength : ∀ {message m j bytes}, c.schema.message? message = some m →
      c.schema.convert message j = .ok bytes →
      bytes.length ≤ B m.ty ∧ ((m.ty.layout L).isFixed = true → bytes.length = B m.ty) := by
    intro message m j bytes hm h
    obtain ⟨m', v, hm', hd, rfl⟩ := Schema.convert_eq_ok.mp h
    obtain rfl : m = m' := Option.some.inj (hm.symm.trans hm')
    exact hd.typed.length_encode hB hL
  refine ⟨B, hB, fun B' hB' => hB.unique hr hB', fun message m hm => ?_⟩
  refine ⟨m.ty.layout L, hlayout message m hm, Schema.largest_layout hr hB hL m.ty, ?_, ?_, ?_, ?_⟩
  · exact fun j bytes h => (hlength hm h).1
  · exact fun hf => ⟨by rw [hfixed, if_pos hf], fun j bytes h => (hlength hm h).2 hf⟩
  · exact fun hf => by rw [hfixed, hf]; rfl
  · intro hkeys
    obtain ⟨v, hv, hfinite, hlen⟩ := Schema.exists_largest hr hB m.ty
    obtain ⟨hd, hconf⟩ := hv.describes hkeys hfinite
    exact ⟨c.schema.jsonOf m.ty v, v.encode, c.schema.valid_jsonOf m.ty v,
      Compiled.encode_eq_ok.mpr ⟨m, v, hm, hconf, hd, rfl⟩, hlen⟩

theorem layout_size_exact_reading :
    compile readingText = .ok reading ∧ readingSchema.DistinctKeys ∧
    ∃ B, readingSchema.SizeRules B ∧ B (.struct 0 false) = 4295032842 ∧
      (∀ j bytes, readingSchema.convert "Reading" j = .ok bytes → bytes.length ≤ 4295032842) ∧
      ∃ j bytes, j.Valid ∧ reading.encode "Reading" j = .ok bytes ∧ bytes.length = 4295032842 := by
  obtain ⟨B, hB, _, hall⟩ := layout_size_exact compile_readingText
  obtain ⟨l, hl, hlargest, hle, _, _, htight⟩ := hall "Reading" ⟨"Reading", .struct 0 false⟩ rfl
  obtain rfl : readingLayout = l := Option.some.inj hl
  have hsize : B (.struct 0 false) = 4295032842 := by
    have hreading : readingLayout.largest = 4295032842 := rfl
    rw [hreading] at hlargest
    dsimp only at hlargest
    omega
  dsimp only at hle htight
  rw [hsize] at hle htight
  exact ⟨compile_readingText, distinctKeys_reading, B, hB, hsize, hle, htight distinctKeys_reading⟩

end WireSchema
