import WireSchema.Proofs.Faults

/-!
# Writing values of any length

A value in memory may hold texts and lists that are too long for the wire. Writing it part by part
goes on until the first of them. `oversize` lists them, and with it both sides can be given without a
walk through the value:

* the parts of a value are **written one after the other**, an array of numbers as a block or number
  by number;
* the document of a value has **no other faults** than the lengths that cannot be written, so that the
  conversion of the document fails exactly if writing the value fails, and for the same length.
-/

namespace WireSchema

open Wire
open Result (firstOf)

/-! ## Lengths that cannot be written -/

namespace Value

/-- The lengths no prefix can announce, in the order in which a walk through a value meets them. What
is inside a list that is too long is not looked at. -/
def oversize : Value → List WireError
  | .text s => if s.utf8ByteSize ≤ maxLength then [] else [.capacity .string s.utf8ByteSize]
  | .list items =>
    if items.length ≤ maxLength then items.flatMap oversize else [.capacity .array items.length]
  | .record fields => fields.flatMap oversize
  | .present v => v.oversize
  | _ => []

/-- Appends a value, unless a length in it cannot be written. -/
def write (v : Value) (w : Writer) : Except WireError Writer :=
  (firstOf v.oversize).map fun _ => ⟨w.data ++ v.encode⟩

/-- Values one behind the other. -/
theorem foldlM_write (values : List Value) (w : Writer) :
    values.foldlM (fun w v => v.write w) w
      = (firstOf (values.flatMap oversize)).map fun _ => ⟨w.data ++ values.flatMap encode⟩ := by
  induction values generalizing w with
  | nil =>
    rw [List.flatMap_nil, List.flatMap_nil, List.append_nil]
    rfl
  | cons v values ih =>
    rw [List.foldlM_cons, List.flatMap_cons, List.flatMap_cons, Result.firstOf_append, write]
    cases firstOf v.oversize with
    | error e => rfl
    | ok _ =>
      change values.foldlM (fun w v => v.write w) ⟨w.data ++ v.encode⟩ = _
      rw [ih, List.append_assoc]
      rfl

theorem write_bool (b : Bool) (w : Writer) : (Value.bool b).write w = w.write (.bool b) := by
  rw [write, oversize, encode] <;> simp [firstOf, Writer.write, Item.encode, Except.map]

theorem write_scalar (x : Scalar) (w : Writer) : (Value.scalar x).write w = w.write (.scalar x) := by
  rw [write, oversize, encode] <;> simp [firstOf, Writer.write, Item.encode, Except.map]

theorem write_absent (w : Writer) : Value.absent.write w = w.write (.bool false) := by
  rw [write, oversize, encode] <;> simp [firstOf, Writer.write, Item.encode, Except.map]

theorem write_text (s : String) (w : Writer) : (Value.text s).write w = w.write (.string s) := by
  rw [write, oversize, encode, Writer.write, Item.encode, checkedPrefix]
  split <;> rfl

theorem write_present (v : Value) (w : Writer) :
    (Value.present v).write w = w.write (.bool true) >>= v.write := by
  change _ = v.write ⟨w.data ++ flag true⟩
  rw [write, write, oversize, encode, List.append_assoc]

theorem write_record (fields : List Value) (w : Writer) :
    (Value.record fields).write w = fields.foldlM (fun w v => v.write w) w := by
  rw [foldlM_write, write, oversize, encode]

theorem write_list (items : List Value) (w : Writer) : (Value.list items).write w
    = w.write (.length .array items.length) >>= items.foldlM fun w v => v.write w := by
  rw [write, oversize, encode, Writer.write, Item.encode, checkedPrefix]
  split
  · change _ = items.foldlM (fun w v => v.write w) ⟨w.data ++ lengthPrefix items.length⟩
    rw [foldlM_write, List.append_assoc]
  · rfl

/-- **A block of numbers is the numbers one by one.** -/
theorem write_scalars (xs : List Scalar) (w : Writer) :
    (Value.list (xs.map .scalar)).write w = w.write (.scalars xs) := by
  have hfits : (xs.map Value.scalar).flatMap oversize = [] := by
    rw [List.flatMap_eq_nil_iff]
    intro v hv
    obtain ⟨x, _, rfl⟩ := List.mem_map.mp hv
    rw [oversize] <;> simp
  have hbytes : (xs.map Value.scalar).flatMap encode = xs.flatMap Scalar.encode := by
    rw [List.flatMap_map]
    exact List.flatMap_congr fun x _ => by rw [encode]
  rw [write, oversize, encode, Writer.write, Item.encode, checkedPrefix, hfits, hbytes,
    List.length_map]
  split <;> rfl

end Value

/-! ## Faults of the document of a value -/

/-- What the buffers have to do with an error of a document. -/
def Error.wire? : Error → Option WireError
  | .capacity _ kind length => some (.capacity kind length)
  | _ => none

theorem Error.wire?_eq_some {e : Error} {cause : WireError} :
    e.wire? = some cause ↔ ∃ path kind n, e = .capacity path kind n ∧ cause = .capacity kind n := by
  constructor
  · intro h
    unfold wire? at h
    split at h
    · rename_i path kind n
      injection h with h
      exact ⟨path, kind, n, rfl, h.symm⟩
    · exact absurd h (by simp)
  · rintro ⟨path, kind, n, rfl, rfl⟩
    rfl

namespace Schema

variable {s : Schema}

theorem faults_withOptional {t : Ty} {path : Path} {j : Json} (hj : j ≠ .null) (o : Bool) :
    s.faults (t.withOptional o) path j = s.faults t path j := by
  cases t with
  | primitive p o' => rw [Ty.withOptional, faults_primitive hj, faults_primitive hj]
  | struct id o' =>
    cases j with
    | object members => rw [Ty.withOptional, faults_record, faults_record]
    | null => exact absurd rfl hj
    | _ => rw [Ty.withOptional, faults, faults] <;> simp
  | array e o' =>
    cases j with
    | array items => rw [Ty.withOptional, faults_list, faults_list]
    | null => exact absurd rfl hj
    | _ => rw [Ty.withOptional, faults, faults] <;> simp

theorem Holds.typed {t : Ty} {v : Value} (h : s.Holds t v) (hfits : v.oversize = []) :
    s.Typed t v := by
  induction h with
  | bool b => exact .bool b
  | scalar x => exact .scalar x
  | text text =>
    rw [Value.oversize] at hfits
    split at hfits
    · rename_i hlen
      exact .text hlen
    · exact absurd hfits (by simp)
  | @list e items _ ih =>
    rw [Value.oversize] at hfits
    split at hfits
    · rename_i hlen
      exact .list hlen fun v hv => ih v hv (List.flatMap_eq_nil_iff.mp hfits v hv)
    · exact absurd hfits (by simp)
  | @record id fields hlen _ ih =>
    rw [Value.oversize, List.flatMap_eq_nil_iff] at hfits
    exact .record hlen fun p hp => ih p hp (hfits p.2 (List.of_mem_zip hp).2)
  | absent ht => exact .absent ht
  | present ht _ ih =>
    rw [Value.oversize] at hfits
    exact .present ht (ih hfits)

/-- **The document of a value is at fault only where a length cannot be written.** -/
theorem Holds.faults_jsonOf (hk : s.DistinctKeys) {t : Ty} {v : Value} (h : s.Holds t v)
    (hf : v.nonFinite = []) (path : Path) :
    (s.faults t path (s.jsonOf t v)).map Error.wire? = v.oversize.map some := by
  induction h generalizing path with
  | bool b =>
    rw [jsonOf, faults_primitive (by simp), Value.oversize] <;> simp [Primitive.faults]
  | scalar x =>
    obtain ⟨n, hn, _, hfits⟩ := Wire.Scalar.toJson_spec hf
    have hcheck := (Conforms.number (s := s) (o := false) hfits).checkValue path
    rw [checkValue_eq_firstOf, Result.firstOf_eq_ok] at hcheck
    rw [jsonOf, hn, hcheck, Value.oversize] <;> simp
  | text text =>
    rw [jsonOf, faults_primitive (by simp), Primitive.faults, Value.oversize]
    split <;> rfl
  | @list e items _ ih =>
    rw [Value.nonFinite_list, List.flatMap_eq_nil_iff] at hf
    rw [jsonOf, faults_list, Value.oversize, List.length_map]
    split
    · have hitem : ∀ p ∈ items.zipIdx,
          (s.faults e (.index p.2 :: path) (s.jsonOf e p.1)).map Error.wire?
            = p.1.oversize.map some := by
        intro p hp
        have hmem := List.fst_mem_of_mem_zipIdx hp
        exact ih p.1 hmem (hf p.1 hmem) _
      calc ((items.map (s.jsonOf e)).zipIdx.flatMap fun p =>
              s.faults e (.index p.2 :: path) p.1).map Error.wire?
          = items.zipIdx.flatMap fun p =>
              (s.faults e (.index p.2 :: path) (s.jsonOf e p.1)).map Error.wire? := by
            rw [List.map_flatMap, List.zipIdx_map, List.flatMap_map]
            rfl
        _ = items.zipIdx.flatMap fun p => p.1.oversize.map some := List.flatMap_congr hitem
        _ = (items.zipIdx.map Prod.fst).flatMap fun v => v.oversize.map some := by
            rw [List.flatMap_map]
        _ = (items.flatMap Value.oversize).map some := by
            rw [List.zipIdx_map_fst, List.map_flatMap]
    · rfl
  | @record id fields hlen _ ih =>
    rw [Value.nonFinite_record, List.flatMap_eq_nil_iff] at hf
    rw [jsonOf_record, faults_record, Value.oversize, List.map_flatMap, List.map_flatMap,
      List.flatMap_def, List.flatMap_def]
    refine congrArg List.flatten (Result.map_eq_map_of_zip hlen fun p hp => ?_)
    rw [hk.held hlen hp]
    exact ih p hp (hf p.2 (List.of_mem_zip hp).2) _
  | absent ht => rw [jsonOf, faults_null, if_pos ht, Value.oversize] <;> simp
  | @present t v ht hv ih =>
    rw [Value.nonFinite_present] at hf
    have hnull := hv.jsonOf_ne_null t.optional_required hf
    have := ih hf path
    rw [Ty.required, jsonOf_withOptional] at this hnull
    rw [faults_withOptional hnull] at this
    rw [jsonOf, this, Value.oversize]

/-- **The document of a value is converted as the value is written**, up to the place an error is
given. -/
theorem Holds.convert_jsonOf (hk : s.DistinctKeys) {message : String} {m : Message}
    (hm : s.message? message = some m) {v : Value} (h : s.Holds m.ty v) (hf : v.nonFinite = []) :
    (s.convert message (s.jsonOf m.ty v)).mapError Error.wire?
      = ((v.write {}).map Writer.data).mapError some := by
  have hfaults : (s.faultsOf message (s.jsonOf m.ty v)).map Error.wire? = v.oversize.map some := by
    rw [faultsOf, hm]
    exact h.faults_jsonOf hk hf []
  cases hsize : v.oversize with
  | nil =>
    have hd := ((h.typed hsize).describes hk hf).1
    rw [convert_eq_ok.mpr ⟨m, v, hm, hd, rfl⟩, Value.write, hsize]
    rfl
  | cons e rest =>
    rw [hsize, List.map_cons, List.map_eq_cons_iff] at hfaults
    obtain ⟨fault, faults, hfaults, hfault, _⟩ := hfaults
    -- an error of the buffers is none that the conversion passes over
    obtain ⟨path, kind, n, rfl, rfl⟩ := Error.wire?_eq_some.mp hfault
    have hconvert : s.convert message (s.jsonOf m.ty v) = .error (.capacity path kind n) :=
      convert_error_iff.mpr ⟨Error.lasting faults, by rw [hfaults]; rfl⟩
    rw [hconvert, Value.write, hsize]
    rfl

end Schema

end WireSchema
