import WireSchema.Data.Check
import WireSchema.Proofs.Typed

/-!
# Documents that pass the check

`Conforms` says which documents a type admits, again without paths. The check accepts exactly these,
and accepts them under every path. Whether a value is optional only matters where the document says
`null`.
-/

namespace WireSchema

/-- A number lies in the range of a numeric type. -/
def Number.Fits (n : Number) : Numeric → Prop
  | .float32 => n.toDouble.exceedsSingle = false
  | .float64 => True
  | k => (n.integer? k).isSome

theorem Number.check_number (n : Number) (k : Numeric) (path : Path) :
    (Primitive.number k).check path (.number n) = .ok () ↔ n.Fits k := by
  cases k with
  | float32 =>
    rw [Primitive.check, Fits, Json.double, Except.bind]
    split <;> simp_all
  | float64 => simp [Primitive.check, Fits, Json.double, Except.map]
  | _ =>
    rw [Primitive.check, Fits, Result.map_eq_ok, Option.isSome_iff_exists]
    · simp only [and_true, integer_eq_ok]
    all_goals simp

namespace Schema

/-- `Conforms t j`: `j` is a document of type `t`. -/
inductive Conforms (s : Schema) : Ty → Json → Prop where
  | bool {o : Bool} (b : Bool) : Conforms s (.primitive .bool o) (.bool b)
  | number {o : Bool} {k : Numeric} {n : Number} :
      n.Fits k → Conforms s (.primitive (.number k) o) (.number n)
  | text {o : Bool} {text : String} :
      text.utf8ByteSize ≤ Wire.maxLength → Conforms s (.primitive .string o) (.string text)
  | list {o : Bool} {e : Ty} {items : List Json} :
      items.length ≤ Wire.maxLength → (∀ j ∈ items, Conforms s e j) →
      Conforms s (.array e o) (.array items)
  | record {o : Bool} {id : Nat} {members : List (String × Json)} :
      (∀ f ∈ s.fieldsOf id, Conforms s f.ty (Json.held f.key members)) →
      Conforms s (.struct id o) (.object members)
  | null {t : Ty} : t.optional = true → Conforms s t .null

variable {s : Schema}

theorem Conforms.withOptional {t : Ty} {j : Json} (h : s.Conforms t j) (hj : j ≠ .null) (o : Bool) :
    s.Conforms (t.withOptional o) j := by
  cases h with
  | bool b => exact .bool b
  | number hn => exact .number hn
  | text hlen => exact .text hlen
  | list hmax hall => exact .list hmax hall
  | record hall => exact .record hall
  | null _ => exact absurd rfl hj

/-! ## The equations of the check -/

theorem checkValue_null {t : Ty} {path : Path} : s.checkValue t path .null =
    if t.optional then .ok () else .error (.data path .missing) := by
  rw [checkValue]

theorem checkValue_record {id : Nat} {o : Bool} {path : Path} {members : List (String × Json)} :
    s.checkValue (.struct id o) path (.object members) = .ok () ↔
      ∀ f ∈ s.fieldsOf id,
        s.checkValue f.ty (.key f.key :: path) (Json.held f.key members) = .ok () := by
  rw [checkValue]
  exact Result.forM_eq_ok

theorem checkValue_list {e : Ty} {o : Bool} {path : Path} {items : List Json} :
    s.checkValue (.array e o) path (.array items) = .ok () ↔
      items.length ≤ Wire.maxLength ∧
        ∀ p ∈ items.zipIdx, s.checkValue e (.index p.2 :: path) p.1 = .ok () := by
  rw [checkValue]
  split
  · rename_i hmax
    rw [and_iff_right hmax]
    exact Result.forM_attach_zipIdx_eq_ok
      (f := fun item i => s.checkValue e (.index i :: path) item)
  · rename_i hmax
    exact ⟨fun h => absurd h (by simp), fun h => absurd h.1 hmax⟩

theorem checkValue_primitive {p : Primitive} {o : Bool} {path : Path} {j : Json} (hj : j ≠ .null) :
    s.checkValue (.primitive p o) path j = p.check path j := by
  rw [checkValue]
  exact hj

/-! ## The check and conformance agree -/

theorem conforms_primitive {p : Primitive} {o : Bool} {path : Path} {j : Json} (hj : j ≠ .null)
    (h : s.checkValue (.primitive p o) path j = .ok ()) : s.Conforms (.primitive p o) j := by
  rw [checkValue_primitive hj] at h
  cases p with
  | bool =>
    cases j with
    | bool b => exact .bool b
    | _ => exact absurd h (by simp [Primitive.check, Json.boolean, Except.map])
  | string =>
    cases j with
    | string text =>
      obtain ⟨_, ht, _⟩ := Result.map_eq_ok.mp h
      rw [Json.text] at ht
      split at ht
      · exact .text ‹_›
      · exact absurd ht (by simp)
    | _ => exact absurd h (by simp [Primitive.check, Json.text, Except.map])
  | number k =>
    cases j with
    | number n => exact .number ((n.check_number k path).mp h)
    | _ =>
      cases k <;>
        exact absurd h
          (by simp [Primitive.check, Json.integer, Json.double, Except.map, Except.bind])

/-- What passes the check conforms. -/
theorem conforms_of_checkValue {t : Ty} {path : Path} {j : Json}
    (h : s.checkValue t path j = .ok ()) : s.Conforms t j := by
  induction j using Json.induction generalizing t path with
  | null =>
    rw [checkValue_null] at h
    split at h
    · exact .null ‹_›
    · exact absurd h (by simp)
  | array items ih =>
    cases t with
    | primitive p o => exact conforms_primitive (by simp) h
    | struct id o => exact absurd h (by simp [checkValue])
    | array e o =>
      obtain ⟨hmax, hall⟩ := checkValue_list.mp h
      -- an item stands at some position, and which one only matters to the path
      refine .list hmax fun item hitem => ?_
      obtain ⟨i, hi⟩ : ∃ i, (item, i) ∈ items.zipIdx := by
        rw [← List.zipIdx_map_fst 0 items] at hitem
        obtain ⟨⟨_, i⟩, hp, rfl⟩ := List.mem_map.mp hitem
        exact ⟨i, hp⟩
      exact ih item hitem (hall _ hi)
  | object members ih =>
    cases t with
    | primitive p o => exact conforms_primitive (by simp) h
    | struct id o => exact .record fun f hf => ih f.key (checkValue_record.mp h f hf)
    | array e o => exact absurd h (by simp [checkValue])
  | _ =>
    cases t with
    | primitive p o => exact conforms_primitive (by simp) h
    | _ => exact absurd h (by simp [checkValue])

/-- What conforms passes the check, whatever the path to it. -/
theorem Conforms.checkValue {t : Ty} {j : Json} (h : s.Conforms t j) (path : Path) :
    s.checkValue t path j = .ok () := by
  induction h generalizing path with
  | bool b =>
    rw [checkValue_primitive (by simp)]
    rfl
  | @number o k n hn =>
    rw [checkValue_primitive (by simp)]
    exact (n.check_number k path).mpr hn
  | text hlen =>
    rw [checkValue_primitive (by simp), Primitive.check, Json.text, if_pos hlen]
    rfl
  | list hmax _ ih =>
    refine checkValue_list.mpr ⟨hmax, fun p hp => ih p.1 ?_ _⟩
    exact List.fst_mem_of_mem_zipIdx hp
  | record _ ih => exact checkValue_record.mpr fun f hf => ih f hf _
  | null ht => rw [checkValue_null, if_pos ht]

end Schema

end WireSchema
