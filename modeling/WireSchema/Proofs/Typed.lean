import WireSchema.Data.Value
import WireSchema.Proofs.Sequence

/-!
# Values, their types and their documents

Three relations say what the conversion of documents is about. `Typed` says that a value is one of a
type, and `Holds` says the same with no regard to the limits of the wire. `Describes` says that a
document stands for a value of a type, with no mention of paths, since these matter to failures only.
Converting a document succeeds exactly when it describes something, and what it then gives is typed,
so that everything else about conversions can be proved by induction on one of them.
-/

namespace WireSchema

namespace Json

/-- Documents can be taken apart until nothing is left; an object is taken apart by its keys. -/
theorem induction {P : Json → Prop} (null : P .null) (bool : ∀ b, P (.bool b))
    (number : ∀ n, P (.number n)) (string : ∀ s, P (.string s))
    (array : ∀ items, (∀ j ∈ items, P j) → P (.array items))
    (object : ∀ members, (∀ key, P (held key members)) → P (.object members)) (j : Json) : P j :=
  match j with
  | .null => null
  | .bool b => bool b
  | .number n => number n
  | .string s => string s
  | .array items => array items fun j hj =>
      have : sizeOf j < sizeOf items := List.sizeOf_lt_of_mem hj
      induction null bool number string array object j
  | .object members => object members fun key =>
      have : sizeOf (held key members) < 1 + sizeOf members := sizeOf_held_lt key members
      induction null bool number string array object (held key members)
termination_by sizeOf j

end Json

namespace Ty

@[simp] theorem withOptional_withOptional (t : Ty) (o o' : Bool) :
    (t.withOptional o).withOptional o' = t.withOptional o' := by
  cases t <;> rfl

theorem required_of_optional_eq_false {t : Ty} (h : t.optional = false) : t.required = t := by
  cases t <;> simp_all [required, withOptional, optional]

theorem wrap_of_optional {t : Ty} (h : t.optional = true) (v : Value) : t.wrap v = .present v :=
  if_pos h

theorem wrap_of_required {t : Ty} (h : t.optional = false) (v : Value) : t.wrap v = v :=
  if_neg (by simp [h])

end Ty

namespace Number

/-- The integer a number stands for, if it fits an integer type. -/
def integer? (n : Number) (k : Numeric) : Option Int :=
  n.toInt?.filter (fitsWidth k.width)

/-- The scalar a number stands for. -/
def scalar? (n : Number) : Numeric → Option Wire.Scalar
  | .int8 => (n.integer? .int8).map fun i => .int8 (.ofInt i)
  | .int16 => (n.integer? .int16).map fun i => .int16 (.ofInt i)
  | .int32 => (n.integer? .int32).map fun i => .int32 (.ofInt i)
  | .int64 => (n.integer? .int64).map fun i => .int64 (.ofInt i)
  | .float32 => some (.float32 (Single.ofDouble n.toDouble).bits)
  | .float64 => some (.float64 n.toDouble.bits)

theorem kind_of_scalar? {n : Number} {k : Numeric} {x : Wire.Scalar} (h : n.scalar? k = some x) :
    x.kind = k := by
  cases k with
  | float32 => cases h; rfl
  | float64 => cases h; rfl
  | _ => obtain ⟨i, _, rfl⟩ := Option.map_eq_some_iff.mp h; rfl

theorem integer_eq_ok {n : Number} {k : Numeric} {path : Path} {i : Int} :
    Json.integer k path (.number n) = .ok i ↔ n.integer? k = some i := by
  rw [Json.integer, integer?]
  cases n.toInt? with
  | none => simp
  | some i' =>
    rw [Option.filter_some]
    dsimp only
    split <;> simp

/-- The scalar of a number, as the conversion finds it. -/
theorem valueOf_number (n : Number) (k : Numeric) (path : Path) (v : Value) :
    (Primitive.number k).valueOf path (.number n) = .ok v ↔
      ∃ x, n.scalar? k = some x ∧ v = .scalar x := by
  have hmap : ∀ g : Int → Wire.Scalar,
      ((Json.integer k path (.number n)).map fun i => Value.scalar (g i)) = .ok v ↔
        ∃ x, (n.integer? k).map g = some x ∧ v = .scalar x := by
    intro g
    rw [Result.map_eq_ok]
    constructor
    · rintro ⟨i, hi, rfl⟩
      exact ⟨g i, by rw [integer_eq_ok.mp hi]; rfl, rfl⟩
    · rintro ⟨x, hx, rfl⟩
      obtain ⟨i, hi, rfl⟩ := Option.map_eq_some_iff.mp hx
      exact ⟨i, integer_eq_ok.mpr hi, rfl⟩
  cases k with
  | float32 => simp [Primitive.valueOf, Json.double, scalar?, Except.map, eq_comm]
  | float64 => simp [Primitive.valueOf, Json.double, scalar?, Except.map, eq_comm]
  | _ => exact hmap _

end Number

namespace Schema

variable (s : Schema)

/-- The values of a type. -/
inductive Typed : Ty → Value → Prop where
  | bool (b : Bool) : Typed (.primitive .bool false) (.bool b)
  | scalar (x : Wire.Scalar) : Typed (.primitive (.number x.kind) false) (.scalar x)
  | text {text : String} :
      text.utf8ByteSize ≤ Wire.maxLength → Typed (.primitive .string false) (.text text)
  | list {e : Ty} {items : List Value} :
      items.length ≤ Wire.maxLength → (∀ v ∈ items, Typed e v) →
      Typed (.array e false) (.list items)
  | record {id : Nat} {fields : List Value} :
      (s.fieldsOf id).length = fields.length →
      (∀ p ∈ (s.fieldsOf id).zip fields, Typed p.1.ty p.2) →
      Typed (.struct id false) (.record fields)
  | absent {t : Ty} : t.optional = true → Typed t .absent
  | present {t : Ty} {v : Value} : t.optional = true → Typed t.required v → Typed t (.present v)

/-- The values of a type, however long the texts and lists in them are. -/
inductive Holds : Ty → Value → Prop where
  | bool (b : Bool) : Holds (.primitive .bool false) (.bool b)
  | scalar (x : Wire.Scalar) : Holds (.primitive (.number x.kind) false) (.scalar x)
  | text (text : String) : Holds (.primitive .string false) (.text text)
  | list {e : Ty} {items : List Value} :
      (∀ v ∈ items, Holds e v) → Holds (.array e false) (.list items)
  | record {id : Nat} {fields : List Value} :
      (s.fieldsOf id).length = fields.length →
      (∀ p ∈ (s.fieldsOf id).zip fields, Holds p.1.ty p.2) →
      Holds (.struct id false) (.record fields)
  | absent {t : Ty} : t.optional = true → Holds t .absent
  | present {t : Ty} {v : Value} : t.optional = true → Holds t.required v → Holds t (.present v)

/-- `Describes t j v`: as a document of type `t`, `j` stands for `v`. -/
inductive Describes : Ty → Json → Value → Prop where
  | bool (b : Bool) : Describes (.primitive .bool false) (.bool b) (.bool b)
  | scalar {k : Numeric} {n : Number} {x : Wire.Scalar} :
      n.scalar? k = some x → Describes (.primitive (.number k) false) (.number n) (.scalar x)
  | text {text : String} :
      text.utf8ByteSize ≤ Wire.maxLength →
      Describes (.primitive .string false) (.string text) (.text text)
  | list {e : Ty} {items : List Json} {values : List Value} :
      items.length ≤ Wire.maxLength → items.length = values.length →
      (∀ p ∈ items.zip values, Describes e p.1 p.2) →
      Describes (.array e false) (.array items) (.list values)
  | record {id : Nat} {members : List (String × Json)} {fields : List Value} :
      (s.fieldsOf id).length = fields.length →
      (∀ p ∈ (s.fieldsOf id).zip fields, Describes p.1.ty (Json.held p.1.key members) p.2) →
      Describes (.struct id false) (.object members) (.record fields)
  | absent {t : Ty} : t.optional = true → Describes t .null .absent
  | present {t : Ty} {j : Json} {v : Value} :
      t.optional = true → j ≠ .null → Describes t.required j v → Describes t j (.present v)

variable {s}

theorem Typed.holds {t : Ty} {v : Value} (h : s.Typed t v) : s.Holds t v := by
  induction h with
  | bool b => exact .bool b
  | scalar x => exact .scalar x
  | text _ => exact .text _
  | list _ _ ih => exact .list ih
  | record hlen _ ih => exact .record hlen ih
  | absent ht => exact .absent ht
  | present ht _ ih => exact .present ht ih

/-! ## The equations of the conversion -/

variable (s) in
/-- What a document that is there gives, without the mark of an optional value. -/
def presentOf (path : Path) : Ty → Json → Except Error Value
  | .primitive p _, j => p.valueOf path j
  | .struct id _, .object members =>
    ((s.fieldsOf id).mapM fun f =>
      s.valueOf f.ty (.key f.key :: path) (Json.held f.key members)).map .record
  | .struct _ _, _ => .error (.data path (.expected .object))
  | .array e _, .array items =>
    if items.length ≤ Wire.maxLength then
      (items.zipIdx.mapM fun p => s.valueOf e (.index p.2 :: path) p.1).map .list
    else .error (.capacity path .array items.length)
  | .array _ _, _ => .error (.data path (.expected .array))

theorem presentOf_required {t : Ty} {path : Path} {j : Json} :
    s.presentOf path t.required j = s.presentOf path t j := by
  cases t <;> cases j <;> rfl

theorem valueOf_null {t : Ty} {path : Path} : s.valueOf t path .null =
    if t.optional then .ok .absent else .error (.data path .missing) := by
  rw [valueOf]

theorem valueOf_eq {t : Ty} {path : Path} {j : Json} (h : j ≠ .null) :
    s.valueOf t path j = (s.presentOf path t j).map t.wrap := by
  cases t with
  | primitive p o =>
    rw [valueOf, presentOf]
    exact h
  | struct id o =>
    cases j with
    | object members => rw [valueOf, presentOf, Result.map_map]
    | _ => simp_all [valueOf, presentOf, Except.map]
  | array e o =>
    cases j with
    | array items =>
      rw [valueOf, presentOf,
        Result.mapM_attach_zipIdx (f := fun j i => s.valueOf e (.index i :: path) j)]
      split
      · rw [Result.map_map]
      · rfl
    | _ => simp_all [valueOf, presentOf, Except.map]

/-! ## Conversion and description agree -/

theorem describes_primitive {p : Primitive} {path : Path} {j : Json} {v : Value}
    (h : p.valueOf path j = .ok v) : s.Describes (.primitive p false) j v := by
  cases p with
  | bool =>
    obtain ⟨b, hb, rfl⟩ := Result.map_eq_ok.mp h
    cases j with
    | bool _ => cases hb; exact .bool b
    | _ => exact absurd hb (by simp [Json.boolean])
  | string =>
    obtain ⟨text, ht, rfl⟩ := Result.map_eq_ok.mp h
    cases j with
    | string text' =>
      rw [Json.text] at ht
      split at ht
      · rename_i hlen
        cases ht
        exact .text hlen
      · exact absurd ht (by simp)
    | _ => exact absurd ht (by simp [Json.text])
  | number k =>
    cases j with
    | number n =>
      obtain ⟨x, hx, rfl⟩ := (n.valueOf_number k path v).mp h
      exact .scalar hx
    | _ =>
      cases k <;>
        exact absurd h (by simp [Primitive.valueOf, Json.integer, Json.double, Except.map])

/-- One level of a document that is there, given that its parts describe what they give. -/
theorem describes_of_presentOf {t : Ty} {path : Path} {j : Json} {v : Value}
    (ht : t.optional = false)
    (hitems : ∀ items, j = .array items → ∀ item ∈ items, ∀ e path w,
      s.valueOf e path item = .ok w → s.Describes e item w)
    (hmembers : ∀ members, j = .object members → ∀ key e path w,
      s.valueOf e path (Json.held key members) = .ok w → s.Describes e (Json.held key members) w)
    (h : s.presentOf path t j = .ok v) : s.Describes t j v := by
  cases t with
  | primitive p o =>
    cases ht
    exact describes_primitive h
  | struct id o =>
    cases ht
    cases j with
    | object members =>
      obtain ⟨fields, hfields, rfl⟩ := Result.map_eq_ok.mp h
      obtain ⟨hlen, hall⟩ := List.forall₂_iff_zip.mp (Result.mapM_eq_ok.mp hfields)
      exact .record hlen fun p hp => hmembers members rfl _ _ _ _ (hall hp)
    | _ => exact absurd h (by simp [presentOf])
  | array e o =>
    cases ht
    cases j with
    | array items =>
      rw [presentOf] at h
      split at h
      · rename_i hmax
        obtain ⟨values, hvalues, rfl⟩ := Result.map_eq_ok.mp h
        obtain ⟨hlen, hall⟩ := Result.mapM_zipIdx_eq_ok hvalues
        refine .list hmax hlen fun p hp => ?_
        obtain ⟨i, hi⟩ := hall p hp
        exact hitems items rfl p.1 (List.of_mem_zip hp).1 _ _ _ hi
      · exact absurd h (by simp)
    | _ => exact absurd h (by simp [presentOf])

/-- What a document gives, it describes. -/
theorem describes_of_valueOf {t : Ty} {path : Path} {j : Json} {v : Value}
    (h : s.valueOf t path j = .ok v) : s.Describes t j v := by
  -- a document that is there, put behind the mark of an optional value if there is to be one
  have hthere : ∀ {j : Json} {t : Ty} {path : Path} {v : Value}, j ≠ .null →
      (∀ items, j = .array items → ∀ item ∈ items, ∀ e path w,
        s.valueOf e path item = .ok w → s.Describes e item w) →
      (∀ members, j = .object members → ∀ key e path w,
        s.valueOf e path (Json.held key members) = .ok w →
        s.Describes e (Json.held key members) w) →
      s.valueOf t path j = .ok v → s.Describes t j v := by
    intro j t path v hj hitems hmembers h
    rw [valueOf_eq hj, ← presentOf_required] at h
    obtain ⟨w, hw, rfl⟩ := Result.map_eq_ok.mp h
    have hd := describes_of_presentOf t.optional_required hitems hmembers hw
    cases ht : t.optional with
    | true =>
      rw [Ty.wrap_of_optional ht]
      exact .present ht hj hd
    | false =>
      rw [Ty.wrap_of_required ht]
      rwa [Ty.required_of_optional_eq_false ht] at hd
  induction j using Json.induction generalizing t path v with
  | null =>
    rw [valueOf_null] at h
    split at h
    · rename_i ht
      injection h with h
      subst h
      exact .absent ht
    · exact absurd h (by simp)
  | array items ih =>
    refine hthere (by simp) (fun _ he item hitem e path w hw => ?_) (by simp) h
    injection he with he
    exact ih item (he ▸ hitem) hw
  | object members ih =>
    refine hthere (by simp) (by simp) (fun _ he key e path w hw => ?_) h
    injection he with he
    subst he
    exact ih key hw
  | _ => exact hthere (by simp) (by simp) (by simp) h

/-- What a document describes, it gives, whatever the path to it. -/
theorem Describes.valueOf {t : Ty} {j : Json} {v : Value} (h : s.Describes t j v) (path : Path) :
    s.valueOf t path j = .ok v := by
  induction h generalizing path with
  | bool b =>
    rw [valueOf_eq (by simp)]
    rfl
  | @scalar k n x hx =>
    rw [valueOf_eq (by simp), presentOf, (n.valueOf_number k path _).mpr ⟨x, hx, rfl⟩]
    rfl
  | text hlen =>
    rw [valueOf_eq (by simp), presentOf, Primitive.valueOf, Json.text, if_pos hlen]
    rfl
  | @list e items values hmax hlen _ ih =>
    rw [valueOf_eq (by simp), presentOf, if_pos hmax,
      Result.mapM_zipIdx_of_ok hlen fun p hp i => ih p hp (.index i :: path)]
    rfl
  | @record id members fields hlen _ ih =>
    have hall := List.forall₂_iff_zip.mpr ⟨hlen, fun {f v} hp => ih (f, v) hp (.key f.key :: path)⟩
    rw [valueOf_eq (by simp), presentOf, Result.mapM_eq_ok.mpr hall]
    rfl
  | absent ht => rw [valueOf_null, if_pos ht]
  | @present t j v ht hj _ ih =>
    have := ih path
    rw [valueOf_eq hj, presentOf_required, Result.map_eq_ok] at this
    obtain ⟨w, hw, hwrap⟩ := this
    rw [Ty.wrap_of_required t.optional_required] at hwrap
    rw [valueOf_eq hj, hw, hwrap, ← Ty.wrap_of_optional ht]
    rfl

/-- What a document describes is typed. -/
theorem Describes.typed {t : Ty} {j : Json} {v : Value} (h : s.Describes t j v) : s.Typed t v := by
  induction h with
  | bool b => exact .bool b
  | scalar hx => exact Number.kind_of_scalar? hx ▸ .scalar _
  | text hlen => exact .text hlen
  | @list e items values hmax hlen _ ih =>
    refine .list (hlen ▸ hmax) fun v hv => ?_
    obtain ⟨j, hj⟩ := Result.exists_mem_zip hlen hv
    exact ih (j, v) hj
  | record hlen _ ih => exact .record hlen ih
  | absent ht => exact .absent ht
  | present ht _ _ ih => exact .present ht ih

end Schema

end WireSchema
