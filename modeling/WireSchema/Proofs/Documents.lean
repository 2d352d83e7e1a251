import WireSchema.Data.Decode
import WireSchema.Proofs.Conforming
import WireSchema.Proofs.Lookup
import WireSchema.Proofs.Rounding
import Mathlib.Data.List.Nodup

/-!
# What the wire leaves of a document

A document that is turned into a value and back does not come back as it was: keys that the schema
does not know are gone, and so are keys that hold `null`; the others stand in the order of the
fields, numbers are of the kind that the type says, and floats are as precise as the type is.
`normal` says this by recursion on the document, without any bytes or values, and the results here
are:

* the document of a value is the **normal form** of every document that describes the value;
* if no two fields of a struct share a key, the document of a value without infinities and NaNs
  **describes the value** and passes the check.
-/

namespace WireSchema

/-! ## Documents that JSON can write -/

/-- A number that JSON can write: an integer of 64 bits, with or without a sign, or a finite
double. -/
def Number.Valid : Number → Prop
  | .int i => -(2 : Int) ^ (63 : Nat) ≤ i ∧ i < 2 ^ (64 : Nat)
  | .float x => x.isFinite = true

instance : DecidablePred Number.Valid
  | .int i => inferInstanceAs (Decidable (-(2 : Int) ^ (63 : Nat) ≤ i ∧ i < 2 ^ (64 : Nat)))
  | .float x => inferInstanceAs (Decidable (x.isFinite = true))

theorem Number.Valid.isFinite {n : Number} (h : n.Valid) : n.toDouble.isFinite = true := by
  cases n with
  | int i =>
    refine Double.isFinite_ofInt ?_
    have hi : -(2 : Int) ^ 63 ≤ i ∧ i < 2 ^ 64 := h
    omega
  | float x => exact h

namespace Json

/-- Every number in the document is one that JSON can write. -/
inductive Valid : Json → Prop where
  | null : Valid .null
  | bool (b : Bool) : Valid (.bool b)
  | number {n : Number} : n.Valid → Valid (.number n)
  | string (s : String) : Valid (.string s)
  | array {items : List Json} : (∀ j ∈ items, Valid j) → Valid (.array items)
  | object {members : List (String × Json)} : (∀ m ∈ members, Valid m.2) → Valid (.object members)

theorem Valid.held {members : List (String × Json)} (h : ∀ m ∈ members, m.2.Valid) (key : String) :
    (held key members).Valid := by
  rw [Json.held]
  cases hk : members.lookup key with
  | none => exact .null
  | some j =>
    obtain ⟨l₁, l₂, hl, _⟩ := List.lookup_eq_some_iff.mp hk
    exact h (key, j) (hl ▸ by simp)

def isNull : Json → Bool
  | .null => true
  | _ => false

end Json

/-! ## Normal forms -/

/-- What is left of a number: the integer it stands for, or the float of the right precision. -/
def Number.normal (n : Number) : Numeric → Number
  | .float32 => .float (Single.ofDouble n.toDouble).toDouble
  | .float64 => .float n.toDouble
  | _ =>
    match n.toInt? with
    | some i => .int i
    | none => n

/--
What is left of a document of a type. An object keeps what its fields hold, in their order, and
nothing where a field holds `null`.
-/
def Schema.normal (s : Schema) (t : Ty) (j : Json) : Json :=
  match t, j with
  | .primitive (.number k) _, .number n => .number (n.normal k)
  | .array e _, .array items => .array (items.map fun item => s.normal e item)
  | .struct id _, .object members =>
    .object <| (s.fieldsOf id).foldl
      (fun built f =>
        have := Json.sizeOf_held_lt f.key members
        if (Json.held f.key members).isNull then built
        else Json.insertMember f.key (s.normal f.ty (Json.held f.key members)) built)
      []
  | _, j => j
termination_by sizeOf j

namespace Schema

variable {s : Schema}

/-! ## The equations of normal forms and of documents of values -/

theorem normal_null (t : Ty) : s.normal t .null = .null := by
  cases t <;> rw [normal] <;> simp

theorem normal_withOptional (t : Ty) (o : Bool) (j : Json) :
    s.normal (t.withOptional o) j = s.normal t j := by
  cases t with
  | primitive p _ => cases p <;> cases j <;> simp [Ty.withOptional, normal]
  | _ => cases j <;> simp [Ty.withOptional, normal]

theorem jsonOf_withOptional (t : Ty) (o : Bool) (v : Value) :
    s.jsonOf (t.withOptional o) v = s.jsonOf t v :=
  match v with
  | .present v => by
    rw [jsonOf, jsonOf]
    exact jsonOf_withOptional t o v
  | .list items => by cases t <;> simp [Ty.withOptional, jsonOf]
  | .record fields => by cases t <;> simp [Ty.withOptional, jsonOf]
  | .bool _ | .scalar _ | .text _ | .absent => by rw [jsonOf, jsonOf]

variable (s) in
/-- The fields of a record with their keys and their documents. -/
def entriesOf (id : Nat) (fields : List Value) : List (String × Value × Json) :=
  ((s.fieldsOf id).zip fields).map fun p => (p.1.key, p.2, s.jsonOf p.1.ty p.2)

theorem jsonOf_record {id : Nat} {o : Bool} {fields : List Value} :
    s.jsonOf (.struct id o) (.record fields) = .object (membersOf (s.entriesOf id fields)) := by
  have hattach : List.zipWith (fun f (v : { v // v ∈ fields }) => (f.key, v.1, s.jsonOf f.ty v.1))
      (s.fieldsOf id) fields.attach = s.entriesOf id fields := by
    rw [entriesOf, List.map_zip_eq_zipWith]
    conv => rhs; rw [← List.attach_map_subtype_val fields, List.zipWith_map_right]
    rfl
  rw [jsonOf, hattach]

/-! ## From a document to a value and back -/

theorem Describes.isAbsent_eq {t : Ty} {j : Json} {v : Value} (h : s.Describes t j v) :
    v.isAbsent = j.isNull := by
  cases h with
  | present _ hj _ =>
    cases j with
    | null => exact absurd rfl hj
    | _ => rfl
  | _ => rfl

/-- The document of a scalar is the number it came from, in normal form. -/
theorem toJson_of_scalar? {n : Number} {k : Numeric} {x : Wire.Scalar} (hn : n.Valid)
    (hfits : n.Fits k) (h : n.scalar? k = some x) : x.toJson = .number (n.normal k) := by
  have hint : ∀ {i : Int}, n.integer? k = some i → n.toInt? = some i ∧ fitsWidth k.width i = true :=
    fun hi => Option.filter_eq_some_iff.mp hi
  cases k with
  | float32 =>
    cases h
    -- this is what the range check is for: the single is finite, and so it can be written
    have hfin := (Single.toDouble_spec (Single.isFinite_ofDouble hn.isFinite hfits)).1
    exact if_pos hfin
  | float64 =>
    cases h
    exact if_pos hn.isFinite
  | _ =>
    obtain ⟨i, hi, rfl⟩ := Option.map_eq_some_iff.mp h
    obtain ⟨hi, hwidth⟩ := hint hi
    have hrange := of_decide_eq_true hwidth
    simp only [Numeric.width, Nat.reduceMul, Nat.reduceSub] at hrange
    simp only [Wire.Scalar.toJson, Number.normal, hi, Int8.toInt_ofInt_of_le,
      Int16.toInt_ofInt_of_le, Int32.toInt_ofInt_of_le, Int64.toInt_ofInt_of_le, hrange]

theorem membersOf_entriesOf {id : Nat} {fields : List Value} {doc : Field → Json}
    {members : List (String × Json)} (hlen : (s.fieldsOf id).length = fields.length)
    (h : ∀ p ∈ (s.fieldsOf id).zip fields, p.2.isAbsent = (Json.held p.1.key members).isNull ∧
      s.jsonOf p.1.ty p.2 = doc p.1) :
    membersOf (s.entriesOf id fields) = (s.fieldsOf id).foldl (fun built f =>
        if (Json.held f.key members).isNull then built else Json.insertMember f.key (doc f) built)
      [] := by
  rw [membersOf, entriesOf, List.foldl_map]
  refine Result.foldl_zip_eq hlen (fun p hp built => ?_) []
  obtain ⟨habsent, hdoc⟩ := h p hp
  dsimp only
  rw [habsent, hdoc]

/-- **What comes back is the normal form**, for a document that passes the check. -/
theorem Describes.jsonOf {t : Ty} {j : Json} {v : Value} (h : s.Describes t j v)
    (hc : s.Conforms t j) (hv : j.Valid) : s.jsonOf t v = s.normal t j := by
  induction h with
  | bool b => rw [Schema.jsonOf, normal] <;> simp
  | scalar hx =>
    cases hc with
    | number hn =>
      cases hv with
      | number hv => rw [Schema.jsonOf, normal, toJson_of_scalar? hv hn hx]
  | text _ => rw [Schema.jsonOf, normal] <;> simp
  | @list e items values _ hlen _ ih =>
    cases hc with
    | list _ hc =>
      cases hv with
      | array hv =>
        rw [Schema.jsonOf, normal]
        refine congrArg Json.array (Result.map_eq_map_of_zip hlen fun p hp => ?_).symm
        have hitem := (List.of_mem_zip hp).1
        exact (ih p hp (hc p.1 hitem) (hv p.1 hitem)).symm
  | @record id members fields hlen hall ih =>
    cases hc with
    | record hc =>
      cases hv with
      | object hv =>
        -- a field is left out on both sides exactly if its key holds nothing
        rw [jsonOf_record, normal]
        refine congrArg Json.object (membersOf_entriesOf hlen fun p hp => ?_)
        refine ⟨(hall p hp).isAbsent_eq, ?_⟩
        exact ih p hp (hc p.1 (List.of_mem_zip hp).1) (Json.Valid.held hv _)
  | absent _ => rw [Schema.jsonOf, normal_null]
  | @present t j v ht hj _ ih =>
    rw [Schema.jsonOf, ← jsonOf_withOptional t false, ← normal_withOptional t false]
    exact ih (hc.withOptional hj false) hv

end Schema

/-! ## Floats in values -/

namespace Value

theorem foldr_nonFiniteBefore {values : List Value}
    (h : ∀ v ∈ values, ∀ others, v.nonFiniteBefore others = v.nonFinite ++ others)
    (others : List Double) :
    values.foldr (fun v others => v.nonFiniteBefore others) others
      = values.flatMap nonFinite ++ others := by
  induction values with
  | nil => rfl
  | cons v values ih =>
    rw [List.foldr_cons, h v List.mem_cons_self, ih fun w hw => h w (List.mem_cons_of_mem _ hw),
      List.flatMap_cons, List.append_assoc]

theorem nonFiniteBefore_eq (v : Value) (others : List Double) :
    v.nonFiniteBefore others = v.nonFinite ++ others :=
  match v with
  | .list items => by
    have hall := foldr_nonFiniteBefore fun w (_ : w ∈ items) => nonFiniteBefore_eq w
    rw [nonFinite, nonFiniteBefore, nonFiniteBefore, hall, hall, List.append_nil]
  | .record fields => by
    have hall := foldr_nonFiniteBefore fun w (_ : w ∈ fields) => nonFiniteBefore_eq w
    rw [nonFinite, nonFiniteBefore, nonFiniteBefore, hall, hall, List.append_nil]
  | .present v => by
    have hv := nonFiniteBefore_eq v others
    rw [nonFinite, nonFiniteBefore, nonFiniteBefore, hv, nonFinite]
  | .scalar x => by rw [nonFinite, nonFiniteBefore, nonFiniteBefore, List.append_nil]
  | .bool _ | .text _ | .absent => by
    rw [nonFinite, nonFiniteBefore, nonFiniteBefore, List.nil_append] <;> simp

theorem nonFinite_list (items : List Value) :
    (Value.list items).nonFinite = items.flatMap nonFinite := by
  rw [nonFinite, nonFiniteBefore, foldr_nonFiniteBefore fun v _ => nonFiniteBefore_eq v,
    List.append_nil]

theorem nonFinite_record (fields : List Value) :
    (Value.record fields).nonFinite = fields.flatMap nonFinite := by
  rw [nonFinite, nonFiniteBefore, foldr_nonFiniteBefore fun v _ => nonFiniteBefore_eq v,
    List.append_nil]

theorem nonFinite_present (v : Value) : (Value.present v).nonFinite = v.nonFinite := by
  rw [nonFinite, nonFiniteBefore, nonFinite]

end Value

/-- A scalar without infinities and NaNs is written as a number that stands for it. -/
theorem Wire.Scalar.toJson_spec {x : Scalar} (h : (Value.scalar x).nonFinite = []) :
    ∃ n, x.toJson = .number n ∧ n.scalar? x.kind = some x ∧ n.Fits x.kind := by
  have hfinite : ∀ d, x.double? = some d → d.isFinite = true := by
    intro d hd
    rw [Value.nonFinite, Value.nonFiniteBefore, hd] at h
    cases hfin : d.isFinite with
    | true => rfl
    | false => simp [hfin] at h
  cases x with
  | float32 bits =>
    have hfin := hfinite _ rfl
    have hsingle : Single.isFinite ⟨bits⟩ = true := (Single.isFinite_toDouble _).symm.trans hfin
    refine ⟨.float (Single.toDouble ⟨bits⟩), if_pos hfin, ?_, Single.exceedsSingle_toDouble hsingle⟩
    rw [Scalar.kind, Number.scalar?, Number.toDouble, Single.ofDouble_toDouble hsingle]
  | float64 bits => exact ⟨.float ⟨bits⟩, if_pos (hfinite _ rfl), rfl, trivial⟩
  | _ v =>
    -- an integer of the type is in the range of the type
    have hlow := v.le_toInt
    have hhigh := v.toInt_lt
    refine ⟨.int v.toInt, rfl, ?_, ?_⟩ <;>
      simp_all [Scalar.kind, Number.scalar?, Number.Fits, Number.integer?, Number.toInt?, fitsWidth,
        Numeric.width]

/-! ## From a value to a document and back -/

/-- Entries of values that are absent are passed over. -/
theorem membersOf_eq_foldl (entries : List (String × Value × Json)) :
    membersOf entries = (entries.filter fun e => !e.2.1.isAbsent).foldl
      (fun members e => Json.insertMember e.1 e.2.2 members) [] := by
  rw [List.foldl_filter, membersOf]
  congr 1
  funext members ⟨key, value, j⟩
  cases hv : value.isAbsent <;> simp [hv]

theorem held_membersOf {entries : List (String × Value × Json)} (hn : (entries.map Prod.fst).Nodup)
    {key : String} {v : Value} {j : Json} (hmem : (key, v, j) ∈ entries)
    (habsent : v.isAbsent = true → j = .null) : Json.held key (membersOf entries) = j := by
  have hsub : ((entries.filter fun e => !e.2.1.isAbsent).map Prod.fst).Sublist
      (entries.map Prod.fst) := List.filter_sublist.map _
  rw [Json.held, membersOf_eq_foldl]
  cases hv : v.isAbsent with
  | false =>
    have hkept : (key, v, j) ∈ entries.filter fun e => !e.2.1.isAbsent :=
      List.mem_filter.mpr ⟨hmem, by simp [hv]⟩
    rw [inserts_insertMember.lookup_foldl (hn.sublist hsub) hkept []]
    rfl
  | true =>
    -- the key is that of this entry and of no other, and this one is left out
    have hleft : key ∉ (entries.filter fun e => !e.2.1.isAbsent).map Prod.fst := by
      intro hkey
      obtain ⟨e, he, rfl⟩ := List.mem_map.mp hkey
      obtain ⟨he, hpresent⟩ := List.mem_filter.mp he
      have hsame : e = (e.1, v, j) := List.inj_on_of_nodup_map hn he hmem rfl
      rw [hsame, hv] at hpresent
      exact absurd hpresent (by decide)
    rw [inserts_insertMember.lookup_foldl_of_not_mem hleft, habsent hv]
    rfl

theorem Json.mem_insertMember {α : Type} {key : String} {value : α} {members : List (String × α)}
    {m : String × α} (h : m ∈ insertMember key value members) : m.2 = value ∨ m ∈ members := by
  induction members with
  | nil =>
    rw [insertMember, List.mem_singleton] at h
    exact .inl (by rw [h])
  | cons entry rest ih =>
    obtain ⟨k, v⟩ := entry
    unfold insertMember at h
    split at h
    · rcases List.mem_cons.mp h with rfl | h
      · exact .inl rfl
      · exact .inr (List.mem_cons_of_mem _ h)
    · rcases List.mem_cons.mp h with rfl | h
      · exact .inr List.mem_cons_self
      · exact (ih h).imp_right (List.mem_cons_of_mem _)

theorem valid_membersOf {entries : List (String × Value × Json)} (h : ∀ e ∈ entries, e.2.2.Valid) :
    ∀ m ∈ membersOf entries, m.2.Valid := by
  have hstep : ∀ (members : List (String × Json)), (∀ m ∈ members, m.2.Valid) → ∀ e ∈ entries,
      ∀ m ∈ (if e.2.1.isAbsent then members else Json.insertMember e.1 e.2.2 members),
        m.2.Valid := by
    intro members hmembers e he m hm
    split at hm
    · exact hmembers m hm
    · rcases Json.mem_insertMember hm with hj | hm
      · rw [hj]
        exact h e he
      · exact hmembers m hm
  exact List.foldlRecOn entries _ (fun m hm => absurd hm (by simp)) hstep

theorem Wire.Scalar.valid_toJson (x : Scalar) : x.toJson.Valid := by
  have hfloat : ∀ d : Double, (if d.isFinite then Json.number (.float d) else .null).Valid := by
    intro d
    split
    · rename_i hd
      exact .number hd
    · exact .null
  have hint : ∀ i : Int, -(2 : Int) ^ 63 ≤ i → i < 2 ^ 63 → (Json.number (.int i)).Valid :=
    fun i hlow hhigh => .number ⟨hlow, Int.lt_trans hhigh (by decide)⟩
  cases x with
  | float32 bits => exact hfloat _
  | float64 bits => exact hfloat _
  | _ v =>
    have hlow := v.le_toInt
    have hhigh := v.toInt_lt
    exact hint v.toInt (by omega) (by omega)

/-- The document of a value can be written. -/
theorem Schema.valid_jsonOf (s : Schema) (t : Ty) (v : Value) : (s.jsonOf t v).Valid :=
  match v with
  | .bool b => by
    rw [jsonOf]
    exact .bool b
  | .scalar x => by
    rw [jsonOf]
    exact x.valid_toJson
  | .text text => by
    rw [jsonOf]
    exact .string text
  | .absent => by
    rw [jsonOf]
    exact .null
  | .present v => by
    rw [jsonOf]
    exact valid_jsonOf s t v
  | .list items => by
    cases t with
    | array e o =>
      rw [jsonOf]
      refine .array fun j hj => ?_
      obtain ⟨item, hitem, rfl⟩ := List.mem_map.mp hj
      exact valid_jsonOf s e item
    | _ =>
      rw [jsonOf] <;> simp [Json.Valid.null]
  | .record fields => by
    cases t with
    | struct id o =>
      rw [jsonOf_record]
      refine .object (valid_membersOf fun e he => ?_)
      obtain ⟨p, hp, rfl⟩ := List.mem_map.mp he
      have hfield := (List.of_mem_zip hp).2
      exact valid_jsonOf s p.1.ty p.2
    | _ =>
      rw [jsonOf] <;> simp [Json.Valid.null]

namespace Schema

variable {s : Schema}

variable (s) in
/-- No two fields of a struct share a key. -/
def DistinctKeys : Prop :=
  ∀ d ∈ s.structs, (d.fields.map (·.key)).Nodup

theorem DistinctKeys.fieldsOf (h : s.DistinctKeys) (id : Nat) :
    ((s.fieldsOf id).map (·.key)).Nodup := by
  unfold Schema.fieldsOf
  split
  · rename_i d hd
    exact h d (List.mem_of_getElem? hd)
  · exact List.nodup_nil

theorem Holds.jsonOf_ne_null {t : Ty} {v : Value} (h : s.Holds t v) (ht : t.optional = false)
    (hf : v.nonFinite = []) : s.jsonOf t v ≠ .null := by
  cases h with
  | bool b =>
    rw [jsonOf]
    simp
  | scalar x =>
    obtain ⟨n, hn, _⟩ := Wire.Scalar.toJson_spec hf
    rw [jsonOf, hn]
    simp
  | text _ =>
    rw [jsonOf]
    simp
  | list _ =>
    rw [jsonOf]
    simp
  | record _ _ =>
    rw [jsonOf_record]
    simp
  | absent hopt => exact absurd (hopt.symm.trans ht) (by simp)
  | present hopt _ => exact absurd (hopt.symm.trans ht) (by simp)

theorem jsonOf_of_isAbsent {v : Value} (h : v.isAbsent = true) (t : Ty) : s.jsonOf t v = .null := by
  cases v with
  | absent => rw [jsonOf]
  | _ => exact absurd h (by simp [Value.isAbsent])

/-- The keys of a record hold the documents of its fields. -/
theorem DistinctKeys.held (hk : s.DistinctKeys) {id : Nat} {fields : List Value}
    (hlen : (s.fieldsOf id).length = fields.length) {p : Field × Value}
    (hp : p ∈ (s.fieldsOf id).zip fields) :
    Json.held p.1.key (membersOf (s.entriesOf id fields)) = s.jsonOf p.1.ty p.2 := by
  have hkeys : (s.entriesOf id fields).map Prod.fst = (s.fieldsOf id).map (·.key) := by
    rw [entriesOf, List.map_map, ← List.map_fst_zip (Nat.le_of_eq hlen), List.map_map,
      List.map_fst_zip (Nat.le_of_eq hlen)]
    rfl
  have hmem : (p.1.key, p.2, s.jsonOf p.1.ty p.2) ∈ s.entriesOf id fields :=
    List.mem_map.mpr ⟨p, hp, rfl⟩
  exact held_membersOf (hkeys ▸ hk.fieldsOf id) hmem fun habsent => jsonOf_of_isAbsent habsent _

/-- **The document of a value describes it and passes the check.** -/
theorem Typed.describes (hk : s.DistinctKeys) {t : Ty} {v : Value} (h : s.Typed t v)
    (hf : v.nonFinite = []) :
    s.Describes t (s.jsonOf t v) v ∧ s.Conforms t (s.jsonOf t v) := by
  induction h with
  | bool b =>
    rw [jsonOf]
    exact ⟨.bool b, .bool b⟩
  | scalar x =>
    obtain ⟨n, hn, hx, hfits⟩ := Wire.Scalar.toJson_spec hf
    rw [jsonOf, hn]
    exact ⟨.scalar hx, .number hfits⟩
  | text hlen =>
    rw [jsonOf]
    exact ⟨.text hlen, .text hlen⟩
  | @list e items hmax _ ih =>
    rw [Value.nonFinite_list, List.flatMap_eq_nil_iff] at hf
    have hmax' : (items.map (s.jsonOf e)).length ≤ Wire.maxLength := by rwa [List.length_map]
    rw [jsonOf]
    have hall : List.Forall₂ (s.Describes e) (items.map (s.jsonOf e)) items :=
      List.forall₂_map_left_iff.mpr (List.forall₂_same.mpr fun v hv => (ih v hv (hf v hv)).1)
    refine ⟨.list hmax' (List.length_map _) fun p hp => ?_, .list hmax' fun j hj => ?_⟩
    · exact (List.forall₂_iff_zip.mp hall).2 hp
    · obtain ⟨v, hv, rfl⟩ := List.mem_map.mp hj
      exact (ih v hv (hf v hv)).2
  | @record id fields hlen _ ih =>
    rw [Value.nonFinite_record, List.flatMap_eq_nil_iff] at hf
    rw [jsonOf_record]
    -- every key holds the document of its own field, so the fields can be taken one by one
    refine ⟨.record hlen fun p hp => ?_, .record fun f hfield => ?_⟩
    · rw [hk.held hlen hp]
      exact (ih p hp (hf p.2 (List.of_mem_zip hp).2)).1
    · obtain ⟨v, hp⟩ := Result.exists_mem_zip_left hlen hfield
      rw [hk.held hlen hp]
      exact (ih (f, v) hp (hf v (List.of_mem_zip hp).2)).2
  | absent ht =>
    rw [jsonOf]
    exact ⟨.absent ht, .null ht⟩
  | @present t v ht hv ih =>
    rw [Value.nonFinite_present] at hf
    -- `null` would stand for a value that is absent
    have hnull := hv.holds.jsonOf_ne_null t.optional_required hf
    obtain ⟨hd, hc⟩ := ih hf
    rw [Ty.required, jsonOf_withOptional] at hd hc hnull
    have hc := hc.withOptional hnull t.optional
    rw [Ty.withOptional_withOptional, Ty.withOptional_optional] at hc
    rw [jsonOf]
    exact ⟨.present ht hnull hd, hc⟩

end Schema

end WireSchema
