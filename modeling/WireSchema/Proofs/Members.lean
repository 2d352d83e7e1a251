import WireSchema.Proofs.RoundTrip

/-!
# What an object keeps of a struct

A struct becomes an object with a member for each field that is there. Members are known by the keys
of the fields, and nothing that is checked of a schema makes these keys different: a tag gives a
field whatever key it likes, and fields declared together share one tag. A later field then takes the
place of an earlier one. So an object holds **the last field of every key**, and it holds all fields
that are there **exactly if no two of them share a key**.
-/

namespace WireSchema

open Wire

namespace Schema

variable (s : Schema)

/-! ## Parts of a value -/

/-- The values inside of a value of type `t`, with their types. -/
inductive Within (t : Ty) (v : Value) : Ty → Value → Prop where
  | self : Within t v t v
  | present {t' : Ty} {v' : Value} : Within t v t' (.present v') → Within t v t' v'
  | item {e : Ty} {o : Bool} {items : List Value} {v' : Value} :
      Within t v (.array e o) (.list items) → v' ∈ items → Within t v e v'
  | field {id : Nat} {o : Bool} {fields : List Value} {p : Field × Value} :
      Within t v (.struct id o) (.record fields) → p ∈ (s.fieldsOf id).zip fields →
      Within t v p.1.ty p.2

variable {s}

/-- What is inside a typed value is typed; behind the mark of an optional value, as a required one. -/
theorem Within.typed {t t' : Ty} {v v' : Value} (h : s.Within t v t' v') (hv : s.Typed t v) :
    s.Typed t' v' ∨ s.Typed t'.required v' := by
  induction h with
  | self => exact .inl hv
  | present _ ih =>
    rcases ih with hpresent | hpresent
    · cases hpresent with
      | present _ hrequired => exact .inr hrequired
    · -- a required type has no values that are marked
      generalize hr : Ty.required _ = r at hpresent
      cases hpresent with
      | present hoptional _ =>
        rw [← hr, Ty.optional_required] at hoptional
        exact absurd hoptional (by simp)
  | item _ hitem ih =>
    rcases ih with hlist | hlist
    · cases hlist with
      | list _ hall => exact .inl (hall _ hitem)
    · cases hlist with
      | list _ hall => exact .inl (hall _ hitem)
  | field _ hp ih =>
    rcases ih with hrecord | hrecord
    · cases hrecord with
      | record _ hall => exact .inl (hall _ hp)
    · cases hrecord with
      | record _ hall => exact .inl (hall _ hp)

theorem Within.record {t : Ty} {v : Value} {id : Nat} {o : Bool} {fields : List Value}
    (h : s.Within t v (.struct id o) (.record fields)) (hv : s.Typed t v) :
    (s.fieldsOf id).length = fields.length ∧
      ∀ p ∈ (s.fieldsOf id).zip fields, s.Typed p.1.ty p.2 := by
  rcases h.typed hv with hrecord | hrecord
  · cases hrecord with
    | record hlen hall => exact ⟨hlen, hall⟩
  · cases hrecord with
    | record hlen hall => exact ⟨hlen, hall⟩

/-! ## Fields that are there -/

/-- A field that is required, or whose value was marked as present. -/
def isThere (p : Field × Value) : Bool :=
  !p.1.ty.optional || !p.2.isAbsent

variable (s) in
/-- The fields of a record that are there. -/
def fieldsThere (id : Nat) (fields : List Value) : List (Field × Value) :=
  ((s.fieldsOf id).zip fields).filter isThere

/-- Only what is optional can be absent. -/
theorem Typed.isThere_eq {p : Field × Value} (h : s.Typed p.1.ty p.2) :
    isThere p = !p.2.isAbsent := by
  unfold isThere
  cases habsent : p.2.isAbsent with
  | false => simp
  | true =>
    generalize p.1.ty = t at h ⊢
    generalize p.2 = v at h habsent
    cases h with
    | absent hoptional => simp [hoptional]
    | _ => exact absurd habsent (by simp [Value.isAbsent])

variable (s) in
/-- The member of a field. -/
def memberOf (p : Field × Value) : String × Json :=
  (p.1.key, s.jsonOf p.1.ty p.2)

theorem jsonOf_record_of_typed {id : Nat} {o : Bool} {fields : List Value}
    (h : ∀ p ∈ (s.fieldsOf id).zip fields, s.Typed p.1.ty p.2) :
    s.jsonOf (.struct id o) (.record fields) = .object ((s.fieldsThere id fields).foldl
      (fun members p => Json.insertMember p.1.key (s.jsonOf p.1.ty p.2) members) []) := by
  have hthere : s.fieldsThere id fields
      = ((s.fieldsOf id).zip fields).filter fun p => !p.2.isAbsent :=
    List.filter_congr fun p hp => (h p hp).isThere_eq
  rw [jsonOf_record, membersOf_eq_foldl, hthere, entriesOf, List.filter_map, List.foldl_map]
  rfl

/-! ## Objects -/

/--
**An object holds the last field of every key, and all fields exactly if they have different keys.**
For every record inside of what was decoded, its object has each key once; a key holds the document of
the last field that is there and has this key; and the members are those of all the fields that are
there, in their order, exactly if no two of these fields share a key.
-/
theorem decode_keeps_last_of_key {message : String} {bytes : List UInt8} {d : Decoded}
    (h : s.decode message bytes = .ok d) {m : Message} (hm : s.message? message = some m) {id : Nat}
    {o : Bool} {fields : List Value}
    (hin : s.Within m.ty d.value (.struct id o) (.record fields)) :
    d.json = s.jsonOf m.ty d.value ∧ (s.fieldsOf id).length = fields.length ∧
      ∃ members, s.jsonOf (.struct id o) (.record fields) = .object members
        ∧ (members.map Prod.fst).Nodup
        ∧ (∀ key, members.lookup key =
            ((s.fieldsThere id fields).filter fun p => p.1.key == key).getLast?.map
              fun p => s.jsonOf p.1.ty p.2)
        ∧ (members = (s.fieldsThere id fields).map s.memberOf ↔
            ((s.fieldsThere id fields).map fun p => p.1.key).Nodup) := by
  obtain ⟨m', v, r, hm', hread, rfl⟩ := decode_eq_ok.mp h
  obtain rfl : m = m' := Option.some.inj (hm.symm.trans hm')
  rw [← s.value_traceValue] at hread
  obtain ⟨x, hx, rfl⟩ := Read.map_eq_ok hread
  obtain ⟨_, _, hspells⟩ := spells_of_traceValue hx
  obtain ⟨hlen, hall⟩ := hin.record hspells.typed
  refine ⟨rfl, hlen, _, jsonOf_record_of_typed hall, nodup_foldl_insertMember _ _ _, fun key => ?_, ?_⟩
  · rw [inserts_insertMember.lookup_foldl_getLast?, List.lookup_nil, Option.or_none]
  · constructor
    · intro hmembers
      have hnodup := nodup_foldl_insertMember (fun p : Field × Value => p.1.key)
        (fun p => s.jsonOf p.1.ty p.2) (s.fieldsThere id fields)
      rwa [hmembers, List.map_map] at hnodup
    · exact foldl_insertMember_of_nodup

end Schema

/-- The struct that is optional, inside of the message. -/
theorem within_readingValue : readingSchema.Within (.struct 0 false) readingValue (.struct 1 true)
    (.record [.bool true]) := by
  have hfield : ((⟨"State", ⟨6, 3⟩, .struct 1 true, none⟩ : Field),
        Value.present (.record [.bool true]))
      ∈ (readingSchema.fieldsOf 0).zip [Value.scalar (.int32 3), .scalar (.float32 0x3f800000),
        .list [.present (.text "hé"), .absent], .present (.record [.bool true])] := by
    simp [readingSchema, Schema.fieldsOf]
  exact .present (.field .self hfield)

theorem decode_keeps_last_of_key_reading :
    ∃ d, readingSchema.decode "Reading" readingBytes = .ok d ∧
      readingSchema.message? "Reading" = some ⟨"Reading", .struct 0 false⟩ ∧
      readingSchema.Within (.struct 0 false) d.value (.struct 1 true) (.record [.bool true]) ∧
      ∃ members, readingSchema.jsonOf (.struct 1 true) (.record [.bool true]) = .object members ∧
        (members.map Prod.fst).Nodup ∧
        (∀ key, members.lookup key =
          ((readingSchema.fieldsThere 1 [.bool true]).filter fun p => p.1.key == key).getLast?.map
            fun p => readingSchema.jsonOf p.1.ty p.2) ∧
        (members = (readingSchema.fieldsThere 1 [.bool true]).map readingSchema.memberOf ↔
          ((readingSchema.fieldsThere 1 [.bool true]).map fun p => p.1.key).Nodup) := by
  have hdecode : readingSchema.decode "Reading" readingBytes
      = .ok ⟨"Reading", readingValue, _, 19, 0⟩ :=
    Schema.decode_eq_ok.mpr ⟨_, _, _, rfl, takes_readingBytes.ok 0 [], rfl⟩
  obtain ⟨_, _, hmembers⟩ := Schema.decode_keeps_last_of_key hdecode rfl within_readingValue
  exact ⟨_, hdecode, rfl, within_readingValue, hmembers⟩

/-! ### Two fields with one key -/

/-- Two fields that are declared together, and share their tag. -/
def twinText : String :=
  "package p\n" ++
  "type Twin struct \x7b First, Second int32 \x60json:\"value\"\x60 \x7d\n"

def twinSchema : Schema where
  package := "p"
  structs := [
    ⟨"Twin", ⟨2, 6⟩, [
      ⟨"First", ⟨2, 20⟩, .primitive (.number .int32) false, some "json:\"value\""⟩,
      ⟨"Second", ⟨2, 27⟩, .primitive (.number .int32) false, some "json:\"value\""⟩]⟩]
  declarations := [⟨"Twin", ⟨2, 6⟩, .struct 0 false⟩]
  messages := [⟨"Twin", .struct 0 false⟩]

def twinLayout : Layout := ⟨true, 8, 8, false, false, 0⟩

def twin : Compiled where
  schema := twinSchema
  analysis := {
    structs := [twinLayout]
    declarations := [("Twin", twinLayout)]
    messages := [("Twin", twinLayout)] }

theorem compile_twinText : compile twinText = .ok twin := by
  have hparse : Schema.parse twinText = .ok twinSchema := by decide +kernel
  have hanalyze : twinSchema.analyze = .ok twin.analysis := by decide
  exact compile_of_ordered hparse (by decide) (by decide) hanalyze

theorem key_value (name : String) (pos : Position) (ty : Ty) :
    Field.key ⟨name, pos, ty, some "json:\"value\""⟩ = "value" := by
  have hname : (Tag.value? "json:\"value\"" "json").map Tag.firstOption = some "value" := by
    cbv
  unfold Field.key
  dsimp only [Option.bind_some]
  rw [hname]
  rfl

/-- One is what the first field holds, and the document does not have it. -/
theorem shared_key_loses_field :
    compile twinText = .ok twin ∧
      twinSchema.decode "Twin" [1, 0, 0, 0, 2, 0, 0, 0] = .ok {
        message := "Twin", value := .record [.scalar (.int32 1), .scalar (.int32 2)]
        json := .object [("value", .number (.int 2))], size := 8, trailing := 0 } := by
  have hlawful := Compiled.lawful_of_compile compile_twinText
  obtain ⟨rank, hr⟩ := hlawful.exists_rank
  have hrange := hlawful.inRange.messages ⟨"Twin", .struct 0 false⟩ List.mem_cons_self
  have htyped : twinSchema.Typed (.struct 0 false)
      (.record [.scalar (.int32 1), .scalar (.int32 2)]) :=
    .record rfl (List.forall_mem_cons.mpr ⟨.scalar (.int32 1),
      List.forall_mem_singleton.mpr (.scalar (.int32 2))⟩)
  have hbytes : (Value.record [.scalar (.int32 1), .scalar (.int32 2)]).encode
      = [1, 0, 0, 0, 2, 0, 0, 0] := by
    simp only [Value.encode, List.flatMap_cons, List.flatMap_nil]
    decide
  have hread := (htyped.takes_readValue hr hrange).ok 0 []
  rw [hbytes] at hread
  refine ⟨compile_twinText, Schema.decode_eq_ok.mpr ⟨_, _, _, rfl, hread, ?_⟩⟩
  have hfields : twinSchema.entriesOf 0 [.scalar (.int32 1), .scalar (.int32 2)]
      = [("value", .scalar (.int32 1), .number (.int 1)),
        ("value", .scalar (.int32 2), .number (.int 2))] := by
    simp only [Schema.entriesOf, twinSchema, Schema.fieldsOf, List.getElem?_cons_zero,
      List.zip_cons_cons, List.zip_nil_left, List.map_cons, List.map_nil, key_value, Schema.jsonOf]
    rfl
  rw [Schema.jsonOf_record, hfields]
  rfl

end WireSchema
