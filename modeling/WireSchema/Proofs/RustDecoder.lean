import WireSchema.Proofs.Reachable
import WireSchema.Proofs.RoundTrip
import WireSchema.Proofs.Runs
import WireSchema.Proofs.RustStatements

/-!
# Rust decoders read what decoding reads

A struct is decoded in steps, each of which binds its fields. A block of fields is read at once
where decoding reads field by field, which is a difference in the numbers of an error only; a later
step leaves the fields of the earlier ones as they are. So **running the function of a message
succeeds exactly if decoding does, on the same bytes and with the same value, and fails for the same
kind of reason**.
-/

namespace WireSchema.RustCode

open Wire
open Naming (isRustLocal rustField)

variable {call : Nat → Run Value}

/-! ## Blocks of fields -/

/-- The value of a primitive whose bytes these are. -/
def ofBlock : Primitive → List UInt8 → Value
  | .bool, block => .bool (block.headD 0 != 0)
  | .number kind, block => .scalar (Scalar.decode kind block)
  | .string, _ => .absent

theorem read_eq_ofBlock {p : Primitive} {width : Nat} (h : p.width? = some width) :
    p.read = do return ofBlock p (← Read.bytes width) := by
  cases p with
  | bool =>
    obtain rfl := Option.some.inj h
    simp [Primitive.read, Read.bool, Read.byte_eq, ofBlock]
  | number kind =>
    obtain rfl := Option.some.inj h
    simp [Primitive.read, Read.scalar, ofBlock]
  | string => cases h

/-- The value of a field whose bytes these are. -/
def fieldValue (f : Field) (block : List UInt8) : Value :=
  match f.ty with
  | .primitive p _ => ofBlock p block
  | _ => .absent

/-- **Fields of fixed width can be read as one block.** -/
theorem alike_fields {fields : List Field} (h : ∀ f ∈ fields, f.IsFixed)
    (readStruct : Nat → Read Value) :
    Read.Alike
      (do
        let block ← Read.bytes (fields.map Field.width).sum
        return Read.carve Field.width fieldValue fields block)
      (fields.mapM fun f => f.ty.read readStruct) := by
  have hall : ∀ f ∈ fields, (do return fieldValue f (← Read.bytes f.width))
      = f.ty.read readStruct := by
    intro f hf
    obtain ⟨p, hty, hwidth⟩ := (h f hf).exists_primitive
    rw [hty, Ty.read, readOptional, if_neg (by simp), read_eq_ofBlock hwidth]
    simp only [fieldValue, hty]
  rw [← Schema.mapM_congr hall]
  exact (Read.alike_carve Field.width fieldValue fields).symm

/-- A field of a block has the value of its part of the bytes. -/
theorem value?_of_le {f : Field} {p : Primitive} (hty : f.ty = .primitive p false)
    (hwidth : p.width? = some f.width) {offset : Nat} {block : List UInt8}
    (hlen : offset + f.width ≤ block.length) :
    RunField.value? ⟨rustField f.name, p.numeric?, offset, f.width⟩ block
      = some (fieldValue f ((block.drop offset).take f.width)) := by
  cases p with
  | bool =>
    have hone : f.width = 1 := (Option.some.inj hwidth).symm
    have hlt : offset < block.length := by omega
    have hhead : ((block.drop offset).take f.width).headD 0 = block[offset] := by
      rw [hone, List.drop_eq_getElem_cons hlt]
      rfl
    rw [RunField.value?, fieldValue, hty]
    dsimp only [Primitive.numeric?]
    rw [List.getElem?_eq_getElem hlt, ofBlock, hhead]
    rfl
  | number kind =>
    rw [RunField.value?, fieldValue, hty]
    dsimp only [Primitive.numeric?]
    rw [if_pos ⟨hlen, (Option.some.inj hwidth).symm⟩, ofBlock]
  | string => exact nomatch hwidth

/-! ## Fields of a struct -/

/-- The names that the fields are bound to. -/
def fieldNames (fields : List Field) : List String :=
  fields.map fun f => rustField f.name

theorem fieldNames_append (fields fields' : List Field) :
    fieldNames (fields ++ fields') = fieldNames fields ++ fieldNames fields' :=
  List.map_append

/-- The names that a step can bind: those of its fields, and temporaries. -/
def IsBound (fields : List Field) (name : String) : Prop :=
  name ∈ fieldNames fields ∨ ∃ low high, IsTemporary low high name

/-- The fields stand for the values in the scope, which has nothing else that is new. -/
def Binds (fields : List Field) (scope scope' : Scope) (values : List Value) : Prop :=
  (fieldNames fields).map scope'.value? = values.map some ∧
    Scope.Adds (IsBound fields) scope scope'

theorem not_isBound_buffer (fields : List Field) : ¬ IsBound fields bufferVariable := by
  rintro (hfield | ⟨low, high, htemporary⟩)
  · obtain ⟨f, _, hf⟩ := List.mem_map.mp hfield
    exact ne_buffer_of_own (isRustLocal_rustField f.name) hf
  · exact htemporary.ne_buffer rfl

theorem not_isBound_field {fields : List Field} {f : Field}
    (h : rustField f.name ∉ fieldNames fields) : ¬ IsBound fields (rustField f.name) := by
  rintro (hfield | ⟨low, high, htemporary⟩)
  · exact h hfield
  · exact not_isTemporary_of_own (isRustLocal_rustField f.name) htemporary

theorem Binds.hasBuffer {fields : List Field} {scope scope' : Scope} {values : List Value}
    (h : Binds fields scope scope' values) (hbuf : scope.hasBuffer = true) :
    scope'.hasBuffer = true :=
  h.2.hasBuffer (not_isBound_buffer fields) hbuf

/-- A step leaves the fields before it as they are. -/
theorem Binds.append {fields fields' : List Field} {scope scope' scope'' : Scope}
    {values values' : List Value} (h : Binds fields scope scope' values)
    (h' : Binds fields' scope' scope'' values') (hn : (fieldNames (fields ++ fields')).Nodup) :
    Binds (fields ++ fields') scope scope'' (values ++ values') := by
  rw [fieldNames_append] at hn
  have hkept : (fieldNames fields).map scope''.value? = values.map some := by
    rw [← h.1]
    refine List.map_congr_left fun name hname => ?_
    obtain ⟨f, _, rfl⟩ := List.mem_map.mp hname
    have hnew : rustField f.name ∉ fieldNames fields' := fun hmem =>
      (List.nodup_append.mp hn).2.2 _ hname _ hmem rfl
    exact h'.2.value?_eq (not_isBound_field hnew)
  refine ⟨by rw [fieldNames_append, List.map_append, hkept, h'.1, List.map_append], ?_⟩
  refine (h.2.mono fun name hname => ?_).trans (h'.2.mono fun name hname => ?_)
  · refine hname.imp_left fun hfield => ?_
    rw [fieldNames_append]
    exact List.mem_append_left _ hfield
  · refine hname.imp_left fun hfield => ?_
    rw [fieldNames_append]
    exact List.mem_append_right _ hfield

/-- Binding the fields of a block, from one of them on. -/
theorem foldlM_runFields {block : String} {bytes : List UInt8} {fields : List Field}
    (hblock : block ∉ fieldNames fields) (hn : (fieldNames fields).Nodup)
    (hfixed : ∀ f ∈ fields, f.IsFixed) (offset : Nat) (scope : Scope)
    (hscope : scope.block? block = some bytes)
    (hlen : offset + (fields.map Field.width).sum ≤ bytes.length) :
    ∃ scope', (runFields offset fields).foldlM (RunField.bind block) scope = pure scope' ∧
      Binds fields scope scope' (Read.carve Field.width fieldValue fields (bytes.drop offset)) := by
  induction fields generalizing offset scope with
  | nil => exact ⟨scope, rfl, rfl, .refl scope⟩
  | cons f rest ih =>
    rw [List.map_cons, List.sum_cons] at hlen
    obtain ⟨p, hty, hwidth⟩ := (hfixed f List.mem_cons_self).exists_primitive
    let v := fieldValue f ((bytes.drop offset).take f.width)
    let next : Scope := (rustField f.name, .value v) :: scope
    have hbind : RunField.bind block scope ⟨rustField f.name, p.numeric?, offset, f.width⟩
        = pure next := by
      rw [RunField.bind, hscope, Run.ofOption, pure_bind, value?_of_le hty hwidth (by omega),
        Run.ofOption, pure_bind]
    have hne : block ≠ rustField f.name := fun h => hblock (h ▸ List.mem_cons_self)
    have hnext : next.block? block = some bytes := by
      rw [Scope.block?, List.lookup_cons_of_ne hne]
      exact hscope
    obtain ⟨scope', hfold, hbinds⟩ := ih (fun h => hblock (List.mem_cons_of_mem _ h))
      (List.nodup_cons.mp hn).2 (fun f' hf' => hfixed f' (List.mem_cons_of_mem _ hf'))
      (offset + f.width) next hnext (by omega)
    refine ⟨scope', by rw [runFields_cons hty hwidth, List.foldlM_cons, hbind, pure_bind, hfold], ?_⟩
    have hone : Binds [f] scope next [v] :=
      ⟨congrArg (· :: []) (Scope.value?_cons_self _ _ _),
        .cons (.refl scope) (.inl List.mem_cons_self) _⟩
    rw [← List.drop_drop] at hbinds
    exact hone.append hbinds hn

theorem follows_bytes {scope : Scope} (h : scope.hasBuffer = true) (n : Nat) :
    Follows (fun xs ys => xs = ys ∧ xs.length = n) (scope.read (Read.bytes n)) (Read.bytes n) := by
  intro r
  rw [Scope.read, if_pos h, Run.ofRead]
  by_cases hle : n ≤ r.rest.length
  · rw [Read.bytes_of_le hle]
    exact .ok _ ⟨rfl, by rw [List.length_take, Nat.min_eq_left hle]⟩
  · rw [Read.bytes_of_lt (by omega)]
    exact .error r r (.failed (.refl _))

/-- **What one step does.** -/
theorem follows_segment (bulkArrays : Bool) {segment : Segment} {readStruct : Nat → Read Value}
    (hfixed : ∀ run, segment = .run run → ∀ f ∈ run, f.IsFixed)
    (hn : (fieldNames segment.fields).Nodup)
    (hcall : ∀ f ∈ segment.fields, ∀ id, f.ty.innermost? = some id →
      Follows Eq (call id) (readStruct id))
    (low : Nat) (scope : Scope) (hbuf : scope.hasBuffer = true) :
    Follows (Binds segment.fields scope)
      (DecodeStep.exec call scope ((decodeSegment bulkArrays segment).run low).1)
      (segment.fields.mapM fun f => f.ty.read readStruct) := by
  cases segment with
  | single f =>
    have hown : IsOwn (some (rustField f.name)) := by
      intro name hname
      rw [← Option.some.inj hname]
      exact isRustLocal_rustField f.name
    have hreads := reads_decode bulkArrays (hcall f List.mem_cons_self) _ low hown
    rw [Segment.fields, List.mapM_cons, List.mapM_nil]
    simp only [pure_bind]
    change Follows _ (Decode.bind call scope (rustField f.name) _) _
    rw [← bind_pure (Decode.bind call scope (rustField f.name) _)]
    refine Mirrors.bind (hreads.bind scope _ rfl hbuf) fun scope' v hv => .pure ?_
    refine ⟨congrArg (· :: []) hv.1, hv.2.mono fun name hname => ?_⟩
    rcases hname with hgiven | htemporary
    · exact .inl (List.mem_singleton.mpr (Option.some.inj hgiven).symm)
    · exact .inr ⟨_, _, htemporary⟩
  | run fields =>
    have hfixed := hfixed fields rfl
    have hblock : temporary "run" low ∉ fieldNames fields := by
      intro hmem
      obtain ⟨f, _, hf⟩ := List.mem_map.mp hmem
      have hlocal := isRustLocal_rustField f.name
      rw [hf, isRustLocal_temporary (by decide)] at hlocal
      exact absurd hlocal (by simp)
    refine Follows.alike ?_ (alike_fields hfixed readStruct)
    have hstep : ((decodeSegment bulkArrays (.run fields)).run low).1
        = .run (temporary "run" low) ((runFields 0 fields).foldl (fun size f => size + f.width) 0)
          (runFields 0 fields) := rfl
    rw [hstep, DecodeStep.exec, size_runFields hfixed, Nat.zero_add]
    refine Mirrors.bind (follows_bytes hbuf _) fun bytes bytes' hbytes => ?_
    obtain ⟨rfl, hlen⟩ := hbytes
    obtain ⟨scope', hfold, hvalues, hadds⟩ := foldlM_runFields hblock hn hfixed 0
      ((temporary "run" low, .block bytes) :: scope) (by rw [Scope.block?, List.lookup_cons_self])
      (by omega)
    rw [hfold]
    refine .pure ⟨hvalues, Scope.Adds.trans (.cons (.refl scope) ?_ _) hadds⟩
    exact .inr ⟨low, low + 1, "run", by decide, low, Nat.le_refl _, Nat.lt_succ_self _, rfl⟩

/-- **What the steps of a struct do**, one after the other. -/
theorem follows_segments (bulkArrays : Bool) {segments : List Segment}
    {readStruct : Nat → Read Value}
    (hfixed : ∀ run, .run run ∈ segments → ∀ f ∈ run, f.IsFixed)
    (hn : (fieldNames (segments.flatMap Segment.fields)).Nodup)
    (hcall : ∀ f ∈ segments.flatMap Segment.fields, ∀ id, f.ty.innermost? = some id →
      Follows Eq (call id) (readStruct id))
    (low : Nat) (scope : Scope) (hbuf : scope.hasBuffer = true) :
    Follows (Binds (segments.flatMap Segment.fields) scope)
      (((segments.mapM (decodeSegment bulkArrays)).run low).1.foldlM (DecodeStep.exec call) scope)
      ((segments.flatMap Segment.fields).mapM fun f => f.ty.read readStruct) := by
  induction segments generalizing low scope with
  | nil => exact .pure ⟨rfl, .refl scope⟩
  | cons segment rest ih =>
    rw [List.flatMap_cons] at hn hcall ⊢
    have happend := hn
    rw [fieldNames_append] at happend
    obtain ⟨hfirst, hrest, _⟩ := List.nodup_append.mp happend
    rw [Fresh.run_mapM_cons, List.foldlM_cons, List.mapM_append]
    have hstep := follows_segment bulkArrays
      (fun run hrun => hfixed run (hrun ▸ List.mem_cons_self)) hfirst
      (fun f hf => hcall f (List.mem_append_left _ hf)) low scope hbuf
    refine Mirrors.bind hstep fun inside values hbinds => ?_
    rw [← bind_pure (List.foldlM _ inside _)]
    refine Mirrors.bind (ih (fun run hrun => hfixed run (List.mem_cons_of_mem _ hrun)) hrest
      (fun f hf => hcall f (List.mem_append_right _ hf)) _ inside (hbinds.hasBuffer hbuf))
      fun scope' values' hbinds' => .pure ?_
    exact hbinds.append hbinds' hn

/-! ## Structs and messages -/

/-- Fields that are all in scope can be put into a record. -/
theorem mapM_value? {scope : Scope} {names : List String} {values : List Value}
    (h : names.map scope.value? = values.map some) :
    (names.mapM fun name => Run.ofOption (scope.value? name)) = pure values := by
  induction names generalizing values with
  | nil =>
    rw [List.map_nil, eq_comm, List.map_eq_nil_iff] at h
    rw [h, List.mapM_nil]
  | cons name names ih =>
    obtain ⟨v, values, rfl⟩ : ∃ v rest, values = v :: rest := by
      cases values with
      | nil => exact nomatch h
      | cons v rest => exact ⟨v, rest, rfl⟩
    rw [List.map_cons, List.map_cons] at h
    injection h with hname hnames
    rw [List.mapM_cons, hname, ih hnames]
    rfl

variable {sel : Selection} {rank : Nat → Nat}

/-- **The routine of a struct reads the struct.** -/
theorem decodeFrom_follows (h : sel.Lawful rank) {depth id : Nat} (hid : id ∈ sel.structs)
    (hdepth : rank id < depth) :
    Follows Eq ((program sel).decodeFrom depth id) (sel.schema.readStruct depth id) := by
  induction depth generalizing id with
  | zero => exact absurd hdepth (Nat.not_lt_zero _)
  | succ depth ih =>
    have hfields := sel.schema.flatMap_fields_segments id
    -- a struct inside is selected too, and of lower rank
    have hcall : ∀ f ∈ (sel.schema.segments id).flatMap Segment.fields, ∀ target,
        f.ty.innermost? = some target → Follows Eq ((program sel).decodeFrom depth target)
          (sel.schema.readStruct depth target) := by
      intro f hf target ht
      rw [hfields] at hf
      have htarget := Schema.mem_targets hf ht
      have hlt := h.ranked.target_lt id target htarget
      exact ih (h.target_mem hid htarget) (by omega)
    have hnames : (fieldNames ((sel.schema.segments id).flatMap Segment.fields)).Nodup := by
      rw [hfields]
      exact h.rustNames id
    have hsteps := follows_segments sel.options.bulkArrays
      (fun run hrun => sel.schema.fixed_of_mem_segments hrun) hnames hcall 0
      [(bufferVariable, .buffer)] rfl
    rw [hfields] at hsteps
    rw [Program.decodeFrom, struct?_program hid, Schema.readStruct]
    refine Mirrors.bind hsteps fun scope values hbinds => ?_
    have hrecord := mapM_value? hbinds.1
    change ((structRoutines sel id).fields.mapM fun name => Run.ofOption (scope.value? name))
      = pure values at hrecord
    rw [hrecord]
    exact .pure rfl

/-- **The function of a message reads the message.** -/
theorem decode_follows (h : sel.Lawful rank) {m : Message} (hm : m ∈ sel.messages) {depth : Nat}
    (hd : sel.schema.structs.length ≤ depth) :
    Follows Eq ((program sel).decode depth m.name) (sel.schema.readValue m.ty) := by
  have hcall : ∀ id, m.ty.innermost? = some id →
      Follows Eq ((program sel).decodeFrom depth id) (sel.schema.readStruct depth id) := by
    intro id hid
    have hlt := h.rank_lt hm hid
    exact decodeFrom_follows h (h.root_mem hm hid) (by omega)
  have hown : IsOwn (some messageVariable) := by
    intro name hname
    rw [← Option.some.inj hname]
    decide
  have hreads := reads_decode sel.options.bulkArrays hcall (some messageVariable) 0 hown
  rw [Schema.readValue_eq h.ranked (h.inRange m hm) hd, Program.decode,
    message?_program hm (h.eq_of_name hm), ← bind_pure (Ty.read _ _)]
  refine Mirrors.bind (hreads.bind [(bufferVariable, .buffer)] messageVariable rfl rfl)
    fun scope v hv => ?_
  rw [hv.1]
  exact .pure rfl

/-- How a decoder and the decoding of a message can end together. -/
inductive SameEnd (s : Schema) (t : Ty) :
    EStateM.Result Stop Reader Value → Except Error Decoded → Prop where
  /-- Both have the value, from as many bytes. -/
  | decoded {v : Value} {r : Reader} {d : Decoded} :
      s.Typed t v → d.value = v → d.json = s.jsonOf t v → d.size = r.offset →
      d.trailing = r.remaining → SameEnd s t (.ok v r) (.ok d)
  /-- Both run out of bytes. -/
  | truncated {offset needed remaining offset' needed' remaining' : Nat} {r : Reader} :
      SameEnd s t (.error (.failed (.truncated offset needed remaining)) r)
        (.error (.truncatedInput offset' needed' remaining'))
  /-- Both come upon text that is not UTF-8. -/
  | malformed {offset offset' : Nat} {r : Reader} :
      SameEnd s t (.error (.failed (.invalidUtf8 offset)) r) (.error (.malformedInput offset'))

end RustCode

end WireSchema
