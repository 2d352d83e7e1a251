import WireSchema.Data.Decode
import WireSchema.Proofs.Layering
import WireSchema.Proofs.Reading
import WireSchema.Proofs.Typed

/-!
# Reading along a type

Reading a value forgets which byte a boolean or the mark of an optional value was: every byte but
zero counts as set. To speak about these bytes, a read can keep a record of them beside the value;
such a *traced* read does the same otherwise. From it come the facts about reading:

* what is read is a value of the type, and it is written as the bytes it was read from **as long as
  every recorded byte is a zero or a one**;
* how deep structs may lie inside each other makes no difference, once the depth exceeds the rank of
  the type;
* every value of a type is **read back** from its bytes.
-/

namespace WireSchema

open Wire

/-! ## Traced reads -/

/-- A value and the bytes that were read as booleans or as marks of optional values, in order. -/
structure Traced where
  value : Value
  flags : List UInt8

namespace Traced

def list (items : List Traced) : Traced :=
  ⟨.list (items.map value), items.flatMap flags⟩

def record (fields : List Traced) : Traced :=
  ⟨.record (fields.map value), fields.flatMap flags⟩

/-- A value behind the flag that says whether it is there. -/
def readOptional (optional : Bool) (read : Read Traced) : Read Traced :=
  if optional then do
    let flag ← Read.byte
    if flag != 0 then
      let x ← read
      return ⟨.present x.value, flag :: x.flags⟩
    else return ⟨.absent, [flag]⟩
  else read

end Traced

/-- Reads a primitive, with its trace. -/
def Primitive.trace : Primitive → Read Traced
  | .bool => do
    let flag ← Read.byte
    return ⟨.bool (flag != 0), [flag]⟩
  | .string => return ⟨.text (← Read.string), []⟩
  | .number kind => return ⟨.scalar (← Read.scalar kind), []⟩

/-- Reads a value of a type with its trace, given how to read structs. -/
def Ty.trace (traceStruct : Nat → Read Traced) : Ty → Read Traced
  | .primitive p o => Traced.readOptional o p.trace
  | .struct id o => Traced.readOptional o (traceStruct id)
  | .array e o => Traced.readOptional o do
    let n ← Read.length
    return .list (← Read.replicate n (e.trace traceStruct))

namespace Schema

variable (s : Schema)

/-- Reads a struct, with its trace. -/
def traceStruct : (depth : Nat) → (id : Nat) → Read Traced
  | 0, _ => fun r => .error (.truncated r.offset (r.remaining + 1) r.remaining) r
  | depth + 1, id => do
    return .record (← (s.fieldsOf id).mapM fun f => f.ty.trace (traceStruct depth))

/-- Reads a value of a type of the schema, with its trace. -/
def traceValue (t : Ty) : Read Traced := do
  t.trace (s.traceStruct (s.maxDepth (← get).remaining))

/-- The bytes that are read as booleans or as marks of optional values when a message is decoded. -/
def flagsRead (message : String) (bytes : List UInt8) : List UInt8 :=
  match s.message? message with
  | none => []
  | some m =>
    match s.traceValue m.ty (.ofBytes bytes) with
    | .ok x _ => x.flags
    | .error _ _ => []

end Schema

/-! ## A trace changes nothing -/

theorem value_readOptional {o : Bool} {trace : Read Traced} {read : Read Value}
    (h : Traced.value <$> trace = read) :
    Traced.value <$> Traced.readOptional o trace = readOptional o read := by
  subst h
  cases o with
  | false => rfl
  | true =>
    simp only [Traced.readOptional, readOptional, Read.presence, Read.bool, if_true, map_bind,
      bind_assoc, pure_bind]
    congr 1
    funext flag
    split <;> simp

theorem Primitive.value_trace (p : Primitive) : Traced.value <$> p.trace = p.read := by
  cases p <;> simp [trace, read, Read.bool]

theorem value_mapM {α : Type} {trace : α → Read Traced} {read : α → Read Value} {xs : List α}
    (h : ∀ x ∈ xs, Traced.value <$> trace x = read x) :
    List.map Traced.value <$> xs.mapM trace = xs.mapM read := by
  induction xs with
  | nil => simp
  | cons x xs ih =>
    rw [List.mapM_cons, List.mapM_cons, ← h x List.mem_cons_self,
      ← ih fun y hy => h y (List.mem_cons_of_mem _ hy)]
    simp

theorem Ty.value_trace {traceStruct : Nat → Read Traced} {readStruct : Nat → Read Value}
    (h : ∀ id, Traced.value <$> traceStruct id = readStruct id) (t : Ty) :
    Traced.value <$> t.trace traceStruct = t.read readStruct := by
  induction t with
  | primitive p o => exact value_readOptional p.value_trace
  | struct id o => exact value_readOptional (h id)
  | array e o ih =>
    refine value_readOptional ?_
    simp only [Read.replicate_eq, map_bind, map_pure]
    congr 1
    funext n
    rw [← value_mapM fun _ _ => ih]
    simp [Traced.list]

theorem Schema.value_traceStruct (s : Schema) (depth id : Nat) :
    Traced.value <$> s.traceStruct depth id = s.readStruct depth id := by
  induction depth generalizing id with
  | zero => rfl
  | succ depth ih =>
    rw [traceStruct, readStruct, ← value_mapM fun f _ => f.ty.value_trace ih]
    simp [Traced.record]

/-- **Reading with a trace reads the same value.** -/
theorem Schema.value_traceValue (s : Schema) (t : Ty) :
    Traced.value <$> s.traceValue t = s.readValue t := by
  rw [traceValue, readValue, map_bind]
  congr 1
  funext r
  exact t.value_trace (s.value_traceStruct _)

/-! ## What is read -/

namespace Schema

variable {s : Schema}

variable (s) in
/-- What is read from `taken` as a value of type `t`. -/
structure Spells (t : Ty) (taken : List UInt8) (x : Traced) : Prop where
  typed : s.Typed t x.value
  /-- A byte that is neither zero nor one is not the one that is written. -/
  encode : (∀ flag ∈ x.flags, flag = 0 ∨ flag = 1) → taken = x.value.encode

/-- A zero or a one is what the flag it is read as is written as. -/
theorem flag_of_strict {b : UInt8} (h : b = 0 ∨ b = 1) : [b] = flag (b != 0) := by
  rcases h with rfl | rfl <;> rfl

theorem safe_readOptional {t : Ty} {read : Read Traced} (h : Read.Safe read (s.Spells t.required)) :
    Read.Safe (Traced.readOptional t.optional read) (s.Spells t) := by
  cases ht : t.optional with
  | false => rwa [Ty.required_of_optional_eq_false ht] at h
  | true =>
    rw [Traced.readOptional, if_pos rfl]
    refine Read.safe_bind Read.safe_byte fun first b hb => ?_
    subst hb
    split
    · -- the value is there, and its own flags come behind this one
      rename_i hset
      refine Read.safe_bind h fun second x hx => Read.safe_pure ?_
      refine ⟨.present ht hx.typed, fun hall => ?_⟩
      have hb := flag_of_strict (hall b List.mem_cons_self)
      have hx := hx.encode fun flag hflag => hall flag (List.mem_cons_of_mem _ hflag)
      rw [hset] at hb
      rw [List.append_nil, hb, hx, Value.encode]
    · rename_i hclear
      refine Read.safe_pure ⟨.absent ht, fun hall => ?_⟩
      have hb := flag_of_strict (hall b List.mem_cons_self)
      rw [eq_false_of_ne_true hclear] at hb
      rw [List.append_nil, hb, Value.encode]

theorem safe_primitive (p : Primitive) : Read.Safe p.trace (s.Spells (.primitive p false)) := by
  cases p with
  | bool =>
    refine Read.safe_bind Read.safe_byte fun first b hb => Read.safe_pure ⟨.bool _, fun hall => ?_⟩
    rw [List.append_nil, hb, flag_of_strict (hall b List.mem_cons_self), Value.encode]
  | string =>
    refine Read.safe_bind Read.safe_string fun first text ht => Read.safe_pure ?_
    refine ⟨.text ht.1, fun _ => ?_⟩
    rw [List.append_nil, ht.2, Value.encode]
  | number kind =>
    refine Read.safe_bind (Read.safe_scalar kind) fun first x hx => Read.safe_pure ⟨?_, fun _ => ?_⟩
    · exact hx.1 ▸ .scalar x
    · rw [List.append_nil, hx.2, Value.encode]

theorem Spells.list {e : Ty} {n : Nat} {header body : List UInt8} {items : List Traced}
    (hn : n ≤ maxLength ∧ header = lengthPrefix n)
    (h : Read.Each (fun _ => s.Spells e) (List.replicate n ()) body items) :
    s.Spells (.array e false) (header ++ body) (.list items) := by
  obtain ⟨hlen, hall⟩ := h.zip
  -- as many items were read as the prefix announced, so it is the prefix that is written
  rw [List.length_replicate] at hlen
  refine ⟨.list (by rw [List.length_map, ← hlen]; exact hn.1) fun v hv => ?_, fun hflags => ?_⟩
  · obtain ⟨x, hx, rfl⟩ := List.mem_map.mp hv
    have hmarks : (List.replicate n ()).length = items.length := by rw [List.length_replicate, hlen]
    obtain ⟨_, hp⟩ := Result.exists_mem_zip hmarks hx
    obtain ⟨_, hspells⟩ := hall _ hp
    exact hspells.typed
  · have hbody := h.flatMap (fun x => x.value.encode) fun _ x hx first hfirst =>
      hfirst.encode fun flag hflag => hflags flag (List.mem_flatMap.mpr ⟨x, hx, hflag⟩)
    rw [hn.2, hbody, Traced.list, Value.encode, List.length_map, ← hlen, List.flatMap_map]

theorem Spells.record {id : Nat} {taken : List UInt8} {fields : List Traced}
    (h : Read.Each (fun f : Field => s.Spells f.ty) (s.fieldsOf id) taken fields) :
    s.Spells (.struct id false) taken (.record fields) := by
  obtain ⟨hlen, hall⟩ := h.zip
  refine ⟨.record (by rw [List.length_map, hlen]) fun p hp => ?_, fun hflags => ?_⟩
  · rw [List.zip_map_right] at hp
    obtain ⟨q, hq, rfl⟩ := List.mem_map.mp hp
    obtain ⟨_, hspells⟩ := hall q hq
    exact hspells.typed
  · have hbody := h.flatMap (fun x => x.value.encode) fun _ x hx first hfirst =>
      hfirst.encode fun flag hflag => hflags flag (List.mem_flatMap.mpr ⟨x, hx, hflag⟩)
    rw [hbody, Traced.record, Value.encode, List.flatMap_map]

/-- Reading along a type is as safe as reading the structs in it. -/
theorem safe_trace {traceStruct : Nat → Read Traced}
    (h : ∀ id, Read.Safe (traceStruct id) (s.Spells (.struct id false))) (t : Ty) :
    Read.Safe (t.trace traceStruct) (s.Spells t) := by
  induction t with
  | primitive p o => exact safe_readOptional (t := .primitive p o) (safe_primitive p)
  | struct id o => exact safe_readOptional (t := .struct id o) (h id)
  | array e o ih =>
    refine safe_readOptional (t := .array e o) ?_
    refine Read.safe_bind Read.safe_length fun header n hn => ?_
    rw [Read.replicate_eq]
    refine Read.safe_bind (Read.safe_mapM fun _ _ => ih) fun body items hitems => Read.safe_pure ?_
    rw [List.append_nil]
    exact .list hn hitems

theorem safe_traceStruct (depth id : Nat) :
    Read.Safe (s.traceStruct depth id) (s.Spells (.struct id false)) := by
  induction depth generalizing id with
  | zero =>
    refine ⟨fun {r r' a} h => (nomatch h), fun {r r' e} h => ?_⟩
    injection h with he hr
    subst he; subst hr
    exact ⟨.refl r, .truncated (Nat.lt_succ_self _)⟩
  | succ depth ih =>
    refine Read.safe_bind (Read.safe_mapM fun f _ => safe_trace ih f.ty) fun taken fields hfields =>
      Read.safe_pure ?_
    rw [List.append_nil]
    exact .record hfields

theorem spells_of_traceValue {t : Ty} {r r' : Reader} {x : Traced}
    (h : s.traceValue t r = .ok x r') :
    ∃ taken, r.rest = taken ++ r'.rest ∧ s.Spells t taken x := by
  obtain ⟨taken, hrest, _, _, hx⟩ := (safe_trace (safe_traceStruct _) t).ok h
  exact ⟨taken, hrest, hx⟩

/-! ## Depth -/

theorem readOptional_of_required {t : Ty} (read : Nat → Read Value) :
    t.read read = readOptional t.optional (t.required.read read) := by
  cases t <;> rfl

theorem read_congr {read read' : Nat → Read Value} {t : Ty}
    (h : ∀ id, t.innermost? = some id → read id = read' id) : t.read read = t.read read' := by
  induction t with
  | primitive p o => rfl
  | struct id o => rw [Ty.read, Ty.read, h id rfl]
  | array e o ih => rw [Ty.read, Ty.read, ih h]

theorem mapM_congr {M : Type → Type} [Monad M] [LawfulMonad M] {α β : Type} {f g : α → M β}
    {xs : List α} (h : ∀ x ∈ xs, f x = g x) : xs.mapM f = xs.mapM g := by
  induction xs with
  | nil => rfl
  | cons x xs ih =>
    rw [List.mapM_cons, List.mapM_cons, h x List.mem_cons_self,
      ih fun y hy => h y (List.mem_cons_of_mem _ hy)]

variable {rank : Nat → Nat}

/-- Depth beyond the rank of a struct makes no difference. -/
theorem readStruct_congr (hr : s.Ranked rank) {depth depth' id : Nat} (h : rank id < depth)
    (h' : rank id < depth') : s.readStruct depth id = s.readStruct depth' id := by
  refine hr.depth_congr (fun depth depth' id htargets => ?_) h h'
  have hfields : (s.fieldsOf id).mapM (fun f => f.ty.read (s.readStruct depth))
      = (s.fieldsOf id).mapM fun f => f.ty.read (s.readStruct depth') :=
    mapM_congr fun f hf => read_congr fun target ht => htargets target (mem_targets hf ht)
  rw [readStruct, readStruct, hfields]

/-- Reading a value needs no more depth than there are structs. -/
theorem readValue_eq (hr : s.Ranked rank) {t : Ty} (ht : t.InRange s.structs.length) {depth : Nat}
    (hd : s.structs.length ≤ depth) : s.readValue t = t.read (s.readStruct depth) := by
  have hall : ∀ size, t.read (s.readStruct (s.maxDepth size)) = t.read (s.readStruct depth) := by
    intro size
    refine read_congr fun id hid => ?_
    have hlt := hr.lt id (ht id hid)
    refine readStruct_congr hr (Nat.lt_of_lt_of_le hlt ?_) (Nat.lt_of_lt_of_le hlt hd)
    exact Nat.le_mul_of_pos_right _ (Nat.succ_pos size)
  funext r
  exact congrFun (hall r.remaining) r

/-- Reading a value is safe, and gives a value of the type. -/
theorem safe_readValue (hr : s.Ranked rank) {t : Ty} (ht : t.InRange s.structs.length) :
    Read.Safe (s.readValue t) fun _ v => s.Typed t v := by
  rw [readValue_eq hr ht (Nat.le_refl _), ← t.value_trace (s.value_traceStruct _)]
  exact Read.safe_map (safe_trace (safe_traceStruct _) t) fun _ x hx => hx.typed

/-! ## Reading back -/

theorem takes_list {e : Ty} {items : List Value} {read : Nat → Read Value}
    (hmax : items.length ≤ maxLength)
    (h : ∀ v ∈ items, Read.Takes (e.read read) v.encode v) :
    Read.Takes (Ty.read read (.array e false)) (Value.list items).encode (.list items) := by
  rw [Value.encode]
  refine Read.takes_bind (Read.takes_lengthPrefix hmax) ?_
  rw [Read.replicate_eq]
  refine Read.takes_map Value.list (Read.takes_mapM (by simp) fun p hp => ?_)
  exact h p.2 (List.of_mem_zip hp).2

/-- **Every value of a type is read back from its bytes.** -/
theorem Typed.takes (hr : s.Ranked rank) {t : Ty} {v : Value} (h : s.Typed t v) {depth : Nat}
    (hd : ∀ id, t.innermost? = some id → rank id < depth) :
    Read.Takes (t.read (s.readStruct depth)) v.encode v := by
  induction h generalizing depth with
  | bool b =>
    rw [Value.encode]
    exact Read.takes_map Value.bool (Read.takes_flag b)
  | scalar x =>
    rw [Value.encode]
    exact Read.takes_map Value.scalar (Read.takes_encode x)
  | text hlen =>
    rw [Value.encode]
    exact Read.takes_map Value.text (Read.takes_text hlen)
  | list hmax _ ih => exact takes_list hmax fun v hv => ih v hv hd
  | @record id fields hlen _ ih =>
    cases depth with
    | zero => exact absurd (hd id rfl) (Nat.not_lt_zero _)
    | succ depth =>
      rw [Value.encode]
      refine Read.takes_map Value.record (Read.takes_mapM hlen fun p hp => ?_)
      refine ih p hp fun target ht => ?_
      -- one level down there is one level less of depth, and of rank
      have hlt := hr.target_lt id target (mem_targets (List.of_mem_zip hp).1 ht)
      have hdepth := hd id rfl
      omega
  | absent ht =>
    rw [readOptional_of_required, ht, Value.encode, ← List.append_nil (flag false)]
    exact Read.takes_bind (Read.takes_flag false) (Read.takes_pure Value.absent)
  | @present t v ht _ ih =>
    rw [readOptional_of_required, ht, Value.encode]
    refine Read.takes_bind (Read.takes_flag true) (Read.takes_map Value.present (ih ?_))
    rwa [Ty.required, Ty.innermost?_withOptional]

theorem Typed.takes_readValue (hr : s.Ranked rank) {t : Ty} (ht : t.InRange s.structs.length)
    {v : Value} (h : s.Typed t v) : Read.Takes (s.readValue t) v.encode v := by
  rw [readValue_eq hr ht (Nat.le_refl _)]
  exact h.takes hr fun id hid => hr.lt id (ht id hid)

end Schema

end WireSchema
