import WireSchema.Proofs.Reachable
import WireSchema.Proofs.RustScope
import WireSchema.Proofs.Writing

/-!
# Rust encoders write what documents are converted to

The statement that is generated for a type, run on a value of the type, writes the value: by
induction on the type, for any place the value is found at. A struct is written by the statements of
its fields, each of which finds its own value because the fields have different names; and the routine
of a struct is there to be called because the selection is closed. With what is known about writing
values, **running the function of a message gives the bytes that the document of the value is
converted to, or refuses the length that the conversion refuses**.
-/

namespace WireSchema

open Wire
open Naming (rustField)

namespace Result

variable {ε ε' α β : Type}

theorem mapError_bind (g : ε → ε') (x : Except ε α) (f : α → Except ε β) :
    (x >>= f).mapError g = x.mapError g >>= fun a => (f a).mapError g := by
  cases x <;> rfl

theorem mapError_eq_ok {g : ε → ε'} {x : Except ε α} {a : α} :
    x.mapError g = .ok a ↔ x = .ok a := by
  cases x <;> simp [Except.mapError]

theorem mapError_eq_error {g : ε → ε'} {x : Except ε α} {e' : ε'} :
    x.mapError g = .error e' ↔ ∃ e, x = .error e ∧ g e = e' := by
  cases x <;> simp [Except.mapError]

/-- A loop whose steps differ in their errors only. -/
theorem foldlM_mapError {g : ε → ε'} {f : β → α → Except ε β} {f' : β → α → Except ε' β}
    {xs : List α} (h : ∀ x ∈ xs, ∀ b, f' b x = (f b x).mapError g) (b : β) :
    xs.foldlM f' b = (xs.foldlM f b).mapError g := by
  induction xs generalizing b with
  | nil => rfl
  | cons x xs ih =>
    rw [List.foldlM_cons, List.foldlM_cons, h x List.mem_cons_self, mapError_bind]
    congr 1
    funext b'
    exact ih (fun y hy => h y (List.mem_cons_of_mem _ hy)) b'

end Result

namespace Schema

variable {s : Schema}

/-- A value of an optional type is there or not. -/
theorem Holds.optional {t : Ty} {v : Value} (h : s.Holds t v) (ht : t.optional = true) :
    v = .absent ∨ ∃ x, v = .present x ∧ s.Holds t.required x := by
  cases h with
  | absent _ => exact .inl rfl
  | present _ hx => exact .inr ⟨_, rfl, hx⟩
  | _ => exact absurd ht (by simp [Ty.optional])

/-- The values of an array of numbers are numbers. -/
theorem Holds.exists_scalars {kind : Numeric} {items : List Value}
    (h : ∀ v ∈ items, s.Holds (.primitive (.number kind) false) v) :
    ∃ xs : List Scalar, items = xs.map .scalar ∧ ∀ x ∈ xs, x.kind = kind := by
  induction items with
  | nil => exact ⟨[], rfl, by simp⟩
  | cons v items ih =>
    obtain ⟨xs, rfl, hxs⟩ := ih fun w hw => h w (List.mem_cons_of_mem _ hw)
    cases h v List.mem_cons_self with
    | scalar x => exact ⟨x :: xs, rfl, List.forall_mem_cons.mpr ⟨rfl, hxs⟩⟩
    | absent ht => exact absurd ht (by simp [Ty.optional])
    | present ht _ => exact absurd ht (by simp [Ty.optional])

end Schema

namespace RustCode

theorem scalars?_map {kind : Numeric} {xs : List Scalar} (h : ∀ x ∈ xs, x.kind = kind) :
    scalars? kind (xs.map .scalar) = some xs := by
  rw [scalars?]
  induction xs with
  | nil => rfl
  | cons x xs ih =>
    rw [List.map_cons, List.mapM_cons, ih fun y hy => h y (List.mem_cons_of_mem _ hy)]
    dsimp only
    rw [if_pos (h x List.mem_cons_self)]
    rfl

section

variable {s : Schema} {call : Nat → Value → Writer → Except Stop Writer}
  {self : List (String × Value)}

variable (s call self) in
/-- Statements, one for each place, that write the values of a type. -/
def Writes (t : Ty) (statement : Place → Fresh Encode) : Prop :=
  ∀ {v : Value}, s.Holds t v → ∀ (scope : Scope) (p : Place), scope.hasBuffer = true →
    p.get self scope = some v → ∀ (n : Nat) (w : Writer),
      ((statement p).run n).1.run call self scope w = (v.write w).mapError .failed

theorem write_eq {scope : Scope} (h : scope.hasBuffer = true) (item : Item) (w : Writer) :
    scope.write item w = (w.write item).mapError .failed :=
  if_pos h

theorem writes_optional {t : Ty} {body : Place → Fresh Encode}
    (hbody : Writes s call self t.required body) :
    Writes s call self t fun p => encodeOptional t.optional p body := by
  intro v hv scope p hbuf hget n w
  by_cases ht : t.optional = true
  · rw [ht]
    change (Encode.optional p (temporary "v" n) ((body (.ref (temporary "v" n))).run (n + 1)).1).run
      call self scope w = _
    rcases hv.optional ht with rfl | ⟨x, rfl, hx⟩
    · rw [Encode.run, hget]
      dsimp only
      rw [write_eq hbuf, Value.write_absent]
    · -- inside, the value goes by the name of the new variable
      have hinside : Scope.hasBuffer ((temporary "v" n, .value x) :: scope) = true :=
        Scope.hasBuffer_cons hbuf (temporary_ne (by decide) (by decide) n) _
      have hx := hbody hx _ (.ref (temporary "v" n)) hinside
        (by rw [Place.get, Scope.value?, List.lookup_cons_self])
      rw [Encode.run, hget]
      dsimp only
      rw [write_eq hbuf, Value.write_present, Result.mapError_bind]
      congr 1
      funext w'
      exact hx (n + 1) w'
  · rw [eq_false_of_ne_true ht]
    rw [← Ty.required_of_optional_eq_false (eq_false_of_ne_true ht)] at hv
    exact hbody hv scope p hbuf hget n w

theorem writes_primitive (p : Primitive) :
    Writes s call self (.primitive p false) fun place => return encodePrimitive p place := by
  intro v hv scope place hbuf hget n w
  change (encodePrimitive p place).run call self scope w = _
  cases hv with
  | bool b =>
    rw [encodePrimitive, Encode.run, hget]
    dsimp only
    rw [write_eq hbuf, Value.write_bool]
  | scalar x =>
    rw [encodePrimitive, Encode.run, hget]
    dsimp only
    rw [if_pos rfl, write_eq hbuf, Value.write_scalar]
  | text text =>
    rw [encodePrimitive, Encode.run, hget]
    dsimp only
    rw [write_eq hbuf, Value.write_text]
  | absent ht => exact absurd ht (by simp [Ty.optional])
  | present ht _ => exact absurd ht (by simp [Ty.optional])

theorem writes_bulk (kind : Numeric) :
    Writes s call self (.array (.primitive (.number kind) false) false)
      fun p => return .slice kind p := by
  intro v hv scope p hbuf hget n w
  change (Encode.slice kind p).run call self scope w = _
  cases hv with
  | list hitems =>
    obtain ⟨xs, rfl, hkind⟩ := Schema.Holds.exists_scalars hitems
    rw [Encode.run, hget]
    dsimp only
    rw [scalars?_map hkind]
    dsimp only
    rw [write_eq hbuf, Value.write_scalars]
  | absent ht => exact absurd ht (by simp [Ty.optional])
  | present ht _ => exact absurd ht (by simp [Ty.optional])

theorem writes_each {e : Ty} {body : Place → Fresh Encode} (hbody : Writes s call self e body) :
    Writes s call self (.array e false) fun p => do
      let item ← fresh "item"
      return .each p item (← body (.ref item)) := by
  intro v hv scope p hbuf hget n w
  change (Encode.each p (temporary "item" n)
    ((body (.ref (temporary "item" n))).run (n + 1)).1).run call self scope w = _
  cases hv with
  | @list _ items hitems =>
    rw [Encode.run, hget]
    dsimp only
    rw [write_eq hbuf, Value.write_list, Result.mapError_bind]
    congr 1
    funext w'
    refine Result.foldlM_mapError (fun x hx w => ?_) w'
    -- in every round the loop variable stands for the item at hand
    have hinside : Scope.hasBuffer ((temporary "item" n, .value x) :: scope) = true :=
      Scope.hasBuffer_cons hbuf (temporary_ne (by decide) (by decide) n) _
    exact hbody (hitems x hx) _ (.ref (temporary "item" n)) hinside
      (by rw [Place.get, Scope.value?, List.lookup_cons_self]) (n + 1) w
  | absent ht => exact absurd ht (by simp [Ty.optional])
  | present ht _ => exact absurd ht (by simp [Ty.optional])

/-- The routine of a struct, when it is called, writes the struct. -/
def CallWrites (s : Schema) (call : Nat → Value → Writer → Except Stop Writer) (id : Nat) : Prop :=
  ∀ x, s.Holds (.struct id false) x → ∀ w, call id x w = (x.write w).mapError .failed

theorem writes_struct {id : Nat} (hcall : CallWrites s call id) :
    Writes s call self (.struct id false) fun p => return .struct id p := by
  intro v hv scope p hbuf hget n w
  change (Encode.struct id p).run call self scope w = _
  rw [Encode.run, hget]
  dsimp only
  rw [if_pos hbuf]
  exact hcall v hv w

/-- **The statement for a type writes the values of the type.** -/
theorem writes_encode (bulkArrays : Bool) {t : Ty}
    (hcall : ∀ id, t.innermost? = some id → CallWrites s call id) :
    Writes s call self t (encode bulkArrays t) := by
  induction t with
  | primitive p o => exact writes_optional (t := .primitive p o) (writes_primitive p)
  | struct id o => exact writes_optional (t := .struct id o) (writes_struct (hcall id rfl))
  | array e o ih =>
    refine writes_optional (t := .array e o) ?_
    split
    · rename_i kind hbulk
      obtain rfl := eq_of_arrayStrategy hbulk
      exact writes_bulk kind
    · exact writes_each (ih hcall)

end

/-! ## Structs -/

section

variable {s : Schema} {call : Nat → Value → Writer → Except Stop Writer}
  {self : List (String × Value)}

/-- The statements of fields, one after the other. -/
theorem foldlM_encode (bulkArrays : Bool) {fields : List Field} {values : List Value}
    (h : List.Forall₂ (fun f v => s.Holds f.ty v ∧ self.lookup (rustField f.name) = some v ∧
      ∀ id, f.ty.innermost? = some id → CallWrites s call id) fields values) (n : Nat) (w : Writer) :
    ((fields.mapM fun f => encode bulkArrays f.ty (.field (rustField f.name))).run n).1.foldlM
        (fun w e => e.run call self [(bufferVariable, .buffer)] w) w
      = (values.foldlM (fun w (v : Value) => v.write w) w).mapError .failed := by
  induction h generalizing n w with
  | nil => rfl
  | @cons f v fields values hf _ ih =>
    obtain ⟨hv, hget, hcall⟩ := hf
    have hfirst := writes_encode bulkArrays hcall hv [(bufferVariable, .buffer)]
      (.field (rustField f.name)) rfl hget n w
    rw [List.mapM_cons, List.foldlM_cons, Result.mapError_bind, ← hfirst]
    change _ >>= _ = _
    congr 1
    funext w'
    exact ih _ w'

end

variable {sel : Selection} {rank : Nat → Nat}

/-- **The routine of a struct writes the struct.** -/
theorem encodeInto_writes (h : sel.Lawful rank) {depth id : Nat} (hid : id ∈ sel.structs)
    (hdepth : rank id < depth) : CallWrites sel.schema ((program sel).encodeInto depth) id := by
  induction depth generalizing id with
  | zero => exact absurd hdepth (Nat.not_lt_zero _)
  | succ depth ih =>
    intro x hx w
    cases hx with
    | @record _ values hlen hall =>
      have hlen' : (structRoutines sel id).fields.length = values.length := by
        rw [structRoutines, List.length_map, hlen]
      rw [Program.encodeInto, struct?_program hid]
      dsimp only
      rw [if_pos hlen', Value.write_record]
      refine foldlM_encode (s := sel.schema) sel.options.bulkArrays ?_ 0 w
      refine List.forall₂_iff_zip.mpr ⟨hlen, fun {f v} hp => ⟨hall (f, v) hp, ?_, ?_⟩⟩
      · refine List.lookup_of_mem ?_ ?_
        · rw [List.map_fst_zip (Nat.le_of_eq hlen')]
          exact h.rustNames id
        · rw [structRoutines, List.zip_map_left]
          exact List.mem_map.mpr ⟨(f, v), hp, rfl⟩
      · -- a struct inside is selected too, and of lower rank
        intro target ht
        have htarget := Schema.mem_targets (List.of_mem_zip hp).1 ht
        have hlt := h.ranked.target_lt id target htarget
        exact ih (h.target_mem hid htarget) (by omega)
    | absent ht => exact absurd ht (by simp [Ty.optional])
    | present ht _ => exact absurd ht (by simp [Ty.optional])

/-- **The function of a message writes the message.** -/
theorem encode_eq_write (h : sel.Lawful rank) {m : Message} (hm : m ∈ sel.messages) {x : Value}
    (hx : sel.schema.Holds m.ty x) {depth : Nat} (hd : sel.schema.structs.length ≤ depth) :
    (program sel).encode depth m.name x = ((x.write {}).map Writer.data).mapError .failed := by
  have hcall : ∀ id, m.ty.innermost? = some id →
      CallWrites sel.schema ((program sel).encodeInto depth) id := by
    intro id hid
    have hlt := h.rank_lt hm hid
    exact encodeInto_writes h (h.root_mem hm hid) (by omega)
  have hwrites : Writes sel.schema ((program sel).encodeInto depth) [] m.ty
      (RustCode.encode sel.options.bulkArrays m.ty) := writes_encode sel.options.bulkArrays hcall
  -- the variables of the capacity are counted before those of the statement
  have hbody : (messageRoutines sel m).encode.run ((program sel).encodeInto depth) []
      [(bufferVariable, .buffer), (messageVariable, .value x)] {}
        = (x.write {}).mapError .failed :=
    hwrites hx _ (.ref messageVariable) rfl rfl
      ((size sel.layoutOf m.ty (.ref messageVariable)).run 0).2 {}
  rw [Program.encode, message?_program hm (h.eq_of_name hm)]
  dsimp only
  rw [hbody]
  cases x.write {} <;> rfl

end RustCode

/-- A reading with some tags. -/
def taggedValue (tags : List Value) : Value :=
  .record [.scalar (.int32 3), .scalar (.float32 0x3f800000), .list tags,
    .present (.record [.bool true])]

theorem holds_taggedValue {tags : List Value}
    (h : ∀ v ∈ tags, readingSchema.Holds (.primitive .string true) v) :
    readingSchema.Holds (.struct 0 false) (taggedValue tags) := by
  have hready : readingSchema.Holds (.struct 1 false) (.record [.bool true]) :=
    .record rfl (List.forall_mem_singleton.mpr (.bool true))
  exact .record rfl (List.forall_mem_cons.mpr ⟨.scalar (.int32 3),
    List.forall_mem_cons.mpr ⟨.scalar (.float32 0x3f800000), List.forall_mem_cons.mpr ⟨.list h,
      List.forall_mem_singleton.mpr (.present rfl hready)⟩⟩⟩)

theorem nonFinite_taggedValue {tags : List Value} (h : ∀ v ∈ tags, v.nonFinite = []) :
    (taggedValue tags).nonFinite = [] := by
  have hlevel : (Single.toDouble ⟨0x3f800000⟩).isFinite = true := by
    rw [Single.isFinite_toDouble]
    decide
  have hnumber : (Value.scalar (.float32 0x3f800000)).nonFinite = [] := by
    simp [Value.nonFinite, Value.nonFiniteBefore, Scalar.double?, hlevel]
  have htags : (Value.list tags).nonFinite = [] := by
    rw [Value.nonFinite_list]
    exact List.flatMap_eq_nil_iff.mpr h
  rw [taggedValue, Value.nonFinite_record, List.flatMap_eq_nil_iff]
  simp only [List.forall_mem_cons, hnumber, htags]
  simp [Value.nonFinite, Value.nonFiniteBefore, Scalar.double?]

/-- Tags that are one too many to be counted. -/
def crowd : List Value :=
  List.replicate 65536 .absent

end WireSchema
