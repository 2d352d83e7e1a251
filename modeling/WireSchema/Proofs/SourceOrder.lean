import WireSchema.Proofs.Faults
import WireSchema.Proofs.Rearranged

/-!
# The wire format and the order of the source

Two schemas that differ in order only become the same schema when their fields are put into canonical
order, up to the numbers of structs. Numbers of structs show nowhere: a document has the same faults,
stands for the same value, and bytes are read to the same value, whatever numbers the structs on the
way have. So programs that were compiled from differently ordered sources understand each other.

The one thing that order decides is which of two messages of the same name is meant. A schema that was
compiled has no such messages.
-/

namespace WireSchema

open Wire

theorem Ty.wrap_renumber {σ : Nat → Nat} (t : Ty) : (t.renumber σ).wrap = t.wrap := by
  funext v
  unfold wrap
  rw [optional_renumber]

theorem Ty.read_renumber {σ : Nat → Nat} {read read' : Nat → Read Value} {t : Ty}
    (h : ∀ id, t.innermost? = some id → read' (σ id) = read id) :
    (t.renumber σ).read read' = t.read read := by
  induction t with
  | primitive p o => rfl
  | struct id o => rw [renumber, Ty.read, Ty.read, h id rfl]
  | array e o ih => rw [renumber, Ty.read, Ty.read, ih h]

namespace Schema

variable {s s' : Schema} {σ : Nat → Nat}

/-! ## Schemas up to the numbers of structs -/

/-- `s'` is `s` with its structs in another order: every struct has kept its fields in their order. -/
structure Renumbered (σ : Nat → Nat) (s s' : Schema) : Prop extends Rearranged σ s s' where
  same : ∀ id d, s.structs[id]? = some d → s'.structs[σ id]? = some (d.renumber σ)

/-- **Canonical forms of rearranged schemas are the same but for the numbers of structs.** -/
theorem Rearranged.canonical (h : s.Rearranged σ s') (hs : s.InRange)
    (hnames : ∀ d ∈ s.structs, (d.fields.map (·.name)).Nodup) :
    s.canonical.Renumbered σ s'.canonical := by
  have hlen : s.canonical.structs.length = s.structs.length := s.rearranged_canonical.length
  have hlen' : s'.canonical.structs.length = s.structs.length :=
    s'.rearranged_canonical.length.trans h.length
  have hsame : ∀ id d, s.canonical.structs[id]? = some d →
      s'.canonical.structs[σ id]? = some (d.renumber σ) :=
    fun _ _ hd => h.canonical_structs hs hnames hd
  refine ⟨⟨h.package, hlen'.trans hlen.symm, ?_, ?_, fun id d hd => ?_, h.declarations,
    h.messages⟩, hsame⟩
  · rw [hlen]
    exact h.maps
  · rw [hlen]
    exact h.inj
  · exact ⟨_, .rfl, hsame id d hd⟩

/-- A message is found under its name in both orders. -/
theorem Rearranged.message?_eq (h : s.Rearranged σ s') {name : String}
    (hagree : s.MessagesAgree name) :
    s'.message? name = (s.message? name).map (Message.renumber σ) := by
  cases hfound : s.message? name with
  | none =>
    refine List.find?_eq_none.mpr fun e he => ?_
    obtain ⟨m, hm, rfl⟩ := List.mem_map.mp (h.messages.mem_iff.mp he)
    exact List.find?_eq_none.mp hfound m hm
  | some m =>
    obtain ⟨hm, hname⟩ := mem_of_message? hfound
    have hm' := h.messages.mem_iff.mpr (List.mem_map_of_mem hm)
    have hsome : (s'.message? name).isSome := by
      rw [Schema.message?, List.find?_isSome]
      exact ⟨m.renumber σ, hm', beq_iff_eq.mpr hname⟩
    obtain ⟨e, he⟩ := Option.isSome_iff_exists.mp hsome
    obtain ⟨hmem, hname'⟩ := mem_of_message? he
    -- what is found has the name and, as all messages of this name, the type
    have hty := h.messagesAgree hagree e hmem (m.renumber σ) hm' hname' hname
    have hsame : e = m.renumber σ := by
      obtain ⟨n, t⟩ := e
      rw [Message.mk.injEq]
      exact ⟨hname'.trans hname.symm, hty⟩
    rw [he, hsame]
    rfl

namespace Renumbered

variable (h : s.Renumbered σ s') (hs : s.InRange)
include h

theorem fieldsOf_eq {id : Nat} (hid : id < s.structs.length) :
    s'.fieldsOf (σ id) = (s.fieldsOf id).map (Field.renumber σ) := by
  obtain ⟨d, hd, hfields⟩ := exists_struct hid
  rw [fieldsOf_of_getElem? (h.same id d hd), hfields]
  rfl

include hs

/-! ## Documents -/

/-- **A document has the same faults.** -/
theorem faults {t : Ty} (ht : t.InRange s.structs.length) (path : Path) (j : Json) :
    s'.faults (t.renumber σ) path j = s.faults t path j := by
  induction j using Json.induction generalizing t path with
  | null => rw [faults_null, faults_null, Ty.optional_renumber]
  | array items ih =>
    cases t with
    | primitive p o => rw [Ty.renumber, faults_primitive (by simp), faults_primitive (by simp)]
    | struct id o => rw [Ty.renumber, Schema.faults, Schema.faults] <;> simp
    | array e o =>
      have hitem : ∀ p ∈ items.zipIdx, s'.faults (e.renumber σ) (.index p.2 :: path) p.1
          = s.faults e (.index p.2 :: path) p.1 :=
        fun p hp => ih p.1 (List.fst_mem_of_mem_zipIdx hp) (t := e) ht _
      rw [Ty.renumber, faults_list, faults_list, List.flatMap_congr hitem]
  | object members ih =>
    cases t with
    | primitive p o => rw [Ty.renumber, faults_primitive (by simp), faults_primitive (by simp)]
    | struct id o =>
      rw [Ty.renumber, faults_record, faults_record, h.fieldsOf_eq (ht id rfl), List.flatMap_map]
      exact List.flatMap_congr fun f hf => ih f.key (hs.fieldsOf hf) _
    | array e o => rw [Ty.renumber, Schema.faults, Schema.faults] <;> simp
  | _ =>
    cases t with
    | primitive p o => rw [Ty.renumber, faults_primitive (by simp), faults_primitive (by simp)]
    | _ => rw [Ty.renumber, Schema.faults, Schema.faults] <;> simp

/-- What a document that is there gives is the same if its parts give the same. -/
theorem presentOf {t : Ty} (ht : t.InRange s.structs.length) {path : Path} {j : Json}
    (hitems : ∀ items, j = .array items → ∀ item ∈ items, ∀ e : Ty,
      e.InRange s.structs.length → ∀ path, s'.valueOf (e.renumber σ) path item = s.valueOf e path item)
    (hmembers : ∀ members, j = .object members → ∀ key, ∀ e : Ty, e.InRange s.structs.length →
      ∀ path, s'.valueOf (e.renumber σ) path (Json.held key members)
        = s.valueOf e path (Json.held key members)) :
    s'.presentOf path (t.renumber σ) j = s.presentOf path t j := by
  cases t with
  | primitive p o => rfl
  | struct id o =>
    cases j with
    | object members =>
      rw [Ty.renumber, Schema.presentOf, Schema.presentOf, h.fieldsOf_eq (ht id rfl), List.mapM_map]
      exact congrArg (Except.map Value.record)
        (mapM_congr fun f hf => hmembers members rfl f.key f.ty (hs.fieldsOf hf) _)
    | _ => rfl
  | array e o =>
    cases j with
    | array items =>
      rw [Ty.renumber, Schema.presentOf, Schema.presentOf]
      rw [mapM_congr fun p hp => hitems items rfl p.1 (List.fst_mem_of_mem_zipIdx hp) e ht _]
    | _ => rfl

/-- **A document stands for the same value.** -/
theorem valueOf {t : Ty} (ht : t.InRange s.structs.length) (path : Path) (j : Json) :
    s'.valueOf (t.renumber σ) path j = s.valueOf t path j := by
  induction j using Json.induction generalizing t path with
  | null => rw [valueOf_null, valueOf_null, Ty.optional_renumber]
  | array items ih =>
    rw [valueOf_eq (by simp), valueOf_eq (by simp), t.wrap_renumber]
    rw [h.presentOf hs ht (fun _ he item hitem e hr path => ?_) (by simp)]
    injection he with he
    exact ih item (he ▸ hitem) hr path
  | object members ih =>
    rw [valueOf_eq (by simp), valueOf_eq (by simp), t.wrap_renumber]
    rw [h.presentOf hs ht (by simp) (fun _ he key e hr path => ?_)]
    injection he with he
    subst he
    exact ih key hr path
  | _ =>
    rw [valueOf_eq (by simp), valueOf_eq (by simp), t.wrap_renumber,
      h.presentOf hs ht (by simp) (by simp)]

/-! ## Bytes -/

/-- **The step.** A struct is read in the same way if the structs in it are. -/
theorem readStruct (depth : Nat) {id : Nat} (hid : id < s.structs.length) :
    s'.readStruct depth (σ id) = s.readStruct depth id := by
  induction depth generalizing id with
  | zero => rfl
  | succ depth ih =>
    have hfield : ∀ f ∈ s.fieldsOf id, (f.ty.renumber σ).read (s'.readStruct depth)
        = f.ty.read (s.readStruct depth) :=
      fun f hf => Ty.read_renumber fun i hi => ih (hs.fieldsOf hf i hi)
    rw [Schema.readStruct, Schema.readStruct, h.fieldsOf_eq hid, List.mapM_map,
      ← mapM_congr hfield]
    rfl

theorem readValue {t : Ty} (ht : t.InRange s.structs.length) :
    s'.readValue (t.renumber σ) = s.readValue t := by
  unfold Schema.readValue maxDepth
  rw [h.length]
  congr 1
  funext r
  exact Ty.read_renumber fun id hid => h.readStruct hs _ (ht id hid)

/-- **A value has the same document.** -/
theorem jsonOf {t : Ty} (ht : t.InRange s.structs.length) (v : Value) :
    s'.jsonOf (t.renumber σ) v = s.jsonOf t v :=
  match v with
  | .present v => by
    rw [Schema.jsonOf, Schema.jsonOf]
    exact jsonOf ht v
  | .list items => by
    cases t with
    | array e o =>
      rw [Ty.renumber, Schema.jsonOf, Schema.jsonOf]
      exact congrArg Json.array (List.map_congr_left fun item hitem => jsonOf (t := e) ht item)
    | _ => rw [Ty.renumber, Schema.jsonOf, Schema.jsonOf] <;> simp
  | .record fields => by
    cases t with
    | struct id o =>
      have hentries : s'.entriesOf (σ id) fields = s.entriesOf id fields := by
        unfold entriesOf
        rw [h.fieldsOf_eq (ht id rfl), List.zip_map_left, List.map_map]
        refine List.map_congr_left fun p hp => ?_
        obtain ⟨hf, hv⟩ := List.of_mem_zip hp
        have hdoc := jsonOf (hs.fieldsOf hf) p.2
        exact congrArg (fun j => (p.1.key, p.2, j)) hdoc
      rw [Ty.renumber, jsonOf_record, jsonOf_record, hentries]
    | _ => rw [Ty.renumber, Schema.jsonOf, Schema.jsonOf] <;> simp
  | .bool _ | .scalar _ | .text _ | .absent => by rw [Schema.jsonOf, Schema.jsonOf]

/-! ## Messages -/

variable {message : String} (hagree : s.MessagesAgree message)
include hagree

theorem checkData (j : Json) : s'.checkData message j = s.checkData message j := by
  rw [checkData_eq_firstOf, checkData_eq_firstOf, faultsOf, faultsOf, h.message?_eq hagree]
  cases hm : s.message? message with
  | none => rfl
  | some m =>
    have ht := hs.messages m (mem_of_message? hm).1
    exact congrArg Result.firstOf (h.faults hs ht [] j)

theorem convert (j : Json) : s'.convert message j = s.convert message j := by
  unfold Schema.convert findMessage
  rw [h.message?_eq hagree]
  cases hm : s.message? message with
  | none => rfl
  | some m =>
    have ht := hs.messages m (mem_of_message? hm).1
    exact congrArg (Except.map Value.encode) (h.valueOf hs ht [] j)

theorem decode (bytes : List UInt8) : s'.decode message bytes = s.decode message bytes := by
  cases hm : s.message? message with
  | none =>
    unfold Schema.decode findMessage
    rw [h.message?_eq hagree, hm]
    rfl
  | some m =>
    have ht := hs.messages m (mem_of_message? hm).1
    have hm' : s'.message? message = some (m.renumber σ) := by rw [h.message?_eq hagree, hm]; rfl
    rw [decode_eq hm', decode_eq hm, Message.renumber, h.readValue hs ht]
    cases s.readValue m.ty (.ofBytes bytes) with
    | error e r => rfl
    | ok v r =>
      dsimp only
      rw [h.jsonOf hs ht v]

end Renumbered

end Schema

/-! ## Schemas in two orders -/

/-- A schema of two structs. -/
def routeSchema : Schema where
  package := "routes"
  structs := [
    ⟨"Route", .start, [
      ⟨"Hops", .start, .array (.struct 1 false) false, none⟩,
      ⟨"Goal", .start, .struct 1 true, none⟩,
      ⟨"Cost", .start, .primitive (.number .int64) false, none⟩]⟩,
    ⟨"Hop", .start, [
      ⟨"Open", .start, .primitive .bool false, none⟩,
      ⟨"Node", .start, .primitive .string false, none⟩]⟩]
  declarations := [
    ⟨"Route", .start, .struct 0 false⟩,
    ⟨"Hop", .start, .struct 1 false⟩,
    ⟨"Batch", .start, .array (.struct 0 false) false⟩]
  messages := [⟨"Batch", .array (.struct 0 false) false⟩]

/-- The same schema, written from its end. -/
def routeSchemaReversed : Schema where
  package := "routes"
  structs := [
    ⟨"Hop", .start, [
      ⟨"Node", .start, .primitive .string false, none⟩,
      ⟨"Open", .start, .primitive .bool false, none⟩]⟩,
    ⟨"Route", .start, [
      ⟨"Cost", .start, .primitive (.number .int64) false, none⟩,
      ⟨"Goal", .start, .struct 0 true, none⟩,
      ⟨"Hops", .start, .array (.struct 0 false) false, none⟩]⟩]
  declarations := [
    ⟨"Batch", .start, .array (.struct 1 false) false⟩,
    ⟨"Hop", .start, .struct 0 false⟩,
    ⟨"Route", .start, .struct 1 false⟩]
  messages := [⟨"Batch", .array (.struct 1 false) false⟩]

theorem rearranged_routeSchema : routeSchema.Rearranged (1 - ·) routeSchemaReversed where
  package := rfl
  length := rfl
  maps id hid := by
    change 1 - id < 2
    omega
  inj id hid id' hid' heq := by
    change id < 2 at hid
    change id' < 2 at hid'
    omega
  structs id d hd := by
    match id with
    | 0 =>
      obtain rfl := Option.some.inj hd
      exact ⟨_, by decide, rfl⟩
    | 1 =>
      obtain rfl := Option.some.inj hd
      exact ⟨_, by decide, rfl⟩
    | id + 2 => exact nomatch hd
  declarations := by decide
  messages := by decide

theorem ranked_routeSchema : routeSchema.Ranked (1 - ·) where
  target_lt id target ht := by
    have hdown : ∀ id < 2, ∀ target ∈ routeSchema.targets id, 1 - target < 1 - id := by decide
    exact hdown id (Schema.lt_of_leads ht) target ht
  lt id _ := by
    change 1 - id < 2
    omega

/-- A schema in which one name is declared twice, and is the name of two messages. -/
def ambiguousSchema (first second : Primitive) : Schema where
  package := "ambiguous"
  structs := []
  declarations := [⟨"M", .start, .primitive first false⟩, ⟨"M", .start, .primitive second false⟩]
  messages := [⟨"M", .primitive first false⟩, ⟨"M", .primitive second false⟩]

end WireSchema
