import WireSchema.Compile
import WireSchema.Proofs.Decoding
import WireSchema.Proofs.Documents

/-!
# There and back

Encoding a document and decoding bytes undo each other, as far as they can:

* bytes that were encoded are decoded to the **normal form** of the document, and bytes behind them
  are left alone;
* bytes that use only zeros and ones for flags, and hold only finite floats, are decoded to a
  document that is encoded to **the same bytes**.

The first needs that structs do not go on inside themselves, which is what compiling a schema
establishes, and that the numbers of the document are ones that JSON can write, as they are if it
was read from a text. The second needs keys that tell the fields of a struct apart.
-/

namespace WireSchema

open Wire

namespace Schema

variable {s : Schema} {message : String}

/-! ## The parts of a message's entry points -/

theorem findMessage_eq_ok {m : Message} :
    s.findMessage message = .ok m ↔ s.message? message = some m := by
  unfold findMessage
  split <;> simp_all

theorem checkData_eq_ok {j : Json} : s.checkData message j = .ok () ↔
    ∃ m, s.message? message = some m ∧ s.Conforms m.ty j := by
  unfold checkData
  rw [Result.bind_eq_ok]
  constructor
  · rintro ⟨m, hm, h⟩
    exact ⟨m, findMessage_eq_ok.mp hm, conforms_of_checkValue h⟩
  · rintro ⟨m, hm, h⟩
    exact ⟨m, findMessage_eq_ok.mpr hm, h.checkValue []⟩

theorem convert_eq_ok {j : Json} {bytes : List UInt8} : s.convert message j = .ok bytes ↔
    ∃ m v, s.message? message = some m ∧ s.Describes m.ty j v ∧ v.encode = bytes := by
  unfold convert
  rw [Result.bind_eq_ok]
  constructor
  · rintro ⟨m, hm, h⟩
    obtain ⟨v, hv, hbytes⟩ := Result.map_eq_ok.mp h
    exact ⟨m, v, findMessage_eq_ok.mp hm, describes_of_valueOf hv, hbytes⟩
  · rintro ⟨m, v, hm, h, hbytes⟩
    exact ⟨m, findMessage_eq_ok.mpr hm, Result.map_eq_ok.mpr ⟨v, h.valueOf [], hbytes⟩⟩

theorem decode_eq {m : Message} (hm : s.message? message = some m) (bytes : List UInt8) :
    s.decode message bytes = match s.readValue m.ty (.ofBytes bytes) with
      | .ok value rest => .ok ⟨message, value, s.jsonOf m.ty value, rest.offset, rest.remaining⟩
      | .error e _ => .error (.ofWire [] e) := by
  unfold decode
  rw [findMessage_eq_ok.mpr hm, ← (mem_of_message? hm).2]
  rfl

theorem decode_eq_ok {bytes : List UInt8} {d : Decoded} : s.decode message bytes = .ok d ↔
    ∃ m v r, s.message? message = some m ∧ s.readValue m.ty (.ofBytes bytes) = .ok v r ∧
      d = ⟨message, v, s.jsonOf m.ty v, r.offset, r.remaining⟩ := by
  constructor
  · intro h
    obtain ⟨m, hm, _⟩ := Result.bind_eq_ok.mp h
    have hm := findMessage_eq_ok.mp hm
    rw [decode_eq hm] at h
    split at h
    · rename_i v r hread
      exact ⟨m, v, r, hm, hread, (Except.ok.inj h).symm⟩
    · exact nomatch h
  · rintro ⟨m, v, r, hm, hread, rfl⟩
    rw [decode_eq hm, hread]

end Schema

theorem Compiled.encode_eq_ok {c : Compiled} {message : String} {j : Json} {bytes : List UInt8} :
    c.encode message j = .ok bytes ↔ ∃ m v, c.schema.message? message = some m ∧
      c.schema.Conforms m.ty j ∧ c.schema.Describes m.ty j v ∧ v.encode = bytes := by
  unfold encode
  rw [Result.bind_eq_ok]
  constructor
  · rintro ⟨_, hcheck, h⟩
    obtain ⟨m, hm, hc⟩ := Schema.checkData_eq_ok.mp hcheck
    obtain ⟨m', v, hm', hd, hbytes⟩ := Schema.convert_eq_ok.mp h
    obtain rfl : m = m' := Option.some.inj (hm.symm.trans hm')
    exact ⟨m, v, hm, hc, hd, hbytes⟩
  · rintro ⟨m, v, hm, hc, hd, hbytes⟩
    exact ⟨(), Schema.checkData_eq_ok.mpr ⟨m, hm, hc⟩,
      Schema.convert_eq_ok.mpr ⟨m, v, hm, hd, hbytes⟩⟩

/-! ## Documents -/

/--
**What was encoded is decoded to its normal form**, and nothing behind it is touched: the size is
that of the encoded bytes, and all that follows them is left over.
-/
theorem decode_encode_append {text : String} {c : Compiled} (hc : compile text = .ok c)
    {message : String} {j : Json} {bytes : List UInt8} (hj : j.Valid)
    (h : c.encode message j = .ok bytes) (rest : List UInt8) :
    ∃ m v, c.schema.message? message = some m ∧
      c.schema.decode message (bytes ++ rest) = .ok {
        message, value := v, json := c.schema.normal m.ty j
        size := bytes.length, trailing := rest.length } := by
  have hlawful := Compiled.lawful_of_compile hc
  obtain ⟨rank, hr⟩ := hlawful.exists_rank
  obtain ⟨m, v, hm, hconf, hd, rfl⟩ := Compiled.encode_eq_ok.mp h
  have hrange := hlawful.inRange.messages m (Schema.mem_of_message? hm).1
  -- what the document describes is read back from its bytes, in front of whatever follows
  have hread := (hd.typed.takes_readValue hr hrange).ok 0 rest
  rw [Nat.zero_add] at hread
  refine ⟨m, v, hm, Schema.decode_eq_ok.mpr ⟨m, v, _, hm, hread, ?_⟩⟩
  rw [hd.jsonOf hconf hj]
  rfl

/-! ### A schema and a document -/

/-- A schema whose fields are in order already is in canonical order. -/
theorem Schema.canonical_of_ordered {s : Schema} (h : ∀ d ∈ s.structs, d.fields.Pairwise fun a b =>
    Field.precedes (fun id => s.fixedStructs.getD id false) a b) : s.canonical = s := by
  have hstructs : s.canonical.structs = s.structs := by
    refine (List.map_congr_left fun d hd => ?_).trans (List.map_id _)
    rw [List.mergeSort_of_pairwise (h d hd)]
    rfl
  calc s.canonical = { s with structs := s.canonical.structs } := rfl
    _ = s := by rw [hstructs]

theorem compile_of_ordered {text : String} {s : Schema} {a : Analysis}
    (hparse : Schema.parse text = .ok s) (hcheck : s.check = .ok ())
    (hordered : ∀ d ∈ s.structs, d.fields.Pairwise fun a b =>
      Field.precedes (fun id => s.fixedStructs.getD id false) a b)
    (hanalyze : s.analyze = .ok a) : compile text = .ok ⟨s, a⟩ := by
  refine Result.bind_eq_ok.mpr ⟨s, hparse, Result.bind_eq_ok.mpr ⟨(), hcheck, ?_⟩⟩
  rw [Schema.canonical_of_ordered hordered]
  exact Result.bind_eq_ok.mpr ⟨a, hanalyze, rfl⟩

/-- A schema with a renamed key, optional items and an optional struct. -/
def readingText : String :=
  "package telemetry\n" ++
  "type Reading struct \x7b\n" ++
  "  Id int32 \x60json:\"id\"\x60\n" ++
  "  Level float32\n" ++
  "  Tags []*string\n" ++
  "  State *State\n" ++
  "\x7d\n" ++
  "type State struct \x7b Ready bool \x7d\n"

def readingSchema : Schema where
  package := "telemetry"
  structs := [
    ⟨"Reading", ⟨2, 6⟩, [
      ⟨"Id", ⟨3, 3⟩, .primitive (.number .int32) false, some "json:\"id\""⟩,
      ⟨"Level", ⟨4, 3⟩, .primitive (.number .float32) false, none⟩,
      ⟨"Tags", ⟨5, 3⟩, .array (.primitive .string true) false, none⟩,
      ⟨"State", ⟨6, 3⟩, .struct 1 true, none⟩]⟩,
    ⟨"State", ⟨8, 6⟩, [⟨"Ready", ⟨8, 21⟩, .primitive .bool false, none⟩]⟩]
  declarations := [⟨"Reading", ⟨2, 6⟩, .struct 0 false⟩, ⟨"State", ⟨8, 6⟩, .struct 1 false⟩]
  messages := [⟨"Reading", .struct 0 false⟩]

def readingLayout : Layout := ⟨false, 0, 4295032842, true, true, 1⟩

def stateLayout : Layout := ⟨true, 1, 1, false, false, 0⟩

def reading : Compiled where
  schema := readingSchema
  analysis := {
    structs := [readingLayout, stateLayout]
    declarations := [("Reading", readingLayout), ("State", stateLayout)]
    messages := [("Reading", readingLayout)] }

theorem parse_readingText : Schema.parse readingText = .ok readingSchema := by
  decide +kernel

theorem check_readingSchema : readingSchema.check = .ok () := by
  decide

theorem compile_readingText : compile readingText = .ok reading := by
  have hanalyze : readingSchema.analyze = .ok reading.analysis := by decide
  exact compile_of_ordered parse_readingText check_readingSchema (by decide) hanalyze

/-- Three is written as a float, the level as an integer, and one key is unknown. -/
def readingDocument : Json :=
  .object [
    ("id", .number (.float (.ofNat 3))),
    ("Level", .number (.int 1)),
    ("note", .bool true),
    ("Tags", .array [.string "hé", .null]),
    ("State", .object [("Ready", .bool true)])]

def readingValue : Value :=
  .record [.scalar (.int32 3), .scalar (.float32 0x3f800000),
    .list [.present (.text "hé"), .absent], .present (.record [.bool true])]

def readingBytes : List UInt8 :=
  [3, 0, 0, 0, 0, 0, 128, 63, 2, 0, 1, 3, 0, 104, 195, 169, 0, 1, 1]

theorem valid_readingDocument : readingDocument.Valid := by
  have hthree : (Number.float (.ofNat 3)).Valid := Double.isFinite_ofNat (by decide)
  have hone : (Number.int 1).Valid := by decide
  refine .object ?_
  simp only [List.forall_mem_cons]
  exact ⟨.number hthree, .number hone, .bool true,
    .array (by simp [Json.Valid.string, Json.Valid.null]),
    .object (by simp [Json.Valid.bool]), by simp⟩

theorem key_id (pos : Position) (ty : Ty) :
    Field.key ⟨"Id", pos, ty, some "json:\"id\""⟩ = "id" := by
  have hname : (Tag.value? "json:\"id\"" "json").map Tag.firstOption = some "id" := by
    cbv
  unfold Field.key
  dsimp only [Option.bind_some]
  rw [hname]
  rfl

theorem describes_readingDocument :
    readingSchema.Describes (.struct 0 false) readingDocument readingValue := by
  have hthree : (Number.float (.ofNat 3)).scalar? .int32 = some (.int32 3) := by decide +kernel
  have hone : (Number.int 1).scalar? .float32 = some (.float32 0x3f800000) := by decide +kernel
  have htext : readingSchema.Describes (.primitive .string false) (.string "hé") (.text "hé") :=
    .text (by decide)
  have hready : readingSchema.Describes (.struct 1 false) (.object [("Ready", .bool true)])
      (.record [.bool true]) := .record rfl (List.forall_mem_singleton.mpr (.bool true))
  have hstate : readingSchema.Describes (.struct 1 true) (.object [("Ready", .bool true)])
      (.present (.record [.bool true])) := .present rfl (by simp) hready
  refine .record rfl (List.forall_mem_cons.mpr ⟨?_, List.forall_mem_cons.mpr ⟨.scalar hone,
    List.forall_mem_cons.mpr ⟨.list (by decide) rfl ?_, List.forall_mem_singleton.mpr hstate⟩⟩⟩)
  · dsimp only
    rw [key_id]
    exact .scalar hthree
  · exact List.forall_mem_cons.mpr ⟨.present rfl (by simp) htext,
      List.forall_mem_singleton.mpr (.absent rfl)⟩

theorem conforms_readingDocument : readingSchema.Conforms (.struct 0 false) readingDocument := by
  have hthree : (Number.float (.ofNat 3)).Fits .int32 :=
    show (Number.integer? (.float (.ofNat 3)) .int32).isSome = true by decide +kernel
  have hone : (Number.int 1).Fits .float32 :=
    show (Number.toDouble (.int 1)).exceedsSingle = false by decide +kernel
  refine .record (List.forall_mem_cons.mpr ⟨?_, List.forall_mem_cons.mpr ⟨.number hone,
    List.forall_mem_cons.mpr ⟨.list (by decide) ?_, List.forall_mem_singleton.mpr ?_⟩⟩⟩)
  · rw [key_id]
    exact .number hthree
  · exact List.forall_mem_cons.mpr ⟨.text (by decide), List.forall_mem_singleton.mpr (.null rfl)⟩
  · exact .record (List.forall_mem_singleton.mpr (.bool true))

theorem encode_readingValue : readingValue.encode = readingBytes := by
  simp only [readingValue, Value.encode, List.flatMap_cons, List.flatMap_nil]
  decide

theorem encode_readingDocument : reading.encode "Reading" readingDocument = .ok readingBytes :=
  Compiled.encode_eq_ok.mpr ⟨⟨"Reading", .struct 0 false⟩, readingValue, by decide,
    conforms_readingDocument, describes_readingDocument, encode_readingValue⟩

theorem decode_encode_append_reading :
    compile readingText = .ok reading ∧ readingDocument.Valid ∧
      reading.encode "Reading" readingDocument = .ok readingBytes ∧
      ∃ m v, reading.schema.message? "Reading" = some m ∧
        reading.schema.decode "Reading" (readingBytes ++ [7, 7]) = .ok {
          message := "Reading", value := v, json := reading.schema.normal m.ty readingDocument
          size := 19, trailing := 2 } :=
  ⟨compile_readingText, valid_readingDocument, encode_readingDocument,
    decode_encode_append compile_readingText valid_readingDocument encode_readingDocument [7, 7]⟩

/-! ## Bytes -/

theorem Wire.Read.map_eq_ok {α β : Type} {m : Read α} {f : α → β} {b : β} {r r' : Reader}
    (h : (f <$> m) r = .ok b r') : ∃ a, m r = .ok a r' ∧ f a = b := by
  rw [map_eq_pure_bind, bind_eq] at h
  split at h
  · rename_i a r₁ ha
    injection h with hb hr
    exact ⟨a, hr ▸ ha, hb⟩
  · exact nomatch h

/--
**What was decoded is encoded to the bytes it came from**, if nothing was left over, every byte read
as a boolean or as the mark of an optional value is a zero or a one, and no float is an infinity or
a NaN.
-/
theorem encode_json_of_decode (c : Compiled) (hkeys : c.schema.DistinctKeys) {message : String}
    {bytes : List UInt8} {d : Decoded} (h : c.schema.decode message bytes = .ok d)
    (hall : d.trailing = 0)
    (hflags : ∀ flag ∈ c.schema.flagsRead message bytes, flag = 0 ∨ flag = 1)
    (hfinite : d.value.nonFinite = []) :
    c.schema.checkData message d.json = .ok () ∧ c.encode message d.json = .ok bytes := by
  obtain ⟨m, v, r, hm, hread, rfl⟩ := Schema.decode_eq_ok.mp h
  rw [← c.schema.value_traceValue] at hread
  obtain ⟨x, hx, rfl⟩ := Read.map_eq_ok hread
  obtain ⟨taken, hrest, hspells⟩ := Schema.spells_of_traceValue hx
  -- nothing is left over, so the bytes that were taken are all there are
  have hbytes : bytes = taken := by
    have hnil : r.rest = [] := List.eq_nil_of_length_eq_zero hall
    rwa [hnil, List.append_nil] at hrest
  have htaken : taken = x.value.encode := by
    refine hspells.encode fun flag hflag => hflags flag ?_
    rw [Schema.flagsRead, hm]
    dsimp only
    rw [hx]
    exact hflag
  obtain ⟨hd, hc⟩ := hspells.typed.describes hkeys hfinite
  exact ⟨Schema.checkData_eq_ok.mpr ⟨m, hm, hc⟩,
    Compiled.encode_eq_ok.mpr ⟨m, x.value, hm, hc, hd, by rw [hbytes, htaken]⟩⟩

theorem distinctKeys_reading : readingSchema.DistinctKeys := by
  unfold Schema.DistinctKeys readingSchema
  simp only [List.forall_mem_cons, List.map_cons, key_id]
  decide

theorem takes_readingBytes :
    Read.Takes (readingSchema.readValue (.struct 0 false)) readingBytes readingValue := by
  have hlawful := Compiled.lawful_of_compile compile_readingText
  obtain ⟨rank, hr⟩ := hlawful.exists_rank
  have hrange := hlawful.inRange.messages ⟨"Reading", .struct 0 false⟩ List.mem_cons_self
  rw [← encode_readingValue]
  exact describes_readingDocument.typed.takes_readValue hr hrange

theorem encode_json_of_decode_reading : readingSchema.DistinctKeys ∧
    readingSchema.flagsRead "Reading" readingBytes = [1, 0, 1, 1] ∧ readingValue.nonFinite = [] ∧
    ∃ j, readingSchema.decode "Reading" readingBytes = .ok ⟨"Reading", readingValue, j, 19, 0⟩ ∧
      readingSchema.checkData "Reading" j = .ok () ∧
      reading.encode "Reading" j = .ok readingBytes := by
  have hflags : readingSchema.flagsRead "Reading" readingBytes = [1, 0, 1, 1] := by decide +kernel
  have hstrict : ∀ flag ∈ ([1, 0, 1, 1] : List UInt8), flag = 0 ∨ flag = 1 := by simp
  have hlevel : (Single.toDouble ⟨0x3f800000⟩).isFinite = true := by decide +kernel
  have hfinite : readingValue.nonFinite = [] := by
    simp [readingValue, Value.nonFinite, Value.nonFiniteBefore, Scalar.double?, hlevel]
  have hdecode : readingSchema.decode "Reading" readingBytes
      = .ok ⟨"Reading", readingValue, _, 19, 0⟩ :=
    Schema.decode_eq_ok.mpr ⟨_, _, _, rfl, takes_readingBytes.ok 0 [], rfl⟩
  refine ⟨distinctKeys_reading, hflags, hfinite, _, hdecode, ?_⟩
  refine encode_json_of_decode reading distinctKeys_reading hdecode rfl ?_ hfinite
  intro flag hflag
  rw [show reading.schema = readingSchema from rfl, hflags] at hflag
  exact hstrict flag hflag

end WireSchema
