import WireSchema.Proofs.RoundTrip

/-!
# Where a message ends

The bytes of a message say themselves where they end. Decoding looks at nothing behind them, so what
follows makes no difference; and a part of them is never a message, only one that was cut off. On
whatever bytes, decoding comes to an end, and what it can complain about is that bytes are missing
or that a text is not one, at a place inside the input.
-/

namespace WireSchema

open Wire

/-- What is wrong with some bytes: there are too few of them, or some are no text. -/
inductive Error.BlamesInput (bytes : List UInt8) : Error → Prop where
  | truncated {offset needed remaining : Nat} :
      offset + remaining = bytes.length → remaining < needed →
      BlamesInput bytes (.truncatedInput offset needed remaining)
  | malformed {offset : Nat} : offset ≤ bytes.length → BlamesInput bytes (.malformedInput offset)

/-- The bytes have run out. -/
def Error.IsTruncated (e : Error) : Prop :=
  ∃ offset needed remaining, e = .truncatedInput offset needed remaining

/-- The warnings about floats that JSON cannot write. -/
def Decoded.floatWarnings (d : Decoded) : List String :=
  d.value.nonFinite.map fun x =>
    s!"non-finite float {x.nonFiniteName} has no JSON form, writing null"

namespace Schema

variable {s : Schema} {rank : Nat → Nat} {message : String} {m : Message}

theorem blamesInput_of_decode (hr : s.Ranked rank) (hm : s.message? message = some m)
    (hrange : m.ty.InRange s.structs.length) {bytes : List UInt8} {e : Error}
    (h : s.decode message bytes = .error e) : e.BlamesInput bytes := by
  rw [decode_eq hm] at h
  split at h
  · exact nomatch h
  · rename_i e' r hread
    injection h with he
    obtain ⟨⟨passed, hrest, hoffset⟩, hblames⟩ := (safe_readValue hr hrange).error hread
    -- the reader stopped at a place of the input, with the rest of it in front
    have hbytes : bytes.length = passed.length + r.rest.length := by
      rw [← List.length_append, ← hrest]
      rfl
    have hstart : r.offset = passed.length := by rw [hoffset, Reader.ofBytes, Nat.zero_add]
    subst he
    cases hblames with
    | truncated hneeded => exact .truncated (by rw [hbytes, hstart]; rfl) hneeded
    | invalidUtf8 hle => exact .malformed (by omega)

/-- A message that was decoded is there whatever follows it, and not there if a part is missing. -/
theorem takes_of_decode (hr : s.Ranked rank) (hm : s.message? message = some m)
    (hrange : m.ty.InRange s.structs.length) {bytes : List UInt8} {d : Decoded}
    (h : s.decode message bytes = .ok d) :
    d.message = message ∧
    ∃ taken rest, bytes = taken ++ rest ∧ d.size = taken.length ∧ d.trailing = rest.length ∧
      (∀ rest', s.decode message (taken ++ rest') = .ok { d with trailing := rest'.length }) ∧
      ∀ part, part <+: taken → part.length < taken.length →
        ∃ e, s.decode message part = .error e ∧ e.IsTruncated := by
  obtain ⟨m', v, r, hm', hread, rfl⟩ := decode_eq_ok.mp h
  obtain rfl : m = m' := Option.some.inj (hm.symm.trans hm')
  obtain ⟨taken, hrest, hoffset, htakes, _⟩ := (safe_readValue hr hrange).ok hread
  have hsize : r.offset = taken.length := by rw [hoffset, Reader.ofBytes, Nat.zero_add]
  refine ⟨rfl, taken, r.rest, hrest, hsize, rfl, fun rest' => ?_, fun part hpart hlt => ?_⟩
  · refine decode_eq_ok.mpr ⟨m, v, _, hm, htakes.ok 0 rest', ?_⟩
    rw [hsize, Nat.zero_add]
    rfl
  · obtain ⟨e, r', he, offset, needed, remaining, rfl⟩ := htakes.cut 0 part hpart hlt
    refine ⟨_, ?_, offset, needed, remaining, rfl⟩
    rw [decode_eq hm, Reader.ofBytes, he]
    rfl

end Schema

/--
**Messages are self-delimiting, and decoding is safe on all bytes.** The depth that decoding allows
for never stops it: it could be any that is not below the number of structs.
-/
theorem decode_selfDelimiting {text : String} {c : Compiled} (hc : compile text = .ok c)
    {message : String} {m : Message} (hm : c.schema.message? message = some m)
    (bytes : List UInt8) :
    (∀ depth, c.schema.structs.length ≤ depth →
      c.schema.readValue m.ty = m.ty.read (c.schema.readStruct depth)) ∧
    ((∃ d, c.schema.decode message bytes = .ok d) ∨
      ∃ e, c.schema.decode message bytes = .error e ∧ e.BlamesInput bytes) ∧
    ∀ d, c.schema.decode message bytes = .ok d →
      d.size ≤ bytes.length ∧
      (∀ bytes', bytes'.take d.size = bytes.take d.size →
        c.schema.decode message bytes' = .ok { d with trailing := bytes'.length - d.size }) ∧
      (∀ part, part <+: bytes.take d.size → part.length < d.size →
        ∃ e, c.schema.decode message part = .error e ∧ e.IsTruncated) ∧
      d.warnings = d.floatWarnings ++
        if d.size < bytes.length then
          [s!"{bytes.length - d.size} trailing bytes after {message} at offset {d.size}"]
        else [] := by
  have hlawful := Compiled.lawful_of_compile hc
  obtain ⟨rank, hr⟩ := hlawful.exists_rank
  have hrange := hlawful.inRange.messages m (Schema.mem_of_message? hm).1
  refine ⟨fun depth hdepth => Schema.readValue_eq hr hrange hdepth, ?_, fun d hd => ?_⟩
  · cases h : c.schema.decode message bytes with
    | ok d => exact .inl ⟨d, rfl⟩
    | error e => exact .inr ⟨e, rfl, Schema.blamesInput_of_decode hr hm hrange h⟩
  · obtain ⟨hname, taken, rest, rfl, hsize, htrailing, hok, hcut⟩ :=
      Schema.takes_of_decode hr hm hrange hd
    rw [hsize, List.take_left, List.length_append]
    refine ⟨Nat.le_add_right _ _, fun bytes' hbytes' => ?_, hcut, ?_⟩
    · obtain ⟨rest', rfl⟩ : taken <+: bytes' := hbytes' ▸ List.take_prefix _ _
      rw [List.length_append, Nat.add_sub_cancel_left, ← hsize]
      exact hok rest'
    · rw [Decoded.warnings, Decoded.floatWarnings, htrailing, hname, hsize, Nat.add_sub_cancel_left]
      cases rest with
      | nil => simp
      | cons b rest => simp

theorem decode_selfDelimiting_reading :
    compile readingText = .ok reading ∧
    readingSchema.message? "Reading" = some ⟨"Reading", .struct 0 false⟩ ∧
    ∃ d, readingSchema.decode "Reading" (readingBytes ++ [7]) = .ok d ∧ d.size = 19 ∧
      d.warnings = d.floatWarnings ++ ["1 trailing bytes after Reading at offset 19"] ∧
      (∀ bytes, bytes.take 19 = readingBytes →
        readingSchema.decode "Reading" bytes = .ok { d with trailing := bytes.length - 19 }) ∧
      ∀ part, part <+: readingBytes → part.length < 19 →
        ∃ e, readingSchema.decode "Reading" part = .error e ∧ e.IsTruncated := by
  have hm : readingSchema.message? "Reading" = some ⟨"Reading", .struct 0 false⟩ := rfl
  have hdecode := Schema.decode_eq_ok.mpr ⟨_, _, _, hm, takes_readingBytes.ok 0 [7], rfl⟩
  obtain ⟨_, _, hall⟩ := decode_selfDelimiting compile_readingText hm (readingBytes ++ [7])
  obtain ⟨_, hmore, hcut, hwarnings⟩ := hall _ hdecode
  exact ⟨compile_readingText, hm, _, hdecode, rfl, hwarnings, hmore, hcut⟩

end WireSchema
