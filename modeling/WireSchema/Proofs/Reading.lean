import WireSchema.Wire.Reader
import WireSchema.Wire.Writer
import WireSchema.Proofs.Sequence

/-!
# What reading promises

A read *takes* some bytes when it succeeds on any input that starts with them, gives the same result
whatever follows, and reports an input that ends inside them as truncated. A read is *safe* when
this is the only way it succeeds, and when a failure names a place of the input. What a safe read
takes and gives can moreover be known to be related. All this passes from the parts of a read to the
whole, so it needs to be shown for single bytes and blocks of bytes only.
-/

namespace WireSchema.Wire

/-- `r'` is further on in the input that `r` stands in. -/
def Reader.Reaches (r r' : Reader) : Prop :=
  ∃ passed, r.rest = passed ++ r'.rest ∧ r'.offset = r.offset + passed.length

theorem Reader.Reaches.refl (r : Reader) : r.Reaches r :=
  ⟨[], rfl, rfl⟩

theorem Reader.Reaches.trans {a b c : Reader} (h₁ : a.Reaches b) (h₂ : b.Reaches c) :
    a.Reaches c := by
  obtain ⟨p, hp, hp'⟩ := h₁
  obtain ⟨q, hq, hq'⟩ := h₂
  refine ⟨p ++ q, by rw [hp, hq, List.append_assoc], ?_⟩
  rw [hq', hp', List.length_append, Nat.add_assoc]

/-- A failure that describes the place where the reader stopped. -/
inductive Blames : WireError → Reader → Prop where
  | truncated {r : Reader} {needed : Nat} :
      r.remaining < needed → Blames (.truncated r.offset needed r.remaining) r
  | invalidUtf8 {r : Reader} {start : Nat} :
      start ≤ r.offset → Blames (.invalidUtf8 start) r

/-- Bytes have run out. -/
def WireError.IsTruncated (e : WireError) : Prop :=
  ∃ offset needed remaining, e = .truncated offset needed remaining

namespace Read

variable {α β : Type}

theorem bind_eq (m : Read α) (f : α → Read β) (r : Reader) :
    (m >>= f) r = match m r with
      | .ok a r' => f a r'
      | .error e r' => .error e r' := by
  change EStateM.bind m f r = _
  unfold EStateM.bind
  split <;> simp_all

/-- `Takes m taken a`: from `taken`, whatever follows, `m` makes `a`; a part of it is too little. -/
structure Takes (m : Read α) (taken : List UInt8) (a : α) : Prop where
  ok : ∀ offset rest, m ⟨offset, taken ++ rest⟩ = .ok a ⟨offset + taken.length, rest⟩
  cut : ∀ offset part, part <+: taken → part.length < taken.length →
    ∃ e r, m ⟨offset, part⟩ = .error e r ∧ e.IsTruncated

/--
A read that succeeds by taking bytes, related to its result by `post`, and whose failures say where
they happened.
-/
structure Safe (m : Read α) (post : List UInt8 → α → Prop) : Prop where
  ok : ∀ {r r' : Reader} {a : α}, m r = .ok a r' →
    ∃ taken, r.rest = taken ++ r'.rest ∧ r'.offset = r.offset + taken.length ∧
      Takes m taken a ∧ post taken a
  error : ∀ {r r' : Reader} {e : WireError}, m r = .error e r' → r.Reaches r' ∧ Blames e r'

/-- Results of a sequence, each with the bytes it was made from. -/
inductive Each (post : α → List UInt8 → β → Prop) : List α → List UInt8 → List β → Prop where
  | nil : Each post [] [] []
  | cons {x : α} {xs : List α} {first second : List UInt8} {y : β} {ys : List β} :
      post x first y → Each post xs second ys → Each post (x :: xs) (first ++ second) (y :: ys)

theorem Each.zip {post : α → List UInt8 → β → Prop} {xs : List α} {taken : List UInt8} {ys : List β}
    (h : Each post xs taken ys) :
    xs.length = ys.length ∧ ∀ p ∈ xs.zip ys, ∃ first, post p.1 first p.2 := by
  induction h with
  | nil => exact ⟨rfl, fun p hp => absurd hp (by simp)⟩
  | @cons x xs first second y ys hy _ ih =>
    refine ⟨congrArg (· + 1) ih.1, fun p hp => ?_⟩
    rcases List.mem_cons.mp hp with rfl | hp
    · exact ⟨first, hy⟩
    · exact ih.2 p hp

theorem Each.flatMap {post : α → List UInt8 → β → Prop} {xs : List α} {taken : List UInt8}
    {ys : List β} (h : Each post xs taken ys) (encode : β → List UInt8)
    (hpost : ∀ x, ∀ y ∈ ys, ∀ first, post x first y → first = encode y) :
    taken = ys.flatMap encode := by
  induction h with
  | nil => rfl
  | @cons x xs first second y ys hy _ ih =>
    rw [List.flatMap_cons, hpost x y List.mem_cons_self first hy,
      ih fun x z hz => hpost x z (List.mem_cons_of_mem _ hz)]

/-! ## Sequences -/

theorem takes_pure (a : α) : Takes (pure a : Read α) [] a where
  ok offset rest := rfl
  cut offset part _ hlt := absurd hlt (by simp)

/-- The second read may look at where it starts, as long as that makes no difference to success. -/
theorem takes_then {m : Read α} {f : Nat → α → Read β} {first second : List UInt8} {a : α} {b : β}
    (hm : Takes m first a) (hf : ∀ start, Takes (f start a) second b) :
    Takes (m >>= fun a => get >>= fun r => f r.offset a) (first ++ second) b where
  ok offset rest := by
    rw [bind_eq, List.append_assoc, hm.ok]
    change f _ a _ = _
    rw [(hf _).ok, List.length_append, Nat.add_assoc]
  cut offset part hpart hlt := by
    rw [bind_eq]
    rcases Nat.lt_or_ge part.length first.length with hshort | hlong
    · -- the first read is cut off already
      have hfirst : part <+: first :=
        List.prefix_of_prefix_length_le hpart (List.prefix_append _ _) (Nat.le_of_lt hshort)
      obtain ⟨e, r, he, htr⟩ := hm.cut offset part hfirst hshort
      exact ⟨e, r, by rw [he], htr⟩
    · -- the first read goes through, and what is missing is missing from the second
      obtain ⟨tail, rfl⟩ : first <+: part :=
        List.prefix_of_prefix_length_le (List.prefix_append _ _) hpart hlong
      rw [hm.ok]
      refine (hf _).cut _ tail ((List.prefix_append_right_inj first).mp hpart) ?_
      simpa using hlt

theorem takes_bind {m : Read α} {f : α → Read β} {first second : List UInt8} {a : α} {b : β}
    (hm : Takes m first a) (hf : Takes (f a) second b) : Takes (m >>= f) (first ++ second) b :=
  takes_then hm fun _ => hf

theorem safe_pure {post : List UInt8 → α → Prop} {a : α} (h : post [] a) :
    Safe (pure a : Read α) post where
  ok {r r' a'} ha := by
    injection ha with h₁ h₂
    subst h₁; subst h₂
    exact ⟨[], rfl, rfl, takes_pure a, h⟩
  error {r r' e} h := nomatch h

theorem safe_bind {m : Read α} {f : α → Read β} {post : List UInt8 → α → Prop}
    {post' : List UInt8 → β → Prop} (hm : Safe m post)
    (hf : ∀ first a, post first a → Safe (f a) fun second b => post' (first ++ second) b) :
    Safe (m >>= f) post' where
  ok {r r' b} h := by
    rw [bind_eq] at h
    split at h
    · -- the second read starts where the first one stopped
      rename_i a r₁ h₁
      obtain ⟨first, hrest, hoff, htakes, hpost⟩ := hm.ok h₁
      obtain ⟨second, hrest', hoff', htakes', hpost'⟩ := (hf first a hpost).ok h
      refine ⟨first ++ second, ?_, ?_, takes_bind htakes htakes', hpost'⟩
      · rw [hrest, hrest', List.append_assoc]
      · rw [hoff', hoff, List.length_append, Nat.add_assoc]
    · exact nomatch h
  error {r r' e} h := by
    rw [bind_eq] at h
    split at h
    · rename_i a r₁ h₁
      obtain ⟨first, hrest, hoff, _, hpost⟩ := hm.ok h₁
      obtain ⟨hreach, hblame⟩ := (hf first a hpost).error h
      exact ⟨Reader.Reaches.trans ⟨first, hrest, hoff⟩ hreach, hblame⟩
    · rename_i e₁ r₁ h₁
      injection h with he hr
      subst he; subst hr
      exact hm.error h₁

theorem takes_map {m : Read α} {taken : List UInt8} {a : α} (f : α → β) (hm : Takes m taken a) :
    Takes (f <$> m) taken (f a) := by
  rw [map_eq_pure_bind, ← List.append_nil taken]
  exact takes_bind hm (takes_pure (f a))

theorem safe_map {m : Read α} {post : List UInt8 → α → Prop} {post' : List UInt8 → β → Prop}
    {f : α → β} (hm : Safe m post) (h : ∀ taken a, post taken a → post' taken (f a)) :
    Safe (f <$> m) post' := by
  rw [map_eq_pure_bind]
  refine safe_bind hm fun taken a hpost => safe_pure ?_
  rw [List.append_nil]
  exact h taken a hpost

theorem takes_mapM {f : α → Read β} {encode : β → List UInt8} {xs : List α} {ys : List β}
    (hlen : xs.length = ys.length) (h : ∀ p ∈ xs.zip ys, Takes (f p.1) (encode p.2) p.2) :
    Takes (xs.mapM f) (ys.flatMap encode) ys := by
  induction xs generalizing ys with
  | nil =>
    obtain rfl : ys = [] := List.eq_nil_of_length_eq_zero hlen.symm
    rw [List.mapM_nil]
    exact takes_pure []
  | cons x xs ih =>
    cases ys with
    | nil => exact absurd hlen (by simp)
    | cons y ys =>
      rw [List.mapM_cons, List.flatMap_cons]
      refine takes_bind (h (x, y) (by simp)) ?_
      have htail := ih (by simpa using hlen) fun p hp => h p (List.mem_cons_of_mem _ hp)
      rw [← List.append_nil (ys.flatMap encode)]
      exact takes_bind htail (takes_pure _)

theorem safe_mapM {f : α → Read β} {post : α → List UInt8 → β → Prop} {xs : List α}
    (h : ∀ x ∈ xs, Safe (f x) (post x)) : Safe (xs.mapM f) (Each post xs) := by
  induction xs with
  | nil =>
    rw [List.mapM_nil]
    exact safe_pure .nil
  | cons x xs ih =>
    rw [List.mapM_cons]
    refine safe_bind (h x List.mem_cons_self) fun first y hy => ?_
    refine safe_bind (ih fun z hz => h z (List.mem_cons_of_mem _ hz)) fun second ys hys => ?_
    refine safe_pure ?_
    rw [List.append_nil]
    exact .cons hy hys

/-! ## Bytes -/

theorem takes_bytes (block : List UInt8) : Takes (bytes block.length) block block where
  ok offset rest := by
    unfold bytes
    dsimp only
    rw [List.take_left, if_neg (Nat.lt_irrefl _), Reader.advance, List.drop_left]
  cut offset part _ hlt := by
    refine ⟨_, ⟨offset, part⟩, ?_, offset, block.length, part.length, rfl⟩
    unfold bytes
    dsimp only
    rw [List.take_of_length_le (Nat.le_of_lt hlt), if_pos hlt]
    rfl

theorem safe_bytes (n : Nat) :
    Safe (bytes n) fun taken block => taken = block ∧ block.length = n where
  ok {r r' block} h := by
    unfold bytes at h
    dsimp only at h
    split at h
    · exact nomatch h
    · rename_i hlen
      injection h with h₁ h₂
      subst h₁; subst h₂
      have hn : (r.rest.take n).length = n := by
        rw [List.length_take] at hlen ⊢
        omega
      refine ⟨r.rest.take n, (List.take_append_drop n r.rest).symm, by rw [hn]; rfl, ?_, rfl, hn⟩
      have htakes := takes_bytes (r.rest.take n)
      rwa [hn] at htakes
  error {r r' e} h := by
    unfold bytes at h
    dsimp only at h
    split at h
    · rename_i hlen
      injection h with h₁ h₂
      subst h₁; subst h₂
      refine ⟨.refl r, .truncated ?_⟩
      rw [List.length_take] at hlen
      unfold Reader.remaining
      omega
    · exact nomatch h

theorem takes_byte (b : UInt8) : Takes byte [b] b where
  ok offset rest := rfl
  cut offset part _ hlt := by
    obtain rfl : part = [] := List.eq_nil_of_length_eq_zero (by simpa using hlt)
    exact ⟨_, _, rfl, offset, 1, 0, rfl⟩

theorem safe_byte : Safe byte fun taken b => taken = [b] where
  ok {r r' b} h := by
    unfold byte at h
    split at h
    · exact nomatch h
    · rename_i b' rest hr
      injection h with h₁ h₂
      subst h₁; subst h₂
      exact ⟨[b'], hr, rfl, takes_byte b', rfl⟩
  error {r r' e} h := by
    unfold byte at h
    split at h
    · rename_i hr
      injection h with h₁ h₂
      subst h₁; subst h₂
      have hrem : r.remaining = 0 := by rw [Reader.remaining, hr]; rfl
      exact ⟨.refl r, hrem ▸ .truncated (by omega)⟩
    · exact nomatch h

/-! ## Flags, scalars and lengths -/

theorem takes_bool (b : UInt8) : Takes bool [b] (b != 0) :=
  takes_bind (takes_byte b) (takes_pure _)

theorem takes_flag (b : Bool) : Takes bool (flag b) b := by
  cases b with
  | true => exact takes_bool 1
  | false => exact takes_bool 0

theorem takes_scalar {kind : Numeric} (block : List UInt8) (h : block.length = kind.width) :
    Takes (scalar kind) block (Scalar.decode kind block) :=
  takes_map (Scalar.decode kind) (h ▸ takes_bytes block)

theorem takes_length (block : List UInt8) (h : block.length = lengthPrefixWidth) :
    Takes length block (ofLittleEndian block) :=
  takes_map ofLittleEndian (h ▸ takes_bytes block)

theorem safe_length : Safe length fun taken n => n ≤ maxLength ∧ taken = lengthPrefix n := by
  refine safe_map (safe_bytes _) fun taken block hblock => ?_
  obtain ⟨rfl, hlen⟩ := hblock
  refine ⟨?_, ?_⟩
  · have hlt := ofLittleEndian_lt taken
    rw [hlen] at hlt
    exact Nat.le_of_lt_succ hlt
  · rw [lengthPrefix, ← hlen, littleEndian_ofLittleEndian]

theorem length_lengthPrefix (n : Nat) : (lengthPrefix n).length = lengthPrefixWidth :=
  length_littleEndian _ _

/-- A length that fits its prefix is read back. -/
theorem takes_lengthPrefix {n : Nat} (h : n ≤ maxLength) : Takes length (lengthPrefix n) n := by
  have htakes := takes_length (lengthPrefix n) (length_lengthPrefix n)
  rwa [lengthPrefix, ofLittleEndian_littleEndian,
    Nat.mod_eq_of_lt (Nat.lt_of_le_of_lt h (by decide))] at htakes

end Read

/-- The bytes of a scalar stand for it. -/
theorem Scalar.decode_encode (x : Scalar) : decode x.kind x.encode = x := by
  rw [decode, encode, ofLittleEndian_littleEndian]
  cases x <;> simp [ofPattern, kind, pattern, Numeric.width]

/-- Bytes that a scalar is read from are the ones it is written with. -/
theorem Scalar.encode_decode {kind : Numeric} {block : List UInt8} (h : block.length = kind.width) :
    (decode kind block).encode = block ∧ (decode kind block).kind = kind := by
  have hlt : ofLittleEndian block < 256 ^ kind.width := h ▸ ofLittleEndian_lt block
  have hkind : (decode kind block).kind = kind := by cases kind <;> rfl
  have hpattern : (decode kind block).pattern = ofLittleEndian block := by
    cases kind <;> simp [decode, ofPattern, pattern] <;> exact hlt
  refine ⟨?_, hkind⟩
  rw [encode, hkind, hpattern, ← h, littleEndian_ofLittleEndian]

namespace Read

/-- A scalar is read back. -/
theorem takes_encode (x : Scalar) : Takes (scalar x.kind) x.encode x := by
  have htakes := takes_scalar x.encode x.length_encode
  rwa [Scalar.decode_encode] at htakes

theorem safe_scalar (kind : Numeric) :
    Safe (scalar kind) fun taken x => x.kind = kind ∧ taken = x.encode := by
  refine safe_map (safe_bytes _) fun taken block hblock => ?_
  obtain ⟨rfl, hlen⟩ := hblock
  obtain ⟨hbytes, hkind⟩ := Scalar.encode_decode hlen
  exact ⟨hkind, hbytes.symm⟩

/-! ## Strings -/

theorem textOf?_textBytes (text : String) : textOf? (textBytes text) = some text := by
  have hbytes : (⟨(textBytes text).toArray⟩ : ByteArray) = text.toByteArray := by
    simp [textBytes]
  unfold textOf? String.fromUTF8?
  rw [hbytes, dif_pos text.isValidUTF8]
  rfl

theorem textBytes_of_textOf? {block : List UInt8} {text : String} (h : textOf? block = some text) :
    textBytes text = block ∧ text.utf8ByteSize = block.length := by
  unfold textOf? String.fromUTF8? at h
  split at h
  · injection h with h
    subst h
    exact ⟨by simp [textBytes, String.fromUTF8], rfl⟩
  · exact nomatch h

theorem length_textBytes (text : String) : (textBytes text).length = text.utf8ByteSize :=
  (textBytes_of_textOf? (textOf?_textBytes text)).2.symm

/-- What follows the length of a string that starts at `start`. -/
def stringBody (start n : Nat) : Read String := do
  match textOf? (← bytes n) with
  | some text => return text
  | none => throw (.invalidUtf8 start)

theorem string_eq : string = length >>= fun n => get >>= fun r => stringBody r.offset n :=
  rfl

theorem stringBody_ok {start n : Nat} {r r' : Reader} {text : String}
    (h : stringBody start n r = .ok text r') :
    ∃ block, bytes n r = .ok block r' ∧ textOf? block = some text := by
  unfold stringBody at h
  rw [bind_eq] at h
  split at h
  · rename_i block r₁ hblock
    cases ht : textOf? block with
    | none =>
      rw [ht] at h
      exact nomatch h
    | some text' =>
      rw [ht] at h
      injection h with htext hr
      subst htext; subst hr
      exact ⟨block, hblock, ht⟩
  · exact nomatch h

theorem stringBody_error {start n : Nat} {r r' : Reader} {e : WireError}
    (h : stringBody start n r = .error e r') :
    bytes n r = .error e r' ∨ e = .invalidUtf8 start ∧ ∃ block, bytes n r = .ok block r' := by
  unfold stringBody at h
  rw [bind_eq] at h
  split at h
  · rename_i block r₁ hblock
    cases ht : textOf? block with
    | some text' =>
      rw [ht] at h
      exact nomatch h
    | none =>
      -- the whole string was there, and is not text
      rw [ht] at h
      injection h with he hr
      subst he; subst hr
      exact .inr ⟨rfl, block, hblock⟩
  · rename_i e₁ r₁ hblock
    injection h with he hr
    subst he; subst hr
    exact .inl hblock

theorem takes_stringBody {start n : Nat} {taken block : List UInt8} {text : String}
    (hb : Takes (bytes n) taken block) (ht : textOf? block = some text) :
    Takes (stringBody start n) taken text := by
  rw [← List.append_nil taken]
  refine takes_bind hb ?_
  rw [ht]
  exact takes_pure text

/-- A string that fits its prefix is read back. -/
theorem takes_text {text : String} (h : text.utf8ByteSize ≤ maxLength) :
    Takes string (lengthPrefix text.utf8ByteSize ++ textBytes text) text := by
  rw [string_eq]
  refine takes_then (takes_lengthPrefix h) fun start => ?_
  exact takes_stringBody (length_textBytes text ▸ takes_bytes (textBytes text))
    (textOf?_textBytes text)

theorem safe_string : Safe string fun taken text =>
    text.utf8ByteSize ≤ maxLength ∧ taken = lengthPrefix text.utf8ByteSize ++ textBytes text where
  ok {r r' text} h := by
    rw [string_eq, bind_eq] at h
    split at h
    · rename_i n r₁ h₁
      obtain ⟨block, hblock, ht⟩ := stringBody_ok h
      obtain ⟨header, hrest, hoff, htakes, hmax, hheader⟩ := safe_length.ok h₁
      obtain ⟨body, hrest', hoff', htakes', hbody, hlen⟩ := (safe_bytes n).ok hblock
      obtain ⟨htext, hsize⟩ := textBytes_of_textOf? ht
      refine ⟨header ++ body, ?_, ?_, ?_, ?_, ?_⟩
      · rw [hrest, hrest', List.append_assoc]
      · rw [hoff', hoff, List.length_append, Nat.add_assoc]
      · rw [string_eq]
        exact takes_then htakes fun start => takes_stringBody htakes' ht
      · omega
      · rw [hheader, hbody, htext, hsize, hlen]
    · exact nomatch h
  error {r r' e} h := by
    rw [string_eq, bind_eq] at h
    split at h
    · rename_i n r₁ h₁
      obtain ⟨header, hrest, hoff, _, _⟩ := safe_length.ok h₁
      have hreach : r.Reaches r₁ := ⟨header, hrest, hoff⟩
      rcases stringBody_error h with hcut | ⟨rfl, block, hblock⟩
      · obtain ⟨hreach', hblame⟩ := (safe_bytes n).error hcut
        exact ⟨hreach.trans hreach', hblame⟩
      · obtain ⟨body, hrest', hoff', _, _⟩ := (safe_bytes n).ok hblock
        exact ⟨hreach.trans ⟨body, hrest', hoff'⟩, .invalidUtf8 (by omega)⟩
    · rename_i e₁ r₁ h₁
      injection h with h₃ h₄
      subst h₃; subst h₄
      exact safe_length.error h₁

/-! ## Counted values -/

/-- Reading a number of values is reading one for each of as many marks. -/
theorem replicate_eq (item : Read α) (n : Nat) :
    replicate n item = (List.replicate n ()).mapM fun _ => item := by
  have honto : ∀ (n : Nat) (done : List α), replicateOnto item n done
      = (done.reverse ++ ·) <$> (List.replicate n ()).mapM fun _ => item := by
    intro n
    induction n with
    | zero =>
      intro done
      simp [replicateOnto]
    | succ n ih =>
      intro done
      rw [replicateOnto, List.replicate_succ, List.mapM_cons]
      simp [ih]
  rw [replicate, honto]
  simp

end Read

end WireSchema.Wire
