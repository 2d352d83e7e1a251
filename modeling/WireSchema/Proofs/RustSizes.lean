import WireSchema.Proofs.Members
import WireSchema.Proofs.RustEncoder
import WireSchema.Proofs.RustSizeText

/-!
# Sizes in Rust code are those of what is written

The size of a type is evaluated on a value of the type, by induction on the type: what is added up
is the number of bytes of the parts of the value. A sum of 64-bit numbers is right as long as it
does not pass the largest one, and it cannot pass it in a part if it does not in the whole. Sizes
that the analysis cut off at the largest number belong to values that are larger than that. So
**the capacity for a message and the size routine of every struct in it give the number of bytes
that the encoder writes**.
-/

namespace WireSchema

open Wire
open Naming (rustField)

namespace Schema

variable {s : Schema}

/-- No struct can be larger than 64 bits tell. -/
def Unsaturated (s : Schema) : Prop :=
  ∀ B, s.SizeRules B → ∀ id, B (.struct id false) ≤ maxSize

/-- The analysis tells, where it stayed below the limit. -/
theorem unsaturated_of_largest {rank : Nat → Nat} {L : Nat → Layout} (hr : s.Ranked rank)
    (hL : s.IsLayout L) (h : ∀ id < s.structs.length, (L id).largest < maxSize) :
    s.Unsaturated := by
  intro B hB id
  by_cases hid : id < s.structs.length
  · have hlargest : (L id).largest = min (B (.struct id false)) maxSize :=
      largest_layout hr hB hL (.struct id false)
    have hlt := h id hid
    omega
  · -- a struct that does not exist has no fields
    have hnone : s.fieldsOf id = [] := by
      rw [fieldsOf, List.getElem?_eq_none (Nat.le_of_not_lt hid)]
    rw [hB.struct, hnone]
    exact Nat.zero_le _

/-- What has been checked against the limit of lengths can be written. -/
theorem Typed.oversize_eq_nil {t : Ty} {v : Value} (h : s.Typed t v) : v.oversize = [] := by
  induction h with
  | text hlen => rw [Value.oversize, if_pos hlen]
  | list hlen _ ih =>
    rw [Value.oversize, if_pos hlen, List.flatMap_eq_nil_iff]
    exact ih
  | @record id fields hlen _ ih =>
    rw [Value.oversize, List.flatMap_eq_nil_iff]
    intro v hv
    obtain ⟨f, hp⟩ := Result.exists_mem_zip hlen hv
    exact ih (f, v) hp
  | present _ _ ih => rwa [Value.oversize]
  | _ => rw [Value.oversize] <;> simp

/-- A value of an optional type is there or not. -/
theorem Typed.optional {t : Ty} {v : Value} (h : s.Typed t v) (ht : t.optional = true) :
    v = .absent ∨ ∃ x, v = .present x ∧ s.Typed t.required x := by
  cases h with
  | absent _ => exact .inl rfl
  | present _ hx => exact .inr ⟨_, rfl, hx⟩
  | _ => exact absurd ht (by simp [Ty.optional])

theorem Typed.exists_record {id : Nat} {v : Value} (h : s.Typed (.struct id false) v) :
    ∃ values, v = .record values := by
  cases h with
  | record => exact ⟨_, rfl⟩
  | absent ht => exact absurd ht (by simp [Ty.optional])
  | present ht _ => exact absurd ht (by simp [Ty.optional])

/-- What is inside a value takes no more bytes than the value. -/
theorem Within.length_encode_le {t t' : Ty} {v v' : Value} (h : s.Within t v t' v') :
    v'.encode.length ≤ v.encode.length := by
  have hmem : ∀ {vs : List Value} {v : Value}, v ∈ vs →
      v.encode.length ≤ (vs.flatMap Value.encode).length := by
    intro vs v hv
    rw [List.length_flatMap]
    exact List.single_le_sum (fun _ _ => Nat.zero_le _) _ (List.mem_map.mpr ⟨v, hv, rfl⟩)
  induction h with
  | self => exact Nat.le_refl _
  | present _ ih =>
    rw [Value.encode, List.length_append] at ih
    omega
  | item _ hitem ih =>
    have hle := hmem hitem
    rw [Value.encode, List.length_append] at ih
    omega
  | field _ hp ih =>
    have hle := hmem (List.of_mem_zip hp).2
    rw [Value.encode] at ih
    omega

end Schema

namespace RustCode

/-! ## Numbers that 64 bits hold -/

/-- The size of a value can be calculated: it is small enough, or nothing stops the program and no
size of a struct was cut off. -/
def Calculable (s : Schema) (o : Overflow) (n : Nat) : Prop :=
  n ≤ maxSize ∨ (o = .wraps ∧ s.Unsaturated)

section Arithmetic

variable {s : Schema} {o : Overflow} {a b : Nat}

theorem Calculable.mono (h : Calculable s o b) (hle : a ≤ b) : Calculable s o a := by
  rcases h with h | h
  · exact .inl (Nat.le_trans hle h)
  · exact .inr h

theorem mod_of_le (h : a ≤ maxSize) : a % 2 ^ (64 : Nat) = a := by
  unfold maxSize at h
  omega

theorem Overflow.result?_of_le (o : Overflow) (h : a ≤ maxSize) : o.result? a = some a := by
  cases o with
  | panics => exact if_pos h
  | wraps => rw [result?, mod_of_le h]

theorem Calculable.result?_add (h : Calculable s o (a + b)) :
    o.result? (a % 2 ^ (64 : Nat) + b % 2 ^ (64 : Nat)) = some ((a + b) % 2 ^ (64 : Nat)) := by
  rcases h with h | ⟨rfl, _⟩
  · have ha : a ≤ maxSize := by omega
    have hb : b ≤ maxSize := by omega
    rw [mod_of_le ha, mod_of_le hb, mod_of_le h, o.result?_of_le h]
  · rw [Overflow.result?, ← Nat.add_mod]

theorem Calculable.result? (h : Calculable s o a) : o.result? a = some (a % 2 ^ (64 : Nat)) := by
  rcases h with h | ⟨rfl, _⟩
  · rw [mod_of_le h, o.result?_of_le h]
  · rfl

theorem Calculable.foldlM_add {ns : List Nat} (h : Calculable s o (a + ns.sum)) :
    (ns.map (· % 2 ^ (64 : Nat))).foldlM (fun m n => o.result? (m + n)) (a % 2 ^ (64 : Nat))
      = some ((a + ns.sum) % 2 ^ (64 : Nat)) := by
  induction ns generalizing a with
  | nil => rfl
  | cons n ns ih =>
    rw [List.sum_cons, ← Nat.add_assoc] at h ⊢
    rw [List.map_cons, List.foldlM_cons, (h.mono (Nat.le_add_right _ _)).result?_add]
    exact ih h

end Arithmetic

/-! ## Sizes of values -/

section Values

variable {s : Schema} {rank : Nat → Nat} {B : Ty → Nat} {L : Nat → Layout} {o : Overflow}

/-- A struct whose size can be calculated is small enough. -/
theorem Calculable.le_of_struct (hB : s.SizeRules B) (hL : s.IsLayout L) {id : Nat} {v : Value}
    (hv : s.Typed (.struct id false) v) (h : Calculable s o v.encode.length) :
    v.encode.length ≤ maxSize := by
  rcases h with h | ⟨_, h⟩
  · exact h
  · exact Nat.le_trans (hv.length_encode hB hL).1 (h B hB id)

/-- **The fixed size of a type is that of its values**, if it can be calculated at all. -/
theorem Calculable.fixedSize_eq (hr : s.Ranked rank) (hB : s.SizeRules B) (hL : s.IsLayout L)
    {t : Ty} {v : Value} (hv : s.Typed t v) (hfixed : (t.layout L).isFixed = true)
    (h : Calculable s o v.encode.length) :
    (t.layout L).fixedSize = v.encode.length ∧ v.encode.length ≤ maxSize := by
  have hlength := (hv.length_encode hB hL).2 hfixed
  have hoptional : t.optional = true → ¬ (t.layout L).isFixed = true := by
    intro ht
    rw [Schema.layout_of_optional ht]
    exact Bool.false_ne_true
  have hle : v.encode.length ≤ maxSize := by
    cases hv with
    | bool b =>
      rw [hlength, hB.bool]
      decide
    | scalar x =>
      rw [hlength, hB.number]
      cases x.kind <;> decide
    | record hlen hall => exact h.le_of_struct hB hL (.record hlen hall)
    | text _ => exact absurd hfixed Bool.false_ne_true
    | list _ _ => exact absurd hfixed Bool.false_ne_true
    | absent ht => exact absurd hfixed (hoptional ht)
    | present ht _ => exact absurd hfixed (hoptional ht)
  rw [Schema.fixedSize_layout hL, if_pos hfixed, Schema.largest_layout hr hB hL, ← hlength]
  exact ⟨Nat.min_eq_left hle, hle⟩

end Values

/-! ## Sizes of parts -/

/-- An expression stands for a size. Of a sum, so do its terms. -/
def SizeExpr.Yields (around : Surroundings) (vars : Variables) : SizeExpr → Nat → Prop
  | .add a b, n => ∃ i j, n = i + j ∧ a.Yields around vars i ∧ b.Yields around vars j
  | e, n => e.tree.eval around vars = some (.size (n % 2 ^ (64 : Nat)))

section Evaluation

variable {s : Schema} {around : Surroundings} {vars : Variables}

theorem eval_add {a b : Expr} {i j : Nat}
    (ha : a.eval around vars = some (.size (i % 2 ^ (64 : Nat))))
    (hb : b.eval around vars = some (.size (j % 2 ^ (64 : Nat))))
    (hfits : Calculable s around.overflow (i + j)) :
    (Expr.add a b).eval around vars = some (.size ((i + j) % 2 ^ (64 : Nat))) := by
  rw [Expr.eval, ha, hb]
  change (around.overflow.result? (i % 2 ^ (64 : Nat) + j % 2 ^ (64 : Nat))).map Meaning.size = _
  rw [hfits.result?_add]
  rfl

theorem eval_total {e : Expr} {ns : List Nat}
    (he : e.eval around vars = some (.sizes (ns.map (· % 2 ^ (64 : Nat)))))
    (hfits : Calculable s around.overflow ns.sum) :
    e.total.eval around vars = some (.size (ns.sum % 2 ^ (64 : Nat))) := by
  rw [← Nat.zero_add ns.sum] at hfits ⊢
  rw [Expr.eval, he]
  exact congrArg (Option.map Meaning.size) hfits.foldlM_add

theorem SizeExpr.Yields.eval {e : SizeExpr} {n : Nat} (h : e.Yields around vars n)
    (hfits : Calculable s around.overflow n) :
    e.tree.eval around vars = some (.size (n % 2 ^ (64 : Nat))) := by
  induction e generalizing n with
  | add a b iha ihb =>
    obtain ⟨i, j, rfl, ha, hb⟩ := h
    exact eval_add (iha ha (hfits.mono (Nat.le_add_right _ _)))
      (ihb hb (hfits.mono (Nat.le_add_left _ _))) hfits
  | _ => exact h

/-- What is added term by term adds up to the same. -/
theorem SizeExpr.Yields.eval_addTo {e : SizeExpr} {sum : Expr} {m n : Nat}
    (h : e.Yields around vars n) (hsum : sum.eval around vars = some (.size (m % 2 ^ (64 : Nat))))
    (hfits : Calculable s around.overflow (m + n)) :
    (e.addTo sum).eval around vars = some (.size ((m + n) % 2 ^ (64 : Nat))) := by
  induction e generalizing n with
  | add a b iha _ =>
    obtain ⟨i, j, rfl, ha, hb⟩ := h
    rw [← Nat.add_assoc] at hfits ⊢
    exact eval_add (iha ha (hfits.mono (Nat.le_add_right _ _)))
      (hb.eval (hfits.mono (Nat.le_add_left _ _))) hfits
  | _ => exact eval_add hsum h hfits

/-- **Terms with plus signs between them stand for the sum of what they stand for.** -/
theorem eval_termsTree {terms : List SizeExpr} {ns : List Nat} (hne : terms ≠ [])
    (h : List.Forall₂ (SizeExpr.Yields around vars) terms ns)
    (hfits : Calculable s around.overflow ns.sum) :
    (termsTree terms).eval around vars = some (.size (ns.sum % 2 ^ (64 : Nat))) := by
  have hlater : ∀ {terms : List SizeExpr} {ns : List Nat},
      List.Forall₂ (SizeExpr.Yields around vars) terms ns → ∀ {sum : Expr} {m : Nat},
        sum.eval around vars = some (.size (m % 2 ^ (64 : Nat))) →
        Calculable s around.overflow (m + ns.sum) →
        (terms.foldl SizeExpr.addTo sum).eval around vars
          = some (.size ((m + ns.sum) % 2 ^ (64 : Nat))) := by
    intro terms ns h
    induction h with
    | nil => exact fun hsum _ => hsum
    | cons he _ ih =>
      intro sum m hsum hfits
      rw [List.sum_cons, ← Nat.add_assoc] at hfits ⊢
      exact ih (he.eval_addTo hsum (hfits.mono (Nat.le_add_right _ _))) hfits
  cases h with
  | nil => exact absurd rfl hne
  | cons he hterms =>
    rw [List.sum_cons] at hfits ⊢
    exact hlater hterms (he.eval (hfits.mono (Nat.le_add_right _ _))) hfits

theorem SizeExpr.yields_literal {n : Nat} (h : n ≤ maxSize) :
    (SizeExpr.literal n).Yields around vars n := by
  change (Expr.literal n).eval around vars = _
  rw [Expr.eval, if_pos h, mod_of_le h]

/-- A variable that was just bound. -/
theorem eval_bound (x : String) (t : Ty) (v : Value) :
    (Place.ref x).tree.eval around ((x, t, v) :: vars) = some (.object t v) := by
  rw [Place.tree, Expr.eval, List.lookup_cons_self]
  rfl

end Evaluation

/-! ## Sizes of types -/

section Types

variable {s : Schema} {rank : Nat → Nat} {B : Ty → Nat} {L : Nat → Layout} {around : Surroundings}

variable (s around) in
/-- Expressions, one for each place, that give the sizes of the values of a type. -/
def Counts (t : Ty) (expr : Place → Fresh SizeExpr) : Prop :=
  ∀ {v : Value}, s.Typed t v → Calculable s around.overflow v.encode.length →
    ∀ (vars : Variables) (p : Place), p.tree.eval around vars = some (.object t v) →
      ∀ n : Nat, ((expr p).run n).1.Yields around vars v.encode.length

theorem method?_optional {t : Ty} (ht : t.optional = true) (v : Value) (method : String) :
    (Meaning.object t v).method? around method =
      if method = "is_some" then some (.flag !v.isAbsent)
      else if method = "as_ref" then some (.object t v)
      else none := by
  cases t with
  | primitive prim o =>
    obtain rfl : o = true := ht
    cases prim <;> rfl
  | struct id o =>
    obtain rfl : o = true := ht
    rfl
  | array e o =>
    obtain rfl : o = true := ht
    rfl

theorem eval_method {p : Expr} {vars : Variables} {m : Meaning} (hp : p.eval around vars = some m)
    (method : String) : (Expr.call p method).eval around vars = m.method? around method := by
  rw [Expr.eval, hp]
  rfl

theorem length_encode_absent : Value.absent.encode.length = 1 := by
  rw [Value.encode]
  rfl

theorem length_encode_present (x : Value) :
    (Value.present x).encode.length = 1 + x.encode.length := by
  rw [Value.encode, List.length_append]
  rfl

section

variable (hr : s.Ranked rank) (hB : s.SizeRules B) (hL : s.IsLayout L)
include hr hB hL

theorem yields_fixedSize {vars : Variables} {t : Ty} {v : Value} (hv : s.Typed t v)
    (hfixed : (t.layout L).isFixed = true) (hfits : Calculable s around.overflow v.encode.length) :
    (SizeExpr.literal (t.layout L).fixedSize).Yields around vars v.encode.length := by
  obtain ⟨hsize, hle⟩ := hfits.fixedSize_eq hr hB hL hv hfixed
  rw [hsize]
  exact SizeExpr.yields_literal hle

/-- A flag in front of a value of fixed size: both branches are constants. -/
theorem yields_ifSome {vars : Variables} {t : Ty} (ht : t.optional = true)
    (hfixed : (t.required.layout L).isFixed = true) {v : Value} (hv : s.Typed t v)
    (hfits : Calculable s around.overflow v.encode.length) {p : Place}
    (hp : p.tree.eval around vars = some (.object t v)) :
    (SizeExpr.ifSome p (.literal (wordAdd 1 (t.required.layout L).fixedSize)) (.literal 1)).Yields
      around vars v.encode.length := by
  have hthere : (Expr.call p.tree "is_some").eval around vars = some (.flag !v.isAbsent) := by
    rw [eval_method hp, method?_optional ht]
    rfl
  change (Expr.cond (.call p.tree "is_some") (.literal (wordAdd 1 _)) (.literal 1)).eval around vars
    = _
  rw [Expr.eval, hthere]
  rcases hv.optional ht with rfl | ⟨x, rfl, hx⟩
  · change (Expr.literal 1).eval around vars = _
    rw [length_encode_absent]
    rfl
  · rw [length_encode_present] at hfits ⊢
    obtain ⟨hsize, _⟩ := (hfits.mono (Nat.le_add_left _ 1)).fixedSize_eq hr hB hL hx hfixed
    have hword : wordAdd 1 x.encode.length ≤ maxSize := by
      unfold wordAdd maxSize
      omega
    change (Expr.literal (wordAdd 1 _)).eval around vars = _
    rw [hsize, Expr.eval, if_pos hword]
    rfl

end

/-- A flag in front of any other value. -/
theorem yields_mapOr {vars : Variables} {t : Ty} (ht : t.optional = true)
    {body : Place → Fresh SizeExpr} (hbody : Counts s around t.required body) {v : Value}
    (hv : s.Typed t v) (hfits : Calculable s around.overflow v.encode.length) {p : Place}
    (hp : p.tree.eval around vars = some (.object t v)) (x : String) (n : Nat) :
    (SizeExpr.add (.literal 1) (.mapOr p x ((body (.ref x)).run n).1)).Yields around vars
      v.encode.length := by
  have hone : (SizeExpr.literal 1).Yields around vars 1 := SizeExpr.yields_literal (by decide)
  have hsame : (Expr.call p.tree "as_ref").eval around vars = some (.object t v) := by
    rw [eval_method hp, method?_optional ht]
    rfl
  have hzero : (Expr.literal 0).eval around vars = some (.size 0) := rfl
  rcases hv.optional ht with rfl | ⟨y, rfl, hy⟩
  · refine ⟨1, 0, length_encode_absent, hone, ?_⟩
    change (Expr.mapOr (.call p.tree "as_ref") (.literal 0) x _).eval around vars = _
    rw [Expr.eval, hsame, hzero]
    exact if_pos ht
  · refine ⟨1, y.encode.length, length_encode_present y, hone, ?_⟩
    rw [length_encode_present] at hfits
    have hinner := hfits.mono (Nat.le_add_left _ 1)
    have hcounts := hbody hy hinner ((x, t.required, y) :: vars) (.ref x) (eval_bound x _ y) n
    change (Expr.mapOr (.call p.tree "as_ref") (.literal 0) x _).eval around vars = _
    rw [Expr.eval, hsame, hzero]
    exact (if_pos ht).trans (hcounts.eval hinner)

/-- A value that may be absent is as large as what it holds and a flag. -/
theorem counts_optional (hr : s.Ranked rank) (hB : s.SizeRules B) (hL : s.IsLayout L) {t : Ty}
    {body : Place → Fresh SizeExpr}
    (hbody : (t.required.layout L).isFixed = false → Counts s around t.required body) :
    Counts s around t fun p => sizeOptional t.optional (t.required.layout L) p body := by
  intro v hv hfits vars p hp n
  unfold sizeOptional
  by_cases ht : t.optional = true
  · rw [ht]
    cases hfixed : (t.required.layout L).isFixed with
    | true => exact yields_ifSome hr hB hL ht hfixed hv hfits hp
    | false => exact yields_mapOr ht (hbody hfixed) hv hfits hp (temporary "v" n) (n + 1)
  · rw [eq_false_of_ne_true ht]
    have hsame := Ty.required_of_optional_eq_false (eq_false_of_ne_true ht)
    rw [hsame] at hbody ⊢
    cases hfixed : (t.layout L).isFixed with
    | true => exact yields_fixedSize hr hB hL hv hfixed hfits
    | false => exact hbody hfixed hv hfits vars p hp n

theorem length_encode_text (text : String) :
    (Value.text text).encode.length = 2 + text.utf8ByteSize := by
  rw [Value.encode, List.length_append, Read.length_lengthPrefix, Read.length_textBytes]
  rfl

theorem length_encode_list (items : List Value) :
    (Value.list items).encode.length = 2 + (items.map fun v => v.encode.length).sum := by
  rw [Value.encode, List.length_append, Read.length_lengthPrefix, List.length_flatMap]
  rfl

theorem le_maxSize_of_le_maxLength {n : Nat} (h : n ≤ maxLength) : n ≤ maxSize := by
  unfold maxLength at h
  unfold maxSize
  omega

theorem counts_text : Counts s around (.primitive .string false)
    fun p => return .add (.literal 2) (.length p) := by
  intro v hv _ vars p hp n
  cases hv with
  | @text text hlen =>
    refine ⟨2, text.utf8ByteSize, length_encode_text text, SizeExpr.yields_literal (by decide), ?_⟩
    change (Expr.call p.tree "len").eval around vars = _
    rw [eval_method hp, mod_of_le (le_maxSize_of_le_maxLength hlen)]
    rfl
  | absent ht => exact absurd ht (by simp [Ty.optional])
  | present ht _ => exact absurd ht (by simp [Ty.optional])

/-- The routine of a struct, when it is called, gives the size of the struct. -/
def CallCounts (s : Schema) (around : Surroundings) (id : Nat) : Prop :=
  ∀ y, s.Typed (.struct id false) y → y.encode.length ≤ maxSize →
    around.encodedLen id y = some y.encode.length

theorem counts_struct (hB : s.SizeRules B) (hL : s.IsLayout L) {id : Nat}
    (hcall : CallCounts s around id) :
    Counts s around (.struct id false) fun p => return .encodedLen id p := by
  intro v hv hfits vars p hp n
  have hle := hfits.le_of_struct hB hL hv
  change (Expr.call p.tree "encoded_len").eval around vars = _
  rw [eval_method hp, mod_of_le hle]
  change (around.encodedLen id v).map Meaning.size = _
  rw [hcall v hv hle]
  rfl

/-- The number of items, as an expression. -/
theorem eval_length {vars : Variables} {e : Ty} {items : List Value} {p : Place}
    (hp : p.tree.eval around vars = some (.object (.array e false) (.list items))) :
    (Expr.call p.tree "len").eval around vars = some (.size items.length) := by
  rw [eval_method hp]
  rfl

/-- Items of one size are counted. -/
theorem counts_fixedItems (hr : s.Ranked rank) (hB : s.SizeRules B) (hL : s.IsLayout L) {e : Ty}
    (hfixed : (e.layout L).isFixed = true) :
    Counts s around (.array e false) fun p =>
      return .add (.literal 2) (.mul (.length p) (.literal (e.layout L).fixedSize)) := by
  intro v hv hfits vars p hp n
  cases hv with
  | @list _ items hmax hall =>
    have hitem : ∀ x ∈ items, x.encode.length = B e :=
      fun x hx => ((hall x hx).length_encode hB hL).2 hfixed
    have hsum : (items.map fun x => x.encode.length).sum = items.length * B e := by
      rw [List.map_congr_left hitem, List.map_const', List.sum_replicate, smul_eq_mul]
    rw [length_encode_list, hsum] at hfits
    refine ⟨2, items.length * B e, by rw [length_encode_list, hsum],
      SizeExpr.yields_literal (by decide), ?_⟩
    have hle : (e.layout L).fixedSize ≤ maxSize := by
      rw [Schema.fixedSize_layout hL, if_pos hfixed, Schema.largest_layout hr hB hL]
      exact Nat.min_le_right _ _
    -- a size that was cut off does no harm where there are no items
    have hsize : items.length * (e.layout L).fixedSize = items.length * B e := by
      cases items with
      | nil => rw [List.length_nil, Nat.zero_mul, Nat.zero_mul]
      | cons x items =>
        have hx := hitem x List.mem_cons_self
        have hfirst : Calculable s around.overflow x.encode.length := by
          refine hfits.mono ?_
          rw [hx, List.length_cons, Nat.succ_mul]
          omega
        rw [(hfirst.fixedSize_eq hr hB hL (hall x List.mem_cons_self) hfixed).1, hx]
    have hliteral : (Expr.literal (e.layout L).fixedSize).eval around vars
        = some (.size (e.layout L).fixedSize) := by
      rw [Expr.eval, if_pos hle]
    change (Expr.mul (.call p.tree "len") (.literal _)).eval around vars = _
    rw [Expr.eval, eval_length hp, hliteral]
    change (around.overflow.result? (items.length * (e.layout L).fixedSize)).map Meaning.size = _
    rw [hsize, (hfits.mono (Nat.le_add_left _ 2)).result?]
    rfl
  | absent ht => exact absurd ht (by simp [Ty.optional])
  | present ht _ => exact absurd ht (by simp [Ty.optional])

/-- The sizes of items, one by one. -/
theorem mapM_eval {vars : Variables} {e : Ty} {body : Place → Fresh SizeExpr}
    (hbody : Counts s around e body) {items : List Value} (hall : ∀ x ∈ items, s.Typed e x)
    (hfits : Calculable s around.overflow (items.map fun x => x.encode.length).sum) (v : String)
    (n : Nat) :
    (items.mapM fun x => do
        (← ((body (.ref v)).run n).1.tree.eval around ((v, e, x) :: vars)).size?)
      = some ((items.map fun x => x.encode.length).map (· % 2 ^ (64 : Nat))) := by
  induction items with
  | nil => rfl
  | cons x items ih =>
    obtain ⟨hx, hitems⟩ := List.forall_mem_cons.mp hall
    rw [List.map_cons, List.sum_cons] at hfits
    have hfirst := hfits.mono (Nat.le_add_right _ _)
    have heval := (hbody hx hfirst ((v, e, x) :: vars) (.ref v) (eval_bound v e x) n).eval hfirst
    rw [List.mapM_cons, heval, ih hitems (hfits.mono (Nat.le_add_left _ _))]
    rfl

/-- Items of different sizes are gone through one by one. -/
theorem counts_items {e : Ty} {body : Place → Fresh SizeExpr} (hbody : Counts s around e body) :
    Counts s around (.array e false) fun p => do
      let v ← fresh "v"
      return .add (.literal 2) (.sumOver p v (← body (.ref v))) := by
  intro v hv hfits vars p hp n
  cases hv with
  | @list _ items hmax hall =>
    rw [length_encode_list] at hfits
    have hitems := hfits.mono (Nat.le_add_left _ 2)
    refine ⟨2, _, length_encode_list items, SizeExpr.yields_literal (by decide), ?_⟩
    have hiter : (Expr.call p.tree "iter").eval around vars = some (.items e items) := by
      rw [eval_method hp]
      rfl
    have hsizes : (Expr.map (.call p.tree "iter") (temporary "v" n)
        ((body (.ref (temporary "v" n))).run (n + 1)).1.tree).eval around vars
          = some (.sizes ((items.map fun x => x.encode.length).map (· % 2 ^ (64 : Nat)))) := by
      rw [Expr.eval, hiter]
      exact congrArg (Option.map Meaning.sizes) (mapM_eval hbody hall hitems _ _)
    exact eval_total hsizes hitems
  | absent ht => exact absurd ht (by simp [Ty.optional])
  | present ht _ => exact absurd ht (by simp [Ty.optional])

/-- **The size of a type is evaluated to the size of its values.** -/
theorem counts_size (hr : s.Ranked rank) (hB : s.SizeRules B) (hL : s.IsLayout L) {t : Ty}
    (hcall : ∀ id, t.innermost? = some id → CallCounts s around id) :
    Counts s around t (size (Ty.layout L) t) := by
  induction t with
  | primitive prim o =>
    refine counts_optional (t := .primitive prim o) hr hB hL fun hvarying => ?_
    cases prim with
    | string => exact counts_text
    | bool => exact absurd hvarying.symm Bool.false_ne_true
    | number kind => exact absurd hvarying.symm Bool.false_ne_true
  | struct id o =>
    exact counts_optional (t := .struct id o) hr hB hL fun _ => counts_struct hB hL (hcall id rfl)
  | array e o ih =>
    refine counts_optional (t := .array e o) hr hB hL fun _ => ?_
    cases hfixed : (e.layout L).isFixed with
    | true => exact counts_fixedItems hr hB hL hfixed
    | false => exact counts_items (ih hcall)

end Types

/-! ## Sizes of structs -/

/-- The text between the braces of the routine that gives the size of a struct. -/
def sizeBody (r : StructRoutines) : String :=
  match r.size with
  | none => "Self::ENCODED_SIZE"
  | some terms => sizeText terms

/-- The constant of a struct of fixed size. -/
def constant? (sel : Selection) (id : Nat) : Option Nat :=
  let layout := sel.analysis.structLayout id
  if layout.isFixed then some layout.fixedSize else none

/-- Runs the routine that gives the size of a struct. -/
def encodedLen (sel : Selection) (o : Overflow) : (depth id : Nat) → Value → Option Nat
  | 0, _, _ => none
  | depth + 1, id, x => do
    let r ← (program sel).struct? id
    let e ← readBody (sizeBody r)
    let around : Surroundings := ⟨sel.schema, o, constant? sel id, encodedLen sel o depth⟩
    (← e.eval around [("self", .struct id false, x)]).size?

/-- Evaluates the capacity of the buffer for a message. -/
def capacity (sel : Selection) (o : Overflow) (depth : Nat) (message : String) (x : Value) :
    Option Nat := do
  let r ← (program sel).message? message
  let e ← readArgument r.capacity.text
  let around : Surroundings := ⟨sel.schema, o, none, encodedLen sel o depth⟩
  (← e.eval around [(messageVariable, r.message.ty, x)]).size?

/-- The texts that are evaluated are those of a file. -/
structure SizeTexts (sel : Selection) (file : List CodeStep) : Prop where
  encodedLen : ∀ r ∈ (program sel).structs,
    [.enter "pub(crate) fn encoded_len(&self) -> usize \x7b", .line (sizeBody r), .leave "\x7d"]
      <:+: file
  constant : ∀ r ∈ (program sel).structs, ∀ n, constant? sel r.id = some n →
    .line s!"pub const ENCODED_SIZE: usize = {n};" ∈ file
  capacity : ∀ r ∈ (program sel).messages,
    .line s!"let mut buffer = ByteBufferMut::with_capacity({r.capacity.text});" ∈ file

theorem structMethods_within_body {sel : Selection} {p : Program} {r : StructRoutines}
    (h : r ∈ p.structs) : structMethods sel r <:+: body sel p := by
  have hstruct : structDeclaration sel r.id ++ structMethods sel r
      <:+: p.structs.flatMap fun r => structDeclaration sel r.id ++ structMethods sel r :=
    List.infix_of_mem_flatten (List.mem_map.mpr ⟨r, h, rfl⟩)
  exact (List.suffix_append _ _).isInfix.trans (hstruct.trans (List.prefix_append _ _).isInfix)

theorem sizeTexts (sel : Selection) : SizeTexts sel (body sel (program sel)) where
  encodedLen := by
    intro r hr
    refine List.IsInfix.trans ?_ (structMethods_within_body hr)
    unfold structMethods
    dsimp only
    simp only [List.append_assoc]
    rw [← List.append_assoc]
    exact ⟨_, _, List.append_assoc _ _ _⟩
  constant := by
    intro r hr n hn
    refine (structMethods_within_body hr).subset ?_
    unfold constant? at hn
    unfold structMethods
    dsimp only at hn ⊢
    split at hn
    case isTrue hfixed =>
      obtain rfl := Option.some.inj hn
      simp only [List.append_assoc, if_pos hfixed]
      exact List.mem_append_right _ (List.mem_append_left _ (.tail _ (.head _)))
    case isFalse => cases hn
  capacity := by
    intro r hr
    refine List.mem_append_right _ (List.mem_flatMap.mpr ⟨r, hr, ?_⟩)
    unfold messageSteps
    dsimp only
    simp only [List.append_assoc]
    exact List.mem_append_right _ (List.mem_append_left _ (.tail _ (.tail _ (.head _))))

section Structs

variable {s : Schema} {rank : Nat → Nat} {B : Ty → Nat} {L : Nat → Layout} {around : Surroundings}
  {vars : Variables}

/-- The field of a struct is found by its name. -/
theorem eval_field {id : Nat} {values : List Value} (hs : around.schema = s)
    (hnames : ((s.fieldsOf id).map fun f => rustField f.name).Nodup)
    (hlen : (s.fieldsOf id).length = values.length)
    (hself : vars.lookup "self" = some (.struct id false, .record values)) {p : Field × Value}
    (hp : p ∈ (s.fieldsOf id).zip values) :
    (Place.field (rustField p.1.name)).tree.eval around vars = some (.object p.1.ty p.2) := by
  rw [Place.tree, Expr.eval, Expr.eval, hself]
  change (Meaning.object (.struct id false) (.record values)).field? around.schema _ = _
  rw [hs, Meaning.field?]
  refine List.lookup_of_mem ?_ (List.mem_map.mpr ⟨p, hp, rfl⟩)
  rw [← List.map_fst_zip (Nat.le_of_eq hlen), List.map_map] at hnames
  rw [List.map_map]
  simp only [Function.comp_def] at hnames ⊢
  exact hnames

variable (s around vars) in
/-- A field of the struct at hand, next to its value. -/
structure IsMember (p : Field × Value) : Prop where
  typed : s.Typed p.1.ty p.2
  found : (Place.field (rustField p.1.name)).tree.eval around vars = some (.object p.1.ty p.2)
  /-- The size routines of the structs in it can be called. -/
  counted : ∀ id, p.1.ty.innermost? = some id → CallCounts s around id

/-- Fields of different sizes have a term each. -/
theorem yields_terms (hr : s.Ranked rank) (hB : s.SizeRules B) (hL : s.IsLayout L)
    {pairs : List (Field × Value)}
    (h : ∀ p ∈ pairs, IsMember s around vars p ∧ p.2.encode.length ≤ maxSize) (n : Nat) :
    List.Forall₂ (SizeExpr.Yields around vars)
      (((pairs.map Prod.fst).mapM fun f =>
        size (Ty.layout L) f.ty (.field (rustField f.name))).run n).1
      (pairs.map fun p => p.2.encode.length) := by
  induction pairs generalizing n with
  | nil => exact .nil
  | cons p pairs ih =>
    obtain ⟨⟨hp, hle⟩, hpairs⟩ := List.forall_mem_cons.mp h
    have hterm := counts_size hr hB hL hp.counted hp.typed (.inl hle) vars _ hp.found n
    rw [List.map_cons, Fresh.run_mapM_cons, List.map_cons]
    exact .cons hterm (ih hpairs _)

/-- The constant in front takes the place of the fields of fixed size. -/
theorem yields_withConstant {constant : Nat} (hle : constant ≤ maxSize) {terms : List SizeExpr}
    {ns : List Nat} (h : List.Forall₂ (SizeExpr.Yields around vars) terms ns) :
    ∃ ns', List.Forall₂ (SizeExpr.Yields around vars) (withConstant .literal constant terms) ns' ∧
      ns'.sum = constant + ns.sum := by
  unfold withConstant
  by_cases hconstant : (decide (constant > 0) || terms.isEmpty) = true
  · rw [if_pos hconstant]
    exact ⟨constant :: ns, .cons (SizeExpr.yields_literal hle) h, List.sum_cons⟩
  · rw [if_neg hconstant]
    refine ⟨ns, h, ?_⟩
    simp only [Bool.or_eq_true, decide_eq_true_eq, not_or] at hconstant
    omega

theorem SizeExpr.Yields.asTerm {e : SizeExpr} {n : Nat} (h : e.Yields around vars n) :
    e.asTerm.Yields around vars n := by
  cases e <;> exact h

theorem yields_bracketed {terms : List SizeExpr} {ns : List Nat}
    (h : List.Forall₂ (SizeExpr.Yields around vars) terms ns) :
    List.Forall₂ (SizeExpr.Yields around vars) (bracketed terms) ns := by
  unfold bracketed
  split
  · exact List.forall₂_map_left_iff.mpr (h.imp fun _ _ he => he.asTerm)
  · exact h

theorem withConstant_ne_nil (constant : Nat) (terms : List SizeExpr) :
    withConstant SizeExpr.literal constant terms ≠ [] := by
  unfold withConstant
  cases terms with
  | nil => rw [List.isEmpty_nil, Bool.or_true, if_pos rfl]; exact List.cons_ne_nil _ _
  | cons e terms => split <;> exact List.cons_ne_nil _ _

theorem bracketed_ne_nil {terms : List SizeExpr} (h : terms ≠ []) : bracketed terms ≠ [] := by
  unfold bracketed
  split
  · exact fun heq => h (List.map_eq_nil_iff.mp heq)
  · exact h

/-- A sum can be taken apart by a test. -/
theorem sum_filter_add {α : Type} (test : α → Bool) (f : α → Nat) (xs : List α) :
    ((xs.filter test).map f).sum + ((xs.filter fun x => !test x).map f).sum = (xs.map f).sum := by
  induction xs with
  | nil => rfl
  | cons x xs ih =>
    rw [List.filter_cons, List.filter_cons, List.map_cons, List.sum_cons]
    cases test x with
    | true =>
      simp only [if_true, Bool.not_true, Bool.false_eq_true, if_false, List.map_cons, List.sum_cons]
      omega
    | false =>
      simp only [if_true, Bool.not_false, Bool.false_eq_true, if_false, List.map_cons,
        List.sum_cons]
      omega

theorem build_structSize (layoutOf : Ty → Layout) (fields : List Field) :
    (structSize layoutOf fields).build = bracketed (withConstant .literal
      (((fields.filter fun f => (layoutOf f.ty).isFixed).map fun f =>
        (layoutOf f.ty).fixedSize).foldl wordAdd 0)
      (((varyingFields layoutOf fields).mapM fun f =>
        size layoutOf f.ty (.field (rustField f.name))).run 0).1) := by
  unfold structSize
  rw [List.partition_eq_filter_filter]
  rfl

theorem build_structSize_ne_nil (layoutOf : Ty → Layout) (fields : List Field) :
    (structSize layoutOf fields).build ≠ [] := by
  rw [build_structSize]
  exact bracketed_ne_nil (withConstant_ne_nil _ _)

/-- The text of the size of a struct is read as the sum of its terms. -/
theorem readBody_structSize (layoutOf : Ty → Layout) {fields : List Field}
    (hnamed : ∀ f ∈ fields, Grammar.isIdentifier f.name = true) :
    readBody (sizeText (structSize layoutOf fields).build)
      = some (termsTree (structSize layoutOf fields).build) := by
  rw [build_structSize]
  refine readBody_bracketed (withConstant_ne_nil _ _) (isReadable_terms layoutOf _ ?_ 0)
  exact fun f hf => hnamed f (List.mem_filter.mp hf).1

/-- Fields of a fixed size each, next to their values. -/
theorem fixedTotal_eq (hr : s.Ranked rank) (hB : s.SizeRules B) (hL : s.IsLayout L)
    {pairs : List (Field × Value)}
    (h : ∀ p ∈ pairs, s.Typed p.1.ty p.2 ∧ p.2.encode.length ≤ maxSize) :
    fixedTotal (Ty.layout L) (pairs.map Prod.fst)
      = ((pairs.filter fun p => (p.1.ty.layout L).isFixed).map fun p => p.2.encode.length).sum := by
  rw [fixedTotal, List.filter_map, List.map_map]
  refine congrArg List.sum (List.map_congr_left fun p hp => ?_)
  obtain ⟨hp, hfixed⟩ := List.mem_filter.mp hp
  obtain ⟨hv, hle⟩ := h p hp
  exact (Calculable.fixedSize_eq (o := .panics) hr hB hL hv hfixed (.inl hle)).1

/-- **The terms of a struct stand for numbers that add up to its size.** -/
theorem yields_structSize (hr : s.Ranked rank) (hB : s.SizeRules B) (hL : s.IsLayout L)
    {pairs : List (Field × Value)} (h : ∀ p ∈ pairs, IsMember s around vars p)
    (hle : (pairs.map fun p => p.2.encode.length).sum ≤ maxSize) :
    ∃ ns, ns.sum = (pairs.map fun p => p.2.encode.length).sum ∧
      List.Forall₂ (SizeExpr.Yields around vars)
        (structSize (Ty.layout L) (pairs.map Prod.fst)).build ns := by
  have hpair : ∀ p ∈ pairs, p.2.encode.length ≤ maxSize := fun p hp => Nat.le_trans
    (List.single_le_sum (fun _ _ => Nat.zero_le _) _ (List.mem_map.mpr ⟨p, hp, rfl⟩)) hle
  have hsplit := sum_filter_add (fun p : Field × Value => (p.1.ty.layout L).isFixed)
    (fun p => p.2.encode.length) pairs
  have hfixed := fixedTotal_eq hr hB hL fun p hp => ⟨(h p hp).typed, hpair p hp⟩
  have hconstant : fixedTotal (Ty.layout L) (pairs.map Prod.fst) ≤ maxSize := by omega
  have hterms : ∀ p ∈ pairs.filter fun p => !(p.1.ty.layout L).isFixed,
      IsMember s around vars p ∧ p.2.encode.length ≤ maxSize := by
    intro p hp
    obtain ⟨hp, _⟩ := List.mem_filter.mp hp
    exact ⟨h p hp, hpair p hp⟩
  obtain ⟨ns, hyields, hns⟩ := yields_withConstant hconstant (yields_terms hr hB hL hterms 0)
  refine ⟨ns, by omega, ?_⟩
  have hvarying : varyingFields (Ty.layout L) (pairs.map Prod.fst)
      = (pairs.filter fun p => !(p.1.ty.layout L).isFixed).map Prod.fst := List.filter_map
  rw [build_structSize, foldl_wordAdd _ _ (Nat.zero_le _), Nat.zero_add, hvarying]
  rw [← mod_of_le hconstant] at hyields
  exact yields_bracketed hyields

/-- **The terms of a struct are evaluated to its size.** -/
theorem eval_structSize (hs : around.schema = s) (hr : s.Ranked rank) (hB : s.SizeRules B)
    (hL : s.IsLayout L) {id : Nat} (hnames : ((s.fieldsOf id).map fun f => rustField f.name).Nodup)
    (hcall : ∀ target ∈ s.targets id, CallCounts s around target) {values : List Value}
    (hself : vars.lookup "self" = some (.struct id false, .record values))
    (hv : s.Typed (.struct id false) (.record values))
    (hle : (Value.record values).encode.length ≤ maxSize) :
    (termsTree (structSize (Ty.layout L) (s.fieldsOf id)).build).eval around vars
      = some (.size (Value.record values).encode.length) := by
  cases hv with
  | record hlen hall =>
    have hsum : (((s.fieldsOf id).zip values).map fun p => p.2.encode.length).sum
        = (Value.record values).encode.length := by
      rw [Value.encode, List.length_flatMap]
      nth_rewrite 2 [← List.map_snd_zip (Nat.le_of_eq hlen.symm)]
      rw [List.map_map]
      rfl
    rw [← hsum] at hle
    have hfields : ∀ p ∈ (s.fieldsOf id).zip values, IsMember s around vars p := fun p hp => {
      typed := hall p hp
      found := eval_field hs hnames hlen hself hp
      counted := fun target ht =>
        hcall target (Schema.mem_targets (List.of_mem_zip hp).1 ht) }
    obtain ⟨ns, hns, hyields⟩ := yields_structSize hr hB hL hfields hle
    rw [List.map_fst_zip (Nat.le_of_eq hlen)] at hyields
    rw [← hns] at hle
    rw [eval_termsTree (s := s) (build_structSize_ne_nil _ _) hyields (.inl hle), mod_of_le hle,
      hns, hsum]

end Structs

section Files

variable {sel : Selection} {rank : Nat → Nat} {B : Ty → Nat}

/-- **The size routine of a struct gives the size of the struct.** -/
theorem encodedLen_eq (h : sel.Lawful rank) (hnamed : sel.schema.Named)
    (hB : sel.schema.SizeRules B) (hL : sel.schema.IsLayout sel.analysis.structLayout)
    (o : Overflow) {depth id : Nat} (hid : id ∈ sel.structs) (hdepth : rank id < depth) {y : Value}
    (hy : sel.schema.Typed (.struct id false) y) (hle : y.encode.length ≤ maxSize) :
    encodedLen sel o depth id y = some y.encode.length := by
  induction depth generalizing id y with
  | zero => exact absurd hdepth (Nat.not_lt_zero _)
  | succ depth ih =>
    rw [encodedLen, struct?_program hid]
    cases hfixed : (sel.analysis.structLayout id).isFixed with
    | true =>
      have hsize := Calculable.fixedSize_eq (o := o) h.ranked hB hL hy hfixed (.inl hle)
      have hbody : sizeBody (structRoutines sel id) = "Self::ENCODED_SIZE" := by
        rw [sizeBody, structRoutines, hfixed]
        rfl
      have hconstant : constant? sel id = some y.encode.length := by
        rw [constant?, hfixed, ← hsize.1]
        rfl
      simp only [Option.bind_eq_bind, Option.bind_some, hbody, readBody_constant, hconstant]
      rfl
    | false =>
      have hbody : sizeBody (structRoutines sel id)
          = sizeText (structSize sel.layoutOf (sel.schema.fieldsOf id)).build := by
        rw [sizeBody, structRoutines, hfixed]
        rfl
      simp only [Option.bind_eq_bind, Option.bind_some, hbody,
        readBody_structSize sel.layoutOf (hnamed.fieldsOf id)]
      obtain ⟨values, rfl⟩ := hy.exists_record
      have hcall : ∀ target ∈ sel.schema.targets id, CallCounts sel.schema
          ⟨sel.schema, o, constant? sel id, encodedLen sel o depth⟩ target := by
        intro target ht y hy hle
        have hlt := h.ranked.target_lt id target ht
        exact ih (h.target_mem hid ht) (by omega) hy hle
      have hself : ([("self", .struct id false, .record values)] : Variables).lookup "self"
          = some (.struct id false, .record values) := rfl
      have heval := eval_structSize (s := sel.schema) rfl h.ranked hB hL (h.rustNames id) hcall
        hself hy hle
      exact congrArg (Option.bind · Meaning.size?) heval

/-- **The capacity for a message is the size of the message**, up to what 64 bits hold. -/
theorem capacity_eq (h : sel.Lawful rank) (hnamed : sel.schema.Named) (hB : sel.schema.SizeRules B)
    (hL : sel.schema.IsLayout sel.analysis.structLayout) {o : Overflow} {m : Message}
    (hm : m ∈ sel.messages) {depth : Nat} (hdepth : sel.schema.structs.length ≤ depth) {x : Value}
    (hx : sel.schema.Typed m.ty x) (hfits : Calculable sel.schema o x.encode.length) :
    capacity sel o depth m.name x = some (x.encode.length % 2 ^ (64 : Nat)) := by
  have hcall : ∀ id, m.ty.innermost? = some id →
      CallCounts sel.schema ⟨sel.schema, o, none, encodedLen sel o depth⟩ id := by
    intro id hid y hy hle
    have hlt := h.rank_lt hm hid
    exact encodedLen_eq h hnamed hB hL o (h.root_mem hm hid) (by omega) hy hle
  have hplace : (Place.ref messageVariable).IsProper := ⟨by decide, by decide⟩
  have hread := readArgument_text (isReadable_size sel.layoutOf m.ty hplace 0).1
  have hyields := counts_size h.ranked hB hL hcall hx hfits [(messageVariable, m.ty, x)]
    (.ref messageVariable) (eval_bound _ _ _) 0
  have hcapacity : (messageRoutines sel m).capacity
      = ((size sel.layoutOf m.ty (.ref messageVariable)).run 0).1 := rfl
  rw [capacity, message?_program hm (h.eq_of_name hm)]
  simp only [Option.bind_eq_bind, Option.bind_some, hcapacity, hread]
  exact congrArg (Option.bind · Meaning.size?) (hyields.eval hfits)

theorem mem_structs_of_within (h : sel.Lawful rank) {t t' : Ty} {v v' : Value}
    (hroot : ∀ id, t.innermost? = some id → id ∈ sel.structs) (hw : sel.schema.Within t v t' v') :
    ∀ id, t'.innermost? = some id → id ∈ sel.structs := by
  induction hw with
  | self => exact hroot
  | present _ ih => exact ih
  | item _ _ ih => exact ih
  | field _ hp ih =>
    intro target ht
    exact h.target_mem (ih _ rfl) (Schema.mem_targets (List.of_mem_zip hp).1 ht)

/-- The size routines of the structs in a value give the numbers of bytes that are written for
them, whatever happens when a sum is too large. -/
def SizesExact (sel : Selection) (depth : Nat) (t : Ty) (x : Value) : Prop :=
  ∀ id o fields, sel.schema.Within t x (.struct id o) (.record fields) →
    ∃ w, (program sel).encodeInto depth id (.record fields) {} = .ok w ∧
      ∀ overflow, encodedLen sel overflow depth id (.record fields) = some w.data.length

theorem sizesExact (h : sel.Lawful rank) (hin : sel.schema.InRange) (hnamed : sel.schema.Named)
    (hB : sel.schema.SizeRules B) (hL : sel.schema.IsLayout sel.analysis.structLayout)
    {o : Overflow} {m : Message} (hm : m ∈ sel.messages) {depth : Nat}
    (hdepth : sel.schema.structs.length ≤ depth) {x : Value} (hx : sel.schema.Typed m.ty x)
    (hfits : Calculable sel.schema o x.encode.length) : SizesExact sel depth m.ty x := by
  intro id optional fields hwithin
  have hid := mem_structs_of_within h (fun _ => h.root_mem hm) hwithin id rfl
  have hrank := h.ranked.lt id (h.struct_lt hin hid)
  obtain ⟨hlen, hall⟩ := hwithin.record hx
  have hy : sel.schema.Typed (.struct id false) (.record fields) := .record hlen hall
  have hle := (hfits.mono hwithin.length_encode_le).le_of_struct hB hL hy
  refine ⟨⟨(Value.record fields).encode⟩, ?_, fun overflow => ?_⟩
  · rw [encodeInto_writes h hid (by omega) _ hy.holds, Value.write, hy.oversize_eq_nil]
    rfl
  · exact encodedLen_eq h hnamed hB hL overflow hid (by omega) hy hle

end Files

end RustCode

/--
**Sizes in generated Rust code are exact.** A message of a compiled schema is encoded. The text in
the brackets of `with_capacity` and the texts of the size routines, read as the language reads them,
are evaluated to the number of bytes that the encoder writes: for the message as a whole, and for
every struct in it. That is so for all that has a size of 64 bits, in any schema. If no struct can
be larger, it is so of every struct, and of the message up to a multiple of `2 ^ 64`.
-/
theorem rust_sizes_exact {text : String} {c : Compiled} (hc : compile text = .ok c)
    {messages : List Message} (hsub : messages ⊆ c.schema.messages) (options : Options)
    {m : Message} (hm : m ∈ messages) {x : Value} (hx : c.schema.Holds m.ty x) {depth : Nat}
    (hdepth : c.schema.structs.length ≤ depth) {bytes : List UInt8}
    (hrun : (RustCode.program (c.select messages options)).encode depth m.name x = .ok bytes) :
    let sel := c.select messages options
    RustCode.SizeTexts sel (RustCode.body sel (RustCode.program sel)) ∧
    (bytes.length ≤ maxSize →
      (∀ overflow, RustCode.capacity sel overflow depth m.name x = some bytes.length) ∧
      RustCode.SizesExact sel depth m.ty x) ∧
    (c.schema.Unsaturated →
      RustCode.capacity sel .wraps depth m.name x = some (bytes.length % 2 ^ (64 : Nat)) ∧
      RustCode.SizesExact sel depth m.ty x) := by
  obtain ⟨rank, hlawful⟩ := Compiled.lawful_select hc hsub options
  have hin := (Compiled.lawful_of_compile hc).inRange
  have hnamed := Compiled.named_of_compile hc
  have hL := Compiled.isLayout_of_compile hc
  obtain ⟨B, hB⟩ := Schema.exists_sizeRules hlawful.ranked
  rw [RustCode.encode_eq_write hlawful hm hx hdepth, Result.mapError_eq_ok, Value.write] at hrun
  have hfits : x.oversize = [] := by
    cases hover : x.oversize with
    | nil => rfl
    | cons e rest =>
      rw [hover] at hrun
      cases hrun
  rw [hfits] at hrun
  obtain rfl : x.encode = bytes := Except.ok.inj hrun
  have htyped := hx.typed hfits
  refine ⟨RustCode.sizeTexts _, fun hle => ⟨fun overflow => ?_, ?_⟩, fun hunsaturated => ⟨?_, ?_⟩⟩
  · rw [RustCode.capacity_eq hlawful hnamed hB hL hm hdepth htyped (.inl hle),
      RustCode.mod_of_le hle]
  · exact RustCode.sizesExact (o := .panics) hlawful hin hnamed hB hL hm hdepth htyped (.inl hle)
  · exact RustCode.capacity_eq hlawful hnamed hB hL hm hdepth htyped (.inr ⟨rfl, hunsaturated⟩)
  · exact RustCode.sizesExact (o := .wraps) hlawful hin hnamed hB hL hm hdepth htyped
      (.inr ⟨rfl, hunsaturated⟩)

theorem rust_sizes_exact_reading :
    compile readingText = .ok reading ∧ readingSchema.Unsaturated ∧
    readingSchema.Holds (.struct 0 false) readingValue ∧
    ∀ options, let sel := reading.select readingSchema.messages options
      (RustCode.program sel).encode 2 "Reading" readingValue = .ok readingBytes ∧
      (∀ overflow, RustCode.capacity sel overflow 2 "Reading" readingValue = some 19) ∧
      RustCode.capacity sel .wraps 2 "Reading" readingValue = some 19 ∧
      ∃ w, (RustCode.program sel).encodeInto 2 1 (.record [.bool true]) {} = .ok w ∧
        ∀ overflow, RustCode.encodedLen sel overflow 2 1 (.record [.bool true])
          = some w.data.length := by
  have hmem : ⟨"Reading", .struct 0 false⟩ ∈ readingSchema.messages := List.mem_cons_self
  have htyped := describes_readingDocument.typed
  have hunsaturated : readingSchema.Unsaturated := by
    obtain ⟨rank, hr⟩ := (Compiled.lawful_of_compile compile_readingText).exists_rank
    exact Schema.unsaturated_of_largest hr (Compiled.isLayout_of_compile compile_readingText)
      (by decide)
  refine ⟨compile_readingText, hunsaturated, htyped.holds, fun options => ?_⟩
  obtain ⟨rank, hlawful⟩ := Compiled.lawful_select compile_readingText
    (List.Subset.refl readingSchema.messages) options
  have hrun : (RustCode.program (reading.select readingSchema.messages options)).encode 2 "Reading"
      readingValue = .ok readingBytes := by
    rw [RustCode.encode_eq_write hlawful hmem htyped.holds (Nat.le_refl 2), Value.write,
      htyped.oversize_eq_nil, encode_readingValue]
    rfl
  obtain ⟨_, hsmall, hwraps⟩ := rust_sizes_exact compile_readingText
    (List.Subset.refl readingSchema.messages) options hmem htyped.holds (Nat.le_refl 2) hrun
  obtain ⟨hcapacity, hstructs⟩ := hsmall (by decide)
  exact ⟨hrun, hcapacity, (hwraps hunsaturated).1, hstructs 1 true _ within_readingValue⟩

end WireSchema
