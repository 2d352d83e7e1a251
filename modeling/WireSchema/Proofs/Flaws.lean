import WireSchema.Proofs.Faults
import WireSchema.Proofs.NumberValues
import Mathlib.Data.List.Lex

/-!
# The first place where a document does not conform

The check goes through a document once and stops at the first problem. Here it is held against a
description that goes through nothing. `Admits` says which documents a type admits. `HasPlace` says
which places a document has: itself, the fields of its objects, whether their keys are there or not,
and the items of its arrays. A place is found by its *address*, the numbers of the fields and items on
the way down to it, so that addresses in lexicographic order are places in the order of a walk: a
value comes before what is inside it, and what is inside comes by number. `Flawed` says what can be
wrong with a place by itself, with no regard to what is inside.

**The check accepts what the type admits, and otherwise it reports the flaw of the first place that
has one**, with the path to it. A text of a path is its keys joined by points, with indices in
brackets.
-/

namespace WireSchema

/-! ## Texts of paths -/

/-- Texts joined by points. Empty ones in front leave no trace. -/
def joinPoints (segments : List String) : String :=
  ".".intercalate (segments.dropWhile (· = ""))

theorem joinPoints_concat (segments : List String) (last : String) :
    joinPoints (segments ++ [last]) = if joinPoints segments = "" then last
      else joinPoints segments ++ "." ++ last := by
  unfold joinPoints
  rw [List.dropWhile_append]
  cases hrest : segments.dropWhile (· = "") with
  | nil =>
    rw [List.isEmpty_nil, if_pos rfl, String.intercalate_nil, if_pos rfl]
    by_cases hlast : last = ""
    · simp [hlast]
    · simp [hlast]
  | cons first others =>
    have hfirst : first ≠ "" := by
      have := List.head?_dropWhile_not (· = "") segments
      rw [hrest] at this
      simpa using this
    have hsome : ".".intercalate (first :: others) ≠ "" := by
      cases others with
      | nil => rwa [String.intercalate_singleton]
      | cons second others =>
        rw [String.intercalate_cons_cons]
        simp [hfirst]
    rw [List.isEmpty_cons, if_neg (by simp), if_neg hsome,
      String.intercalate_append_of_ne_nil (by simp) (by simp), String.intercalate_singleton]

namespace Path

/-- The keys of a path, the innermost first, each with the indices behind it. -/
def segments : Path → List String
  | [] => []
  | .key name :: path => name :: segments path
  | .index i :: path =>
    match segments path with
    | [] => ["[" ++ toString i ++ "]"]
    | segment :: others => (segment ++ ("[" ++ toString i ++ "]")) :: others

/-- Keys joined by points, and indices in brackets. -/
def joined (path : Path) : String :=
  joinPoints (segments path).reverse

theorem render_eq_joined (path : Path) : path.render = path.joined := by
  unfold joined
  induction path with
  | nil => rfl
  | cons step path ih =>
    have hrender : Path.render (step :: path) = step.appendTo (Path.render path) := rfl
    rw [hrender, ih]
    cases step with
    | key name =>
      rw [segments, List.reverse_cons, joinPoints_concat]
      simp only [PathStep.appendTo, String.isEmpty_iff]
    | index i =>
      rw [PathStep.appendTo, segments]
      cases segments path with
      | nil => simp [joinPoints]
      | cons segment others =>
        dsimp only
        rw [List.reverse_cons, List.reverse_cons, joinPoints_concat, joinPoints_concat]
        split <;> simp only [String.append_assoc]

/-- Where no key is empty, nothing is left out. -/
theorem joined_eq_intercalate {path : Path} (h : "" ∉ path.segments) :
    path.joined = ".".intercalate path.segments.reverse := by
  unfold joined joinPoints
  cases hsegments : path.segments.reverse with
  | nil => rfl
  | cons first others =>
    have hfirst : first ≠ "" := by
      rintro rfl
      exact h (List.mem_reverse.mp (hsegments ▸ List.mem_cons_self))
    rw [List.dropWhile_cons_of_neg (by simpa using hfirst)]

end Path

/-! ## What a type admits -/

/-- The documents of a type. Keys that are no field's do not matter. -/
inductive Schema.Admits (s : Schema) : Ty → Json → Prop where
  | null {t : Ty} : t.optional = true → Admits s t .null
  | bool {o : Bool} (b : Bool) : Admits s (.primitive .bool o) (.bool b)
  | number {o : Bool} {k : Numeric} {n : Number} :
      k.Admits n → Admits s (.primitive (.number k) o) (.number n)
  | text {o : Bool} {text : String} :
      text.utf8ByteSize ≤ 65535 → Admits s (.primitive .string o) (.string text)
  | list {o : Bool} {e : Ty} {items : List Json} :
      items.length ≤ 65535 → (∀ j ∈ items, Admits s e j) → Admits s (.array e o) (.array items)
  | record {o : Bool} {id : Nat} {members : List (String × Json)} :
      (∀ f ∈ s.fieldsOf id, f.ty.optional = false → ∃ j, members.lookup f.key = some j) →
      (∀ f ∈ s.fieldsOf id, ∀ j, members.lookup f.key = some j → Admits s f.ty j) →
      Admits s (.struct id o) (.object members)

namespace Schema

variable {s : Schema}

theorem Admits.optional_of_null {t : Ty} (h : s.Admits t .null) : t.optional = true := by
  generalize hj : Json.null = j at h
  cases h with
  | null ht => exact ht
  | _ => exact absurd hj (by simp)

theorem Conforms.admits {t : Ty} {j : Json} (h : s.Conforms t j) (hv : j.Valid) :
    s.Admits t j := by
  induction h with
  | bool b => exact .bool b
  | @number o k n hn =>
    cases hv with
    | number hv => exact .number ((Number.fits_iff hv k).mp hn)
  | text hlen => exact .text hlen
  | list hmax _ ih =>
    cases hv with
    | array hv => exact .list hmax fun j hj => ih j hj (hv j hj)
  | @record o id members _ ih =>
    cases hv with
    | object hv =>
      refine .record (fun f hf hrequired => ?_) fun f hf j hj => ?_
      · cases hkey : members.lookup f.key with
        | some j => exact ⟨j, rfl⟩
        | none =>
          -- a key that is missing counts as `null`, which only an optional field admits
          have hnull := ih f hf (Json.Valid.held hv f.key)
          rw [Json.held, hkey, Option.getD_none] at hnull
          exact absurd hnull.optional_of_null (by simp [hrequired])
      · have hheld := ih f hf (Json.Valid.held hv f.key)
        rwa [Json.held, hj, Option.getD_some] at hheld
  | null ht => exact .null ht

theorem Admits.conforms {t : Ty} {j : Json} (h : s.Admits t j) (hv : j.Valid) :
    s.Conforms t j := by
  induction h with
  | bool b => exact .bool b
  | @number o k n hn =>
    cases hv with
    | number hv => exact .number ((Number.fits_iff hv k).mpr hn)
  | text hlen => exact .text hlen
  | list hmax _ ih =>
    cases hv with
    | array hv => exact .list hmax fun j hj => ih j hj (hv j hj)
  | @record o id members hpresent _ ih =>
    cases hv with
    | object hv =>
      refine .record fun f hf => ?_
      have hvalid := Json.Valid.held hv f.key
      rw [Json.held] at hvalid ⊢
      cases hkey : members.lookup f.key with
      | some j =>
        rw [hkey] at hvalid
        exact ih f hf j hkey hvalid
      | none =>
        refine .null ?_
        cases hoptional : f.ty.optional with
        | true => rfl
        | false =>
          obtain ⟨j, hj⟩ := hpresent f hf hoptional
          rw [hkey] at hj
          exact absurd hj (by simp)
  | null ht => exact .null ht

/-- **The check accepts what the type admits.** -/
theorem checkValue_eq_ok {t : Ty} {path : Path} {j : Json} (hv : j.Valid) :
    s.checkValue t path j = .ok () ↔ s.Admits t j :=
  ⟨fun h => (conforms_of_checkValue h).admits hv, fun h => (h.conforms hv).checkValue path⟩

end Schema

/-! ## Flaws of a place -/

/-- What is wrong with a place. -/
inductive Flaw where
  | data (problem : DataProblem)
  | capacity (kind : Wire.LengthKind) (length : Nat)

/-- The error that reports a flaw of the place at a path. -/
def Flaw.error (path : Path) : Flaw → Error
  | .data problem => .data path problem
  | .capacity kind length => .capacity path kind length

theorem Flaw.error_injective {path : Path} {flaw flaw' : Flaw}
    (h : flaw.error path = flaw'.error path) : flaw = flaw' := by
  cases flaw <;> cases flaw' <;> simp_all [error]

/-- The form that values of a type have. -/
def Ty.form : Ty → Form
  | .primitive .bool _ => .boolean
  | .primitive (.number k) _ => k.form
  | .primitive .string _ => .string
  | .struct _ _ => .object
  | .array _ _ => .array

/-- A document has a form, whatever is inside it. A number is taken for an integer only below a limit
that is far above the range of every type. -/
def Json.HasForm : Form → Json → Prop
  | .boolean, .bool _ => True
  | .integer, .number n => ∃ i : Int, n.value = i ∧ i.natAbs < integerLimit
  | .number, .number _ => True
  | .string, .string _ => True
  | .object, .object _ => True
  | .array, .array _ => True
  | _, _ => False

/-- What can be wrong with what is at a place, or not there, by itself. -/
inductive Ty.Flawed : Ty → Option Json → Flaw → Prop where
  | missing {t : Ty} : t.optional = false → Flawed t none (.data .missing)
  | null {t : Ty} : t.optional = false → Flawed t (some .null) (.data .missing)
  | form {t : Ty} {j : Json} :
      j ≠ .null → ¬ j.HasForm t.form → Flawed t (some j) (.data (.expected t.form))
  | text {o : Bool} {text : String} : 65535 < text.utf8ByteSize →
      Flawed (.primitive .string o) (some (.string text)) (.capacity .string text.utf8ByteSize)
  | items {e : Ty} {o : Bool} {items : List Json} : 65535 < items.length →
      Flawed (.array e o) (some (.array items)) (.capacity .array items.length)
  | integer {k : Numeric} {o : Bool} {n : Number} {i : Int} :
      k.form = .integer → n.value = i → i.natAbs < integerLimit → ¬ k.InRange i →
      Flawed (.primitive (.number k) o) (some (.number n)) (.data (.integerRange i k))
  | single {o : Bool} {n : Number} : largestSingle < |n.value| →
      Flawed (.primitive (.number .float32) o) (some (.number n)) (.data (.singleRange n.toDouble))

/-! ### The check and the flaws of one place -/

theorem Numeric.form_eq (k : Numeric) : k.form = .integer ∨ k = .float32 ∨ k = .float64 := by
  cases k <;> simp [form]

theorem Primitive.check_integer {k : Numeric} (hk : k.form = .integer) (path : Path) (j : Json) :
    (Primitive.number k).check path j = (j.integer k path).map fun _ => () := by
  cases k with
  | float32 => exact absurd hk (by simp [Numeric.form])
  | float64 => exact absurd hk (by simp [Numeric.form])
  | _ => rfl

theorem fitsWidth_iff {k : Numeric} {i : Int} : fitsWidth k.width i = true ↔ k.InRange i :=
  decide_eq_true_iff

theorem Json.Valid.of_number {n : Number} (h : (Json.number n).Valid) : n.Valid := by
  cases h with
  | number hn => exact hn

theorem Json.hasForm_integer {n : Number} (hn : n.Valid) :
    (Json.number n).HasForm .integer ↔ ∃ i, n.toInt? = some i :=
  exists_congr fun _ => (Number.toInt?_eq_some hn).symm

namespace Schema

variable {s : Schema}

theorem checkValue_of_not_hasForm {t : Ty} {j : Json} (hj : j ≠ .null) (hv : j.Valid)
    (hform : ¬ j.HasForm t.form) (path : Path) :
    s.checkValue t path j = .error (.data path (.expected t.form)) := by
  cases t with
  | primitive p o =>
    rw [checkValue_primitive hj]
    cases p with
    | bool =>
      cases j with
      | bool b => exact absurd trivial hform
      | _ => rfl
    | string =>
      cases j with
      | string text => exact absurd trivial hform
      | _ => rfl
    | number k =>
      cases j with
      | number n =>
        rcases k.form_eq with hk | rfl | rfl
        · rw [Ty.form, hk] at hform ⊢
          have hnone : n.toInt? = none := by
            rwa [Json.hasForm_integer (Json.Valid.of_number hv), ← Option.isSome_iff_exists,
              Option.not_isSome_iff_eq_none] at hform
          rw [Primitive.check_integer hk, Json.integer, hnone]
          rfl
        · exact absurd trivial hform
        · exact absurd trivial hform
      | _ => cases k <;> rfl
  | struct id o =>
    cases j with
    | null => exact absurd rfl hj
    | object members => exact absurd trivial hform
    | _ => simp [checkValue, Ty.form]
  | array e o =>
    cases j with
    | null => exact absurd rfl hj
    | array items => exact absurd trivial hform
    | _ => simp [checkValue, Ty.form]

theorem checkValue_items {e : Ty} {o : Bool} {path : Path} {items : List Json} :
    s.checkValue (.array e o) path (.array items) =
      if items.length ≤ Wire.maxLength then
        items.zipIdx.forM fun p => s.checkValue e (.index p.2 :: path) p.1
      else .error (.capacity path .array items.length) := by
  rw [checkValue, ← Result.forM_attach_zipIdx fun item i => s.checkValue e (.index i :: path) item]

/-- A flaw of a place is an error of the check there. -/
theorem checkValue_of_flawed {t : Ty} {content : Option Json} {flaw : Flaw}
    (h : t.Flawed content flaw) (hv : (content.getD .null).Valid) (path : Path) :
    s.checkValue t path (content.getD .null) = .error (flaw.error path) := by
  cases h with
  | missing ht =>
    rw [Option.getD_none, checkValue_null, if_neg (by simp [ht])]
    rfl
  | null ht =>
    rw [Option.getD_some, checkValue_null, if_neg (by simp [ht])]
    rfl
  | form hj hform => exact checkValue_of_not_hasForm hj hv hform path
  | text hlen =>
    have hmax : ¬ _ ≤ Wire.maxLength := Nat.not_le.mpr hlen
    rw [Option.getD_some, checkValue_primitive (by simp), Primitive.check, Json.text, if_neg hmax]
    rfl
  | items hlen =>
    have hmax : ¬ _ ≤ Wire.maxLength := Nat.not_le.mpr hlen
    rw [Option.getD_some, checkValue_items, if_neg hmax]
    rfl
  | @integer k o n i hk hvalue hlimit hrange =>
    have hn := Json.Valid.of_number hv
    rw [Option.getD_some, checkValue_primitive (by simp), Primitive.check_integer hk, Json.integer,
      (Number.toInt?_eq_some hn).mpr ⟨hvalue, hlimit⟩]
    dsimp only
    rw [if_neg (mt fitsWidth_iff.mp hrange)]
    rfl
  | @single o n hlarge =>
    have hn := Json.Valid.of_number hv
    rw [Option.getD_some, checkValue_primitive (by simp), Primitive.check, Json.double, Except.bind,
      if_pos ((Number.exceedsSingle_iff hn).mpr hlarge)]
    rfl

/-- A primitive of the right form fails for its length or its range. -/
theorem flawed_of_check {p : Primitive} {o : Bool} {path : Path} {j : Json} {e : Error}
    (hv : j.Valid) (hform : j.HasForm (Ty.primitive p o).form) (h : p.check path j = .error e) :
    ∃ flaw, (Ty.primitive p o).Flawed (some j) flaw ∧ e = flaw.error path := by
  cases p with
  | bool =>
    cases j with
    | bool b => exact absurd h (by simp [Primitive.check, Json.boolean, Except.map])
    | _ => exact hform.elim
  | string =>
    cases j with
    | string text =>
      rw [Primitive.check, Json.text] at h
      split at h
      · exact absurd h (by simp [Except.map])
      · rename_i hlen
        injection h with h
        exact ⟨_, .text (Nat.not_le.mp hlen), h.symm⟩
    | _ => exact hform.elim
  | number k =>
    rcases k.form_eq with hk | rfl | rfl
    · rw [Ty.form, hk] at hform
      cases j with
      | number n =>
        have hn := Json.Valid.of_number hv
        obtain ⟨i, hvalue, hlimit⟩ := hform
        rw [Primitive.check_integer hk, Json.integer,
          (Number.toInt?_eq_some hn).mpr ⟨hvalue, hlimit⟩] at h
        dsimp only at h
        split at h
        · exact absurd h (by simp [Except.map])
        · rename_i hrange
          injection h with h
          exact ⟨_, .integer hk hvalue hlimit (mt fitsWidth_iff.mpr hrange), h.symm⟩
      | _ => exact hform.elim
    · cases j with
      | number n =>
        have hn := Json.Valid.of_number hv
        rw [Primitive.check, Json.double, Except.bind] at h
        split at h
        · rename_i hlarge
          injection h with h
          exact ⟨_, .single ((Number.exceedsSingle_iff hn).mp hlarge), h.symm⟩
        · exact absurd h (by simp)
      | _ => exact hform.elim
    · cases j with
      | number n => exact absurd h (by simp [Primitive.check, Json.double, Except.map])
      | _ => exact hform.elim

/-- **Where an error comes from**: the place itself, a field of its object or an item of its array. -/
theorem checkValue_error_cases {t : Ty} {path : Path} {j : Json} {e : Error} (hv : j.Valid)
    (hj : j ≠ .null) (h : s.checkValue t path j = .error e) :
    (∃ flaw, t.Flawed (some j) flaw ∧ e = flaw.error path)
      ∨ (∃ id o members, t = .struct id o ∧ j = .object members
          ∧ ((s.fieldsOf id).forM fun f =>
              s.checkValue f.ty (.key f.key :: path) (Json.held f.key members)) = .error e)
      ∨ ∃ elem o items, t = .array elem o ∧ j = .array items ∧ items.length ≤ Wire.maxLength
          ∧ (items.zipIdx.forM fun p => s.checkValue elem (.index p.2 :: path) p.1) = .error e := by
  by_cases hform : j.HasForm t.form
  · cases t with
    | primitive p o =>
      rw [checkValue_primitive hj] at h
      exact .inl (flawed_of_check hv hform h)
    | struct id o =>
      cases j with
      | object members =>
        rw [checkValue] at h
        exact .inr (.inl ⟨id, o, members, rfl, rfl, h⟩)
      | _ => exact hform.elim
    | array elem o =>
      cases j with
      | array items =>
        rw [checkValue_items] at h
        split at h
        · exact .inr (.inr ⟨elem, o, items, rfl, rfl, ‹_›, h⟩)
        · rename_i hmax
          injection h with h
          exact .inl ⟨_, .items (Nat.not_le.mp hmax), h.symm⟩
      | _ => exact hform.elim
  · rw [checkValue_of_not_hasForm hj hv hform] at h
    injection h with h
    exact .inl ⟨_, .form hj hform, h.symm⟩

end Schema

/-! ## Places -/

/-- A place in a document of some type. -/
structure Place where
  /-- The numbers of the fields and items on the way down to it. -/
  address : List Nat
  /-- Their keys and indices, the innermost first. -/
  path : Path
  ty : Ty
  /-- What is there; nothing, if a key is missing. -/
  content : Option Json

namespace Place

/-- The same place, seen from one step further out. -/
def under (n : Nat) (step : PathStep) (p : Place) : Place :=
  { p with address := n :: p.address, path := p.path ++ [step] }

/-- A place comes before another in a walk: a value before what is inside it, fields and items in their
order. -/
def Precedes (p q : Place) : Prop :=
  List.Lex (· < ·) p.address q.address

end Place

theorem Json.Valid.lookup {members : List (String × Json)} (h : (Json.object members).Valid)
    (key : String) : ((members.lookup key).getD .null).Valid := by
  cases h with
  | object hall => exact Json.Valid.held hall key

theorem Json.Valid.item {items : List Json} (h : (Json.array items).Valid) {n : Nat} {j : Json}
    (hj : items[n]? = some j) : j.Valid := by
  cases h with
  | array hall => exact hall j (List.mem_of_getElem? hj)

namespace Result

variable {ε α : Type}

/-- A walk fails at the first element that does. -/
theorem exists_of_forM_eq_error {f : α → Except ε Unit} {xs : List α} {e : ε}
    (h : xs.forM f = .error e) : ∃ (n : Nat) (x : α), xs[n]? = some x ∧ f x = .error e
      ∧ ∀ m < n, ∀ y, xs[m]? = some y → f y = .ok () := by
  induction xs with
  | nil => exact absurd h (by simp [pure, Except.pure])
  | cons x xs ih =>
    have hstep : (x :: xs).forM f = f x >>= fun _ => xs.forM f := rfl
    rw [hstep] at h
    cases hx : f x with
    | error e' =>
      rw [hx] at h
      exact ⟨0, x, rfl, hx.trans h, fun m hm => absurd hm (Nat.not_lt_zero m)⟩
    | ok u =>
      rw [hx] at h
      obtain ⟨n, y, hy, hfail, hbefore⟩ := ih h
      refine ⟨n + 1, y, hy, hfail, fun m hm z hz => ?_⟩
      cases m with
      | zero =>
        obtain rfl := Option.some.inj hz
        exact hx
      | succ m => exact hbefore m (by omega) z hz

end Result

namespace Schema

variable {s : Schema}

/-- The places in a document of a type. -/
inductive HasPlace (s : Schema) : Ty → Option Json → Place → Prop where
  | here (t : Ty) (content : Option Json) : HasPlace s t content ⟨[], [], t, content⟩
  | field {id n : Nat} {o : Bool} {members : List (String × Json)} {f : Field} {p : Place} :
      (s.fieldsOf id)[n]? = some f → HasPlace s f.ty (members.lookup f.key) p →
      HasPlace s (.struct id o) (some (.object members)) (p.under n (.key f.key))
  | item {n : Nat} {e : Ty} {o : Bool} {items : List Json} {j : Json} {p : Place} :
      items[n]? = some j → HasPlace s e (some j) p →
      HasPlace s (.array e o) (some (.array items)) (p.under n (.index n))

/-- An address leads to one place only. -/
theorem HasPlace.unique {t : Ty} {content : Option Json} {p q : Place} (hp : s.HasPlace t content p)
    (hq : s.HasPlace t content q) (h : p.address = q.address) : p = q := by
  induction hp generalizing q with
  | here t content =>
    cases hq with
    | here => rfl
    | field => exact absurd h (by simp [Place.under])
    | item => exact absurd h (by simp [Place.under])
  | field hf _ ih =>
    cases hq with
    | here => exact absurd h (by simp [Place.under])
    | field hf' hq =>
      obtain ⟨rfl, haddress⟩ := List.cons.inj h
      obtain rfl := Option.some.inj (hf.symm.trans hf')
      rw [ih hq haddress]
  | item hj _ ih =>
    cases hq with
    | here => exact absurd h (by simp [Place.under])
    | item hj' hq =>
      obtain ⟨rfl, haddress⟩ := List.cons.inj h
      obtain rfl := Option.some.inj (hj.symm.trans hj')
      rw [ih hq haddress]

/-- The flaw of a place, if no place before it has one. -/
structure FirstFlaw (s : Schema) (t : Ty) (content : Option Json) (p : Place) (flaw : Flaw) :
    Prop where
  hasPlace : s.HasPlace t content p
  flawed : p.ty.Flawed p.content flaw
  first : ∀ q, s.HasPlace t content q → q.Precedes p → ∀ flaw', ¬ q.ty.Flawed q.content flaw'

theorem firstFlaw_here {t : Ty} {content : Option Json} {flaw : Flaw} (h : t.Flawed content flaw) :
    s.FirstFlaw t content ⟨[], [], t, content⟩ flaw :=
  ⟨.here t content, h, fun _ _ hbefore => absurd hbefore List.not_lex_nil⟩

/-- What passes the check has no flaw at any place. -/
theorem HasPlace.not_flawed {t : Ty} {content : Option Json} {p : Place}
    (hp : s.HasPlace t content p) {path : Path} (hv : (content.getD .null).Valid)
    (h : s.checkValue t path (content.getD .null) = .ok ()) (flaw : Flaw) :
    ¬ p.ty.Flawed p.content flaw := by
  induction hp generalizing path with
  | here t content =>
    intro hflawed
    rw [checkValue_of_flawed hflawed hv] at h
    exact absurd h (by simp)
  | @field id n o members f p hf _ ih =>
    exact ih (Json.Valid.lookup hv f.key) (checkValue_record.mp h f (List.mem_of_getElem? hf))
  | @item n e o items j p hj _ ih =>
    have hmem : (j, n) ∈ items.zipIdx := by simpa [List.mem_zipIdx_iff_getElem?] using hj
    exact ih (Json.Valid.item hv hj) ((checkValue_list.mp h).2 (j, n) hmem)

theorem FirstFlaw.under_field {id n : Nat} {o : Bool} {members : List (String × Json)} {f : Field}
    {p : Place} {flaw : Flaw} {path : Path} (hv : (Json.object members).Valid)
    (hf : (s.fieldsOf id)[n]? = some f)
    (hbefore : ∀ m < n, ∀ g, (s.fieldsOf id)[m]? = some g →
      s.checkValue g.ty (.key g.key :: path) (Json.held g.key members) = .ok ())
    (h : s.FirstFlaw f.ty (members.lookup f.key) p flaw) :
    s.FirstFlaw (.struct id o) (some (.object members)) (p.under n (.key f.key)) flaw := by
  refine ⟨.field hf h.hasPlace, h.flawed, fun q hq hprecedes flaw' => ?_⟩
  cases hq with
  | here =>
    -- an object is no flaw of a struct
    intro hflawed
    cases hflawed with
    | form _ hform => exact hform trivial
  | field hg hq =>
    rcases List.cons_lex_cons_iff.mp hprecedes with hlt | ⟨rfl, hlt⟩
    · exact hq.not_flawed (Json.Valid.lookup hv _) (hbefore _ hlt _ hg) flaw'
    · obtain rfl := Option.some.inj (hf.symm.trans hg)
      exact h.first _ hq hlt flaw'

theorem FirstFlaw.under_item {n : Nat} {elem : Ty} {o : Bool} {items : List Json} {j : Json}
    {p : Place} {flaw : Flaw} {path : Path} (hv : (Json.array items).Valid)
    (hmax : items.length ≤ Wire.maxLength) (hj : items[n]? = some j)
    (hbefore : ∀ m < n, ∀ k, items[m]? = some k →
      s.checkValue elem (.index m :: path) k = .ok ())
    (h : s.FirstFlaw elem (some j) p flaw) :
    s.FirstFlaw (.array elem o) (some (.array items)) (p.under n (.index n)) flaw := by
  refine ⟨.item hj h.hasPlace, h.flawed, fun q hq hprecedes flaw' => ?_⟩
  cases hq with
  | here =>
    intro hflawed
    cases hflawed with
    | form _ hform => exact hform trivial
    | items hlong => exact absurd hmax (Nat.not_le.mpr hlong)
  | item hk hq =>
    rcases List.cons_lex_cons_iff.mp hprecedes with hlt | ⟨rfl, hlt⟩
    · exact hq.not_flawed (Json.Valid.item hv hk) (hbefore _ hlt _ hk) flaw'
    · obtain rfl := Option.some.inj (hj.symm.trans hk)
      exact h.first _ hq hlt flaw'

theorem HasPlace.valid {t : Ty} {content : Option Json} {p : Place} (hp : s.HasPlace t content p)
    (hv : (content.getD .null).Valid) : (p.content.getD .null).Valid := by
  induction hp with
  | here => exact hv
  | field _ _ ih => exact ih (Json.Valid.lookup hv _)
  | item hj _ ih => exact ih (Json.Valid.item hv hj)

/-- **There is one first flaw.** Of two places, the one before the other would have no flaw. -/
theorem FirstFlaw.unique {t : Ty} {content : Option Json} {p q : Place} {flaw flaw' : Flaw}
    (hp : s.FirstFlaw t content p flaw) (hq : s.FirstFlaw t content q flaw')
    (hv : (content.getD .null).Valid) : p = q ∧ flaw = flaw' := by
  have haddress : p.address = q.address :=
    Std.Trichotomous.trichotomous (r := List.Lex (· < ·)) _ _
      (fun hbefore => hq.first p hp.hasPlace hbefore flaw hp.flawed)
      (fun hbefore => hp.first q hq.hasPlace hbefore flaw' hq.flawed)
  obtain rfl := hp.hasPlace.unique hq.hasPlace haddress
  have hvalid := hp.hasPlace.valid hv
  have hfails := checkValue_of_flawed (s := s) hp.flawed hvalid []
  rw [checkValue_of_flawed hq.flawed hvalid] at hfails
  injection hfails with hsame
  exact ⟨rfl, (Flaw.error_injective hsame).symm⟩

/-- An error reports the first flaw of a document that lies at `path` in a larger one. -/
def Reports (s : Schema) (t : Ty) (content : Option Json) (path : Path) (e : Error) : Prop :=
  ∃ p flaw, s.FirstFlaw t content p flaw ∧ e = flaw.error (p.path ++ path)

theorem reports_here {t : Ty} {content : Option Json} {path : Path} {flaw : Flaw}
    (h : t.Flawed content flaw) : s.Reports t content path (flaw.error path) :=
  ⟨_, flaw, firstFlaw_here h, rfl⟩

/-- **The step.** The check of a document that is there stops at its first flaw, if the checks of what
is inside it do. -/
theorem reports_of_checkValue_step {t : Ty} {path : Path} {j : Json} {e : Error} (hv : j.Valid)
    (hj : j ≠ .null)
    (hfields : ∀ members, j = .object members → ∀ key t path,
      s.checkValue t path (Json.held key members) = .error e →
      s.Reports t (members.lookup key) path e)
    (hitems : ∀ items, j = .array items → ∀ item ∈ items, ∀ t path,
      s.checkValue t path item = .error e → s.Reports t (some item) path e)
    (h : s.checkValue t path j = .error e) : s.Reports t (some j) path e := by
  rcases checkValue_error_cases hv hj h with
    ⟨flaw, hflawed, rfl⟩ | ⟨id, o, members, rfl, rfl, hwalk⟩ | ⟨elem, o, items, rfl, rfl, hmax, hwalk⟩
  · exact reports_here hflawed
  · obtain ⟨n, f, hf, hfail, hbefore⟩ := Result.exists_of_forM_eq_error hwalk
    obtain ⟨p, flaw, hfirst, rfl⟩ := hfields members rfl f.key _ _ hfail
    refine ⟨_, flaw, hfirst.under_field hv hf hbefore, ?_⟩
    rw [Place.under, List.append_assoc]
    rfl
  · obtain ⟨n, ⟨item, m⟩, hitem, hfail, hbefore⟩ := Result.exists_of_forM_eq_error hwalk
    obtain ⟨rfl, hitem⟩ : m = n ∧ items[n]? = some item := by
      rw [List.getElem?_zipIdx, Option.map_eq_some_iff] at hitem
      obtain ⟨_, hitem, hpair⟩ := hitem
      simp only [Prod.mk.injEq, Nat.zero_add] at hpair
      exact ⟨hpair.2.symm, hpair.1 ▸ hitem⟩
    obtain ⟨p, flaw, hfirst, rfl⟩ := hitems items rfl item (List.mem_of_getElem? hitem) _ _ hfail
    have hbefore : ∀ k < m, ∀ other, items[k]? = some other →
        s.checkValue elem (.index k :: path) other = .ok () :=
      fun k hk other hother => hbefore k hk (other, k) (by simp [List.getElem?_zipIdx, hother])
    refine ⟨_, flaw, hfirst.under_item hv hmax hitem hbefore, ?_⟩
    rw [Place.under, List.append_assoc]
    rfl

/-- **The check stops at the first flaw.** -/
theorem reports_of_checkValue {t : Ty} {path : Path} {j : Json} {content : Option Json} {e : Error}
    (hv : j.Valid) (hcontent : content.getD .null = j) (h : s.checkValue t path j = .error e) :
    s.Reports t content path e := by
  -- only a document that says `null` may also not be there at all
  have hthere : j ≠ .null → content = some j := by
    intro hj
    cases content with
    | none => exact absurd hcontent.symm hj
    | some k => exact congrArg some hcontent
  induction j using Json.induction generalizing t path content with
  | null =>
    rw [checkValue_null] at h
    split at h
    · exact absurd h (by simp)
    · rename_i hrequired
      rw [Bool.not_eq_true] at hrequired
      injection h with h
      subst h
      cases content with
      | none => exact reports_here (.missing hrequired)
      | some k =>
        obtain rfl : k = .null := hcontent
        exact reports_here (.null hrequired)
  | array items ih =>
    rw [hthere (by simp)]
    refine reports_of_checkValue_step hv (by simp) (by simp) (fun _ he item hitem t path hfail => ?_) h
    injection he with he
    subst he
    cases hv with
    | array hall => exact ih item hitem (hall item hitem) rfl hfail fun _ => rfl
  | object members ih =>
    rw [hthere (by simp)]
    refine reports_of_checkValue_step hv (by simp) (fun _ he key t path hfail => ?_) (by simp) h
    injection he with he
    subst he
    refine ih key (Json.Valid.lookup hv key) rfl hfail fun hne => ?_
    cases hkey : members.lookup key with
    | none => rw [Json.held, hkey] at hne; exact absurd rfl hne
    | some j => rw [Json.held, hkey]; rfl
  | _ =>
    rw [hthere (by simp)]
    exact reports_of_checkValue_step hv (by simp) (by simp) (by simp) h

/-- **The check reports the first flaw**, and fails wherever there is one. -/
theorem checkValue_eq_error {t : Ty} {path : Path} {j : Json} {e : Error} (hv : j.Valid) :
    s.checkValue t path j = .error e ↔ s.Reports t (some j) path e := by
  refine ⟨reports_of_checkValue hv rfl, ?_⟩
  rintro ⟨p, flaw, hfirst, rfl⟩
  cases hcheck : s.checkValue t path j with
  | ok u => exact absurd hfirst.flawed (hfirst.hasPlace.not_flawed hv hcheck flaw)
  | error e =>
    obtain ⟨q, flaw', hfirst', rfl⟩ : s.Reports t (some j) path e :=
      reports_of_checkValue hv rfl hcheck
    obtain ⟨rfl, rfl⟩ := hfirst.unique hfirst' hv
    rfl

theorem checkData_of_message {message : String} {m : Message} (hm : s.message? message = some m)
    (j : Json) : s.checkData message j = s.checkValue m.ty [] j := by
  rw [checkData, findMessage_eq_ok.mpr hm]
  rfl

end Schema

/--
**The check of a document accepts what the type of the message admits. Otherwise it reports the first
place that has a flaw, with that flaw.** The text of its path is made of the keys on the way, joined by
points, and of the indices in brackets; it leaves out no key, unless keys are empty.
-/
theorem checkData_reports_first_flaw (s : Schema) {message : String} {m : Message}
    (hm : s.message? message = some m) {j : Json} (hj : j.Valid) :
    (s.checkData message j = .ok () ↔ s.Admits m.ty j)
      ∧ ∀ e, s.checkData message j = .error e ↔
          ∃ p flaw, s.FirstFlaw m.ty (some j) p flaw ∧ e = flaw.error p.path
            ∧ p.path.render = p.path.joined
            ∧ ("" ∉ p.path.segments → p.path.render = ".".intercalate p.path.segments.reverse) := by
  have htext : ∀ path : Path, path.render = path.joined
      ∧ ("" ∉ path.segments → path.render = ".".intercalate path.segments.reverse) := fun path =>
    ⟨path.render_eq_joined, fun h => path.render_eq_joined.trans (Path.joined_eq_intercalate h)⟩
  rw [s.checkData_of_message hm]
  refine ⟨Schema.checkValue_eq_ok hj, fun e => (Schema.checkValue_eq_error hj).trans ?_⟩
  constructor
  · rintro ⟨p, flaw, hfirst, rfl⟩
    exact ⟨p, flaw, hfirst, by rw [List.append_nil], htext p.path⟩
  · rintro ⟨p, flaw, hfirst, rfl, _⟩
    exact ⟨p, flaw, hfirst, by rw [List.append_nil]⟩

theorem valid_strayDocument : strayDocument.Valid := by
  have hlevel : hugeLevel.isFinite = true := by decide +kernel
  refine .object fun m hm => ?_
  simp only [List.mem_cons, List.not_mem_nil, or_false] at hm
  rcases hm with rfl | rfl | rfl | rfl
  · exact .number (by decide)
  · exact .number hlevel
  · exact .array (by simp)
  · exact .object (by simp)

theorem checkData_strayDocument : readingSchema.checkData "Reading" strayDocument
    = .error (.data [.key "Level"] (.singleRange hugeLevel)) := by
  rw [Schema.checkData_eq_firstOf, faultsOf_strayDocument]
  rfl

/-- That the state is not ready comes later. -/
theorem checkData_reports_first_flaw_reading :
    readingSchema.message? "Reading" = some ⟨"Reading", .struct 0 false⟩ ∧ strayDocument.Valid
      ∧ ¬ readingSchema.Admits (.struct 0 false) strayDocument
      ∧ ∃ p flaw, readingSchema.FirstFlaw (.struct 0 false) (some strayDocument) p flaw
        ∧ .data [.key "Level"] (.singleRange hugeLevel) = flaw.error p.path
        ∧ p.path.render = p.path.joined
        ∧ ("" ∉ p.path.segments → p.path.render = ".".intercalate p.path.segments.reverse) := by
  have hm : readingSchema.message? "Reading" = some ⟨"Reading", .struct 0 false⟩ := by decide
  obtain ⟨hadmits, hreports⟩ := checkData_reports_first_flaw readingSchema hm valid_strayDocument
  refine ⟨hm, valid_strayDocument, fun h => ?_, (hreports _).mp checkData_strayDocument⟩
  exact absurd (checkData_strayDocument.symm.trans (hadmits.mpr h)) (by simp)

end WireSchema
