import WireSchema.Proofs.RoundTrip

/-!
# What is wrong with a document

`faults` lists everything that keeps a document from being one of a type, each with its place, in the
order in which the document is walked through: the fields of a struct in their order, the items of an
array by their index. The check fails with the first of them. The conversion goes by the same list,
except that it takes a number no single can hold for an infinity and goes on: it fails with the first
fault that is not of this kind. So the two never disagree about an error, and the conversion can only
get further than the check.
-/

namespace WireSchema

namespace Result

variable {ε α β : Type}

/-- Fails with the first of some errors, if there is one. -/
def firstOf : List ε → Except ε Unit
  | [] => .ok ()
  | e :: _ => .error e

theorem firstOf_eq_ok {errors : List ε} : firstOf errors = .ok () ↔ errors = [] := by
  cases errors with
  | nil => exact ⟨fun _ => rfl, fun _ => rfl⟩
  | cons e rest => simp [firstOf]

theorem firstOf_eq_error {errors : List ε} {e : ε} :
    firstOf errors = .error e ↔ ∃ rest, errors = e :: rest := by
  cases errors with
  | nil => simp [firstOf]
  | cons e' rest =>
    constructor
    · intro h
      injection h with h
      exact ⟨rest, by rw [h]⟩
    · rintro ⟨rest', h⟩
      injection h with h
      rw [h]
      rfl

theorem firstOf_append (first second : List ε) :
    firstOf (first ++ second) = firstOf first >>= fun _ => firstOf second := by
  cases first <;> rfl

/-- Going through a list, the first error is the first of all errors put one behind the other. -/
theorem forM_firstOf (f : α → List ε) (xs : List α) :
    (xs.forM fun x => firstOf (f x)) = firstOf (xs.flatMap f) := by
  induction xs with
  | nil => rfl
  | cons x xs ih =>
    have hstep : (List.forM (x :: xs) fun x => firstOf (f x))
        = firstOf (f x) >>= fun _ => xs.forM fun x => firstOf (f x) := rfl
    rw [hstep, ih, List.flatMap_cons, firstOf_append]

/-- Whether results are kept makes no difference to errors. -/
theorem mapM_unit (f : α → Except ε β) (xs : List α) :
    (xs.mapM f).map (fun _ => ()) = xs.forM fun x => (f x).map fun _ => () := by
  induction xs with
  | nil => rfl
  | cons x xs ih =>
    have hstep : (List.forM (x :: xs) fun x => (f x).map fun _ => ())
        = (f x).map (fun _ => ()) >>= fun _ => xs.forM fun x => (f x).map fun _ => () := rfl
    rw [hstep, ← ih, List.mapM_cons]
    cases f x with
    | error e => rfl
    | ok y => cases xs.mapM f <;> rfl

theorem forM_congr {f g : α → Except ε Unit} {xs : List α} (h : ∀ x ∈ xs, f x = g x) :
    xs.forM f = xs.forM g := by
  induction xs with
  | nil => rfl
  | cons x xs ih =>
    have htail := ih fun y hy => h y (List.mem_cons_of_mem _ hy)
    change (f x >>= fun _ => xs.forM f) = (g x >>= fun _ => xs.forM g)
    rw [h x List.mem_cons_self, htail]

/-- That elements are known to be members makes no difference to a walk. -/
theorem forM_attach_zipIdx (f : α → Nat → Except ε Unit) (xs : List α) :
    (xs.attach.zipIdx.forM fun p => f p.1.1 p.2) = xs.zipIdx.forM fun p => f p.1 p.2 := by
  rw [zipIdx_eq_map_attach xs]
  induction xs.attach.zipIdx with
  | nil => rfl
  | cons p ps ih =>
    change (f p.1.1 p.2 >>= fun _ => ps.forM _) = (f p.1.1 p.2 >>= fun _ => (ps.map _).forM _)
    rw [ih]

end Result

open Result (firstOf)

/-! ## Faults -/

namespace Error

/-- A number no single can hold. -/
def isSingleRange : Error → Bool
  | .data _ (.singleRange _) => true
  | _ => false

/-- The error of a number no single can hold. -/
def IsSingleRange (e : Error) : Prop :=
  ∃ path x, e = .data path (.singleRange x)

theorem isSingleRange_iff {e : Error} : e.isSingleRange = true ↔ e.IsSingleRange := by
  constructor
  · intro h
    unfold isSingleRange at h
    split at h
    · exact ⟨_, _, rfl⟩
    · exact absurd h (by simp)
  · rintro ⟨path, x, rfl⟩
    rfl

/-- The faults that stop a conversion. -/
def lasting (faults : List Error) : List Error :=
  faults.filter (!·.isSingleRange)

theorem lasting_flatMap {α : Type} (f : α → List Error) (xs : List α) :
    lasting (xs.flatMap f) = xs.flatMap fun x => lasting (f x) :=
  List.filter_flatMap

end Error

open Error (lasting)

/-- The fault of a number, for a numeric type. -/
def Number.faults (n : Number) (path : Path) : Numeric → List Error
  | .float64 => []
  | .float32 =>
    if n.toDouble.exceedsSingle then [.data path (.singleRange n.toDouble)] else []
  | k =>
    match n.toInt? with
    | some i => if fitsWidth k.width i then [] else [.data path (.integerRange i k)]
    | none => [.data path (.expected .integer)]

/-- How a number of a numeric type is called. -/
def Numeric.form : Numeric → Form
  | .float32 => .number
  | .float64 => .number
  | _ => .integer

/-- The fault of a value that is there, for a primitive. -/
def Primitive.faults (path : Path) : Primitive → Json → List Error
  | .bool, .bool _ => []
  | .bool, _ => [.data path (.expected .boolean)]
  | .string, .string text =>
    if text.utf8ByteSize ≤ Wire.maxLength then []
    else [.capacity path .string text.utf8ByteSize]
  | .string, _ => [.data path (.expected .string)]
  | .number k, .number n => n.faults path k
  | .number k, _ => [.data path (.expected k.form)]

/-- The faults of a document of a type, in the order of a walk through it. -/
def Schema.faults (s : Schema) (t : Ty) (path : Path) (j : Json) : List Error :=
  match j with
  | .null => if t.optional then [] else [.data path .missing]
  | j =>
    match t with
    | .primitive p _ => p.faults path j
    | .struct id _ =>
      match j with
      | .object members =>
        (s.fieldsOf id).flatMap fun f =>
          have := Json.sizeOf_held_lt f.key members
          s.faults f.ty (.key f.key :: path) (Json.held f.key members)
      | _ => [.data path (.expected .object)]
    | .array e _ =>
      match j with
      | .array items =>
        if items.length ≤ Wire.maxLength then
          items.attach.zipIdx.flatMap fun (⟨item, _⟩, i) => s.faults e (.index i :: path) item
        else [.capacity path .array items.length]
      | _ => [.data path (.expected .array)]
termination_by sizeOf j

/-- The faults of a document as a message. -/
def Schema.faultsOf (s : Schema) (message : String) (j : Json) : List Error :=
  match s.message? message with
  | some m => s.faults m.ty [] j
  | none => [.messageNotFound message]

/-! ## Primitives -/

theorem Number.integer_faults (n : Number) (path : Path) (k : Numeric) :
    (Json.integer k path (.number n)).map (fun _ => ()) = firstOf
      (match n.toInt? with
        | some i => if fitsWidth k.width i then [] else [.data path (.integerRange i k)]
        | none => [.data path (.expected .integer)]) := by
  rw [Json.integer]
  cases n.toInt? with
  | none => rfl
  | some i =>
    dsimp only
    split <;> rfl

namespace Primitive

theorem check_eq_firstOf (p : Primitive) (path : Path) (j : Json) :
    p.check path j = firstOf (p.faults path j) := by
  cases p with
  | bool => cases j <;> rfl
  | string =>
    cases j with
    | string text =>
      unfold check Json.text faults
      dsimp only
      split <;> rfl
    | _ => rfl
  | number k =>
    cases j with
    | number n =>
      cases k with
      | float32 =>
        change (if n.toDouble.exceedsSingle then .error _ else .ok ()) = firstOf (ite _ _ _)
        split <;> rfl
      | float64 => rfl
      | _ => exact n.integer_faults path _
    | _ => cases k <;> rfl

/-- The conversion of a number checks all but the range of a single. -/
theorem valueOf_eq_firstOf (p : Primitive) (path : Path) (j : Json) :
    (p.valueOf path j).map (fun _ => ()) = firstOf (lasting (p.faults path j)) := by
  cases p with
  | bool => cases j <;> rfl
  | string =>
    cases j with
    | string text =>
      unfold valueOf Json.text faults
      dsimp only
      split <;> rfl
    | _ => rfl
  | number k =>
    cases j with
    | number n =>
      -- an integer that does not fit is not a fault of the kind that is passed over
      have hint : ∀ (k : Numeric) (g : Int → Value),
          ((Json.integer k path (.number n)).map g).map (fun _ => ()) = firstOf (lasting
            (match n.toInt? with
              | some i => if fitsWidth k.width i then [] else [.data path (.integerRange i k)]
              | none => [.data path (.expected .integer)])) := by
        intro k g
        rw [Result.map_map, n.integer_faults]
        cases n.toInt? with
        | none => rfl
        | some i =>
          dsimp only
          split <;> rfl
      cases k with
      | float32 =>
        change Except.ok () = firstOf (lasting (ite _ _ _))
        split <;> rfl
      | float64 => rfl
      | _ => exact hint _ _
    | _ => cases k <;> rfl

end Primitive

/-! ## Documents -/

namespace Schema

variable {s : Schema}

theorem faults_null {t : Ty} {path : Path} :
    s.faults t path .null = if t.optional then [] else [.data path .missing] := by
  rw [faults]

theorem faults_primitive {p : Primitive} {o : Bool} {path : Path} {j : Json} (hj : j ≠ .null) :
    s.faults (.primitive p o) path j = p.faults path j := by
  rw [faults]
  exact hj

theorem faults_record {id : Nat} {o : Bool} {path : Path} {members : List (String × Json)} :
    s.faults (.struct id o) path (.object members) = (s.fieldsOf id).flatMap fun f =>
      s.faults f.ty (.key f.key :: path) (Json.held f.key members) := by
  rw [faults]

theorem faults_list {e : Ty} {o : Bool} {path : Path} {items : List Json} :
    s.faults (.array e o) path (.array items) =
      if items.length ≤ Wire.maxLength then
        items.zipIdx.flatMap fun p => s.faults e (.index p.2 :: path) p.1
      else [.capacity path .array items.length] := by
  rw [faults, Result.zipIdx_eq_map_attach items, List.flatMap_map]
  rfl

/-- **The check fails with the first fault.** -/
theorem checkValue_eq_firstOf (s : Schema) (t : Ty) (path : Path) (j : Json) :
    s.checkValue t path j = firstOf (s.faults t path j) := by
  induction j using Json.induction generalizing t path with
  | null =>
    rw [checkValue_null, faults_null]
    split <;> rfl
  | array items ih =>
    cases t with
    | primitive p o =>
      rw [checkValue_primitive (by simp), faults_primitive (by simp), p.check_eq_firstOf]
    | struct id o => rw [checkValue, faults] <;> simp [firstOf]
    | array e o =>
      rw [checkValue, faults_list]
      split
      · have hitem : ∀ p ∈ items.zipIdx, s.checkValue e (.index p.2 :: path) p.1
            = firstOf (s.faults e (.index p.2 :: path) p.1) :=
          fun p hp => ih p.1 (List.fst_mem_of_mem_zipIdx hp) _ _
        rw [← Result.forM_firstOf, ← Result.forM_congr hitem]
        exact Result.forM_attach_zipIdx (fun item i => s.checkValue e (.index i :: path) item) items
      · rfl
  | object members ih =>
    cases t with
    | primitive p o =>
      rw [checkValue_primitive (by simp), faults_primitive (by simp), p.check_eq_firstOf]
    | struct id o =>
      rw [checkValue, faults_record, ← Result.forM_firstOf]
      exact Result.forM_congr fun f _ => ih f.key _ _
    | array e o => rw [checkValue, faults] <;> simp [firstOf]
  | _ =>
    cases t with
    | primitive p o =>
      rw [checkValue_primitive (by simp), faults_primitive (by simp), p.check_eq_firstOf]
    | _ => rw [checkValue, faults] <;> simp [firstOf]

/-- What a document that is there gives stops at the faults of its parts. -/
theorem presentOf_eq_firstOf {t : Ty} {path : Path} {j : Json} (hj : j ≠ .null)
    (hitems : ∀ items, j = .array items → ∀ item ∈ items, ∀ e path,
      (s.valueOf e path item).map (fun _ => ()) = firstOf (lasting (s.faults e path item)))
    (hmembers : ∀ members, j = .object members → ∀ key e path,
      (s.valueOf e path (Json.held key members)).map (fun _ => ())
        = firstOf (lasting (s.faults e path (Json.held key members)))) :
    (s.presentOf path t j).map (fun _ => ()) = firstOf (lasting (s.faults t path j)) := by
  cases t with
  | primitive p o => rw [presentOf, faults_primitive hj, p.valueOf_eq_firstOf]
  | struct id o =>
    cases j with
    | object members =>
      rw [presentOf, Result.map_map, Result.mapM_unit, faults_record, Error.lasting_flatMap,
        ← Result.forM_firstOf]
      exact Result.forM_congr fun f _ => hmembers members rfl _ _ _
    | null => exact absurd rfl hj
    | _ =>
      rw [presentOf, faults] <;> simp [Except.map, lasting, firstOf, Error.isSingleRange]
  | array e o =>
    cases j with
    | array items =>
      rw [presentOf, faults_list]
      split
      · rw [Result.map_map, Result.mapM_unit, Error.lasting_flatMap, ← Result.forM_firstOf]
        exact Result.forM_congr fun p hp =>
          hitems items rfl p.1 (List.fst_mem_of_mem_zipIdx hp) _ _
      · rfl
    | null => exact absurd rfl hj
    | _ =>
      rw [presentOf, faults] <;> simp [Except.map, lasting, firstOf, Error.isSingleRange]

/-- **The conversion fails with the first fault that is not the range of a single.** -/
theorem valueOf_eq_firstOf (s : Schema) (t : Ty) (path : Path) (j : Json) :
    (s.valueOf t path j).map (fun _ => ()) = firstOf (lasting (s.faults t path j)) := by
  induction j using Json.induction generalizing t path with
  | null =>
    rw [valueOf_null, faults_null]
    split <;> rfl
  | array items ih =>
    rw [valueOf_eq (by simp), Result.map_map]
    refine presentOf_eq_firstOf (by simp) (fun _ he item hitem e path => ?_) (by simp)
    injection he with he
    exact ih item (he ▸ hitem) e path
  | object members ih =>
    rw [valueOf_eq (by simp), Result.map_map]
    refine presentOf_eq_firstOf (by simp) (by simp) (fun _ he key e path => ?_)
    injection he with he
    subst he
    exact ih key e path
  | _ =>
    rw [valueOf_eq (by simp), Result.map_map]
    exact presentOf_eq_firstOf (by simp) (by simp) (by simp)

/-! ## Messages -/

theorem checkData_eq_firstOf (s : Schema) (message : String) (j : Json) :
    s.checkData message j = firstOf (s.faultsOf message j) := by
  unfold checkData findMessage faultsOf
  cases s.message? message with
  | none => rfl
  | some m => exact s.checkValue_eq_firstOf m.ty [] j

theorem convert_eq_firstOf (s : Schema) (message : String) (j : Json) :
    (s.convert message j).map (fun _ => ()) = firstOf (lasting (s.faultsOf message j)) := by
  unfold convert findMessage faultsOf
  cases s.message? message with
  | none => rfl
  | some m =>
    rw [← s.valueOf_eq_firstOf m.ty [] j]
    exact Result.map_map _ _ _

theorem convert_ok_iff {message : String} {j : Json} :
    (∃ bytes, s.convert message j = .ok bytes) ↔ lasting (s.faultsOf message j) = [] := by
  have h := s.convert_eq_firstOf message j
  rw [← Result.firstOf_eq_ok, ← h]
  cases s.convert message j with
  | ok bytes => exact ⟨fun _ => rfl, fun _ => ⟨bytes, rfl⟩⟩
  | error e => simp [Except.map]

theorem convert_error_iff {message : String} {j : Json} {e : Error} :
    s.convert message j = .error e ↔ ∃ rest, lasting (s.faultsOf message j) = e :: rest := by
  have h := s.convert_eq_firstOf message j
  rw [← Result.firstOf_eq_error, ← h]
  cases s.convert message j with
  | ok bytes => simp [Except.map]
  | error e' => simp [Except.map]

end Schema

/-- A level that no single can hold. -/
def hugeLevel : Double := .ofNat (10 ^ (39 : Nat))

/-- A document with a level out of range, and a state that does not say if it is ready. -/
def strayDocument : Json :=
  .object [
    ("id", .number (.int 7)),
    ("Level", .number (.float hugeLevel)),
    ("Tags", .array []),
    ("State", .object [])]

theorem faultsOf_strayDocument : readingSchema.faultsOf "Reading" strayDocument =
    [.data [.key "Level"] (.singleRange hugeLevel),
      .data [.key "Ready", .key "State"] .missing] := by
  have hid : readingSchema.faults (.primitive (.number .int32) false) [.key "id"]
      (.number (.int 7)) = [] := by
    rw [Schema.faults_primitive (by simp)]
    decide +kernel
  have hlevel : readingSchema.faults (.primitive (.number .float32) false) [.key "Level"]
      (.number (.float hugeLevel)) = [.data [.key "Level"] (.singleRange hugeLevel)] := by
    rw [Schema.faults_primitive (by simp)]
    decide +kernel
  have htags : readingSchema.faults (.array (.primitive .string true) false) [.key "Tags"]
      (.array []) = [] := by
    rw [Schema.faults_list]
    rfl
  have hstate : readingSchema.faults (.struct 1 true) [.key "State"] (.object [])
      = [.data [.key "Ready", .key "State"] .missing] := by
    rw [Schema.faults_record]
    change readingSchema.faults (.primitive .bool false) [.key "Ready", .key "State"] .null ++ [] = _
    rw [Schema.faults_null]
    rfl
  change readingSchema.faults (.struct 0 false) [] strayDocument = _
  rw [strayDocument, Schema.faults_record]
  change readingSchema.faults _ [.key (Field.key _)] (Json.held (Field.key _) _)
    ++ (readingSchema.faults (.primitive (.number .float32) false) [.key "Level"] (.number _)
    ++ (readingSchema.faults (.array (.primitive .string true) false) [.key "Tags"] (.array [])
    ++ (readingSchema.faults (.struct 1 true) [.key "State"] (.object []) ++ []))) = _
  rw [key_id, hlevel, htags, hstate]
  change readingSchema.faults (.primitive (.number .int32) false) [.key "id"] (.number (.int 7))
    ++ _ = _
  rw [hid]
  rfl

end WireSchema
