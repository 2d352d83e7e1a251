import WireSchema.Proofs.Reachable
import WireSchema.Proofs.RoundTrip
import WireSchema.Proofs.Runs
import WireSchema.Proofs.WireOperations

/-!
# One wire program for both languages

A statement that is generated for a type comes to the operation on the type, by induction on the
type and whatever the place: in Rust a value inside is a variable of its own, in C++ it is a place
made from the place around it, and both are the same part of the value. A block of fields comes to
the reads of the fields. So **both languages are translated to the same program**: structs in the same
order, and for each the same operations in the same order on the same fields.
-/

namespace WireSchema

open Naming (rustField cppField)

/-! ## Lists of statements -/

section Lists

variable {α β γ : Type}

theorem mapM_eq_some_map {f : α → Option β} {g : α → β} {xs : List α}
    (h : ∀ x ∈ xs, f x = some (g x)) : xs.mapM f = some (xs.map g) := by
  induction xs with
  | nil => rfl
  | cons x xs ih =>
    rw [List.mapM_cons, h x List.mem_cons_self, ih fun x' hx' => h x' (List.mem_cons_of_mem _ hx')]
    rfl

/-- Statements that are made one after the other are translated one after the other. -/
theorem mapM_run {g : α → Fresh β} {f : β → Option γ} {h : α → γ} {xs : List α}
    (hall : ∀ x ∈ xs, ∀ n, f ((g x).run n).1 = some (h x)) (n : Nat) :
    ((xs.mapM g).run n).1.mapM f = some (xs.map h) := by
  induction xs generalizing n with
  | nil => rfl
  | cons x xs ih =>
    rw [Fresh.run_mapM_cons, List.mapM_cons, hall x List.mem_cons_self,
      ih fun x' hx' => hall x' (List.mem_cons_of_mem _ hx')]
    rfl

end Lists

theorem fieldSpot?_of_mem {identifier : String → String} {fields : List Field}
    (hn : (fields.map fun f => identifier f.name).Nodup) {f : Field} (hf : f ∈ fields) :
    fieldSpot? identifier fields (identifier f.name) = some (.field f.name) := by
  unfold fieldSpot?
  cases hfound : fields.find? fun f' => identifier f'.name == identifier f.name with
  | none => exact absurd (List.find?_eq_none.mp hfound f hf) (by simp)
  | some f' =>
    have hsame : identifier f'.name = identifier f.name := by
      simpa using List.find?_some hfound
    rw [List.inj_on_of_nodup_map hn (List.mem_of_find?_eq_some hfound) hf hsame]
    rfl

theorem Names.spot?_cons_self (names : Names) (name : String) (spot : Spot) :
    Names.spot? ((name, some spot) :: names) name = some spot := by
  rw [Names.spot?, List.lookup_cons_self]
  rfl

theorem Names.spot?_cons_of_ne {names : Names} {name name' : String} (h : name ≠ name')
    (spot : Option Spot) : Names.spot? ((name', spot) :: names) name = names.spot? name := by
  rw [Names.spot?, List.lookup_cons_of_ne h, Names.spot?]

/-! ## Rust routines -/

namespace RustCode

variable {fields : List Field}

/-- Statements that come to an operation, whatever place they are about. -/
def EncodesAs (fields : List Field) (statement : Place → Fresh Encode) (op : Spot → Operation) :
    Prop :=
  ∀ p names spot n, p.spot? fields names = some spot →
    ((statement p).run n).1.operation? fields names = some (op spot)

theorem encodesAs_optional {body : Place → Fresh Encode} {op : Spot → Operation}
    (h : EncodesAs fields body op) (o : Bool) :
    EncodesAs fields (fun p => encodeOptional o p body) fun spot => .optionally o spot op := by
  intro p names spot n hp
  cases o with
  | false => exact h p names spot n hp
  | true =>
    have hrun : ((encodeOptional true p body).run n).1
        = .optional p (temporary "v" n) ((body (.ref (temporary "v" n))).run (n + 1)).1 := rfl
    have hbody := h (.ref (temporary "v" n)) ((temporary "v" n, some (.inside spot)) :: names)
      (.inside spot) (n + 1) (Names.spot?_cons_self _ _ _)
    rw [hrun, Encode.operation?, hp, Option.bind_eq_bind, Option.bind_some, hbody]
    rfl

/-- A statement that is about its place and nothing else. -/
theorem encodesAs_direct {statement : Place → Encode} {op : Spot → Operation}
    (h : ∀ p names, (statement p).operation? fields names
      = do return op (← p.spot? fields names)) :
    EncodesAs fields (fun p => return statement p) op := by
  intro p names spot n hp
  change (statement p).operation? fields names = _
  rw [h, hp]
  rfl

theorem encodesAs_primitive (prim : Primitive) :
    EncodesAs fields (fun p => return encodePrimitive prim p) prim.operation := by
  refine encodesAs_direct fun p names => ?_
  cases prim <;> rfl

theorem encodesAs_each {item : Place → Fresh Encode} {op : Spot → Operation}
    (h : EncodesAs fields item op) :
    EncodesAs fields
      (fun p => do
        let name ← fresh "item"
        return .each p name (← item (.ref name)))
      fun spot => .each spot (op (.item spot)) := by
  intro p names spot n hp
  have hitem := h (.ref (temporary "item" n)) ((temporary "item" n, some (.item spot)) :: names)
    (.item spot) (n + 1) (Names.spot?_cons_self _ _ _)
  change Encode.operation? fields names
    (.each p (temporary "item" n) ((item (.ref (temporary "item" n))).run (n + 1)).1) = _
  rw [Encode.operation?, hp, Option.bind_eq_bind, Option.bind_some, hitem]
  rfl

/-- **The statement that writes a value comes to the operation on its type.** -/
theorem encodesAs_encode (bulkArrays : Bool) (t : Ty) :
    EncodesAs fields (encode bulkArrays t) (t.operation bulkArrays) := by
  induction t with
  | primitive p o => exact encodesAs_optional (encodesAs_primitive p) o
  | struct id o => exact encodesAs_optional (encodesAs_direct fun _ _ => rfl) o
  | array e o ih =>
    refine encodesAs_optional ?_ o
    cases arrayStrategy bulkArrays e with
    | bulk kind => exact encodesAs_direct fun _ _ => rfl
    | elementWise => exact encodesAs_each ih

/-- Statements that obtain a value by an operation, whatever name they are given. -/
def DecodesAs (statement : Option String → Fresh Decode) (op : Spot → Operation) : Prop :=
  ∀ given spot n, ((statement given).run n).1.operation? given spot = some (op spot)

theorem all_nameOr (stem : String) (given : Option String) (n : Nat) :
    given.all (· == ((nameOr stem given).run n).1) = true := by
  cases given with
  | none => rfl
  | some name => exact beq_self_eq_true name

theorem decodesAs_optional {body : Option String → Fresh Decode} {op : Spot → Operation}
    (h : DecodesAs body op) (o : Bool) :
    DecodesAs (fun given => decodeOptional o given body) fun spot => .optionally o spot op := by
  intro given spot n
  cases o with
  | false => exact h given spot n
  | true =>
    change Decode.operation? given spot (.optional ((nameOr "v" given).run n).1
      ((body none).run ((nameOr "v" given).run n).2).1) = _
    rw [Decode.operation?, if_pos (all_nameOr _ _ _), h none (.inside spot)]
    rfl

theorem decodesAs_collect {item : Option String → Fresh Decode} {op : Spot → Operation}
    (h : DecodesAs item op) :
    DecodesAs
      (fun given => do
        let items ← nameOr "items" given
        let len ← fresh "len"
        return .collect items len (← item none))
      fun spot => .each spot (op (.item spot)) := by
  intro given spot n
  change Decode.operation? given spot (.collect ((nameOr "items" given).run n).1 _
    ((item none).run _).1) = _
  rw [Decode.operation?, if_pos (all_nameOr _ _ _), h none (.item spot)]
  rfl

/-- **A value is obtained by the operation on its type.** -/
theorem decodesAs_decode (bulkArrays : Bool) (t : Ty) :
    DecodesAs (decode bulkArrays t) (t.operation bulkArrays) := by
  induction t with
  | primitive p o =>
    refine decodesAs_optional (fun given spot n => ?_) o
    cases p <;> rfl
  | struct id o => exact decodesAs_optional (fun given spot n => rfl) o
  | array e o ih =>
    refine decodesAs_optional ?_ o
    cases arrayStrategy bulkArrays e with
    | bulk kind => exact fun given spot n => rfl
    | elementWise => exact decodesAs_collect ih

/-- **A block stands for the reads of its fields.** -/
theorem runOperations?_runFields (bulkArrays : Bool)
    (hn : (fields.map fun f => rustField f.name).Nodup) {run : List Field}
    (hsub : ∀ f ∈ run, f ∈ fields) (hfixed : ∀ f ∈ run, f.IsFixed) (offset : Nat) {size : Nat}
    (hsize : size = offset + (run.map Field.width).sum) :
    runOperations? fields size offset (runFields offset run)
      = some (run.map (Field.operation bulkArrays)) := by
  induction run generalizing offset with
  | nil => exact if_pos hsize.symm
  | cons f rest ih =>
    obtain ⟨p, hty, hwidth⟩ := (hfixed f List.mem_cons_self).exists_primitive
    rw [List.map_cons, List.sum_cons] at hsize
    have hrest := ih (fun f' hf' => hsub f' (List.mem_cons_of_mem _ hf'))
      (fun f' hf' => hfixed f' (List.mem_cons_of_mem _ hf')) (offset + f.width) (by omega)
    have hfirst : RunField.operation? fields ⟨rustField f.name, p.numeric?, offset, f.width⟩
        = some (f.operation bulkArrays) := by
      rw [RunField.operation?, fieldSpot?_of_mem hn (hsub f List.mem_cons_self), Field.operation,
        hty]
      cases p with
      | bool => exact if_pos (Option.some.inj hwidth).symm
      | number kind => exact if_pos (Option.some.inj hwidth).symm
      | string => exact nomatch hwidth
    rw [runFields_cons hty hwidth, runOperations?, if_pos rfl, hfirst, hrest]
    rfl

/-- **A step reads the fields of its segment.** -/
theorem operations?_segment (bulkArrays : Bool)
    (hn : (fields.map fun f => rustField f.name).Nodup) {segment : Segment}
    (hsub : ∀ f ∈ segment.fields, f ∈ fields)
    (hfixed : ∀ run, segment = .run run → ∀ f ∈ run, f.IsFixed) (n : Nat) :
    ((decodeSegment bulkArrays segment).run n).1.operations? fields
      = some (segment.fields.map (Field.operation bulkArrays)) := by
  cases segment with
  | single f =>
    change DecodeStep.operations? fields (.value (rustField f.name)
      ((decode bulkArrays f.ty (some (rustField f.name))).run n).1) = _
    rw [DecodeStep.operations?, fieldSpot?_of_mem hn (hsub f List.mem_cons_self),
      Option.bind_eq_bind, Option.bind_some, decodesAs_decode bulkArrays f.ty]
    rfl
  | run fields' =>
    have hfixed := hfixed fields' rfl
    exact runOperations?_runFields bulkArrays hn hsub hfixed 0 (size_runFields hfixed 0 0)

variable {sel : Selection} {rank : Nat → Nat}

theorem spot?_field (h : sel.Lawful rank) {id : Nat} {f : Field} (hf : f ∈ sel.schema.fieldsOf id) :
    (Place.field (rustField f.name)).spot? (sel.schema.fieldsOf id) [] = some (.field f.name) :=
  fieldSpot?_of_mem (h.rustNames id) hf

theorem wire?_structRoutines (h : sel.Lawful rank) (id : Nat) :
    (structRoutines sel id).wire? sel.schema = some ⟨id,
      (sel.schema.fieldsOf id).map (Field.operation sel.options.bulkArrays),
      (sel.schema.fieldsOf id).map (Field.operation sel.options.bulkArrays)⟩ := by
  have hfields := sel.schema.flatMap_fields_segments id
  have hwrites : (structRoutines sel id).encode.mapM
      (Encode.operation? (sel.schema.fieldsOf id) [])
        = some ((sel.schema.fieldsOf id).map (Field.operation sel.options.bulkArrays)) := by
    refine mapM_run (fun f hf n => ?_) 0
    exact encodesAs_encode sel.options.bulkArrays f.ty _ _ _ n (spot?_field h hf)
  have hreads : (structRoutines sel id).decode.mapM
      (DecodeStep.operations? (sel.schema.fieldsOf id))
        = some ((sel.schema.segments id).map fun segment =>
          segment.fields.map (Field.operation sel.options.bulkArrays)) := by
    refine mapM_run (fun segment hsegment n => ?_) 0
    refine operations?_segment _ (h.rustNames id) (fun f hf => ?_) (fun run hrun => ?_) n
    · rw [← hfields]
      exact List.mem_flatMap.mpr ⟨segment, hsegment, hf⟩
    · exact sel.schema.fixed_of_mem_segments (hrun ▸ hsegment)
  have hflat : ((sel.schema.segments id).map fun segment =>
      segment.fields.map (Field.operation sel.options.bulkArrays)).flatten
        = (sel.schema.fieldsOf id).map (Field.operation sel.options.bulkArrays) := by
    rw [← hfields, List.map_flatMap, List.flatMap_def]
  unfold StructRoutines.wire?
  change (do
    let writes ← (structRoutines sel id).encode.mapM (Encode.operation? (sel.schema.fieldsOf id) [])
    let reads ← (structRoutines sel id).decode.mapM
      (DecodeStep.operations? (sel.schema.fieldsOf id))
    return (⟨id, writes, reads.flatten⟩ : StructWire)) = _
  rw [hwrites, hreads, Option.bind_eq_bind, Option.bind_some, Option.bind_eq_bind, Option.bind_some,
    hflat]
  rfl

theorem wire?_messageRoutines (sel : Selection) (m : Message) :
    (messageRoutines sel m).wire? = some ⟨m.name, m.ty.operation sel.options.bulkArrays .whole,
      m.ty.operation sel.options.bulkArrays .whole⟩ := by
  have hwrite : (messageRoutines sel m).encode.operation? [] [(messageVariable, some .whole)]
      = some (m.ty.operation sel.options.bulkArrays .whole) :=
    encodesAs_encode sel.options.bulkArrays m.ty (.ref messageVariable) _ _
      ((size sel.layoutOf m.ty (.ref messageVariable)).run 0).2 rfl
  have hread : (messageRoutines sel m).decode.operation? (some messageVariable) .whole
      = some (m.ty.operation sel.options.bulkArrays .whole) :=
    decodesAs_decode sel.options.bulkArrays m.ty _ _ 0
  rw [MessageRoutines.wire?, hwrite, hread]
  rfl

/-- **The Rust routines of a selection come to its wire program.** -/
theorem wire?_program (h : sel.Lawful rank) : (program sel).wire? sel.schema = some sel.wire := by
  have hstructs := mapM_eq_some_map fun id (_ : id ∈ sel.structs) => wire?_structRoutines h id
  have hmessages := mapM_eq_some_map fun m (_ : m ∈ sel.messages) => wire?_messageRoutines sel m
  rw [Program.wire?, program, List.mapM_map, List.mapM_map]
  dsimp only [Function.comp_def]
  rw [hstructs, hmessages]
  rfl

end RustCode

/-! ## C++ routines -/

namespace CppCode

variable {fields : List Field}

/-- Statements that come to an operation, whatever place they are about. -/
def EncodesAs (fields : List Field) (statement : Place → Fresh Encode) (op : Spot → Operation) :
    Prop :=
  ∀ p names spot n, p.spot? fields names = some spot →
    ((statement p).run n).1.operation? fields names = some (op spot)

theorem spot?_deref {p : Place} {names : Names} {spot : Spot}
    (h : p.spot? fields names = some spot) :
    (Place.deref p).spot? fields names = some (.inside spot) := by
  rw [Place.spot?, h]
  rfl

theorem encodesAs_optional {body : Place → Fresh Encode} {op : Spot → Operation}
    (h : EncodesAs fields body op) (o : Bool) :
    EncodesAs fields (fun p => encodeOptional o p body) fun spot => .optionally o spot op := by
  intro p names spot n hp
  cases o with
  | false => exact h p names spot n hp
  | true =>
    have hbody := h (.deref p) names (.inside spot) n (spot?_deref hp)
    change Encode.operation? fields names (.optional p ((body (.deref p)).run n).1) = _
    rw [Encode.operation?, hp, hbody]
    rfl

/-- A statement that is about its place and nothing else. -/
theorem encodesAs_direct {statement : Place → Encode} {op : Spot → Operation}
    (h : ∀ p names, (statement p).operation? fields names
      = do return op (← p.spot? fields names)) :
    EncodesAs fields (fun p => return statement p) op := by
  intro p names spot n hp
  change (statement p).operation? fields names = _
  rw [h, hp]
  rfl

theorem encodesAs_primitive (prim : Primitive) :
    EncodesAs fields (fun p => return encodePrimitive prim p) prim.operation := by
  refine encodesAs_direct fun p names => ?_
  cases prim <;> rfl

theorem encodesAs_each {item : Place → Fresh Encode} {op : Spot → Operation}
    (h : EncodesAs fields item op) :
    EncodesAs fields
      (fun p => do
        let name ← fresh "item"
        return .each p name (← item (.named name)))
      fun spot => .each spot (op (.item spot)) := by
  intro p names spot n hp
  have hitem := h (.named (temporary "item" n)) ((temporary "item" n, some (.item spot)) :: names)
    (.item spot) (n + 1) (Names.spot?_cons_self _ _ _)
  change Encode.operation? fields names
    (.each p (temporary "item" n) ((item (.named (temporary "item" n))).run (n + 1)).1) = _
  rw [Encode.operation?, hp, Option.bind_eq_bind, Option.bind_some, hitem]
  rfl

/-- **The statement that writes a value comes to the operation on its type.** -/
theorem encodesAs_encode (bulkArrays : Bool) (t : Ty) :
    EncodesAs fields (encode bulkArrays t) (t.operation bulkArrays) := by
  induction t with
  | primitive p o => exact encodesAs_optional (encodesAs_primitive p) o
  | struct id o => exact encodesAs_optional (encodesAs_direct fun _ _ => rfl) o
  | array e o ih =>
    refine encodesAs_optional ?_ o
    cases arrayStrategy bulkArrays e with
    | bulk kind => exact encodesAs_direct fun _ _ => rfl
    | elementWise => exact encodesAs_each ih

/-- The variable that a place is in. -/
def Place.root : Place → String
  | .named name => name
  | .member base _ => base
  | .deref p => p.root
  | .back p => p.root

/-- A variable of another name does not change what a place is. -/
theorem spot?_cons_of_ne {p : Place} {name : String} (h : p.root ≠ name) (names : Names)
    (spot : Option Spot) : p.spot? fields ((name, spot) :: names) = p.spot? fields names := by
  induction p with
  | named name' => exact Names.spot?_cons_of_ne h spot
  | member base field =>
    have hbase : base ≠ name := h
    rw [Place.spot?, Names.spot?_cons_of_ne hbase, Place.spot?]
  | deref p ih => rw [Place.spot?, ih h, Place.spot?]
  | back p ih => rw [Place.spot?, ih h, Place.spot?]

/-- Statements that come to an operation, whatever they read into; the variable must not have the
name of a count. -/
def DecodesAs (fields : List Field) (statement : Place → Fresh Decode) (op : Spot → Operation) :
    Prop :=
  ∀ p names spot n, numberOf p.root = [] → p.spot? fields names = some spot →
    ((statement p).run n).1.operation? fields names = some (op spot)

theorem decodesAs_optional {body : Place → Fresh Decode} {op : Spot → Operation}
    (h : DecodesAs fields body op) (o : Bool) :
    DecodesAs fields (fun p => decodeOptional o p body) fun spot => .optionally o spot op := by
  intro p names spot n hroot hp
  cases o with
  | false => exact h p names spot n hroot hp
  | true =>
    have hbody := h (.deref p) names (.inside spot) n hroot (spot?_deref hp)
    change Decode.operation? fields names (.optional p ((body (.deref p)).run n).1) = _
    rw [Decode.operation?, hp, hbody]
    rfl

/-- A statement that is about its place and nothing else. -/
theorem decodesAs_direct {statement : Place → Decode} {op : Spot → Operation}
    (h : ∀ p names, (statement p).operation? fields names
      = do return op (← p.spot? fields names)) :
    DecodesAs fields (fun p => return statement p) op := by
  intro p names spot n _ hp
  change (statement p).operation? fields names = _
  rw [h, hp]
  rfl

theorem decodesAs_primitive (prim : Primitive) :
    DecodesAs fields (fun p => return decodePrimitive prim p) prim.operation := by
  refine decodesAs_direct fun p names => ?_
  cases prim <;> rfl

theorem decodesAs_each {item : Place → Fresh Decode} {op : Spot → Operation}
    (h : DecodesAs fields item op) :
    DecodesAs fields
      (fun p => do
        let len ← fresh "len"
        let index ← fresh "i"
        return .each p len index (← item (.back p)))
      fun spot => .each spot (op (.item spot)) := by
  intro p names spot n hroot hp
  have hlen : p.root ≠ temporary "len" n := (temporary_ne (by decide) hroot n).symm
  have hindex : p.root ≠ temporary "i" (n + 1) := (temporary_ne (by decide) hroot (n + 1)).symm
  have hcounts : temporary "len" n ≠ temporary "i" (n + 1) := by
    intro heq
    have hsame := temporary_inj (by decide) (by decide) heq
    omega
  -- the counts hide neither each other nor the vector
  let inner : Names := (temporary "i" (n + 1), none) :: (temporary "len" n, none) :: names
  have hinner : p.spot? fields inner = some spot := by
    rw [spot?_cons_of_ne hindex, spot?_cons_of_ne hlen, hp]
  have hback : (Place.back p).spot? fields inner = some (.item spot) := by
    rw [Place.spot?, hinner]
    rfl
  have hitem := h (.back p) inner (.item spot) (n + 2) hroot hback
  change Decode.operation? fields names
    (.each p (temporary "len" n) (temporary "i" (n + 1)) ((item (.back p)).run (n + 2)).1) = _
  rw [Decode.operation?, if_neg hcounts]
  dsimp only
  rw [hinner, hitem]
  rfl

/-- **The statement that reads a value comes to the operation on its type.** -/
theorem decodesAs_decode (bulkArrays : Bool) (t : Ty) :
    DecodesAs fields (decode bulkArrays t) (t.operation bulkArrays) := by
  induction t with
  | primitive p o => exact decodesAs_optional (decodesAs_primitive p) o
  | struct id o => exact decodesAs_optional (decodesAs_direct fun _ _ => rfl) o
  | array e o ih =>
    refine decodesAs_optional ?_ o
    cases arrayStrategy bulkArrays e with
    | bulk kind => exact decodesAs_direct fun _ _ => rfl
    | elementWise => exact decodesAs_each ih

variable {sel : Selection} {rank : Nat → Nat}

theorem spot?_member (h : sel.Lawful rank) {id : Nat} {f : Field} (hf : f ∈ sel.schema.fieldsOf id)
    (base : String) : (Place.member base (cppField f.name)).spot? (sel.schema.fieldsOf id)
      [(base, some .whole)] = some (.field f.name) := by
  rw [Place.spot?, if_pos (Names.spot?_cons_self _ _ _), fieldSpot?_of_mem (h.cppNames id) hf]

theorem wire?_structRoutines (h : sel.Lawful rank) (id : Nat) :
    (structRoutines sel id).wire? sel.schema = some ⟨id,
      (sel.schema.fieldsOf id).map (Field.operation sel.options.bulkArrays),
      (sel.schema.fieldsOf id).map (Field.operation sel.options.bulkArrays)⟩ := by
  have hwrites : (structRoutines sel id).encode.mapM
      (Encode.operation? (sel.schema.fieldsOf id) [(inputVariable, some .whole)])
        = some ((sel.schema.fieldsOf id).map (Field.operation sel.options.bulkArrays)) := by
    refine mapM_run (fun f hf n => ?_) 0
    exact encodesAs_encode sel.options.bulkArrays f.ty _ _ _ n (spot?_member h hf _)
  have hreads : (structRoutines sel id).decode.mapM
      (Decode.operation? (sel.schema.fieldsOf id) [(outputVariable, some .whole)])
        = some ((sel.schema.fieldsOf id).map (Field.operation sel.options.bulkArrays)) := by
    have hroot : numberOf outputVariable = [] := by decide
    refine mapM_run (fun f hf n => ?_) 0
    exact decodesAs_decode sel.options.bulkArrays f.ty _ _ _ n hroot (spot?_member h hf _)
  unfold StructRoutines.wire?
  change (do
    let writes ← (structRoutines sel id).encode.mapM
      (Encode.operation? (sel.schema.fieldsOf id) [(inputVariable, some .whole)])
    let reads ← (structRoutines sel id).decode.mapM
      (Decode.operation? (sel.schema.fieldsOf id) [(outputVariable, some .whole)])
    return (⟨id, writes, reads⟩ : StructWire)) = _
  rw [hwrites, hreads]
  rfl

theorem wire?_messageRoutines (sel : Selection) (m : Message) :
    (messageRoutines sel m).wire? = some ⟨m.name, m.ty.operation sel.options.bulkArrays .whole,
      m.ty.operation sel.options.bulkArrays .whole⟩ := by
  have hwrite : (messageRoutines sel m).encode.operation? [] [(inputVariable, some .whole)]
      = some (m.ty.operation sel.options.bulkArrays .whole) :=
    encodesAs_encode sel.options.bulkArrays m.ty (.named inputVariable) _ _
      ((size sel.layoutOf m.ty (.named inputVariable)).run 0).2 rfl
  have hread : (messageRoutines sel m).decode.operation? [] [(inputVariable, some .whole)]
      = some (m.ty.operation sel.options.bulkArrays .whole) :=
    decodesAs_decode sel.options.bulkArrays m.ty (.named inputVariable) _ _ 0 (by decide) rfl
  rw [MessageRoutines.wire?, hwrite, hread]
  rfl

/-- **The C++ routines of a selection come to its wire program.** -/
theorem wire?_program (h : sel.Lawful rank) : (program sel).wire? sel.schema = some sel.wire := by
  have hstructs := mapM_eq_some_map fun id (_ : id ∈ sel.structs) => wire?_structRoutines h id
  have hmessages := mapM_eq_some_map fun m (_ : m ∈ sel.messages) => wire?_messageRoutines sel m
  rw [Program.wire?, program, List.mapM_map, List.mapM_map]
  dsimp only [Function.comp_def]
  rw [hstructs, hmessages]
  rfl

end CppCode

/-- The program of a reading; a struct comes behind those that it uses. -/
def readingWire : WireProgram :=
  let state : List Operation := [.bool (.field "Ready")]
  let reading : List Operation := [
    .scalar .int32 (.field "Id"), .scalar .float32 (.field "Level"),
    .each (.field "Tags") (.optional (.item (.field "Tags"))
      (.string (.inside (.item (.field "Tags"))))),
    .optional (.field "State") (.struct 1 (.inside (.field "State")))]
  { structs := [⟨1, state, state⟩, ⟨0, reading, reading⟩]
    messages := [⟨"Reading", .struct 0 .whole, .struct 0 .whole⟩] }

end WireSchema
