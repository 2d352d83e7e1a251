import WireSchema.Proofs.Embedding

/-!
# Numbers of structs in Rust code

Routines refer to structs by their numbers, and a file refers to them by their names. Two things
follow for messages of a schema that is inside a larger one:

* the **routines** are those of the smaller schema with structs numbered anew, because what is built
  for a type follows the type, and the temporaries are counted in the same order;
* the **text** of routines with structs numbered anew is the same, as long as every struct keeps its
  name: most statements call a method of the value at hand and do not mention the struct at all.

Together they give one file.
-/

namespace WireSchema.RustCode

open WireSchema.Naming (rustField)

variable {σ : Nat → Nat}

/-! ## Routines with structs numbered anew -/

def Encode.renumber (σ : Nat → Nat) : Encode → Encode
  | .struct id p => .struct (σ id) p
  | .optional p v body => .optional p v (body.renumber σ)
  | .each p item body => .each p item (body.renumber σ)
  | e => e

def ReadExpr.renumber (σ : Nat → Nat) : ReadExpr → ReadExpr
  | .struct id => .struct (σ id)
  | e => e

def Decode.renumber (σ : Nat → Nat) : Decode → Decode
  | .read e => .read (e.renumber σ)
  | .optional name inner => .optional name (inner.renumber σ)
  | .collect name len item => .collect name len (item.renumber σ)

def DecodeStep.renumber (σ : Nat → Nat) : DecodeStep → DecodeStep
  | .value name d => .value name (d.renumber σ)
  | .run block size fields => .run block size fields

def SizeExpr.renumber (σ : Nat → Nat) : SizeExpr → SizeExpr
  | .encodedLen id p => .encodedLen (σ id) p
  | .add a b => .add (a.renumber σ) (b.renumber σ)
  | .mul a b => .mul (a.renumber σ) (b.renumber σ)
  | .ifSome p yes no => .ifSome p (yes.renumber σ) (no.renumber σ)
  | .mapOr p v body => .mapOr p v (body.renumber σ)
  | .sumOver p v body => .sumOver p v (body.renumber σ)
  | .paren e => .paren (e.renumber σ)
  | e => e

def StructRoutines.renumber (σ : Nat → Nat) (r : StructRoutines) : StructRoutines where
  id := σ r.id
  fields := r.fields
  size := r.size.map (List.map (SizeExpr.renumber σ))
  encode := r.encode.map (Encode.renumber σ)
  decode := r.decode.map (DecodeStep.renumber σ)

def MessageRoutines.renumber (σ : Nat → Nat) (r : MessageRoutines) : MessageRoutines where
  message := r.message.renumber σ
  capacity := r.capacity.renumber σ
  encode := r.encode.renumber σ
  decode := r.decode.renumber σ

def Program.renumber (σ : Nat → Nat) (p : Program) : Program where
  structs := p.structs.map (StructRoutines.renumber σ)
  messages := p.messages.map (MessageRoutines.renumber σ)

/-! ## What is built follows the numbers -/

theorem encodeOptional_renumber {o : Bool} {p : Place} {body body' : Place → Fresh Encode}
    (h : ∀ p, body' p = Encode.renumber σ <$> body p) :
    encodeOptional o p body' = Encode.renumber σ <$> encodeOptional o p body := by
  obtain rfl : body' = fun p => Encode.renumber σ <$> body p := funext h
  cases o with
  | false => rfl
  | true => rfl

theorem encode_renumber (bulkArrays : Bool) (t : Ty) (p : Place) :
    encode bulkArrays (t.renumber σ) p = Encode.renumber σ <$> encode bulkArrays t p := by
  induction t generalizing p with
  | primitive prim o => exact encodeOptional_renumber fun p => by cases prim <;> rfl
  | struct id o => exact encodeOptional_renumber fun p => rfl
  | array e o ih =>
    refine encodeOptional_renumber fun p => ?_
    rw [arrayStrategy_renumber]
    simp only [ih]
    cases arrayStrategy bulkArrays e with
    | bulk kind => rfl
    | elementWise => rfl

theorem decodeOptional_renumber {o : Bool} {name : Option String}
    {body body' : Option String → Fresh Decode}
    (h : ∀ name, body' name = Decode.renumber σ <$> body name) :
    decodeOptional o name body' = Decode.renumber σ <$> decodeOptional o name body := by
  obtain rfl : body' = fun name => Decode.renumber σ <$> body name := funext h
  cases o with
  | false => rfl
  | true => rfl

theorem decode_renumber (bulkArrays : Bool) (t : Ty) (name : Option String) :
    decode bulkArrays (t.renumber σ) name = Decode.renumber σ <$> decode bulkArrays t name := by
  induction t generalizing name with
  | primitive prim o => exact decodeOptional_renumber fun name => by cases prim <;> rfl
  | struct id o => exact decodeOptional_renumber fun name => rfl
  | array e o ih =>
    refine decodeOptional_renumber fun name => ?_
    rw [arrayStrategy_renumber]
    simp only [ih]
    cases arrayStrategy bulkArrays e with
    | bulk kind => rfl
    | elementWise => rfl

theorem sizeOptional_renumber {o : Bool} {inner : Layout} {p : Place}
    {body body' : Place → Fresh SizeExpr} (h : ∀ p, body' p = SizeExpr.renumber σ <$> body p) :
    sizeOptional o inner p body' = SizeExpr.renumber σ <$> sizeOptional o inner p body := by
  obtain rfl : body' = fun p => SizeExpr.renumber σ <$> body p := funext h
  unfold sizeOptional
  cases o <;> cases inner.isFixed <;> rfl

theorem SizeExpr.asTerm_renumber (e : SizeExpr) :
    (e.renumber σ).asTerm = e.asTerm.renumber σ := by
  cases e <;> rfl

section Sizes

variable {layoutOf layoutOf' : Ty → Layout} (hl : ∀ t : Ty, layoutOf' (t.renumber σ) = layoutOf t)
include hl

theorem size_renumber (t : Ty) (p : Place) :
    size layoutOf' (t.renumber σ) p = SizeExpr.renumber σ <$> size layoutOf t p := by
  induction t generalizing p with
  | primitive prim o =>
    have hinner := hl (.primitive prim false)
    rw [Ty.renumber] at hinner ⊢
    rw [size, size, hinner]
    exact sizeOptional_renumber fun p => rfl
  | struct id o =>
    have hinner := hl (.struct id false)
    rw [Ty.renumber] at hinner ⊢
    rw [size, size, hinner]
    exact sizeOptional_renumber fun p => rfl
  | array e o ih =>
    have hinner := hl (.array e false)
    rw [Ty.renumber] at hinner ⊢
    rw [size, size, hinner, hl e]
    refine sizeOptional_renumber fun p => ?_
    simp only [ih]
    cases (layoutOf e).isFixed with
    | true => rfl
    | false => rfl

theorem structSize_renumber {fields fields' : List Field}
    (h : List.Forall₂ (Field.Matches σ) fields fields') :
    structSize layoutOf' fields'
      = List.map (SizeExpr.renumber σ) <$> structSize layoutOf fields := by
  have hterms := Fresh.mapM_of_forall₂
    (fun f => size layoutOf f.ty (.field (rustField f.name)))
    (fun f => size layoutOf' f.ty (.field (rustField f.name))) (SizeExpr.renumber σ)
    (matches_varying hl h) fun f f' hmatch => by rw [hmatch.ty, hmatch.name, size_renumber hl]
  -- the constant and the brackets have nothing to do with numbers
  have hliteral : ∀ (b : Bool) (n : Nat) (terms : List SizeExpr),
      (if b then .literal n :: terms.map (SizeExpr.renumber σ) else terms.map (SizeExpr.renumber σ))
        = (if b then .literal n :: terms else terms).map (SizeExpr.renumber σ) := by
    intro b n terms
    cases b <;> rfl
  have hbrackets : ∀ terms : List SizeExpr,
      (if (terms.map (SizeExpr.renumber σ)).length > 1 then
          (terms.map (SizeExpr.renumber σ)).map SizeExpr.asTerm
        else terms.map (SizeExpr.renumber σ))
        = (if terms.length > 1 then terms.map SizeExpr.asTerm else terms).map
            (SizeExpr.renumber σ) := by
    intro terms
    rw [List.length_map]
    split
    · rw [List.map_map, List.map_map]
      exact List.map_congr_left fun e _ => e.asTerm_renumber
    · rfl
  unfold structSize
  rw [List.partition_eq_filter_filter, List.partition_eq_filter_filter]
  dsimp only
  rw [fixedSizes_of_matches hl h, hterms, bind_map_left, map_bind]
  refine bind_congr fun terms => ?_
  rw [map_pure, List.isEmpty_map, hliteral, hbrackets]

end Sizes

theorem runFields_of_matches {fields fields' : List Field}
    (h : List.Forall₂ (Field.Matches σ) fields fields') (offset : Nat) :
    runFields offset fields' = runFields offset fields := by
  induction h generalizing offset with
  | nil => rfl
  | @cons f f' _ _ hmatch _ ih =>
    unfold runFields
    rw [hmatch.ty, hmatch.name]
    cases f.ty <;> simp only [Ty.renumber, ih]

theorem decodeSegment_renumber (bulkArrays : Bool) {seg seg' : Segment}
    (h : Segment.Matches σ seg seg') :
    decodeSegment bulkArrays seg' = DecodeStep.renumber σ <$> decodeSegment bulkArrays seg := by
  cases h with
  | single hmatch =>
    rw [decodeSegment, decodeSegment, hmatch.name, hmatch.ty, decode_renumber]
    rfl
  | run h =>
    rw [decodeSegment, decodeSegment, runFields_of_matches h]
    rfl

section Selections

variable {sel sel' : Selection} (h : sel.Embeds σ sel')
include h

theorem structRoutines_renumber (id : Nat) :
    structRoutines sel' (σ id) = (structRoutines sel id).renumber σ := by
  have hfields := h.schema.fieldsOf id
  have hnames := Field.map_eq_of_matches (fun f => rustField f.name) (fun f => rustField f.name)
    hfields fun f f' hmatch => by rw [hmatch.name]
  have hencode := Fresh.mapM_of_forall₂
    (fun f => encode sel.options.bulkArrays f.ty (.field (rustField f.name)))
    (fun f => encode sel.options.bulkArrays f.ty (.field (rustField f.name))) (Encode.renumber σ)
    hfields fun f f' hmatch => by rw [hmatch.ty, hmatch.name, encode_renumber]
  have hdecode := Fresh.mapM_of_forall₂ (decodeSegment sel.options.bulkArrays)
    (decodeSegment sel.options.bulkArrays) (DecodeStep.renumber σ) (h.schema.segments id)
    fun seg seg' hmatch => decodeSegment_renumber _ hmatch
  unfold structRoutines StructRoutines.renumber
  rw [h.options, h.structLayout, hnames, structSize_renumber h.layoutOf hfields, hencode, hdecode]
  cases (sel.analysis.structLayout id).isFixed <;> rfl

theorem messageRoutines_renumber (m : Message) :
    messageRoutines sel' (m.renumber σ) = (messageRoutines sel m).renumber σ := by
  unfold messageRoutines
  rw [h.options, Message.renumber, size_renumber h.layoutOf, encode_renumber, decode_renumber]
  rfl

/-- **The routines are the same, with structs numbered anew.** -/
theorem program_renumber : program sel' = (program sel).renumber σ := by
  unfold program Program.renumber
  dsimp only
  rw [h.structs, h.messages, List.map_map, List.map_map, List.map_map, List.map_map]
  congr 1
  · exact List.map_congr_left fun id _ => structRoutines_renumber h id
  · exact List.map_congr_left fun m _ => messageRoutines_renumber h m

end Selections

/-! ## What is written does not show the numbers -/

theorem Encode.steps_renumber (e : Encode) : (e.renumber σ).steps = e.steps := by
  induction e with
  | optional p v body ih => rw [renumber, steps, steps, ih]
  | each p item body ih => rw [renumber, steps, steps, ih]
  | _ => rfl

theorem SizeExpr.text_renumber (e : SizeExpr) : (e.renumber σ).text = e.text := by
  induction e with
  | add a b iha ihb => rw [renumber, text, text, iha, ihb]
  | mul a b iha ihb => rw [renumber, text, text, iha, ihb]
  | ifSome p yes no ihyes ihno => rw [renumber, text, text, ihyes, ihno]
  | mapOr p v body ih => rw [renumber, text, text, ih]
  | sumOver p v body ih => rw [renumber, text, text, ih]
  | paren e ih => rw [renumber, text, text, ih]
  | _ => rfl

theorem sizeText_renumber (terms : List SizeExpr) :
    sizeText (terms.map (SizeExpr.renumber σ)) = sizeText terms := by
  unfold sizeText
  rw [List.map_map]
  exact congrArg _ (List.map_congr_left fun e _ => e.text_renumber)

theorem DecodeStep.usesScalar_renumber (step : DecodeStep) :
    (step.renumber σ).usesScalar = step.usesScalar := by
  cases step <;> rfl

theorem Program.usesScalar_renumber (p : Program) :
    ((p.renumber σ).structs.any fun r => r.decode.any DecodeStep.usesScalar)
      = p.structs.any fun r => r.decode.any DecodeStep.usesScalar := by
  have hstruct : ∀ r : StructRoutines, (r.renumber σ).decode.any DecodeStep.usesScalar
      = r.decode.any DecodeStep.usesScalar := by
    intro r
    rw [StructRoutines.renumber, List.any_map]
    exact congrArg r.decode.any (funext DecodeStep.usesScalar_renumber)
  rw [Program.renumber, List.any_map]
  exact congrArg p.structs.any (funext hstruct)

section Names

variable {structType structType' : Nat → String} (hname : ∀ id, structType' (σ id) = structType id)
include hname

theorem typeText_renumber (t : Ty) :
    typeText structType' (t.renumber σ) = typeText structType t := by
  induction t with
  | primitive p o => rfl
  | struct id o => rw [Ty.renumber, typeText, typeText, hname]
  | array e o ih => rw [Ty.renumber, typeText, typeText, ih]

theorem ReadExpr.text_renumber (e : ReadExpr) :
    (e.renumber σ).text structType' = e.text structType := by
  cases e with
  | struct id =>
    unfold renumber text
    dsimp only
    rw [hname]
  | _ => rfl

theorem Decode.expr_renumber (d : Decode) :
    (d.renumber σ).expr structType' = d.expr structType := by
  cases d with
  | read e => exact e.text_renumber hname
  | _ => rfl

theorem Decode.setup_renumber (d : Decode) :
    (d.renumber σ).setup structType' = d.setup structType := by
  induction d with
  | read e => rfl
  | optional name inner ih => rw [renumber, setup, setup, ih, inner.expr_renumber hname]
  | collect name len item ih => rw [renumber, setup, setup, ih, item.expr_renumber hname]

theorem Decode.letSteps_renumber (name : String) (d : Decode) :
    (d.renumber σ).letSteps structType' name = d.letSteps structType name := by
  cases d with
  | read e => rw [renumber, letSteps, letSteps, e.text_renumber hname]
  | optional name inner => exact Decode.setup_renumber hname (.optional name inner)
  | collect name len item => exact Decode.setup_renumber hname (.collect name len item)

theorem DecodeStep.steps_renumber (step : DecodeStep) :
    (step.renumber σ).steps structType' = step.steps structType := by
  cases step with
  | value name d => exact d.letSteps_renumber hname name
  | run block size fields => rfl

end Names

section Selections

variable {sel sel' : Selection} (h : sel.Embeds σ sel')
include h

theorem structType_renumber (id : Nat) : structType sel' (σ id) = structType sel id := by
  unfold structType
  rw [h.schema.structName]

theorem structDeclaration_renumber (id : Nat) :
    structDeclaration sel' (σ id) = structDeclaration sel id := by
  have hfields := Field.map_eq_of_matches (fieldSteps sel) (fieldSteps sel') (h.schema.fieldsOf id)
    fun f f' hmatch => by
      unfold fieldSteps
      rw [h.options, hmatch.name, hmatch.key, hmatch.ty, typeText_renumber (structType_renumber h)]
  unfold structDeclaration structHead
  rw [h.options, structType_renumber h, List.flatMap_def, List.flatMap_def, hfields]

theorem structMethods_renumber (r : StructRoutines) :
    structMethods sel' (r.renumber σ) = structMethods sel r := by
  have hencode := flatMap_map_of_eq (Encode.steps_renumber (σ := σ)) r.encode
  have hdecode := flatMap_map_of_eq (DecodeStep.steps_renumber (structType_renumber h)) r.decode
  unfold structMethods StructRoutines.renumber
  dsimp only
  rw [h.structLayout, structType_renumber h, hencode, hdecode, h.ownMessage?]
  cases r.size with
  | none => cases sel.ownMessage? r.id <;> rfl
  | some terms =>
    rw [Option.map_some]
    dsimp only
    rw [sizeText_renumber]
    cases sel.ownMessage? r.id <;> rfl

theorem messageSteps_renumber (r : MessageRoutines) :
    messageSteps sel' (r.renumber σ) = messageSteps sel r := by
  have htype : typeText (structType sel') (r.message.renumber σ).ty
      = typeText (structType sel) r.message.ty :=
    typeText_renumber (structType_renumber h) r.message.ty
  unfold messageSteps MessageRoutines.renumber
  dsimp only
  rw [h.isNamedStruct, htype, r.capacity.text_renumber, r.encode.steps_renumber,
    r.decode.letSteps_renumber (structType_renumber h)]
  rfl

theorem body_renumber (p : Program) : body sel' (p.renumber σ) = body sel p := by
  have hstruct : ∀ r : StructRoutines,
      structDeclaration sel' (r.renumber σ).id ++ structMethods sel' (r.renumber σ)
        = structDeclaration sel r.id ++ structMethods sel r := by
    intro r
    rw [structMethods_renumber h r, ← structDeclaration_renumber h r.id]
    rfl
  unfold body Program.renumber
  dsimp only
  rw [flatMap_map_of_eq hstruct, flatMap_map_of_eq (messageSteps_renumber h)]

/-- **The file is the same.** -/
theorem source_renumber : source sel' = source sel := by
  have hempty : ((program sel).renumber σ).structs.isEmpty = (program sel).structs.isEmpty :=
    List.isEmpty_map
  unfold source moduleHead
  rw [program_renumber h]
  dsimp only
  rw [Program.usesScalar_renumber, hempty, body_renumber h, h.options, h.package]

end Selections

end WireSchema.RustCode
