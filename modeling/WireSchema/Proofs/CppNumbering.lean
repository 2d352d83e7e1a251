import WireSchema.Proofs.Embedding

/-!
# Numbers of structs in C++ code

As in Rust, the routines for messages of a schema that is inside a larger one are those of the
smaller schema with structs numbered anew, and their text is the same. The statements never mention a
struct: which function `detail::encode` is meant is for overloading to find out.
-/

namespace WireSchema.CppCode

open WireSchema.Naming (cppField)

variable {σ : Nat → Nat}

/-! ## Routines with structs numbered anew -/

def Encode.renumber (σ : Nat → Nat) : Encode → Encode
  | .struct id p => .struct (σ id) p
  | .optional p body => .optional p (body.renumber σ)
  | .each p item body => .each p item (body.renumber σ)
  | e => e

def Decode.renumber (σ : Nat → Nat) : Decode → Decode
  | .struct id p => .struct (σ id) p
  | .optional p body => .optional p (body.renumber σ)
  | .each p len index body => .each p len index (body.renumber σ)
  | d => d

def SizeExpr.renumber (σ : Nat → Nat) : SizeExpr → SizeExpr
  | .struct id p => .struct (σ id) p
  | .optional p inner => .optional p (inner.renumber σ)
  | .items p item total body => .items p item total (body.renumber σ)
  | e => e

def StructRoutines.renumber (σ : Nat → Nat) (r : StructRoutines) : StructRoutines where
  id := σ r.id
  size := r.size.map (List.map (SizeExpr.renumber σ))
  encode := r.encode.map (Encode.renumber σ)
  decode := r.decode.map (Decode.renumber σ)

def MessageRoutines.renumber (σ : Nat → Nat) (r : MessageRoutines) : MessageRoutines where
  message := r.message.renumber σ
  capacity := r.capacity.renumber σ
  encode := r.encode.renumber σ
  decode := r.decode.renumber σ

def Program.renumber (σ : Nat → Nat) (p : Program) : Program where
  structs := p.structs.map (StructRoutines.renumber σ)
  messages := p.messages.map (MessageRoutines.renumber σ)

/-! ## What is built follows the numbers -/

theorem encodeOptional_renumber {o : Bool} {p : Place} {body body' : Place → Fresh Encode}
    (h : ∀ p, body' p = Encode.renumber σ <$> body p) :
    encodeOptional o p body' = Encode.renumber σ <$> encodeOptional o p body := by
  obtain rfl : body' = fun p => Encode.renumber σ <$> body p := funext h
  cases o with
  | false => rfl
  | true => rfl

theorem encode_renumber (bulkArrays : Bool) (t : Ty) (p : Place) :
    encode bulkArrays (t.renumber σ) p = Encode.renumber σ <$> encode bulkArrays t p := by
  induction t generalizing p with
  | primitive prim o => exact encodeOptional_renumber fun p => by cases prim <;> rfl
  | struct id o => exact encodeOptional_renumber fun p => rfl
  | array e o ih =>
    refine encodeOptional_renumber fun p => ?_
    rw [arrayStrategy_renumber]
    simp only [ih]
    cases arrayStrategy bulkArrays e with
    | bulk kind => rfl
    | elementWise => rfl

theorem decodeOptional_renumber {o : Bool} {p : Place} {body body' : Place → Fresh Decode}
    (h : ∀ p, body' p = Decode.renumber σ <$> body p) :
    decodeOptional o p body' = Decode.renumber σ <$> decodeOptional o p body := by
  obtain rfl : body' = fun p => Decode.renumber σ <$> body p := funext h
  cases o with
  | false => rfl
  | true => rfl

theorem decode_renumber (bulkArrays : Bool) (t : Ty) (p : Place) :
    decode bulkArrays (t.renumber σ) p = Decode.renumber σ <$> decode bulkArrays t p := by
  induction t generalizing p with
  | primitive prim o => exact decodeOptional_renumber fun p => by cases prim <;> rfl
  | struct id o => exact decodeOptional_renumber fun p => rfl
  | array e o ih =>
    refine decodeOptional_renumber fun p => ?_
    rw [arrayStrategy_renumber]
    simp only [ih]
    cases arrayStrategy bulkArrays e with
    | bulk kind => rfl
    | elementWise => rfl

theorem sizeOptional_renumber {o : Bool} {inner : Layout} {p : Place}
    {body body' : Place → Fresh SizeExpr} (h : ∀ p, body' p = SizeExpr.renumber σ <$> body p) :
    sizeOptional o inner p body' = SizeExpr.renumber σ <$> sizeOptional o inner p body := by
  obtain rfl : body' = fun p => SizeExpr.renumber σ <$> body p := funext h
  unfold sizeOptional
  cases o <;> cases inner.isFixed <;> rfl

section Sizes

variable {layoutOf layoutOf' : Ty → Layout} (hl : ∀ t : Ty, layoutOf' (t.renumber σ) = layoutOf t)
include hl

theorem size_renumber (t : Ty) (p : Place) :
    size layoutOf' (t.renumber σ) p = SizeExpr.renumber σ <$> size layoutOf t p := by
  induction t generalizing p with
  | primitive prim o =>
    have hinner := hl (.primitive prim false)
    rw [Ty.renumber] at hinner ⊢
    rw [size, size, hinner]
    exact sizeOptional_renumber fun p => rfl
  | struct id o =>
    have hinner := hl (.struct id false)
    rw [Ty.renumber] at hinner ⊢
    rw [size, size, hinner]
    exact sizeOptional_renumber fun p => rfl
  | array e o ih =>
    have hinner := hl (.array e false)
    rw [Ty.renumber] at hinner ⊢
    rw [size, size, hinner, hl e]
    refine sizeOptional_renumber fun p => ?_
    simp only [ih]
    cases (layoutOf e).isFixed with
    | true => rfl
    | false => rfl

theorem structSize_renumber (base : String) {fields fields' : List Field}
    (h : List.Forall₂ (Field.Matches σ) fields fields') :
    structSize layoutOf' base fields'
      = List.map (SizeExpr.renumber σ) <$> structSize layoutOf base fields := by
  have hterms := Fresh.mapM_of_forall₂
    (fun f => size layoutOf f.ty (.member base (cppField f.name)))
    (fun f => size layoutOf' f.ty (.member base (cppField f.name))) (SizeExpr.renumber σ)
    (matches_varying hl h) fun f f' hmatch => by rw [hmatch.ty, hmatch.name, size_renumber hl]
  unfold structSize
  rw [List.partition_eq_filter_filter, List.partition_eq_filter_filter]
  dsimp only
  rw [fixedSizes_of_matches hl h, hterms, bind_map_left, map_bind]
  refine bind_congr fun terms => ?_
  rw [map_pure, List.isEmpty_map]
  split <;> rfl

end Sizes

section Selections

variable {sel sel' : Selection} (h : sel.Embeds σ sel')
include h

theorem structRoutines_renumber (id : Nat) :
    structRoutines sel' (σ id) = (structRoutines sel id).renumber σ := by
  have hfields := h.schema.fieldsOf id
  have hencode := Fresh.mapM_of_forall₂
    (fun f => encode sel.options.bulkArrays f.ty (.member inputVariable (cppField f.name)))
    (fun f => encode sel.options.bulkArrays f.ty (.member inputVariable (cppField f.name)))
    (Encode.renumber σ) hfields fun f f' hmatch => by rw [hmatch.ty, hmatch.name, encode_renumber]
  have hdecode := Fresh.mapM_of_forall₂
    (fun f => decode sel.options.bulkArrays f.ty (.member outputVariable (cppField f.name)))
    (fun f => decode sel.options.bulkArrays f.ty (.member outputVariable (cppField f.name)))
    (Decode.renumber σ) hfields fun f f' hmatch => by rw [hmatch.ty, hmatch.name, decode_renumber]
  unfold structRoutines StructRoutines.renumber
  rw [h.options, h.structLayout, structSize_renumber h.layoutOf _ hfields, hencode, hdecode]
  cases (sel.analysis.structLayout id).isFixed <;> rfl

theorem messageRoutines_renumber (m : Message) :
    messageRoutines sel' (m.renumber σ) = (messageRoutines sel m).renumber σ := by
  unfold messageRoutines
  rw [h.options, Message.renumber]
  dsimp only
  rw [size_renumber h.layoutOf, encode_renumber, decode_renumber]
  rfl

/-- **The routines are the same, with structs numbered anew.** -/
theorem program_renumber : program sel' = (program sel).renumber σ := by
  unfold program Program.renumber
  dsimp only
  rw [h.structs, h.messages, List.map_map, List.map_map, List.map_map, List.map_map]
  congr 1
  · exact List.map_congr_left fun id _ => structRoutines_renumber h id
  · exact List.map_congr_left fun m _ => messageRoutines_renumber h m

end Selections

/-! ## What is written does not show the numbers -/

theorem Encode.steps_renumber (e : Encode) : (e.renumber σ).steps = e.steps := by
  induction e with
  | optional p body ih => rw [renumber, steps, steps, ih]
  | each p item body ih => rw [renumber, steps, steps, ih]
  | _ => rfl

theorem Decode.steps_renumber (d : Decode) : (d.renumber σ).steps = d.steps := by
  induction d with
  | optional p body ih => rw [renumber, steps, steps, ih]
  | each p len index body ih => rw [renumber, steps, steps, ih]
  | _ => rfl

theorem SizeExpr.text_renumber (e : SizeExpr) : (e.renumber σ).text = e.text := by
  induction e with
  | optional p inner ih =>
    unfold renumber text
    rw [ih]
  | items p item total body ih =>
    unfold renumber text
    rw [ih]
  | _ => rfl

theorem sizeText_renumber (terms : List SizeExpr) :
    sizeText (terms.map (SizeExpr.renumber σ)) = sizeText terms := by
  unfold sizeText
  rw [List.map_map]
  exact congrArg _ (List.map_congr_left fun e _ => e.text_renumber)

theorem typeText_renumber {structType structType' : Nat → String}
    (hname : ∀ id, structType' (σ id) = structType id) (t : Ty) :
    typeText structType' (t.renumber σ) = typeText structType t := by
  induction t with
  | primitive p o => rfl
  | struct id o => rw [Ty.renumber, typeText, typeText, hname]
  | array e o ih => rw [Ty.renumber, typeText, typeText, ih]

section Selections

variable {sel sel' : Selection} (h : sel.Embeds σ sel')
include h

theorem structType_renumber (id : Nat) : structType sel' (σ id) = structType sel id := by
  unfold structType
  rw [h.schema.structName]

theorem structDeclaration_renumber (id : Nat) :
    structDeclaration sel' (σ id) = structDeclaration sel id := by
  unfold structDeclaration
  rw [h.structLayout, structType_renumber h]
  dsimp only
  -- only the lines of the fields are left
  rw [List.append_left_inj, List.append_right_inj]
  refine Field.map_eq_of_matches _ _ (h.schema.fieldsOf id) fun f f' hmatch => ?_
  rw [hmatch.ty, hmatch.name, typeText_renumber (structType_renumber h)]

theorem structSteps_renumber (r : StructRoutines) :
    structSteps sel' (r.renumber σ) = structSteps sel r := by
  have hencode := flatMap_map_of_eq (Encode.steps_renumber (σ := σ)) r.encode
  have hdecode := flatMap_map_of_eq (Decode.steps_renumber (σ := σ)) r.decode
  unfold structSteps StructRoutines.renumber
  dsimp only
  rw [structType_renumber h, hencode, hdecode]
  cases r.size with
  | none => rfl
  | some terms =>
    rw [Option.map_some]
    dsimp only
    rw [sizeText_renumber]

theorem messageSteps_renumber (r : MessageRoutines) :
    messageSteps sel' (r.renumber σ) = messageSteps sel r := by
  have htype : typeText (structType sel') (r.message.renumber σ).ty
      = typeText (structType sel) r.message.ty :=
    typeText_renumber (structType_renumber h) r.message.ty
  unfold messageSteps MessageRoutines.renumber
  dsimp only
  rw [h.isNamedStruct, htype, r.capacity.text_renumber, r.encode.steps_renumber,
    r.decode.steps_renumber]
  rfl

/-- **The file is the same.** -/
theorem source_renumber : source sel' = source sel := by
  have hdeclarations : ((program sel).structs.map (StructRoutines.renumber σ)).flatMap
      (fun r => structDeclaration sel' r.id)
        = (program sel).structs.flatMap fun r => structDeclaration sel r.id := by
    rw [List.flatMap_map]
    exact List.flatMap_congr fun r _ => structDeclaration_renumber h r.id
  unfold source
  rw [program_renumber h, Program.renumber]
  dsimp only
  rw [hdeclarations, flatMap_map_of_eq (structSteps_renumber h),
    flatMap_map_of_eq (messageSteps_renumber h), h.package]

end Selections

end WireSchema.CppCode
