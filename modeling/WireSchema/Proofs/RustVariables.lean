import WireSchema.Proofs.RustDecoder

/-!
# The variables of a Rust function

A function of generated code has variables for its parameters, for the fields of a struct that is
decoded, and for whatever it has to hold in between. The last have numbers, which go up as the
function is built, and a field never has the name of one of them. What is carried along is `Fits`: the
names made so far are the ones that were given, which are fields, and temporaries with numbers up to
the next one, and none comes twice. So **no function binds a name twice**, however deep vectors and
optional values lie inside each other.
-/

namespace WireSchema.RustCode

open Naming (isRustLocal rustField rustTemporaries)

/-! ## The names that routines bind -/

/-- The names bound inside a statement that writes a value. -/
def Encode.binders : Encode → List String
  | .optional _ v body => v :: body.binders
  | .each _ item body => item :: body.binders
  | _ => []

/-- The names bound inside an expression for a size. -/
def SizeExpr.binders : SizeExpr → List String
  | .add a b => a.binders ++ b.binders
  | .mul a b => a.binders ++ b.binders
  | .ifSome _ yes no => yes.binders ++ no.binders
  | .mapOr _ v body => v :: body.binders
  | .sumOver _ v body => v :: body.binders
  | .paren e => e.binders
  | _ => []

/-- The names bound to obtain a value. -/
def Decode.binders : Decode → List String
  | .read _ => []
  | .optional name inner => name :: inner.binders
  | .collect name len item => name :: len :: item.binders

/-- The names bound to obtain a value under a name, if one is given. An expression binds nothing
itself. -/
def Decode.bindersAs (given : Option String) : Decode → List String
  | .read _ => given.toList
  | d => d.binders

/-- The names bound by a step, also inside of blocks. -/
def DecodeStep.binders : DecodeStep → List String
  | .value name d => d.bindersAs (some name)
  | .run block _ fields => block :: fields.map (·.name)

/-- The names in each function of a struct: its parameters and what is bound inside. -/
def StructRoutines.functions (r : StructRoutines) : List (List String) :=
  [(r.size.getD []).flatMap SizeExpr.binders,
    "bb" :: r.encode.flatMap Encode.binders,
    "bb" :: r.decode.flatMap DecodeStep.binders]

/-- The names in each function of a message. -/
def MessageRoutines.functions (r : MessageRoutines) : List (List String) :=
  [[messageVariable, "buffer", "bb"] ++ (r.capacity.binders ++ r.encode.binders),
    ["data", "buffer", "bb"] ++ r.decode.bindersAs (some messageVariable)]

/-- The names in each function of a file. -/
def Program.functions (p : Program) : List (List String) :=
  p.structs.flatMap StructRoutines.functions ++ p.messages.flatMap MessageRoutines.functions

/-! ## Names that fit together -/

/-- Names of which none comes twice: some that were given, and temporaries of numbers in a range. -/
structure Fits (given : List String) (low high : Nat) (names : List String) : Prop where
  le : low ≤ high
  own : ∀ name ∈ given, isRustLocal name = false
  nodup : names.Nodup
  new : ∀ name ∈ names, name ∈ given ∨ IsTemporary low high name

theorem IsTemporary.mono {low high low' high' : Nat} {name : String} (h : IsTemporary low high name)
    (hlow : low' ≤ low) (hhigh : high ≤ high') : IsTemporary low' high' name := by
  obtain ⟨stem, hstem, k, hk, hk', rfl⟩ := h
  exact ⟨stem, hstem, k, by omega, by omega, rfl⟩

/-- Temporaries of different ranges are different. -/
theorem IsTemporary.apart {low mid high : Nat} {name : String} (h : IsTemporary low mid name)
    (h' : IsTemporary mid high name) : False := by
  obtain ⟨stem, hstem, k, _, hk, rfl⟩ := h
  obtain ⟨stem', hstem', k', hk', _, heq⟩ := h'
  have := temporary_inj (numberOf_of_mem hstem) (numberOf_of_mem hstem') heq
  omega

namespace Fits

variable {given given' names names' : List String} {low mid high : Nat}

theorem nil (low : Nat) : Fits [] low low [] :=
  ⟨Nat.le_refl _, List.forall_mem_nil _, List.nodup_nil, List.forall_mem_nil _⟩

/-- A new temporary. -/
theorem temporary {stem : String} (hstem : stem ∈ rustTemporaries) (low : Nat) :
    Fits [] low (low + 1) [WireSchema.temporary stem low] := by
  refine ⟨Nat.le_succ _, List.forall_mem_nil _, List.nodup_singleton _, ?_⟩
  exact List.forall_mem_singleton.mpr
    (.inr ⟨stem, hstem, low, Nat.le_refl _, Nat.lt_succ_self _, rfl⟩)

/-- Names that were given, by themselves. -/
theorem ofGiven (hown : ∀ name ∈ names, isRustLocal name = false) (hn : names.Nodup) (low : Nat) :
    Fits names low low names :=
  ⟨Nat.le_refl _, hown, hn, fun _ hname => .inl hname⟩

/-- **What is made later fits what was made before.** -/
theorem append (h : Fits given low mid names) (h' : Fits given' mid high names')
    (hn : (given ++ given').Nodup) : Fits (given ++ given') low high (names ++ names') := by
  refine ⟨Nat.le_trans h.le h'.le, List.forall_mem_append.mpr ⟨h.own, h'.own⟩,
    List.nodup_append.mpr ⟨h.nodup, h'.nodup, ?_⟩, List.forall_mem_append.mpr ⟨?_, ?_⟩⟩
  · intro name hname other hother heq
    subst heq
    rcases h.new name hname with hgiven | htemporary
    · rcases h'.new name hother with hgiven' | htemporary'
      · exact (List.nodup_append.mp hn).2.2 name hgiven name hgiven' rfl
      · exact not_isTemporary_of_own (h.own name hgiven) htemporary'
    · rcases h'.new name hother with hgiven' | htemporary'
      · exact not_isTemporary_of_own (h'.own name hgiven') htemporary
      · exact htemporary.apart htemporary'
  · intro name hname
    rcases h.new name hname with hgiven | htemporary
    · exact .inl (List.mem_append_left _ hgiven)
    · exact .inr (htemporary.mono (Nat.le_refl _) h'.le)
  · intro name hname
    rcases h'.new name hname with hgiven | htemporary
    · exact .inl (List.mem_append_right _ hgiven)
    · exact .inr (htemporary.mono h.le (Nat.le_refl _))

/-- The names that every function has are none of these. -/
theorem nodup_locals (h : Fits given low high names) (locals : List String) (hlocals : locals.Nodup)
    (hnumber : ∀ name ∈ locals, numberOf name = []) (hapart : ∀ name ∈ locals, name ∉ given) :
    (locals ++ names).Nodup := by
  refine List.nodup_append.mpr ⟨hlocals, h.nodup, fun name hname other hother heq => ?_⟩
  subst heq
  rcases h.new name hother with hgiven | ⟨stem, hstem, k, _, _, htemporary⟩
  · exact hapart name hname hgiven
  · exact temporary_ne (numberOf_of_mem hstem) (hnumber name hname) k htemporary.symm

end Fits

/-- Making things one after the other. -/
theorem fits_mapM {α β : Type} {g : α → Fresh β} {names : β → List String}
    {given : α → List String} {xs : List α}
    (hall : ∀ x ∈ xs, ∀ low, Fits (given x) low ((g x).run low).2 (names ((g x).run low).1))
    (hn : (xs.flatMap given).Nodup) (low : Nat) :
    Fits (xs.flatMap given) low ((xs.mapM g).run low).2
      (((xs.mapM g).run low).1.flatMap names) := by
  induction xs generalizing low with
  | nil => exact .nil low
  | cons x xs ih =>
    rw [Fresh.run_mapM_cons, List.flatMap_cons, List.flatMap_cons]
    rw [List.flatMap_cons] at hn
    have hrest := ih (fun x' hx' => hall x' (List.mem_cons_of_mem _ hx'))
      (List.nodup_append.mp hn).2.1 ((g x).run low).2
    exact (hall x List.mem_cons_self low).append hrest hn

theorem fits_mapM_temporaries {α β : Type} {g : α → Fresh β} {names : β → List String} {xs : List α}
    (hall : ∀ x ∈ xs, ∀ low, Fits [] low ((g x).run low).2 (names ((g x).run low).1)) (low : Nat) :
    Fits [] low ((xs.mapM g).run low).2 (((xs.mapM g).run low).1.flatMap names) := by
  have hnil : xs.flatMap (fun _ => ([] : List String)) = [] :=
    List.flatMap_eq_nil_iff.mpr fun _ _ => rfl
  have hn : (xs.flatMap fun _ => ([] : List String)).Nodup := by
    rw [hnil]
    exact List.nodup_nil
  have hfits := fits_mapM hall hn low
  rwa [hnil] at hfits

/-! ## Routines -/

theorem fits_encodeOptional {body : Place → Fresh Encode}
    (hbody : ∀ p low, Fits [] low ((body p).run low).2 ((body p).run low).1.binders) (o : Bool)
    (p : Place) (low : Nat) :
    Fits [] low ((encodeOptional o p body).run low).2
      ((encodeOptional o p body).run low).1.binders := by
  cases o with
  | false => exact hbody p low
  | true =>
    exact (Fits.temporary (by decide) low).append (hbody (.ref (temporary "v" low)) (low + 1))
      List.nodup_nil

/-- **The variables in a statement that writes a value.** -/
theorem fits_encode (bulkArrays : Bool) (t : Ty) (p : Place) (low : Nat) :
    Fits [] low ((encode bulkArrays t p).run low).2 ((encode bulkArrays t p).run low).1.binders := by
  induction t generalizing p low with
  | primitive prim o =>
    refine fits_encodeOptional (fun p low => ?_) o p low
    cases prim <;> exact .nil low
  | struct id o =>
    refine fits_encodeOptional (fun p low => ?_) o p low
    exact .nil low
  | array e o ih =>
    refine fits_encodeOptional (fun p low => ?_) o p low
    split
    · exact .nil low
    · exact (Fits.temporary (by decide) low).append (ih (.ref (temporary "item" low)) (low + 1))
        List.nodup_nil

theorem fits_sizeOptional {body : Place → Fresh SizeExpr} {inner : Layout}
    (hbody : ∀ p low, Fits [] low ((body p).run low).2 ((body p).run low).1.binders) (o : Bool)
    (p : Place) (low : Nat) :
    Fits [] low ((sizeOptional o inner p body).run low).2
      ((sizeOptional o inner p body).run low).1.binders := by
  unfold sizeOptional
  split
  · exact .nil low
  · exact hbody p low
  · exact .nil low
  · exact (Fits.temporary (by decide) low).append (hbody (.ref (temporary "v" low)) (low + 1))
      List.nodup_nil

/-- **The variables in an expression for a size.** -/
theorem fits_size (layoutOf : Ty → Layout) (t : Ty) (p : Place) (low : Nat) :
    Fits [] low ((size layoutOf t p).run low).2 ((size layoutOf t p).run low).1.binders := by
  induction t generalizing p low with
  | primitive prim o =>
    refine fits_sizeOptional (fun p low => ?_) o p low
    exact .nil low
  | struct id o =>
    refine fits_sizeOptional (fun p low => ?_) o p low
    exact .nil low
  | array e o ih =>
    refine fits_sizeOptional (fun p low => ?_) o p low
    split
    · exact .nil low
    · exact (Fits.temporary (by decide) low).append (ih (.ref (temporary "v" low)) (low + 1))
        List.nodup_nil

theorem SizeExpr.binders_asTerm (e : SizeExpr) : e.asTerm.binders = e.binders := by
  cases e <;> rfl

/-- The constant in front and the brackets bind nothing. -/
theorem binders_structSize (layoutOf : Ty → Layout) (fields : List Field) :
    (structSize layoutOf fields).build.flatMap SizeExpr.binders
      = ((((fields.partition fun f => (layoutOf f.ty).isFixed).2.mapM fun f =>
        size layoutOf f.ty (.field (rustField f.name))).run 0).1).flatMap SizeExpr.binders := by
  have hconstant : ∀ (b : Bool) (n : Nat) (terms : List SizeExpr),
      (if b = true then .literal n :: terms else terms).flatMap SizeExpr.binders
        = terms.flatMap SizeExpr.binders := by
    intro b n terms
    cases b <;> rfl
  have hbrackets : ∀ (several : Prop) [Decidable several] (terms : List SizeExpr),
      (if several then terms.map SizeExpr.asTerm else terms).flatMap SizeExpr.binders
        = terms.flatMap SizeExpr.binders := by
    intro several _ terms
    split
    · rw [List.flatMap_map]
      exact List.flatMap_congr fun e _ => e.binders_asTerm
    · rfl
  unfold structSize Fresh.build
  simp only [StateT.run_bind]
  exact (hbrackets _ _).trans (hconstant _ _ _)

/-- The name that statements bind, given or new. -/
theorem fits_nameOr {stem : String} (hstem : stem ∈ rustTemporaries) {given : Option String}
    (hown : IsOwn given) {low next : Nat} {name : String}
    (h : (nameOr stem given).run low = (name, next)) : Fits given.toList low next [name] := by
  cases given with
  | some name' =>
    cases h
    exact .ofGiven (List.forall_mem_singleton.mpr (hown name rfl)) (List.nodup_singleton _) low
  | none =>
    cases h
    exact .temporary hstem low

/-- What is inside has temporaries only. -/
theorem Fits.inside {given : Option String} {low mid high : Nat} {names names' : List String}
    (h : Fits given.toList low mid names) (h' : Fits [] mid high names') :
    Fits given.toList low high (names ++ names') := by
  have hn : (given.toList ++ []).Nodup := by cases given <;> simp
  have hfits := h.append h' hn
  rwa [List.append_nil] at hfits

theorem Decode.bindersAs_none (d : Decode) : d.bindersAs none = d.binders := by
  cases d <;> rfl

theorem fits_decodeOptional {body : Option String → Fresh Decode}
    (hbody : ∀ given low, IsOwn given → Fits given.toList low ((body given).run low).2
      (((body given).run low).1.bindersAs given)) (o : Bool) (given : Option String) (low : Nat)
    (hown : IsOwn given) :
    Fits given.toList low ((decodeOptional o given body).run low).2
      (((decodeOptional o given body).run low).1.bindersAs given) := by
  cases o with
  | false => exact hbody given low hown
  | true =>
    obtain ⟨name, next, hnext, _, _⟩ := run_nameOr "v" given low
    have hinner := hbody none next isOwn_none
    rw [Decode.bindersAs_none] at hinner
    rw [run_decodeOptional hnext]
    exact (fits_nameOr (by decide) hown hnext).inside hinner

/-- **The variables in statements that obtain a value.** -/
theorem fits_decode (bulkArrays : Bool) (t : Ty) (given : Option String) (low : Nat)
    (hown : IsOwn given) :
    Fits given.toList low ((decode bulkArrays t given).run low).2
      (((decode bulkArrays t given).run low).1.bindersAs given) := by
  have hread : ∀ (e : ReadExpr) (given : Option String) (low : Nat), IsOwn given →
      Fits given.toList low low (Decode.bindersAs given (.read e)) := by
    intro e given low hown
    cases given with
    | some name =>
      exact .ofGiven (List.forall_mem_singleton.mpr (hown name rfl)) (List.nodup_singleton _) low
    | none => exact .nil low
  induction t generalizing given low with
  | primitive prim o =>
    refine fits_decodeOptional (fun given low hown => ?_) o given low hown
    exact hread _ given low hown
  | struct id o =>
    refine fits_decodeOptional (fun given low hown => ?_) o given low hown
    exact hread _ given low hown
  | array e o ih =>
    refine fits_decodeOptional (fun given low hown => ?_) o given low hown
    split
    · exact hread _ given low hown
    · obtain ⟨name, next, hnext, _, _⟩ := run_nameOr "items" given low
      have hitem := ih none (next + 1) isOwn_none
      rw [Decode.bindersAs_none] at hitem
      have hlen : Fits [] next (next + 1) [temporary "len" next] := .temporary (by decide) next
      rw [run_collect hnext]
      exact (fits_nameOr (by decide) hown hnext).inside (hlen.append hitem List.nodup_nil)

theorem names_runFields {fields : List Field} (h : ∀ f ∈ fields, f.IsFixed) (offset : Nat) :
    (runFields offset fields).map (·.name) = fieldNames fields := by
  induction fields generalizing offset with
  | nil => rfl
  | cons f rest ih =>
    obtain ⟨p, hty, hwidth⟩ := (h f List.mem_cons_self).exists_primitive
    rw [runFields_cons hty hwidth, List.map_cons, ih fun f' hf' => h f' (List.mem_cons_of_mem _ hf')]
    rfl

theorem own_fieldNames (fields : List Field) :
    ∀ name ∈ fieldNames fields, isRustLocal name = false :=
  List.forall_mem_map.mpr fun f _ => isRustLocal_rustField f.name

/-- **The variables of a step that decodes fields**: the fields themselves, and temporaries. -/
theorem fits_decodeSegment (bulkArrays : Bool) {segment : Segment}
    (hfixed : ∀ run, segment = .run run → ∀ f ∈ run, f.IsFixed)
    (hn : (fieldNames segment.fields).Nodup) (low : Nat) :
    Fits (fieldNames segment.fields) low ((decodeSegment bulkArrays segment).run low).2
      ((decodeSegment bulkArrays segment).run low).1.binders := by
  cases segment with
  | single f =>
    refine fits_decode bulkArrays f.ty (some (rustField f.name)) low fun name hname => ?_
    rw [← Option.some.inj hname]
    exact isRustLocal_rustField f.name
  | run fields =>
    have hblock : Fits [] low (low + 1) [temporary "run" low] := .temporary (by decide) low
    have hstep : ((decodeSegment bulkArrays (.run fields)).run low).1.binders
        = temporary "run" low :: fieldNames fields :=
      congrArg (temporary "run" low :: ·) (names_runFields (hfixed fields rfl) 0)
    rw [hstep]
    exact hblock.append (.ofGiven (own_fieldNames fields) hn (low + 1)) hn

variable {sel : Selection}

/-- The variables of the routine that decodes a struct. -/
theorem fits_decodeFrom {id : Nat} (hn : (fieldNames (sel.schema.fieldsOf id)).Nodup) :
    ∃ high, Fits (fieldNames (sel.schema.fieldsOf id)) 0 high
      ((structRoutines sel id).decode.flatMap DecodeStep.binders) := by
  have hfields : (sel.schema.segments id).flatMap (fun segment => fieldNames segment.fields)
      = fieldNames (sel.schema.fieldsOf id) := by
    rw [← sel.schema.flatMap_fields_segments id]
    exact List.map_flatMap.symm
  have hsegment : ∀ segment ∈ sel.schema.segments id, (fieldNames segment.fields).Nodup := by
    intro segment hsegment
    rw [← hfields] at hn
    exact (List.nodup_flatMap.mp hn).1 segment hsegment
  have hfits := fits_mapM (fun segment hmem low => fits_decodeSegment sel.options.bulkArrays
    (fun run hrun => sel.schema.fixed_of_mem_segments (hrun ▸ hmem)) (hsegment segment hmem) low)
    (hfields ▸ hn) 0
  rw [hfields] at hfits
  exact ⟨_, hfits⟩

/-- **No function of a struct binds a name twice.** -/
theorem nodup_structFunctions {id : Nat} (hn : (fieldNames (sel.schema.fieldsOf id)).Nodup) :
    ∀ names ∈ (structRoutines sel id).functions, names.Nodup := by
  have hnumber : ∀ name ∈ ["bb"], numberOf name = [] := by decide
  have hsize : (((structRoutines sel id).size.getD []).flatMap SizeExpr.binders).Nodup := by
    unfold structRoutines
    dsimp only
    split
    · exact List.nodup_nil
    · rw [Option.getD_some, binders_structSize]
      exact (fits_mapM_temporaries (fun f _ low => fits_size sel.layoutOf f.ty _ low) 0).nodup
  have hencode : Fits [] 0 _ ((structRoutines sel id).encode.flatMap Encode.binders) :=
    fits_mapM_temporaries (fun f _ low => fits_encode sel.options.bulkArrays f.ty _ low) 0
  obtain ⟨high, hdecode⟩ := fits_decodeFrom hn
  have hbuffer : ∀ name ∈ ["bb"], name ∉ fieldNames (sel.schema.fieldsOf id) := by
    intro name hname hfield
    have hlocal := own_fieldNames _ name hfield
    rw [List.mem_singleton.mp hname] at hlocal
    exact absurd hlocal (by decide)
  refine List.forall_mem_cons.mpr ⟨hsize, List.forall_mem_cons.mpr
    ⟨?_, List.forall_mem_singleton.mpr ?_⟩⟩
  · exact hencode.nodup_locals ["bb"] (List.nodup_singleton _) hnumber (by simp)
  · exact hdecode.nodup_locals ["bb"] (List.nodup_singleton _) hnumber hbuffer

/-- **No function of a message binds a name twice.** -/
theorem nodup_messageFunctions (m : Message) :
    ∀ names ∈ (messageRoutines sel m).functions, names.Nodup := by
  have hcapacity := fits_size sel.layoutOf m.ty (.ref messageVariable) 0
  have hbody := fits_encode sel.options.bulkArrays m.ty (.ref messageVariable)
    ((size sel.layoutOf m.ty (.ref messageVariable)).run 0).2
  have hown : IsOwn (some messageVariable) := by
    intro name hname
    rw [← Option.some.inj hname]
    decide
  have hdecode := fits_decode sel.options.bulkArrays m.ty (some messageVariable) 0 hown
  refine List.forall_mem_cons.mpr ⟨?_, List.forall_mem_singleton.mpr ?_⟩
  · exact (hcapacity.append hbody List.nodup_nil).nodup_locals [messageVariable, "buffer", "bb"]
      (by decide) (by decide) (by simp)
  · exact hdecode.nodup_locals ["data", "buffer", "bb"] (by decide) (by decide) (by decide)

end WireSchema.RustCode
