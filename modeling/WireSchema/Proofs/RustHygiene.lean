import WireSchema.Proofs.RustVariables
import WireSchema.Proofs.TypeNames

/-!
# Names in generated Rust code

A name in generated code means what it should if nothing else has it where it is used. For types and
functions, which live in one module, this is a matter of the whole file; for variables it is a matter
of the function they are in, where no name is bound twice.

A variable is hidden by a later one of its name and by nothing else: running a step puts the bindings
of the step in front of those that are there, and `Gains` says which. So where the routine that
decodes a struct ends, the name of a field stands for what the step of the field bound it to. There is
one exception, **a field called `_`**: the name stays as it is, and the language has no such variable.
-/

namespace WireSchema.RustCode

open Naming (AreKeywords areKeywords_rust escape getLast?_append_underscore isLegal_rustField
  isRustLocal rustField rustField_underscore rustKeywords rustLocals rustTemporaries snake)
open Wire

/-! ## What a name stands for -/

/-- The names that are left in scope where a value was obtained, latest first. -/
def Decode.bound : Decode → List String
  | .read _ => []
  | .optional name _ => [name]
  | .collect name len _ => [name, len]

/-- The names that a step leaves in scope, latest first. -/
def DecodeStep.bound : DecodeStep → List String
  | .value name (.read _) => [name]
  | .value _ d => d.bound
  | .run block _ fields => (fields.map (·.name)).reverse ++ [block]

theorem DecodeStep.bound_subset (step : DecodeStep) : step.bound ⊆ step.binders := by
  cases step with
  | value name d =>
    cases d with
    | read e => exact List.Subset.refl _
    | optional name inner => simp [bound, Decode.bound, binders, Decode.bindersAs, Decode.binders]
    | collect name len item =>
      simp [bound, Decode.bound, binders, Decode.bindersAs, Decode.binders]
  | run block size fields =>
    intro name hname
    rcases List.mem_append.mp hname with hfield | hblock
    · exact List.mem_cons_of_mem _ (List.mem_reverse.mp hfield)
    · exact List.mem_singleton.mp hblock ▸ List.mem_cons_self

namespace Scope

/-- `inner` is `outer` behind new bindings of these names. -/
def Gains (names : List String) (outer inner : Scope) : Prop :=
  ∃ added : Scope, inner = added ++ outer ∧ added.map Prod.fst = names

namespace Gains

variable {names names' : List String} {outer inner innermost : Scope}

theorem refl (scope : Scope) : Gains [] scope scope :=
  ⟨[], rfl, rfl⟩

theorem trans (h : Gains names outer inner) (h' : Gains names' inner innermost) :
    Gains (names' ++ names) outer innermost := by
  obtain ⟨added, rfl, rfl⟩ := h
  obtain ⟨added', rfl, rfl⟩ := h'
  exact ⟨added' ++ added, (List.append_assoc _ _ _).symm, List.map_append⟩

theorem cons (h : Gains names outer inner) (name : String) (cell : Cell) :
    Gains (name :: names) outer ((name, cell) :: inner) :=
  h.trans ⟨[(name, cell)], rfl, rfl⟩

theorem adds (h : Gains names outer inner) : Adds (· ∈ names) outer inner := by
  obtain ⟨added, rfl, rfl⟩ := h
  exact ⟨added, rfl, fun binding hb => List.mem_map_of_mem hb⟩

/-- Pushing to a vector that is new changes nothing behind it. -/
theorem push {name : String} {v : Value} {pushed : Scope} (h : Gains names outer inner)
    (hname : name ∈ names) (hpush : inner.push name v = some pushed) : Gains names outer pushed := by
  obtain ⟨added, rfl, rfl⟩ := h
  induction added generalizing pushed with
  | nil => exact nomatch hname
  | cons binding added ih =>
    obtain ⟨n, cell⟩ := binding
    rw [List.cons_append] at hpush
    by_cases hn : n = name
    · unfold Scope.push at hpush
      rw [if_pos hn] at hpush
      split at hpush
      · rw [← Option.some.inj hpush]
        exact ⟨_ :: added, rfl, rfl⟩
      · exact nomatch hpush
    · unfold Scope.push at hpush
      rw [if_neg hn] at hpush
      obtain ⟨rest, hrest, rfl⟩ := Option.map_eq_some_iff.mp hpush
      have hmem : name ∈ added.map Prod.fst :=
        (List.mem_cons.mp hname).resolve_left fun h => hn h.symm
      exact (ih hrest hmem).cons n cell

/-- A block takes its own bindings with it and leaves the others. -/
theorem leave (h : Gains names outer inner) (h' : Gains (names' ++ names) outer innermost) :
    Gains names outer (inner.leave innermost) := by
  obtain ⟨added, rfl, rfl⟩ := h
  obtain ⟨added', rfl, hnames⟩ := h'
  have hlen : added'.length = names'.length + added.length := by
    have := congrArg List.length hnames
    rwa [List.length_map, List.length_append, List.length_map] at this
  have hdrop : (added' ++ outer).length - (added ++ outer).length = names'.length := by
    rw [List.length_append, List.length_append]
    omega
  refine ⟨added'.drop names'.length, ?_, ?_⟩
  · rw [Scope.leave, hdrop, List.drop_append_of_le_length (by omega)]
  · rw [List.map_drop, hnames, List.drop_left]

/-- The last binding of a name is among the new ones, if there is one. -/
theorem lookup {name : String} (h : Gains names outer inner) (hname : name ∈ names) :
    ∃ added cell, inner = added ++ outer ∧ added.lookup name = some cell ∧
      inner.lookup name = some cell := by
  obtain ⟨added, rfl, rfl⟩ := h
  induction added with
  | nil => exact nomatch hname
  | cons binding added ih =>
    obtain ⟨n, cell⟩ := binding
    by_cases hn : name = n
    · subst hn
      exact ⟨_ :: added, cell, rfl, List.lookup_cons_self, List.lookup_cons_self⟩
    · obtain ⟨added', cell', heq, hfound, hlookup⟩ := ih ((List.mem_cons.mp hname).resolve_left hn)
      refine ⟨(n, cell) :: added', cell', congrArg ((n, cell) :: ·) heq, ?_, ?_⟩
      · rw [List.lookup_cons_of_ne hn, hfound]
      · rw [List.cons_append, List.lookup_cons_of_ne hn, hlookup]

end Gains

end Scope

/-- A routine that comes to its end has come to the end of each of its parts. -/
theorem Run.bind_eq_ok {α β : Type} {m : Run α} {f : α → Run β} {b : β} {r r' : Reader}
    (h : (m >>= f) r = .ok b r') : ∃ a mid, m r = .ok a mid ∧ f a mid = .ok b r' := by
  change EStateM.bind m f r = _ at h
  unfold EStateM.bind at h
  split at h
  · exact ⟨_, _, by assumption, h⟩
  · exact nomatch h

theorem Run.ofOption_eq_ok {α : Type} {o : Option α} {a : α} {r r' : Reader}
    (h : Run.ofOption o r = .ok a r') : o = some a := by
  cases o with
  | none => exact nomatch h
  | some a' =>
    cases h
    rfl

/-- What every round preserves holds at the end of a loop. -/
theorem Run.iterate_induction {α : Type} {body : α → Run α} {P : α → Prop}
    (hbody : ∀ {a a' : α} {r r' : Reader}, P a → body a r = .ok a' r' → P a') {n : Nat} {a a' : α}
    {r r' : Reader} (ha : P a) (h : Run.iterate body n a r = .ok a' r') : P a' := by
  induction n generalizing a r with
  | zero =>
    cases h
    exact ha
  | succ n ih =>
    obtain ⟨next, mid, hnext, h⟩ := Run.bind_eq_ok h
    exact ih (hbody ha hnext) h

variable {sel : Selection} {call : Nat → Run Value}

/-- **Obtaining a value leaves its own names in scope, and changes nothing behind them.** -/
theorem Decode.gains_prepare {d : Decode} {scope scope' : Scope} {r r' : Reader}
    (h : d.prepare call scope r = .ok scope' r') : Scope.Gains d.bound scope scope' := by
  induction d generalizing scope scope' r r' with
  | read e =>
    cases h
    exact .refl scope
  | optional name inner ih =>
    obtain ⟨present, mid, _, h⟩ := Run.bind_eq_ok h
    cases present with
    | false =>
      cases h
      exact (Scope.Gains.refl scope).cons name _
    | true =>
      obtain ⟨inside, mid', hinside, h⟩ := Run.bind_eq_ok h
      obtain ⟨v, mid'', _, h⟩ := Run.bind_eq_ok h
      cases h
      rw [(ih hinside).adds.leave_eq]
      exact (Scope.Gains.refl scope).cons name _
  | collect name len item ih =>
    obtain ⟨n, mid, _, h⟩ := Run.bind_eq_ok h
    obtain ⟨_, _, _, h⟩ := Run.bind_eq_ok h
    obtain ⟨_, _, _, h⟩ := Run.bind_eq_ok h
    obtain ⟨_, _, _, h⟩ := Run.bind_eq_ok h
    -- the vector stays in front of its length, whatever is pushed to it
    refine Run.iterate_induction (P := Scope.Gains [name, len] scope) ?_ ?_ h
    · intro round next r r' hround hnext
      obtain ⟨inside, _, hinside, hnext⟩ := Run.bind_eq_ok hnext
      obtain ⟨v, _, _, hnext⟩ := Run.bind_eq_ok hnext
      obtain ⟨pushed, _, hpushed, hnext⟩ := Run.bind_eq_ok hnext
      cases hnext
      have hmem : name ∈ item.bound ++ [name, len] :=
        List.mem_append_right _ List.mem_cons_self
      exact hround.leave
        ((hround.trans (ih hinside)).push hmem (Run.ofOption_eq_ok hpushed))
    · exact ((Scope.Gains.refl scope).cons len _).cons name _

/-- The fields of a block come into scope one after the other. -/
theorem gains_runFields {block : String} {fields : List RunField} {scope scope' : Scope}
    {r r' : Reader} (h : fields.foldlM (RunField.bind block) scope r = .ok scope' r') :
    Scope.Gains (fields.map (·.name)).reverse scope scope' := by
  induction fields generalizing scope r with
  | nil =>
    cases h
    exact .refl _
  | cons f rest ih =>
    rw [List.foldlM_cons] at h
    obtain ⟨next, mid, hnext, h⟩ := Run.bind_eq_ok h
    obtain ⟨bytes, _, _, hnext⟩ := Run.bind_eq_ok hnext
    obtain ⟨v, _, _, hnext⟩ := Run.bind_eq_ok hnext
    cases hnext
    rw [List.map_cons, List.reverse_cons]
    exact ((Scope.Gains.refl scope).cons f.name _).trans (ih h)

/-- **What a step does to the names in scope.** -/
theorem DecodeStep.gains_exec {step : DecodeStep} {scope scope' : Scope} {r r' : Reader}
    (h : step.exec call scope r = .ok scope' r') : Scope.Gains step.bound scope scope' := by
  cases step with
  | value name d =>
    cases d with
    | read e =>
      obtain ⟨v, _, _, h⟩ := Run.bind_eq_ok h
      cases h
      exact (Scope.Gains.refl scope).cons name _
    | optional name' inner => exact Decode.gains_prepare h
    | collect name' len item => exact Decode.gains_prepare h
  | run block size fields =>
    obtain ⟨bytes, _, _, h⟩ := Run.bind_eq_ok h
    exact ((Scope.Gains.refl scope).cons block _).trans (gains_runFields h)

/-- **What steps do to the names in scope**, one after the other. -/
theorem adds_steps {steps : List DecodeStep} {scope scope' : Scope} {r r' : Reader}
    (h : steps.foldlM (DecodeStep.exec call) scope r = .ok scope' r') :
    Scope.Adds (· ∈ steps.flatMap DecodeStep.bound) scope scope' := by
  induction steps generalizing scope r with
  | nil =>
    cases h
    exact .refl _
  | cons step rest ih =>
    rw [List.foldlM_cons] at h
    obtain ⟨next, mid, hnext, h⟩ := Run.bind_eq_ok h
    rw [List.flatMap_cons]
    exact ((DecodeStep.gains_exec hnext).adds.mono fun _ => List.mem_append_left _).trans
      ((ih h).mono fun _ => List.mem_append_right _)

/-! ## The fields at the end of a routine -/

/-- Each of the things made one after the other is made from a number on. -/
theorem exists_run_of_mem {α β : Type} {g : α → Fresh β} {xs : List α} {x : α} (hx : x ∈ xs)
    (low : Nat) : ∃ before after next,
      ((xs.mapM g).run low).1 = before ++ ((g x).run next).1 :: after := by
  induction xs generalizing low with
  | nil => exact nomatch hx
  | cons y ys ih =>
    rw [Fresh.run_mapM_cons]
    rcases List.mem_cons.mp hx with rfl | hx
    · exact ⟨[], _, low, rfl⟩
    · obtain ⟨before, after, next, h⟩ := ih hx ((g y).run low).2
      exact ⟨_ :: before, after, next, congrArg (_ :: ·) h⟩

/-- A name that is given is the one that is bound. -/
theorem mem_bound_decode (bulkArrays : Bool) (t : Ty) (name : String) (low : Nat) :
    name ∈ (DecodeStep.value name ((decode bulkArrays t (some name)).run low).1).bound := by
  cases t with
  | primitive prim o => cases o <;> exact List.mem_cons_self
  | struct id o => cases o <;> exact List.mem_cons_self
  | array e o =>
    cases o with
    | true => exact List.mem_cons_self
    | false =>
      rw [decode, decodeOptional, if_neg Bool.false_ne_true]
      split <;> exact List.mem_cons_self

theorem mem_bound_decodeSegment (bulkArrays : Bool) {segment : Segment}
    (hfixed : ∀ run, segment = .run run → ∀ f ∈ run, f.IsFixed) {f : Field}
    (hf : f ∈ segment.fields) (low : Nat) :
    rustField f.name ∈ ((decodeSegment bulkArrays segment).run low).1.bound := by
  cases segment with
  | single g =>
    obtain rfl := List.mem_singleton.mp hf
    exact mem_bound_decode bulkArrays f.ty (rustField f.name) low
  | run fields =>
    refine List.mem_append_left _ (List.mem_reverse.mpr ?_)
    rw [names_runFields (hfixed fields rfl)]
    exact List.mem_map_of_mem hf

/-- A name that a value can be bound to. In the place of a variable, `_` is a pattern that drops the
value, and in the place of a value it is nothing at all. -/
def IsVariable (name : String) : Prop :=
  name ≠ "_"

/-- At the end of the routine that decodes a struct, the name of a field stands for what it was bound
to by the step that was made for the field. -/
structure Resolved (sel : Selection) (id : Nat) (f : Field) : Prop where
  isVariable : IsVariable (rustField f.name)
  kept : ∃ segment ∈ sel.schema.segments id, f ∈ segment.fields ∧ ∃ before step after low,
    step = ((decodeSegment sel.options.bulkArrays segment).run low).1 ∧
      (structRoutines sel id).decode = before ++ step :: after ∧
      ∀ (call : Nat → Run Value) (scope inside last : Scope) (r r' r'' : Reader),
        step.exec call scope r = .ok inside r' →
        after.foldlM (DecodeStep.exec call) inside r' = .ok last r'' →
        ∃ added cell, inside = added ++ scope ∧ added.lookup (rustField f.name) = some cell ∧
          last.lookup (rustField f.name) = some cell

theorem resolved_of_mem {id : Nat} (hn : (fieldNames (sel.schema.fieldsOf id)).Nodup) {f : Field}
    (hf : f ∈ sel.schema.fieldsOf id) (hvariable : IsVariable (rustField f.name)) :
    Resolved sel id f := by
  obtain ⟨segment, hsegment, hmem⟩ : ∃ segment ∈ sel.schema.segments id, f ∈ segment.fields := by
    rw [← sel.schema.flatMap_fields_segments id] at hf
    exact List.mem_flatMap.mp hf
  obtain ⟨before, after, low, hdecode⟩ : ∃ before after low, (structRoutines sel id).decode
      = before ++ ((decodeSegment sel.options.bulkArrays segment).run low).1 :: after :=
    exists_run_of_mem hsegment 0
  have hbound := mem_bound_decodeSegment sel.options.bulkArrays
    (fun run hrun => sel.schema.fixed_of_mem_segments (hrun ▸ hsegment)) hmem low
  refine ⟨hvariable, segment, hsegment, hmem, before, _, after, low, rfl, hdecode, ?_⟩
  intro call scope inside last r r' r'' hexec hafter
  obtain ⟨added, cell, hadded, hnew, hlookup⟩ := (DecodeStep.gains_exec hexec).lookup hbound
  -- the steps that follow bind other names
  have hlater : rustField f.name ∉ after.flatMap DecodeStep.bound := by
    intro hmem
    obtain ⟨step, hstep, hname⟩ := List.mem_flatMap.mp hmem
    obtain ⟨high, hfits⟩ := fits_decodeFrom hn
    have hnodup := hfits.nodup
    rw [hdecode, List.flatMap_append, List.flatMap_cons] at hnodup
    have hapart := (List.nodup_append.mp (List.nodup_append.mp hnodup).2.1).2.2
    exact hapart _ (DecodeStep.bound_subset _ hbound) _
      (List.mem_flatMap.mpr ⟨step, hstep, DecodeStep.bound_subset _ hname⟩) rfl
  exact ⟨added, cell, hadded, hnew, ((adds_steps hafter).lookup_eq hlater).trans hlookup⟩

/-! ## All names of a file -/

theorem escape_not_mem {keywords : List String} (hk : AreKeywords keywords) (name : String) :
    escape keywords name ∉ keywords := by
  unfold escape
  split
  · intro hmem
    exact (hk _ hmem).2 (getLast?_append_underscore name)
  · rename_i hname
    exact fun hmem => hname (List.contains_iff_mem.mpr hmem)

theorem rustField_not_keyword (name : String) : rustField name ∉ rustKeywords := by
  unfold rustField
  dsimp only
  split
  · intro hmem
    exact (areKeywords_rust _ hmem).2 (getLast?_append_underscore _)
  · exact escape_not_mem areKeywords_rust _

theorem rustField_not_local (name : String) : rustField name ∉ rustLocals ∧
    ∀ stem ∈ rustTemporaries, ∀ n, rustField name ≠ temporary stem n := by
  have hlocal := isRustLocal_rustField name
  refine ⟨fun hmem => ?_, fun stem hstem n heq => ?_⟩
  · rw [isRustLocal, List.contains_iff_mem.mpr hmem, Bool.true_or] at hlocal
    exact absurd hlocal (by decide)
  · rw [heq, isRustLocal_temporary hstem] at hlocal
    exact absurd hlocal (by decide)

/-- The field `_` is the one that has no variable. -/
theorem isVariable_rustField {name : String} (h : Grammar.isIdentifier name = true) :
    IsVariable (rustField name) ↔ name ≠ "_" := by
  constructor
  · rintro hvariable rfl
    exact hvariable rustField_underscore
  · intro hname
    exact ((isLegal_rustField h).mpr hname).ne_underscore

/-- The names in a Rust file do not get into each other's way. -/
structure Hygienic (sel : Selection) : Prop where
  /-- No type is declared twice. -/
  types : (declaredTypes sel).Nodup
  /-- No type is one that files declare or use themselves. -/
  reserved : ∀ type ∈ declaredTypes sel, type ∉ reservedTypes
  /-- No two messages have the same functions. -/
  functions : (sel.messages.map fun m => snake m.name).Nodup
  /-- No two fields of a struct have the same name. -/
  fields : ∀ id ∈ sel.structs, (structRoutines sel id).fields.Nodup
  keywords : ∀ id ∈ sel.structs, ∀ name ∈ (structRoutines sel id).fields, name ∉ rustKeywords
  /-- No field is called like a variable that routines have for themselves. -/
  locals : ∀ id ∈ sel.structs, ∀ name ∈ (structRoutines sel id).fields,
    name ∉ rustLocals ∧ ∀ stem ∈ rustTemporaries, ∀ n, name ≠ temporary stem n
  /-- No function binds a name twice. -/
  binders : ∀ names ∈ (program sel).functions, names.Nodup
  /-- A struct is put together from what its fields were bound to, except for one called `_`. -/
  resolved : ∀ id ∈ sel.structs, ∀ f ∈ sel.schema.fieldsOf id, Resolved sel id f ↔ f.name ≠ "_"

end RustCode

open RustCode

/--
**The names in generated Rust code are in order**, whatever messages of a compiled schema it is for:
no two types, functions, fields of a struct or variables of a function have the same name, none of
them has one that is taken, and a struct is put together from what its fields were bound to. This last
holds of a field exactly if it is not called `_`.
-/
theorem hygienic_of_compile {text : String} {c : Compiled} (hc : compile text = .ok c)
    {messages : List Message} (hsub : messages ⊆ c.schema.messages) (hn : messages.Nodup)
    (options : Options) : Hygienic (c.select messages options) := by
  have hdeclared := (Compiled.wellFormed_of_compile hc).declared
  have hnamed := Compiled.named_of_compile hc
  have hdistinct := Compiled.distinct_of_compile hc
  obtain ⟨rank, hlawful⟩ := Compiled.lawful_select hc hsub options
  obtain ⟨htypes, hreserved⟩ := nodup_declaredTypes hdeclared
    (fun _ hid => hlawful.struct_lt hdeclared.inRange hid) hsub hnamed hdistinct hn
  refine {
    types := htypes
    reserved := hreserved
    functions := Selection.nodup_functions hdeclared hsub hdistinct hn
    fields := fun id _ => hlawful.rustNames id
    keywords := fun id _ => List.forall_mem_map.mpr fun f _ => rustField_not_keyword f.name
    locals := fun id _ => List.forall_mem_map.mpr fun f _ => rustField_not_local f.name
    binders := ?_
    resolved := ?_ }
  · intro names hnames
    rcases List.mem_append.mp hnames with h | h
    · obtain ⟨r, hr, hmem⟩ := List.mem_flatMap.mp h
      obtain ⟨id, _, rfl⟩ := List.mem_map.mp hr
      exact nodup_structFunctions (hlawful.rustNames id) names hmem
    · obtain ⟨r, hr, hmem⟩ := List.mem_flatMap.mp h
      obtain ⟨m, _, rfl⟩ := List.mem_map.mp hr
      exact nodup_messageFunctions m names hmem
  · intro id _ f hf
    rw [← isVariable_rustField (hnamed.fieldsOf id f hf)]
    exact ⟨Resolved.isVariable, resolved_of_mem (hlawful.rustNames id) hf⟩

/-- All fields are resolved, among them one that is a vector of optional texts. -/
theorem hygienic_of_compile_reading :
    compile readingText = .ok reading ∧ readingSchema.messages.Nodup ∧
      Hygienic (reading.select readingSchema.messages {}) ∧
      ∀ f ∈ readingSchema.fieldsOf 0, Resolved (reading.select readingSchema.messages {}) 0 f := by
  have hn : readingSchema.messages.Nodup := by decide
  have hreached : 0 ∈ readingSchema.reachable [.struct 0 false] := by decide
  have hnames : ∀ f ∈ readingSchema.fieldsOf 0, f.name ≠ "_" := by decide
  have h := hygienic_of_compile compile_readingText (List.Subset.refl readingSchema.messages) hn {}
  exact ⟨compile_readingText, hn, h, fun f hf => (h.resolved 0 hreached f hf).mpr (hnames f hf)⟩

/-- A field without a name. -/
def blankText : String :=
  "package p\n" ++
  "type Point struct \x7b _ int32 \x7d\n"

def blankSchema : Schema where
  package := "p"
  structs := [⟨"Point", ⟨2, 6⟩, [⟨"_", ⟨2, 21⟩, .primitive (.number .int32) false, none⟩]⟩]
  declarations := [⟨"Point", ⟨2, 6⟩, .struct 0 false⟩]
  messages := [⟨"Point", .struct 0 false⟩]

def blank : Compiled where
  schema := blankSchema
  analysis := {
    structs := [⟨true, 4, 4, false, false, 0⟩]
    declarations := [("Point", ⟨true, 4, 4, false, false, 0⟩)]
    messages := [("Point", ⟨true, 4, 4, false, false, 0⟩)] }

theorem compile_blankText : compile blankText = .ok blank := by
  have hparse : Schema.parse blankText = .ok blankSchema := by decide +kernel
  have hanalyze : blankSchema.analyze = .ok blank.analysis := by decide
  exact compile_of_ordered hparse (by decide) (by decide) hanalyze

/-- What is read is dropped, and the struct is put together from nothing. -/
theorem blank_field_not_resolved :
    compile blankText = .ok blank ∧
    ∀ options, let sel := blank.select blankSchema.messages options
      sel.structs = [0] ∧ (structRoutines sel 0).fields = ["_"] ∧
      (structRoutines sel 0).decode = [.value "_" (.read (.scalar .int32))] ∧
      ∀ f ∈ sel.schema.fieldsOf 0, ¬ Resolved sel 0 f := by
  have hstructs : blankSchema.reachable [.struct 0 false] = [0] := by decide
  have hsegments : blankSchema.segments 0
      = [.single ⟨"_", ⟨2, 21⟩, .primitive (.number .int32) false, none⟩] := by
    cbv
  refine ⟨compile_blankText, fun options => ⟨hstructs, ?_, ?_, ?_⟩⟩
  · exact congrArg (· :: []) Naming.rustField_underscore
  · rw [structRoutines, show (blank.select _ options).schema = blankSchema from rfl, hsegments]
    exact congrArg (fun name => [DecodeStep.value name (.read (.scalar .int32))])
      Naming.rustField_underscore
  · refine List.forall_mem_singleton.mpr fun hresolved => ?_
    exact hresolved.isVariable Naming.rustField_underscore

end WireSchema
