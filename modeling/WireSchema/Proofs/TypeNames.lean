import WireSchema.Proofs.LegalNames

/-!
# Names of types and functions

The check of a schema compares what declarations are called in `PascalCase`, before a name that is
taken is changed. That is enough, and for two reasons that have nothing to do with the check: there
is no underscore in a name in `PascalCase`, so putting one behind a keyword gives a name that nothing
else has; and no name that generated code keeps for itself ends with one. So **the types of all
declarations are different and none is reserved**, and the functions of messages are different.

A generated file declares a type for every struct it needs, and one for every message that is not
such a struct. These are types of different declarations: a struct is what its own name is declared
as, so a message of that name is the struct.
-/

namespace WireSchema

open Naming

/-! ## What the check gives -/

namespace Schema

variable {s : Schema}

/-- What a declaration takes: a type, and a function if it is a message. -/
theorem takeDeclaration_eq_ok {taken taken' : Taken × Taken} {d : Declaration}
    (h : s.takeDeclaration taken d = .ok taken') :
    pascal d.name ∉ reservedTypes ∧
      (pascal d.name ∉ taken.1.map Prod.fst ∧
        taken'.1.map Prod.fst = pascal d.name :: taken.1.map Prod.fst) ∧
      (s.isMessageName d.name = true ∧ snake d.name ∉ taken.2.map Prod.fst ∧
          taken'.2.map Prod.fst = snake d.name :: taken.2.map Prod.fst ∨
        s.isMessageName d.name = false ∧ taken'.2 = taken.2) := by
  unfold takeDeclaration at h
  dsimp only at h
  by_cases hreserved : reservedTypes.contains (pascal d.name)
  · rw [if_pos hreserved] at h
    exact absurd h (by simp)
  rw [if_neg hreserved] at h
  obtain ⟨types, htypes, h⟩ := Result.bind_eq_ok.mp h
  by_cases hmessage : s.isMessageName d.name = true
  · rw [if_pos hmessage] at h
    obtain ⟨functions, hfunctions, h⟩ := Result.bind_eq_ok.mp h
    obtain rfl : (types, functions) = taken' := Except.ok.inj h
    exact ⟨mt List.contains_iff_mem.mpr hreserved, Taken.add_eq_ok htypes,
      .inl ⟨hmessage, Taken.add_eq_ok hfunctions⟩⟩
  · rw [if_neg hmessage] at h
    obtain rfl : (types, taken.2) = taken' := Except.ok.inj h
    exact ⟨mt List.contains_iff_mem.mpr hreserved, Taken.add_eq_ok htypes,
      .inr ⟨eq_false_of_ne_true hmessage, rfl⟩⟩

/-- Declarations whose names are different, also from those in use before. -/
theorem nodup_of_takeDeclaration {decls : List Declaration} {taken taken' : Taken × Taken}
    (h : decls.foldlM s.takeDeclaration taken = .ok taken') (htypes : (taken.1.map Prod.fst).Nodup)
    (hfunctions : (taken.2.map Prod.fst).Nodup) :
    ((decls.map fun d => pascal d.name).reverse ++ taken.1.map Prod.fst).Nodup ∧
      (∀ d ∈ decls, pascal d.name ∉ reservedTypes) ∧
      (((decls.filter fun d => s.isMessageName d.name).map fun d => snake d.name).reverse
        ++ taken.2.map Prod.fst).Nodup := by
  induction decls generalizing taken with
  | nil => exact ⟨htypes, List.forall_mem_nil _, hfunctions⟩
  | cons d decls ih =>
    rw [List.foldlM_cons] at h
    obtain ⟨next, hnext, h⟩ := Result.bind_eq_ok.mp h
    obtain ⟨hfree, ⟨hnew, heq⟩, hmessage⟩ := takeDeclaration_eq_ok hnext
    have hnext₁ : (next.1.map Prod.fst).Nodup := heq ▸ List.nodup_cons.mpr ⟨hnew, htypes⟩
    have hnext₂ : (next.2.map Prod.fst).Nodup := by
      rcases hmessage with ⟨_, hnew, heq⟩ | ⟨_, heq⟩
      · exact heq ▸ List.nodup_cons.mpr ⟨hnew, hfunctions⟩
      · exact heq ▸ hfunctions
    obtain ⟨h₁, h₂, h₃⟩ := ih h hnext₁ hnext₂
    rw [heq] at h₁
    refine ⟨by simpa using h₁, List.forall_mem_cons.mpr ⟨hfree, h₂⟩, ?_⟩
    rcases hmessage with ⟨hmessage, _, heq⟩ | ⟨hmessage, heq⟩
    · rw [heq] at h₃
      simpa [hmessage] using h₃
    · rw [heq] at h₃
      simpa [hmessage] using h₃

/-- Declarations become different types, and those of messages different functions. -/
structure Distinct (s : Schema) : Prop where
  types : (s.declarations.map fun d => pascal d.name).Nodup
  reserved : ∀ d ∈ s.declarations, pascal d.name ∉ reservedTypes
  functions : ((s.declarations.filter fun d => s.isMessageName d.name).map
    fun d => snake d.name).Nodup

theorem distinct_of_check (h : s.check = .ok ()) : s.Distinct := by
  obtain ⟨_, _, hdeclarations, _⟩ := check_eq_ok.mp h
  obtain ⟨taken, htaken, _⟩ := Result.map_eq_ok.mp hdeclarations
  obtain ⟨h₁, h₂, h₃⟩ := nodup_of_takeDeclaration htaken List.nodup_nil List.nodup_nil
  rw [List.map_nil, List.append_nil, List.nodup_reverse] at h₁ h₃
  exact ⟨h₁, h₂, h₃⟩

end Schema

theorem Compiled.distinct_of_compile {text : String} {c : Compiled} (h : compile text = .ok c) :
    c.schema.Distinct := by
  obtain ⟨s, _, h⟩ := Result.bind_eq_ok.mp h
  obtain ⟨_, hcheck, h⟩ := Result.bind_eq_ok.mp h
  obtain ⟨a, _, h⟩ := Result.bind_eq_ok.mp h
  injection h with h
  subst h
  -- canonical order leaves declarations and messages alone
  obtain ⟨h₁, h₂, h₃⟩ := Schema.distinct_of_check hcheck
  exact ⟨h₁, h₂, h₃⟩

/-! ## Names that are taken -/

namespace Naming

variable {keywords : List String} {a b : String}

theorem getLast?_append_underscore (name : String) : (name ++ "_").toList.getLast? = some '_' := by
  rw [String.toList_append]
  exact List.getLast?_concat

/-- Putting an underscore behind keywords keeps names apart that have none at their end. -/
theorem escape_inj (ha : a.toList.getLast? ≠ some '_') (hb : b.toList.getLast? ≠ some '_')
    (h : escape keywords a = escape keywords b) : a = b := by
  unfold escape at h
  split at h
  · split at h
    · have hlist := congrArg String.toList h
      rw [String.toList_append, String.toList_append] at hlist
      exact String.toList_injective (List.append_cancel_right hlist)
    · exact absurd (h ▸ getLast?_append_underscore a) hb
  · split at h
    · exact absurd (h ▸ getLast?_append_underscore b) ha
    · exact h

theorem getLast?_pascal {name : String} (h : Grammar.isIdentifier name = true) :
    (pascal name).toList.getLast? ≠ some '_' := by
  intro hlast
  have hall := isAlphanum_of_mem_pascal h _ (List.mem_of_getLast? hlast)
  exact absurd hall (by decide)

theorem rustType_inj (ha : Grammar.isIdentifier a = true) (hb : Grammar.isIdentifier b = true)
    (h : rustType a = rustType b) : pascal a = pascal b :=
  escape_inj (getLast?_pascal ha) (getLast?_pascal hb) h

theorem rustType_not_reserved {name : String} (h : pascal name ∉ reservedTypes) :
    rustType name ∉ reservedTypes := by
  have hall : ∀ type ∈ reservedTypes, type.toList.getLast? ≠ some '_' := by decide +kernel
  unfold rustType escapeRust escape
  split
  · exact fun hmem => hall _ hmem (getLast?_append_underscore _)
  · exact h

end Naming

/-! ## What a file declares -/

/-- The schema names of the types that a file declares: those of structs, and those of messages that
are something else. -/
def Selection.declaredNames (sel : Selection) : List String :=
  sel.structs.map sel.schema.structName
    ++ (sel.messages.filter fun m => !sel.isNamedStruct m).map (·.name)

/-- The types that a Rust file declares. -/
def RustCode.declaredTypes (sel : Selection) : List String :=
  sel.structs.map (structType sel)
    ++ (sel.messages.filter fun m => !sel.isNamedStruct m).map fun m => rustType m.name

theorem RustCode.declaredTypes_eq (sel : Selection) :
    declaredTypes sel = sel.declaredNames.map rustType := by
  rw [declaredTypes, Selection.declaredNames, List.map_append, List.map_map, List.map_map]
  rfl

namespace Schema

variable {s : Schema}

/-- A struct is what its own name is declared as. -/
theorem Declared.exists_struct (h : s.Declared) {id : Nat} (hid : id < s.structs.length) :
    ∃ d ∈ s.declarations, d.name = s.structName id ∧ d.ty = .struct id false := by
  have hget := List.getElem?_eq_getElem hid
  obtain ⟨d, ⟨hd, hname, hty⟩, _⟩ := h.structs id _ hget
  exact ⟨d, hd, by rw [hname, structName, hget], hty⟩

theorem Declared.exists_message (h : s.Declared) {m : Message} (hm : m ∈ s.messages) :
    ∃ d ∈ s.declarations, d.name = m.name ∧ d.ty = m.ty := by
  obtain ⟨d, hd, rfl⟩ := List.mem_map.mp (h.messages.subset hm)
  exact ⟨d, hd, rfl, rfl⟩

theorem Declared.eq_of_name (h : s.Declared) {d d' : Declaration} (hd : d ∈ s.declarations)
    (hd' : d' ∈ s.declarations) (hname : d.name = d'.name) : d = d' :=
  List.inj_on_of_nodup_map h.names hd hd' hname

/-- A message is known by its name. -/
theorem Declared.message_eq (h : s.Declared) {m m' : Message} (hm : m ∈ s.messages)
    (hm' : m' ∈ s.messages) (hname : m.name = m'.name) : m = m' := by
  obtain ⟨d, hd, hdname, hdty⟩ := h.exists_message hm
  obtain ⟨d', hd', hdname', hdty'⟩ := h.exists_message hm'
  have hsame := h.eq_of_name hd hd' (by rw [hdname, hdname', hname])
  subst hsame
  cases m
  cases m'
  simp_all

end Schema

section Selection

variable {sel : Selection} (hd : sel.schema.Declared)
  (hstructs : ∀ id ∈ sel.structs, id < sel.schema.structs.length)
  (hsub : sel.messages ⊆ sel.schema.messages)
include hd hstructs hsub

theorem Selection.declared_of_mem {name : String} (h : name ∈ sel.declaredNames) :
    ∃ d ∈ sel.schema.declarations, d.name = name := by
  rcases List.mem_append.mp h with h | h
  · obtain ⟨id, hid, rfl⟩ := List.mem_map.mp h
    obtain ⟨d, hmem, hname, _⟩ := hd.exists_struct (hstructs id hid)
    exact ⟨d, hmem, hname⟩
  · obtain ⟨m, hm, rfl⟩ := List.mem_map.mp h
    obtain ⟨d, hmem, hname, _⟩ := hd.exists_message (hsub (List.mem_filter.mp hm).1)
    exact ⟨d, hmem, hname⟩

/-- **A file declares every name once.** -/
theorem Selection.nodup_declaredNames (hn : sel.messages.Nodup) : sel.declaredNames.Nodup := by
  refine List.nodup_append.mpr ⟨?_, ?_, ?_⟩
  · refine (sel.schema.nodup_reachable _).map_on fun id hid id' hid' hname => ?_
    obtain ⟨d, hmem, hdname, hty⟩ := hd.exists_struct (hstructs id hid)
    obtain ⟨d', hmem', hdname', hty'⟩ := hd.exists_struct (hstructs id' hid')
    rw [hd.eq_of_name hmem hmem' (by rw [hdname, hdname', hname]), hty'] at hty
    injection hty with hid
    exact hid.symm
  · refine (hn.filter _).map_on fun m hm m' hm' hname => ?_
    exact hd.message_eq (hsub (List.mem_filter.mp hm).1) (hsub (List.mem_filter.mp hm').1) hname
  · -- a message with the name of a struct is this struct
    intro name hname other hother heq
    subst heq
    obtain ⟨id, hid, hstruct⟩ := List.mem_map.mp hname
    obtain ⟨m, hm, hmessage⟩ := List.mem_map.mp hother
    obtain ⟨hm, hnamed⟩ := List.mem_filter.mp hm
    obtain ⟨d, hmem, hdname, hty⟩ := hd.exists_struct (hstructs id hid)
    obtain ⟨d', hmem', hdname', hty'⟩ := hd.exists_message (hsub hm)
    rw [hd.eq_of_name hmem' hmem (by rw [hdname', hdname, hmessage, hstruct]), hty] at hty'
    have hsame : sel.isNamedStruct m = true := by
      rw [Selection.isNamedStruct, ← hty']
      exact beq_iff_eq.mpr (hstruct.trans hmessage.symm)
    rw [hsame] at hnamed
    exact absurd hnamed (by simp)

/-- **The types that a Rust file declares are different, and none is reserved.** -/
theorem RustCode.nodup_declaredTypes (hnamed : sel.schema.Named) (hdistinct : sel.schema.Distinct)
    (hn : sel.messages.Nodup) :
    (declaredTypes sel).Nodup ∧ ∀ type ∈ declaredTypes sel, type ∉ reservedTypes := by
  rw [declaredTypes_eq]
  refine ⟨(Selection.nodup_declaredNames hd hstructs hsub hn).map_on ?_, ?_⟩
  · intro a ha b hb htype
    obtain ⟨d, hmem, rfl⟩ := Selection.declared_of_mem hd hstructs hsub ha
    obtain ⟨d', hmem', rfl⟩ := Selection.declared_of_mem hd hstructs hsub hb
    have hpascal := rustType_inj (hnamed.declarations d hmem) (hnamed.declarations d' hmem') htype
    rw [List.inj_on_of_nodup_map hdistinct.types hmem hmem' hpascal]
  · rw [List.forall_mem_map]
    intro name hname
    obtain ⟨d, hmem, rfl⟩ := Selection.declared_of_mem hd hstructs hsub hname
    exact rustType_not_reserved (hdistinct.reserved d hmem)

omit hstructs in
/-- **The functions of messages have different names.** -/
theorem Selection.nodup_functions (hdistinct : sel.schema.Distinct) (hn : sel.messages.Nodup) :
    (sel.messages.map fun m => snake m.name).Nodup := by
  have hmessage : ∀ m ∈ sel.messages, ∃ d ∈ sel.schema.declarations.filter fun d =>
      sel.schema.isMessageName d.name, d.name = m.name := by
    intro m hm
    obtain ⟨d, hmem, hname, _⟩ := hd.exists_message (hsub hm)
    refine ⟨d, List.mem_filter.mpr ⟨hmem, ?_⟩, hname⟩
    exact List.any_eq_true.mpr ⟨m, hsub hm, beq_iff_eq.mpr hname.symm⟩
  refine hn.map_on fun m hm m' hm' hsnake => ?_
  obtain ⟨d, hmem, hname⟩ := hmessage m hm
  obtain ⟨d', hmem', hname'⟩ := hmessage m' hm'
  rw [← hname, ← hname'] at hsnake
  have hsame := List.inj_on_of_nodup_map hdistinct.functions hmem hmem' hsnake
  exact hd.message_eq (hsub hm) (hsub hm') (by rw [← hname, ← hname', hsame])

end Selection

end WireSchema
