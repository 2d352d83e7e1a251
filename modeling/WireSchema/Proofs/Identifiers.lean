import WireSchema.Code.Fresh
import WireSchema.Proofs.Layering
import Mathlib.Data.List.Nodup

/-!
# Names in generated routines

A routine refers to fields and to its own variables by name, and nothing but the names keeps them
apart. Three facts do:

* in a compiled schema, the fields of a struct have **different identifiers** in either language;
* a temporary is a name no field has: it ends with a number, and `isRustLocal` knows it;
* temporaries of **different numbers** have different names, whatever their stems.
-/

namespace WireSchema

open Naming

/-! ## Temporaries -/

/-- The temporary of a number. -/
def temporary (stem : String) (n : Nat) : String :=
  stem ++ n.repr

theorem toList_temporary (stem : String) (n : Nat) :
    (temporary stem n).toList = stem.toList ++ Nat.toDigits 10 n := by
  rw [temporary, String.toList_append, Nat.toList_repr]

theorem isDigit_of_mem_toDigits {n : Nat} : ∀ c ∈ Nat.toDigits 10 n, c.isDigit = true :=
  fun _ hc => Nat.isDigit_of_mem_toDigits (by decide) (by decide) hc

/-- The digits at the end of a name, last one first. -/
def numberOf (name : String) : List Char :=
  name.toList.reverse.takeWhile Char.isDigit

/-- The number of a temporary can be read off its name. -/
theorem numberOf_temporary {stem : String} (hstem : numberOf stem = []) (n : Nat) :
    numberOf (temporary stem n) = (Nat.toDigits 10 n).reverse := by
  have hdigits : ∀ c ∈ (Nat.toDigits 10 n).reverse, c.isDigit = true :=
    fun c hc => isDigit_of_mem_toDigits c (List.mem_reverse.mp hc)
  rw [numberOf] at hstem
  rw [numberOf, toList_temporary, List.reverse_append, List.takeWhile_append_of_pos hdigits, hstem,
    List.append_nil]

theorem temporary_inj {stem stem' : String} (h : numberOf stem = []) (h' : numberOf stem' = [])
    {n n' : Nat} (heq : temporary stem n = temporary stem' n') : n = n' := by
  have hnumber : (Nat.toDigits 10 n).reverse = (Nat.toDigits 10 n').reverse := by
    rw [← numberOf_temporary h, ← numberOf_temporary h', heq]
  have hread : ∀ k, Nat.ofDigitChars 10 (Nat.toDigits 10 k) 0 = k :=
    fun k => Nat.ofDigitChars_toDigits (by decide) (by decide)
  rw [← hread n, List.reverse_injective hnumber, hread n']

/-- A name without a number is no temporary. -/
theorem temporary_ne {stem name : String} (hstem : numberOf stem = []) (hname : numberOf name = [])
    (n : Nat) : temporary stem n ≠ name := by
  intro heq
  have hnil : (Nat.toDigits 10 n).reverse = [] := by
    rw [← numberOf_temporary hstem, heq, hname]
  exact Nat.toDigits_ne_nil (List.reverse_eq_nil_iff.mp hnil)

theorem numberOf_of_mem {stem : String} (h : stem ∈ rustTemporaries) : numberOf stem = [] := by
  have hall : ∀ stem ∈ rustTemporaries, numberOf stem = [] := by decide +kernel
  exact hall stem h

theorem isRustLocal_temporary {stem : String} (h : stem ∈ rustTemporaries) (n : Nat) :
    isRustLocal (temporary stem n) = true := by
  refine (Bool.or_eq_true _ _).mpr (.inr (List.any_eq_true.mpr ⟨stem, h, ?_⟩))
  have hnumber : (temporary stem n).toList.drop stem.length = Nat.toDigits 10 n := by
    rw [toList_temporary, ← String.length_toList, List.drop_left]
  have hstart : stem.toList.isPrefixOf (temporary stem n).toList = true := by
    rw [toList_temporary, List.isPrefixOf_iff_prefix]
    exact List.prefix_append _ _
  have hall : (Nat.toDigits 10 n).all Text.isDecimalDigit = true :=
    List.all_eq_true.mpr fun c hc => Text.isDecimalDigit_of_isDigit (isDigit_of_mem_toDigits c hc)
  have hne : (Nat.toDigits 10 n).isEmpty = false :=
    List.isEmpty_eq_false_iff.mpr Nat.toDigits_ne_nil
  dsimp only
  rw [hnumber, hstart, hall, hne]
  rfl

/-! ## Fields -/

/-- No variable of a routine ends with an underscore. -/
theorem getLast?_of_isRustLocal {name : String} (h : isRustLocal name = true) :
    name.toList.getLast? ≠ some '_' := by
  rcases (Bool.or_eq_true _ _).mp h with hlocal | htemporary
  · have hall : ∀ name ∈ rustLocals, name.toList.getLast? ≠ some '_' := by decide +kernel
    exact hall name (List.contains_iff_mem.mp hlocal)
  · obtain ⟨stem, _, hnumber⟩ := List.any_eq_true.mp htemporary
    simp only [Bool.and_eq_true, Bool.not_eq_true'] at hnumber
    obtain ⟨⟨_, hne⟩, hall⟩ := hnumber
    intro hlast
    -- the number is the end of the name, so its last digit would be the underscore
    have hend : (name.toList.drop stem.length).getLast? = some '_' := by
      rw [List.getLast?_drop, if_neg, hlast]
      intro hle
      rw [List.drop_eq_nil_of_le hle] at hne
      exact absurd hne (by simp)
    have hdigit := List.all_eq_true.mp hall '_' (List.mem_of_getLast? hend)
    exact absurd hdigit (by decide +kernel)

/-- **No field has the name of a variable of a routine.** -/
theorem isRustLocal_rustField (name : String) : isRustLocal (rustField name) = false := by
  unfold rustField
  dsimp only
  split
  · rw [Bool.eq_false_iff]
    intro h
    refine getLast?_of_isRustLocal h ?_
    rw [String.toList_append]
    exact List.getLast?_concat
  · rename_i h
    exact eq_false_of_ne_true h

/-! ## Identifiers of a struct -/

theorem Taken.add_eq_ok {taken taken' : Taken} {identifier name : String}
    (h : taken.add identifier name = .ok taken') :
    identifier ∉ taken.map Prod.fst ∧ taken'.map Prod.fst = identifier :: taken.map Prod.fst := by
  unfold add at h
  split at h
  · exact absurd h (by simp)
  · rename_i hnone
    injection h with h
    subst h
    refine ⟨fun hmem => ?_, rfl⟩
    obtain ⟨entry, hentry, rfl⟩ := List.mem_map.mp hmem
    exact absurd (List.lookup_eq_none_iff.mp hnone entry hentry) (by simp)

namespace StructDef

/-- Fields whose identifiers are different, also from those in use before. -/
theorem nodup_of_foldlM {fields : List Field} {taken taken' : Taken × Taken}
    (h : fields.foldlM takeField taken = .ok taken') (hrust : (taken.1.map Prod.fst).Nodup)
    (hcpp : (taken.2.map Prod.fst).Nodup) :
    ((fields.map fun f => rustField f.name).reverse ++ taken.1.map Prod.fst).Nodup ∧
      ((fields.map fun f => cppField f.name).reverse ++ taken.2.map Prod.fst).Nodup := by
  induction fields generalizing taken with
  | nil => exact ⟨hrust, hcpp⟩
  | cons f fields ih =>
    rw [List.foldlM_cons] at h
    obtain ⟨next, hnext, h⟩ := Result.bind_eq_ok.mp h
    obtain ⟨rust, hr, hnext⟩ := Result.bind_eq_ok.mp hnext
    obtain ⟨cpp, hc, hnext⟩ := Result.bind_eq_ok.mp hnext
    injection hnext with hnext
    subst hnext
    obtain ⟨hrnew, hr⟩ := Taken.add_eq_ok hr
    obtain ⟨hcnew, hc⟩ := Taken.add_eq_ok hc
    have hrest := ih h (by rw [hr]; exact List.nodup_cons.mpr ⟨hrnew, hrust⟩)
      (by rw [hc]; exact List.nodup_cons.mpr ⟨hcnew, hcpp⟩)
    rw [hr, hc] at hrest
    simpa using hrest

theorem nodup_of_checkIdentifiers {d : StructDef} (h : d.checkIdentifiers = .ok ()) :
    (d.fields.map fun f => rustField f.name).Nodup ∧
      (d.fields.map fun f => cppField f.name).Nodup := by
  obtain ⟨taken, htaken, _⟩ := Result.map_eq_ok.mp h
  obtain ⟨hrust, hcpp⟩ := nodup_of_foldlM htaken List.nodup_nil List.nodup_nil
  rw [List.map_nil, List.append_nil, List.nodup_reverse] at hrust hcpp
  exact ⟨hrust, hcpp⟩

end StructDef

/-- A schema passes its check if it passes every one of them. -/
theorem Schema.check_eq_ok {s : Schema} : s.check = .ok () ↔
    (Text.trim s.package.toList ≠ [] ∧ s.messages ≠ []) ∧
      (∀ d ∈ s.structs, d.checkFields = .ok ()) ∧ s.checkDeclarations = .ok () ∧
      (∀ d ∈ s.structs, d.checkIdentifiers = .ok ()) ∧ s.checkCycles = .ok () ∧
      s.checkNesting = .ok () := by
  unfold check
  by_cases hpackage : (Text.trim s.package.toList).isEmpty
  · rw [if_pos hpackage]
    exact ⟨fun h => absurd h (by simp), fun h => absurd (List.isEmpty_iff.mp hpackage) h.1.1⟩
  by_cases hmessages : s.messages.isEmpty
  · rw [if_neg hpackage, if_pos hmessages]
    exact ⟨fun h => absurd h (by simp), fun h => absurd (List.isEmpty_iff.mp hmessages) h.1.2⟩
  rw [if_neg hpackage, if_neg hmessages, ← Result.forM_eq_ok, ← Result.forM_eq_ok]
  rw [List.isEmpty_iff] at hpackage hmessages
  constructor
  · intro h
    obtain ⟨_, hfields, h⟩ := Result.bind_eq_ok.mp h
    obtain ⟨_, hdeclarations, h⟩ := Result.bind_eq_ok.mp h
    obtain ⟨_, hidentifiers, h⟩ := Result.bind_eq_ok.mp h
    obtain ⟨_, hcycles, hnesting⟩ := Result.bind_eq_ok.mp h
    exact ⟨⟨hpackage, hmessages⟩, hfields, hdeclarations, hidentifiers, hcycles, hnesting⟩
  · rintro ⟨_, hfields, hdeclarations, hidentifiers, hcycles, hnesting⟩
    exact Result.bind_eq_ok.mpr ⟨(), hfields, Result.bind_eq_ok.mpr ⟨(), hdeclarations,
      Result.bind_eq_ok.mpr ⟨(), hidentifiers, Result.bind_eq_ok.mpr ⟨(), hcycles, hnesting⟩⟩⟩⟩

/-- What a schema that passes its check says of the identifiers of its structs. -/
theorem Schema.nodup_of_check {s : Schema} (h : s.check = .ok ()) : ∀ d ∈ s.structs,
    (d.fields.map fun f => rustField f.name).Nodup ∧
      (d.fields.map fun f => cppField f.name).Nodup := by
  obtain ⟨_, _, _, hidentifiers, _⟩ := Schema.check_eq_ok.mp h
  exact fun d hd => StructDef.nodup_of_checkIdentifiers (hidentifiers d hd)

/-- **In a compiled schema, no two fields of a struct share an identifier.** -/
theorem Compiled.nodup_of_compile {text : String} {c : Compiled} (h : compile text = .ok c)
    (id : Nat) : ((c.schema.fieldsOf id).map fun f => rustField f.name).Nodup ∧
      ((c.schema.fieldsOf id).map fun f => cppField f.name).Nodup := by
  obtain ⟨s, _, h⟩ := Result.bind_eq_ok.mp h
  obtain ⟨_, hcheck, h⟩ := Result.bind_eq_ok.mp h
  obtain ⟨a, _, h⟩ := Result.bind_eq_ok.mp h
  injection h with h
  subst h
  unfold Schema.fieldsOf
  split
  · rename_i d hd
    -- sorting the fields changes their order and nothing else
    obtain ⟨d', hd', rfl⟩ := List.mem_map.mp (List.mem_of_getElem? hd)
    obtain ⟨hrust, hcpp⟩ := Schema.nodup_of_check hcheck d' hd'
    have hperm := List.mergeSort_perm d'.fields
      (Field.precedes fun id => s.fixedStructs.getD id false)
    exact ⟨(hperm.map _).nodup_iff.mpr hrust, (hperm.map _).nodup_iff.mpr hcpp⟩
  · exact ⟨List.nodup_nil, List.nodup_nil⟩

end WireSchema
