import WireSchema.Proofs.DependencyOrder
import WireSchema.Proofs.RoundTrip

/-!
# Primitives that occur

A backend need not be able to represent every primitive, and it must not be asked to write code for
one that it cannot. Which primitives a selection is made of is gathered in two places: from the types
of its messages, without a look into structs, and from the fields of the structs that were reached.
`Occurs` says instead what is meant: a primitive occurs in a type if it is met when the type is
written out, through optionals and arrays and the fields of structs, to any depth. It is a relation on
types, so it asks neither for a walk nor for an end of it.

The two agree because what is met behind a struct is met in a field of some struct that it leads to.
Then **generation fails exactly for what occurs and cannot be represented**.
-/

namespace WireSchema

namespace Schema

/-- A type mentions a primitive, when every struct is written out. -/
inductive Occurs (s : Schema) : Ty → Primitive → Prop where
  | primitive (p : Primitive) (o : Bool) : Occurs s (.primitive p o) p
  | item {e : Ty} {p : Primitive} (o : Bool) : Occurs s e p → Occurs s (.array e o) p
  | field {id : Nat} {f : Field} {p : Primitive} (o : Bool) :
      f ∈ s.fieldsOf id → Occurs s f.ty p → Occurs s (.struct id o) p

variable {s : Schema} {p : Primitive}

theorem occurs_of_innermostPrimitive? {t : Ty} (h : t.innermostPrimitive? = some p) :
    s.Occurs t p := by
  induction t with
  | primitive q o =>
    obtain rfl := Option.some.inj h
    exact .primitive q o
  | struct id o => exact absurd h (by simp [Ty.innermostPrimitive?])
  | array e o ih => exact .item o (ih h)

theorem Occurs.of_innermost? {t : Ty} {id : Nat} (hid : t.innermost? = some id) {f : Field}
    (hf : f ∈ s.fieldsOf id) (h : s.Occurs f.ty p) : s.Occurs t p := by
  induction t with
  | primitive q o => exact absurd hid (by simp [Ty.innermost?])
  | struct root o =>
    obtain rfl := Option.some.inj hid
    exact .field o hf h
  | array e o ih => exact .item o (ih hid)

/-- A field behind a struct that some type leads to is part of the type. -/
theorem Occurs.of_leads {root id : Nat} (hleads : Relation.ReflTransGen s.Leads root id) {f : Field}
    (hf : f ∈ s.fieldsOf id) (h : s.Occurs f.ty p) : ∃ g ∈ s.fieldsOf root, s.Occurs g.ty p := by
  induction hleads using Relation.ReflTransGen.head_induction_on with
  | refl => exact ⟨f, hf, h⟩
  | head hfirst _ ih =>
    obtain ⟨g, hg, hoccurs⟩ := ih
    obtain ⟨g', hg', hinner⟩ := List.mem_filterMap.mp hfirst
    exact ⟨g', hg', hoccurs.of_innermost? hinner hg⟩

/-- **What occurs in a type is met in front of every struct or in a field of one it leads to.** -/
theorem occurs_iff {t : Ty} : s.Occurs t p ↔ t.innermostPrimitive? = some p ∨
    ∃ root id, t.innermost? = some root ∧ Relation.ReflTransGen s.Leads root id ∧
      ∃ f ∈ s.fieldsOf id, f.ty.innermostPrimitive? = some p := by
  constructor
  · intro h
    induction h with
    | primitive q o => exact .inl rfl
    | item o _ ih => exact ih
    | @field id f q o hf _ ih =>
      rcases ih with hhere | ⟨root, below, hroot, hleads, hfield⟩
      · exact .inr ⟨id, id, rfl, .refl, f, hf, hhere⟩
      · exact .inr ⟨id, below, rfl, .head (mem_targets hf hroot) hleads, hfield⟩
  · rintro (hhere | ⟨root, id, hroot, hleads, f, hf, hfield⟩)
    · exact occurs_of_innermostPrimitive? hhere
    · obtain ⟨g, hg, hoccurs⟩ := Occurs.of_leads hleads hf (occurs_of_innermostPrimitive? hfield)
      exact hoccurs.of_innermost? hroot hg

end Schema

/-- The place of a primitive in the order of all. -/
def Primitive.index (p : Primitive) : Nat :=
  Primitive.all.idxOf p

namespace Selection

variable {sel : Selection} {p : Primitive}

/-- A primitive occurs in the type of some message. -/
def Uses (sel : Selection) (p : Primitive) : Prop :=
  ∃ m ∈ sel.messages, sel.schema.Occurs m.ty p

theorem mem_primitives :
    p ∈ sel.primitives ↔ ∃ t ∈ sel.types, t.innermostPrimitive? = some p := by
  unfold primitives
  rw [List.mem_filter, List.contains_iff_mem, List.mem_filterMap, and_iff_right p.mem_all]

theorem mem_types {t : Ty} : t ∈ sel.types ↔ (∃ m ∈ sel.messages, m.ty = t) ∨
    ∃ id ∈ sel.structs, ∃ f ∈ sel.schema.fieldsOf id, f.ty = t := by
  simp only [types, List.mem_append, List.mem_map, List.mem_flatMap]

/-- **The primitives that are gathered are those that occur.** -/
theorem mem_primitives_iff_uses (hs : sel.schema.InRange)
    (hm : ∀ m ∈ sel.messages, m.ty.InRange sel.schema.structs.length) :
    p ∈ sel.primitives ↔ sel.Uses p := by
  have hstructs : ∀ id, id ∈ sel.structs ↔ ∃ m ∈ sel.messages, ∃ root,
      m.ty.innermost? = some root ∧ Relation.ReflTransGen sel.schema.Leads root id :=
    fun _ => Schema.mem_reachable_messages hs hm
  rw [mem_primitives]
  constructor
  · rintro ⟨t, ht, hp⟩
    rcases mem_types.mp ht with ⟨m, hmem, rfl⟩ | ⟨id, hid, f, hf, rfl⟩
    · exact ⟨m, hmem, Schema.occurs_iff.mpr (.inl hp)⟩
    · obtain ⟨m, hmem, root, hroot, hleads⟩ := (hstructs id).mp hid
      exact ⟨m, hmem, Schema.occurs_iff.mpr (.inr ⟨root, id, hroot, hleads, f, hf, hp⟩)⟩
  · rintro ⟨m, hmem, hoccurs⟩
    rcases Schema.occurs_iff.mp hoccurs with hp | ⟨root, id, hroot, hleads, f, hf, hp⟩
    · exact ⟨m.ty, mem_types.mpr (.inl ⟨m, hmem, rfl⟩), hp⟩
    · have hid := (hstructs id).mpr ⟨m, hmem, root, hroot, hleads⟩
      exact ⟨f.ty, mem_types.mpr (.inr ⟨id, hid, f, hf, rfl⟩), hp⟩

theorem pairwise_primitives (sel : Selection) :
    sel.primitives.Pairwise fun p q => p.index < q.index := by
  have hall : Primitive.all.Pairwise fun p q => p.index < q.index := by decide
  exact hall.filter _

end Selection

namespace Backend

variable {b : Backend} {sel : Selection}

/-- A backend that can write the file fails only for a primitive. -/
theorem generate_eq_unsupportedType {source : String} (hemit : b.emit sel = .ok source)
    {language : Language} {p : Primitive} :
    b.generate sel = .error (.unsupportedType language p) ↔
      b.language = language ∧ sel.primitives.find? (!b.supports ·) = some p := by
  unfold generate
  cases sel.primitives.find? (!b.supports ·) with
  | some q => simp
  | none =>
    rw [hemit]
    simp [bind, Except.bind, pure, Except.pure]

/-- The primitive that is named is the first that occurs and cannot be represented. -/
theorem first_of_find? {p : Primitive} (h : sel.primitives.find? (!b.supports ·) = some p) :
    p ∈ sel.primitives ∧ b.supports p = false
      ∧ ∀ q ∈ sel.primitives, b.supports q = false → p.index ≤ q.index := by
  obtain ⟨hno, before, after, hsplit, hbefore⟩ := List.find?_eq_some_iff_append.mp h
  refine ⟨List.mem_of_find?_eq_some h, by simpa using hno, fun q hq hno' => ?_⟩
  have hsorted := sel.pairwise_primitives
  rw [hsplit] at hq hsorted
  rcases List.mem_append.mp hq with hq | hq
  · exact absurd (hbefore q hq) (by simp [hno'])
  · rcases List.mem_cons.mp hq with rfl | hq
    · exact Nat.le_refl _
    · exact Nat.le_of_lt (List.rel_of_pairwise_cons (List.pairwise_append.mp hsorted).2.1 hq)

end Backend

/--
**Unsupported types are detected exactly.** Take any messages of a compiled schema, and any backend
that can write the file for them, whichever primitives it can represent. The primitives that are
gathered are those that occur in the type of one of the messages, at any depth, each listed once and
in order. Generation fails with an unsupported type exactly if one of them cannot be represented, and
then it names the first of those.
-/
theorem unsupported_types_exact {text : String} {c : Compiled} (hc : compile text = .ok c)
    {messages : List Message} (hsub : messages ⊆ c.schema.messages) (options : Options)
    (b : Backend) {source : String} (hemit : b.emit (c.select messages options) = .ok source) :
    (∀ p, p ∈ (c.select messages options).primitives ↔ (c.select messages options).Uses p)
      ∧ (c.select messages options).primitives.Pairwise (fun p q => p.index < q.index)
      ∧ ((∃ language p, b.generate (c.select messages options)
            = .error (.unsupportedType language p)) ↔
          ∃ p, (c.select messages options).Uses p ∧ b.supports p = false)
      ∧ ∀ language p, b.generate (c.select messages options)
            = .error (.unsupportedType language p) →
          language = b.language ∧ (c.select messages options).Uses p ∧ b.supports p = false
            ∧ ∀ q, (c.select messages options).Uses q → b.supports q = false →
              p.index ≤ q.index := by
  have hrange := (Compiled.lawful_of_compile hc).inRange
  have huses : ∀ p, p ∈ (c.select messages options).primitives ↔
      (c.select messages options).Uses p :=
    fun _ => Selection.mem_primitives_iff_uses hrange fun m hm => hrange.messages m (hsub hm)
  refine ⟨huses, Selection.pairwise_primitives _, ⟨?_, ?_⟩, fun language p h => ?_⟩
  · rintro ⟨language, p, h⟩
    obtain ⟨_, hfound⟩ := (Backend.generate_eq_unsupportedType hemit).mp h
    obtain ⟨hp, hno, _⟩ := Backend.first_of_find? hfound
    exact ⟨p, (huses p).mp hp, hno⟩
  · rintro ⟨p, hp, hno⟩
    have hsome : ((c.select messages options).primitives.find? (!b.supports ·)).isSome :=
      List.find?_isSome.mpr ⟨p, (huses p).mpr hp, by simp [hno]⟩
    obtain ⟨q, hq⟩ := Option.isSome_iff_exists.mp hsome
    exact ⟨b.language, q, (Backend.generate_eq_unsupportedType hemit).mpr ⟨rfl, hq⟩⟩
  · obtain ⟨hlanguage, hfound⟩ := (Backend.generate_eq_unsupportedType hemit).mp h
    obtain ⟨hp, hno, hfirst⟩ := Backend.first_of_find? hfound
    exact ⟨hlanguage.symm, (huses p).mp hp, hno, fun q hq => hfirst q ((huses q).mpr hq)⟩

/-- A backend that lists the names of messages, and knows neither flags nor floats nor texts. -/
def listingBackend : Backend where
  language := .cpp
  supports p := !(["bool", "float32", "string"].contains p.name)
  fileName package := package ++ ".txt"
  emit sel := .ok (",".intercalate (sel.messages.map (·.name)))

theorem unsupported_types_exact_reading :
    compile readingText = .ok reading
      ∧ listingBackend.emit (reading.select readingSchema.messages {}) = .ok "Reading"
      ∧ (reading.select readingSchema.messages {}).Uses .bool
      ∧ listingBackend.generate (reading.select readingSchema.messages {})
          = .error (.unsupportedType .cpp .bool)
      ∧ ∀ q, (reading.select readingSchema.messages {}).Uses q → listingBackend.supports q = false →
          Primitive.bool.index ≤ q.index := by
  have hemit : listingBackend.emit (reading.select readingSchema.messages {}) = .ok "Reading" := by
    rfl
  have hfails : listingBackend.generate (reading.select readingSchema.messages {})
      = .error (.unsupportedType .cpp .bool) := by rfl
  obtain ⟨huses, _, _, hnamed⟩ := unsupported_types_exact compile_readingText
    (List.Subset.refl readingSchema.messages) {} listingBackend hemit
  obtain ⟨_, hbool, _, hfirst⟩ := hnamed _ _ hfails
  exact ⟨compile_readingText, hemit, hbool, hfails, hfirst⟩

end WireSchema
