import WireSchema.Proofs.Identifiers
import WireSchema.Proofs.Rearranged
import WireSchema.Proofs.RoundTrip

/-!
# What holds of every compiled schema

A text is compiled in stages, and each stage adds something that all later ones rely on. Resolving
names gives structs that exist, names that are used once, and messages; the check gives structs with
fields that can be told apart and that nest neither in a circle nor too deep; canonical order gives an
order to the fields; and the analysis finds a layout for everything that has a name. No stage undoes
what the stages before it did: canonical order moves fields about inside their structs, which shows
neither in the names nor in which struct leads to which.
-/

namespace WireSchema

theorem Category.rank_inj {a b : Category} (h : a.rank = b.rank) : a = b := by
  cases a <;> cases b <;> first | rfl | exact absurd h (by decide)

namespace Schema

variable (s : Schema)

/-- `f` comes before `g` on the wire: its category comes first, or its name does in one category. -/
def Before (f g : Field) : Prop :=
  (s.categoryOf f).rank < (s.categoryOf g).rank ∨
    s.categoryOf f = s.categoryOf g ∧ f.name < g.name

/-- What resolving names gives. -/
structure Declared : Prop where
  inRange : s.InRange
  names : (s.declarations.map (·.name)).Nodup
  reserved : ∀ d ∈ s.declarations, ∀ p : Primitive, d.name ≠ p.name
  /-- A struct is what its own name is declared as. -/
  structs : ∀ id d, s.structs[id]? = some d →
    ∃! decl, decl ∈ s.declarations ∧ decl.name = d.name ∧ decl.ty = .struct id false
  messages : s.messages.Sublist (s.declarations.map fun d => ⟨d.name, d.ty⟩)
  exported : ∀ m ∈ s.messages, isExported m.name

/-- What the check gives. -/
structure Sound : Prop where
  messages : s.messages ≠ []
  nonempty : ∀ d ∈ s.structs, d.fields ≠ []
  fieldNames : ∀ d ∈ s.structs, (d.fields.map (·.name)).Nodup ∧ ∀ f ∈ d.fields, f.name ≠ ""
  acyclic : s.Acyclic
  /-- A path through `n` structs has `n - 1` steps. -/
  shallow : ∀ path, List.IsChain s.Leads path → path.length ≤ 32 + 1

end Schema

/-- What compiling gives. -/
structure Compiled.WellFormed (c : Compiled) : Prop where
  declared : c.schema.Declared
  sound : c.schema.Sound
  ordered : ∀ d ∈ c.schema.structs, d.fields.Pairwise c.schema.Before
  structLayouts : c.analysis.structs.length = c.schema.structs.length
  declarationLayouts :
    (c.analysis.declarations.map Prod.fst).Perm (c.schema.declarations.map (·.name))
  messageLayouts : (c.analysis.messages.map Prod.fst).Perm (c.schema.messages.map (·.name))

/-! ## Resolving names -/

theorem Source.ResolvesTo.declared {src : Source} {s : Schema} (hn : src.WellNamed)
    (h : src.ResolvesTo s) (hrange : s.InRange) : s.Declared := by
  have hnames : s.declarations.map (·.name) = src.decls.map (·.name) := by
    rw [← List.forall₂_eq_eq_eq, List.forall₂_map_left_iff, List.forall₂_map_right_iff]
    exact h.declarations.flip.imp fun _ _ hd => hd.name
  have hdistinct : (s.declarations.map (·.name)).Nodup := hnames ▸ hn.distinct
  refine ⟨hrange, hdistinct, fun d hd p => ?_, fun id d hd => ?_, ?_, fun m hm => ?_⟩
  · obtain ⟨decl, hmem, hdenotes⟩ := Result.exists_of_mem_right h.declarations hd
    rw [hdenotes.name]
    exact hn.reserved decl hmem p
  · obtain ⟨decl, hid, hstruct⟩ := Result.exists_of_getElem?_right h.structs hd
    have hmem := (mem_structDecls.mp (List.mem_of_getElem? hid)).1
    obtain ⟨e, he, hdenotes⟩ := Result.exists_of_mem_right h.declarations.flip hmem
    have hname : e.name = d.name := hdenotes.name.trans hstruct.name.symm
    have hty : e.ty = .struct id false := hn.denotes_unique hdenotes.ty (.struct _ hid)
    refine ⟨e, ⟨he, hname, hty⟩, ?_⟩
    rintro e' ⟨he', hname', _⟩
    exact List.inj_on_of_nodup_map hdistinct he' he (hname'.trans hname.symm)
  · rw [h.messages]
    exact List.filter_sublist.map _
  · rw [h.messages] at hm
    obtain ⟨d, hd, rfl⟩ := List.mem_map.mp hm
    have hmessage := (List.mem_filter.mp hd).2
    rw [decide_eq_true_eq] at hmessage
    exact hmessage.1

namespace Schema

variable {s : Schema}

theorem declared_of_parse {text : String} (h : Schema.parse text = .ok s) : s.Declared := by
  have hrange := (Schema.parse_spec h).1
  obtain ⟨tokens, _, h⟩ := Result.bind_eq_ok.mp h
  obtain ⟨src, _, h⟩ := Result.bind_eq_ok.mp h
  obtain ⟨hresolvable, hto⟩ := Source.resolve_eq_ok h
  exact hto.declared hresolvable.toWellNamed hrange

/-! ## The check -/

end Schema

namespace StructDef

theorem checkFieldNames_eq_ok {struct : String} {fields : List Field} {seen : List String} :
    checkFieldNames struct seen fields = .ok () ↔
      (∀ f ∈ fields, f.name ≠ "") ∧ (fields.map (·.name)).Nodup ∧ ∀ f ∈ fields, f.name ∉ seen := by
  induction fields generalizing seen with
  | nil => simp [checkFieldNames]
  | cons f rest ih =>
    rw [List.forall_mem_cons, List.forall_mem_cons, List.map_cons, List.nodup_cons]
    unfold checkFieldNames
    by_cases hempty : f.name = ""
    · rw [if_pos hempty]
      exact ⟨fun h => absurd h (by simp), fun h => absurd hempty h.1.1⟩
    by_cases hseen : f.name ∈ seen
    · rw [if_neg hempty, if_pos (List.contains_iff_mem.mpr hseen)]
      exact ⟨fun h => absurd h (by simp), fun h => absurd hseen h.2.2.1⟩
    rw [if_neg hempty, if_neg (mt List.contains_iff_mem.mp hseen), ih]
    constructor
    · rintro ⟨hrest, hnodup, hunseen⟩
      refine ⟨⟨hempty, hrest⟩, ⟨fun hmem => ?_, hnodup⟩, hseen, fun g hg hmem => ?_⟩
      · obtain ⟨g, hg, hname⟩ := List.mem_map.mp hmem
        exact hunseen g hg (by rw [hname]; exact List.mem_cons_self)
      · exact hunseen g hg (List.mem_cons_of_mem _ hmem)
    · rintro ⟨⟨_, hrest⟩, ⟨hother, hnodup⟩, _, hunseen⟩
      refine ⟨hrest, hnodup, fun g hg hmem => ?_⟩
      rcases List.mem_cons.mp hmem with hname | hmem
      · exact hother (List.mem_map.mpr ⟨g, hg, hname⟩)
      · exact hunseen g hg hmem

theorem checkFields_eq_ok {d : StructDef} : d.checkFields = .ok () ↔
    d.fields ≠ [] ∧ (d.fields.map (·.name)).Nodup ∧ ∀ f ∈ d.fields, f.name ≠ "" := by
  unfold checkFields
  cases hfields : d.fields with
  | nil => simp
  | cons f rest =>
    rw [if_neg (by simp), checkFieldNames_eq_ok]
    simp [and_comm]

end StructDef

namespace Schema

variable {s : Schema}

theorem sound_of_check (hs : s.InRange) (h : s.check = .ok ()) : s.Sound := by
  obtain ⟨⟨_, hmessages⟩, hfields, _, _, hcycles, hnesting⟩ := check_eq_ok.mp h
  obtain ⟨rank, hr⟩ := exists_rank_of_checkCycles hs hcycles
  refine ⟨hmessages, fun d hd => ?_, fun d hd => ?_, hr.acyclic, fun path hpath => ?_⟩
  · exact (StructDef.checkFields_eq_ok.mp (hfields d hd)).1
  · exact (StructDef.checkFields_eq_ok.mp (hfields d hd)).2
  · exact hr.length_path hnesting hpath

/-! ## Canonical order -/

/-- Canonical order leaves what a struct leads to as it is. -/
theorem leads_canonical (s : Schema) : s.canonical.Leads = s.Leads := by
  have h := s.rearranged_canonical
  funext id target
  rw [eq_iff_iff]
  rcases Nat.lt_or_ge id s.structs.length with hid | hid
  · have htargets := h.targets hid
    rw [List.map_id] at htargets
    exact htargets.mem_iff
  · constructor
    · intro hleads
      have hlt := lt_of_leads hleads
      rw [h.length] at hlt
      omega
    · intro hleads
      have hlt := lt_of_leads hleads
      omega

theorem getElem?_canonical {id : Nat} {d : StructDef} (h : s.canonical.structs[id]? = some d) :
    ∃ d₀, s.structs[id]? = some d₀ ∧ d.name = d₀.name ∧ d.fields =
      d₀.fields.mergeSort (Field.precedes s.isFixedStruct) := by
  rw [canonical, List.getElem?_map, Option.map_eq_some_iff] at h
  obtain ⟨d₀, hd₀, rfl⟩ := h
  exact ⟨d₀, hd₀, rfl, rfl⟩

theorem mem_canonical {d : StructDef} (h : d ∈ s.canonical.structs) :
    ∃ d₀ ∈ s.structs, d.fields = d₀.fields.mergeSort (Field.precedes s.isFixedStruct) := by
  obtain ⟨id, hid⟩ := List.mem_iff_getElem?.mp h
  obtain ⟨d₀, hd₀, _, hfields⟩ := getElem?_canonical hid
  exact ⟨d₀, List.mem_of_getElem? hd₀, hfields⟩

theorem Declared.canonical (h : s.Declared) : s.canonical.Declared := by
  refine ⟨inRange_canonical h.inRange, h.names, h.reserved, fun id d hd => ?_, h.messages,
    h.exported⟩
  obtain ⟨d₀, hd₀, hname, _⟩ := getElem?_canonical hd
  rw [hname]
  exact h.structs id d₀ hd₀

theorem Sound.canonical (h : s.Sound) : s.canonical.Sound := by
  refine ⟨h.messages, fun d hd => ?_, fun d hd => ?_, fun id => ?_, fun path hpath => ?_⟩
  · obtain ⟨d₀, hd₀, hfields⟩ := mem_canonical hd
    have hperm := List.mergeSort_perm d₀.fields (Field.precedes s.isFixedStruct)
    intro hnil
    rw [← hfields, hnil] at hperm
    exact h.nonempty d₀ hd₀ hperm.nil_eq.symm
  · obtain ⟨d₀, hd₀, hfields⟩ := mem_canonical hd
    have hperm := List.mergeSort_perm d₀.fields (Field.precedes s.isFixedStruct)
    obtain ⟨hnodup, hempty⟩ := h.fieldNames d₀ hd₀
    rw [hfields]
    exact ⟨(hperm.map _).nodup_iff.mpr hnodup, fun f hf => hempty f (hperm.mem_iff.mp hf)⟩
  · rw [leads_canonical]
    exact h.acyclic id
  · rw [leads_canonical] at hpath
    exact h.shallow path hpath

/-- The category of a field does not depend on the order of fields. -/
theorem categoryOf_canonical (hs : s.InRange) {d : StructDef} (hd : d ∈ s.structs) {f : Field}
    (hf : f ∈ d.fields) : s.canonical.categoryOf f = f.ty.category s.isFixedStruct := by
  have hfixed : ∀ id, f.ty.innermost? = some id →
      s.canonical.isFixedStruct id = s.isFixedStruct id :=
    fun id hid => s.rearranged_canonical.isFixedStruct hs (hs.fields d hd f hf id hid)
  have hcategory : (f.ty.renumber id).category s.canonical.isFixedStruct
      = f.ty.category s.isFixedStruct := Ty.category_renumber hfixed
  rwa [Ty.renumber_id] at hcategory

/-- **Fields of different names stand in strict order.** -/
theorem ordered_canonical (hs : s.InRange) (h : s.Sound) :
    ∀ d ∈ s.canonical.structs, d.fields.Pairwise s.canonical.Before := by
  intro d hd
  have hnames := (h.canonical.fieldNames d hd).1
  obtain ⟨d₀, hd₀, hfields⟩ := mem_canonical hd
  have hcategory : ∀ f ∈ d.fields, s.canonical.categoryOf f = f.ty.category s.isFixedStruct := by
    intro f hf
    rw [hfields] at hf
    exact categoryOf_canonical hs hd₀ (List.mem_mergeSort.mp hf)
  have hsorted : d.fields.Pairwise fun f g => f.precedes s.isFixedStruct g = true := by
    rw [hfields]
    exact Field.pairwise_mergeSort _
  refine (hsorted.and (List.pairwise_map.mp hnames)).imp_of_mem fun {f g} hf hg hfg => ?_
  obtain ⟨hprecedes, hne⟩ := hfg
  unfold Before
  rw [hcategory f hf, hcategory g hg]
  rcases Field.precedes_iff.mp hprecedes with hrank | ⟨hrank, hle⟩
  · exact .inl hrank
  · refine .inr ⟨Category.rank_inj hrank, ?_⟩
    by_contra hlt
    exact hne (String.le_antisymm hle (String.not_lt.mp hlt))

/-! ## The analysis -/

/-- **What the check accepts can be analyzed**, before and after canonical order, to one effect. -/
theorem Declared.analyze_of_check (hs : s.Declared) (h : s.check = .ok ()) :
    ∃ a, s.analyze = .ok a ∧ s.canonical.analyze = .ok a ∧ s.compile = .ok ⟨s.canonical, a⟩ := by
  obtain ⟨_, _, _, _, hcycles, _⟩ := check_eq_ok.mp h
  obtain ⟨rank, hr⟩ := exists_rank_of_checkCycles hs.inRange hcycles
  obtain ⟨a, ha, hcanonical⟩ := hr.analyze_canonical hs.inRange
  exact ⟨a, ha, hcanonical, Result.bind_eq_ok.mpr ⟨(), h, Result.bind_eq_ok.mpr ⟨a, hcanonical, rfl⟩⟩⟩

end Schema

theorem Compiled.wellFormed_of_compile {text : String} {c : Compiled} (h : compile text = .ok c) :
    c.WellFormed := by
  obtain ⟨s, hparse, h⟩ := Result.bind_eq_ok.mp h
  obtain ⟨_, hcheck, h⟩ := Result.bind_eq_ok.mp h
  obtain ⟨a, ha, h⟩ := Result.bind_eq_ok.mp h
  injection h with h
  subst h
  have hdeclared := Schema.declared_of_parse hparse
  have hsound := Schema.sound_of_check hdeclared.inRange hcheck
  have hcanonical := hdeclared.canonical
  obtain ⟨rank, hr⟩ := hsound.canonical.acyclic.exists_rank hcanonical.inRange
  obtain ⟨L, _, hL⟩ := hr.analyze_eq hcanonical.inRange
  obtain rfl : s.canonical.analysisWith L = a := Except.ok.inj (hL.symm.trans ha)
  have hmessages : (s.canonical.messages.map (·.name)).Nodup := by
    have hsub := hcanonical.messages.map (·.name)
    rw [List.map_map] at hsub
    exact hsub.nodup hcanonical.names
  exact {
    declared := hcanonical
    sound := hsound.canonical
    ordered := Schema.ordered_canonical hdeclared.inRange hsound
    structLayouts := by simp [Schema.analysisWith, Schema.structIds]
    declarationLayouts := keys_foldl_insertByName hcanonical.names
    messageLayouts := keys_foldl_insertByName hmessages }

/--
**Every compiled schema is well formed.** And the check is the last stage that can fail: what it
accepts is analyzed, and canonical order makes no difference to what the analysis finds.
-/
theorem compile_wellFormed (text : String) :
    (∀ c, compile text = .ok c → c.WellFormed)
      ∧ ∀ s, Schema.parse text = .ok s → s.check = .ok () →
          ∃ a, s.analyze = .ok a ∧ s.canonical.analyze = .ok a
            ∧ compile text = .ok ⟨s.canonical, a⟩ := by
  refine ⟨fun c hc => Compiled.wellFormed_of_compile hc, fun s hparse hcheck => ?_⟩
  obtain ⟨a, ha, hcanonical, hcompile⟩ := (Schema.declared_of_parse hparse).analyze_of_check hcheck
  exact ⟨a, ha, hcanonical, Result.bind_eq_ok.mpr ⟨s, hparse, hcompile⟩⟩

theorem compile_wellFormed_reading :
    (compile readingText = .ok reading ∧ reading.WellFormed)
      ∧ Schema.parse readingText = .ok readingSchema ∧ readingSchema.check = .ok ()
      ∧ ∃ a, readingSchema.analyze = .ok a ∧ readingSchema.canonical.analyze = .ok a := by
  obtain ⟨hwellFormed, hanalyze⟩ := compile_wellFormed readingText
  obtain ⟨a, ha, hcanonical, _⟩ := hanalyze readingSchema parse_readingText check_readingSchema
  exact ⟨⟨compile_readingText, hwellFormed reading compile_readingText⟩, parse_readingText,
    check_readingSchema, a, ha, hcanonical⟩

end WireSchema
