import WireSchema.Compile
import WireSchema.Proofs.Lookup
import WireSchema.Proofs.Resolved
import Mathlib.Data.List.Perm.Subperm

/-!
# Structs in layers

The walk that works out layouts leaves behind more than layouts. It enters a struct into its list
only when every struct it leads to stands there already, so the list is an order in which structs
come after the ones they are made of. Two things follow for every schema that could be analyzed:

* structs have a **rank** that goes down along every field, so whatever recurses into fields is at
  most as deep as there are structs;
* the layout of every struct is made of the layouts of its fields, whichever struct was entered
  first: the layouts are a **fixed point**.
-/

namespace WireSchema

/-! ## Layouts depend on the structs that are mentioned -/

theorem Ty.layout_congr {L L' : Nat → Layout} {t : Ty}
    (h : ∀ id, t.innermost? = some id → L id = L' id) : t.layout L = t.layout L' := by
  induction t with
  | primitive p o => rfl
  | struct id o => rw [layout, layout, h id rfl]
  | array e o ih => rw [layout, layout, ih h]

theorem mem_fieldTargets {fields : List Field} {f : Field} {id : Nat} (hf : f ∈ fields)
    (hid : f.ty.innermost? = some id) : id ∈ fieldTargets fields :=
  List.mem_filterMap.mpr ⟨f, hf, hid⟩

theorem Layout.ofFields_congr {L L' : Nat → Layout} {fields : List Field}
    (h : ∀ id ∈ fieldTargets fields, L id = L' id) : ofFields L fields = ofFields L' fields := by
  unfold ofFields
  congr 1
  refine List.foldl_ext _ _ _ fun whole f hf => ?_
  rw [Ty.layout_congr fun id hid => h id (mem_fieldTargets hf hid)]

namespace Schema

theorem mem_targets {s : Schema} {id target : Nat} {f : Field} (hf : f ∈ s.fieldsOf id)
    (ht : f.ty.innermost? = some target) : target ∈ s.targets id :=
  mem_fieldTargets hf ht

theorem mem_fieldsOf {s : Schema} {id : Nat} {f : Field} (h : f ∈ s.fieldsOf id) :
    ∃ d ∈ s.structs, f ∈ d.fields := by
  unfold fieldsOf at h
  split at h
  · rename_i d hd
    exact ⟨d, List.mem_of_getElem? hd, h⟩
  · exact absurd h (by simp)

theorem fieldsOf_of_le {s : Schema} {id : Nat} (h : s.structs.length ≤ id) :
    s.fieldsOf id = [] := by
  unfold fieldsOf
  rw [List.getElem?_eq_none h]

theorem InRange.target_lt {s : Schema} (hs : s.InRange) {id target : Nat}
    (h : target ∈ s.targets id) : target < s.structs.length := by
  obtain ⟨f, hf, ht⟩ := List.mem_filterMap.mp h
  obtain ⟨d, hd, hfd⟩ := mem_fieldsOf hf
  exact hs.fields d hd f hfd target ht

/-! ## The order of the list -/

variable (s : Schema)

/--
Layouts as they are found, latest first: a struct is entered once, when those it leads to have been,
and its layout is made of theirs.
-/
inductive Built : Layouts → Prop where
  | nil : Built []
  | cons {known : Layouts} {id : Nat} :
      Built known → id < s.structs.length → known.lookup id = none →
      (∀ target ∈ s.targets id, (known.lookup target).isSome) →
      Built ((id, .ofFields (layoutIn known) (s.fieldsOf id)) :: known)

/-- What a walk below the structs of `path` does to the layouts known before it. -/
structure Extends (path : List Nat) (known known' : Layouts) : Prop where
  built : s.Built known'
  keeps : ∀ id, (known.lookup id).isSome → (known'.lookup id).isSome
  /-- The structs on the path are being worked on, so nothing below them enters one. -/
  avoids : ∀ id ∈ path, known.lookup id = none → known'.lookup id = none

variable {s}

theorem Extends.trans {path : List Nat} {a b c : Layouts} (h₁ : s.Extends path a b)
    (h₂ : s.Extends path b c) : s.Extends path a c where
  built := h₂.built
  keeps id h := h₂.keeps id (h₁.keeps id h)
  avoids id hid h := h₂.avoids id hid (h₁.avoids id hid h)

theorem foldlM_extends {f : Layouts → Nat → Except (List Nat) Layouts} {ids : List Nat}
    (path : List Nat)
    (hf : ∀ id ∈ ids, ∀ known known', s.Built known → f known id = .ok known' →
      s.Extends path known known' ∧ (known'.lookup id).isSome) :
    ∀ {known known' : Layouts}, s.Built known → ids.foldlM f known = .ok known' →
      s.Extends path known known' ∧ ∀ id ∈ ids, (known'.lookup id).isSome := by
  induction ids with
  | nil =>
    intro known known' hb h
    rw [List.foldlM_nil] at h
    injection h with h
    subst h
    exact ⟨⟨hb, fun _ h => h, fun _ _ h => h⟩, fun id hid => absurd hid (by simp)⟩
  | cons id ids ih =>
    intro known known' hb h
    rw [List.foldlM_cons] at h
    obtain ⟨known₁, h₁, h₂⟩ := Result.bind_eq_ok.mp h
    obtain ⟨he₁, hid⟩ := hf id List.mem_cons_self known known₁ hb h₁
    obtain ⟨he₂, hids⟩ := ih (fun i hi => hf i (List.mem_cons_of_mem _ hi)) he₁.built h₂
    refine ⟨he₁.trans he₂, fun i hi => ?_⟩
    rcases List.mem_cons.mp hi with rfl | hi
    · exact he₂.keeps i hid
    · exact hids i hi

/-- **The step.** Working out one struct enters it, behind all it leads to. -/
theorem layoutStruct_extends (hs : s.InRange) (depth : Nat) :
    ∀ {path : List Nat} {id : Nat} {known known' : Layouts},
      id < s.structs.length → s.Built known → s.layoutStruct depth path known id = .ok known' →
      s.Extends path known known' ∧ (known'.lookup id).isSome := by
  induction depth using Nat.strongRecOn with
  | ind depth ih =>
    intro path id known known' hid hb h
    unfold layoutStruct at h
    split at h
    · rename_i hknown
      injection h with h
      subst h
      exact ⟨⟨hb, fun _ h => h, fun _ _ h => h⟩, hknown⟩
    · rename_i hnew
      split at h
      · exact absurd h (by simp)
      · rename_i hpath
        split at h
        · exact absurd h (by simp)
        · rename_i depth
          obtain ⟨inner, hinner, rfl⟩ := Result.map_eq_ok.mp h
          obtain ⟨he, htargets⟩ := foldlM_extends (path ++ [id])
            (fun target ht k k' hk hk' => ih depth (Nat.lt_succ_self _) (hs.target_lt ht) hk hk')
            hb hinner
          -- the path keeps the struct itself out until its own entry is made
          have hfresh : inner.lookup id = none :=
            he.avoids id (by simp) (Option.not_isSome_iff_eq_none.mp hnew)
          refine ⟨⟨.cons he.built hid hfresh htargets, ?_, ?_⟩, by simp⟩
          · intro i hi
            rw [List.lookup_cons]
            split
            · rfl
            · exact he.keeps i hi
          · intro i hi hnone
            have hne : i ≠ id := by
              rintro rfl
              exact hpath (by simpa using hi)
            rw [List.lookup_cons_of_ne hne]
            exact he.avoids i (List.mem_append_left _ hi) hnone

theorem layoutStructs_built (hs : s.InRange) {known : Layouts} (h : s.layoutStructs = .ok known) :
    s.Built known ∧ ∀ id < s.structs.length, (known.lookup id).isSome := by
  obtain ⟨he, hall⟩ := foldlM_extends []
    (fun id hid k k' hk hk' => layoutStruct_extends hs _ (List.mem_range.mp hid) hk hk') .nil h
  exact ⟨he.built, fun id hid => hall id (List.mem_range.mpr hid)⟩

theorem Built.closed {known : Layouts} (hb : s.Built known) {id target : Nat}
    (hid : (known.lookup id).isSome) (ht : target ∈ s.targets id) :
    (known.lookup target).isSome := by
  induction hb with
  | nil => exact absurd hid (by simp)
  | @cons known i _ _ _ htargets ih =>
    rw [List.lookup_cons] at hid ⊢
    split
    · rfl
    · split at hid
      · rename_i hi
        rw [eq_of_beq hi] at ht
        exact htargets target ht
      · exact ih hid

/-- A later entry does not change what an earlier one is looked up to. -/
theorem layoutIn_cons_of_isSome {known : Layouts} {i id : Nat} {l : Layout}
    (hi : known.lookup i = none) (hid : (known.lookup id).isSome) :
    layoutIn ((i, l) :: known) id = layoutIn known id := by
  have hne : id ≠ i := by
    rintro rfl
    rw [hi] at hid
    exact absurd hid (by simp)
  rw [layoutIn, List.lookup_cons_of_ne hne, layoutIn]

/-- **The layouts are a fixed point.** -/
theorem Built.layoutIn_eq {known : Layouts} (hb : s.Built known) {id : Nat}
    (hid : (known.lookup id).isSome) :
    layoutIn known id = .ofFields (layoutIn known) (s.fieldsOf id) := by
  induction hb with
  | nil => exact absurd hid (by simp)
  | @cons known i hb _ hi htargets ih =>
    by_cases hii : id = i
    · subst hii
      rw [layoutIn, List.lookup_cons_self, Option.getD_some]
      refine Layout.ofFields_congr fun target ht => ?_
      exact (layoutIn_cons_of_isSome hi (htargets target ht)).symm
    · have hid' : (known.lookup id).isSome := by
        rwa [List.lookup_cons_of_ne hii] at hid
      rw [layoutIn_cons_of_isSome hi hid', ih hid']
      refine Layout.ofFields_congr fun target ht => ?_
      exact (layoutIn_cons_of_isSome hi (hb.closed hid' ht)).symm

/-! ## Ranks -/

/-- How many structs were entered before a struct. -/
def rankIn : Layouts → Nat → Nat
  | [], _ => 0
  | (i, _) :: rest, id => if id = i then rest.length else rankIn rest id

theorem rankIn_lt {known : Layouts} {id : Nat} (h : (known.lookup id).isSome) :
    rankIn known id < known.length := by
  induction known with
  | nil => exact absurd h (by simp)
  | cons entry rest ih =>
    obtain ⟨i, l⟩ := entry
    unfold rankIn
    split
    · exact Nat.lt_succ_self _
    · rename_i hne
      rw [List.lookup_cons_of_ne hne] at h
      exact Nat.lt_succ_of_lt (ih h)

theorem Built.rankIn_target {known : Layouts} (hb : s.Built known) {id target : Nat}
    (hid : (known.lookup id).isSome) (ht : target ∈ s.targets id) :
    rankIn known target < rankIn known id := by
  induction hb with
  | nil => exact absurd hid (by simp)
  | @cons known i hb _ hi htargets ih =>
    have hskip : (known.lookup target).isSome →
        rankIn ((i, .ofFields (layoutIn known) (s.fieldsOf i)) :: known) target
          = rankIn known target := by
      intro hsome
      rw [rankIn, if_neg]
      rintro rfl
      rw [hi] at hsome
      exact absurd hsome (by simp)
    by_cases hii : id = i
    · subst hii
      rw [hskip (htargets target ht), rankIn, if_pos rfl]
      exact rankIn_lt (htargets target ht)
    · have hid' : (known.lookup id).isSome := by
        rwa [List.lookup_cons_of_ne hii] at hid
      rw [hskip (hb.closed hid' ht), rankIn, if_neg hii]
      exact ih hid'

theorem Built.keys {known : Layouts} (hb : s.Built known) :
    (known.map Prod.fst).Nodup ∧ ∀ id ∈ known.map Prod.fst, id < s.structs.length := by
  induction hb with
  | nil => exact ⟨List.nodup_nil, fun id hid => absurd hid (by simp)⟩
  | @cons known i _ hlt hi _ ih =>
    refine ⟨List.nodup_cons.mpr ⟨fun hmem => ?_, ih.1⟩, fun id hid => ?_⟩
    · obtain ⟨entry, hentry, heq⟩ := List.mem_map.mp hmem
      have := List.lookup_eq_none_iff.mp hi entry hentry
      rw [heq] at this
      exact absurd this (by simp)
    · rcases List.mem_cons.mp hid with rfl | hid
      · exact hlt
      · exact ih.2 id hid

theorem Built.length_le {known : Layouts} (hb : s.Built known) :
    known.length ≤ s.structs.length := by
  have hsub := (List.subperm_of_subset hb.keys.1 fun id hid =>
    List.mem_range.mpr (hb.keys.2 id hid)).length_le
  rwa [List.length_map, List.length_range] at hsub

theorem Built.layoutIn_of_le {known : Layouts} (hb : s.Built known) {id : Nat}
    (hid : s.structs.length ≤ id) : layoutIn known id = .empty := by
  have hnone : known.lookup id = none := by
    rw [List.lookup_eq_none_iff]
    intro entry hentry
    have hlt := hb.keys.2 entry.1 (List.mem_map.mpr ⟨entry, hentry, rfl⟩)
    rw [bne_iff_ne]
    omega
  rw [layoutIn, hnone]
  rfl

variable (s) in
/-- Numbers below the number of structs that go down from a struct to the ones it leads to. -/
structure Ranked (rank : Nat → Nat) : Prop where
  target_lt : ∀ id, ∀ target ∈ s.targets id, rank target < rank id
  lt : ∀ id < s.structs.length, rank id < s.structs.length

/-- **The order in which structs were entered ranks them**, if all of them were. -/
theorem Built.ranked {known : Layouts} (hb : s.Built known)
    (hall : ∀ id < s.structs.length, (known.lookup id).isSome) : s.Ranked (rankIn known) := by
  refine ⟨fun id target ht => ?_, fun id hid => ?_⟩
  · rcases Nat.lt_or_ge id s.structs.length with hid | hid
    · exact hb.rankIn_target (hall id hid) ht
    · rw [targets, fieldsOf_of_le hid] at ht
      exact absurd ht (by simp [fieldTargets])
  · exact Nat.lt_of_lt_of_le (rankIn_lt (hall id hid)) hb.length_le

variable (s) in
/-- Layouts of structs that are made of the layouts of their fields. -/
def IsLayout (L : Nat → Layout) : Prop :=
  ∀ id, L id = .ofFields L (s.fieldsOf id)

theorem Built.isLayout {known : Layouts} (hb : s.Built known)
    (hall : ∀ id < s.structs.length, (known.lookup id).isSome) : s.IsLayout (layoutIn known) := by
  intro id
  rcases Nat.lt_or_ge id s.structs.length with hid | hid
  · exact hb.layoutIn_eq (hall id hid)
  · rw [hb.layoutIn_of_le hid, fieldsOf_of_le hid]
    rfl

/-- What is made of the fields of a struct level by level does not change any more once there are
more levels than the rank of the struct. -/
theorem Ranked.depth_congr {rank : Nat → Nat} (hr : s.Ranked rank) {α : Type} {f : Nat → Nat → α}
    (hstep : ∀ depth depth' id, (∀ target ∈ s.targets id, f depth target = f depth' target) →
      f (depth + 1) id = f (depth' + 1) id)
    {depth depth' id : Nat} (h : rank id < depth) (h' : rank id < depth') :
    f depth id = f depth' id := by
  induction depth generalizing depth' id with
  | zero => exact absurd h (Nat.not_lt_zero _)
  | succ depth ih =>
    cases depth' with
    | zero => exact absurd h' (Nat.not_lt_zero _)
    | succ depth' =>
      refine hstep depth depth' id fun target ht => ?_
      have hlt := hr.target_lt id target ht
      exact ih (by omega) (by omega)

/--
**Induction along the types of a schema with ranks**: from the fields of a struct to the struct,
from elements to arrays, from a type to the optional one.
-/
theorem Ranked.induction {rank : Nat → Nat} (hr : s.Ranked rank) {P : Ty → Prop}
    (primitive : ∀ p, P (.primitive p false)) (array : ∀ e, P e → P (.array e false))
    (struct : ∀ id, (∀ f ∈ s.fieldsOf id, P f.ty) → P (.struct id false))
    (optional : ∀ t : Ty, t.optional = true → P t.required → P t) (t : Ty) : P t := by
  have hflag : ∀ t : Ty, P t.required → P t := by
    intro t ht
    cases ho : t.optional with
    | true => exact optional t ho ht
    | false => rwa [Ty.required, ← ho, Ty.withOptional_optional] at ht
  have hbelow : ∀ n (t : Ty), (∀ id, t.innermost? = some id → rank id < n) → P t := by
    intro n
    induction n using Nat.strongRecOn with
    | ind n ihn =>
      intro t
      induction t with
      | primitive p o => exact fun _ => hflag _ (primitive p)
      | struct id o =>
        -- the fields stay below the rank of the struct itself
        refine fun h => hflag _ (struct id fun f hf => ihn (rank id) (h id rfl) f.ty ?_)
        exact fun target ht => hr.target_lt id target (mem_targets hf ht)
      | array e o ih => exact fun h => hflag _ (array e (ih h))
  cases hid : t.innermost? with
  | none => exact hbelow 0 t fun id h => absurd (hid.symm.trans h) (by simp)
  | some id =>
    refine hbelow (rank id + 1) t fun id' h => ?_
    obtain rfl : id = id' := Option.some.inj (hid.symm.trans h)
    exact Nat.lt_succ_self _

end Schema

/-! ## What the analysis says of messages -/

namespace Schema

variable {s : Schema}

theorem mem_of_message? {name : String} {m : Message} (h : s.message? name = some m) :
    m ∈ s.messages ∧ m.name = name :=
  ⟨List.mem_of_find?_eq_some h, by simpa using List.find?_some h⟩

/-- **A schema that can be analyzed has ranks**, and its analysis holds the layouts of its
messages. -/
theorem analyze_spec (hs : s.InRange) (hn : (s.messages.map (·.name)).Nodup) {a : Analysis}
    (h : s.analyze = .ok a) :
    ∃ rank L, s.Ranked rank ∧ s.IsLayout L ∧
      ∀ name m, s.message? name = some m → a.message? name = some (m.ty.layout L) := by
  unfold analyze at h
  split at h
  · exact absurd h (by simp)
  · rename_i known hknown
    injection h with h
    subst h
    obtain ⟨hb, hall⟩ := layoutStructs_built hs hknown
    refine ⟨rankIn known, layoutIn known, hb.ranked hall, hb.isLayout hall, fun name m hm => ?_⟩
    obtain ⟨hmem, rfl⟩ := mem_of_message? hm
    exact inserts_insertByName.lookup_foldl hn hmem []

end Schema

/-! ## Compiled schemas -/

theorem Schema.inRange_canonical {s : Schema} (hs : s.InRange) : s.canonical.InRange := by
  have hlen : s.canonical.structs.length = s.structs.length := List.length_map _
  refine ⟨fun d hd f hf => ?_, ?_, ?_⟩
  · obtain ⟨d', hd', rfl⟩ := List.mem_map.mp hd
    rw [hlen]
    exact hs.fields d' hd' f (List.mem_mergeSort.mp hf)
  · rw [hlen]
    exact hs.declarations
  · rw [hlen]
    exact hs.messages

/-- What every compiled schema is. -/
structure Compiled.Lawful (c : Compiled) : Prop where
  inRange : c.schema.InRange
  names : (c.schema.messages.map (·.name)).Nodup
  analyzed : c.schema.analyze = .ok c.analysis

theorem Compiled.lawful_of_compile {text : String} {c : Compiled} (h : compile text = .ok c) :
    c.Lawful := by
  obtain ⟨s, hparse, h⟩ := Result.bind_eq_ok.mp h
  obtain ⟨_, _, h⟩ := Result.bind_eq_ok.mp h
  obtain ⟨a, ha, h⟩ := Result.bind_eq_ok.mp h
  injection h with h
  subst h
  obtain ⟨hrange, hnames⟩ := Schema.parse_spec hparse
  exact ⟨Schema.inRange_canonical hrange, hnames, ha⟩

namespace Compiled.Lawful

variable {c : Compiled}

theorem exists_rank (hc : c.Lawful) : ∃ rank, c.schema.Ranked rank := by
  obtain ⟨rank, _, hrank, _⟩ := Schema.analyze_spec hc.inRange hc.names hc.analyzed
  exact ⟨rank, hrank⟩

end Compiled.Lawful

end WireSchema
