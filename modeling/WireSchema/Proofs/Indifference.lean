import WireSchema.Proofs.Flaws

/-!
# What an encoding does not depend on

A document says more than its message asks for: its keys have an order, some of them are no field's,
and a field that has no value can be `null` or not mentioned. `Equivalent` is the relation that these
differences generate, at every depth of a document. What is no field's has no type, so inside it, and
inside a value that has not the form of its type, every key is one that nothing asks for.

The check and the conversion see an object only through the values that it holds for the keys of the
fields. So on equivalent documents they give **the same bytes or the same error**, with the same path.
-/

namespace WireSchema

/-- The fields of an object at a place, which has a type or none. -/
def Schema.fieldsAt (s : Schema) : Option Ty → List Field
  | some (.struct id _) => s.fieldsOf id
  | _ => []

/-- The type of the items of an array at a place. -/
def Ty.itemAt : Option Ty → Option Ty
  | some (.array e _) => some e
  | _ => none

/-- Two documents at a place differ only in what the type does not ask for. -/
inductive Schema.Equivalent (s : Schema) : Option Ty → Json → Json → Prop where
  | refl (t : Option Ty) (j : Json) : Equivalent s t j j
  | symm {t : Option Ty} {j j' : Json} : Equivalent s t j j' → Equivalent s t j' j
  | trans {t : Option Ty} {j j' j'' : Json} :
      Equivalent s t j j' → Equivalent s t j' j'' → Equivalent s t j j''
  /-- The order of keys. -/
  | swap {t : Option Ty} {before after : List (String × Json)} {a b : String × Json} :
      a.1 ≠ b.1 →
      Equivalent s t (.object (before ++ a :: b :: after)) (.object (before ++ b :: a :: after))
  /-- A key that is no field's. -/
  | unknown {t : Option Ty} {before after : List (String × Json)} {key : String} {j : Json} :
      (∀ f ∈ s.fieldsAt t, f.key ≠ key) →
      Equivalent s t (.object (before ++ after)) (.object (before ++ (key, j) :: after))
  /-- A key that says `null`. -/
  | null {t : Option Ty} {before after : List (String × Json)} {key : String} :
      key ∉ (before ++ after).map Prod.fst →
      Equivalent s t (.object (before ++ after)) (.object (before ++ (key, .null) :: after))
  /-- What a key says. It matters for every field of this key, of which there may be several. -/
  | member {t : Option Ty} {before after : List (String × Json)} {key : String} {j j' : Json} :
      (∀ f ∈ s.fieldsAt t, f.key = key → Equivalent s (some f.ty) j j') →
      Equivalent s t (.object (before ++ (key, j) :: after)) (.object (before ++ (key, j') :: after))
  /-- What an item says. -/
  | item {t : Option Ty} {before after : List Json} {j j' : Json} :
      Equivalent s (Ty.itemAt t) j j' →
      Equivalent s t (.array (before ++ j :: after)) (.array (before ++ j' :: after))

/-! ## What an object holds -/

namespace Json

theorem held_append (key : String) (before after : List (String × Json)) :
    held key (before ++ after) = (before.lookup key).getD (held key after) := by
  rw [held, List.lookup_append]
  cases before.lookup key <;> rfl

theorem held_cons (key k : String) (j : Json) (rest : List (String × Json)) :
    held key ((k, j) :: rest) = if key = k then j else held key rest := by
  by_cases h : key = k
  · rw [h, if_pos rfl, held, List.lookup_cons_self]
    rfl
  · rw [if_neg h, held, List.lookup_cons_of_ne h, held]

theorem held_swap {a b : String × Json} (h : a.1 ≠ b.1) (key : String)
    (before after : List (String × Json)) :
    held key (before ++ a :: b :: after) = held key (before ++ b :: a :: after) := by
  obtain ⟨k, j⟩ := a
  obtain ⟨k', j'⟩ := b
  simp only [held_append, held_cons]
  by_cases hk : key = k
  · have hk' : key ≠ k' := fun hk' => h (hk.symm.trans hk')
    rw [if_pos hk, if_neg hk', if_pos hk]
  · rw [if_neg hk, if_neg hk]

theorem held_insert_of_ne {key k : String} (h : key ≠ k) (j : Json)
    (before after : List (String × Json)) :
    held key (before ++ (k, j) :: after) = held key (before ++ after) := by
  rw [held_append, held_append, held_cons, if_neg h]

theorem held_insert_null {k : String} {before after : List (String × Json)}
    (h : k ∉ (before ++ after).map Prod.fst) (key : String) :
    held key (before ++ (k, .null) :: after) = held key (before ++ after) := by
  by_cases hk : key = k
  · subst hk
    have hmissing : (before ++ after).lookup key = none := by
      rw [List.lookup_eq_none_iff]
      exact fun m hm => by simpa using fun hkey => h (List.mem_map.mpr ⟨m, hm, hkey.symm⟩)
    have hbefore : before.lookup key = none := by
      rw [List.lookup_append, Option.or_eq_none_iff] at hmissing
      exact hmissing.1
    rw [held_append, hbefore, held_cons, if_pos rfl, held, hmissing]
  · exact held_insert_of_ne hk _ _ _

end Json

/-! ## Documents that are treated alike -/

/-- Objects and arrays. -/
def Json.isNested : Json → Bool
  | .array _ => true
  | .object _ => true
  | _ => false

theorem Json.ne_null_of_isNested {j : Json} (h : j.isNested = true) : j ≠ .null := by
  rintro rfl
  exact absurd h (by simp [isNested])

theorem Primitive.rejects_nested (p : Primitive) {j : Json} (h : j.isNested = true) (path : Path) :
    p.check path j = .error (.data path (.expected (Ty.primitive p false).form))
      ∧ p.valueOf path j = .error (.data path (.expected (Ty.primitive p false).form)) := by
  cases j with
  | array items =>
    cases p with
    | number k => cases k <;> exact ⟨rfl, rfl⟩
    | _ => exact ⟨rfl, rfl⟩
  | object members =>
    cases p with
    | number k => cases k <;> exact ⟨rfl, rfl⟩
    | _ => exact ⟨rfl, rfl⟩
  | _ => exact absurd h (by simp [Json.isNested])

namespace Schema

variable {s : Schema}

/-- The check and the conversion give the same for two documents, wherever they lie. -/
def Agree (s : Schema) (t : Ty) (j j' : Json) : Prop :=
  ∀ path, s.checkValue t path j = s.checkValue t path j' ∧ s.valueOf t path j = s.valueOf t path j'

theorem Agree.refl (t : Ty) (j : Json) : s.Agree t j j :=
  fun _ => ⟨rfl, rfl⟩

theorem Agree.of_eq {t : Ty} {j j' : Json} (h : j = j') : s.Agree t j j' :=
  h ▸ Agree.refl t j

/-- A primitive does not look into an object or an array. -/
theorem agree_primitive {p : Primitive} {o : Bool} {j j' : Json} (hj : j.isNested = true)
    (hj' : j'.isNested = true) : s.Agree (.primitive p o) j j' := by
  intro path
  rw [checkValue_primitive (Json.ne_null_of_isNested hj), valueOf_eq (Json.ne_null_of_isNested hj),
    checkValue_primitive (Json.ne_null_of_isNested hj'), valueOf_eq (Json.ne_null_of_isNested hj'),
    presentOf, presentOf]
  obtain ⟨hcheck, hvalue⟩ := p.rejects_nested hj path
  obtain ⟨hcheck', hvalue'⟩ := p.rejects_nested hj' path
  rw [hcheck, hcheck', hvalue, hvalue']
  exact ⟨rfl, rfl⟩

/-- **Objects are treated alike if they hold the same for the keys of the fields.** -/
theorem agree_object {t : Ty} {members members' : List (String × Json)}
    (h : ∀ f ∈ s.fieldsAt (some t),
      s.Agree f.ty (Json.held f.key members) (Json.held f.key members')) :
    s.Agree t (.object members) (.object members') := by
  cases t with
  | primitive p o => exact agree_primitive rfl rfl
  | struct id o =>
    intro path
    constructor
    · rw [checkValue, checkValue]
      exact Result.forM_congr fun f hf => (h f hf _).1
    · have hfields : ((s.fieldsOf id).mapM fun f =>
            s.valueOf f.ty (.key f.key :: path) (Json.held f.key members))
          = (s.fieldsOf id).mapM fun f =>
            s.valueOf f.ty (.key f.key :: path) (Json.held f.key members') :=
        mapM_congr fun f hf => (h f hf _).2
      rw [valueOf_eq (by simp), valueOf_eq (by simp), presentOf, presentOf, hfields]
  | array e o => exact fun path => by simp [checkValue, valueOf]

/-- Arrays are treated alike if they differ in one item that is. -/
theorem agree_array {t : Ty} {before after : List Json} {j j' : Json}
    (h : ∀ e, Ty.itemAt (some t) = some e → s.Agree e j j') :
    s.Agree t (.array (before ++ j :: after)) (.array (before ++ j' :: after)) := by
  cases t with
  | primitive p o => exact agree_primitive rfl rfl
  | struct id o => exact fun path => by simp [checkValue, valueOf]
  | array e o =>
    intro path
    have hitem := h e rfl
    have hlen : (before ++ j :: after).length = (before ++ j' :: after).length := by simp
    constructor
    · rw [checkValue_items, checkValue_items, hlen]
      simp only [List.zipIdx_append, List.zipIdx_cons, List.forM_eq_forM, List.forM_append,
        List.forM_cons, (hitem _).1]
    · rw [valueOf_eq (by simp), valueOf_eq (by simp), presentOf, presentOf, hlen]
      simp only [List.zipIdx_append, List.zipIdx_cons, List.mapM_append, List.mapM_cons,
        (hitem _).2]

/-- **Equivalent documents are treated alike.** -/
theorem Equivalent.agree {place : Option Ty} {j j' : Json} (h : s.Equivalent place j j') {t : Ty}
    (ht : place = some t) : s.Agree t j j' := by
  induction h generalizing t with
  | refl => exact .refl t _
  | symm _ ih => exact fun path => ⟨(ih ht path).1.symm, (ih ht path).2.symm⟩
  | trans _ _ ih ih' =>
    exact fun path => ⟨(ih ht path).1.trans (ih' ht path).1, (ih ht path).2.trans (ih' ht path).2⟩
  | swap hne => exact agree_object fun f _ => .of_eq (Json.held_swap hne f.key _ _)
  | unknown hkey =>
    subst ht
    exact agree_object fun f hf => .of_eq (Json.held_insert_of_ne (hkey f hf) _ _ _).symm
  | null hmissing => exact agree_object fun f _ => .of_eq (Json.held_insert_null hmissing f.key).symm
  | @member _ before after key j j' _ ih =>
    subst ht
    refine agree_object fun f hf => ?_
    rw [Json.held_append, Json.held_append, Json.held_cons, Json.held_cons]
    cases before.lookup f.key with
    | some first => exact .refl f.ty first
    | none =>
      by_cases hkey : f.key = key
      · rw [if_pos hkey, if_pos hkey]
        exact ih f hf hkey rfl
      · rw [if_neg hkey, if_neg hkey]
        exact .refl f.ty _
  | item _ ih =>
    subst ht
    exact agree_array fun e he => ih he

/-- If keys come once only, their order is free. -/
theorem equivalent_of_perm {t : Option Ty} {members members' : List (String × Json)}
    (h : members.Perm members') (hn : (members.map Prod.fst).Nodup) :
    s.Equivalent t (.object members) (.object members') := by
  -- what stands in front has its place already
  suffices hfront : ∀ front, s.Equivalent t (.object (front ++ members)) (.object (front ++ members'))
    from hfront []
  induction h with
  | nil => exact fun _ => .refl t _
  | cons m _ ih =>
    intro front
    have hrest := ih (List.nodup_cons.mp hn).2 (front ++ [m])
    rwa [List.append_assoc, List.append_assoc] at hrest
  | swap a b rest =>
    refine fun _ => .swap fun hsame => ?_
    rw [List.map_cons, List.map_cons, hsame] at hn
    exact absurd List.mem_cons_self (List.nodup_cons.mp hn).1
  | trans hfirst _ ih ih' =>
    exact fun front => (ih hn front).trans (ih' ((hfirst.map Prod.fst).nodup_iff.mp hn) front)

theorem convert_of_message {message : String} {m : Message} (hm : s.message? message = some m)
    (j : Json) : s.convert message j = (s.valueOf m.ty [] j).map Value.encode := by
  rw [convert, findMessage_eq_ok.mpr hm]
  rfl

end Schema

/-- The document with a level out of range again, in another order. Its state says `null` where it said
nothing, and more than it is asked. -/
def restatedDocument : Json :=
  .object [
    ("State", .object [("note", .bool true), ("Ready", .null)]),
    ("id", .number (.int 7)),
    ("Level", .number (.float hugeLevel)),
    ("Tags", .array [])]

theorem equivalent_restatedDocument :
    readingSchema.Equivalent (some (.struct 0 false)) strayDocument restatedDocument := by
  have hstate : ∀ place, (∀ f ∈ readingSchema.fieldsAt place, f.key ≠ "note") →
      readingSchema.Equivalent place (.object [])
        (.object [("note", .bool true), ("Ready", .null)]) := fun place hnote =>
    (@Schema.Equivalent.unknown _ _ [] [] _ _ hnote).trans
      (@Schema.Equivalent.null _ _ [_] [] _ (by decide))
  have hnote : ∀ f ∈ readingSchema.fieldsAt (some (.struct 0 false)),
      ∀ g ∈ readingSchema.fieldsAt (some f.ty), g.key ≠ "note" := by decide
  refine .trans (@Schema.Equivalent.member _ _ [_, _, _] [] _ _ _ fun f hf _ =>
    hstate _ (hnote f hf)) ?_
  exact Schema.equivalent_of_perm List.perm_append_comm (by decide)

end WireSchema
