import WireSchema.Json.Basic
import WireSchema.Layout.Analysis
import Mathlib.Data.List.Nodup

/-!
# Lists of keys and values

Two kinds of lists hold values under keys: one is kept in the order of the keys, the other in the
order of insertion. Both obey one law of insertion, and what a row of insertions leaves behind
follows from this law alone.
-/

/-- A key is looked up behind an entry of another key. -/
theorem List.lookup_cons_of_ne {α β : Type} [BEq α] [LawfulBEq α] {key k : α} {v : β}
    {l : List (α × β)} (h : key ≠ k) : ((k, v) :: l).lookup key = l.lookup key := by
  rw [List.lookup_cons, beq_eq_false_iff_ne.mpr h]

/-- If keys come once only, every entry is found under its key. -/
theorem List.lookup_of_mem {α β : Type} [BEq α] [LawfulBEq α] {l : List (α × β)}
    (hn : (l.map Prod.fst).Nodup) {key : α} {v : β} (h : (key, v) ∈ l) :
    l.lookup key = some v := by
  induction l with
  | nil => exact absurd h (by simp)
  | cons entry rest ih =>
    obtain ⟨k, v'⟩ := entry
    rw [List.map_cons, List.nodup_cons] at hn
    rcases List.mem_cons.mp h with heq | hrest
    · injection heq with hk hv
      rw [hk, hv, List.lookup_cons_self]
    · have hne : key ≠ k := by
        rintro rfl
        exact hn.1 (List.mem_map.mpr ⟨(key, v), hrest, rfl⟩)
      rw [List.lookup_cons_of_ne hne]
      exact ih hn.2 hrest

namespace WireSchema

variable {α β : Type}

/-- After an insertion its key holds the new value, and every other key what it held. -/
def Inserts (insert : String → α → List (String × α) → List (String × α)) : Prop :=
  ∀ name value list key,
    (insert name value list).lookup key = if key = name then some value else list.lookup key

theorem inserts_insertByName : Inserts (insertByName (α := α)) := by
  intro name value list key
  induction list with
  | nil =>
    rw [insertByName]
    split
    · rename_i hk
      rw [hk, List.lookup_cons_self]
    · rename_i hk
      rw [List.lookup_cons_of_ne hk]
  | cons entry rest ih =>
    obtain ⟨n, v⟩ := entry
    unfold insertByName
    by_cases hk : key = name
    · subst hk
      rw [if_pos rfl] at ih ⊢
      split
      · exact List.lookup_cons_self
      · rename_i hne
        split
        · exact List.lookup_cons_self
        · rw [List.lookup_cons_of_ne hne, ih]
    · rw [if_neg hk] at ih ⊢
      split
      · rename_i hn
        subst hn
        rw [List.lookup_cons_of_ne hk, List.lookup_cons_of_ne hk]
      · split
        · rw [List.lookup_cons_of_ne hk]
        · by_cases hn : key = n
          · rw [hn, List.lookup_cons_self, List.lookup_cons_self]
          · rw [List.lookup_cons_of_ne hn, List.lookup_cons_of_ne hn, ih]

theorem inserts_insertMember : Inserts (Json.insertMember (α := α)) := by
  intro name value list key
  induction list with
  | nil =>
    rw [Json.insertMember]
    split
    · rename_i hk
      rw [hk, List.lookup_cons_self]
    · rename_i hk
      rw [List.lookup_cons_of_ne hk]
  | cons entry rest ih =>
    obtain ⟨n, v⟩ := entry
    unfold Json.insertMember
    by_cases hn : n = name
    · -- the entry is replaced where it stands
      subst hn
      rw [if_pos rfl]
      split
      · rename_i hk
        rw [hk, List.lookup_cons_self]
      · rename_i hk
        rw [List.lookup_cons_of_ne hk, List.lookup_cons_of_ne hk]
    · rw [if_neg hn]
      by_cases hk : key = n
      · rw [hk, List.lookup_cons_self, List.lookup_cons_self, if_neg hn]
      · rw [List.lookup_cons_of_ne hk, List.lookup_cons_of_ne hk, ih]

namespace Inserts

variable {insert : String → α → List (String × α) → List (String × α)} {name : β → String}
  {value : β → α}

theorem lookup_foldl_of_not_mem (h : Inserts insert) {xs : List β} {key : String}
    (hkey : key ∉ xs.map name) (list : List (String × α)) :
    (xs.foldl (fun found x => insert (name x) (value x) found) list).lookup key
      = list.lookup key := by
  induction xs generalizing list with
  | nil => rfl
  | cons x xs ih =>
    rw [List.map_cons, List.mem_cons, not_or] at hkey
    rw [List.foldl_cons, ih hkey.2, h, if_neg hkey.1]

/-- Values that go under one key may come several times if they are the same. -/
theorem lookup_foldl_of_agree (h : Inserts insert) {xs : List β} {x : β} (hx : x ∈ xs)
    (hagree : ∀ y ∈ xs, name y = name x → value y = value x) (list : List (String × α)) :
    (xs.foldl (fun found x => insert (name x) (value x) found) list).lookup (name x)
      = some (value x) := by
  induction xs generalizing list x with
  | nil => exact absurd hx (by simp)
  | cons y ys ih =>
    rw [List.foldl_cons]
    by_cases hlater : name x ∈ ys.map name
    · -- the last insertion under the key decides
      obtain ⟨z, hz, hname⟩ := List.mem_map.mp hlater
      have hvalue := hagree z (List.mem_cons_of_mem _ hz) hname
      rw [← hname, ← hvalue]
      refine ih hz (fun w hw hwz => ?_) _
      rw [hagree w (List.mem_cons_of_mem _ hw) (hwz.trans hname), hvalue]
    · have hxy : x = y := by
        rcases List.mem_cons.mp hx with rfl | hx
        · rfl
        · exact absurd (List.mem_map.mpr ⟨x, hx, rfl⟩) hlater
      rw [h.lookup_foldl_of_not_mem hlater, h, hxy, if_pos rfl]

theorem lookup_foldl (h : Inserts insert) {xs : List β} (hn : (xs.map name).Nodup) {x : β}
    (hx : x ∈ xs) (list : List (String × α)) :
    (xs.foldl (fun found x => insert (name x) (value x) found) list).lookup (name x)
      = some (value x) :=
  h.lookup_foldl_of_agree hx
    (fun _ hy hname => congrArg value (List.inj_on_of_nodup_map hn hy hx hname)) list

/-- **The last value that goes under a key is the one it holds.** -/
theorem lookup_foldl_getLast? (h : Inserts insert) (xs : List β) (key : String)
    (list : List (String × α)) :
    (xs.foldl (fun found x => insert (name x) (value x) found) list).lookup key
      = ((xs.filter fun x => name x == key).getLast?.map value).or (list.lookup key) := by
  induction xs generalizing list with
  | nil => rfl
  | cons x xs ih =>
    rw [List.foldl_cons, ih, h]
    by_cases hk : name x = key
    · -- this value stands unless a later one goes under its key
      rw [List.filter_cons_of_pos (by simpa using hk), if_pos hk.symm, List.getLast?_cons]
      cases (xs.filter fun x => name x == key).getLast? <;> rfl
    · rw [List.filter_cons_of_neg (by simpa using hk), if_neg (Ne.symm hk)]

end Inserts

/-! ## Keys -/

theorem insertMember_of_not_mem {name : String} {list : List (String × α)}
    (hnew : name ∉ list.map Prod.fst) (value : α) :
    Json.insertMember name value list = list ++ [(name, value)] := by
  induction list with
  | nil => rfl
  | cons entry rest ih =>
    obtain ⟨n, v⟩ := entry
    rw [List.map_cons, List.mem_cons, not_or] at hnew
    rw [Json.insertMember, if_neg (Ne.symm hnew.1), ih hnew.2, List.cons_append]

theorem keys_insertMember_of_mem {name : String} {list : List (String × α)}
    (hold : name ∈ list.map Prod.fst) (value : α) :
    (Json.insertMember name value list).map Prod.fst = list.map Prod.fst := by
  induction list with
  | nil => exact absurd hold (by simp)
  | cons entry rest ih =>
    obtain ⟨n, v⟩ := entry
    rw [Json.insertMember]
    by_cases hn : n = name
    · rw [if_pos hn, List.map_cons, List.map_cons]
    · have hrest := (List.mem_cons.mp hold).resolve_left (Ne.symm hn)
      rw [if_neg hn, List.map_cons, List.map_cons, ih hrest]

/-- Members have different keys, however often a key is put in. -/
theorem nodup_foldl_insertMember (name : β → String) (value : β → α) (xs : List β) :
    ((xs.foldl (fun found x => Json.insertMember (name x) (value x) found) []).map
      Prod.fst).Nodup := by
  have hstep : ∀ list : List (String × α), (list.map Prod.fst).Nodup → ∀ x ∈ xs,
      ((Json.insertMember (name x) (value x) list).map Prod.fst).Nodup := by
    intro list hlist x _
    by_cases hx : name x ∈ list.map Prod.fst
    · rwa [keys_insertMember_of_mem hx]
    · rw [insertMember_of_not_mem hx, List.map_append]
      exact List.nodup_append_comm.mp (List.nodup_cons.mpr ⟨hx, hlist⟩)
  exact List.foldlRecOn (motive := fun list : List (String × α) => (list.map Prod.fst).Nodup) xs _
    List.nodup_nil hstep

/-- **Values that go under different keys all stay, in their order.** -/
theorem foldl_insertMember_of_nodup {name : β → String} {value : β → α} {xs : List β}
    (hn : (xs.map name).Nodup) :
    xs.foldl (fun found x => Json.insertMember (name x) (value x) found) []
      = xs.map fun x => (name x, value x) := by
  have hinto : ∀ (xs : List β) (list : List (String × α)), (list.map Prod.fst ++ xs.map name).Nodup →
      xs.foldl (fun found x => Json.insertMember (name x) (value x) found) list
        = list ++ xs.map fun x => (name x, value x) := by
    intro xs
    induction xs with
    | nil =>
      intro list _
      rw [List.foldl_nil, List.map_nil, List.append_nil]
    | cons x xs ih =>
      intro list hn
      rw [List.map_cons] at hn
      have hnew : name x ∉ list.map Prod.fst := fun hmem =>
        (List.nodup_append.mp hn).2.2 _ hmem _ List.mem_cons_self rfl
      have hnext : (((list ++ [(name x, value x)]).map Prod.fst) ++ xs.map name).Nodup := by
        rwa [List.map_append, List.append_assoc]
      rw [List.foldl_cons, insertMember_of_not_mem hnew, ih _ hnext, List.append_assoc]
      rfl
  exact hinto xs [] hn

theorem keys_insertByName {name : String} {list : List (String × α)}
    (hnew : name ∉ list.map Prod.fst) (value : α) :
    ((insertByName name value list).map Prod.fst).Perm (name :: list.map Prod.fst) := by
  induction list with
  | nil => exact .rfl
  | cons entry rest ih =>
    obtain ⟨n, v⟩ := entry
    rw [List.map_cons, List.mem_cons, not_or] at hnew
    unfold insertByName
    rw [if_neg hnew.1]
    split
    · exact .rfl
    · exact ((ih hnew.2).cons n).trans (.swap _ _ _)

/-- **Names that come once are the keys of the list they are put into.** -/
theorem keys_foldl_insertByName {name : β → String} {value : β → α} {xs : List β}
    (hn : (xs.map name).Nodup) :
    ((xs.foldl (fun found x => insertByName (name x) (value x) found) []).map Prod.fst).Perm
      (xs.map name) := by
  have hinto : ∀ (xs : List β) (list : List (String × α)), (xs.map name).Nodup →
      (∀ key ∈ list.map Prod.fst, key ∉ xs.map name) →
      ((xs.foldl (fun found x => insertByName (name x) (value x) found) list).map Prod.fst).Perm
        (xs.map name ++ list.map Prod.fst) := by
    intro xs
    induction xs with
    | nil => exact fun list _ _ => .rfl
    | cons x xs ih =>
      intro list hn hnew
      rw [List.map_cons, List.nodup_cons] at hn
      have hx : name x ∉ list.map Prod.fst := fun h => hnew _ h List.mem_cons_self
      have hkeys := keys_insertByName hx (value x)
      have hrest := ih (insertByName (name x) (value x) list) hn.2 fun key hkey hmem => by
        rcases List.mem_cons.mp (hkeys.mem_iff.mp hkey) with rfl | hkey
        · exact hn.1 hmem
        · exact hnew key hkey (List.mem_cons_of_mem _ hmem)
      exact (hrest.trans (hkeys.append_left _)).trans List.perm_middle
  have hall := hinto xs [] hn fun _ h => absurd h (by simp)
  rwa [List.map_nil, List.append_nil] at hall

end WireSchema
