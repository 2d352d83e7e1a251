import WireSchema.Proofs.StringLiterals
import WireSchema.Schema.Basic

/-!
# Looking up a key in a tag

A tag is text, and the lookup goes through it from colon to quote to quote. What stands between the
quotes is jumped over, so it may well look like further entries. The tags that people write are
entries with blanks between them, and of such a tag the lookup gives **the value of the first entry
with the key**. Of any other text it gives a part of the text or nothing, and it always comes to an
end: every pass that does not end the scan has a colon less in front of it.
-/

namespace WireSchema

namespace Text

theorem cutAt?_append {c : Char} {before : List Char} (h : c ∉ before) (after : List Char) :
    cutAt? c (before ++ c :: after) = some (before, after) := by
  have hpass : ∀ d ∈ before, (d != c) = true := fun d hd =>
    bne_iff_ne.mpr fun heq => h (heq ▸ hd)
  unfold cutAt?
  rw [List.dropWhile_append_of_pos hpass, List.takeWhile_append_of_pos hpass,
    List.dropWhile_cons_of_neg (by simp), List.takeWhile_cons_of_neg (by simp), List.append_nil]

theorem trimStart_append {gap : List Char} (h : ∀ c ∈ gap, isBlank c = true) (cs : List Char) :
    trimStart (gap ++ cs) = trimStart cs :=
  List.dropWhile_append_of_pos h

theorem trimStart_of_blanks {gap : List Char} (h : ∀ c ∈ gap, isBlank c = true) :
    trimStart gap = [] :=
  List.dropWhile_eq_nil_iff.mpr h

theorem trimStart_cons {c : Char} (h : isBlank c = false) (cs : List Char) :
    trimStart (c :: cs) = c :: cs :=
  List.dropWhile_cons_of_neg (by rw [h]; decide)

/-- Blanks behind something that is none are cut off. -/
theorem trimEnd_append {gap : List Char} (hgap : ∀ c ∈ gap, isBlank c = true) {c : Char}
    (hc : isBlank c = false) (cs : List Char) : trimEnd (cs ++ c :: gap) = cs ++ [c] := by
  have hrev : ∀ d ∈ gap.reverse, isBlank d = true := fun d hd => hgap d (List.mem_reverse.mp hd)
  rw [trimEnd, List.reverse_append, List.reverse_cons, List.append_assoc,
    List.dropWhile_append_of_pos hrev, List.singleton_append,
    List.dropWhile_cons_of_neg (by rw [hc]; decide), List.reverse_cons, List.reverse_reverse]

theorem trim_of_no_blanks {cs : List Char} (h : ∀ c ∈ cs, isBlank c = false) : trim cs = cs := by
  have hkeep : ∀ ds : List Char, (∀ d ∈ ds, isBlank d = false) → ds.dropWhile isBlank = ds := by
    intro ds hds
    cases ds with
    | nil => rfl
    | cons d ds => exact trimStart_cons (hds d List.mem_cons_self) ds
  rw [trim, trimStart, hkeep cs h, trimEnd,
    hkeep cs.reverse fun d hd => h d (List.mem_reverse.mp hd), List.reverse_reverse]

theorem isSuffix_trimStart (cs : List Char) : trimStart cs <:+ cs :=
  List.dropWhile_suffix isBlank

/-- What is left of a text is a part of it. -/
theorem isInfix_trim (cs : List Char) : trim cs <:+: cs := by
  have hend : trimEnd (trimStart cs) <+: trimStart cs := by
    rw [trimEnd, ← List.reverse_suffix, List.reverse_reverse]
    exact List.dropWhile_suffix isBlank
  exact hend.isInfix.trans (isSuffix_trimStart cs).isInfix

end Text

namespace Tag

/-! ## Tags as they are written -/

/-- A character that a key may have. -/
def isKeyChar (c : Char) : Bool :=
  c != ':' && c != '"' && !Text.isBlank c

/-- A key and its value. -/
structure Entry where
  key : String
  value : String
  key_ne : key ≠ ""
  key_plain : key.toList.all isKeyChar = true
  value_plain : '"' ∉ value.toList

/-- What stands between entries. -/
abbrev Blanks : Type :=
  { gap : List Char // gap.all Text.isBlank = true }

theorem Blanks.isBlank (gap : Blanks) : ∀ c ∈ gap.1, Text.isBlank c = true :=
  List.all_eq_true.mp gap.2

theorem Entry.not_isBlank (e : Entry) : ∀ c ∈ e.key.toList, Text.isBlank c = false := by
  intro c hc
  have := ((Bool.and_eq_true _ _).mp (List.all_eq_true.mp e.key_plain c hc)).2
  simpa using this

theorem Entry.colon_not_mem (e : Entry) : ':' ∉ e.key.toList :=
  fun hmem => absurd (List.all_eq_true.mp e.key_plain _ hmem) (by decide)

def Entry.chars (e : Entry) : List Char :=
  e.key.toList ++ ':' :: '"' :: (e.value.toList ++ ['"'])

/-- Entries with blanks in front of each, and blanks at the end. -/
def chars (last : Blanks) : List (Blanks × Entry) → List Char
  | [] => last.1
  | (gap, e) :: rest => gap.1 ++ (e.chars ++ chars last rest)

/-- The tag that entries are written as. -/
def written (entries : List (Blanks × Entry)) (last : Blanks) : String :=
  String.ofList (chars last entries)

/-- The value of the first entry with a key. -/
def lookup? (entries : List (Blanks × Entry)) (key : String) : Option String :=
  ((entries.map Prod.snd).find? (·.key == key)).map Entry.value

/-- `part` is what stands in front of the first comma of a value, if there is a comma. -/
structure IsFirstPart (value part : String) : Prop where
  no_comma : ',' ∉ part.toList
  value_eq : value = part ∨ ∃ more, value = part ++ "," ++ more

/-! ## One entry -/

/-- A tag that starts with an entry is read entry by entry. -/
theorem find?_entry (e : Entry) (key : String) (rest : List Char) :
    find? key.toList (e.chars ++ rest)
      = if e.key = key then some e.value.toList else find? key.toList (Text.trimStart rest) := by
  have hname : Text.trim e.key.toList = e.key.toList := Text.trim_of_no_blanks e.not_isBlank
  have hcut : Text.cutAt? ':' (e.chars ++ rest)
      = some (e.key.toList, '"' :: (e.value.toList ++ '"' :: rest)) := by
    rw [Entry.chars, List.append_assoc]
    simpa using Text.cutAt?_append e.colon_not_mem ('"' :: (e.value.toList ++ '"' :: rest))
  have hquote := Text.cutAt?_append e.value_plain rest
  rw [find?]
  split
  · rename_i name quoted hc
    rw [hcut] at hc
    simp only [Option.some.injEq, Prod.mk.injEq, List.cons.injEq, true_and] at hc
    obtain ⟨rfl, rfl⟩ := hc
    split
    · rename_i value after hq
      rw [hquote] at hq
      simp only [Option.some.injEq, Prod.mk.injEq] at hq
      obtain ⟨rfl, rfl⟩ := hq
      rw [hname]
      simp only [String.toList_inj]
    · rename_i hq
      rw [hquote] at hq
      cases hq
  · rename_i hnone
    exact absurd hcut (hnone _ _)

/-! ## All entries -/

theorem trimStart_chars_cons (last gap : Blanks) (e : Entry) (rest : List (Blanks × Entry)) :
    Text.trimStart (chars last ((gap, e) :: rest)) = e.chars ++ chars last rest := by
  rw [chars, Text.trimStart_append gap.isBlank, Entry.chars]
  -- the key is not empty, and does not start with a blank
  cases hkey : e.key.toList with
  | nil => exact absurd (String.toList_eq_nil_iff.mp hkey) e.key_ne
  | cons c key =>
    exact Text.trimStart_cons (e.not_isBlank c (hkey ▸ List.mem_cons_self)) _

/-- Entries end in a quote, with the blanks at the end behind it. -/
theorem exists_chars_eq (e : Entry) (rest : List (Blanks × Entry)) :
    ∃ front, ∀ last : Blanks, e.chars ++ chars last rest = front ++ '"' :: last.1 := by
  induction rest generalizing e with
  | nil =>
    refine ⟨e.key.toList ++ ':' :: '"' :: e.value.toList, fun last => ?_⟩
    simp [Entry.chars, chars]
  | cons next rest ih =>
    obtain ⟨gap, e'⟩ := next
    obtain ⟨front, hfront⟩ := ih e'
    refine ⟨e.chars ++ (gap.1 ++ front), fun last => ?_⟩
    rw [chars, hfront, List.append_assoc, List.append_assoc]

/-- The blanks at both ends of a tag make no difference. -/
theorem trim_chars (last : Blanks) (entries : List (Blanks × Entry)) :
    Text.trim (chars last entries) = Text.trimStart (chars ⟨[], rfl⟩ entries) := by
  cases entries with
  | nil =>
    rw [Text.trim, chars, Text.trimStart_of_blanks last.isBlank]
    rfl
  | cons first rest =>
    obtain ⟨gap, e⟩ := first
    obtain ⟨front, hfront⟩ := exists_chars_eq e rest
    rw [Text.trim, trimStart_chars_cons, trimStart_chars_cons, hfront, hfront]
    exact Text.trimEnd_append last.isBlank (by decide) front

theorem lookup?_cons (gap : Blanks) (e : Entry) (rest : List (Blanks × Entry)) (key : String) :
    lookup? ((gap, e) :: rest) key = if e.key = key then some e.value else lookup? rest key := by
  rw [lookup?, List.map_cons, List.find?_cons]
  by_cases hkey : e.key = key
  · rw [if_pos hkey, beq_iff_eq.mpr hkey]
    rfl
  · rw [if_neg hkey, beq_eq_false_iff_ne.mpr hkey]
    rfl

theorem find?_chars (last : Blanks) (entries : List (Blanks × Entry)) (key : String) :
    find? key.toList (Text.trimStart (chars last entries))
      = (lookup? entries key).map String.toList := by
  induction entries with
  | nil =>
    rw [chars, Text.trimStart_of_blanks last.isBlank, find?]
    rfl
  | cons first rest ih =>
    obtain ⟨gap, e⟩ := first
    rw [trimStart_chars_cons, find?_entry, ih, lookup?_cons]
    by_cases hkey : e.key = key
    · rw [if_pos hkey, if_pos hkey, Option.map_some]
    · rw [if_neg hkey, if_neg hkey]

/-- **The lookup finds the first entry with the key.** -/
theorem value?_written (entries : List (Blanks × Entry)) (last : Blanks) (key : String) :
    value? (written entries last) key = lookup? entries key := by
  rw [value?, written, String.toList_ofList, trim_chars, find?_chars, Option.map_map]
  cases lookup? entries key with
  | none => rfl
  | some value => exact congrArg some (String.ofList_toList)

/-! ## Keys of fields -/

theorem isFirstPart_firstOption (value : String) : IsFirstPart value (firstOption value) where
  no_comma := by
    rw [firstOption, String.toList_ofList]
    intro hmem
    exact absurd (List.mem_takeWhile_imp hmem) (by decide)
  value_eq := by
    have hsplit := List.takeWhile_append_dropWhile (p := (· != ',')) (l := value.toList)
    cases hdrop : value.toList.dropWhile (· != ',') with
    | nil =>
      left
      rw [hdrop, List.append_nil] at hsplit
      rw [firstOption, hsplit, String.ofList_toList]
    | cons c more =>
      -- what stops the part is a comma
      have hcomma : c = ',' := by
        have := List.head?_dropWhile_not (· != ',') value.toList
        rw [hdrop] at this
        simpa using this
      right
      refine ⟨String.ofList more, ?_⟩
      rw [hdrop, hcomma] at hsplit
      rw [← String.toList_inj, firstOption, String.toList_append, String.toList_append,
        String.toList_ofList, String.toList_ofList, List.append_assoc]
      exact hsplit.symm.trans (by simp)

end Tag

namespace Field

/-- The key of a field, given the value of its `json` entry, if there is one. -/
def KeyFrom (f : Field) : Option String → Prop
  | none => f.key = f.name
  | some value => ∃ part, Tag.IsFirstPart value part ∧
      f.key = if part = "" ∨ part = "-" then f.name else part

theorem keyFrom_tag (f : Field) : f.KeyFrom (f.tag.bind (Tag.value? · "json")) := by
  cases h : f.tag.bind (Tag.value? · "json") with
  | none =>
    rw [KeyFrom, key, h]
    rfl
  | some value =>
    refine ⟨_, Tag.isFirstPart_firstOption value, ?_⟩
    rw [key, h]
    rfl

end Field

namespace Tag

/-! ## Any text -/

/-- What one pass of the scan comes to. -/
inductive Pass where
  | found (value : List Char)
  | absent
  | onward (rest : List Char)

/-- A pass of the scan for a key. -/
def pass (key rest : List Char) : Pass :=
  if rest = [] then .absent
  else
    match Text.cutAt? ':' rest with
    | some (name, '"' :: quoted) =>
      match Text.cutAt? '"' quoted with
      | some (value, after) =>
        if Text.trim name = key then .found value else .onward (Text.trimStart after)
      | none => .absent
    | _ => .absent

/-- The scan with a limit on its passes; there is no answer if they do not suffice. -/
def passes (key : List Char) : (limit : Nat) → List Char → Option (Option (List Char))
  | 0, _ => none
  | limit + 1, rest =>
    match pass key rest with
    | .found value => some (some value)
    | .absent => some none
    | .onward rest' => passes key limit rest'

/-- The text in front of which a pass stands, if it finds an entry there. -/
theorem eq_of_cutAt? {rest name quoted value after : List Char}
    (hc : Text.cutAt? ':' rest = some (name, '"' :: quoted))
    (hq : Text.cutAt? '"' quoted = some (value, after)) :
    rest = name ++ ':' :: '"' :: (value ++ '"' :: after) := by
  rw [(Text.cutAt?_eq_some hc).1, (Text.cutAt?_eq_some hq).1]

/-- **What a pass comes to**, and that it agrees with the lookup. -/
theorem pass_cases (key rest : List Char) :
    (pass key rest = .absent ∧ find? key rest = none)
      ∨ (∃ value, pass key rest = .found value ∧ find? key rest = some value)
      ∨ ∃ rest', pass key rest = .onward rest' ∧ find? key rest = find? key rest'
        ∧ rest'.count ':' < rest.count ':' := by
  by_cases hnil : rest = []
  · left
    rw [pass, if_pos hnil, hnil, find?]
    exact ⟨rfl, rfl⟩
  · rw [pass, if_neg hnil]
    fun_cases find? key rest with
    | case1 name quoted hc value after hq _ hname =>
      refine .inr (.inl ⟨value, ?_, rfl⟩)
      simp only [hc, hq, if_pos hname]
    | case2 name quoted hc value after hq _ hname =>
      refine .inr (.inr ⟨Text.trimStart after, ?_, rfl, ?_⟩)
      · simp only [hc, hq, if_neg hname]
      · -- the colon of the entry is behind the scan
        have hle := (Text.isSuffix_trimStart after).sublist.count_le ':'
        rw [eq_of_cutAt? hc hq, List.count_append, List.count_cons_self,
          List.count_cons_of_ne (by decide), List.count_append, List.count_cons_of_ne (by decide)]
        omega
    | case3 name quoted hc hq =>
      refine .inl ⟨?_, rfl⟩
      simp only [hc, hq]
    | case4 hnone =>
      refine .inl ⟨?_, rfl⟩
      split
      · rename_i name quoted hc
        exact absurd hc (hnone name quoted)
      · rfl

/-- **The scan ends**: as many passes as there are colons, and one more, are enough. -/
theorem passes_eq {key rest : List Char} {limit : Nat} (h : rest.count ':' < limit) :
    passes key limit rest = some (find? key rest) := by
  induction limit generalizing rest with
  | zero => exact absurd h (Nat.not_lt_zero _)
  | succ limit ih =>
    rw [passes]
    rcases pass_cases key rest with ⟨hpass, hfind⟩ | ⟨value, hpass, hfind⟩ |
      ⟨rest', hpass, hfind, hcount⟩
    · rw [hpass, hfind]
    · rw [hpass, hfind]
    · rw [hpass, hfind]
      exact ih (by omega)

/-- The value of an entry of a tag ends at the first quote. -/
theorem quote_not_mem_find? {key tag value : List Char} (h : find? key tag = some value) :
    '"' ∉ value := by
  fun_induction find? key tag with
  | case1 tag name quoted _ value' rest hq _ _ =>
    obtain rfl := Option.some.inj h
    exact (Text.cutAt?_eq_some hq).2
  | case2 tag name quoted _ value' rest _ _ _ ih => exact ih h
  | case3 => exact nomatch h
  | case4 => exact nomatch h

/-- **What is found is a part of the text.** -/
theorem isInfix_of_find? {key rest value : List Char} (h : find? key rest = some value) :
    value <:+: rest := by
  fun_induction find? key rest with
  | case1 rest name quoted hc value' after hq _ _ =>
    obtain rfl := Option.some.inj h
    exact ⟨name ++ [':', '"'], '"' :: after, by rw [eq_of_cutAt? hc hq]; simp⟩
  | case2 rest name quoted hc value' after hq _ _ ih =>
    have hsuffix : after <:+ rest :=
      ⟨name ++ ':' :: '"' :: (value' ++ ['"']), by rw [eq_of_cutAt? hc hq]; simp⟩
    exact (ih h).trans ((Text.isSuffix_trimStart after).trans hsuffix).isInfix
  | case3 => exact nomatch h
  | case4 => exact nomatch h

/--
**Looking up a key in a tag.** Of a tag that is written as entries with blanks between them, the
lookup gives the value of the first entry with the key, whatever the values look like. The key of a
field is then the part of the `json` value in front of its first comma, unless that is empty or `-` or
there is no such entry; in these cases, and without a tag, it is the field's name. Of any text, the
scan is over after as many passes as the text has colons and one more, and what it finds is a part
of the text.
-/
theorem tag_lookup :
    (∀ (entries : List (Blanks × Entry)) (last : Blanks) (key : String),
        value? (written entries last) key = lookup? entries key)
      ∧ (∀ (entries : List (Blanks × Entry)) (last : Blanks) (f : Field),
          f.tag = some (written entries last) → f.KeyFrom (lookup? entries "json"))
      ∧ (∀ f : Field, f.tag = none → f.key = f.name)
      ∧ (∀ tag key : String, ∃ limit ≤ tag.toList.count ':' + 1,
          (passes key.toList limit (Text.trim tag.toList)).map (Option.map String.ofList)
            = some (value? tag key))
      ∧ ∀ tag key value : String, value? tag key = some value → value.toList <:+: tag.toList := by
  refine ⟨value?_written, fun entries last f htag => ?_, fun f htag => ?_, fun tag key => ?_, ?_⟩
  · have hkey := f.keyFrom_tag
    rwa [htag, Option.bind_some, value?_written] at hkey
  · have hkey := f.keyFrom_tag
    rwa [htag] at hkey
  · have hcount := (Text.isInfix_trim tag.toList).sublist.count_le ':'
    exact ⟨_, Nat.succ_le_succ hcount, by rw [passes_eq (Nat.lt_succ_self _)]; rfl⟩
  · intro tag key value h
    obtain ⟨chars, hfind, rfl⟩ := Option.map_eq_some_iff.mp h
    rw [String.toList_ofList]
    exact (isInfix_of_find? hfind).trans (Text.isInfix_trim tag.toList)

/-- A value with a colon, a comma and something like an entry in it, and a key that is there twice. -/
def crowded : List (Blanks × Entry) :=
  [(⟨[], by decide⟩, ⟨"xml", "a:b, json: c", by decide, by decide, by decide⟩),
    (⟨[' '], by decide⟩, ⟨"json", "id,omitempty", by decide, by decide, by decide⟩),
    (⟨['\t', ' '], by decide⟩, ⟨"json", "other", by decide, by decide, by decide⟩)]

def crowdedField : Field :=
  { name := "Id", pos := .start, ty := .primitive .string false,
    tag := some (written crowded ⟨['\n'], by decide⟩) }

theorem tag_lookup_crowded :
    written crowded ⟨['\n'], by decide⟩
        = "xml:\"a:b, json: c\" json:\"id,omitempty\"\t json:\"other\"\n"
      ∧ value? (written crowded ⟨['\n'], by decide⟩) "json" = some "id,omitempty"
      ∧ crowdedField.KeyFrom (some "id,omitempty")
      ∧ { crowdedField with tag := none }.key = "Id"
      ∧ "id,omitempty".toList <:+: (written crowded ⟨['\n'], by decide⟩).toList := by
  obtain ⟨hvalue, hkey, hplain, _, hpart⟩ := tag_lookup
  have hlookup : lookup? crowded "json" = some "id,omitempty" := by decide
  have hjson := (hvalue crowded ⟨['\n'], by decide⟩ "json").trans hlookup
  refine ⟨by decide, hjson, ?_, hplain _ rfl, hpart _ _ _ hjson⟩
  have hfrom := hkey crowded ⟨['\n'], by decide⟩ crowdedField rfl
  rwa [hlookup] at hfrom

end Tag

end WireSchema
