/-!
# Blanks

The characters with the Unicode property `White_Space`, and what is left of a text without the ones
around it.
-/

namespace WireSchema.Text

/-- A `White_Space` character. -/
def isBlank (c : Char) : Bool :=
  let n := c.toNat
  (0x09 ≤ n && n ≤ 0x0D) || n == 0x20 || n == 0x85 || n == 0xA0 || n == 0x1680 ||
    (0x2000 ≤ n && n ≤ 0x200A) || n == 0x2028 || n == 0x2029 || n == 0x202F || n == 0x205F ||
    n == 0x3000

/-- Without the blanks in front. -/
def trimStart (cs : List Char) : List Char :=
  cs.dropWhile isBlank

/-- Without the blanks behind. -/
def trimEnd (cs : List Char) : List Char :=
  (cs.reverse.dropWhile isBlank).reverse

/-- Without the blanks in front and behind. -/
def trim (cs : List Char) : List Char :=
  trimEnd (trimStart cs)

/-- The characters before and after the first `c`, if there is one. -/
def cutAt? (c : Char) (cs : List Char) : Option (List Char × List Char) :=
  match cs.dropWhile (· != c) with
  | [] => none
  | _ :: after => some (cs.takeWhile (· != c), after)

theorem length_dropWhile_le {α : Type} (p : α → Bool) (cs : List α) :
    (cs.dropWhile p).length ≤ cs.length := by
  induction cs with
  | nil => simp
  | cons c cs ih =>
    simp only [List.dropWhile_cons]
    split
    · exact Nat.le_succ_of_le ih
    · exact Nat.le_refl _

theorem length_trimStart_le (cs : List Char) : (trimStart cs).length ≤ cs.length :=
  length_dropWhile_le _ _

/-- What lies after a cut is shorter than what was cut. -/
theorem length_of_cutAt? {c : Char} {cs before after : List Char}
    (h : cutAt? c cs = some (before, after)) : after.length < cs.length := by
  unfold cutAt? at h
  split at h
  · simp at h
  · rename_i rest hrest
    have hle := length_dropWhile_le (· != c) cs
    rw [hrest] at hle
    simp only [Option.some.injEq, Prod.mk.injEq] at h
    rw [← h.2]
    simp only [List.length_cons] at hle
    omega

end WireSchema.Text
