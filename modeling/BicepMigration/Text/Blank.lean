/-!
# White space

The Unicode property White_Space, and the operations that are defined by it: trimming a text and cutting it into words.
-/

namespace BicepMigration.Text

/-- The Unicode property White_Space. -/
def isBlank (c : Char) : Bool :=
  let n := c.toNat
  (9 ≤ n && n ≤ 13) || n = 0x20 || n = 0x85 || n = 0xA0 || n = 0x1680 || (0x2000 ≤ n && n ≤ 0x200A) ||
    n = 0x2028 || n = 0x2029 || n = 0x202F || n = 0x205F || n = 0x3000

/-- Characters without the white space at their end. -/
def trimEnd (cs : List Char) : List Char :=
  (cs.reverse.dropWhile isBlank).reverse

/-- A text without white space at either end. -/
def trim (text : String) : String :=
  String.ofList (trimEnd (text.toList.dropWhile isBlank))

/-- The text holds white space only, or nothing. -/
def isBlankText (text : String) : Bool :=
  text.toList.all isBlank

/-- After a word fewer characters are left. -/
theorem length_afterWord_lt {cs : List Char} {c : Char} {rest : List Char}
    (h : cs.dropWhile isBlank = c :: rest) : (rest.dropWhile (!isBlank ·)).length < cs.length := by
  have h₁ : (cs.dropWhile isBlank).length ≤ cs.length := (List.dropWhile_sublist _).length_le
  have h₂ := (List.dropWhile_sublist (l := rest) (!isBlank ·)).length_le
  rw [h] at h₁
  simp only [List.length_cons] at h₁
  omega

/-- The maximal runs of characters that are not white space. -/
def wordsOf (cs : List Char) : List (List Char) :=
  match h : cs.dropWhile isBlank with
  | [] => []
  | c :: rest =>
    have := length_afterWord_lt h
    (c :: rest.takeWhile (!isBlank ·)) :: wordsOf (rest.dropWhile (!isBlank ·))
termination_by cs.length

end BicepMigration.Text
