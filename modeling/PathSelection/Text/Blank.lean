/-!
# Blank characters

The characters with the Unicode property White_Space, and texts without them at
their ends.

Main result:

- Theorem `isBlank_of_isWhitespace`: every character that core calls whitespace
  is blank.
-/

namespace PathSelection

/-- Is this a character with the property White_Space? -/
def isBlank (c : Char) : Bool :=
  let n := c.toNat
  (9 ≤ n && n ≤ 13) || n == 0x20 || n == 0x85 || n == 0xA0 || n == 0x1680
    || (0x2000 ≤ n && n ≤ 0x200A) || n == 0x2028 || n == 0x2029 || n == 0x202F
    || n == 0x205F || n == 0x3000

/-- Every character that core calls whitespace is blank. -/
theorem isBlank_of_isWhitespace {c : Char} (h : c.isWhitespace = true) : isBlank c = true := by
  simp only [Char.isWhitespace, Bool.or_eq_true, decide_eq_true_eq] at h
  rcases h with ((h | h) | h) | h <;> subst h <;> decide

/-- The characters left when blanks are taken from both ends. -/
def trimChars (cs : List Char) : List Char :=
  ((cs.dropWhile isBlank).reverse.dropWhile isBlank).reverse

/-- The text left when blanks are taken from both ends. -/
def trimText (s : String) : String := String.ofList (trimChars s.toList)

end PathSelection
