import PathSelection.Number.Digits
import PathSelection.Text.Visible

/-!
# Quoted texts

The form in which messages show a text: between double quotes, with the quote,
the backslash and every character without a glyph escaped.
-/

namespace PathSelection

/-- The hexadecimal digit of a number below sixteen, in lower case. -/
def hexDigit (n : Nat) : Char := if n < 10 then Char.ofNat (48 + n) else Char.ofNat (87 + n)

/-- The hexadecimal digits of a number, written in front of characters already there. -/
def hexOnto (n : Nat) (tail : List Char) : List Char :=
  let last := hexDigit (n % 16)
  if n < 16 then last :: tail else hexOnto (n / 16) (last :: tail)
termination_by n
decreasing_by omega

/-- The hexadecimal digits of a number without leading zeros. -/
def hexChars (n : Nat) : List Char := hexOnto n []

/-- A character as it stands inside a quoted text. -/
def quotedChar (c : Char) : List Char :=
  if c = '"' then ['\\', '"']
  else if c = '\\' then ['\\', '\\']
  else if c = '\n' then ['\\', 'n']
  else if c = '\r' then ['\\', 'r']
  else if c = '\t' then ['\\', 't']
  else if c.toNat = 0 then ['\\', '0']
  else if isVisible c then [c]
  else '\\' :: 'u' :: '\x7b' :: hexChars c.toNat ++ ['\x7d']

/-- A text between quotes. -/
def quoted (s : String) : String :=
  String.ofList ('"' :: s.toList.flatMap quotedChar ++ ['"'])

/-- A list of texts as messages show it. -/
def bracketed (items : List String) : String := "[" ++ ", ".intercalate items ++ "]"

end PathSelection
