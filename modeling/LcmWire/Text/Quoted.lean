import LcmWire.Text.GraphemeExtender
import LcmWire.Text.Hex
import LcmWire.Text.Printable

/-!
# Quoted text

A quoted text stands between double quotes and shows each of its characters unmistakably: quotes and
backslashes behind a backslash, the commonest control characters by a letter, and whatever does not
show as something of its own by its number.
-/

namespace LcmWire.Quoted

/-- The two sound marks of halfwidth katakana, which stand in a cell of their own although they
extend the letter before them. -/
def isHalfwidthSoundMark (c : Char) : Bool := c = '\uFF9E' || c = '\uFF9F'

/-- The character can be told apart where it stands, whatever stands before it. -/
def showsItself (c : Char) : Bool :=
  isPrintable c && (!isGraphemeExtender c || isHalfwidthSoundMark c)

/-- The spelling of one character between the quotes. -/
def encodeChar (c : Char) : List Char :=
  if c = '"' ∨ c = '\\' then ['\\', c]
  else if c = '\x00' then ['\\', '0']
  else if c = '\t' then ['\\', 't']
  else if c = '\n' then ['\\', 'n']
  else if c = '\r' then ['\\', 'r']
  else if showsItself c then [c]
  else ['\\', 'u', '\x7b'] ++ Hex.digits c.toNat ++ ['\x7d']

/-- The spelling of a text with its quotes. -/
def encode (s : List Char) : List Char := '"' :: s.flatMap encodeChar ++ ['"']

/-- The quoted form of a string. -/
def quote (s : String) : String := String.ofList (encode s.toList)

end LcmWire.Quoted
