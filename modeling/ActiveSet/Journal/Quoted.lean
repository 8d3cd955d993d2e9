import ActiveSet.Text.Printable
/-
  Quoted text

  A text in quotes stands on one line: backslashes, the quote in use, line
  breaks, tabs and every character without a shape of its own are escaped.
  Single quotes are used unless the text holds one and no double quote. In
  the plain form all characters beyond ASCII are escaped as well.
-/

namespace ActiveSet

namespace Journal

namespace Quoted

/-- A number in hexadecimal with at least the given number of digits. -/
def hex (digits n : Nat) : String :=
  let text := Nat.toDigits 16 n
  String.ofList (List.replicate (digits - text.length) '0' ++ text)

/-- A character by its number. -/
def escape (c : Char) : String :=
  if c.toNat < 0x100 then "\\x" ++ hex 2 c.toNat
  else if c.toNat < 0x10000 then "\\u" ++ hex 4 c.toNat
  else "\\U" ++ hex 8 c.toNat

/-- A character inside quotes. -/
def character (plain : Bool) (quote c : Char) : String :=
  if c = quote ∨ c = '\\' then "\\" ++ String.singleton c
  else if c = '\n' then "\\n"
  else if c = '\r' then "\\r"
  else if c = '\t' then "\\t"
  else if Text.isPrintable c && !(plain && 0x80 ≤ c.toNat) then String.singleton c
  else escape c

/-- The text in quotes. -/
def encode (plain : Bool) (text : String) : String :=
  let cs := text.toList
  let quote := if cs.contains '\'' && !cs.contains '"' then '"' else '\''
  String.singleton quote ++ String.join (cs.map (character plain quote)) ++
    String.singleton quote

end Quoted

end Journal

end ActiveSet
