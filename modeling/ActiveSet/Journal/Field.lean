import ActiveSet.Decimal.Nearest
import ActiveSet.Decimal.Text
import ActiveSet.Journal.Quoted
/-
  Fields in a layout

  A field of a record is a text, a whole number, or something else of which is
  known what becomes of it in each layout. A layout has flags, a width, a
  precision and a letter; the letter says which form is asked for, and a field
  that cannot take this form has none in the layout.
-/

namespace ActiveSet

namespace Journal

/-- How a field is laid out. -/
structure Layout where
  /-- Flush left. -/
  left : Bool
  /-- A sign also on numbers that are not negative. -/
  plus : Bool
  /-- A blank in place of that sign. -/
  blank : Bool
  /-- The other form of a number: its base in front, its point and zeros kept. -/
  alternate : Bool
  /-- Filled with zeros. -/
  zero : Bool
  width : Nat
  precision : Option Nat
  letter : Char
  deriving DecidableEq

/-- The layout of a field in a list of fields. -/
def Layout.listed (plain : Bool) : Layout where
  left := false
  plus := false
  blank := false
  alternate := false
  zero := false
  width := 0
  precision := none
  letter := if plain then 'a' else 'r'

/-- The content of a field. -/
inductive FieldValue where
  | text (s : String)
  | number (n : Int)
  /-- Neither a text nor a whole number. -/
  | other (form : Layout → Option String)

namespace FieldValue

/-- The text with blanks around it up to the width. -/
def pad (layout : Layout) (text : String) : String :=
  let fill := String.ofList (List.replicate (layout.width - text.length) ' ')
  if layout.left then text ++ fill else fill ++ text

/-- A number of a given sign, with zeros or blanks in front up to the width; zeros go between
the sign and base and the digits. -/
def padNumber (layout : Layout) (negative : Bool) (base digits : String) : String :=
  let sign :=
    if negative then "-" else if layout.plus then "+" else if layout.blank then " " else ""
  let head := sign ++ base
  if layout.zero && !layout.left then
    head ++ Decimal.padZeros (layout.width - head.length) digits
  else pad layout (head ++ digits)

/-- The first characters of a text, as many as the precision allows. -/
def cut (layout : Layout) (text : String) : String :=
  match layout.precision with
  | none => text
  | some n => String.ofList (text.toList.take n)

/-- A text in the form that a letter asks for. -/
def renderText (layout : Layout) (s : String) : Option String :=
  match layout.letter with
  | 's' => some (pad layout (cut layout s))
  | 'r' => some (pad layout (cut layout (Quoted.encode false s)))
  | 'a' => some (pad layout (cut layout (Quoted.encode true s)))
  | 'c' => if s.length = 1 then some (pad layout s) else none
  | _ => none

/-- The greatest number of digits that a whole number can be asked for; the word that counts them
keeps room for a sign and a base. -/
def digitLimit : Nat := 2147483644

/-- A whole number in the digits of a base; with a letter above `9` in capitals if so asked. -/
def renderWhole (layout : Layout) (n : Int) (base : Nat) (mark : String) (capitals : Bool) :
    Option String :=
  let places := layout.precision.getD 1
  if digitLimit < places then none
  else
    let digits := Decimal.padZeros places (String.ofList (Nat.toDigits base n.natAbs))
    some (padNumber layout (n < 0) (if layout.alternate then mark else "")
      (if capitals then digits.toUpper else digits))

/-- A whole number as the double nearest to it, with as many places as the layout asks for; one
that is too large for a double has no such form. -/
def renderReal (layout : Layout) (n : Int) (capitals : Bool)
    (form : (places : Nat) → (point : Bool) → Decimal.Magnitude → String) : Option String :=
  (Decimal.Magnitude.rounded? ⟨n.natAbs, 1⟩).map fun value =>
    let text := form (layout.precision.getD 6) layout.alternate value
    padNumber layout (n < 0) "" (if capitals then text.toUpper else text)

/-- A whole number in the form that a letter asks for. -/
def renderNumber (layout : Layout) (n : Int) : Option String :=
  match layout.letter with
  | 's' | 'r' | 'a' => some (pad layout (cut layout (toString n)))
  | 'd' | 'i' | 'u' => renderWhole layout n 10 "" false
  | 'o' => renderWhole layout n 8 "0o" false
  | 'x' => renderWhole layout n 16 "0x" false
  | 'X' => renderWhole layout n 16 "0X" true
  | 'f' | 'F' => renderReal layout n false Decimal.fixed
  | 'e' => renderReal layout n false Decimal.scientific
  | 'E' => renderReal layout n true Decimal.scientific
  | 'g' => renderReal layout n false Decimal.general
  | 'G' => renderReal layout n true Decimal.general
  | 'c' =>
    if h : 0 ≤ n ∧ n.toNat.isValidChar then
      some (pad layout (String.singleton (Char.ofNatAux n.toNat h.2)))
    else none
  | _ => none

/-- A value that can only be shown, in the form that a letter asks for. -/
def renderShown (layout : Layout) (text : (plain : Bool) → String) : Option String :=
  match layout.letter with
  | 's' | 'r' => some (pad layout (cut layout (text false)))
  | 'a' => some (pad layout (cut layout (text true)))
  | _ => none

/-- A value that can only be shown, in ASCII alone if so asked. -/
def shown (text : (plain : Bool) → String) : FieldValue :=
  other fun layout => renderShown layout text

/-- A field in the form that a letter asks for. -/
def render (layout : Layout) : FieldValue → Option String
  | text s => renderText layout s
  | number n => renderNumber layout n
  | other form => form layout

end FieldValue

end Journal

end ActiveSet
