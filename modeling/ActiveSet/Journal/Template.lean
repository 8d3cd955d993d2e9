import ActiveSet.Journal.Record
import ActiveSet.Text.Digit
import ActiveSet.Text.Word
/-
  Formats of records

  A format is text with conversions `%(field)` in it, each with flags, a
  width, a precision and a letter. `isAccepted` is the test that a format has
  to pass when it is set: one conversion somewhere must be well formed, where
  words and digits may be of any script. `render` writes a record and knows
  common digits only; it writes nothing at all when any conversion asks for a
  field that the record does not have, or for a form that the field cannot
  take. The first conversion may go without a field; it then lists the whole
  record.

  Below the text come the exception and the stack that the record was made
  with, if it was made with any.
-/

namespace ActiveSet

namespace Journal

namespace Template

/-- A part of a format. -/
inductive Piece where
  | literal (c : Char)
  | conversion (field : String) (layout : Layout)
  /-- A conversion without a field. -/
  | listing (layout : Layout)
  /-- A conversion that cannot be carried out. -/
  | broken
  deriving DecidableEq

/-- The flags that may follow a field. -/
def isFlag (c : Char) : Bool := "#0+ -".toList.contains c

/-- The letters of conversions, in either case; the dotted capital i, the dotless i and the long
s count as theirs. -/
def isLetter (c : Char) : Bool :=
  "diouxefgcrsa%".toList.contains c.toLower || "İıſ".toList.contains c

/-- The rest of a text after a width: a star, digits, or nothing. -/
def skipWidth (cs : List Char) : List Char :=
  match cs with
  | '*' :: rest => rest
  | cs => cs.dropWhile Text.isDigit

/-- The rest of a text after a precision; a point without one is kept. -/
def skipPrecision (cs : List Char) : List Char :=
  match cs with
  | '.' :: '*' :: rest => rest
  | '.' :: d :: rest => if Text.isDigit d then rest.dropWhile Text.isDigit else cs
  | cs => cs

/-- Whether the text goes on, after `%`, as a well formed conversion. -/
def startsConversion (cs : List Char) : Bool :=
  match cs with
  | '(' :: rest =>
    match rest.takeWhile Text.isWord, rest.dropWhile Text.isWord with
    | _ :: _, ')' :: rest =>
      match skipPrecision (skipWidth (rest.dropWhile isFlag)) with
      | c :: _ => isLetter c
      | [] => false
    | _, _ => false
  | _ => false

/-- Whether a format has a well formed conversion in it. -/
def isAccepted : List Char → Bool
  | [] => false
  | c :: rest => (c = '%' && startsConversion rest) || isAccepted rest

/-- The name of a field and the rest after its closing bracket; brackets inside it pair up. -/
def fieldName : (depth : Nat) → List Char → Option (List Char × List Char)
  | _, [] => none
  | depth, c :: rest =>
    if c = ')' ∧ depth = 0 then some ([], rest)
    else
      let depth := if c = '(' then depth + 1 else if c = ')' then depth - 1 else depth
      (fieldName depth rest).map fun (name, rest) => (c :: name, rest)

/-- The value of decimal digits. -/
def digitsValue (cs : List Char) : Nat := cs.foldl (fun n c => n * 10 + (c.toNat - 48)) 0

/-- The precision at the start of a text, and the rest; a point alone asks for none at all. -/
def precisionAt (cs : List Char) : Option Nat × List Char :=
  match cs with
  | '.' :: rest => (some (digitsValue (rest.takeWhile Char.isDigit)), rest.dropWhile Char.isDigit)
  | cs => (none, cs)

/-- The rest of a text after a mark of size, which says nothing. -/
def afterSize (cs : List Char) : List Char :=
  match cs with
  | 'h' :: rest | 'l' :: rest | 'L' :: rest => rest
  | cs => cs

/-- The greatest width and precision: those that a signed word of 32 bits holds. -/
def sizeLimit : Nat := 2147483647

/-- The conversion at the start of a text, after the name of its field, and the rest. -/
def conversionAt (piece : Layout → Piece) (cs : List Char) : Piece × List Char :=
  let flags := cs.takeWhile isFlag
  let sized := cs.dropWhile isFlag
  let precision := precisionAt (sized.dropWhile Char.isDigit)
  match afterSize precision.2 with
  | [] => (.broken, [])
  | letter :: rest =>
    let layout : Layout :=
      { left := flags.contains '-'
        plus := flags.contains '+'
        blank := flags.contains ' '
        alternate := flags.contains '#'
        zero := flags.contains '0'
        width := digitsValue (sized.takeWhile Char.isDigit)
        precision := precision.1
        letter }
    if layout.width ≤ sizeLimit ∧ layout.precision.getD 0 ≤ sizeLimit then (piece layout, rest)
    else (.broken, rest)

theorem length_dropWhile_le (p : Char → Bool) (cs : List Char) :
    (cs.dropWhile p).length ≤ cs.length :=
  (List.dropWhile_suffix p).length_le

theorem length_precisionAt_le (cs : List Char) : (precisionAt cs).2.length ≤ cs.length := by
  unfold precisionAt
  split
  · exact Nat.le_succ_of_le (length_dropWhile_le _ _)
  · exact Nat.le_refl _

theorem length_afterSize_le (cs : List Char) : (afterSize cs).length ≤ cs.length := by
  unfold afterSize
  split <;> simp

theorem length_of_fieldName {depth : Nat} {cs name rest : List Char}
    (h : fieldName depth cs = some (name, rest)) : rest.length < cs.length := by
  induction cs generalizing depth name with
  | nil => cases h
  | cons c cs ih =>
    unfold fieldName at h
    split at h
    · cases h
      simp
    · simp only [Option.map_eq_some_iff, Prod.mk.injEq] at h
      obtain ⟨⟨a, b⟩, hf, -, rfl⟩ := h
      exact Nat.lt_succ_of_lt (ih hf)

theorem length_conversionAt_le (piece : Layout → Piece) (cs : List Char) :
    (conversionAt piece cs).2.length ≤ cs.length := by
  unfold conversionAt
  dsimp only
  have h1 := length_dropWhile_le isFlag cs
  have h2 := length_dropWhile_le Char.isDigit (cs.dropWhile isFlag)
  have h3 := length_precisionAt_le ((cs.dropWhile isFlag).dropWhile Char.isDigit)
  have h4 := length_afterSize_le
    (precisionAt ((cs.dropWhile isFlag).dropWhile Char.isDigit)).2
  split
  · simp
  · next hl =>
    rw [hl, List.length_cons] at h4
    split <;> (dsimp only; omega)

/-- The parts of a format. Two percent signs stand for one. The first conversion may go without a
field; a later one ends the format, as does one whose name is not closed. -/
def pieces (first : Bool) (cs : List Char) : List Piece :=
  match cs with
  | [] => []
  | '%' :: '(' :: rest =>
    match h : fieldName 0 rest with
    | none => [.broken]
    | some (name, rest') =>
      have := length_of_fieldName h
      let next := conversionAt (.conversion (String.ofList name)) rest'
      have := length_conversionAt_le (.conversion (String.ofList name)) rest'
      next.1 :: pieces false next.2
  | '%' :: '%' :: rest => .literal '%' :: pieces first rest
  | '%' :: rest =>
    if first then
      let next := conversionAt .listing rest
      have := length_conversionAt_le .listing rest
      next.1 :: pieces false next.2
    else [.broken]
  | c :: rest => .literal c :: pieces first rest
termination_by cs.length
decreasing_by all_goals simp_all <;> omega

/-- One part of a format, filled in from a record. -/
def renderPiece (r : Record) : Piece → Option String
  | .literal c => some (String.singleton c)
  | .broken => none
  | .listing layout =>
    (r.listing (layout.letter = 'a')).bind fun text => FieldValue.renderShown layout fun _ => text
  | .conversion field layout => (r.field? field).bind fun value => value.render layout

/-- Whether the time is asked for: that is so if its field is begun somewhere, a percent sign
before it or not. -/
def isTimed : List Char → Bool
  | [] => false
  | c :: rest => "%(asctime)".toList.isPrefixOf (c :: rest) || isTimed rest

/-- A report below a text, on a line of its own; an empty one is left out. -/
def below (report text : String) : String :=
  if report = "" then text
  else if text.toList.getLast? = some '\n' then text ++ report
  else text ++ "\n" ++ report

/-- A text with the exception and the stack of a record below. -/
def withReports (r : Record) (text : String) : String :=
  below (r.reported.report "stack_info") (below (r.reported.report "exc_text") text)

/-- The record in the format. -/
def render (format : String) (r : Record) : Option String :=
  let r := r.prepared (isTimed format.toList)
  ((pieces true format.toList).mapM (renderPiece r)).map fun texts =>
    withReports r (String.join texts)

/-- What handlers after one with the format find of a record. -/
def rest (format : String) (r : Record) : Record :=
  let prepared := r.prepared (isTimed format.toList)
  if (render format r).isSome then prepared.reported else prepared

end Template

end Journal

end ActiveSet
