import ActiveSet.Decimal.Rounding
import ActiveSet.Decimal.Binary64
/-
  Levels of importance

  A level is a number; five numbers have names. Where a level is asked for by
  name, the name is read in capitals, and a name that nobody knows stands for
  warnings. Two names are taken that are no levels: that of the plain format,
  which gives a text, and that of the table of styles. Either is kept as it
  is, and no logger accepts it.
-/

namespace ActiveSet

namespace Journal

/-- A setting for the level of loggers. -/
inductive Level where
  | number (n : Int)
  /-- A text that is the name of no level. -/
  | plainFormat
  /-- A value that is neither a number nor a text. -/
  | styles

/-- How a level is asked for. -/
inductive LevelRequest where
  | name (text : String)
  | whole (n : Int)
  | real (x : Float)
  /-- A value that no number can be made of. -/
  | other

/-- Why a request to the journal is refused. -/
inductive Refusal where
  /-- The level is a text that names no level. -/
  | unknownLevel
  /-- The level is neither a number nor a text. -/
  | noLevel
  /-- The level is a number without a whole one next to it. -/
  | boundlessLevel
  | badFormat
  /-- No block is open that could be left. -/
  | noBlock

namespace Level

/-- What is asked for where nothing is said: warnings. -/
def warning : Int := 30

/-- The levels by name. -/
def named : List (String × Level) :=
  [("CRITICAL", number 50), ("FATAL", number 50), ("ERROR", number 40), ("WARNING", number 30),
    ("WARN", number 30), ("INFO", number 20), ("DEBUG", number 10), ("NOTSET", number 0),
    ("BASIC_FORMAT", plainFormat), ("_STYLES", styles)]

/-- A character in capitals, as far as capitals are letters of names: besides `a` to `z` these
are the dotless i, the long s, the sharp s and the ligatures of f and s. Any other character is
in no name, so it stays. -/
def capital (c : Char) : List Char :=
  match c with
  | 'ı' => ['I']
  | 'ſ' => ['S']
  | 'ß' => ['S', 'S']
  | 'ﬀ' => ['F', 'F']
  | 'ﬁ' => ['F', 'I']
  | 'ﬂ' => ['F', 'L']
  | 'ﬃ' => ['F', 'F', 'I']
  | 'ﬄ' => ['F', 'F', 'L']
  | 'ﬅ' | 'ﬆ' => ['S', 'T']
  | c => [c.toUpper]

/-- The level that a name stands for. -/
def ofName (text : String) : Level :=
  (named.lookup (String.ofList (text.toList.flatMap capital))).getD (number warning)

/-- The whole number next to a number towards zero. -/
def truncate (x : Float) : Option Int :=
  match Decimal.Binary64.ofFloat x with
  | .finite negative significand exponent =>
    let value := Decimal.Magnitude.ofBinary significand exponent
    let whole : Int := (value.num / value.den : Nat)
    some (if negative then -whole else whole)
  | _ => none

/-- The level that a request stands for. -/
def ofRequest : LevelRequest → Except Refusal Level
  | .name text => .ok (ofName text)
  | .whole n => .ok (number n)
  | .real x => match truncate x with
    | some n => .ok (number n)
    | none => .error .boundlessLevel
  | .other => .error .noLevel

/-- The request by which a setting is asked for again. -/
def request : Level → LevelRequest
  | number n => .whole n
  | plainFormat => .name "%(levelname)s:%(name)s:%(message)s"
  | styles => .other

/-- The number that a logger takes from a setting. -/
def accept : Level → Except Refusal Int
  | number n => .ok n
  | plainFormat => .error .unknownLevel
  | styles => .error .noLevel

/-- The name that a level has in a record. -/
def text (n : Int) : String :=
  match n with
  | 50 => "CRITICAL"
  | 40 => "ERROR"
  | 30 => "WARNING"
  | 20 => "INFO"
  | 10 => "DEBUG"
  | 0 => "NOTSET"
  | n => "Level " ++ toString n

end Level

end Journal

end ActiveSet
