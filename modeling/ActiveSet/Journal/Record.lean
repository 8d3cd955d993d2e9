import ActiveSet.Journal.Field
import ActiveSet.Journal.Level
/-
  Records

  A record has its fields in a fixed order: the name of the logger, what the
  text was put together from, the level, and then what is known of the place,
  the time and the thread in which it was made, with whatever the caller adds.
  All of that is the record's `Origin`, which a logger knows nothing about.

  Writing a record adds to its fields: the text itself, the time if the format
  asks for it, and the text of an exception (`Record.prepared`,
  `Record.reported`). Later handlers of the same record find them there.
-/

namespace ActiveSet

namespace Journal

/-- The names of the fields that a record does not have from its origin. -/
def ownFields : List String :=
  ["name", "msg", "args", "levelname", "levelno", "message", "asctime"]

/-- Where a record comes from. -/
structure Origin where
  /-- What the text was put together from. -/
  pattern : FieldValue
  arguments : FieldValue
  /-- Place, time, thread and process, exception and stack, and what the caller adds. -/
  fields : List (String × FieldValue)
  distinct : (ownFields ++ fields.map Prod.fst).Nodup
  /-- The time as a text. -/
  time : String
  /-- The text of the exception that is handed over, if there is one. -/
  trace : Option String

/-- What is written: a level, a text, and fields in order. -/
structure Record where
  level : Int
  message : String
  fields : List (String × FieldValue)
  time : String
  trace : Option String

namespace FieldValue

/-- The value that stands for nothing. -/
def nothing : FieldValue := shown fun _ => "None"

/-- A list of one text. -/
def singleton (s : String) : FieldValue :=
  shown fun plain => "(" ++ Quoted.encode plain s ++ ",)"

end FieldValue

/-- An origin of which nothing is known but that there is one thread in one process, and no
exception. -/
def Origin.unknown : Origin where
  pattern := .text ""
  arguments := .shown fun _ => "()"
  fields :=
    [("exc_info", .nothing), ("exc_text", .nothing), ("stack_info", .nothing),
      ("threadName", .text "MainThread"), ("processName", .text "MainProcess")]
  distinct := by decide
  time := ""
  trace := none

namespace Record

/-- The pattern that a text handed over as it stands is put into. -/
def verbatimPattern : String := "%s"

/-- A record as a logger makes it. The text was handed over as it stands, or was put together
from the pattern of its origin. -/
def make (level : Int) (name message : String) (verbatim : Bool) (origin : Origin) : Record where
  level
  message
  fields :=
    [("name", .text name),
      ("msg", if verbatim then .text verbatimPattern else origin.pattern),
      ("args", if verbatim then .singleton message else origin.arguments),
      ("levelname", .text (Level.text level)), ("levelno", .number level)] ++ origin.fields
  time := origin.time
  trace := origin.trace

/-- The content of a field. -/
def field? (r : Record) (field : String) : Option FieldValue := r.fields.lookup field

/-- Gives a field a content, in its place if the record has it and behind the others if not. -/
def set (r : Record) (field : String) (value : FieldValue) : Record :=
  if (r.field? field).isSome then
    { r with fields := r.fields.map fun entry =>
        if entry.1 = field then (entry.1, value) else entry }
  else { r with fields := r.fields ++ [(field, value)] }

/-- The record with its text, and with the time if that is asked for. -/
def prepared (timed : Bool) (r : Record) : Record :=
  let r := r.set "message" (.text r.message)
  if timed then r.set "asctime" (.text r.time) else r

/-- The record with the text of its exception. -/
def reported (r : Record) : Record :=
  match r.trace with
  | none => r
  | some trace => r.set "exc_text" (.text trace)

/-- The text of a report that a record carries; an empty one is none. -/
def report (r : Record) (field : String) : String :=
  match r.field? field with
  | some (.text s) => s
  | _ => ""

/-- The list of a record's fields, each as it is shown. -/
def listing (r : Record) (plain : Bool) : Option String :=
  let entry (field : String × FieldValue) : Option String :=
    (field.2.render (.listed plain)).map fun value => Quoted.encode plain field.1 ++ ": " ++ value
  (r.fields.mapM entry).map fun entries => "\x7b" ++ ", ".intercalate entries ++ "\x7d"

end Record

end Journal

end ActiveSet
