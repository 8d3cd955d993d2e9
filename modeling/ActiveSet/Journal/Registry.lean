import ActiveSet.Journal.Template
/-
  Loggers and what they write

  Loggers have dotted names and form a tree. A logger passes a record on when
  its level is at least the logger's own, or that of the nearest logger above
  that has one. The record then goes to the logger's handlers and to those
  above it, as far up as loggers propagate; a handler writes it as a line on
  its stream if it is important enough for the handler as well.

  The registry hands out loggers below one name. All it has handed out share
  one level, each has a handler of its own and propagates nothing, so a record
  is written once. The setting that new loggers start with changes first, and
  only then the loggers one by one: a setting that no logger accepts stays
  behind.
-/

namespace ActiveSet

namespace Journal

/-- The name above all loggers of the program. -/
def topName : String := "dualqp"

/-- The name of the logger that solves report to. -/
def solverName : String := "dualqp.qp"

/-- The name of the logger that fits report to. -/
def regressionName : String := "dualqp.regression"

/-- The format where nothing else is asked for. -/
def defaultFormat : String := "[%(levelname)s] %(name)s: %(message)s"

/-- The format that is the message alone. -/
def messageFormat : String := "%(message)s"

/-- The stream where nothing else is asked for. -/
def defaultStream : String := "stderr"

/-- A destination of records. -/
structure Handler where
  level : Int
  format : String
  stream : String

/-- What a logger has of its own. -/
structure Logger where
  /-- Zero where the logger has no level of its own. -/
  level : Int
  handlers : List Handler
  propagate : Bool

/-- All loggers, and the settings they are made with. -/
structure Registry where
  /-- The level and handlers of the logger above all others. -/
  root : Logger
  loggers : List (String × Logger)
  /-- The names handed out, in order. -/
  handedOut : List String
  default : Level
  /-- The settings in force before each open block, the innermost first. -/
  blocks : List Level

/-- A line on a stream. -/
structure Line where
  stream : String
  text : String

namespace Registry

/-- No loggers at all; the root passes warnings. -/
def empty (default : Level) : Registry where
  root := ⟨Level.warning, [], true⟩
  loggers := []
  handedOut := []
  default
  blocks := []

/-- Whether the name is that of the root. -/
def isRoot (name : String) : Bool := name = "" || name = "root"

/-- The logger with a name, if there is one. -/
def logger? (r : Registry) (name : String) : Option Logger := r.loggers.lookup name

/-- A logger as it is made. -/
def fresh : Logger := ⟨0, [], true⟩

/-- Changes a logger, which is made first if there is none of the name. -/
def update (r : Registry) (name : String) (f : Logger → Logger) : Registry :=
  if isRoot name then { r with root := f r.root }
  else if (r.logger? name).isSome then
    { r with loggers := r.loggers.map fun entry =>
        if entry.1 = name then (entry.1, f entry.2) else entry }
  else { r with loggers := r.loggers ++ [(name, f fresh)] }

/-- The part of a name before its last dot, given from its end; a name that begins with that dot
has none. -/
def upTo : List Char → List Char
  | [] => []
  | '.' :: rest => rest
  | _ :: rest => upTo rest

theorem length_upTo_lt {cs : List Char} (h : upTo cs ≠ []) : (upTo cs).length < cs.length := by
  induction cs with
  | nil => exact absurd rfl h
  | cons c cs ih =>
    unfold upTo at h ⊢
    split
    · contradiction
    · next heq => cases heq; simp
    · next heq =>
      cases heq
      exact Nat.lt_succ_of_lt (ih (by simpa [upTo] using h))

/-- The loggers above a name, given from its end, the nearest first. Where there is a logger, the
search goes on from its name; where there is none, the search for the next dot leaves out the
last character of the name that was tried. -/
def above (r : Registry) (reversed : List Char) : List Logger :=
  match _h : upTo reversed with
  | [] => []
  | c :: rest =>
    match r.logger? (String.ofList (c :: rest).reverse) with
    | some l => l :: above r (c :: rest)
    | none => above r (' ' :: rest)
termination_by reversed.length
decreasing_by
  all_goals
    have hne : upTo reversed ≠ [] := by rw [_h]; exact List.cons_ne_nil _ _
    have hlt := length_upTo_lt hne
    rw [_h] at hlt
    exact hlt

/-- The loggers that a record on a logger passes, from that logger upwards. -/
def chain (r : Registry) (name : String) : List Logger :=
  let own := if isRoot name then [] else [(r.logger? name).getD fresh]
  own ++ r.above name.toList.reverse ++ [r.root]

/-- The level of a logger: its own, or that of the nearest one above that has one. -/
def effectiveLevel (r : Registry) (name : String) : Int :=
  (((r.chain name).map Logger.level).find? (· ≠ 0)).getD 0

/-- The handlers that records of a logger reach. -/
def handlersFor : List Logger → List Handler
  | [] => []
  | l :: rest => l.handlers ++ (if l.propagate then handlersFor rest else [])

/-- A handler's lines for a record. -/
def Handler.lines (h : Handler) (record : Record) : List Line :=
  if record.level < h.level then []
  else match Template.render h.format record with
    | none => []
    | some text => (text.splitOn "\n").map fun line => ⟨h.stream, line⟩

/-- The lines of several handlers, each of which finds the record as the last one left it. -/
def Handler.allLines : List Handler → Record → List Line
  | [], _ => []
  | h :: rest, record =>
    Handler.lines h record ++
      allLines rest (if record.level < h.level then record else Template.rest h.format record)

/-- What a logger writes for a record. Records of level zero and below are never written; a
record that no handler is there for is written bare, if it is a warning at least. -/
def write (r : Registry) (name : String) (level : Int) (message : String)
    (verbatim : Bool) (origin : Origin := .unknown) : List Line :=
  if level ≤ 0 || level < r.effectiveLevel name then []
  else
    let record := Record.make level name message verbatim origin
    match handlersFor (r.chain name) with
    | [] => Handler.lines ⟨Level.warning, messageFormat, defaultStream⟩ record
    | handlers => Handler.allLines handlers record

/-- The full name that a request for a logger means. -/
def fullName : Option String → String
  | none => topName
  | some name =>
    if name = topName || (topName ++ ".").isPrefixOf name then name
    else topName ++ "." ++ name

/-- Hands out a logger. One that has no handlers yet takes the level in force and a handler; when
it cannot take the level, it stays as it was made and is not handed out. -/
def get (r : Registry) (name : String) : Except Refusal Unit × Registry :=
  if r.handedOut.contains name then (.ok (), r)
  else
    let r := r.update name id
    let handOut (r : Registry) : Registry := { r with handedOut := r.handedOut ++ [name] }
    if ((r.logger? name).getD fresh).handlers.isEmpty then
      match r.default.accept with
      | .error refusal => (.error refusal, r)
      | .ok level =>
        (.ok (), handOut (r.update name fun _ =>
          ⟨level, [⟨level, defaultFormat, defaultStream⟩], false⟩))
    else (.ok (), handOut r)

/-- Changes every logger that was handed out. -/
def updateAll (r : Registry) (f : Logger → Logger) : Registry :=
  r.handedOut.foldl (fun r name => r.update name f) r

/-- Sets the level of all loggers and their handlers, also of those to come. Where there is no
logger yet, no level is refused. -/
def setLevel (r : Registry) (request : LevelRequest) : Except Refusal Unit × Registry :=
  match Level.ofRequest request with
  | .error refusal => (.error refusal, r)
  | .ok setting =>
    let r := { r with default := setting }
    match r.handedOut with
    | [] => (.ok (), r)
    | _ :: _ =>
      match setting.accept with
      | .error refusal => (.error refusal, r)
      | .ok level =>
        (.ok (), r.updateAll fun l =>
          { l with level, handlers := l.handlers.map fun h => { h with level } })

/-- Replaces the handlers of all loggers by one each. When the level or the format is refused,
the first logger has lost its handlers, and in the latter case has the new level. -/
def configure (r : Registry) (request : LevelRequest) (format stream : Option String) :
    Except Refusal Unit × Registry :=
  match Level.ofRequest request with
  | .error refusal => (.error refusal, r)
  | .ok setting =>
    let r := { r with default := setting }
    match r.handedOut with
    | [] => (.ok (), r)
    | first :: _ =>
      match setting.accept with
      | .error refusal => (.error refusal, r.update first fun l => { l with handlers := [] })
      | .ok level =>
        let format := format.getD defaultFormat
        let format := if format = "" then messageFormat else format
        if Template.isAccepted format.toList then
          let handler : Handler := ⟨level, format, stream.getD defaultStream⟩
          (.ok (), r.updateAll fun l => { l with level, handlers := [handler] })
        else
          (.error .badFormat, r.update first fun l => { l with level, handlers := [] })

/-- Enters a block with a level of its own. -/
def push (r : Registry) (request : LevelRequest) : Except Refusal Unit × Registry :=
  match r.setLevel request with
  | (.ok (), r') => (.ok (), { r' with blocks := r.default :: r'.blocks })
  | refused => refused

/-- Leaves the innermost block; the setting from before it is asked for again. -/
def pop (r : Registry) : Except Refusal Unit × Registry :=
  match r.blocks with
  | [] => (.error .noBlock, r)
  | previous :: blocks => { r with blocks }.setLevel previous.request

/-- Adds a handler that takes everything to any logger, and sets that logger's level. -/
def attach (r : Registry) (name : String) (level : Int) (stream : String) : Registry :=
  r.update name fun l =>
    { l with level, handlers := l.handlers ++ [⟨0, messageFormat, stream⟩] }

/-- The registry of a program that starts, with the level that its environment asks for. -/
def start (environment : Option String) : Except Refusal Registry :=
  let r := empty (Level.ofName (environment.getD "WARNING"))
  match r.get solverName with
  | (.error refusal, _) => .error refusal
  | (.ok (), r) =>
    match r.get regressionName with
    | (.error refusal, _) => .error refusal
    | (.ok (), r) => .ok r

end Registry

end Journal

end ActiveSet
