import TimedCondvar.Demo.Program
import TimedCondvar.Time.Text

/-!
The log of the demonstration as it is printed: one line for an event, two for the end of a span,
the second telling that the span is closed. Lines are JSON objects or plain text.
-/

namespace TimedCondvar.Demo

/-- What a line shows of a span: the span with the line inside it, or just closed. -/
structure SpanView where
  span : WaitSpan.End
  inside : Bool
  deriving DecidableEq, Repr

structure Line where
  /-- Microseconds on the wall clock. -/
  micros : Nat
  level : Level
  thread : ThreadId
  target : String
  message : String
  fields : Fields := []
  span : Option SpanView := none
  deriving Repr

/-! ### From entries to lines -/

def condvarTarget : String := "monosync::core::sync::condvar"
def tracerTarget : String := "monosync::monitoring::tracer"
def programTarget : String := "monosync_demo"

namespace Event

def target : Event → String
  | .logging _ => tracerTarget
  | _ => programTarget

/-- A failure is no line of the log; the error output reports it. -/
def level? : Event → Option Level
  | .logging _ | .starting _ | .batch _ _ | .finished _ _ => some .info
  | .wideSpacing _ _ | .unhandled _ _ => some .warn
  | .failed _ => none

def message : Event → String
  | .logging _ => "Structured tracing initialized"
  | .wideSpacing _ _ =>
    "Event spacing is not below the delay; every event will close its own batch"
  | .starting _ => "Demo starting"
  | .batch _ _ => "Burst went quiet, handling batch"
  | .finished _ _ => "Demo finished"
  | .unhandled _ _ => "Some events were not handled"
  | .failed e => e.message

def fields : Event → Fields
  | .logging json => [("json", .flag json)]
  | .wideSpacing spacing delay => [("spacing", .text spacing.text), ("delay", .text delay.text)]
  | .starting s =>
    [("clock", .text s.clock.name), ("delay", .text s.delay.text),
      ("spacing", .text s.spacing.text), ("events", .count s.events), ("bursts", .count s.bursts)]
  | .batch number stamps => [("batch", .count number), ("events", .count stamps.length)]
  | .finished batches handled => [("batches", .count batches), ("handled", .count handled)]
  | .unhandled expected handled => [("expected", .count expected), ("handled", .count handled)]
  | .failed _ => []

end Event

/-- The lines of an entry. -/
def lines (e : Entry Event) : List Line :=
  let micros := (clocks.realtime.reading e.mono).toNat / nanosPerMicro
  let thread := e.thread.getD mainThread
  match e.note with
  | .record r => [⟨micros, r.level, thread, condvarTarget, r.message, r.fields, none⟩]
  | .spanOpened _ => []
  | .spanEnded span =>
    [⟨micros, WaitSpan.level, thread, tracerTarget, WaitSpan.finishedMessage, span.fields,
        some ⟨span, true⟩⟩,
      ⟨micros, WaitSpan.level, thread, tracerTarget, "close", [], some ⟨span, false⟩⟩]
  | .event event =>
    event.level?.toList.map fun level =>
      ⟨micros, level, thread, event.target, event.message, event.fields, none⟩

/-! ### Text -/

def threadName (t : ThreadId) : String := if t = mainThread then "main" else "producer"

/-- Threads are numbered from 1 in the log. -/
def threadNumber (t : ThreadId) : Nat := t + 1

def valueText : FieldValue → String
  | .text s => s
  | .count n => Numeral.decimal n
  | .flag b => if b then "true" else "false"
  | .mutex id => Numeral.decimal id

def Line.text (l : Line) : String :=
  let level := "".pushn ' ' (5 - l.level.name.length) ++ l.level.name
  let fields := l.fields.map fun (key, value) => " " ++ key ++ "=" ++ valueText value
  stampText l.micros ++ " " ++ level ++ " " ++ threadName l.thread ++ " ThreadId("
    ++ Numeral.padded 2 (threadNumber l.thread) ++ ") " ++ l.target ++ ": " ++ l.message
    ++ String.join fields

/-! ### JSON -/

def escapeJson (c : Char) : List Char :=
  if c = '"' ∨ c = '\\' then ['\\', c]
  else if c = '\n' then ['\\', 'n']
  else if c < ' ' then
    ['\\', 'u', '0', '0'] ++ (if c.toNat < 16 then ['0'] else []) ++ Nat.toDigits 16 c.toNat
  else [c]

def jsonString (s : String) : String :=
  String.ofList ('"' :: s.toList.flatMap escapeJson ++ ['"'])

def jsonValue : FieldValue → String
  | .text s => jsonString s
  | v => valueText v

def jsonObject (members : List (String × String)) : String :=
  "\x7b" ++ ",".intercalate (members.map fun (key, value) => jsonString key ++ ":" ++ value)
    ++ "\x7d"

def jsonFields (fields : Fields) : List (String × String) :=
  fields.map fun (key, value) => (key, jsonValue value)

/-- A span with all its fields. -/
def jsonSpan (e : WaitSpan.End) : String :=
  jsonObject (jsonFields (e.span.fields ++ e.fields) ++ [("name", jsonString WaitSpan.name)])

def Line.json (l : Line) : String :=
  let span := match l.span with
    | none => []
    | some v =>
      let object := jsonSpan v.span
      [("span", object), ("spans", "[" ++ (if v.inside then object else "") ++ "]")]
  jsonObject <|
    [("timestamp", jsonString (stampText l.micros)), ("level", jsonString l.level.name),
      ("fields", jsonObject (("message", jsonString l.message) :: jsonFields l.fields)),
      ("target", jsonString l.target)]
    ++ span
    ++ [("threadName", jsonString (threadName l.thread)),
      ("threadId", jsonString ("ThreadId(" ++ Numeral.decimal (threadNumber l.thread) ++ ")"))]

/-! ### The program -/

/-- The standard output line by line, the error output, and the exit code. -/
structure Printed where
  lines : List String
  errors : String
  exitCode : Nat

/-- What the program prints in an environment. -/
def print (env : Environment) : Printed :=
  let logging := Logging.ofEnvironment env
  let outcome := run env
  let shown := (outcome.log.flatMap lines).filter (logging.shows ·.level)
  { lines := shown.map fun l => if logging.json then l.json else l.text
    errors := (outcome.failure.map Failure.report).getD ""
    exitCode := if outcome.failure.isSome then 1 else 0 }

end TimedCondvar.Demo
