/-!
# Log

What the machine does is recorded as `Event`s.  An event has a level and a
target, the part of the machine that it comes from, and a `Log` keeps the
events that reach its threshold.
-/

namespace SlotVm

/-- Weight of a log message. -/
inductive Level where
  /-- Detail per instruction and per call. -/
  | debug
  /-- Start and end of runs. -/
  | info
  /-- Suspicious, but no fault. -/
  | warn
  | error
  /-- Above every message. -/
  | off
deriving DecidableEq, Inhabited

namespace Level

/-- Position in the order of weights. -/
def rank : Level → Nat
  | debug => 0
  | info => 1
  | warn => 2
  | error => 3
  | off => 4

/-- Levels in ascending order. -/
def all : List Level := [debug, info, warn, error, off]

/-- A lighter level. -/
def Lt (a b : Level) : Prop := a.rank < b.rank

instance : LT Level := ⟨Lt⟩

instance (a b : Level) : Decidable (a < b) :=
  inferInstanceAs (Decidable (a.rank < b.rank))

/-- Upper-case name. -/
def name : Level → String
  | debug => "DEBUG"
  | info => "INFO"
  | warn => "WARN"
  | error => "ERROR"
  | off => "OFF"

/-- Messages of this level are written under the given threshold.  Nothing
is ever written at level `off`. -/
def Passes (l threshold : Level) : Prop := l ≠ .off ∧ ¬ l < threshold

instance (l threshold : Level) : Decidable (l.Passes threshold) :=
  inferInstanceAs (Decidable (_ ∧ _))

/-- Blanks that fill a text up to a width. -/
def fill (width : Nat) (text : String) : String :=
  String.ofList (List.replicate (width - text.length) ' ')

/-- The name, left-aligned. -/
def nameLeft (l : Level) (width : Nat) : String :=
  l.name ++ fill width l.name

/-- The name, right-aligned. -/
def nameRight (l : Level) (width : Nat) : String :=
  fill width l.name ++ l.name

end Level

/-- One log message. -/
structure Event where
  level : Level
  /-- Part of the machine that reports. -/
  target : String
  text : String

/-- The line of an event: its level, its target and its text. -/
def Event.line (e : Event) : String :=
  "[" ++ e.level.nameLeft 5 ++ "] " ++ e.target ++ ": " ++ e.text

/-- The events that reached a threshold, the latest first. -/
structure Log where
  threshold : Level
  latest : List Event

namespace Log

/-- A log without events. -/
def empty (threshold : Level) : Log := ⟨threshold, []⟩

/-- Records an event if it reaches the threshold. -/
def record (log : Log) (level : Level) (target : String)
    (text : Unit → String) : Log :=
  if level.Passes log.threshold then
    { log with latest := ⟨level, target, text ()⟩ :: log.latest }
  else
    log

/-- The lines of all events, in the order in which they were recorded. -/
def lines (log : Log) : List String :=
  log.latest.reverse.map Event.line

end Log

end SlotVm
