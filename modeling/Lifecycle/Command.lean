import Lifecycle.Text.Blank

/-! The commands of a component and the labels by which callers name them. A label is read
without regard to outer white space, ASCII case, or the choice between `-` and `_`. -/

namespace Lifecycle

inductive Command
  | start
  | stop
  | pause
  | resume
  | reload
  | healthCheck
  | recover
  deriving DecidableEq, Repr, Inhabited

namespace Command

def all : List Command := [start, stop, pause, resume, reload, healthCheck, recover]

def label : Command → String
  | start => "start"
  | stop => "stop"
  | pause => "pause"
  | resume => "resume"
  | reload => "reload"
  | healthCheck => "health_check"
  | recover => "recover"

def name : Command → String
  | start => "START"
  | stop => "STOP"
  | pause => "PAUSE"
  | resume => "RESUME"
  | reload => "RELOAD"
  | healthCheck => "HEALTH_CHECK"
  | recover => "RECOVER"

/-- The command's word in diagnostic text. -/
def word : Command → String
  | start => "Start"
  | stop => "Stop"
  | pause => "Pause"
  | resume => "Resume"
  | reload => "Reload"
  | healthCheck => "HealthCheck"
  | recover => "Recover"

def ofName? (s : String) : Option Command := all.find? (·.name == s)

def spellings : Command → List String
  | healthCheck => ["health_check", "healthcheck"]
  | c => [c.label]

/-- The refusal of a text that names no command; it keeps the text as it was given. -/
structure Unknown where
  text : String
  deriving DecidableEq, Repr

def Unknown.message (e : Unknown) : String := s!"unknown command: {e.text}"

/-- The letter that two spellings of one label share. -/
def foldChar (c : Char) : Char := if c = '-' then '_' else c.toLower

def parse (text : String) : Except Unknown Command :=
  let core := (Text.trim text.toList).map foldChar
  match all.find? (·.spellings.any (·.toList == core)) with
  | some c => .ok c
  | none => .error ⟨text⟩

theorem mem_all (c : Command) : c ∈ all := by cases c <;> decide

theorem ofName?_name (c : Command) : ofName? c.name = some c := by cases c <;> decide

theorem parse_error {text : String} {e : Unknown} (h : parse text = .error e) : e.text = text := by
  unfold parse at h
  dsimp only at h
  split at h <;> cases h
  rfl

end Command

end Lifecycle
