import Lifecycle.Command
import Lifecycle.State

/-! Why a dispatch failed. None of these leaves a dispatch as an error: each becomes part of its
result. -/

namespace Lifecycle

inductive FailureKind
  | illegalTransition
  | unhandledCommand
  | handlerFailure
  | contractViolation
  deriving DecidableEq, Repr, Inhabited

namespace FailureKind

def all : List FailureKind :=
  [illegalTransition, unhandledCommand, handlerFailure, contractViolation]

def name : FailureKind → String
  | illegalTransition => "illegal_transition"
  | unhandledCommand => "unhandled_command"
  | handlerFailure => "handler_failure"
  | contractViolation => "contract_violation"

def ofName? (s : String) : Option FailureKind := all.find? (·.name == s)

theorem ofName?_name (k : FailureKind) : ofName? k.name = some k := by cases k <;> decide

end FailureKind

/-- What a panic carries: a text, or something that is none. -/
abbrev Payload := Option String

/-- The cause of a failed dispatch. A contract violation says what the handler returned. -/
inductive Failure
  | illegalTransition (command : Command) (state : State)
  | unhandledCommand (command : Command)
  | handlerFailure (command : Command) (message : String)
  | contractViolation (command : Command) (detail : String)
  deriving DecidableEq, Repr

namespace Failure

def kind : Failure → FailureKind
  | illegalTransition .. => .illegalTransition
  | unhandledCommand .. => .unhandledCommand
  | handlerFailure .. => .handlerFailure
  | contractViolation .. => .contractViolation

def message : Failure → String
  | illegalTransition command state => s!"illegal transition: {command.name} from {state.name}"
  | unhandledCommand command => s!"no handler registered for {command.name}"
  | handlerFailure _ message => message
  | contractViolation command detail => s!"handler for {command.name} returned {detail}"

def invalidCode (command : Command) (code : Int) : Failure :=
  contractViolation command s!"invalid state code {code}"

def forbiddenOverride (command : Command) (state : State) : Failure :=
  contractViolation command s!"{state.name}, which is not a valid override"

end Failure

end Lifecycle
