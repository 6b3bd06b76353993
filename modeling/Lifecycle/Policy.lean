import Lifecycle.Command
import Lifecycle.State

/-! Which commands are legal from which state, and where each leads by default. The table is
fixed; what it does not list is rejected. The one variation is whether a component may be started
again straight from its error state. -/

namespace Lifecycle

inductive DefaultNext
  | moveTo (state : State)
  | unchanged
  deriving DecidableEq, Repr

def DefaultNext.resolve (current : State) : DefaultNext → State
  | moveTo state => state
  | unchanged => current

inductive Verdict
  | allowed (next : State)
  | rejected
  deriving DecidableEq, Repr

def Verdict.isAllowed : Verdict → Bool
  | allowed _ => true
  | rejected => false

structure Rule where
  command : Command
  sources : List State
  next : DefaultNext
  deriving DecidableEq, Repr

def rules : List Rule :=
  [⟨.start, [.unspecified, .stopped], .moveTo .active⟩,
   ⟨.stop, [.active, .paused, .error], .moveTo .stopped⟩,
   ⟨.pause, [.active], .moveTo .paused⟩,
   ⟨.resume, [.paused], .moveTo .active⟩,
   ⟨.reload, [.active, .paused], .unchanged⟩,
   ⟨.healthCheck, State.all, .unchanged⟩,
   ⟨.recover, [.error], .moveTo .active⟩]

structure Policy where
  restartFromError : Bool := false
  deriving DecidableEq, Repr

namespace Policy

def strict : Policy := {}

def permissiveRestart : Policy := ⟨true⟩

def evaluate (p : Policy) (current : State) (command : Command) : Verdict :=
  if p.restartFromError && command == .start && current == .error then .allowed .active
  else match rules.find? (·.command == command) with
    | some rule =>
      if current ∈ rule.sources then .allowed (rule.next.resolve current) else .rejected
    | none => .rejected

def isLegal (p : Policy) (current : State) (command : Command) : Bool :=
  (p.evaluate current command).isAllowed

def legalFrom (p : Policy) (command : Command) : List State :=
  State.all.filter (p.isLegal · command)

end Policy

end Lifecycle
