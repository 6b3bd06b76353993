import Lifecycle.Args
import Lifecycle.Failure

/-! Handlers and their runs. A run is given the command, the state in which the command was
admitted and the arguments. It takes some number of permits one after another, waiting for each,
and then ends in an outcome. A panic is an outcome of a run that has begun; a handler that panics
before there is a run of it, and a payload that panics when it is dropped, are left out. -/

namespace Lifecycle

structure Context where
  command : Command
  state : State
  args : Args
  deriving Inhabited

def Context.toJson (c : Context) : Json :=
  .object [("args", c.args.toJson), ("command", .string c.command.name),
    ("state", .string c.state.name)]

/-- Where a successful handler leads: where the policy says, to a state, or to the state with a
numeric code. -/
inductive Transition
  | default
  | moveTo (state : State)
  | code (n : Int)
  deriving DecidableEq, Repr

inductive Outcome
  | transition (t : Transition)
  | failed (message : String)
  | panicked (payload : Payload)
  deriving DecidableEq, Repr

structure Behaviour where
  permits : Nat := 0
  outcome : Outcome
  deriving DecidableEq, Repr

/-- A handler: what it does may depend on how often it ran before. The runs of an observed
handler can be looked up later. -/
structure Handler where
  observed : Bool := true
  behaviour : Nat → Context → Behaviour

def Handler.accept : Handler where
  observed := false
  behaviour _ _ := { outcome := .transition .default }

end Lifecycle
