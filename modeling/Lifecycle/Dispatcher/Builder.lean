import Lifecycle.Dispatcher

/-! Putting a dispatcher together. Of several choices of one kind the last one counts, and a ready
registry has precedence over registrations, whichever came first. -/

namespace Lifecycle.Dispatcher

inductive BuildError
  | duplicateHandler (e : Registry.Duplicate)
  | invalidConfig (e : Config.Invalid)
  deriving DecidableEq, Repr

def BuildError.message : BuildError → String
  | duplicateHandler e => e.message
  | invalidConfig e => s!"invalid config: {e.message}"

structure Builder where
  config : Config := {}
  handlers : Option Registry.Builder := none
  registry : Option Registry := none
  ledger : Option Ledger := none
  telemetry : Telemetry := { sink := .discard }

/-- A choice; it replaces an earlier one of its kind. -/
inductive Choice
  | config (c : Config)
  | handlers (b : Registry.Builder)
  | registry (r : Registry)
  | ledger (l : Ledger)
  | telemetry (t : Telemetry)

namespace Builder

def choose (b : Builder) : Choice → Builder
  | .config c => { b with config := c }
  | .handlers h => { b with handlers := some h }
  | .registry r => { b with registry := some r }
  | .ledger l => { b with ledger := some l }
  | .telemetry t => { b with telemetry := t }

def ofChoices (cs : List Choice) : Builder := cs.foldl choose {}

/-- The registry to use: the ready one, else the one built from registrations, else none. -/
def buildRegistry (b : Builder) : Except BuildError Registry :=
  match b.registry, b.handlers with
  | some registry, _ => .ok registry
  | none, some handlers => handlers.build.mapError .duplicateHandler
  | none, none => .ok .empty

def build (b : Builder) : Except BuildError Dispatcher := do
  b.config.validate.mapError .invalidConfig
  let registry ← b.buildRegistry
  return {
    policy := b.config.policy
    registry
    ledger := b.ledger.getD { history := .withCapacity b.config.historyCapacity }
    telemetry := b.telemetry }

end Builder

end Lifecycle.Dispatcher
