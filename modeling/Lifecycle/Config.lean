import Lifecycle.Policy

/-! The settings of a dispatcher. A decoded configuration is checked only when it is used; `make`
checks at once. -/

namespace Lifecycle

def defaultHistoryCapacity : Nat := 256

structure Config where
  restartFromError : Bool := false
  historyCapacity : Nat := defaultHistoryCapacity
  deriving DecidableEq, Repr

namespace Config

inductive Invalid
  | historyCapacity (provided : Nat)
  deriving DecidableEq, Repr

def Invalid.message : Invalid → String
  | historyCapacity provided => s!"history_capacity must be > 0 (got {provided})"

def validate (c : Config) : Except Invalid Unit :=
  if c.historyCapacity = 0 then .error (.historyCapacity 0) else .ok ()

def make (restartFromError : Bool) (historyCapacity : Nat) : Except Invalid Config := do
  let c : Config := { restartFromError, historyCapacity }
  c.validate
  return c

def policy (c : Config) : Policy :=
  if c.restartFromError then .permissiveRestart else .strict

theorem validate_eq_ok_iff {c : Config} : c.validate = .ok () ↔ c.historyCapacity ≠ 0 := by
  unfold validate
  split <;> simp_all

end Config

end Lifecycle
