/-! The states of a component, with the numeric codes and the names under which they travel. -/

namespace Lifecycle

inductive State
  | unspecified
  | active
  | paused
  | stopped
  | error
  | recovering
  deriving DecidableEq, Repr, Inhabited

namespace State

def all : List State := [unspecified, active, paused, stopped, error, recovering]

def code : State → Int
  | unspecified => 0
  | active => 1
  | paused => 2
  | stopped => 3
  | error => 4
  | recovering => 5

def name : State → String
  | unspecified => "UNSPECIFIED"
  | active => "ACTIVE"
  | paused => "PAUSED"
  | stopped => "STOPPED"
  | error => "ERROR"
  | recovering => "RECOVERING"

def word : State → String
  | unspecified => "Unspecified"
  | active => "Active"
  | paused => "Paused"
  | stopped => "Stopped"
  | error => "Error"
  | recovering => "Recovering"

def ofName? (s : String) : Option State := all.find? (·.name == s)

structure InvalidCode where
  code : Int
  deriving DecidableEq, Repr

def InvalidCode.message (e : InvalidCode) : String := s!"invalid component state code: {e.code}"

def ofCode (n : Int) : Except InvalidCode State :=
  match all.find? (·.code == n) with
  | some s => .ok s
  | none => .error ⟨n⟩

theorem ofName?_name (s : State) : ofName? s.name = some s := by cases s <;> decide

theorem ofCode_code (s : State) : ofCode s.code = .ok s := by cases s <;> rfl

theorem ofCode_eq_ok_iff {n : Int} {s : State} : ofCode n = .ok s ↔ s.code = n := by
  refine ⟨fun h => ?_, fun h => h ▸ ofCode_code s⟩
  unfold ofCode at h
  split at h
  · next t found =>
    cases h
    simpa using List.find?_some found
  · cases h

end State

end Lifecycle
