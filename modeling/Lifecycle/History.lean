import Lifecycle.Config
import Lifecycle.Result

/-! The bounded list of the latest results, oldest first. A new result is put at the end and the
oldest one is dropped if there are then too many. -/

namespace Lifecycle

structure History where
  capacity : Nat
  entries : List Result := []
  deriving DecidableEq, Repr

namespace History

/-- An empty history that keeps at least one result. -/
def withCapacity (n : Nat) : History := { capacity := max n 1 }

def append (h : History) (r : Result) : History :=
  let entries := h.entries ++ [r]
  { h with entries := if h.capacity < entries.length then entries.tail else entries }

def clear (h : History) : History := { h with entries := [] }

theorem length_append_le (h : History) (r : Result)
    (fits : h.entries.length ≤ h.capacity) : (h.append r).entries.length ≤ h.capacity := by
  simp only [append]
  split <;> simp_all

end History

end Lifecycle
