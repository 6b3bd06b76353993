import Lifecycle.Args
import Lifecycle.Command

/-! The channel: a bounded queue of requests and one worker that takes them in order. Senders that
find the queue full wait, in order, for room. -/

namespace Lifecycle

inductive ChannelError
  | closed
  | replyDropped
  deriving DecidableEq, Repr

def ChannelError.message : ChannelError → String
  | closed => "dispatch worker closed"
  | replyDropped => "dispatch reply dropped"

structure Post where
  call : Nat
  command : Command
  args : Args

inductive WorkerState
  | idle
  | busy
  | gone
  deriving DecidableEq, Repr

structure Channel where
  capacity : Nat
  queue : List Post := []
  waiting : List Post := []
  worker : WorkerState := .idle

namespace Channel

/-- A channel with room for at least one request. -/
def withCapacity (n : Nat) : Channel := { capacity := max n 1 }

def isClosed (c : Channel) : Bool := c.worker == .gone

def withdraw (c : Channel) (call : Nat) : Channel :=
  { c with waiting := c.waiting.filter fun p => !(p.call == call) }

theorem mem_waiting_withdraw {c : Channel} {call : Nat} {p : Post} :
    p ∈ (c.withdraw call).waiting ↔ p ∈ c.waiting ∧ p.call ≠ call := by
  simp [withdraw]

end Channel

end Lifecycle
