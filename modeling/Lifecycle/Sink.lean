import Lifecycle.Log

/-! Where events go. A sink that cannot take an event is no reason to stop: what goes wrong there
becomes a log record. It takes an event or refuses it at once, and never waits. -/

namespace Lifecycle

def defaultBufferCapacity : Nat := 4096

/-- A bounded buffer of events, oldest first. When it is full the oldest one makes room and is
counted; the counter has 64 bits, and clearing the buffer leaves it alone. -/
structure EventBuffer where
  capacity : Nat
  events : List Event := []
  evicted : UInt64 := 0
  deriving DecidableEq, Repr

namespace EventBuffer

def withCapacity (n : Nat) : EventBuffer := { capacity := max n 1 }

def push (b : EventBuffer) (e : Event) : EventBuffer :=
  if b.events.length = b.capacity then
    { b with events := b.events.tail ++ [e], evicted := b.evicted + 1 }
  else { b with events := b.events ++ [e] }

def clear (b : EventBuffer) : EventBuffer := { b with events := [] }

@[simp] theorem capacity_push (b : EventBuffer) (e : Event) :
    (b.push e).capacity = b.capacity := by
  unfold push
  split <;> rfl

end EventBuffer

inductive Sink
  | buffer (b : EventBuffer)
  | log
  | discard
  | notReady (reason : String)
  | rejecting (reason : String)
  deriving DecidableEq, Repr

namespace Sink

def emit (e : Event) : Sink → Sink × List LogRecord
  | buffer b => (buffer (b.push e), [])
  | log => (log, [.event e])
  | discard => (discard, [])
  | notReady reason => (notReady reason, [.sinkNotReady reason])
  | rejecting reason => (rejecting reason, [.sinkRejected reason])

def clear : Sink → Sink
  | buffer b => buffer b.clear
  | s => s

def buffer? : Sink → Option EventBuffer
  | buffer b => some b
  | _ => none

end Sink

end Lifecycle
