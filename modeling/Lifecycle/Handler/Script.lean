import Lifecycle.Handler

/-! Scripts for handlers: small programs that decide, from the context and the number of earlier
runs, how a run behaves. -/

namespace Lifecycle

inductive Question
  | flag (key : String)
  | has (key : String)
  | isObject (key : String)
  | inState (state : State)
  deriving DecidableEq, Repr

def Question.holds (c : Context) : Question → Bool
  | flag key => c.args.flag key
  | has key => (c.args.get? key).isSome
  | isObject key => match c.args.get? key with
    | some (.object _) => true
    | _ => false
  | inState state => c.state == state

inductive Script
  | finish (outcome : Outcome)
  | stay
  | echo
  | failWith (key : String)
  | choose (question : Question) (yes no : Script)
  | inTurn (scripts : List Script)
  | wait (next : Script)

namespace Script

mutual

/-- How run number `n` behaves. A script for several runs takes them in turn, the last one
repeating. -/
def behaviour (n : Nat) (c : Context) : Script → Behaviour
  | finish outcome => { outcome }
  | stay => { outcome := .transition (.moveTo c.state) }
  | echo => { outcome := .failed c.toJson.text }
  | failWith key => match c.args.text? key with
    | some message => { outcome := .failed message }
    | none => { outcome := .transition .default }
  | choose question yes no =>
    if question.holds c then behaviour n c yes else behaviour n c no
  | inTurn scripts => behaviourAt n c n scripts
  | wait next =>
    let b := behaviour n c next
    { b with permits := b.permits + 1 }

def behaviourAt (n : Nat) (c : Context) : Nat → List Script → Behaviour
  | _, [] => { outcome := .transition .default }
  | _, [s] => behaviour n c s
  | 0, s :: _ => behaviour n c s
  | i + 1, _ :: s :: ss => behaviourAt n c i (s :: ss)

end

def handler (s : Script) : Handler where
  behaviour n c := s.behaviour n c

end Script

end Lifecycle
