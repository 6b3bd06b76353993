import Lifecycle.Machine

/-! What can be read off a journal: which ticket a call came with, which calls are inside the gate
or inside a handler, which status is published, and which sections of the gate are over. -/

namespace Lifecycle

def Note.running? : Note → Option (Nat × Context)
  | .ran call context _ => some (call, context)
  | _ => none

def ticketOf (j : List Note) (call : Nat) : Option Ticket :=
  (j.filterMap Note.ticket?).find? (·.call == call)

def statusAfter (s : Status) (j : List Note) : Status :=
  ((j.filterMap Note.status?).getLast?).getD s

/-- The calls that got hold of the gate and have not left it. -/
def inside (j : List Note) : List Nat :=
  j.foldl (fun calls n => match n with
    | .admitted call => calls ++ [call]
    | .left call => calls.erase call
    | _ => calls) []

/-- The calls whose handler has begun and has not ended: neither decided nor given up. -/
def inHandler (j : List Note) : List Nat :=
  j.foldl (fun calls n => match n with
    | .ran call .. => calls ++ [call]
    | .committed call .. => calls.erase call
    | .left call => calls.erase call
    | _ => calls) []

structure Section where
  call : Nat
  outcome : Option Outcome

/-- The sections that are over, in the order in which they left the gate, and the one that has
published something and is still inside. -/
structure Sections where
  finished : List Section := []
  open? : Option Section := none

def Sections.note (s : Sections) : Note → Sections
  | .committed call outcome _ _ => { s with open? := some ⟨call, outcome⟩ }
  | .arranged call _ => { s with open? := some ⟨call, none⟩ }
  | .left _ => { finished := s.finished ++ s.open?.toList }
  | _ => s

def sections (j : List Note) : Sections := j.foldl .note {}

/-- A note that says nothing about who is in the gate and what is published. -/
def Note.isAside : Note → Bool
  | .opened _ | .queued _ | .taken _ | .logged _ => true
  | _ => false

/-- A note that does not say that something was recorded. -/
def Note.isSilent : Note → Bool
  | .appended .. | .emitted .. => false
  | _ => true

def Note.contributor? : Note → Option Nat
  | .committed call .. | .arranged call _ | .appended call _ | .emitted call _ => some call
  | _ => none

def Note.reply? : Note → Option (Nat × Answer)
  | .committed call _ result _ => some (call, .result result)
  | .arranged call status => some (call, .arranged status.state)
  | _ => none

theorem Note.status?_of_isAside {n : Note} (h : n.isAside) : n.status? = none := by
  cases n <;> first | rfl | cases h

theorem Note.contributor?_of_isAside {n : Note} (h : n.isAside) : n.contributor? = none := by
  cases n <;> first | rfl | cases h

theorem Note.isSilent_of_isAside {n : Note} (h : n.isAside) : n.isSilent := by
  cases n <;> first | rfl | cases h

theorem Note.appended?_of_isSilent {n : Note} (h : n.isSilent) : n.appended? = none := by
  cases n <;> first | rfl | cases h

theorem Note.emitted?_of_isSilent {n : Note} (h : n.isSilent) : n.emitted? = none := by
  cases n <;> first | rfl | cases h

theorem Note.reply?_of_contributor? {n : Note} (h : n.contributor? = none) : n.reply? = none := by
  cases n <;> first | rfl | cases h

theorem Note.contributor?_of_reply? {n : Note} {call : Nat} {a : Answer}
    (h : n.reply? = some (call, a)) : n.contributor? = some call := by
  cases n <;> cases h <;> rfl

section snoc

variable (j k : List Note) (n : Note)

theorem filterMap_snoc {α : Type} (f : Note → Option α) :
    (j ++ [n]).filterMap f = j.filterMap f ++ (f n).toList := by
  rw [List.filterMap_append]
  cases h : f n <;> simp [h]

theorem ticketOf_append (call : Nat) :
    ticketOf (j ++ k) call = (ticketOf j call).or (ticketOf k call) := by
  simp [ticketOf, List.find?_append]

theorem ticketOf_of_append {j : List Note} {call : Nat} {t : Ticket}
    (h : ticketOf j call = some t) : ticketOf (j ++ k) call = some t := by
  rw [ticketOf_append, h, Option.some_or]

theorem ticketOf_call {j : List Note} {call : Nat} {t : Ticket}
    (h : ticketOf j call = some t) : t.call = call := by
  simpa using List.find?_some h

theorem mem_of_ticketOf {j : List Note} {call : Nat} {t : Ticket}
    (h : ticketOf j call = some t) : .opened t ∈ j := by
  obtain ⟨n, mem, eq⟩ := List.mem_filterMap.1 (List.mem_of_find?_eq_some h)
  cases n <;> simp_all [Note.ticket?]

theorem statusAfter_snoc (s : Status) :
    statusAfter s (j ++ [n]) = n.status?.getD (statusAfter s j) := by
  unfold statusAfter
  rw [filterMap_snoc]
  cases n.status? <;> simp

theorem inside_snoc : inside (j ++ [n]) = match n with
    | .admitted call => inside j ++ [call]
    | .left call => (inside j).erase call
    | _ => inside j := by
  unfold inside
  rw [List.foldl_append]
  cases n <;> rfl

theorem inHandler_snoc : inHandler (j ++ [n]) = match n with
    | .ran call .. => inHandler j ++ [call]
    | .committed call .. => (inHandler j).erase call
    | .left call => (inHandler j).erase call
    | _ => inHandler j := by
  unfold inHandler
  rw [List.foldl_append]
  cases n <;> rfl

theorem sections_snoc : sections (j ++ [n]) = (sections j).note n := by
  rw [sections, List.foldl_append]
  rfl

variable {n} (aside : n.isAside)
include aside

theorem inside_snoc_of_isAside : inside (j ++ [n]) = inside j := by
  rw [inside_snoc]
  cases n <;> first | rfl | cases aside

theorem inHandler_snoc_of_isAside : inHandler (j ++ [n]) = inHandler j := by
  rw [inHandler_snoc]
  cases n <;> first | rfl | cases aside

end snoc

end Lifecycle
