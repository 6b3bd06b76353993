import Lifecycle.Proofs.Effects

/-! Every change of a machine is made of small acts. Between two of them something may be in
nobody's hand but the change's: a turn that was taken, a call that was opened, somebody who has left
the gate. What each act keeps is kept by every change, and so in all that is reached. -/

namespace Lifecycle

/-- Why somebody has left the gate, and with that what is still to be done for it. -/
inductive Leave
  | account (command : Command) (ending : Machine.Ending)
  | force (state : State)
  | giveUp

/-- What a change has in hand. -/
inductive Hand
  | empty
  | step
  | turn (turn : Turn)
  | move (v : Move)
  | comer (ticket : Ticket)
  | request (post : Post)
  | left (ticket : Ticket) (why : Leave)

def Move.givesUp : Move → Bool
  | .abandon _ => true
  | _ => false

def Move.ticket? (call : Nat) : Move → Option Ticket
  | .dispatch path command args => some ⟨call, path.seat, .dispatch command args⟩
  | .arrange state => some ⟨call, .caller, .arrange state⟩
  | _ => none

/-- Whether it is in the hand of somebody that neither holds the gate nor gives up. -/
def Hand.isBystanders : Hand → Bool
  | .move v => !v.givesUp
  | .turn (.proceed _) | .empty | .step | .left .. => false
  | _ => true

theorem Hand.isBystanders_move {v : Move} (stays : v.givesUp = false) :
    (move v).isBystanders := by
  rw [isBystanders, stays, Bool.not_false]

/-- A turn of the worker, which may be put off when its share is used up. It is taken once more with
a full one. -/
inductive Turn.Again : Turn → Turn → Prop
  | arrive {t : Ticket} (sent : t.seat = .worker) : Again (.arrive t) (.arrive t)
  | collect (share : Nat) : Again (.collect share) (.collect fairShare)

namespace Machine

inductive Act (m : Machine) : Hand → Hand → Machine → Prop
  | steps : Act m .empty .step m
  | sleeps (quiet : m.isQuiet) : Act m .step .empty m
  | picks {turn ready deferred} (next : m.turns = turn :: (ready ++ deferred))
    (other : ∀ call command payload, turn ≠ .report call command payload)
    (fewer : deferred ⊆ m.deferred) :
    Act m .step (.turn turn) { m with ready, deferred }
  | reports {call command payload ready deferred}
    (next : m.turns = .report call command payload :: (ready ++ deferred))
    (fewer : deferred ⊆ m.deferred) :
    Act m .step .empty (report { m with ready, deferred } call command payload)
  | putsOff {turn turn'} (again : turn.Again turn') :
    Act m (.turn turn) .empty (m.putOff turn')
  | enters {t} (share : Nat) (free : m.gate.holder = none) :
    Act m (.turn (.arrive t)) .empty { m with
      gate := { m.gate with holder := some { ticket := t } }
      journal := m.journal ++ [.admitted t.call]
      ready := .proceed share :: m.ready }
  | waits {t holding} (held : m.gate.holder = some holding) :
    Act m (.turn (.arrive t)) .empty
      { m with gate := { m.gate with waiting := m.gate.waiting ++ [t] } }
  | rests {share} (queue : m.channel.queue = []) :
    Act m (.turn (.collect share)) .empty
      { m with channel := { m.channel with worker := .idle } }
  | takes {share p ps} (queue : m.channel.queue = p :: ps) :
    Act m (.turn (.collect share)) (.turn (.arrive p.ticket)) { m with
      channel := { m.channel with queue := ps, waiting := m.channel.waiting.tail }
      ready := m.ready ++ (m.channel.waiting.head?.map Turn.place).toList
      journal := m.journal ++ [.taken p.call] }
  | places {hand p m'}
    (asks : hand = .turn (.place p) ∨ hand = .request p ∧ (m.channel.isClosed ∨ m.hasRoom))
    (places : Places m p m') : Act m hand .empty m'
  | lines {p} (alive : ¬ m.channel.isClosed) (full : m.hasRoom = false) :
    Act m (.request p) .empty
      { m with channel := { m.channel with waiting := m.channel.waiting ++ [p] } }
  | stays {share} (free : m.gate.holder = none) : Act m (.turn (.proceed share)) .empty m
  | runs {share t stage begun r permits} (needs : Nat) (held : m.gate.holder = some ⟨t, stage⟩)
    (begins : Begins m t stage begun r) : Act m (.turn (.proceed share)) .empty
      ((m.within t (.running { r with permits := needs }) m.dispatcher permits begun).putOff
        (.proceed fairShare))
  | blocks {share t stage begun r} (needs : Nat) (held : m.gate.holder = some ⟨t, stage⟩)
    (begins : Begins m t stage begun r) (unmet : 0 < needs) :
    Act m (.turn (.proceed share)) .empty
      (m.within t (.running { r with permits := needs }) m.dispatcher 0 begun)
  | publishes {share t stage status news r e permits} (held : m.gate.holder = some ⟨t, stage⟩)
    (publishes : Publishes m t stage status news r e) : Act m (.turn (.proceed share)) .empty
      ((m.within t (.published r e) { m.dispatcher with status } permits news).putOff
        (.proceed fairShare))
  | leaves {share t stage status news r e ledger telemetry recorded ending} (stage' : Stage)
    (permits : Nat) (held : m.gate.holder = some ⟨t, stage⟩)
    (publishes : Publishes m t stage status news r e)
    (records : Records m.dispatcher.ledger m.dispatcher.telemetry t.call r e ledger telemetry
      recorded ending) :
    Act m (.turn (.proceed share)) (.left t (.account r.command ending))
      (m.within t stage' { m.dispatcher with ledger, telemetry, status } permits
        (news ++ recorded)).passOn
  | closes {t command ending m'} (closes : Closes t command m ending m') :
    Act m (.left t (.account command ending)) .empty m'
  | arranges {share t state} (held : m.gate.holder = some ⟨t, .admitted⟩)
    (work : t.work = .arrange state) :
    Act m (.turn (.proceed share)) (.left t (.force state)) (m.within t .admitted
      { m.dispatcher with status := m.status.arrange state } m.permits
      [.logged (.arranged state), .arranged t.call (m.status.arrange state)]).passOn
  | forces {t state} :
    Act m (.left t (.force state)) .empty (m.answer t.call (.arranged state))
  | makes (v : Move) : Act m .empty (.move v) m
  | opens {v t} (opening : v.ticket? m.calls.length = some t) (own : t.seat ≠ .worker) :
    Act m (.move v) (.comer t) (m.openCall t)
  | asks {v p} (opening : v.ticket? m.calls.length = some p.ticket) :
    Act m (.move v) (.request p) (m.openCall p.ticket)
  | comes {t} : Act m (.comer t) .empty (m.wake (.arrive t))
  | releases {n} (nobody : m.isBlocked = false) :
    Act m (.move (.release n)) .empty { m with permits := m.permits + n }
  | rouses {n} : Act m (.move (.release n)) .empty
      (wake { m with permits := m.permits + n } (.proceed fairShare))
  | settled {call} (given : ¬ m.isPending call) : Act m (.move (.abandon call)) .empty m
  | handsOn {t} (suspended : m.Suspended t.call) (waits : m.isPending t.call)
    (inside : m.gate.ticket? = some t) (own : t.seat = .caller) :
    Act m (.move (.abandon t.call)) (.left t .giveUp) m.passOn
  | givesUp {t} (waits : m.isPending t.call) :
    Act m (.left t .giveUp) .empty (m.setProgress t.call .abandoned)
  | withdraws {call} (suspended : m.Suspended call) (waits : m.isPending call)
    (outside : ¬ m.gate.heldBy call) : Act m (.move (.abandon call)) .empty { m with
      calls := m.calls.set call .abandoned
      gate := m.gate.withdraw call
      channel := m.channel.withdraw call }
  | clearHistory : Act m .empty .empty m.clearHistory
  | clearEvents : Act m .empty .empty m.clearEvents
  | refusedFrame : Act m .empty .empty (m.log [.undecodable])

inductive Acts : Hand → Machine → Machine → Prop
  | last {hand m m'} (act : Act m hand .empty m') : Acts hand m m'
  | more {hand hand' m m' m''} (act : Act m hand hand' m') (busy : hand' ≠ .empty)
    (rest : Acts hand' m' m'') : Acts hand m m''

/-- What is reached between two acts. -/
inductive Midway (d : Dispatcher) (capacity : Nat) : Hand → Machine → Prop
  | start : Midway d capacity .empty (.start d capacity)
  | act {hand hand' m m'} (before : Midway d capacity hand m) (act : Act m hand hand' m') :
    Midway d capacity hand' m'

variable {m m' : Machine} {hand hand' : Hand}

theorem acts_arrive (m : Machine) (t : Ticket) {share : Nat}
    (late : share = 0 → t.seat = .worker) : Acts (.turn (.arrive t)) m (m.arrive t share) := by
  rcases m.arrive_cases t share with ⟨none, same⟩ | ⟨free, share', same⟩ | ⟨⟨holding, held⟩, same⟩
  · rw [same]
    exact .last (.putsOff (.arrive (late none)))
  · rw [same]
    exact .last (.enters share' free)
  · rw [same]
    exact .last (.waits held)

theorem acts_collect (m : Machine) (share share' : Nat) :
    Acts (.turn (.collect share')) m (m.collect share) := by
  cases share with
  | zero => exact .last (.putsOff (.collect share'))
  | succ share =>
    cases queue : m.channel.queue with
    | nil =>
      rw [collect_of_nil queue]
      exact .last (.rests queue)
    | cons p ps =>
      rw [collect_of_cons queue]
      exact .more (.takes queue) nofun (acts_arrive _ p.ticket fun _ => rfl)

theorem Proceeds.acts (p : Proceeds m m') (share : Nat) : Acts (.turn (.proceed share)) m m' := by
  cases p with
  | nobody free => exact .last (.stays free)
  | putsOff needs held begins => exact .last (.runs needs held begins)
  | blocks needs held begins unmet => exact .last (.blocks needs held begins unmet)
  | putsOffRecord held publishes => exact .last (.publishes held publishes)
  | leaves stage' permits held publishes records closes =>
    exact .more (.leaves stage' permits held publishes records) nofun (.last (.closes closes))
  | arranges held work => exact .more (.arranges held work) nofun (.last .forces)

theorem acts_take (m : Machine) {turn : Turn}
    (other : ∀ call command payload, turn ≠ .report call command payload) :
    Acts (.turn turn) m (m.take turn) := by
  cases turn with
  | arrive t =>
    have whole : fairShare = 0 → t.seat = .worker := fun none => absurd none (by decide)
    exact acts_arrive m t whole
  | proceed share => exact (m.proceeds share).acts share
  | collect share => exact acts_collect m share share
  | place p => exact .last (.places (.inl rfl) (m.places p))
  | report call command payload => exact absurd rfl (other call command payload)

theorem acts_step (m : Machine) : Acts .step m m.step := by
  rcases m.step_cases with ⟨quiet, same⟩ | ⟨turn, ready, deferred, next, fewer, same⟩
  · rw [same]
    exact .last (.sleeps quiet)
  · rw [same]
    cases turn with
    | report => exact .last (.reports next fewer)
    | arrive | proceed | collect | place =>
      exact .more (.picks next nofun fewer) nofun (acts_take _ nofun)

theorem acts_send (m : Machine) (p : Post) : Acts (.request p) m (m.send p) := by
  rcases m.send_cases p with ⟨open', sent⟩ | ⟨alive, full, same⟩
  · exact .last (.places (.inr ⟨rfl, open'⟩) sent)
  · rw [same]
    exact .last (.lines alive full)

theorem acts_submit {v : Move} (timely : m.Timely v) : Acts (.move v) m (m.submit v) := by
  cases v with
  | dispatch path command args =>
    cases path with
    | attached | detached => exact .more (.opens rfl (by simp [Path.seat])) (by simp) (.last .comes)
    | queued =>
      exact .more (.asks (p := ⟨m.calls.length, command, args⟩) rfl) (by simp) (acts_send ..)
  | arrange state => exact .more (.opens rfl (by simp)) (by simp) (.last .comes)
  | release n =>
    rcases m.release_cases n with ⟨nobody, same⟩ | same
    · rw [submit, same]
      exact .last (.releases nobody)
    · rw [submit, same]
      exact .last .rouses
  | abandon call =>
    have g := m.givesUp_abandon call
    rw [submit]
    generalize m.abandon call = m' at g
    cases g with
    | settled given => exact .last (.settled given)
    | @handsOn t waits inside same own =>
      subst same
      have still : m.passOn.isPending t.call := by rwa [isPending, calls_passOn]
      exact .more (.handsOn timely waits inside own) (by simp) (.last (.givesUp still))
    | withdraws waits outside => exact .last (.withdraws timely waits outside)

theorem Change.acts (c : Change m m') : Acts .empty m m' := by
  cases c with
  | turn => exact .more .steps nofun (acts_step m)
  | move v timely => exact .more (.makes v) nofun (acts_submit timely)
  | clearHistory => exact .last .clearHistory
  | clearEvents => exact .last .clearEvents
  | refusedFrame => exact .last .refusedFrame

theorem Acts.relates {R : Machine → Machine → Prop} {P : Hand → Prop}
    (trans : ∀ {m m' m''}, R m m' → R m' m'' → R m m'')
    (closed : ∀ {hand hand' m m'}, P hand → Act m hand hand' m' → hand' ≠ .empty → P hand')
    (each : ∀ {hand hand' m m'}, P hand → Act m hand hand' m' → R m m')
    (acts : Acts hand m m') (first : P hand) : R m m' := by
  -- `P` says what may be in hand; it is asked for as long as something is.
  induction acts with
  | last act => exact each first act
  | more act busy _ ih => exact trans (each first act) (ih (closed first act busy))

theorem Act.isBystanders (bystanders : hand.isBystanders) (act : Act m hand hand' m')
    (busy : hand' ≠ .empty) : hand'.isBystanders := by
  cases act <;> first | rfl | exact absurd rfl busy | cases bystanders

theorem timely_of_stays {v : Move} (stays : v.givesUp = false) : m.Timely v := by
  cases v with
  | abandon => cases stays
  | _ => trivial

theorem Midway.acts {d : Dispatcher} {capacity : Nat} (before : Midway d capacity hand m)
    (acts : Acts hand m m') : Midway d capacity .empty m' := by
  induction acts with
  | last act => exact before.act act
  | more act _ _ ih => exact ih (before.act act)

theorem Reachable.midway {d : Dispatcher} {capacity : Nat} (h : Reachable d capacity m) :
    Midway d capacity .empty m := by
  induction h with
  | refl => exact .start
  | tail _ change ih => exact ih.acts change.acts

end Machine

end Lifecycle
