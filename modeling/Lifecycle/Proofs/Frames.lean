import Lifecycle.Proofs.Replies
import Lifecycle.Proofs.Scene
import Lifecycle.Proofs.Story

/-! What the answer to a frame tells. A frame is refused before anything is done for it, at once and
whoever holds the gate; or it starts one dispatch, and is answered when that is published and
recorded, with an error only if the reply cannot be encoded. So of all errors that one alone says
that the command was applied. -/

namespace Lifecycle

namespace Router

/-- What there is to say of a frame, in this order: it cannot be decoded, or its label names no
command, or its arguments are neither null nor an object; else it asks for a command. -/
inductive Verdict (c : Codec) (frame : Bytes) : Except RouterError (String × Request) → Prop
  | undecodable {text} (rejected : c.decode frame = .error text) :
    Verdict c frame (.error (.decode text))
  | unknown {e : Envelope} (decoded : c.decode frame = .ok e)
    (label : ∀ command, Command.parse e.cmd ≠ .ok command) :
    Verdict c frame (.error (.unknownCommand ⟨e.cmd⟩))
  | unfit {e : Envelope} {command i} (decoded : c.decode frame = .ok e)
    (label : Command.parse e.cmd = .ok command) (null : e.args ≠ .null)
    (object : ∀ ms, e.args ≠ .object ms) (found : Args.ofJson e.args = .error i) :
    Verdict c frame (.error (.invalidArgs i))
  | asks {e : Envelope} {command args} (decoded : c.decode frame = .ok e)
    (label : Command.parse e.cmd = .ok command)
    (document : e.args = .null ∧ args = .empty ∨ e.args = .object args.members) :
    Verdict c frame (.ok (e.id, { command, args }))

variable {c : Codec} {frame : Bytes}

theorem ofJson_cases (v : Json) :
    (v ≠ .null ∧ (∀ ms, v ≠ .object ms) ∧ ∃ i, Args.ofJson v = .error i) ∨
      ∃ args, Args.ofJson v = .ok args ∧
        (v = .null ∧ args = .empty ∨ v = .object args.members) := by
  cases v with
  | null => exact .inr ⟨.empty, rfl, .inl ⟨rfl, rfl⟩⟩
  | object ms => exact .inr ⟨⟨ms⟩, rfl, .inr rfl⟩
  | bool | number | string | array => exact .inl ⟨by simp, by simp, _, rfl⟩

theorem verdict_accept (c : Codec) (frame : Bytes) : Verdict c frame (accept c frame) := by
  unfold accept
  cases decoded : c.decode frame with
  | error text => exact .undecodable decoded
  | ok e =>
    simp only [bind, Except.bind, Except.mapError]
    cases label : Command.parse e.cmd with
    | error u =>
      obtain ⟨text⟩ := u
      obtain rfl : text = e.cmd := Command.parse_error label
      exact .unknown decoded (by simp [label])
    | ok command =>
      dsimp only
      rcases ofJson_cases e.args with ⟨null, object, i, found⟩ | ⟨args, found, document⟩
      · rw [found]
        exact .unfit decoded label null object found
      · rw [found]
        exact .asks decoded label document

theorem Verdict.accept {v : Except RouterError (String × Request)} (h : Verdict c frame v) :
    accept c frame = v := by
  cases h with
  | undecodable rejected =>
    rw [Router.accept, rejected]
    rfl
  | @unknown e decoded label =>
    cases refused : Command.parse e.cmd with
    | error u =>
      obtain ⟨text⟩ := u
      obtain rfl : text = e.cmd := Command.parse_error refused
      simp [Router.accept, bind, Except.bind, Except.mapError, decoded, refused]
    | ok command => exact absurd refused (label command)
  | unfit decoded label null object found =>
    simp [Router.accept, bind, Except.bind, Except.mapError, decoded, label, found]
  | @asks e command args decoded label document =>
    have found : Args.ofJson e.args = .ok args := by
      rcases document with ⟨null, rfl⟩ | object
      · rw [null]
        rfl
      · rw [object]
        rfl
    simp [Router.accept, bind, Except.bind, Except.mapError, decoded, label, found, pure,
      Except.pure]

def answered (c : Codec) (name : String) (r : Result) : Session.Report :=
  match c.encode ⟨name, r⟩ with
  | .ok reply => .reply reply
  | .error text => .refused (.encode text)

end Router

/-- What is appended is told of, unless it is about to be. -/
theorem Lawful.emitted_of_appended {d : Dispatcher} {j : List Note} {a : Standing}
    (accepts : ∀ n, d.telemetry.breaks n = none) (h : Lawful d j a) {call : Nat} {r : Result}
    (mem : .appended call r ∈ j) : ∃ e, r.event? = some e ∧
      (.emitted call e ∈ j ∨ ∃ t, a.phase = .appended t e ∧ t.call = call) := by
  induction h with
  | nil => cases mem
  | @snoc j a n b before next ih =>
    rcases List.mem_append.1 mem with old | new
    · obtain ⟨e, image, here⟩ := ih old
      refine ⟨e, image, ?_⟩
      rcases here with told | ⟨t, phase, own⟩
      · exact .inl (List.mem_append_left _ told)
      · cases next with
        | aside => exact .inr ⟨t, phase, own⟩
        | announce =>
          cases phase
          exact .inl (by simp [own])
        | @loseEvent _ _ _ k _ breaks => simp [accepts k] at breaks
        | _ => cases phase
    · cases List.mem_singleton.1 new
      cases next with
      | aside silent => cases silent
      | @append s t r e => exact ⟨e, before.event?_of_published t r e rfl, .inr ⟨t, rfl, rfl⟩⟩

theorem Gate.phase_ne_appended (g : Gate) (t : Ticket) (e : Event) : g.phase ≠ .appended t e := by
  obtain ⟨_ | ⟨u, _ | _ | _⟩, waiting⟩ := g <;> simp [phase, Holding.phase]

namespace Machine

/-- What a frame does by itself, at whatever moment it comes, and the error that its caller gets at
once, if it does. -/
def receive (m : Machine) (c : Codec) (frame : Bytes) : Machine × Option RouterError :=
  match Router.accept c frame with
  | .ok (_, r) => (m.submit (.dispatch .detached r.command r.args), none)
  | .error (.decode text) => (m.log [.undecodable], some (.decode text))
  | .error e => (m, some e)

structure Untouched (m m' : Machine) : Prop where
  dispatcher : m'.dispatcher = m.dispatcher
  gate : m'.gate = m.gate
  channel : m'.channel = m.channel
  turns : m'.turns = m.turns
  calls : m'.calls = m.calls
  appended : m'.appended = m.appended
  emitted : m'.emitted = m.emitted
  ran : m'.journal.filterMap Note.running? = m.journal.filterMap Note.running?

/-- A dispatch is published with this result and no other, and recorded by history and sink; a
handler that ran for it was given its command and its arguments. -/
structure Recorded (m : Machine) (t : Ticket) (r : Result) : Prop where
  asked : ∃ args, t.work = .dispatch r.command args
  ran : ∀ context observed, .ran t.call context observed ∈ m.journal →
    t.work = .dispatch context.command context.args
  committed : ∃ outcome status, .committed t.call outcome r status ∈ m.journal
  once : ∀ outcome r' status, .committed t.call outcome r' status ∈ m.journal → r' = r
  appended : .appended t.call r ∈ m.journal
  emitted : ∃ e, r.event? = some e ∧ .emitted t.call e ∈ m.journal

variable {m : Machine}

theorem filterMap_log {α : Type} {f : Note → Option α} (m : Machine) (records : List LogRecord)
    (silent : ∀ record, f (.logged record) = none) :
    (m.log records).journal.filterMap f = m.journal.filterMap f := by
  have none : (records.map Note.logged).filterMap f = [] := by
    simp [List.filterMap_map, silent]
  rw [log, List.filterMap_append, none, List.append_nil]

theorem Untouched.refl (m : Machine) : Untouched m m := ⟨rfl, rfl, rfl, rfl, rfl, rfl, rfl, rfl⟩

theorem Untouched.log (m : Machine) (records : List LogRecord) : Untouched m (m.log records) where
  dispatcher := rfl
  gate := rfl
  channel := rfl
  turns := rfl
  calls := rfl
  appended := filterMap_log (f := Note.appended?) m records fun _ => rfl
  emitted := filterMap_log (f := Note.emitted?) m records fun _ => rfl
  ran := filterMap_log m records fun _ => rfl

theorem receive_error {c : Codec} {frame : Bytes} {e : RouterError}
    (refused : Router.accept c frame = .error e) :
    (m.receive c frame).2 = some e ∧ m.Untouched (m.receive c frame).1 := by
  unfold receive
  rw [refused]
  cases e with
  | decode text => exact ⟨rfl, .log ..⟩
  | unknownCommand | invalidArgs | encode => exact ⟨rfl, .refl m⟩

variable {d : Dispatcher} {capacity : Nat}

theorem Reachable.recorded (h : Reachable d capacity m) (unbroken : d.Unbroken) {t : Ticket}
    (known : ticketOf m.journal t.call = some t) {r : Result} (mem : (t.call, r) ∈ m.outcomes) :
    m.Recorded t r := by
  obtain ⟨⟨outcome, status, committed⟩, -⟩ := h.done_of_outcome unbroken mem
  have appended : .appended t.call r ∈ m.journal := by
    obtain ⟨n, mem, same⟩ := List.mem_filterMap.1 mem
    cases n <;> cases same
    exact mem
  constructor
  case asked =>
    obtain ⟨u, args, known', work⟩ := (h.delivers unbroken).matched _ _ mem
    cases known.symm.trans known'
    exact ⟨args, work⟩
  case ran =>
    intro context observed mem
    obtain ⟨u, known', work⟩ := h.lawful.ran_ticket mem
    cases known.symm.trans known'
    exact work
  case committed => exact ⟨outcome, status, committed⟩
  case once =>
    intro outcome' r' status' committed'
    cases h.lawful.published_once committed committed' rfl rfl
    rfl
  case appended => exact appended
  case emitted =>
    obtain ⟨e, image, emitted | ⟨t, phase, -⟩⟩ :=
      h.lawful.emitted_of_appended unbroken.2 appended
    · exact ⟨e, image, emitted⟩
    · exact absurd phase (m.gate.phase_ne_appended t e)

theorem receive_ok (h : Reachable d capacity m) {c : Codec} {frame : Bytes} {name : String}
    {r : Request} (accepted : Router.accept c frame = .ok (name, r)) :
    (m.receive c frame).2 = none ∧ Reachable d capacity (m.receive c frame).1 ∧
      (m.receive c frame).1.journal.filterMap Note.ticket? = m.journal.filterMap Note.ticket? ++
        [⟨m.calls.length, .task, .dispatch r.command r.args⟩] ∧
      ticketOf (m.receive c frame).1.journal m.calls.length =
        some ⟨m.calls.length, .task, .dispatch r.command r.args⟩ := by
  have timely : m.Timely (.dispatch .detached r.command r.args) := trivial
  have started : Reachable d capacity (m.submit (.dispatch .detached r.command r.args)) :=
    h.tail (.move _ timely)
  have same : m.receive c frame = (m.submit (.dispatch .detached r.command r.args), none) := by
    rw [receive, accepted]
  rw [same]
  refine ⟨rfl, started, ?_, started.orderly.known
    ⟨m.calls.length, .task, .dispatch r.command r.args⟩ ?_⟩
  · simp [submit, dispatch, wake, openCall, note, Note.ticket?, Path.seat]
  · simp [submit, dispatch, wake, tickets, entrants, turns, Turn.ticket?, Path.seat, openCall, note]

/-- Whoever is told anything of a dispatch is told its result when that is recorded. -/
theorem Reachable.recorded_of_told (h : Reachable d capacity m) (unbroken : d.Unbroken) {t : Ticket}
    {command : Command} {args : Args} {a : Answer} (known : ticketOf m.journal t.call = some t)
    (work : t.work = .dispatch command args) (told : m.calls[t.call]? = some (.answered a)) :
    ∃ r, a = .result r ∧ m.Recorded t r := by
  rcases h.outcome_of_told unbroken told with ⟨r, rfl, mem⟩ | ⟨u, state, known', forces⟩
  · exact ⟨r, rfl, h.recorded unbroken known mem⟩
  · cases known.symm.trans known'
    cases work.symm.trans forces

end Machine

namespace Session

open Machine

theorem present_frame (call : Nat) (c : Codec) (name : String) (r : Result) :
    present ⟨call, some (c, name)⟩ (.result r) = Router.answered c name r := by
  simp only [present, Router.reply, Router.answered]
  cases c.encode ⟨name, r⟩ <;> rfl

/-- What is reported of the dispatch for a frame: that it is under way, or, once it is recorded,
what the caller of the frame gets for its result. -/
def Settles (m : Machine) (t : Ticket) (c : Codec) (name id : String) (report : Report) : Prop :=
  report = .pending id ∧ m.isPending t.call ∧ t ∈ m.tickets ∨
    ∃ r, m.Recorded t r ∧ report = Router.answered c name r

variable {d : Dispatcher} {capacity : Nat} {s : Session}

theorem settles_settleCall (h : Reachable d capacity s.machine) (unbroken : d.Unbroken)
    {t : Ticket} {command : Command} {args : Args}
    (known : ticketOf s.machine.journal t.call = some t) (work : t.work = .dispatch command args)
    (still : s.machine.calls[t.call]? ≠ some .abandoned) (c : Codec) (name id : String) :
    Settles s.machine t c name id
      (s.settleCall id ⟨t.call, some (c, name)⟩ (.pending id)).2 := by
  have less := h.orderly.numbered t (mem_of_ticketOf known)
  unfold settleCall
  cases now : s.machine.calls[t.call]? with
  | none =>
    rw [List.getElem?_eq_none_iff] at now
    omega
  | some p =>
    cases p with
    | pending =>
      have waits : s.machine.isPending t.call := isPending_iff.2 now
      exact .inl ⟨rfl, waits, ((h.pending_iff unbroken known).1 waits).1⟩
    | abandoned => exact absurd now still
    | answered a =>
      obtain ⟨r, rfl, recorded⟩ := h.recorded_of_told unbroken known work now
      exact .inr ⟨r, recorded, present_frame t.call c name r⟩

theorem take_frame (s : Session) (c : Codec) (frame : Bytes) (id : String) :
    (∀ e, Router.accept c frame = .error e → (s.take (.frame c frame id)).2 = .refused e ∧
      (s.take (.frame c frame id)).1.machine = (s.machine.receive c frame).1) ∧
    ∀ asked, Router.accept c frame = .ok asked →
      (s.take (.frame c frame id)).1.machine = (s.machine.receive c frame).1.settle := by
  constructor
  · intro e refused
    unfold take receive
    dsimp only
    rw [refused]
    cases e <;> exact ⟨rfl, rfl⟩
  · rintro ⟨name, r⟩ accepted
    unfold take receive
    dsimp only
    rw [accepted]
    exact machine_opening ..

end Session

/-- In this configuration, whatever is going on, a frame is refused at once and nothing is done; or
one dispatch is started, and nothing is answered before that is recorded. -/
structure Machine.Handles (m : Machine) (c : Codec) (frame : Bytes) : Prop where
  judged : ∃! v, Router.Verdict c frame v
  refused : ∀ e, Router.Verdict c frame (.error e) →
    (m.receive c frame).2 = some e ∧ m.Untouched (m.receive c frame).1
  applied : ∀ name r, Router.Verdict c frame (.ok (name, r)) →
    ∃ t, t = ⟨m.calls.length, .task, .dispatch r.command r.args⟩ ∧
    (m.receive c frame).2 = none ∧
    (m.receive c frame).1.journal.filterMap Note.ticket? =
      m.journal.filterMap Note.ticket? ++ [t] ∧
    ∀ m' a, Reaches (m.receive c frame).1 m' → m'.calls[t.call]? = some (.answered a) →
      ∃ result, m'.Recorded t result ∧
        Session.present ⟨t.call, some (c, name)⟩ a = Router.answered c name result

/-- A frame in a session is refused at once, or is answered, at once or when its caller asks again,
for the one dispatch that it started. -/
structure Session.Serves (s : Session) (c : Codec) (frame : Bytes) (id : String) : Prop where
  refused : ∀ e, Router.Verdict c frame (.error e) → (s.take (.frame c frame id)).2 = .refused e ∧
    s.machine.Untouched (s.take (.frame c frame id)).1.machine
  applied : ∀ name r, Router.Verdict c frame (.ok (name, r)) →
    ∃ t, t = ⟨s.machine.calls.length, .task, .dispatch r.command r.args⟩ ∧
    (s.take (.frame c frame id)).1.machine.journal.filterMap Note.ticket? =
      s.machine.journal.filterMap Note.ticket? ++ [t] ∧
    Settles (s.take (.frame c frame id)).1.machine t c name id (s.take (.frame c frame id)).2 ∧
    ((s.take (.frame c frame id)).2 = .pending id → ∀ since : List Step,
      (∀ step ∈ since, step.name? ≠ some id) →
      Settles ((s.take (.frame c frame id)).1.after since).machine t c name id
        (((s.take (.frame c frame id)).1.after since).take (.join id)).2)

variable {d : Dispatcher} {capacity : Nat}

open Machine in
theorem Machine.Reachable.handles {m : Machine} (h : Reachable d capacity m)
    (unbroken : d.Unbroken) (c : Codec) (frame : Bytes) : m.Handles c frame where
  judged := ⟨_, Router.verdict_accept c frame, fun _ verdict => verdict.accept.symm⟩
  refused _ verdict := receive_error verdict.accept
  applied name r verdict := by
    obtain ⟨waits, started, opened, known⟩ := receive_ok h verdict.accept
    refine ⟨_, rfl, waits, opened, fun m' a later told => ?_⟩
    obtain ⟨news, same, -⟩ := later.later.journal
    have reachable : Reachable d capacity m' := started.trans later
    obtain ⟨result, rfl, recorded⟩ := reachable.recorded_of_told unbroken
      (same ▸ ticketOf_of_append news known) rfl told
    exact ⟨result, recorded, Session.present_frame ..⟩

open Machine in
theorem Session.serves {s : Session} (h : Reachable d capacity s.machine)
    (quiet : s.machine.isQuiet) (distinct : s.Distinct) (unbroken : d.Unbroken) (c : Codec)
    (frame : Bytes) (id : String) : s.Serves c frame id where
  refused e verdict := by
    obtain ⟨told, same⟩ := (s.take_frame c frame id).1 e verdict.accept
    exact ⟨told, same ▸ (receive_error verdict.accept).2⟩
  applied name r verdict := by
    refine ⟨_, rfl, ?_, ?_⟩
    · obtain ⟨-, started, opened, -⟩ := receive_ok h verdict.accept
      have same := (s.take_frame c frame id).2 _ verdict.accept
      rw [same, started.opened_eq (reaches_settle _) (length_settle _), opened]
    · have asks : (Step.frame c frame id).request? = some
          ⟨id, some (c, name), .detached, r.command, r.args⟩ := by
        rw [Step.request?, verdict.accept]
      have own := own_reports h quiet distinct asks
        (P := fun m report => Settles m ⟨s.machine.calls.length, .task,
          .dispatch r.command r.args⟩ c name id report)
        fun w reachable known still =>
          settles_settleCall reachable unbroken known rfl still c name id
      exact own.2

/-- Of a dispatcher whose records never break down, every configuration and every session deals with
every frame so, whatever the codec: the kind of an error tells whether the command was applied. -/
theorem Router.errors_tell_whether_applied (unbroken : d.Unbroken) :
    (∀ capacity m, Machine.Reachable d capacity m → ∀ c frame, m.Handles c frame) ∧
      ∀ s, Session.Uses d s → ∀ c frame id, s.Serves c frame id := by
  refine ⟨fun _ _ h => h.handles unbroken, fun s uses => ?_⟩
  obtain ⟨⟨capacity, reachable⟩, quiet, distinct⟩ := uses.reachable
  exact fun c frame id => Session.serves reachable quiet distinct unbroken c frame id

/-- A frame that cannot be decoded while a handler blocks the gate, one that joins the queue there,
and one whose reply cannot be encoded. -/
theorem Router.errors_tell_while_start_blocks :
    let deaf : Codec := ⟨fun _ => .error "noise", fun _ => .error "full"⟩
    let mute : Codec := ⟨fun _ => .ok ⟨"7", " Stop", .null⟩, fun _ => .error "full"⟩
    (∃ m, Machine.Reachable .patient 1 m ∧ m.isBlocked ∧
      (m.receive deaf []).2 = some (.decode "noise") ∧ m.Untouched (m.receive deaf []).1 ∧
      (m.receive mute []).2 = none) ∧
    ∃ d s, d.Unbroken ∧ Session.Uses d s ∧
      ∃ r, (s.take (.frame mute [] "a")).1.machine.Recorded
        ⟨0, .task, .dispatch .stop .empty⟩ r ∧
      (s.take (.frame mute [] "a")).2 = .refused (.encode "full") := by
  intro deaf mute
  have stops : Router.Verdict mute [] (.ok ("7", ⟨.stop, .empty⟩)) :=
    .asks (e := ⟨"7", " Stop", .null⟩) rfl (by decide) (.inl ⟨rfl, rfl⟩)
  refine ⟨⟨_, Machine.reachable_run .patient 1 [.dispatch .attached .start .empty], rfl, ?_⟩, ?_⟩
  · have handles := (errors_tell_whether_applied (d := .patient) ⟨fun _ => rfl, fun _ => rfl⟩).1 1 _
      (Machine.reachable_run .patient 1 [.dispatch .attached .start .empty])
    obtain ⟨told, untouched⟩ := (handles deaf []).refused _ (.undecodable rfl)
    obtain ⟨_, -, waits, -⟩ := (handles mute []).applied _ _ stops
    exact ⟨told, untouched, waits⟩
  · let s : Session := { machine := .start (.ofRegistry .empty) 8 }
    have uses : Session.Uses (.ofRegistry .empty) s := ⟨{ plain := true }, s, [], rfl, rfl, rfl⟩
    have serves := (errors_tell_whether_applied ⟨fun _ => rfl, fun _ => rfl⟩).2 s uses mute [] "a"
    obtain ⟨t, rfl, -, settles, -⟩ := serves.applied _ _ stops
    have told : (s.take (.frame mute [] "a")).2 = .refused (.encode "full") := rfl
    rcases settles with ⟨pending, -⟩ | ⟨r, recorded, -⟩
    · cases told.symm.trans pending
    · exact ⟨_, s, ⟨fun _ => rfl, fun _ => rfl⟩, uses, r, recorded, told⟩

end Lifecycle
