import Lifecycle.Handler

/-! The handlers of a component, at most one for each command. A registry is put together by
registrations in order; the first one that repeats a command is remembered and makes the whole
fail. -/

namespace Lifecycle

structure Registry where
  handler? : Command → Option Handler

namespace Registry

def empty : Registry := ⟨fun _ => none⟩

instance : Inhabited Registry := ⟨empty⟩

def contains (r : Registry) (c : Command) : Bool := (r.handler? c).isSome

def commands (r : Registry) : List Command := Command.all.filter r.contains

def size (r : Registry) : Nat := r.commands.length

def isEmpty (r : Registry) : Bool := r.commands.isEmpty

def missing (r : Registry) : List Command := Command.all.filter fun c => !r.contains c

def text (r : Registry) : String :=
  "HandlerRegistry \x7b commands: [" ++ String.intercalate ", " (r.commands.map Command.word) ++
    "] \x7d"

section queries

variable {r : Registry} {c : Command}

theorem contains_iff : r.contains c ↔ ∃ h, r.handler? c = some h := Option.isSome_iff_exists

theorem contains_eq_false_iff : r.contains c = false ↔ r.handler? c = none := by
  rw [contains, Option.isSome_eq_false_iff, Option.isNone_iff_eq_none]

theorem mem_commands : c ∈ r.commands ↔ r.contains c := by
  simp [commands, Command.mem_all]

theorem mem_missing : c ∈ r.missing ↔ r.handler? c = none := by
  simp [missing, Command.mem_all, contains_eq_false_iff]

theorem isEmpty_iff : r.isEmpty ↔ ∀ c, r.handler? c = none := by
  simp [isEmpty, commands, List.isEmpty_iff, Command.mem_all, contains_eq_false_iff]

theorem commands_sublist (r : Registry) : r.commands.Sublist Command.all := List.filter_sublist

theorem commands_nodup (r : Registry) : r.commands.Nodup :=
  r.commands_sublist.nodup (by decide)

/-- A registry has as many handlers as commands that it contains. -/
theorem size_eq {cs : List Command} (nodup : cs.Nodup) (all : ∀ c, c ∈ cs ↔ r.contains c) :
    r.size = cs.length :=
  ((List.perm_ext_iff_of_nodup r.commands_nodup nodup).2 fun c =>
    mem_commands.trans (all c).symm).length_eq

theorem size_eq_zero_iff : r.size = 0 ↔ r.isEmpty := by
  rw [size, List.length_eq_zero_iff, isEmpty, List.isEmpty_iff]

end queries

structure Builder where
  registry : Registry := empty
  repeated : Option Command := none

structure Duplicate where
  command : Command
  deriving DecidableEq, Repr

def Duplicate.message (e : Duplicate) : String :=
  s!"duplicate handler registered for {e.command.name}"

namespace Builder

/-- Registers a handler. The first handler of a command stays. -/
def register (b : Builder) (c : Command) (h : Handler) : Builder :=
  if b.registry.contains c then { b with repeated := b.repeated <|> some c }
  else { b with registry := ⟨fun d => if d = c then some h else b.registry.handler? d⟩ }

def registerArc (b : Builder) (c : Command) (h : Handler) : Builder := b.register c h

def on (b : Builder) (c : Command) (h : Handler) : Builder := b.register c h

def onStart (b : Builder) (h : Handler) : Builder := b.on .start h

def onStop (b : Builder) (h : Handler) : Builder := b.on .stop h

def onPause (b : Builder) (h : Handler) : Builder := b.on .pause h

def onResume (b : Builder) (h : Handler) : Builder := b.on .resume h

def onReload (b : Builder) (h : Handler) : Builder := b.on .reload h

def onHealthCheck (b : Builder) (h : Handler) : Builder := b.on .healthCheck h

def onRecover (b : Builder) (h : Handler) : Builder := b.on .recover h

def ofList (registrations : List (Command × Handler)) : Builder :=
  registrations.foldl (fun b (c, h) => b.register c h) {}

def build (b : Builder) : Except Duplicate Registry :=
  match b.repeated with
  | some c => .error ⟨c⟩
  | none => .ok b.registry

end Builder

end Registry

end Lifecycle
