import Lifecycle.Args
import Lifecycle.Command

/-! The shared vocabulary of argument documents, so that callers and handlers agree on keys. -/

namespace Lifecycle.Args.Canonical

def dryRun : String := "dry_run"

def force : String := "force"

def reason : String := "reason"

def config : String := "config"

def deep : String := "deep"

def reset : String := "reset"

def keys : List String := [dryRun, force, reason, config, deep, reset]

def default (_ : Command) : Args := .empty

def startDryRun : Args := Args.empty.insert dryRun (.bool true)

def stopForced : Args := Args.empty.insert force (.bool true)

def pauseWithReason : Args := Args.empty.insert reason (.string "maintenance")

def reloadWithConfig : Args :=
  Args.empty.insert config (.object [("sample_rate_hz", .integer 10)])

def healthCheckDeep : Args := Args.empty.insert deep (.bool true)

def recoverWithReset : Args := Args.empty.insert reset (.bool true)

def named : List (String × Args) :=
  Command.all.map (fun c => (c.label ++ "_default", default c)) ++
    [("start_dry_run", startDryRun), ("stop_forced", stopForced),
     ("pause_with_reason", pauseWithReason), ("reload_with_config", reloadWithConfig),
     ("health_check_deep", healthCheckDeep), ("recover_with_reset", recoverWithReset)]

def ofName? (name : String) : Option Args := Members.get? name named

end Lifecycle.Args.Canonical
