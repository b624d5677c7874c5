import Blackboard.Config
import Blackboard.Transport

/-!
# Failures of kernel calls
-/

namespace Blackboard

inductive KernelError where
  /-- A tuple, a key or a handle was refused. -/
  | tuple (cause : TupleError)
  /-- A failure known by its number alone. -/
  | failed (code : ErrorCode)
  | versionMismatch (found : String)
  /-- The tuple belongs to another process, and writes to others are not allowed. -/
  | foreignOwner (owner localId : Owner)
  | notRunning
  | transportStopped
  | timeout (limit : Duration)
  | transport (cause : TransportError)
  | writeLost
  | config (cause : ConfigError)
  deriving DecidableEq, Repr

namespace KernelError

def message : KernelError → String
  | tuple cause => cause.message
  | failed code => s!"Tuple operation failed: {code.text} (code {code.number})"
  | versionMismatch found => s!"Version mismatch: kernel {protocolVersion}, transport {found}"
  | foreignOwner owner localId =>
    "Tuple owned by " ++ toString owner ++ " cannot be written by " ++ toString localId
  | notRunning => "Kernel is not running"
  | transportStopped => "Transport stopped"
  | timeout limit => "Timed out after " ++ limit.render
  | transport cause => "Transport error: " ++ cause.message
  | writeLost => "Transport error: write dropped"
  | config cause => cause.message

end KernelError

end Blackboard
