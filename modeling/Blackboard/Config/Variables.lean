import Blackboard.Config
import Blackboard.Text.Numeral

/-!
# Configuration from variables

Each setting has a variable, whose value takes the place of the setting where it is given. Variables
are read in the order of the settings, so of several faults the first in that order is reported;
the result is validated as a whole.
-/

namespace Blackboard

abbrev Variables := String → Option String

namespace Variables

/-- What the names of all variables start with. -/
def family : String := "COORDSPACE_"

def value (vars : Variables) (setting : String) : Option String := vars (family ++ setting)

/-- Reads the value of a setting's variable, if it is given. Blanks around it do not matter. -/
def read {α : Type} (vars : Variables) (setting : String)
    (parse : List Char → Except String α) : Except ConfigError (Option α) :=
  match vars.value setting with
  | none => .ok none
  | some raw =>
    match parse (Text.trim raw.toList) with
    | .ok a => .ok (some a)
    | .error reason => .error (.badValue (family ++ setting) raw reason)

def parseNat (bound : Nat) (cs : List Char) : Except String Nat :=
  (Text.readNat bound cs).mapError Text.NumeralError.message

def parseFlag (cs : List Char) : Except String Bool :=
  if cs = "true".toList then .ok true
  else if cs = "false".toList then .ok false
  else .error ("provided string was not " ++ "\x60true\x60 or \x60false\x60")

/-- The parts of a text between commas, without the blanks around them and without empty ones. -/
def parseList (raw : String) : List String :=
  (((raw.toList.splitOn ',').map Text.trim).filter (!·.isEmpty)).map String.ofList

end Variables

def maxWord32 : Nat := UInt32.size - 1

def maxWord64 : Nat := UInt64.size - 1

namespace Config

/-- The settings with those replaced whose variables are given. -/
def replace (c : Config) (vars : Variables) : Except ConfigError Config := do
  let localId ← vars.read "LOCAL_ID" (Variables.parseNat maxWord32)
  let tickHz ← vars.read "TICK_HZ" (Variables.parseNat maxWord32)
  let blockingTimeoutMs ← vars.read "BLOCKING_TIMEOUT_MS" (Variables.parseNat maxWord64)
  let insertAckTimeoutMs ← vars.read "INSERT_ACK_TIMEOUT_MS" (Variables.parseNat maxWord64)
  let caseInsensitivePayload ← vars.read "CASE_INSENSITIVE_PAYLOAD" Variables.parseFlag
  let allowRemoteWrites ← vars.read "ALLOW_REMOTE_WRITES" Variables.parseFlag
  let publishAllKeys ← vars.read "PUBLISH_ALL_KEYS" Variables.parseFlag
  return {
    localId := (localId.map UInt32.ofNat).getD c.localId
    componentName := (vars.value "COMPONENT_NAME").getD c.componentName
    tickHz := tickHz.getD c.tickHz
    blockingTimeoutMs := blockingTimeoutMs.or c.blockingTimeoutMs
    insertAckTimeoutMs := insertAckTimeoutMs.getD c.insertAckTimeoutMs
    caseInsensitivePayload := caseInsensitivePayload.getD c.caseInsensitivePayload
    allowRemoteWrites := allowRemoteWrites.getD c.allowRemoteWrites
    publishAllKeys := publishAllKeys.getD c.publishAllKeys
    connect := ((vars.value "CONNECT").map Variables.parseList).getD c.connect
    autoConnect := ((vars.value "AUTO_CONNECT").map Variables.parseList).getD c.autoConnect }

/-- The settings with those replaced whose variables are given, if a kernel can run with the
result. -/
def overlay (c : Config) (vars : Variables) : Except ConfigError Config := do
  let c ← c.replace vars
  c.validate
  return c

end Config

end Blackboard
