import Blackboard.Tuple
import Blackboard.Tuple.Match

/-!
# Configuration

What a kernel is started with. `validate` refuses the values that no kernel can run with; of several
faults it reports the first in the order of its checks.
-/

namespace Blackboard

inductive FileFormat where
  | yaml
  | toml
  | json
  deriving DecidableEq, Repr

def FileFormat.name : FileFormat → String
  | yaml => "YAML"
  | toml => "TOML"
  | json => "JSON"

/-- Why there is no usable configuration. -/
inductive ConfigError where
  /-- The rate of the dispatch loop is out of range. -/
  | tickRate (hz : Nat)
  | unnamed
  /-- Acknowledged writes would not wait at all. -/
  | noAckTimeout
  | badValue (name value reason : String)
  | malformed (format : FileFormat)
  | unknownFormat
  /-- A file is missing, or it is no text. -/
  | unreadable
  deriving DecidableEq, Repr

def slowestTick : Nat := 1

def fastestTick : Nat := 10000

/-- The report given to the caller. What is wrong inside a file is reported by its format alone. -/
def ConfigError.message : ConfigError → String
  | tickRate hz =>
    s!"Invalid configuration: tick_hz must be between {slowestTick} and {fastestTick}, got {hz}"
  | unnamed => "Invalid configuration: component_name must not be empty"
  | noAckTimeout => "Invalid configuration: insert_ack_timeout_ms must be positive"
  | badValue name value reason => s!"Invalid configuration: {name}={value}: {reason}"
  | malformed format => format.name
  | unknownFormat => "unsupported config file"
  | unreadable => "unreadable config file"

/-- The settings of a kernel. -/
structure Config where
  localId : Owner := 1
  /-- The name that the process publishes for itself. -/
  componentName : String := "coordspace"
  tickHz : Nat := 100
  /-- Milliseconds after which a blocking read gives up, unless it says so itself. -/
  blockingTimeoutMs : Option Nat := none
  /-- Milliseconds after which an acknowledged write gives up. -/
  insertAckTimeoutMs : Nat := 5000
  /-- Whether payloads are compared up to the case of ASCII letters. -/
  caseInsensitivePayload : Bool := true
  /-- Whether writes of other processes' tuples are sent to them. -/
  allowRemoteWrites : Bool := true
  /-- Whether the tuple that lists the keys of the process is kept. -/
  publishAllKeys : Bool := true
  /-- Peers to connect at the start. -/
  connect : List String := []
  /-- Peers to keep connected. -/
  autoConnect : List String := []
  deriving DecidableEq, Repr, Inhabited

namespace Config

/-- True if a name has a character that is not blank. -/
def isName (name : String) : Bool := !(Text.trim name.toList).isEmpty

/-- Refuses values that no kernel can run with. -/
def validate (c : Config) : Except ConfigError Unit :=
  if c.tickHz < slowestTick || fastestTick < c.tickHz then .error (.tickRate c.tickHz)
  else if !isName c.componentName then .error .unnamed
  else if c.insertAckTimeoutMs = 0 then .error .noAckTimeout
  else .ok ()

/-- The time from one tick to the next, in whole microseconds. -/
def tickPeriod (c : Config) : Duration := .ofMicros (microsPerSecond / max 1 c.tickHz)

def blockingTimeout (c : Config) : Option Duration := c.blockingTimeoutMs.map .ofMillis

def insertAckTimeout (c : Config) : Duration := .ofMillis c.insertAckTimeoutMs

def payloadCase (c : Config) : PayloadCase :=
  if c.caseInsensitivePayload then .insensitive else .sensitive

end Config

end Blackboard
