import Blackboard.Config.Variables
import Blackboard.Json

/-!
# What configuration files say

The formats of configuration files differ in how they write values, not in what values there are. A
`Document` is a value of any of them, and `config?` reads the settings from one: fields that are
missing keep their defaults, fields that are not settings play no part, and a value that does not fit
its setting spoils the whole.

Some formats have words without quotes, which mean a number, a flag or a text, depending on what is
asked of them. Such a word is kept as it is written.
-/

namespace Blackboard

/-- A value in a configuration file. -/
inductive Document where
  | null
  | flag (value : Bool)
  | integer (value : Int)
  | text (value : String)
  /-- A word without quotes. -/
  | word (value : List Char)
  | list (items : List Document)
  /-- Named values in their order. A name that is no text is missing. -/
  | fields (entries : List (Option String × Document))
  /-- A value of a kind that no setting has. -/
  | other
  deriving Inhabited

namespace Document

/-! ## Words -/

/-- The words that stand for nothing. -/
def isNothing (cs : List Char) : Bool :=
  cs.isEmpty || ["null", "Null", "NULL", "~"].any fun w => w.toList = cs

def wordFlag? (cs : List Char) : Option Bool :=
  if ["true", "True", "TRUE"].any fun w => w.toList = cs then some true
  else if ["false", "False", "FALSE"].any fun w => w.toList = cs then some false
  else none

/-- A digit in a base of at most sixteen. -/
def digit? (base : Nat) (c : Char) : Option Nat := (Json.hexValue? c).filter (· < base)

def digits? (base : Nat) : List Char → Option Nat
  | [] => none
  | cs => (cs.mapM (digit? base)).map fun ds => ds.foldl (fun n d => base * n + d) 0

/-- The natural number that a word without a sign stands for: in decimal without leading zeros, or
after a mark in another base. -/
def unsignedWord? : List Char → Option Nat
  | '0' :: 'x' :: rest => digits? 16 rest
  | '0' :: 'o' :: rest => digits? 8 rest
  | '0' :: 'b' :: rest => digits? 2 rest
  | ['0'] => some 0
  | '0' :: _ => none
  | cs => digits? 10 cs

/-- The natural number that a word stands for. -/
def wordNat? : List Char → Option Nat
  | '+' :: rest => unsignedWord? rest
  | cs => unsignedWord? cs

/-! ## Values of settings -/

def nat? (bound : Nat) : Document → Option Nat
  | integer (.ofNat n) => if n ≤ bound then some n else none
  | word cs => (wordNat? cs).filter (· ≤ bound)
  | _ => none

def flag? : Document → Option Bool
  | flag b => some b
  | word cs => wordFlag? cs
  | _ => none

/-- A text. Any word can be one. -/
def text? : Document → Option String
  | text s => some s
  | word cs => some (String.ofList cs)
  | _ => none

/-- A list of texts. A word of no letters is an empty one. -/
def texts? : Document → Option (List String)
  | list items => items.mapM text?
  | word [] => some []
  | _ => none

def optional? {α : Type} (f : Document → Option α) : Document → Option (Option α)
  | null => some none
  | word cs => if isNothing cs then some none else (f (word cs)).map some
  | d => (f d).map some

/-! ## Settings -/

def settingNames : List String :=
  ["local_id", "component_name", "tick_hz", "blocking_timeout_ms", "insert_ack_timeout_ms",
    "case_insensitive_payload", "allow_remote_writes", "publish_all_keys", "connect",
    "auto_connect"]

/-- The value under a name, which must not occur twice. -/
def field? (entries : List (Option String × Document)) (name : String) :
    Option (Option Document) :=
  match entries.filter fun e => e.1 = some name with
  | [] => some none
  | [(_, value)] => some (some value)
  | _ => none

/-- The values of the settings, by their names or else in their order. -/
def settings? : Document → Option (List (Option Document))
  | fields entries =>
    if entries.any fun e => e.1.isNone then none else settingNames.mapM (field? entries)
  | list items =>
    if items.length ≤ settingNames.length then
      some (items.map some ++ List.replicate (settingNames.length - items.length) none)
    else none
  | word [] => some (List.replicate settingNames.length none)
  | _ => none

/-- A value, or a default where there is none. -/
def orDefault {α : Type} (f : Document → Option α) (default : α) : Option Document → Option α
  | none => some default
  | some d => f d

def config? (d : Document) : Option Config := do
  let c : Config := {}
  match ← d.settings? with
  | [localId, componentName, tickHz, blockingTimeoutMs, insertAckTimeoutMs, caseInsensitivePayload,
      allowRemoteWrites, publishAllKeys, connect, autoConnect] =>
    return {
      localId := ← orDefault (fun d => (d.nat? maxWord32).map UInt32.ofNat) c.localId localId
      componentName := ← orDefault text? c.componentName componentName
      tickHz := ← orDefault (nat? maxWord32) c.tickHz tickHz
      blockingTimeoutMs :=
        ← orDefault (optional? (nat? maxWord64)) c.blockingTimeoutMs blockingTimeoutMs
      insertAckTimeoutMs := ← orDefault (nat? maxWord64) c.insertAckTimeoutMs insertAckTimeoutMs
      caseInsensitivePayload :=
        ← orDefault flag? c.caseInsensitivePayload caseInsensitivePayload
      allowRemoteWrites := ← orDefault flag? c.allowRemoteWrites allowRemoteWrites
      publishAllKeys := ← orDefault flag? c.publishAllKeys publishAllKeys
      connect := ← orDefault texts? c.connect connect
      autoConnect := ← orDefault texts? c.autoConnect autoConnect }
  | _ => none

/-! ## JSON -/

mutual

def ofJson : Json → Document
  | .null => null
  | .bool b => flag b
  | .number (some n) => integer n
  | .number none => other
  | .string (some s) => text s
  | .string none => other
  | .array items => list (ofItems items)
  | .object members => fields (ofFields members)

def ofItems : List Json → List Document
  | [] => []
  | item :: rest => ofJson item :: ofItems rest

def ofFields : List (Option String × Json) → List (Option String × Document)
  | [] => []
  | (name, value) :: rest => (name, ofJson value) :: ofFields rest

end

end Document

end Blackboard
