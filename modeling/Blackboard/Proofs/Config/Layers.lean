import Mathlib.Data.List.Basic
import Blackboard.Config.Variables

/-!
# Settings in layers

What one place says of the settings is a layer, which has a value for some of them. Layers lie on one
another: each setting is taken from the first layer that has a value for it, and it is the default if
none has.

The variables are a layer, unless one of them has a value that cannot be read. Then the first such one in
the order of the settings is reported, and it makes no difference what lies below.
-/

namespace Blackboard

namespace Config

inductive Setting where
  | localId
  | componentName
  | tickHz
  | blockingTimeoutMs
  | insertAckTimeoutMs
  | caseInsensitivePayload
  | allowRemoteWrites
  | publishAllKeys
  | connect
  | autoConnect
  deriving DecidableEq, Repr

namespace Setting

def all : List Setting :=
  [localId, componentName, tickHz, blockingTimeoutMs, insertAckTimeoutMs, caseInsensitivePayload,
    allowRemoteWrites, publishAllKeys, connect, autoConnect]

theorem mem_all (s : Setting) : s ∈ all := by cases s <;> decide

abbrev Value : Setting → Type
  | localId => Owner
  | componentName => String
  | tickHz => Nat
  | blockingTimeoutMs => Option Nat
  | insertAckTimeoutMs => Nat
  | caseInsensitivePayload => Bool
  | allowRemoteWrites => Bool
  | publishAllKeys => Bool
  | connect => List String
  | autoConnect => List String

/-- The name of the setting's variable, behind what the names of all variables start with. -/
def variableName : Setting → String
  | localId => "LOCAL_ID"
  | componentName => "COMPONENT_NAME"
  | tickHz => "TICK_HZ"
  | blockingTimeoutMs => "BLOCKING_TIMEOUT_MS"
  | insertAckTimeoutMs => "INSERT_ACK_TIMEOUT_MS"
  | caseInsensitivePayload => "CASE_INSENSITIVE_PAYLOAD"
  | allowRemoteWrites => "ALLOW_REMOTE_WRITES"
  | publishAllKeys => "PUBLISH_ALL_KEYS"
  | connect => "CONNECT"
  | autoConnect => "AUTO_CONNECT"

/-- The value that the text of the setting's variable stands for, or what is wrong with the text. A
variable cannot take a bound away. -/
def parse (s : Setting) (raw : String) : Except String s.Value :=
  let word := Text.trim raw.toList
  match s with
  | localId => (Variables.parseNat maxWord32 word).map UInt32.ofNat
  | componentName => .ok raw
  | tickHz => Variables.parseNat maxWord32 word
  | blockingTimeoutMs => (Variables.parseNat maxWord64 word).map some
  | insertAckTimeoutMs => Variables.parseNat maxWord64 word
  | caseInsensitivePayload => Variables.parseFlag word
  | allowRemoteWrites => Variables.parseFlag word
  | publishAllKeys => Variables.parseFlag word
  | connect => .ok (Variables.parseList raw)
  | autoConnect => .ok (Variables.parseList raw)

end Setting

/-- What one place says of the settings: a value for some of them. -/
abbrev Layer := (s : Setting) → Option s.Value

/-! ## Layers on one another -/

def get (c : Config) : (s : Setting) → s.Value
  | .localId => c.localId
  | .componentName => c.componentName
  | .tickHz => c.tickHz
  | .blockingTimeoutMs => c.blockingTimeoutMs
  | .insertAckTimeoutMs => c.insertAckTimeoutMs
  | .caseInsensitivePayload => c.caseInsensitivePayload
  | .allowRemoteWrites => c.allowRemoteWrites
  | .publishAllKeys => c.publishAllKeys
  | .connect => c.connect
  | .autoConnect => c.autoConnect

def ofValues (value : (s : Setting) → s.Value) : Config where
  localId := value .localId
  componentName := value .componentName
  tickHz := value .tickHz
  blockingTimeoutMs := value .blockingTimeoutMs
  insertAckTimeoutMs := value .insertAckTimeoutMs
  caseInsensitivePayload := value .caseInsensitivePayload
  allowRemoteWrites := value .allowRemoteWrites
  publishAllKeys := value .publishAllKeys
  connect := value .connect
  autoConnect := value .autoConnect

@[simp] theorem get_ofValues (value : (s : Setting) → s.Value) (s : Setting) :
    (ofValues value).get s = value s := by cases s <;> rfl

theorem ofValues_get (c : Config) : ofValues c.get = c := rfl

theorem ext_get {c c' : Config} (h : ∀ s, c.get s = c'.get s) : c = c' := by
  rw [← ofValues_get c, ← ofValues_get c', funext h]

/-- Each setting from the first of the layers that has a value for it, or else the default. -/
def stack (layers : List Layer) : Config :=
  ofValues fun s => (layers.findSome? (· s)).getD (get {} s)

/-- The settings with those replaced for which a layer has a value. -/
def under (c : Config) (l : Layer) : Config := ofValues fun s => (l s).getD (c.get s)

theorem stack_nil : stack [] = {} := rfl

theorem stack_cons (l : Layer) (layers : List Layer) : stack (l :: layers) = (stack layers).under l := by
  refine ext_get fun s => ?_
  rw [stack, under, get_ofValues, get_ofValues, stack, get_ofValues, List.findSome?_cons]
  cases l s <;> rfl

end Config

namespace Variables

variable {vars : Variables}

/-! ## Variables as a layer -/

def layer (vars : Variables) : Config.Layer := fun s =>
  (vars.value s.variableName).bind fun raw => (s.parse raw).toOption

/-- True if there is no variable with a value that cannot be read. -/
def Readable (vars : Variables) : Prop :=
  ∀ (s : Config.Setting) (raw : String), vars.value s.variableName = some raw →
    ∃ a, s.parse raw = .ok a

/-- The report on the variable of a setting, if its value cannot be read. -/
def fault? (vars : Variables) (s : Config.Setting) : Option ConfigError :=
  (vars.value s.variableName).bind fun raw =>
    match s.parse raw with
    | .ok _ => none
    | .error reason => some (.badValue (family ++ s.variableName) raw reason)

/-- A result, or the first report on the variables of some settings. -/
def orReport {α : Type} (vars : Variables) (settings : List Config.Setting)
    (r : Except ConfigError α) : Except ConfigError α :=
  (settings.findSome? vars.fault?).elim r .error

theorem fault?_eq_none_iff {s : Config.Setting} : vars.fault? s = none ↔
    ∀ raw, vars.value s.variableName = some raw → ∃ a, s.parse raw = .ok a := by
  rw [fault?, Option.bind_eq_none_iff]
  refine forall₂_congr fun raw _ => ?_
  cases s.parse raw with
  | ok a => exact ⟨fun _ => ⟨a, rfl⟩, fun _ => rfl⟩
  | error reason => exact ⟨nofun, nofun⟩

theorem findSome?_fault?_eq_none_iff :
    Config.Setting.all.findSome? vars.fault? = none ↔ vars.Readable := by
  rw [List.findSome?_eq_none_iff]
  exact ⟨fun h s => fault?_eq_none_iff.1 (h s s.mem_all), fun h s _ => fault?_eq_none_iff.2 (h s)⟩

section OrReport

variable {α : Type} {s : Config.Setting} {settings : List Config.Setting} {r : Except ConfigError α}

theorem orReport_cons_of_none (h : vars.fault? s = none) :
    vars.orReport (s :: settings) r = vars.orReport settings r := by
  rw [orReport, List.findSome?_cons, h, orReport]

theorem orReport_cons_of_some {e : ConfigError} (h : vars.fault? s = some e) :
    vars.orReport (s :: settings) r = .error e := by
  rw [orReport, List.findSome?_cons, h, Option.elim_some]

theorem orReport_eq_ok_iff {a : α} :
    vars.orReport Config.Setting.all r = .ok a ↔ vars.Readable ∧ r = .ok a := by
  rw [← findSome?_fault?_eq_none_iff, orReport]
  cases Config.Setting.all.findSome? vars.fault? <;> simp

end OrReport

/-! ## Reading the variables in turn -/

section Read

variable {α β : Type} {s : Config.Setting} {settings : List Config.Setting} {r : Except ConfigError β}

/-- A variable is either read, and what is read is what the variables say of its setting, or at fault. -/
theorem read_cases {parse : List Char → Except String α} {f : α → s.Value}
    (hparse : ∀ raw, s.parse raw = (parse (Text.trim raw.toList)).map f) :
    (vars.fault? s = none ∧
      ∃ given, vars.read s.variableName parse = .ok given ∧ given.map f = vars.layer s) ∨
    ∃ e, vars.fault? s = some e ∧ vars.read s.variableName parse = .error e := by
  cases hvalue : vars.value s.variableName with
  | none => simp [fault?, layer, read, hvalue]
  | some raw =>
    cases hword : parse (Text.trim raw.toList) with
    | ok a => simp [fault?, layer, read, hvalue, hparse, hword, Except.map, Except.toOption]
    | error reason => simp [fault?, layer, read, hvalue, hparse, hword, Except.map]

/-- One variable is read and the rest goes on with its value. If the rest comes to a result unless some
other variables are at fault, the whole comes to it unless this one is at fault before them. -/
theorem read_bind {parse : List Char → Except String α} {f : α → s.Value}
    (hparse : ∀ raw, s.parse raw = (parse (Text.trim raw.toList)).map f)
    {next : Option α → Except ConfigError β}
    (hnext : ∀ given, given.map f = vars.layer s → next given = vars.orReport settings r) :
    (vars.read s.variableName parse >>= next) = vars.orReport (s :: settings) r := by
  rcases vars.read_cases hparse with ⟨hfault, given, hread, hgiven⟩ | ⟨e, hfault, hread⟩
  · rw [hread, orReport_cons_of_none hfault]
    exact hnext given hgiven
  · rw [hread, orReport_cons_of_some hfault]
    rfl

/-- The same where the word that is read is the value itself. -/
theorem read_bind_self {parse : List Char → Except String s.Value}
    (hparse : ∀ raw, s.parse raw = parse (Text.trim raw.toList))
    {next : Option s.Value → Except ConfigError β}
    (hnext : next (vars.layer s) = vars.orReport settings r) :
    (vars.read s.variableName parse >>= next) = vars.orReport (s :: settings) r := by
  refine read_bind (f := id) (fun raw => ?_) fun given hgiven => ?_
  · rw [hparse, Except.map_id, id]
  · rw [← hgiven, Option.map_id, id] at hnext
    exact hnext

/-- What can be made of every text is never at fault. -/
theorem fault?_of_total {f : String → s.Value} (h : ∀ raw, s.parse raw = .ok (f raw)) :
    vars.fault? s = none := fault?_eq_none_iff.2 fun raw _ => ⟨f raw, h raw⟩

theorem layer_of_total {f : String → s.Value} (h : ∀ raw, s.parse raw = .ok (f raw)) :
    vars.layer s = (vars.value s.variableName).map f := by
  rw [layer]
  cases vars.value s.variableName with
  | none => rfl
  | some raw => rw [Option.bind_some, h]; rfl

end Read

end Variables

namespace Config

/-- The variables lie over the settings, or the first that cannot be read is reported. -/
theorem replace_eq (c : Config) (vars : Variables) :
    c.replace vars = vars.orReport Setting.all (.ok (c.under vars.layer)) := by
  have hname := vars.layer_of_total (s := .componentName) fun _ => rfl
  have hconnect := vars.layer_of_total (s := .connect) fun _ => rfl
  have hauto := vars.layer_of_total (s := .autoConnect) fun _ => rfl
  rw [replace, Setting.all]
  -- The variables are read in the order of the settings. Those taken as they are have no fault to report
  -- and are passed over.
  refine Variables.read_bind (s := .localId) (fun _ => rfl) fun localId hlocalId => ?_
  rw [Variables.orReport_cons_of_none (Variables.fault?_of_total (s := .componentName) fun _ => rfl)]
  refine Variables.read_bind_self (s := .tickHz) (fun _ => rfl) ?_
  refine Variables.read_bind (s := .blockingTimeoutMs) (fun _ => rfl) fun blocking hblocking => ?_
  refine Variables.read_bind_self (s := .insertAckTimeoutMs) (fun _ => rfl) ?_
  refine Variables.read_bind_self (s := .caseInsensitivePayload) (fun _ => rfl) ?_
  refine Variables.read_bind_self (s := .allowRemoteWrites) (fun _ => rfl) ?_
  refine Variables.read_bind_self (s := .publishAllKeys) (fun _ => rfl) ?_
  rw [Variables.orReport_cons_of_none (Variables.fault?_of_total (s := .connect) fun _ => rfl),
    Variables.orReport_cons_of_none (Variables.fault?_of_total (s := .autoConnect) fun _ => rfl)]
  refine congrArg Except.ok (ext_get fun s => ?_)
  rw [under, get_ofValues]
  cases s with
  | localId => rw [← hlocalId]; rfl
  | componentName => rw [hname, Option.map_id']; rfl
  | blockingTimeoutMs => rw [← hblocking]; cases blocking <;> rfl
  | connect => rw [hconnect]; rfl
  | autoConnect => rw [hauto]; rfl
  | _ => rfl

/-- What lies below the variables plays a part only in what they leave of it. -/
theorem overlay_eq (c : Config) (vars : Variables) :
    c.overlay vars = vars.orReport Setting.all
      ((c.under vars.layer).validate.map fun _ => c.under vars.layer) := by
  rw [overlay, replace_eq, Variables.orReport, Variables.orReport]
  cases Setting.all.findSome? vars.fault? with
  | none =>
    show (c.under vars.layer).validate >>= _ = _
    cases (c.under vars.layer).validate <;> rfl
  | some e => rfl

theorem overlay_eq_ok_iff {c c' : Config} {vars : Variables} : c.overlay vars = .ok c' ↔
    vars.Readable ∧ (c.under vars.layer).validate = .ok () ∧ c' = c.under vars.layer := by
  rw [overlay_eq, Variables.orReport_eq_ok_iff]
  refine and_congr_right fun _ => ?_
  cases (c.under vars.layer).validate with
  | ok _ => simp [Except.map, eq_comm]
  | error e => simp [Except.map]

end Config

end Blackboard
