import Blackboard.Config.File
import Blackboard.Proofs.Config.Layers

/-!
# Loading a configuration

What a file names is a layer as well: a file that holds a configuration holds its own layer over the
defaults. Loading lays the variables over it, so a setting comes from its variable, or else from the
file, or else it is the default, and the result is validated.

A file is validated before the variables are laid over it, though. Where it is refused on its own,
nothing is loaded, even if a variable takes the place of the very value it is refused for.
-/

namespace Blackboard

namespace Config.Setting

def fieldName : Setting → String
  | localId => "local_id"
  | componentName => "component_name"
  | tickHz => "tick_hz"
  | blockingTimeoutMs => "blocking_timeout_ms"
  | insertAckTimeoutMs => "insert_ack_timeout_ms"
  | caseInsensitivePayload => "case_insensitive_payload"
  | allowRemoteWrites => "allow_remote_writes"
  | publishAllKeys => "publish_all_keys"
  | connect => "connect"
  | autoConnect => "auto_connect"

def read? (s : Setting) (d : Document) : Option s.Value :=
  match s with
  | localId => (d.nat? maxWord32).map UInt32.ofNat
  | componentName => d.text?
  | tickHz => d.nat? maxWord32
  | blockingTimeoutMs => d.optional? (Document.nat? maxWord64)
  | insertAckTimeoutMs => d.nat? maxWord64
  | caseInsensitivePayload => d.flag?
  | allowRemoteWrites => d.flag?
  | publishAllKeys => d.flag?
  | connect => d.texts?
  | autoConnect => d.texts?

end Config.Setting

namespace Document

/-! ## Files as layers -/

/-- What a document has for a setting, under its name or else in its place. -/
def entry? : Document → Config.Setting → Option Document
  | fields entries, s => (entries.find? fun e => e.1 = some s.fieldName).map (·.2)
  | list items, s => items[Config.Setting.all.idxOf s]?
  | _, _ => none

def layer (d : Document) : Config.Layer := fun s => (d.entry? s).bind s.read?

def ofFile? (name : String) (octets : List UInt8) : Option Document := do
  let text ← Text.ofOctets? octets
  let format ← FileFormat.ofName? name
  format.parse? text.toList

theorem eq_find?_of_field? {entries : List (Option String × Document)} {name : String}
    {o : Option Document} (h : field? entries name = some o) :
    o = (entries.find? fun e => e.1 = some name).map (·.2) := by
  rw [← List.head?_filter]
  rw [field?] at h
  split at h
  next heq => rw [heq]; exact (Option.some.inj h).symm
  next heq => rw [heq]; exact (Option.some.inj h).symm
  next => cases h

theorem eq_map_of_mapM {α β : Type} {f : α → Option β} {g : α → β}
    (hfg : ∀ a b, f a = some b → b = g a) {as : List α} {bs : List β} (h : as.mapM f = some bs) :
    bs = as.map g := by
  induction as generalizing bs with
  | nil => exact (Option.some.inj h).symm
  | cons a as ih =>
    rw [List.mapM_cons] at h
    obtain ⟨b, hb, h⟩ := Option.bind_eq_some_iff.1 h
    obtain ⟨rest, hrest, h⟩ := Option.bind_eq_some_iff.1 h
    obtain rfl := Option.some.inj h
    rw [List.map_cons, ← hfg a b hb, ← ih hrest]

theorem map_getElem?_range {α : Type} (items : List α) {n : Nat} (h : items.length ≤ n) :
    (List.range n).map (items[·]?) = items.map some ++ List.replicate (n - items.length) none := by
  refine List.ext_getElem (by simp; omega) fun i hi _ => ?_
  rw [List.getElem_map, List.getElem_range, List.getElem_append]
  split
  next hlt => rw [List.getElem?_eq_getElem (by simpa using hlt), List.getElem_map]
  next hge => rw [List.getElem?_eq_none (by simpa using hge), List.getElem_replicate]

/-- By name or by place, the values are those that the document has for the settings in their order. -/
theorem settings?_eq {d : Document} {values : List (Option Document)}
    (h : d.settings? = some values) : values = Config.Setting.all.map d.entry? := by
  rw [settings?.eq_def] at h
  split at h
  next entries =>
    split at h
    next => cases h
    next => exact eq_map_of_mapM (fun _ _ => eq_find?_of_field?) h
  next items =>
    split at h
    next hlength =>
      rw [← Option.some.inj h]
      exact (map_getElem?_range items hlength).symm
    next => cases h
  next => exact (Option.some.inj h).symm
  next => cases h

theorem orDefault_eq {α : Type} {f : Document → Option α} {default a : α} {o : Option Document}
    (h : orDefault f default o = some a) : a = (o.bind f).getD default := by
  cases o with
  | none => exact (Option.some.inj h).symm
  | some d => rw [Option.bind_some, show f d = some a from h, Option.getD_some]

/-- A configuration that a document holds is what it says of the settings, over the defaults. -/
theorem eq_stack_of_config? {d : Document} {c : Config} (h : d.config? = some c) :
    c = Config.stack [d.layer] := by
  rw [Config.stack_cons, Config.stack_nil]
  obtain ⟨values, hvalues, h⟩ := Option.bind_eq_some_iff.1 h
  obtain rfl := settings?_eq hvalues
  obtain ⟨localId, hlocalId, h⟩ := Option.bind_eq_some_iff.1 h
  obtain ⟨componentName, hcomponentName, h⟩ := Option.bind_eq_some_iff.1 h
  obtain ⟨tickHz, htickHz, h⟩ := Option.bind_eq_some_iff.1 h
  obtain ⟨blocking, hblocking, h⟩ := Option.bind_eq_some_iff.1 h
  obtain ⟨ack, hack, h⟩ := Option.bind_eq_some_iff.1 h
  obtain ⟨payload, hpayload, h⟩ := Option.bind_eq_some_iff.1 h
  obtain ⟨remote, hremote, h⟩ := Option.bind_eq_some_iff.1 h
  obtain ⟨listing, hlisting, h⟩ := Option.bind_eq_some_iff.1 h
  obtain ⟨connect, hconnect, h⟩ := Option.bind_eq_some_iff.1 h
  obtain ⟨autoConnect, hautoConnect, h⟩ := Option.bind_eq_some_iff.1 h
  obtain rfl := Option.some.inj h
  refine Config.ext_get fun s => ?_
  rw [Config.under, Config.get_ofValues]
  cases s with
  | localId => exact orDefault_eq hlocalId
  | componentName => exact orDefault_eq hcomponentName
  | tickHz => exact orDefault_eq htickHz
  | blockingTimeoutMs => exact orDefault_eq hblocking
  | insertAckTimeoutMs => exact orDefault_eq hack
  | caseInsensitivePayload => exact orDefault_eq hpayload
  | allowRemoteWrites => exact orDefault_eq hremote
  | publishAllKeys => exact orDefault_eq hlisting
  | connect => exact orDefault_eq hconnect
  | autoConnect => exact orDefault_eq hautoConnect

end Document

namespace Config

/-! ## Loading -/

variable {name : String} {octets : List UInt8} {d : Document}

/-- A file is validated by what it says itself. -/
theorem ofFile_eq (hd : Document.ofFile? name octets = some d) (hc : d.config?.isSome) :
    ofFile name (some octets) = (stack [d.layer]).validate.map fun _ => stack [d.layer] := by
  obtain ⟨text, htext, hd⟩ := Option.bind_eq_some_iff.1 hd
  obtain ⟨format, hformat, hd⟩ := Option.bind_eq_some_iff.1 hd
  obtain ⟨c, hc⟩ := Option.isSome_iff_exists.1 hc
  obtain rfl := Document.eq_stack_of_config? hc
  have hread : (format.parse? text.toList).bind Document.config? = some (stack [d.layer]) := by
    rw [hd, Option.bind_some, hc]
  simp only [ofFile, Option.bind_some, htext, hformat, hread]
  rfl

theorem load_of_refused {e : ConfigError} (hd : Document.ofFile? name octets = some d)
    (hc : d.config?.isSome) (he : (stack [d.layer]).validate = .error e) (vars : Variables) :
    load (some (ofFile name (some octets))) vars = .error e := by
  rw [ofFile_eq hd hc, he]
  rfl

theorem load_of_accepted (hd : Document.ofFile? name octets = some d) (hc : d.config?.isSome)
    (hfile : (stack [d.layer]).validate = .ok ()) (vars : Variables) :
    load (some (ofFile name (some octets))) vars = (stack [d.layer]).overlay vars := by
  rw [ofFile_eq hd hc, hfile]
  rfl

/-- If the configuration of a file can stand alone, loading succeeds exactly if all variables can be read
and a kernel can run with the layers on one another, and gives these. If it cannot, loading fails for the
reason that the file alone is refused for, whatever the variables say. -/
theorem layered_unless_file_refused (hd : Document.ofFile? name octets = some d)
    (hc : d.config?.isSome) (vars : Variables) :
    let loaded := load (some (ofFile name (some octets))) vars
    let layered := stack [vars.layer, d.layer]
    ((stack [d.layer]).validate = .ok () →
      ∀ c, loaded = .ok c ↔ vars.Readable ∧ layered.validate = .ok () ∧ c = layered) ∧
    ∀ e, (stack [d.layer]).validate = .error e → loaded = .error e := by
  refine ⟨fun hfile c => ?_, fun e he => load_of_refused hd hc he vars⟩
  rw [load_of_accepted hd hc hfile, stack_cons vars.layer]
  exact overlay_eq_ok_iff

/-! ## Two files and their variables -/

theorem ofFile?_octets (name text : String) : Document.ofFile? name (Text.octets text)
    = (FileFormat.ofName? name).bind fun format => format.parse? text.toList := by
  rw [Document.ofFile?, Text.ofOctets?_octets]
  rfl

/-- Says which process it is and what it is called. -/
def camera : Document :=
  .fields [(some "local_id", .word "7".toList), (some "component_name", .word "camera".toList)]

/-- One variable that says that it is another process. -/
def renumbered : Variables := fun name => if name = "COORDSPACE_LOCAL_ID" then some "8" else none

theorem ofFile?_camera :
    Document.ofFile? "camera.yml" (Text.octets "local_id: 7\ncomponent_name: camera\n")
      = some camera := by
  rw [ofFile?_octets]
  rfl

/-- The process is the one that the variable says, and is called what the file says. -/
theorem camera_layered :
    Document.ofFile? "camera.yml" (Text.octets "local_id: 7\ncomponent_name: camera\n")
      = some camera ∧
    camera.config?.isSome ∧ (stack [camera.layer]).validate = .ok () ∧
    load (some (ofFile "camera.yml" (some (Text.octets "local_id: 7\ncomponent_name: camera\n"))))
      renumbered = .ok { localId := 8, componentName := "camera" } := by
  have hconfig : camera.config?.isSome := by decide +kernel
  have haccepted : (stack [camera.layer]).validate = .ok () := by decide +kernel
  have hreadable : renumbered.Readable := Variables.findSome?_fault?_eq_none_iff.1 (by decide +kernel)
  have hlayered : stack [renumbered.layer, camera.layer]
      = { localId := 8, componentName := "camera" } := by decide +kernel
  have hload := (layered_unless_file_refused ofFile?_camera hconfig renumbered).1 haccepted
  refine ⟨ofFile?_camera, hconfig, haccepted, (hload _).2 ⟨hreadable, ?_, hlayered.symm⟩⟩
  rw [hlayered]
  decide +kernel

/-- Says that there are no ticks. -/
def stillness : Document := .fields [(some "tick_hz", .word "0".toList)]

/-- One variable that says how many ticks there are. -/
def ticking : Variables := fun name => if name = "COORDSPACE_TICK_HZ" then some "50" else none

theorem ofFile?_stillness :
    Document.ofFile? "still.yaml" (Text.octets "tick_hz: 0\n") = some stillness := by
  rw [ofFile?_octets]
  rfl

/-- The rate in the file is refused, although the variable takes its place. -/
theorem not_layered_over_refused_file : ¬ ∀ (name : String) (octets : List UInt8) (d : Document)
    (vars : Variables), Document.ofFile? name octets = some d → d.config?.isSome → vars.Readable →
    (stack [vars.layer, d.layer]).validate = .ok () →
    load (some (ofFile name (some octets))) vars = .ok (stack [vars.layer, d.layer]) := by
  intro hall
  have hconfig : stillness.config?.isSome := by decide +kernel
  have hreadable : ticking.Readable := Variables.findSome?_fault?_eq_none_iff.1 (by decide +kernel)
  have hloaded := hall _ _ stillness ticking ofFile?_stillness hconfig hreadable (by decide +kernel)
  have hrefused : (stack [stillness.layer]).validate = .error (.tickRate 0) := by decide +kernel
  rw [load_of_refused ofFile?_stillness hconfig hrefused] at hloaded
  cases hloaded

end Config

end Blackboard
