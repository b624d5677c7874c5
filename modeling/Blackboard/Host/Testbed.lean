import Blackboard.Host.Shared

/-!
# A host under control

A testbed drives a host step by step. It holds the script of a transport and a clock for the kernel
that was started last, says what arrives and what time it is, makes calls, and lets time pass in tick
periods. After every step all tasks have gone as far as they can.
-/

namespace Blackboard

/-- Something that a kernel has, or that none has. -/
inductive Part (α : Type) where
  | of (node : NodeId)
  | loose (value : α)

inductive Setting where
  /-- It has no peers, and goes by the clock on the wall. -/
  | alone
  /-- It has no peers, and goes by a clock that is under control. -/
  | clocked (clock : Clock)
  /-- Its transport and its clock are under control. -/
  | scripted (script : Script) (clock : Clock)

/-- A host with what is under control. -/
structure Testbed (α : Type) where
  host : Host α := {}
  script : Part Script := .loose {}
  clock : Part Clock := .loose (.of ⟨1000, 0⟩)
  period : Duration := Config.tickPeriod {}
  jobs : List (String × TaskId) := []

namespace Testbed

variable {α : Type}

/-- The number of things that may happen in one step. A step that takes more is given up, as are
calls that wait for ever. -/
def patience : Nat := 10000000

/-- What the clock on the wall shows all the time. -/
def wallClock : Clock := .of ⟨1750000000, 0⟩

/-- How long after the first tick of a kernel the next step is taken. -/
def lead : Duration := .ofMillis 1

/-! ## What is under control -/

def scriptNow (b : Testbed α) : Script :=
  match b.script with
  | .loose s => s
  | .of i =>
    match b.host.kernel? i with
    | none => {}
    | some k => k.transport.script

def settle (b : Testbed α) : Testbed α := { b with host := b.host.settle patience }

def setScript (b : Testbed α) (s : Script) : Testbed α :=
  match b.script with
  | .loose _ => { b with script := .loose s }
  | .of i =>
    settle { b with host := b.host.modifyKernel i fun k => { k with transport := .scripted s } }

def clockNow (b : Testbed α) : Clock :=
  match b.clock with
  | .loose c => c
  | .of i => (b.host.kernel? i).elim wallClock (·.clock)

def setClock (b : Testbed α) (c : Clock) : Testbed α :=
  match b.clock with
  | .loose _ => { b with clock := .loose c }
  | .of i => { b with host := b.host.modifyKernel i fun k => { k with clock := c } }

def ticks (b : Testbed α) (n : Nat) : Testbed α :=
  { b with host := (List.replicate n b.period).foldl (fun h p => h.elapse patience p) b.host }

/-! ## Calls -/

/-- Makes a call of a kernel and does not let anything else happen. -/
def make (b : Testbed α) (i : NodeId) (c : Call α) : Testbed α × TaskId :=
  let (host, id) := b.host.call i c
  ({ b with host }, id)

def await (b : Testbed α) (id : TaskId) : Testbed α :=
  { b with host := b.host.await id patience }

def run (b : Testbed α) (i : NodeId) (c : Call α) : Testbed α × TaskId :=
  let (b, id) := b.make i c
  (b.await id, id)

def spawn (b : Testbed α) (i : NodeId) (name : String) (c : Call α) : Testbed α :=
  let (b, id) := b.make i c
  settle { b with jobs := (name, id) :: b.jobs }

/-- Makes several calls before anything else happens. -/
def makeAll (b : Testbed α) (i : NodeId) : List (Call α) → Testbed α × List TaskId
  | [] => (b, [])
  | c :: rest =>
    let (b, id) := b.make i c
    let (b, ids) := b.makeAll i rest
    (b, id :: ids)

/-- Makes several calls and `last` before anything else happens, and waits until all are over. -/
def drain (b : Testbed α) (i : NodeId) (calls : List (Call α)) (last : Call α) :
    Testbed α × List TaskId :=
  let (b, ids) := b.makeAll i calls
  let (b, id) := b.make i last
  (ids.foldl await (b.await id), ids)

def metrics (b : Testbed α) : Metrics :=
  b.host.nodes.foldl (fun m n => m.add n.kernel.metrics) {}

/-! ## Kernels -/

def drop (b : Testbed α) : Testbed α := settle { b with host := b.host.drop }

/-- Keeps what is to be under control ready for a kernel that is yet to be started. -/
def prepare (b : Testbed α) : Setting → Testbed α
  | .alone => b
  | .clocked clock => { b with script := .loose {}, clock := .loose clock }
  | .scripted script clock => { b with script := .loose script, clock := .loose clock }

/-- Leaves what is to be under control to the kernel that was started. -/
def attach (b : Testbed α) (i : NodeId) : Setting → Testbed α
  | .alone => b
  | .clocked _ => { b with clock := .of i }
  | .scripted _ _ => { b with script := .of i, clock := .of i }

def parts : Setting → Transport × Clock
  | .alone => (.standalone false, wallClock)
  | .clocked clock => (.standalone false, clock)
  | .scripted script clock => (.scripted script, clock)

/-- Takes over the outcome of starting or joining a kernel. -/
def enter (b : Testbed α) (setting : Setting)
    (outcome : Except KernelError (Host α × NodeId)) : Testbed α × Except KernelError NodeId :=
  match outcome with
  | .error e => (b, .error e)
  | .ok (host, i) =>
    let isNew := i = b.host.nodes.length
    let b := if isNew then b.attach i setting else b
    let period := (host.kernel? i).elim b.period (·.config.tickPeriod)
    let host := if isNew then host.elapse patience lead else host.settle patience
    ({ b with host, period }, .ok i)

def start (b : Testbed α) (config : Config) (setting : Setting) :
    Testbed α × Except KernelError NodeId :=
  let (transport, clock) := parts setting
  (b.prepare setting).enter setting (b.host.startCurrent config transport clock)

def join (b : Testbed α) (config : Config) (setting : Setting) :
    Testbed α × Except KernelError NodeId :=
  let (transport, clock) := parts setting
  (b.prepare setting).enter setting (b.host.joinOrStart config transport clock)

/-- Takes a user of the shared kernel away, if there is a shared kernel. -/
def leave (b : Testbed α) (shutdown : Call α) : Testbed α :=
  match b.host.shared with
  | none => b
  | some i =>
    let (b, _) := b.run i shutdown
    settle { b with host := b.host.forgetUnused }

end Testbed

end Blackboard
