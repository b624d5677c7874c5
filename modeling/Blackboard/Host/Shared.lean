import Blackboard.Host.Basic

/-!
# Starting kernels, and the kernel of the whole process

A host starts any number of kernels. One of them can be the kernel that the components of the process
share: the first component that initializes it starts it, others join it, and the last that shuts it
down ends it.
-/

namespace Blackboard.Host

variable {α : Type}

/-- Starts a kernel. Its first tick is due at once. -/
def start (h : Host α) (config : Config) (transport : Transport) (clock : Clock) :
    Except KernelError (Host α × NodeId) := do
  let kernel ← Kernel.start config transport clock
  return ({ h with nodes := h.nodes ++ [{ kernel, nextTick := h.now }] }, h.nodes.length)

def startCurrent (h : Host α) (config : Config) (transport : Transport) (clock : Clock) :
    Except KernelError (Host α × NodeId) := do
  let (h, i) ← h.start config transport clock
  return ({ h with current := some i }, i)

/-- Lets go of the kernel at hand. -/
def drop (h : Host α) : Host α := { h with current := none }

def current? (h : Host α) : Option (NodeId × Kernel) :=
  h.current.bind fun i => (h.kernel? i).map (i, ·)

def shared? (h : Host α) : Option (NodeId × Kernel) :=
  h.shared.bind fun i => (h.kernel? i).map (i, ·)

/-- The shared kernel, if a component can join it: it runs and has a user. -/
def joinable? (h : Host α) : Option NodeId :=
  match h.shared? with
  | some (i, k) => if k.isRunning && 0 < k.users then some i else none
  | none => none

/-- Joins the shared kernel, or starts one in its place. It becomes the kernel at hand. -/
def joinOrStart (h : Host α) (config : Config) (transport : Transport) (clock : Clock) :
    Except KernelError (Host α × NodeId) := do
  match h.joinable? with
  | some i => return ({ h.modifyKernel i Kernel.retain with current := some i }, i)
  | none =>
    let (h, i) ← h.startCurrent config transport clock
    return ({ h with shared := some i }, i)

/-- Forgets the shared kernel if it has no users. -/
def forgetUnused (h : Host α) : Host α :=
  match h.shared? with
  | some (_, k) => if k.users = 0 then { h with shared := none } else h
  | none => h

end Blackboard.Host
