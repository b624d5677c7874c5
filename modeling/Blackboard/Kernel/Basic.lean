import Blackboard.Kernel.Reaction
import Blackboard.Kernel.Request
import Blackboard.Kernel.Metrics
import Blackboard.Kernel.Clock

/-!
# The kernel of a process

A kernel owns the space of a process together with its transport and its clock. Clients reach the
space through requests, which the dispatch loop serves one after the other; only subscriptions are
changed without one, by registrations that are queued and applied before the next request or tick.

This module holds the state, and what clients and callbacks do to it without the dispatch loop.
-/

namespace Blackboard

inductive Lifecycle where
  | running
  | shuttingDown
  deriving DecidableEq, Repr

def Lifecycle.label : Lifecycle → String
  | running => "Running"
  | shuttingDown => "ShuttingDown"

inductive Event where
  /-- It was shown a tuple. -/
  | called (label : String) (tuple : Tuple)
  /-- It acted, and got a handle if it enrolled. -/
  | acted (outcome : Except KernelError (Option Handle))

structure Kernel where
  config : Config
  space : Space Reaction
  transport : Transport
  clock : Clock
  ticks : Nat := 0
  /-- The registrations not yet applied, oldest first. -/
  queued : List (Registration Reaction) := []
  /-- The handles that clients were given and have not given back. -/
  issued : List Handle := []
  /-- How many components use the kernel. -/
  users : Nat := 1
  state : Lifecycle := .running
  /-- Whether the dispatch loop was ended by force, which leaves the state as it was. -/
  aborted : Bool := false
  /-- Whether the dispatch loop ended because the transport broke down. -/
  transportFailed : Bool := false
  metrics : Metrics := {}
  /-- What callbacks have reported, oldest first. -/
  journal : List Event := []

namespace Kernel

def localId (k : Kernel) : Owner := k.config.localId

def now (k : Kernel) : Timestamp := k.clock.now

/-- True unless the kernel is shutting down or has shut down. -/
def isRunning (k : Kernel) : Bool := k.state = .running

/-- True if the dispatch loop takes requests and registrations. -/
def accepts (k : Kernel) : Bool := k.isRunning && !k.aborted

/-- Why nothing is accepted any more. -/
def stoppedError (k : Kernel) : KernelError :=
  if k.transportFailed then .transportStopped else .notRunning

def render (k : Kernel) : String :=
  "Kernel \x7b local_id: " ++ toString k.localId ++ ", users: " ++ toString k.users ++
    ", state: " ++ k.state.label ++ " \x7d"

/-! ## Registrations -/

def push (k : Kernel) (r : Registration Reaction) : Kernel × Except KernelError Unit :=
  if k.accepts then ({ k with queued := k.queued ++ [r] }, .ok ())
  else (k, .error k.stoppedError)

/-- Gives a client a handle and queues its enrolment. The handle is given even if nothing is
accepted any more. -/
def enrolUnder (k : Kernel) (h : Handle) (e : Enrolment Reaction) :
    Kernel × Except KernelError Handle :=
  let (k, outcome) := { k with issued := h :: k.issued }.push (e.register h)
  (k, outcome.map fun _ => h)

def enrol (k : Kernel) (e : Enrolment Reaction) : Kernel × Except KernelError Handle :=
  let (space, h) := k.space.allocate
  { k with space }.enrolUnder h e

/-- Enrols a client for whatever the meta tuple at a location names. -/
def enrolThrough (k : Kernel) (source : Location) (callback : Option Reaction) :
    Kernel × Except KernelError Handle :=
  match Enrolment.through source callback with
  | .error e => (k, .error (.tuple e))
  | .ok e => k.enrol e

/-- Gives up a handle. A handle that was not given to a client, or was given up before, is
refused. -/
def unsubscribe (k : Kernel) (h : Handle) : Kernel × Except KernelError Unit :=
  if h ∈ k.issued then { k with issued := k.issued.filter (· ≠ h) }.push (.remove h)
  else (k, .error (.failed .badHandle))

def applyQueued (k : Kernel) : Kernel :=
  { k with space := k.queued.foldl Space.apply k.space, queued := [] }

/-! ## Callbacks -/

def note (k : Kernel) (e : Event) : Kernel := { k with journal := k.journal ++ [e] }

/-- Performs the actions of a callback in their order. The first handle they take is the next one of
`handles`. -/
def act (k : Kernel) (handles : Allocator) : List Action → Kernel
  | [] => k
  | .enrol e :: rest =>
    let (h, handles) := handles.allocate
    let (k, outcome) := k.enrolUnder h e
    act (k.note (.acted (outcome.map some))) handles rest
  | .unsubscribe h :: rest =>
    let (k, outcome) := k.unsubscribe h
    act (k.note (.acted (outcome.map fun _ => none))) handles rest
  | .refused cause :: rest => act (k.note (.acted (.error (.tuple cause)))) handles rest

/-- Lets a callback that ran report and act. -/
def react (k : Kernel) (f : Firing Reaction) : Kernel :=
  (k.note (.called f.callback.label f.tuple)).act f.handles f.callback.actions

/-- Takes over the space after a change and lets the callbacks that ran during it report and act.
What they register waits in the queue. -/
def adopt (k : Kernel) (space : Space Reaction) : Kernel :=
  (space.fired.drop k.space.fired.length).foldl react { k with space }

/-! ## Users -/

def retain (k : Kernel) : Kernel := { k with users := k.users + 1 }

/-- Takes a user away, if there is one, and tells whether it was the last. -/
def dismiss (k : Kernel) : Kernel × Bool := ({ k with users := k.users - 1 }, k.users = 1)

/-- True if some callback keeps the kernel alive. -/
def isHeldByCallback (k : Kernel) : Bool :=
  let holds (callback : Option Reaction) : Bool := callback.any Reaction.holdsKernel
  (k.space.registry.entries.values.any fun s => holds s.callback) ||
    (k.space.resolver.entries.values.any fun e => holds e.callback) ||
    k.queued.any fun r =>
      match r with
      | .subscribe _ s => holds s.callback
      | .follow _ _ callback => holds callback
      | .remove _ => false

end Kernel

end Blackboard
