import Blackboard.Kernel.Loop
import Blackboard.Kernel.Client

/-!
# A process with its kernels and tasks

A host runs dispatch loops and the calls of clients side by side, in virtual time. Time stands still
while something can happen: a loop that has something to do, a task that can go on. `next?` says what
happens next, `perform` does it, and only when nothing is left does the clock move, to the next
moment at which something can happen.

Loops come first, in the order of their start, then tasks in theirs. A loop that is asked to end does
so before it serves another request, and serves all requests before the next tick.

Two bounds are left out. A loop takes any number of requests in line, so no caller ever waits for room in
it. And there is no last moment, so a deadline can be set however far ahead; a clock that has a last
moment stops a call whose deadline lies after it before its first attempt.
-/

namespace Blackboard

/-- A moment of virtual time, in nanoseconds since the host began. There is no last one. -/
abbrev Moment := Nat

abbrev NodeId := Nat

abbrev TaskId := Nat

/-- What a dispatch loop is at. -/
inductive LoopPhase where
  | idle
  /-- It waits for its transport in the middle of a tick. -/
  | stalled
  | ended
  deriving DecidableEq, Repr

structure Node where
  kernel : Kernel
  phase : LoopPhase := .idle
  nextTick : Moment
  /-- The tasks whose requests wait to be served, in their order. -/
  pending : List TaskId := []
  stopRequested : Bool := false

/-- How far a task has come. -/
inductive Progress (α : Type) where
  | asking (request : Request) (next : Except KernelError request.Answer → Program α)
  /-- The request of an attempt waits to be served. -/
  | polling (poll : Poll α) (since : Moment)
  /-- It waits for the time of the next attempt. -/
  | resting (poll : Poll α) (since wake : Moment)
  | awaitingAck (ticket : Ticket) (deadline : Moment)
    (next : Except KernelError Receipt → Program α)
  | awaitingStop (next : Program α)
  | stopping (deadline : Moment) (next : Program α)
  | finished (outcome : Except KernelError α)

structure Task (α : Type) where
  node : NodeId
  progress : Progress α

structure Host (α : Type) where
  now : Moment := 0
  nodes : List Node := []
  tasks : List (Task α) := []
  /-- The kernel at hand. -/
  current : Option NodeId := none
  /-- The kernel that all components of the process share. -/
  shared : Option NodeId := none

/-- How long a dispatch loop that is asked to end may take. -/
def graceOfStop : Duration := .ofSeconds 1 0

namespace Progress

variable {α : Type}

def request? : Progress α → Option Request
  | asking r _ => some r
  | polling p _ => some p.request
  | _ => none

def outcome? : Progress α → Option (Except KernelError α)
  | finished outcome => some outcome
  | _ => none

/-- When a task that waits goes on at the latest. -/
def deadline? : Progress α → Option Moment
  | resting _ _ wake => some wake
  | awaitingAck _ deadline _ => some deadline
  | stopping deadline _ => some deadline
  | _ => none

end Progress

namespace Host

variable {α : Type}

/-! ## Looking up and changing parts -/

def node? (h : Host α) (i : NodeId) : Option Node := h.nodes[i]?

def kernel? (h : Host α) (i : NodeId) : Option Kernel := (h.node? i).map (·.kernel)

def modifyNode (h : Host α) (i : NodeId) (f : Node → Node) : Host α :=
  { h with nodes := h.nodes.modify i f }

def modifyKernel (h : Host α) (i : NodeId) (f : Kernel → Kernel) : Host α :=
  h.modifyNode i fun n => { n with kernel := f n.kernel }

def setProgress (h : Host α) (id : TaskId) (p : Progress α) : Host α :=
  { h with tasks := h.tasks.modify id fun t => { t with progress := p } }

def outcome? (h : Host α) (id : TaskId) : Option (Except KernelError α) :=
  h.tasks[id]?.bind fun t => t.progress.outcome?

/-- True if somebody can still reach a kernel. -/
def isHeld (h : Host α) (i : NodeId) : Bool :=
  h.current = some i || h.shared = some i ||
    (h.tasks.any fun t => t.node = i && t.progress.outcome?.isNone) ||
    (h.kernel? i).any Kernel.isHeldByCallback

/-! ## Tasks -/

/-- Puts a task in line to be served. There is always room. -/
def enqueue (h : Host α) (i : NodeId) (id : TaskId) (p : Progress α) : Host α :=
  (h.setProgress id p).modifyNode i fun n => { n with pending := n.pending ++ [id] }

/-- Makes an attempt of a poll that began at a moment. -/
def attempt (h : Host α) (n : Node) (i : NodeId) (id : TaskId) (p : Poll α) (since : Moment) :
    Host α :=
  if n.kernel.accepts then h.enqueue i id (.polling p since)
  else h.setProgress id (.finished (.error n.kernel.stoppedError))

/-- Lets the program of a task go on until it has to wait. -/
def proceed (h : Host α) (n : Node) (i : NodeId) (id : TaskId) : Program α → Host α
  | .done outcome => h.setProgress id (.finished outcome)
  | .ask r next =>
    if n.kernel.accepts then h.enqueue i id (.asking r next)
    else h.proceed n i id (next (.error n.kernel.stoppedError))
  | .poll p => h.attempt n i id p h.now
  | .awaitAck ticket next =>
    h.setProgress id
      (.awaitingAck ticket (h.now + n.kernel.config.insertAckTimeout.nanos) next)
  | .awaitStop next => h.setProgress id (.awaitingStop next)
  | .stop next =>
    if n.stopRequested then h.proceed n i id next
    else
      (h.setProgress id (.stopping (h.now + graceOfStop.nanos) next)).modifyNode i fun n =>
        { n with stopRequested := true }

/-- Lets a task go on in the state that its node has now. -/
def goOn (h : Host α) (i : NodeId) (id : TaskId) (p : Program α) : Host α :=
  match h.node? i with
  | none => h
  | some n => h.proceed n i id p

/-- Makes a call of a kernel as a task of its own. Gives the number of the task. -/
def call (h : Host α) (i : NodeId) (c : Call α) : Host α × TaskId :=
  let id := h.tasks.length
  match h.node? i with
  | none => (h, id)
  | some n =>
    let (kernel, program) := c n.kernel
    let n := { n with kernel }
    let h := h.modifyNode i fun _ => n
    -- What stands here as the outcome is replaced as soon as the program goes on.
    let task : Task α := ⟨i, .finished (.error .notRunning)⟩
    let h := { h with tasks := h.tasks ++ [task] }
    (h.proceed n i id program, id)

def settlePoll (h : Host α) (n : Node) (id : TaskId) (p : Poll α) (since : Moment)
    (answer : Except KernelError p.request.Answer) : Host α :=
  match p.judge ⟨h.now - since⟩ answer with
  | .finished outcome => h.setProgress id (.finished outcome)
  | .again =>
    h.setProgress id (.resting p since (h.now + n.kernel.config.tickPeriod.nanos))

/-- Gives a task the reply to its request. A reply to another request leaves it alone. -/
def deliver (h : Host α) (i : NodeId) (id : TaskId) (reply : Reply) : Host α :=
  match h.tasks[id]?, h.node? i with
  | some t, some n =>
    match t.progress with
    | .asking r next =>
      if same : reply.request = r then h.proceed n i id (next (same ▸ reply.answer)) else h
    | .polling p since =>
      if same : reply.request = p.request then h.settlePoll n id p since (same ▸ reply.answer)
      else h
    | _ => h
  | _, _ => h

def deliverAll (h : Host α) (i : NodeId) (replies : List (TaskId × Reply)) : Host α :=
  replies.foldl (fun h r => h.deliver i r.1 r.2) h

def requests (h : Host α) (n : Node) : List (TaskId × Request) :=
  n.pending.filterMap fun id => (h.tasks[id]?.bind fun t => t.progress.request?).map (id, ·)

/-! ## Loops -/

/-- Serves the first request in line. -/
def serve (h : Host α) (i : NodeId) : Host α :=
  match h.node? i with
  | none => h
  | some n =>
    match h.requests { n with pending := n.pending.take 1 } with
    | (id, r) :: _ =>
      let (kernel, answer) := n.kernel.serveNext r
      let h := h.modifyNode i fun n => { n with kernel, pending := n.pending.drop 1 }
      h.deliver i id ⟨r, answer⟩
    | [] => h.modifyNode i fun n => { n with pending := n.pending.drop 1 }

/-- Ends a loop and answers all requests in line. -/
def finish (h : Host α) (i : NodeId) (why : Kernel.Ending) : Host α :=
  match h.node? i with
  | none => h
  | some n =>
    let waiting := h.requests n
    let (kernel, replies) := n.kernel.finish why (waiting.map (·.2))
    let h := h.modifyNode i fun n => { n with kernel, phase := .ended, pending := [] }
    h.deliverAll i ((waiting.map (·.1)).zip replies)

/-- Ends a loop by force. The requests in line fail. -/
def abort (h : Host α) (i : NodeId) : Host α :=
  match h.node? i with
  | none => h
  | some n =>
    let waiting := h.requests n
    let kernel := n.kernel.abort
    let h := h.modifyNode i fun n => { n with kernel, phase := .ended, pending := [] }
    h.deliverAll i (waiting.map fun (id, r) => (id, ⟨r, .error kernel.stoppedError⟩))

/-- The part of a tick from the step of the transport on. -/
def endTick (h : Host α) (i : NodeId) : Host α :=
  match h.node? i with
  | none => h
  | some n =>
    let (kernel, goesOn) := n.kernel.endTick
    let h := h.modifyNode i fun n => { n with kernel, phase := .idle }
    if goesOn then h else h.finish i .transportStopped

/-- When the tick after one that was due at a moment is due. Ticks that were missed are left out. -/
def tickAfter (due period now : Moment) : Moment := due + ((now - due) / period + 1) * period

/-- A tick, up to the step of the transport if that waits. -/
def tick (h : Host α) (i : NodeId) : Host α :=
  match h.node? i with
  | none => h
  | some n =>
    let kernel := n.kernel.beginTick
    let nextTick := tickAfter n.nextTick kernel.config.tickPeriod.nanos h.now
    let h := h.modifyNode i fun n => { n with kernel, nextTick }
    if kernel.transport.stalls then h.modifyNode i fun n => { n with phase := .stalled }
    else h.endTick i

/-! ## What happens -/

inductive Happening where
  | serves (node : NodeId)
  | ticks (node : NodeId)
  | resumes (node : NodeId)
  | ends (node : NodeId) (why : Kernel.Ending)
  | goesOn (task : TaskId)
  deriving DecidableEq, Repr

def nextOfNode? (h : Host α) (i : NodeId) (n : Node) : Option Happening :=
  match n.phase with
  | .ended => none
  | .stalled => if n.kernel.transport.stalls then none else some (.resumes i)
  | .idle =>
    -- Requests in line do not hold up a stop, they are answered by the ending.
    if n.stopRequested then some (.ends i .shutdown)
    else if !n.pending.isEmpty then some (.serves i)
    else if !h.isHeld i then some (.ends i .abandoned)
    else if n.nextTick ≤ h.now then some (.ticks i)
    else none

def isReady (h : Host α) (t : Task α) : Bool :=
  match h.node? t.node, t.progress with
  | some _, .resting _ _ wake => wake ≤ h.now
  | some n, .awaitingAck ticket deadline _ =>
    match n.kernel.transport.delivery ticket with
    | .pending => deadline ≤ h.now
    | _ => true
  | some n, .awaitingStop _ => !n.kernel.accepts
  | some n, .stopping deadline _ => n.phase = .ended || deadline ≤ h.now
  | _, _ => false

def next? (h : Host α) : Option Happening :=
  -- A task that waits goes on only once all loops have come to rest.
  (h.nodes.zipIdx.findSome? fun (n, i) => h.nextOfNode? i n).or
    (h.tasks.zipIdx.findSome? fun (t, id) => if h.isReady t then some (.goesOn id) else none)

def wake (h : Host α) (id : TaskId) : Host α :=
  match h.tasks[id]? with
  | none => h
  | some t =>
    match h.node? t.node, t.progress with
    | some n, .resting p since _ => h.attempt n t.node id p since
    | some n, .awaitingAck ticket _ next =>
      let (kernel, outcome) :=
        (n.kernel.acknowledge (n.kernel.transport.delivery ticket)).getD n.kernel.giveUpOn
      (h.modifyKernel t.node fun _ => kernel).goOn t.node id (next outcome)
    | some _, .awaitingStop next => h.goOn t.node id next
    | some n, .stopping _ next =>
      -- The loop was asked to end and has not done so in time.
      let h := if n.phase = .ended then h else h.abort t.node
      h.goOn t.node id next
    | _, _ => h

def perform (h : Host α) : Happening → Host α
  | .serves i => h.serve i
  | .ticks i => h.tick i
  | .resumes i => h.endTick i
  | .ends i why => h.finish i why
  | .goesOn id => h.wake id

/-! ## Time -/

/-- The next moment at which something can happen by itself. -/
def nextMoment? (h : Host α) : Option Moment :=
  let ticks := h.nodes.filterMap fun n => if n.phase = .idle then some n.nextTick else none
  let deadlines := h.tasks.filterMap fun t => t.progress.deadline?
  (ticks ++ deadlines).min?

/-- Lets time pass until a moment. At most `fuel` things happen. -/
def runUntil (target : Moment) : Nat → Host α → Host α
  | 0, h => h
  | fuel + 1, h =>
    match h.next?, h.nextMoment? with
    | some happening, _ => runUntil target fuel (h.perform happening)
    | none, none => { h with now := target }
    | none, some moment =>
      if moment ≤ target then runUntil target fuel { h with now := moment }
      else { h with now := target }

def settle (fuel : Nat) (h : Host α) : Host α := runUntil h.now fuel h

def elapse (fuel : Nat) (d : Duration) (h : Host α) : Host α := runUntil (h.now + d.nanos) fuel h

/-- Lets time pass until a task is over, and everything else that can happen then. At most `fuel`
things happen, since a task may wait for ever. -/
def await (id : TaskId) : Nat → Host α → Host α
  | 0, h => h
  | fuel + 1, h =>
    match h.next? with
    | some happening => await id fuel (h.perform happening)
    | none =>
      if (h.outcome? id).isSome then h
      else
        match h.nextMoment? with
        | none => h
        | some moment => await id fuel { h with now := moment }

end Host

end Blackboard
