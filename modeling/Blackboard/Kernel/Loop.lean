import Blackboard.Kernel.Service

/-!
# The dispatch loop

How a kernel starts, what a tick does, and how the kernel ends. A tick takes in what arrived and
removes what has expired. When the loop ends, every request still waiting is answered: it is served
if the kernel was shut down or abandoned, and refused if its transport broke down.
-/

namespace Blackboard.Kernel

/-! ## Start -/

def versionKey : Key := ⟨[some "kernel", some "version"]⟩

def nameKey : Key := ⟨[some "kernel", some "name"]⟩

/-- The first two parts of a version, if it has so many. -/
def release (version : String) : Option (List Char × List Char) :=
  match (Text.trim version.toList).splitOn '.' with
  | major :: minor :: _ => some (major, minor)
  | _ => none

/-- Versions go together if their first two parts are equal. -/
def speaks (version : String) : Bool :=
  (release version).isSome && release version == release protocolVersion

/-- Writes a text of the process itself, outside of any request. -/
def writeOwn (k : Kernel) (key : Key) (text : String) : Kernel :=
  (k.commit (k.space.write (.plainText k.localId key text) k.now)).1

/-- Connects the peers that the settings name. One that cannot be connected is left out. -/
def connectPeers (k : Kernel) : Kernel :=
  let connect (t : Transport) (url : String) : Transport :=
    match t.connect url with
    | .ok t => t
    | .error _ => t
  let transport := k.config.connect.foldl connect k.transport
  { k with transport := k.config.autoConnect.foldl Transport.autoConnect transport }

/-- The kernel before anything was written. -/
def blank (config : Config) (transport : Transport) (clock : Clock) : Kernel where
  config
  space := .new config.localId config.payloadCase config.publishAllKeys {}
  transport
  clock

def start (config : Config) (transport : Transport) (clock : Clock) : Except KernelError Kernel := do
  config.validate.mapError .config
  if speaks transport.version then
    let k := blank config transport clock
    let k := k.writeOwn versionKey protocolVersion
    let k := k.writeOwn nameKey config.componentName
    return k.connectPeers
  else throw (.versionMismatch transport.version)

/-! ## Ticks -/

/-- Takes over the outcome of a change of the space by a peer. What is refused changes nothing. -/
def absorb (k : Kernel) (origin : Origin)
    (outcome : Except TupleError (Space Reaction × Mutation)) : Kernel :=
  match outcome with
  | .error _ => k
  | .ok (space, change) =>
    let k := k.adopt space
    { k with metrics := k.metrics.countChange origin change }

/-- Takes in what a peer sent. Peers publish only tuples of their own, and ask only for tuples of
this process; anything else is ignored. -/
def receive (k : Kernel) : Inbound → Kernel
  | .published t =>
    if t.owner = some k.localId then k
    else k.absorb .replica (k.space.writeReplica t k.now)
  | .setRequest t =>
    if t.owner = some k.localId then k.absorb .remote (k.space.write t k.now)
    else k

def sweep (k : Kernel) : Kernel :=
  let (space, changes) := k.space.expire k.now
  let k := k.adopt space
  { k with metrics := changes.foldl (fun m change => m.countRemoval .expiry change) k.metrics }

/-- The part of a tick before the transport is stepped. -/
def beginTick (k : Kernel) : Kernel := { k with ticks := k.ticks + 1 }.applyQueued

/-- The part of a tick from the step of the transport on, and whether the loop goes on. Where the
transport has broken down, what it took in is dropped. -/
def endTick (k : Kernel) : Kernel × Bool :=
  let (transport, messages) := k.transport.step
  let k := { k with transport }
  if k.transport.isRunning then
    -- What arrives has its callbacks run before it is swept, even if it has expired on the way.
    let k := (messages.foldl receive k).sweep
    ({ k with metrics := k.metrics.countTick }, true)
  else (k, false)

def tick (k : Kernel) : Kernel × Bool := k.beginTick.endTick

/-! ## End -/

inductive Ending where
  /-- The last user shut the kernel down. -/
  | shutdown
  /-- Nobody can reach the kernel any more. -/
  | abandoned
  | transportStopped
  deriving DecidableEq, Repr

def closeTransport (k : Kernel) : Kernel := { k with transport := k.transport.close }

/-- Ends the dispatch loop and answers the requests still waiting, in their order. -/
def finish (k : Kernel) (why : Ending) (pending : List Request) : Kernel × List Reply :=
  match why with
  | .transportStopped =>
    let k := { k with state := .shuttingDown, transportFailed := true, queued := [] }
    (k.closeTransport, pending.map fun r => ⟨r, .error .transportStopped⟩)
  | .shutdown | .abandoned =>
    -- Nothing more is accepted, but what was asked for and registered before is still done.
    let k := { k with state := .shuttingDown }
    let (k, replies) := k.applyQueued.serveAll pending
    (k.closeTransport, replies)

/-- Ends the dispatch loop by force. Nothing is served or closed. -/
def abort (k : Kernel) : Kernel := { k with aborted := true }

end Blackboard.Kernel
