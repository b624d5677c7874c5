import Blackboard.Kernel.Basic

/-!
# Serving requests

What the dispatch loop does with one request. A write of a tuple of this process changes the space; a
write of another process's tuple is sent there and leaves the space alone.
-/

namespace Blackboard.Kernel

/-! ## Writes -/

/-- Takes over the outcome of a change of the space by a client. -/
def commit (k : Kernel) (outcome : Except TupleError (Space Reaction × Mutation)) :
    Kernel × Except KernelError Accepted :=
  match outcome with
  | .error e => (k, .error (.tuple e))
  | .ok (space, change) =>
    let k := k.adopt space
    ({ k with metrics := k.metrics.countChange .client change },
      .ok (.here (Receipt.ofChange change)))

/-- Sends the write of another process's tuple to its owner. -/
def send (k : Kernel) (owner : Owner) (t : Tuple) : Kernel × Except KernelError Accepted :=
  if k.config.allowRemoteWrites then
    let (transport, ticket) := k.transport.publish t
    ({ k with transport, metrics := k.metrics.countSending .sent }, .ok (.sent ticket))
  else (k, .error (.foreignOwner owner k.localId))

/-- Writes a concrete tuple. This process is its writer. -/
def insert (k : Kernel) (t : Tuple) : Kernel × Except KernelError Accepted :=
  match t.location with
  | .error e => (k, .error (.tuple e))
  | .ok l =>
    let t := { t with creator := some k.localId }
    if l.owner = k.localId then k.commit (k.space.write t k.now) else k.send l.owner t

/-- The tuple that tells an owner to delete one of its values. -/
def deletionMark (l : Location) (remover : Owner) : Tuple :=
  { Tuple.new l.owner l.key [] with creator := some remover, expiry := some .immediately }

def delete (k : Kernel) (l : Location) : Kernel × Except KernelError Accepted :=
  if l.owner = k.localId then k.commit (k.space.delete l (some k.localId) k.now)
  else
    match l.requireConcrete with
    | .error e => (k, .error (.tuple e))
    | .ok () => k.send l.owner (deletionMark l k.localId)

/-- Appends to every value of this process that a pattern covers, and gives their number. -/
def append (k : Kernel) (p : Tuple) (suffix : List UInt8) (expected : Option Nat) :
    Kernel × Except KernelError Nat :=
  match p.owner.filter (· ≠ k.localId) with
  | some owner => (k, .error (.foreignOwner owner k.localId))
  | none =>
    let (space, changes) := k.space.append p suffix expected k.now
    let k := k.adopt space
    ({ k with metrics := changes.foldl (fun m change => m.countWrite .append change) k.metrics },
      .ok changes.length)

/-! ## Reads -/

def get (k : Kernel) (l : Location) (onlyFresh : Bool) :
    Kernel × Except KernelError (Option Tuple) :=
  match k.space.get l onlyFresh with
  | .error e => (k, .error (.tuple e))
  | .ok (space, found) => ({ k with space }, .ok found)

def first (k : Kernel) (p : Tuple) : Kernel × Option Tuple :=
  let (space, found) := k.space.first p
  ({ k with space }, found)

/-- Reads the value at the location that the first meta tuple covered by a prototype names. A meta
tuple that nobody has read yet makes the value as good as new. -/
def getIndirect (k : Kernel) (prototype : Tuple) (onlyFresh : Bool) :
    Kernel × Except KernelError (Option Tuple) :=
  let (k, found) := k.first prototype.ignoringFresh
  match found with
  | none => (k, .ok none)
  | some m =>
    match Reference.resolve m with
    | .error e => (k, .error (.tuple e))
    | .ok none => (k, .ok none)
    | .ok (some r) => k.get r.location (onlyFresh && m.fresh != some true)

def resolve (k : Kernel) (l : Location) : Except KernelError (Option Reference) :=
  (k.space.resolve l).mapError .tuple

def connect (k : Kernel) (url : String) : Kernel × Except KernelError Unit :=
  match k.transport.connect url with
  | .error e => (k, .error (.transport e))
  | .ok transport => ({ k with transport }, .ok ())

def stats (k : Kernel) : KernelStats := ⟨k.space.stats, k.ticks⟩

/-! ## All requests -/

def serve (k : Kernel) : (r : Request) → Kernel × Except KernelError r.Answer
  | .insert t => k.insert t
  | .delete l => k.delete l
  | .get l onlyFresh => k.get l onlyFresh
  | .first p =>
    let (k, found) := k.first p
    (k, .ok found)
  | .getIndirect prototype onlyFresh => k.getIndirect prototype onlyFresh
  | .isPresent l => (k, .ok (k.space.exists? l))
  | .search p =>
    let (space, found) := k.space.search p
    ({ k with space }, .ok found)
  | .append p suffix expected => k.append p suffix expected
  | .resolve l => (k, k.resolve l)
  | .isMeta l => (k, .ok (k.space.isMeta l))
  | .hasSubscriber p => (k, .ok (k.space.hasSubscriber p))
  | .owners key => (k, .ok (k.space.ownersOf key))
  | .connect url => k.connect url
  | .stats => (k, .ok k.stats)
  | .sync => (k, .ok ())

/-- Serves a request as the dispatch loop does while it runs, after the registrations queued so
far. -/
def serveNext (k : Kernel) (r : Request) : Kernel × Except KernelError r.Answer :=
  k.applyQueued.serve r

def serveAll : Kernel → List Request → Kernel × List Reply
  | k, [] => (k, [])
  | k, r :: rest =>
    let (k, answer) := k.serve r
    let (k, replies) := serveAll k rest
    (k, ⟨r, answer⟩ :: replies)

/-! ## Acknowledgements -/

/-- Takes note of what became of a write that was sent. Nothing is known of one still pending. -/
def acknowledge (k : Kernel) (delivery : Delivery) : Option (Kernel × Except KernelError Receipt) :=
  let count (s : Sending) : Kernel := { k with metrics := k.metrics.countSending s }
  match delivery with
  | .pending => none
  | .lost => some (count .failed, .error .writeLost)
  | .answered (.ok ()) => some (count .acknowledged, .ok .acknowledged)
  | .answered (.error e) => some (count .failed, .error (.transport e))

/-- Takes note that no answer to a write came in time. -/
def giveUpOn (k : Kernel) : Kernel × Except KernelError Receipt :=
  ({ k with metrics := k.metrics.countSending .failed },
    .error (.timeout k.config.insertAckTimeout))

end Blackboard.Kernel
