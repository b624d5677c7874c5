import Blackboard.Kernel.Program

/-!
# Calls of a kernel

The calls that clients make: writes and reads, searches, subscriptions, meta tuples, and the end of
the kernel. Arguments that are refused fail before anything is asked of the dispatch loop.
-/

namespace Blackboard

structure GetFlags where
  /-- Whether a value that was read before counts. -/
  keepOld : Bool := true
  blocking : Bool := false
  /-- How long to wait, in place of what the settings say. -/
  timeout : Option Duration := none
  deriving DecidableEq, Repr

def GetFlags.limit (flags : GetFlags) (k : Kernel) : Option Duration :=
  flags.timeout.or k.config.blockingTimeout

namespace Client

variable {α : Type}

/-- A program that depends on the kernel and does not change it. -/
def running (f : Kernel → Program α) : Call α := fun k => (k, f k)

def immediate (f : Kernel → Kernel × Except KernelError α) : Call α := fun k =>
  let (k, outcome) := f k
  (k, .done outcome)

/-- A call that fails at once if its arguments are refused. -/
def checked {β : Type} (argument : Except TupleError β) (call : β → Call α) : Call α :=
  match argument with
  | .ok b => call b
  | .error e => immediate fun k => (k, .error (.tuple e))

def checkedProgram {β : Type} (argument : Except TupleError β) (program : β → Program α) :
    Program α :=
  match argument with
  | .ok b => program b
  | .error e => .done (.error (.tuple e))

/-! ## Writes -/

/-- Writes a tuple and does not wait for its owner. -/
def insertProgram (t : Tuple) : Program Receipt :=
  .request (.insert t) fun accepted =>
    match accepted with
    | .here receipt => .done (.ok receipt)
    | .sent _ => .done (.ok .acceptedForSend)

def insert (t : Tuple) : Call Receipt := running fun _ => insertProgram t

/-- Writes a tuple and waits until its owner has it. -/
def insertBlocking (t : Tuple) : Call Receipt := running fun _ =>
  .request (.insert t) fun accepted =>
    match accepted with
    | .here receipt => .done (.ok receipt)
    | .sent ticket => .awaitAck ticket .done

def setRemote (owner : Owner) (key text : String) : Call Receipt :=
  checked (Tuple.text owner key text) insert

def set (key text : String) : Call Receipt := fun k => setRemote k.localId key text k

/-- Writes a tuple unless there is a value at its location, and tells whether it did. -/
def writeIfAbsent (l : Location) (t : Tuple) : Program Bool :=
  .request (.isPresent l) fun present =>
    if present then .done (.ok false) else (insertProgram t).map fun _ => true

/-- Writes a text under a key of this process unless there is a value, and tells whether it did. -/
def setDefault (key text : String) : Call Bool :=
  checked (Key.parse key) fun parsed => running fun k =>
    writeIfAbsent ⟨k.localId, parsed⟩ (.plainText k.localId parsed text)

/-- Deletes the value at a location and does not wait for its owner. -/
def delete (l : Location) : Call Receipt := running fun _ =>
  .request (.delete l) fun accepted =>
    match accepted with
    | .here receipt => .done (.ok receipt)
    | .sent _ => .done (.ok .acceptedForSend)

/-- Appends to every value of this process that a pattern covers, and gives their number. -/
def append (p : Tuple) (suffix : List UInt8) (expected : Option Nat) : Call Nat :=
  running fun _ => .query (.append p suffix expected)

/-! ## Reads -/

def read (flags : GetFlags) (k : Kernel) (r : Request) (value : r.Answer → Option Tuple) :
    Program (Option Tuple) :=
  if flags.blocking then .poll ⟨r, fun a => (value a).map some, flags.limit k⟩
  else .request r fun a => .done (.ok (value a))

/-- Reads the value at a location, whether it was read before or not. -/
def getExact (l : Location) : Call (Option Tuple) := running fun _ => .query (.get l false)

def get (l : Location) (flags : GetFlags) : Call (Option Tuple) := running fun k =>
  checkedProgram l.requireConcrete fun _ => read flags k (.get l !flags.keepOld) id

def first (p : Tuple) (flags : GetFlags) : Call (Option Tuple) := running fun k =>
  read flags k (.first (if flags.keepOld then p else p.onlyFresh)) id

/-- Reads the value at the location that the first meta tuple covered by a prototype names. -/
def getIndirectBy (prototype : Tuple) (flags : GetFlags) : Call (Option Tuple) := running fun k =>
  read flags k (.getIndirect prototype !flags.keepOld) id

def getIndirect (l : Location) (flags : GetFlags) : Call (Option Tuple) :=
  getIndirectBy l.pattern flags

def isPresent (l : Location) : Call Bool := running fun _ => .query (.isPresent l)

/-- Adds the values that each pattern covers to the results of a search. -/
def searchInto (results : List Tuple) : List Tuple → Program (List Tuple)
  | [] => .done (.ok results)
  | p :: rest => .request (.search p) fun found => searchInto (results ++ found) rest

/-- Reads all values that the patterns cover, pattern by pattern. -/
def search (patterns : List Tuple) : Call (List Tuple) := running fun _ => searchInto [] patterns

/-- Waits until some process has a value under a key, and gives the first that has. -/
def findOwner (key : Key) (timeout : Option Duration) : Call Owner := running fun _ =>
  if key.isConcrete then .poll ⟨.owners key, fun owners => owners.head?, timeout⟩
  else .done (.error (.tuple (.abstractUse key.render)))

/-! ## Subscriptions -/

def enrol (e : Enrolment Reaction) : Call Handle := immediate fun k => k.enrol e

def enrolThrough (source : Location) (callback : Option Reaction) : Call Handle :=
  immediate fun k => k.enrolThrough source callback

def unsubscribe (h : Handle) : Call Unit := immediate fun k => k.unsubscribe h

def hasSubscriber (p : Tuple) : Call Bool := running fun _ => .query (.hasSubscriber p)

/-- Waits until everything asked for so far is done. -/
def sync : Call Unit := running fun _ => .query .sync

/-! ## Meta tuples -/

def setMeta (l : Location) (target : Option Reference) : Call Receipt :=
  insert (Reference.metaTuple l target)

/-- Writes a meta tuple that names no location unless there is a value, and tells whether it did. -/
def declareMeta (l : Location) : Call Bool := running fun _ =>
  writeIfAbsent l (Reference.metaTuple l none)

/-- Writes a meta tuple of this process unless there is a value, and tells whether it did. -/
def setDefaultMeta (key : Key) (target : Reference) : Call Bool := running fun k =>
  writeIfAbsent ⟨k.localId, key⟩ (Reference.metaTuple ⟨k.localId, key⟩ (some target))

def resolve (l : Location) : Call (Option Reference) := running fun _ => .query (.resolve l)

def isMeta (l : Location) : Call Bool := running fun _ => .query (.isMeta l)

def setIndirect (l : Location) (text : String) : Call Receipt := running fun _ =>
  .request (.resolve l) fun target =>
    match target with
    | none => .done (.error (.failed .invalidMeta))
    | some r => insertProgram (.plainText r.location.owner r.location.key text)

/-! ## The kernel itself -/

def connect (url : String) : Call Unit := running fun _ => .query (.connect url)

def stats : Call KernelStats := running fun _ => .query .stats

/-- Takes a user away. The last one ends the dispatch loop. -/
def shutdown : Call Unit := fun k =>
  let (k, last) := k.dismiss
  (k, if last then .stop (.done (.ok ())) else .done (.ok ()))

def stopped : Call Unit := running fun _ => .awaitStop (.done (.ok ()))

end Client

end Blackboard
