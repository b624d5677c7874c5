import Blackboard.Tuple

/-!
# Transports

What connects a process to its peers. A kernel steps it once a tick to take in what arrived, sends
writes of other processes' tuples through it, and closes it at the end.

A standalone transport has no peers. A scripted one is told what arrives and how writes are answered,
and keeps an account of what it was asked to do; it can also be told to misbehave.
-/

namespace Blackboard

def protocolVersion : String := "0.6.1"

/-- Why a transport did not do what it was asked. -/
inductive TransportError where
  /-- There is no way to reach the process that owns the tuple. -/
  | notConnected (owner : Owner)
  | rejected (reason : String)
  /-- No peer can be reached under this address. -/
  | invalidUrl (url : String)
  | closed
  deriving DecidableEq, Repr

def TransportError.message : TransportError → String
  | notConnected owner => "No connection to owner " ++ toString owner
  | rejected reason => "Rejected by peer: " ++ reason
  | invalidUrl url => "Invalid url: " ++ url
  | closed => "Transport closed"

inductive Inbound where
  /-- The value of a tuple of the peer's own. -/
  | published (tuple : Tuple)
  /-- A peer's write of a tuple that this process owns. -/
  | setRequest (tuple : Tuple)
  deriving DecidableEq, Repr

/-- Where the answer to a write that was sent comes from. -/
inductive Ticket where
  | answered (answer : Except TransportError Unit)
  /-- The write is held back under a number. -/
  | held (number : Nat)
  | lost

inductive Delivery where
  | pending
  | answered (answer : Except TransportError Unit)
  | lost

inductive AckMode where
  | accept
  | reject (reason : String)
  /-- Not before it is told to. -/
  | hold
  deriving DecidableEq, Repr

structure Script where
  version : String := protocolVersion
  inbound : List Inbound := []
  /-- The writes it was asked to send, oldest first. -/
  published : List Tuple := []
  ackMode : AckMode := .accept
  /-- How many writes were held back so far; each is known by its number in their order. -/
  heldSoFar : Nat := 0
  /-- How many of the writes held back have been acknowledged: those with the smallest numbers. -/
  acknowledged : Nat := 0
  connected : List String := []
  autoConnected : List String := []
  steps : Nat := 0
  isShutDown : Bool := false
  isRunning : Bool := true
  /-- How many of the next steps fail. -/
  failingSteps : Nat := 0
  /-- Whether the answers to writes get lost. -/
  losesTickets : Bool := false
  stalls : Bool := false
  deriving DecidableEq, Repr

inductive Transport where
  | standalone (closed : Bool)
  | scripted (script : Script)
  deriving DecidableEq, Repr

namespace Script

def deliver (s : Script) (message : Inbound) : Script := { s with inbound := s.inbound ++ [message] }

def releaseHeld (s : Script) : Script := { s with acknowledged := s.heldSoFar }

/-- Takes in what arrived. A step that fails takes in nothing and is not counted. -/
def step (s : Script) : Script × List Inbound :=
  match s.failingSteps with
  | n + 1 => ({ s with failingSteps := n }, [])
  | 0 => ({ s with steps := s.steps + 1, inbound := [] }, s.inbound)

def publish (s : Script) (t : Tuple) : Script × Ticket :=
  let s := { s with published := s.published ++ [t] }
  if s.losesTickets then (s, .lost)
  else
    match s.ackMode with
    | .accept => (s, .answered (.ok ()))
    | .reject reason => (s, .answered (.error (.rejected reason)))
    | .hold => ({ s with heldSoFar := s.heldSoFar + 1 }, .held s.heldSoFar)

/-- Connects a peer under any address that is not empty. -/
def connect (s : Script) (url : String) : Except TransportError Script :=
  if url.isEmpty then .error (.invalidUrl url)
  else .ok { s with connected := s.connected ++ [url] }

def autoConnect (s : Script) (url : String) : Script :=
  { s with autoConnected := s.autoConnected ++ [url] }

end Script

namespace Transport

/-- The script of a scripted transport, and an empty one otherwise. -/
def script : Transport → Script
  | standalone _ => {}
  | scripted s => s

def step : Transport → Transport × List Inbound
  | standalone closed => (standalone closed, [])
  | scripted s =>
    let (s, messages) := s.step
    (scripted s, messages)

/-- False once the transport has broken down or was closed for good. -/
def isRunning : Transport → Bool
  | standalone closed => !closed
  | scripted s => s.isRunning

def stalls : Transport → Bool
  | standalone _ => false
  | scripted s => s.stalls

def publish (t : Transport) (tuple : Tuple) : Transport × Ticket :=
  match t with
  | standalone closed =>
    (standalone closed, .answered (.error (.notConnected (tuple.owner.getD 0))))
  | scripted s =>
    let (s, ticket) := s.publish tuple
    (scripted s, ticket)

def delivery (t : Transport) : Ticket → Delivery
  | .answered answer => .answered answer
  | .lost => .lost
  | .held number =>
    match t with
    | standalone _ => .lost
    | scripted s => if number < s.acknowledged then .answered (.ok ()) else .pending

def connect (t : Transport) (url : String) : Except TransportError Transport :=
  match t with
  | standalone _ => .error (.invalidUrl url)
  | scripted s => (s.connect url).map scripted

def autoConnect (t : Transport) (url : String) : Transport :=
  match t with
  | standalone closed => standalone closed
  | scripted s => scripted (s.autoConnect url)

def version : Transport → String
  | standalone _ => protocolVersion
  | scripted s => s.version

def close : Transport → Transport
  | standalone _ => standalone true
  | scripted s => scripted { s with isShutDown := true }

end Transport

end Blackboard
