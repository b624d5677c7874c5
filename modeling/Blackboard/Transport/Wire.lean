import Blackboard.Transport

/-!
# A transport with its tickets

A wire keeps the tickets of the writes that were sent through a transport, under the numbers of the
writes. The answer to a write can be taken once.
-/

namespace Blackboard

/-- A transport and the tickets it gave. -/
structure Wire where
  transport : Transport
  /-- What is told to a transport that has no script. -/
  unheard : Script := {}
  /-- The tickets in the order of the writes, without those whose answers were taken. -/
  tickets : List (Option Ticket) := []

namespace Wire

def script (w : Wire) : Script :=
  match w.transport with
  | .standalone _ => w.unheard
  | .scripted s => s

def setScript (w : Wire) (s : Script) : Wire :=
  match w.transport with
  | .standalone _ => { w with unheard := s }
  | .scripted _ => { w with transport := .scripted s }

/-- Sends a write and gives its number. -/
def publish (w : Wire) (t : Tuple) : Wire × Nat :=
  let (transport, ticket) := w.transport.publish t
  ({ w with transport, tickets := w.tickets ++ [some ticket] }, w.tickets.length)

/-- Takes the answer to a write. An answer taken before is lost. -/
def read (w : Wire) (number : Nat) : Wire × Delivery :=
  match w.tickets[number]?.bind id with
  | none => (w, .lost)
  | some ticket =>
    match w.transport.delivery ticket with
    | .pending => (w, .pending)
    | delivery => ({ w with tickets := w.tickets.set number none }, delivery)

end Wire

end Blackboard
