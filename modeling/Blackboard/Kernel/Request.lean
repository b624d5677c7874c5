import Blackboard.Space
import Blackboard.Kernel.Error

/-!
# Requests to the dispatch loop

What clients ask of a kernel's dispatch loop, one request at a time. Each request has a type of
answers of its own.
-/

namespace Blackboard

inductive Receipt where
  | committed (seqno : Nat)
  /-- It was a deletion; there may have been nothing to delete. -/
  | deleted (existed : Bool)
  /-- It was sent to its owner, who has not answered. -/
  | acceptedForSend
  | acknowledged
  deriving DecidableEq, Repr

def Receipt.ofChange (change : Mutation) : Receipt :=
  match change.tuple with
  | none => .deleted false
  | some t => if t.isDeletion then .deleted true else .committed (t.seqno.getD 0)

/-- What the dispatch loop did with a write. -/
inductive Accepted where
  /-- The tuple belongs to this process. -/
  | here (receipt : Receipt)
  /-- The tuple belongs to another process, and was sent there. -/
  | sent (ticket : Ticket)

structure KernelStats where
  space : SpaceStats
  ticks : Nat
  deriving DecidableEq, Repr

/-- What a client can ask of the dispatch loop. -/
inductive Request where
  /-- Write a tuple here or at its owner. -/
  | insert (tuple : Tuple)
  /-- Delete the value at a location here or at its owner. -/
  | delete (location : Location)
  | get (location : Location) (onlyFresh : Bool)
  | first (pattern : Tuple)
  /-- Read the value at the location that the first meta tuple covered by a prototype names. -/
  | getIndirect (prototype : Tuple) (onlyFresh : Bool)
  | isPresent (location : Location)
  | search (pattern : Tuple)
  /-- Append to every value of this process that a pattern covers. -/
  | append (pattern : Tuple) (suffix : List UInt8) (expected : Option Nat)
  | resolve (location : Location)
  | isMeta (location : Location)
  | hasSubscriber (pattern : Tuple)
  | owners (key : Key)
  | connect (url : String)
  | stats
  /-- Nothing, but after all that was asked before. -/
  | sync
  deriving DecidableEq

abbrev Request.Answer : Request → Type
  | insert _ => Accepted
  | delete _ => Accepted
  | get _ _ => Option Tuple
  | first _ => Option Tuple
  | getIndirect _ _ => Option Tuple
  | isPresent _ => Bool
  | search _ => List Tuple
  | append _ _ _ => Nat
  | resolve _ => Option Reference
  | isMeta _ => Bool
  | hasSubscriber _ => Bool
  | owners _ => List Owner
  | connect _ => Unit
  | stats => KernelStats
  | sync => Unit

structure Reply where
  request : Request
  answer : Except KernelError request.Answer

end Blackboard
