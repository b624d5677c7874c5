import Blackboard.Space

/-!
# Registrations and the callbacks of a kernel

What a client asks of the subscriptions of a kernel is an `Enrolment`. The kernel gives it a handle
and queues it as a `Registration`, which the dispatch loop applies to the space later.

The callback of a client is a `Reaction`: it reports what it was shown and then acts on the
subscriptions of the kernel it runs in.
-/

namespace Blackboard

inductive Enrolment (κ : Type) where
  | interest (pattern : Tuple)
  | callback (pattern : Tuple) (mode : Mode) (run : κ)
  | indirect (prototype : Tuple) (run : Option κ)

/-- The enrolment for whatever the meta tuple at one location names. -/
def Enrolment.through {κ : Type} (source : Location) (callback : Option κ) :
    Except TupleError (Enrolment κ) :=
  source.requireConcrete.map fun _ => .indirect source.pattern callback

/-- A change of the subscriptions that waits for the dispatch loop. -/
inductive Registration (κ : Type) where
  | subscribe (handle : Handle) (subscription : Subscription κ)
  | follow (handle : Handle) (prototype : Tuple) (callback : Option κ)
  | remove (handle : Handle)

def Enrolment.register {κ : Type} (h : Handle) : Enrolment κ → Registration κ
  | interest pattern => .subscribe h (.interest pattern)
  | callback pattern mode run => .subscribe h ⟨pattern, mode, some run⟩
  | indirect prototype run => .follow h prototype run

/-- Applies a registration. Removing what is not there changes nothing. -/
def Space.apply {κ : Type} (s : Space κ) : Registration κ → Space κ
  | .subscribe h subscription => s.subscribe h subscription
  | .follow h prototype callback => s.subscribeIndirect h prototype callback
  | .remove h =>
    match s.unsubscribe h with
    | .ok s => s
    | .error _ => s

mutual

/-- A callback: the name it reports under and what it does after that. -/
inductive Reaction where
  | of (label : String) (actions : List Action)

/-- What a callback does to the subscriptions of its kernel. -/
inductive Action where
  | enrol (enrolment : Enrolment Reaction)
  | unsubscribe (handle : Handle)
  /-- An action whose arguments are refused before it does anything. -/
  | refused (cause : TupleError)

end

def Action.takesHandle : Action → Bool
  | enrol _ => true
  | unsubscribe _ => false
  | refused _ => false

namespace Reaction

def label : Reaction → String
  | of label _ => label

def actions : Reaction → List Action
  | of _ actions => actions

/-- Each enrolment takes a handle. -/
instance : Callback Reaction := ⟨fun r => r.actions.countP Action.takesHandle⟩

/-- True if a callback has a use for its kernel, which then lives as long as the callback. -/
def holdsKernel (r : Reaction) : Bool := !r.actions.isEmpty

end Reaction

end Blackboard
