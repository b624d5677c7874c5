import Blackboard.Kernel.Service

/-!
# What clients run

A call of a client is a program: a tree of requests to the dispatch loop, each with what to do next
for every answer. Besides requests a program can wait, for an acknowledgement, for the kernel to stop,
or between the attempts of a read that is tried again.
-/

namespace Blackboard

/-- A read that is tried again, once a tick period, until it finds something. -/
structure Poll (α : Type) where
  request : Request
  /-- What an answer amounts to. -/
  found : request.Answer → Option α
  timeout : Option Duration

/-- What to do after an attempt. -/
inductive Verdict (α : Type) where
  | finished (outcome : Except KernelError α)
  | again

namespace Poll

variable {α β : Type}

/-- Whether an attempt ends the poll: if it fails, if it finds something, or if at least the time
limit has passed since the start. -/
def judge (p : Poll α) (waited : Duration) (answer : Except KernelError p.request.Answer) :
    Verdict α :=
  match answer with
  | .error e => .finished (.error e)
  | .ok a =>
    match p.found a, p.timeout with
    | some found, _ => .finished (.ok found)
    | none, none => .again
    | none, some limit =>
      if limit.nanos ≤ waited.nanos then .finished (.error (.timeout limit)) else .again

def map (f : α → β) (p : Poll α) : Poll β :=
  ⟨p.request, fun a => (p.found a).map f, p.timeout⟩

end Poll

/-- What a client does, step by step. -/
inductive Program (α : Type) where
  | done (outcome : Except KernelError α)
  | ask (request : Request) (next : Except KernelError request.Answer → Program α)
  | poll (poll : Poll α)
  /-- Waits until a write that was sent is answered or given up. -/
  | awaitAck (ticket : Ticket) (next : Except KernelError Receipt → Program α)
  | awaitStop (next : Program α)
  /-- Ends the dispatch loop, by force if it does not end in time. -/
  | stop (next : Program α)

namespace Program

variable {α β : Type}

/-- Asks the dispatch loop and goes on if it answers. -/
def request (r : Request) (next : r.Answer → Program α) : Program α :=
  .ask r fun answer =>
    match answer with
    | .ok a => next a
    | .error e => .done (.error e)

def query (r : Request) : Program r.Answer := .ask r .done

def map (f : α → β) : Program α → Program β
  | done outcome => done (outcome.map f)
  | ask r next => ask r fun answer => (next answer).map f
  | poll p => poll (p.map f)
  | awaitAck ticket next => awaitAck ticket fun answer => (next answer).map f
  | awaitStop next => awaitStop (next.map f)
  | stop next => stop (next.map f)

end Program

/-- A call of a client: what it does to the kernel at once, and the program that it runs then. -/
abbrev Call (α : Type) := Kernel → Kernel × Program α

end Blackboard
