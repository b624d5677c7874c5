import Blackboard.Space

/-!
# Counters

What a kernel counts while it runs. A counter is shown once something has been counted under it.
-/

namespace Blackboard

inductive Origin where
  /-- A client of this process wrote it. -/
  | client
  /-- It is a copy of another process's value. -/
  | replica
  /-- Another process wrote it. -/
  | remote
  /-- A client of this process appended to it. -/
  | append
  deriving DecidableEq, Repr

inductive Removal where
  | deletion
  | expiry
  deriving DecidableEq, Repr

/-- The outcomes of writes that are sent to their owners. -/
inductive Sending where
  | sent
  | acknowledged
  | failed
  deriving DecidableEq, Repr

structure Metrics where
  clientWrites : Nat := 0
  replicas : Nat := 0
  remoteWrites : Nat := 0
  appends : Nat := 0
  deletions : Nat := 0
  expiries : Nat := 0
  writeCallbacks : Nat := 0
  deleteCallbacks : Nat := 0
  rebinds : Nat := 0
  sent : Nat := 0
  acknowledged : Nat := 0
  failed : Nat := 0
  /-- Ticks that ran to their end. -/
  ticks : Nat := 0
  deriving DecidableEq, Repr

namespace Metrics

def countRebinds (m : Metrics) (change : Mutation) : Metrics :=
  { m with rebinds := m.rebinds + change.rebinds }

def countWrite (m : Metrics) (origin : Origin) (change : Mutation) : Metrics :=
  if change.tuple.isNone then m
  else
    let m := { m with writeCallbacks := m.writeCallbacks + change.callbacks }
    let m := m.countRebinds change
    match origin with
    | .client => { m with clientWrites := m.clientWrites + 1 }
    | .replica => { m with replicas := m.replicas + 1 }
    | .remote => { m with remoteWrites := m.remoteWrites + 1 }
    | .append => { m with appends := m.appends + 1 }

def countRemoval (m : Metrics) (removal : Removal) (change : Mutation) : Metrics :=
  if change.tuple.isNone then m
  else
    let m := { m with deleteCallbacks := m.deleteCallbacks + change.callbacks }
    let m := m.countRebinds change
    match removal with
    | .deletion => { m with deletions := m.deletions + 1 }
    | .expiry => { m with expiries := m.expiries + 1 }

/-- Counts a change that stored a value, or removed one if the tuple has the mark of a deletion. -/
def countChange (m : Metrics) (origin : Origin) (change : Mutation) : Metrics :=
  if change.tuple.any Tuple.isDeletion then m.countRemoval .deletion change
  else m.countWrite origin change

def countSending (m : Metrics) : Sending → Metrics
  | .sent => { m with sent := m.sent + 1 }
  | .acknowledged => { m with acknowledged := m.acknowledged + 1 }
  | .failed => { m with failed := m.failed + 1 }

def countTick (m : Metrics) : Metrics := { m with ticks := m.ticks + 1 }

def add (a b : Metrics) : Metrics where
  clientWrites := a.clientWrites + b.clientWrites
  replicas := a.replicas + b.replicas
  remoteWrites := a.remoteWrites + b.remoteWrites
  appends := a.appends + b.appends
  deletions := a.deletions + b.deletions
  expiries := a.expiries + b.expiries
  writeCallbacks := a.writeCallbacks + b.writeCallbacks
  deleteCallbacks := a.deleteCallbacks + b.deleteCallbacks
  rebinds := a.rebinds + b.rebinds
  sent := a.sent + b.sent
  acknowledged := a.acknowledged + b.acknowledged
  failed := a.failed + b.failed
  ticks := a.ticks + b.ticks

def labelled (name label value : String) : String := name ++ "\x7b" ++ label ++ "=" ++ value ++ "\x7d"

/-- Every counter under the name it is published by. -/
def counters (m : Metrics) : List (String × Nat) :=
  let written := labelled "coordspace_tuples_written_total" "origin"
  let deleted := labelled "coordspace_tuples_deleted_total" "reason"
  let dispatched := labelled "coordspace_callbacks_dispatched_total" "mode"
  let published := labelled "coordspace_remote_publish_total" "result"
  [(written "local", m.clientWrites), (written "replica", m.replicas),
    (written "remote-set", m.remoteWrites), (written "append", m.appends),
    (deleted "delete", m.deletions), (deleted "expired", m.expiries),
    (dispatched Mode.onWrite.label, m.writeCallbacks),
    (dispatched Mode.onDelete.label, m.deleteCallbacks),
    ("coordspace_meta_rebinds_total", m.rebinds),
    (published "sent", m.sent), (published "acked", m.acknowledged), (published "failed", m.failed),
    ("coordspace_tick_duration_seconds", m.ticks)]

/-- The counters under which something has been counted. -/
def shown (m : Metrics) : List (String × Nat) := m.counters.filter fun c => 0 < c.2

end Metrics

end Blackboard
