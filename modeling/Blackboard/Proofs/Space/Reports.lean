import Blackboard.Proofs.Store.Searching
import Blackboard.Proofs.Space.History

/-!
# Reports and logs

An operation is recorded with the tuples that it reports to its caller, followed by a new list of keys
at most. One that reports nothing left everything as it was and ran no callback.

The history of a run is the log of its store: the contents at the end are what the records leave, each
record goes on from those before it, and there are as many as the store counted.
-/

namespace Blackboard

variable {κ : Type} [Callback κ]

namespace Space

variable {s s' : Space κ}

/-! ## What an operation reports -/

/-- The tuple that a change reports to its caller. A failed one reports nothing. -/
def mutated : Except TupleError (Space κ × Mutation) → List Tuple
  | .ok (_, m) => m.tuple.toList
  | .error _ => []

/-- The tuples that an operation reports to its caller as stored or removed. -/
def reported (s : Space κ) : Access → List Tuple
  | .write t now => mutated (s.write t now)
  | .writeReplica t now => mutated (s.writeReplica t now)
  | .delete l remover now => mutated (s.delete l remover now)
  | .expire now => (s.expire now).2.filterMap (·.tuple)
  | .append p suffix expected now => (s.append p suffix expected now).2.filterMap (·.tuple)
  | .get _ _ | .search _ | .first _ => []

/-- Records of what an operation reports, followed by a new list of keys at most. -/
def Reports (s : Space κ) (rs : List Record) (ts : List Tuple) : Prop :=
  ∃ renewed, rs.map (·.tuple) = ts ++ renewed.map Record.tuple ∧ renewed.length ≤ 1 ∧
    (∀ r ∈ renewed, r.deed = .write ∧ r.place = s.listingPlace) ∧ (ts = [] → renewed = [])

omit [Callback κ] in
theorem reports_nil (s : Space κ) : s.Reports [] [] :=
  ⟨[], rfl, Nat.zero_le 1, fun _ h => (nomatch h), fun _ => rfl⟩

omit [Callback κ] in
/-- Records without a new list of keys. -/
theorem reports_map (s : Space κ) (rs : List Record) : s.Reports rs (rs.map (·.tuple)) :=
  ⟨[], (List.append_nil _).symm, Nat.zero_le 1, fun _ h => (nomatch h), fun _ => rfl⟩

omit [Callback κ] in
theorem reports_renewal (s space : Space κ) {rs : List Record} (hne : rs ≠ [])
    (hlocal : space.localId = s.localId) (changed : Key) (now : Timestamp) :
    s.Reports (rs ++ space.renewal changed now) (rs.map (·.tuple)) := by
  refine ⟨space.renewal changed now, List.map_append, ?_, ?_, fun hnil => ?_⟩
  · rw [renewal]
    split
    next => exact Nat.zero_le 1
    next => exact Nat.le_refl 1
  · intro r hr
    rw [eq_of_mem_renewal hr]
    exact ⟨rfl, congrArg (Location.mk · listingKey) hlocal⟩
  · exact absurd (List.map_eq_nil_iff.1 hnil) hne

theorem reports_deletion (hs : s.store.Sound) (l : Location) (remover : Option Owner)
    (now : Timestamp) :
    s.Reports (s.deletion l remover now) (mutated (s.delete l remover now)) := by
  rw [deletion]
  split
  next hnone =>
    cases hdelete : s.delete l remover now with
    | error e => exact s.reports_nil
    | ok r =>
      rcases delete_eq_ok hdelete with ⟨-, -, hm⟩ | ⟨t, ht, -⟩
      · rw [mutated, hm]
        exact s.reports_nil
      · cases hnone.symm.trans ht
  next t ht =>
    rw [delete_of_peek hs ht]
    dsimp only
    split
    next => exact s.reports_renewal (s.purge l _).1 (List.cons_ne_nil _ []) rfl l.key now
    next => exact s.reports_map [_]

theorem reports_markedDeletion (hs : s.store.Sound) (t : Tuple) (now : Timestamp) :
    s.Reports (s.markedDeletion t now) (mutated (s.deleteMarked t now)) := by
  rw [markedDeletion, deleteMarked]
  cases t.owner with
  | none => exact s.reports_nil
  | some owner => exact reports_deletion hs ..

omit [Callback κ] in
theorem filterMap_tuple {α : Type} {ms : List Mutation} {xs : List α} {f : α → Tuple}
    (h : ms.map (·.tuple) = xs.map fun x => some (f x)) : ms.filterMap (·.tuple) = xs.map f := by
  calc ms.filterMap (·.tuple) = (ms.map (·.tuple)).filterMap id := by
        rw [List.filterMap_map]
        rfl
    _ = xs.map f := by
        rw [h, List.filterMap_map, ← List.filterMap_eq_map]
        rfl

theorem tuples_afterWrites (s : Space κ) (ts : List Tuple) :
    (s.afterWrites ts).2.map (·.tuple) = ts.map some := by
  induction ts generalizing s with
  | nil => rfl
  | cons t rest ih => exact congrArg (some t :: ·) (ih _)

theorem reported_append (s : Space κ) (p : Tuple) (suffix : List UInt8) (expected : Option Nat)
    (now : Timestamp) : s.reported (.append p suffix expected now)
      = (s.records (.append p suffix expected now)).map (·.tuple) := by
  rw [reported, append, filterMap_tuple (tuples_afterWrites ..), records, List.map_map]
  simp [Store.append, additions, Table.values, List.filter_map, Function.comp_def, Record.ofChange]

theorem reports_write (hs : s.store.Sound) (t : Tuple) (now : Timestamp) :
    s.Reports (s.records (.write t now)) (s.reported (.write t now)) := by
  rw [records, reported]
  cases hdel : t.isDeletion with
  | true =>
    rw [write, if_pos hdel]
    exact reports_markedDeletion hs t now
  | false =>
    simp only [Bool.false_eq_true, if_false]
    rw [write_eq hdel]
    cases t.location with
    | error e => exact s.reports_nil
    | ok l =>
      dsimp only
      split
      next => exact s.reports_renewal _ (List.cons_ne_nil _ []) (s.localId_stored ..) t.key now
      next => exact s.reports_map [_]

theorem reports_writeReplica (hs : s.store.Sound) (t : Tuple) (now : Timestamp) :
    s.Reports (s.records (.writeReplica t now)) (s.reported (.writeReplica t now)) := by
  rw [records, reported]
  cases hdel : t.isDeletion with
  | true =>
    rw [writeReplica, if_pos hdel]
    exact reports_markedDeletion hs t now
  | false =>
    simp only [Bool.false_eq_true, if_false]
    rw [writeReplica_eq hdel]
    cases t.location with
    | error e => exact s.reports_nil
    | ok l =>
      simp only [Except.map]
      split
      next => exact s.reports_map [_]
      next => exact s.reports_nil

/-- A sweep reports what it removes. -/
theorem reported_expire (hs : s.store.Sound) (now : Timestamp) : s.reported (.expire now)
    = ((s.removals (s.store.due now)).map (.ofChange .removal)).map Record.tuple := by
  rw [reported, (expire_fst hs now).1,
    filterMap_tuple (becomes_purgeAll hs (hs.nodup_due now)).2, List.map_map]
  rfl

theorem reports_expire (hs : s.store.Sound) (now : Timestamp) :
    s.Reports (s.records (.expire now)) (s.reported (.expire now)) := by
  rw [records, reported_expire hs]
  cases hlast : (s.removals (s.store.due now)).getLast? with
  | none =>
    rw [List.append_nil]
    exact s.reports_map _
  | some c =>
    have hne : (s.removals (s.store.due now)).map (Record.ofChange .removal) ≠ [] := by
      simpa using List.ne_nil_of_mem (List.mem_of_getLast? hlast)
    dsimp only
    split
    next =>
      exact s.reports_renewal _ hne (becomes_purgeAll hs (hs.nodup_due now)).1.localId ..
    next =>
      rw [List.append_nil]
      exact s.reports_map _

/-- An operation is recorded with the tuples that it reports, and with no others but a new list of
keys. -/
theorem reports_access (hs : s.store.Sound) (a : Access) :
    s.Reports (s.records a) (s.reported a) := by
  cases a with
  | write t now => exact reports_write hs t now
  | writeReplica t now => exact reports_writeReplica hs t now
  | delete l remover now => exact reports_deletion hs l remover now
  | expire now => exact reports_expire hs now
  | append p suffix expected now =>
    rw [reported_append]
    exact s.reports_map _
  | get l onlyFresh => exact s.reports_nil
  | search p => exact s.reports_nil
  | first p => exact s.reports_nil

/-- An operation that reports no tuple runs no callback. -/
theorem fired_of_reported_nil (hs : s.store.Sound) {a : Access} (h : s.reported a = []) :
    (s.access a).fired = s.fired := by
  obtain ⟨renewed, htuples, -, -, hnone⟩ := reports_access hs a
  rw [h, hnone h] at htuples
  have hrecords : s.records a = [] := List.map_eq_nil_iff.1 htuples
  have hbecomes := (does_access hs a).becomes
  rw [hrecords] at hbecomes
  rw [hbecomes.noticed]
  rfl

/-- The values changed by one append are recorded in their order. -/
theorem sorted_append (hs : s.store.Sound) (p : Tuple) (suffix : List UInt8)
    (expected : Option Nat) (now : Timestamp) (policy : PayloadCase) :
    (s.records (.append p suffix expected now)).Pairwise fun a b =>
      Tuple.compare policy a.tuple b.tuple = .lt := by
  refine List.pairwise_map.2 (List.pairwise_map.2 ?_)
  refine (s.store.tuples.sorted.filter _).imp_of_mem fun {a b} ha hb hlt => ?_
  have hfiled {e : Location × Tuple} (he : e ∈ s.store.tuples.entries) :
      (Store.extend suffix now e.2).location = .ok e.1 :=
    Store.location_extend suffix now (hs.filed e.1 e.2 ((s.store.tuples.mem_entries_iff ..).1 he))
  exact Tuple.compare_of_location (hfiled (List.mem_of_mem_filter ha))
    (hfiled (List.mem_of_mem_filter hb)) hlt

end Space

namespace Store

/-- The contents of a store went from one to another by some records. Each goes on from what those
before it left, and the store counted each of them. -/
structure Logs (s : Store) (rs : List Record) (s' : Store) : Prop where
  content : s'.content = Change.replay (rs.map Record.change) s.content
  chain : Record.Chain s.content rs
  writes : s'.stats.writes = s.stats.writes + rs.countP fun r => r.deed ≠ .removal
  removals : s'.stats.removals = s.stats.removals + rs.countP fun r => r.deed = .removal

variable {s s' s'' : Store} {xs ys : List Record}

theorem Logs.refl (s : Store) : s.Logs [] s := ⟨rfl, trivial, rfl, rfl⟩

theorem Logs.trans (h : s.Logs xs s') (h' : s'.Logs ys s'') : s.Logs (xs ++ ys) s'' where
  content := by rw [h'.content, h.content, List.map_append, Change.replay_append]
  chain := Record.Along.append_iff.2 ⟨h.chain, h.content ▸ h'.chain⟩
  writes := by rw [h'.writes, h.writes, List.countP_append, Nat.add_assoc]
  removals := by rw [h'.removals, h.removals, List.countP_append, Nat.add_assoc]

end Store

theorem Space.Does.logs {s s' : Space κ} {rs : List Record} (h : s.Does rs s') :
    s.store.Logs rs s'.store :=
  ⟨h.becomes.content, h.chain, h.writes, h.removals⟩

namespace Session

/-- The records of an operation. Registrations change no value. -/
def records (s : Session κ) : Operation κ → List Record
  | .access a => s.space.records a
  | _ => []

/-- The records of a run, in the order in which the changes were made. -/
def history (s : Session κ) : List (Operation κ) → List Record
  | [] => []
  | op :: rest => s.records op ++ (s.step op).history rest

/-- A run comes to its end in every build without overflow checks. In one with them it does so unless a
count passes its own. -/
def Returns (s : Session κ) (build : Build) (ops : List (Operation κ)) : Prop :=
  build = .checked → Record.Within s.space.store.content (s.history ops)

instance (s : Session κ) (build : Build) (ops : List (Operation κ)) :
    Decidable (s.Returns build ops) :=
  inferInstanceAs (Decidable (build = .checked →
    Record.Within s.space.store.content (s.history ops)))

theorem logs_step (s : Session κ) (hs : s.space.store.Sound) (op : Operation κ) :
    s.space.store.Logs (s.records op) (s.step op).space.store := by
  cases op with
  | access a => exact (Space.does_access hs a).logs
  | allocate => exact .refl _
  | subscribe i subscription => exact .refl _
  | subscribeIndirect i prototype callback => exact .refl _
  | unsubscribe i =>
    rw [step, Space.store_dropped]
    exact .refl _

theorem logs_run {s : Session κ} (h : s.space.Coherent) (ops : List (Operation κ)) :
    s.space.store.Logs (s.history ops) (s.run ops).space.store := by
  induction ops generalizing s with
  | nil => exact .refl _
  | cons op rest ih => exact (s.logs_step h.sound op).trans (ih (coherent_step h op))

theorem coherent_run {s : Session κ} (h : s.space.Coherent) (ops : List (Operation κ)) :
    (s.run ops).space.Coherent := by
  induction ops generalizing s with
  | nil => exact h
  | cons op rest ih => exact ih (coherent_step h op)

/-- Each record is about the location that its tuple names. -/
theorem placed_history {s : Session κ} (h : s.space.Coherent) {ops : List (Operation κ)} :
    ∀ r ∈ s.history ops, r.tuple.location = .ok r.place := by
  induction ops generalizing s with
  | nil => exact fun r hr => nomatch hr
  | cons op rest ih =>
    intro r hr
    rcases List.mem_append.1 hr with hr | hr
    · cases op with
      | access a =>
        exact (Space.does_access h.sound a).becomes.placed r.change (List.mem_map_of_mem hr)
      | _ => cases hr
    · exact ih (coherent_step h op) r hr

end Session

end Blackboard
