import Mathlib.Data.List.Induction
import Blackboard.Proofs.Matching
import Blackboard.Proofs.Space.Standing

/-!
# What subscribers learn of a run

The history of a run, restricted to one place, tells how the value there developed: writes count up,
appends leave the count alone, a removal starts over. A callback for stored values is shown the part of
the history that its pattern covers. A callback for removals, registered for one place, is shown every
loss of the value there, and with it the value that was lost.
-/

namespace Blackboard

variable {κ : Type}

namespace Record

variable {contents : Location → Option Tuple} {rs : List Record} {l : Location}

/-! ## One place -/

theorem replay_concat (xs : List Record) (r : Record) (contents : Location → Option Tuple)
    (l : Location) : Change.replay ((xs ++ [r]).map change) contents l
      = if l = r.place then r.change.outcome else Change.replay (xs.map change) contents l := by
  rw [List.map_append, Change.replay_append, List.map_singleton, Change.replay_cons,
    Change.replay_nil, Function.update_apply]
  rfl

/-- The numbers of a stretch of writes and appends to a place that had no value, in a build of the
program: the writes count from one, and each append continues the value before it. -/
structure Numbered (build : Build) (stretch : List Record) : Prop where
  writes : (stretch.filter fun r => r.deed = .write).map (·.tuple.seqno)
    = (List.range' 1 (stretch.countP fun r => r.deed = .write)).map
        fun n => some (build.shows UInt64.size n)
  first : ∀ r rest, stretch = r :: rest → r.deed = .write
  appends : ∀ xs r a ys, stretch = xs ++ r :: a :: ys → a.deed = .append →
    a.tuple.seqno = r.tuple.seqno ∧ a.tuple.appends = build.shows UInt32.size (r.tuple.appends + 1)

variable {build : Build}

/-- The writes of a stretch go on counting from the `k` writes before it. -/
theorem Along.seqnos (h : Along (Steps build) contents rs) (hplace : ∀ r ∈ rs, r.place = l)
    (hdeed : ∀ r ∈ rs, r.deed = .write ∨ r.deed = .append) {k : Nat}
    (hheld : (contents l).bind (·.seqno) = if k = 0 then none else some (build.shows UInt64.size k)) :
    (rs.filter fun r => r.deed = .write).map (·.tuple.seqno)
      = (List.range' (k + 1) (rs.countP fun r => r.deed = .write)).map
          fun n => some (build.shows UInt64.size n) := by
  induction rs generalizing contents k with
  | nil => rfl
  | cons r rest ih =>
    have ih {k : Nat} := ih (k := k) h.2 (fun q hq => hplace q (List.mem_cons_of_mem _ hq))
      fun q hq => hdeed q (List.mem_cons_of_mem _ hq)
    obtain rfl := hplace r List.mem_cons_self
    have hafter (hstored : r.deed ≠ .removal) :
        (Function.update contents r.place r.change.outcome r.place).bind (·.seqno)
          = r.tuple.seqno := by
      rw [Function.update_self, outcome_change, if_neg hstored]
      rfl
    rcases hdeed r List.mem_cons_self with hwrite | happend
    · have hseqno : r.tuple.seqno = some (build.shows UInt64.size (k + 1)) := by
        rw [h.1.seqno_eq hwrite, hheld]
        split
        next hk =>
          subst hk
          cases build <;> rfl
        next => exact congrArg some Build.shows_shows_succ
      rw [List.filter_cons_of_pos (by simpa using hwrite),
        List.countP_cons_of_pos (by simpa using hwrite), List.map_cons, hseqno, List.range'_succ,
        List.map_cons,
        ih (k := k + 1) ((hafter (by simp [hwrite])).trans (hseqno.trans (if_neg k.succ_ne_zero).symm))]
    · obtain ⟨t, ht, hseqno, -⟩ := h.1.appends_eq happend
      rw [List.filter_cons_of_neg (by simp [happend]), List.countP_cons_of_neg (by simp [happend])]
      refine ih ((hafter (by simp [happend])).trans ?_)
      rw [hseqno, ← hheld, ht]
      rfl

/-- A stretch of writes and appends is numbered from one if the place had no value before. -/
theorem Along.numbered (h : Along (Steps build) contents rs) (hplace : ∀ r ∈ rs, r.place = l)
    (hnone : contents l = none) (hdeed : ∀ r ∈ rs, r.deed = .write ∨ r.deed = .append) :
    Numbered build rs where
  writes := h.seqnos hplace hdeed (k := 0) (by rw [hnone]; rfl)
  first := by
    rintro r rest rfl
    refine (hdeed r List.mem_cons_self).resolve_right fun happend => ?_
    obtain ⟨t, ht, -⟩ := h.1.appends_eq happend
    rw [hplace r List.mem_cons_self, hnone] at ht
    cases ht
  appends := by
    rintro xs r a ys rfl happend
    have hr : r ∈ xs ++ r :: a :: ys := by simp
    have ha : a ∈ xs ++ r :: a :: ys := by simp
    have hsplit : Along (Steps build) contents ((xs ++ [r]) ++ a :: ys) := by simpa using h
    obtain ⟨t, ht, hseqno, happends⟩ := hsplit.of_split.appends_eq happend
    have hstored : r.deed ≠ .removal := by
      rcases hdeed r hr with hdeed | hdeed <;> simp [hdeed]
    rw [replay_concat, hplace a ha, hplace r hr, if_pos rfl, outcome_change, if_neg hstored] at ht
    obtain rfl := Option.some.inj ht
    exact ⟨hseqno, happends⟩

/-- Between two removals, and from the first write on, what happens at a place is numbered anew. -/
theorem Along.numbered_of_filter (h : Along (Steps build) contents rs)
    {earlier stretch later : List Record}
    (hsplit : (rs.filter fun r => r.place = l) = earlier ++ stretch ++ later)
    (hstart : earlier = [] ∧ contents l = none ∨ ∃ xs r, earlier = xs ++ [r] ∧ r.deed = .removal)
    (hdeed : ∀ r ∈ stretch, r.deed = .write ∨ r.deed = .append) : Numbered build stretch := by
  have hplace : ∀ r ∈ earlier ++ stretch ++ later, r.place = l := by
    intro r hr
    rw [← hsplit] at hr
    simpa using (List.mem_filter.1 hr).2
  have halong := h.filter l
  rw [hsplit, List.append_assoc, append_iff, append_iff] at halong
  refine halong.2.1.numbered (fun r hr => hplace r (by simp [hr])) ?_ hdeed
  rcases hstart with ⟨rfl, hnone⟩ | ⟨xs, r, rfl, hremoval⟩
  · exact hnone
  · rw [replay_concat, hplace r (by simp), if_pos rfl, outcome_change, if_pos hremoval]

/-! ## Losses -/

/-- The last value stored at a place, where `initial` is what it had at first. -/
def lastStored (initial : Option Tuple) (l : Location) (earlier : List Record) : Option Tuple :=
  ((earlier.filter fun r => r.place = l ∧ r.deed ≠ .removal).getLast?.map (·.tuple)).or initial

/-- The value held at a place is the one stored there last. -/
theorem lastStored_of_replay (initial : Option Tuple)
    (hinitial : contents l = initial.map Tuple.ignoringFresh) {earlier : List Record} {t : Tuple}
    (ht : Change.replay (earlier.map change) contents l = some t) :
    ∃ u, lastStored initial l earlier = some u ∧ u.ignoringFresh = t := by
  induction earlier using List.reverseRecOn with
  | nil =>
    obtain ⟨u, hu, hut⟩ := Option.map_eq_some_iff.1 (hinitial.symm.trans ht)
    exact ⟨u, hu, hut⟩
  | append_singleton xs r ih =>
    rw [replay_concat, outcome_change] at ht
    by_cases hr : l = r.place
    · rw [if_pos hr] at ht
      split at ht
      next => cases ht
      next hstored =>
        refine ⟨r.tuple, ?_, Option.some.inj ht⟩
        rw [lastStored, List.filter_append, List.filter_cons_of_pos (by simp [hr, hstored]),
          List.filter_nil, List.getLast?_concat]
        rfl
    · rw [if_neg hr] at ht
      rw [lastStored, List.filter_append, List.filter_cons_of_neg (by simp [Ne.symm hr]),
        List.filter_nil, List.append_nil]
      exact ih ht

end Record

/-- How often a place goes from having a value to having none. -/
def Change.losses (l : Location) : (Location → Option Tuple) → List Change → Nat
  | _, [] => 0
  | contents, c :: rest =>
    let after := Function.update contents c.place c.outcome
    (if (contents l).isSome ∧ (after l).isNone then 1 else 0) + losses l after rest

/-- A record tells of a loss at a place. -/
def Record.TellsLoss (l : Location) (r : Record) : Prop := r.deed = .removal ∧ r.place = l

instance (l : Location) : DecidablePred (Record.TellsLoss l) := fun r =>
  inferInstanceAs (Decidable (r.deed = .removal ∧ r.place = l))

/-- Nothing is removed where there is nothing: each removal is a loss. -/
theorem Record.Chain.losses {contents : Location → Option Tuple} {rs : List Record}
    (h : Chain contents rs) (l : Location) :
    Change.losses l contents (rs.map change) = rs.countP (TellsLoss l) := by
  induction rs generalizing contents with
  | nil => rfl
  | cons r rest ih =>
    rw [List.map_cons, Change.losses, List.countP_cons, Nat.add_comm (rest.countP _)]
    refine congrArg₂ _ (if_congr ?_ rfl rfl) (ih h.2)
    rw [decide_eq_true_iff]
    have hcontinues := h.1
    show _ ↔ r.deed = .removal ∧ r.place = l
    change _ ∧ (Function.update contents r.place r.change.outcome l).isNone = true ↔ _
    rw [Function.update_apply, outcome_change]
    by_cases hr : r.place = l
    · subst hr
      by_cases hremoval : r.deed = .removal
      · obtain ⟨t, ht, -⟩ : ∃ t, contents r.place = some t ∧ _ := by
          simpa only [Continues, hremoval] using hcontinues
        simp [ht, hremoval]
      · simp [hremoval]
    · rw [if_neg (Ne.symm hr)]
      cases contents l <;> simp [hr]

/-! ## What an operation takes away -/

namespace Space

/-- The operations that take away the value at a place, if there is one. -/
def TakesAway (s : Space κ) (l : Location) : Access → Prop
  | .delete place _ _ => place = l
  | .write t _ | .writeReplica t _ =>
    t.isDeletion = true ∧ t.owner = some l.owner ∧ t.key = l.key
  | .expire now => l ∈ s.store.due now
  | .append .. | .get .. | .search _ | .first _ => False

instance (s : Space κ) (l : Location) : DecidablePred (s.TakesAway l)
  | .delete place _ _ => inferInstanceAs (Decidable (place = l))
  | .write t _ | .writeReplica t _ =>
    inferInstanceAs (Decidable (t.isDeletion = true ∧ t.owner = some l.owner ∧ t.key = l.key))
  | .expire now => inferInstanceAs (Decidable (l ∈ s.store.due now))
  | .append .. | .get .. | .search _ | .first _ => inferInstanceAs (Decidable False)

variable [Callback κ] {s : Space κ}

omit [Callback κ] in
theorem countP_tellsLoss_eq_zero {rs : List Record} (h : ∀ r ∈ rs, r.deed ≠ .removal)
    (l : Location) : rs.countP (Record.TellsLoss l) = 0 :=
  List.countP_eq_zero.2 fun r hr htells => h r hr (of_decide_eq_true htells).1

omit [Callback κ] in
theorem countP_renewal (s : Space κ) (changed : Key) (now : Timestamp) (l : Location) :
    (s.renewal changed now).countP (Record.TellsLoss l) = 0 :=
  countP_tellsLoss_eq_zero (fun r hr => by simp [deed_of_mem_renewal hr]) l

theorem countP_deletion (s : Space κ) (place : Location) (remover : Option Owner) (now : Timestamp)
    (l : Location) : (s.deletion place remover now).countP (Record.TellsLoss l)
      = if (s.peek l).isSome ∧ place = l then 1 else 0 := by
  rw [deletion]
  split
  next hnone =>
    rw [if_neg]
    · rfl
    · rintro ⟨hsome, rfl⟩
      simp [hnone] at hsome
  next t ht =>
    have hrest : (if place.owner = s.localId then (s.purge place
          { t with expiry := some .immediately, creator := remover.or t.creator }).1.renewal
            place.key now else []).countP (Record.TellsLoss l) = 0 := by
      split
      next => exact countP_renewal ..
      next => rfl
    rw [List.countP_cons, hrest, Nat.zero_add]
    refine if_congr ?_ rfl rfl
    rw [decide_eq_true_iff, Record.TellsLoss]
    constructor
    · rintro ⟨-, rfl⟩
      exact ⟨by simp [ht], rfl⟩
    · rintro ⟨-, rfl⟩
      exact ⟨rfl, rfl⟩

theorem countP_markedDeletion (s : Space κ) (t : Tuple) (now : Timestamp) (l : Location) :
    (s.markedDeletion t now).countP (Record.TellsLoss l)
      = if (s.peek l).isSome ∧ t.owner = some l.owner ∧ t.key = l.key then 1 else 0 := by
  rw [markedDeletion]
  cases howner : t.owner with
  | none => simp
  | some owner =>
    refine (countP_deletion ..).trans (if_congr (and_congr_right fun _ => ?_) rfl rfl)
    rw [Option.some.injEq, ← Location.mk.injEq]

theorem countP_expire (hs : s.store.Sound) (l : Location) (now : Timestamp) :
    (s.records (.expire now)).countP (Record.TellsLoss l)
      = if (s.peek l).isSome ∧ l ∈ s.store.due now then 1 else 0 := by
  have hdue (place : Location) (hplace : place ∈ s.store.due now) : (s.peek place).isSome := by
    obtain ⟨t, -, ht, -⟩ := hs.mem_due hplace
    exact Option.isSome_iff_exists.2 ⟨t, ht⟩
  have hremoved : ((s.removals (s.store.due now)).map (Record.ofChange .removal)).countP
      (Record.TellsLoss l) = if (s.peek l).isSome ∧ l ∈ s.store.due now then 1 else 0 := by
    calc ((s.removals (s.store.due now)).map (Record.ofChange .removal)).countP (Record.TellsLoss l)
        = ((s.removals (s.store.due now)).map (·.place)).count l := by
          rw [List.countP_map, List.count, List.countP_map]
          refine List.countP_congr fun c _ => ?_
          simp [Record.TellsLoss, Record.ofChange]
      _ = if (s.peek l).isSome ∧ l ∈ s.store.due now then 1 else 0 := by
          rw [places_due hs, (hs.nodup_due now).count]
          exact if_congr ⟨fun hl => ⟨hdue l hl, hl⟩, fun h => h.2⟩ rfl rfl
  rw [records, List.countP_append, hremoved]
  refine Nat.add_eq_left.2 ?_
  split
  next =>
    split
    next => exact countP_renewal ..
    next => rfl
  next => rfl

/-- An operation is recorded with one loss at a place where it takes a value away, and none where it
does not. -/
theorem countP_records (hs : s.store.Sound) (l : Location) (a : Access) :
    (s.records a).countP (Record.TellsLoss l)
      = if (s.peek l).isSome ∧ s.TakesAway l a then 1 else 0 := by
  have hkeeps {a : Access} (hrecords : ∀ r ∈ s.records a, r.deed ≠ .removal)
      (htakes : ¬ s.TakesAway l a) : (s.records a).countP (Record.TellsLoss l)
        = if (s.peek l).isSome ∧ s.TakesAway l a then 1 else 0 := by
    rw [if_neg fun h => htakes h.2]
    exact countP_tellsLoss_eq_zero hrecords l
  cases a with
  | write t now =>
    cases hdel : t.isDeletion with
    | true =>
      rw [records, if_pos hdel, countP_markedDeletion]
      exact if_congr (and_congr_right fun _ => ⟨fun h => ⟨hdel, h⟩, fun h => h.2⟩) rfl rfl
    | false =>
      exact hkeeps (fun r hr => by simp [deed_of_mem_write hdel hr])
        fun h => Bool.false_ne_true (hdel.symm.trans h.1)
  | writeReplica t now =>
    cases hdel : t.isDeletion with
    | true =>
      rw [records, if_pos hdel, countP_markedDeletion]
      exact if_congr (and_congr_right fun _ => ⟨fun h => ⟨hdel, h⟩, fun h => h.2⟩) rfl rfl
    | false =>
      exact hkeeps (fun r hr => by simp [deed_of_mem_writeReplica hdel hr])
        fun h => Bool.false_ne_true (hdel.symm.trans h.1)
  | delete place remover now => exact countP_deletion ..
  | expire now => exact countP_expire hs l now
  | append p suffix expected now =>
    refine hkeeps (fun r hr => ?_) id
    obtain ⟨c, -, rfl⟩ := List.mem_map.1 hr
    exact Deed.noConfusion
  | get place onlyFresh => exact hkeeps (fun _ hr => absurd hr List.not_mem_nil) id
  | search p => exact hkeeps (fun _ hr => absurd hr List.not_mem_nil) id
  | first p => exact hkeeps (fun _ hr => absurd hr List.not_mem_nil) id

end Space

namespace Session

variable [Callback κ] {guard : Session κ → Operation κ → Prop} {s : Session κ} {x : Handle}

/-! ## Stored values -/

omit [Callback κ] in
/-- What a callback for stored values is shown. -/
theorem filterMap_heard_onWrite (policy : PayloadCase) (p : Tuple) (callback : κ)
    (rs : List Record) : (rs.map Record.change).filterMap (heard policy ⟨p, .onWrite, some callback⟩)
      = (rs.filter fun r => r.deed ≠ .removal ∧ p.covers policy r.tuple).map fun r =>
        (callback, { r.tuple with fresh := some false }) := by
  rw [List.filterMap_map, ← List.filterMap_eq_map, List.filterMap_filter]
  refine List.filterMap_congr fun r _ => ?_
  obtain ⟨deed, place, tuple⟩ := r
  cases deed <;> simp [heard, Record.change, Deed.mode, Registry.concerns, Registry.delivered]

/-- From its registration on, a callback for stored values is shown the values that its pattern covers,
each once, in the order in which they were stored, and as they were stored but for the mark of reading.
The history lists what operations reported and what new lists of keys were stored, all of it and nothing
else. Where no copies interfere, what happens at a place between two removals is numbered from one: in a
build with overflow checks as long as the run goes on, and in one without them up to the width of the
counts, after which they go on from zero. -/
theorem Reachable.shows_stored (h : Reachable guard s) (hx : s.Given x) (p : Tuple) (callback : κ)
    (ops : List (Operation κ)) (hops : ∀ op ∈ ops, ¬ op.Names x) :
    let s₀ := s.step (.subscribe x ⟨p, .onWrite, some callback⟩)
    let after := s₀.run ops
    let history := s₀.history ops
    shownTo x (after.space.fired.drop s₀.space.fired.length)
      = (history.filter fun r => r.deed ≠ .removal ∧ p.covers s.space.store.policy r.tuple).map
        (fun r => (callback, { r.tuple with fresh := some false })) ∧
    s₀.space.store.Logs history after.space.store ∧
    (∀ a, after.space.Reports (after.space.records a) (after.space.reported a) ∧
      (after.space.reported a = [] → (after.space.access a).fired = after.space.fired)) ∧
    (∀ p suffix expected now, (after.space.records (.append p suffix expected now)).Pairwise
      fun a b => Tuple.compare s.space.store.policy a.tuple b.tuple = .lt) ∧
    ∀ build, s₀.Returns build ops → ∀ l earlier stretch later,
      (history.filter fun r => r.place = l) = earlier ++ stretch ++ later →
      (earlier = [] ∧ s₀.space.peek l = none ∨ ∃ xs r, earlier = xs ++ [r] ∧ r.deed = .removal) →
      (∀ r ∈ stretch, r.deed = .write ∨ r.deed = .append) → Record.Numbered build stretch := by
  intro s₀ after history
  have hcoherent : s₀.space.Coherent := coherent_step h.coherent _
  have hsound : after.space.store.Sound := (coherent_run hcoherent ops).sound
  have hpolicy : s₀.space.registry.policy = s.space.store.policy := h.coherent.registry_policy
  have hlogs := logs_run hcoherent ops
  refine ⟨?_, hlogs, fun a => ⟨Space.reports_access hsound a, Space.fired_of_reported_nil hsound⟩,
    fun p suffix expected now => Space.sorted_append hsound .., ?_⟩
  · rw [(h.serves hx _ hops).shownTo_eq, hpolicy]
    exact filterMap_heard_onWrite ..
  · intro build hreturns l earlier stretch later hsplit hstart hdeed
    refine (hlogs.chain.steps hreturns).numbered_of_filter hsplit
      (hstart.imp_left fun hnone => ⟨hnone.1, ?_⟩) hdeed
    exact congrArg (Option.map Tuple.ignoringFresh) hnone.2

/-- A caller that has taken a handle. -/
def equipped : Session String := (start 1 .insensitive true {}).run [.allocate]

/-- A value that is written twice, appended to, copied from elsewhere, removed and written again. -/
def revisions : List (Operation String) :=
  let a : Location := ⟨1, ⟨[some "a"]⟩⟩
  [.access (.write (.plainText 1 a.key "v") ⟨1000, 0⟩),
    .access (.write (.plainText 1 a.key "w") ⟨1001, 0⟩),
    .access (.append a.pattern [33] none ⟨1002, 0⟩),
    .access (.writeReplica { Tuple.plainText 2 a.key "r" with seqno := some 3 } ⟨1003, 0⟩),
    .access (.writeReplica { Tuple.plainText 2 a.key "old" with seqno := some 2 } ⟨1004, 0⟩),
    .access (.delete a none ⟨1005, 0⟩),
    .access (.write (.plainText 1 a.key "z") ⟨1006, 0⟩)]

theorem equipped_shows_stored :
    let p : Tuple := .locator none ⟨[some "a"]⟩
    let s₀ := equipped.step (.subscribe 1 ⟨p, .onWrite, some "seen"⟩)
    (shownTo 1 ((s₀.run revisions).space.fired.drop s₀.space.fired.length)).map
        (fun c => (c.2.owner, c.2.seqno, c.2.appends, c.2.fresh))
      = [(some 1, some 1, 0, some false), (some 1, some 2, 0, some false),
        (some 1, some 2, 1, some false), (some 2, some 3, 0, some false),
        (some 1, some 1, 0, some false)] ∧
    s₀.space.store.Logs (s₀.history revisions) (s₀.run revisions).space.store ∧
    Record.Numbered .checked
      (((s₀.history revisions).filter fun r => r.place = ⟨1, ⟨[some "a"]⟩⟩).take 3) := by
  intro p s₀
  have hreach : Reachable (fun _ _ => True) equipped :=
    ⟨1, .insensitive, true, {}, runs_run (by decide +kernel)⟩
  obtain ⟨hshown, hlogs, -, -, hnumbered⟩ :=
    Reachable.shows_stored hreach (x := 1) (by decide +kernel)
    p "seen" revisions (by decide +kernel)
  refine ⟨(congrArg (List.map _) hshown).trans (by decide +kernel), hlogs, ?_⟩
  exact hnumbered .checked (by decide +kernel) ⟨1, ⟨[some "a"]⟩⟩ [] _ _
    (List.take_append_drop 3 _).symm (.inl ⟨rfl, by decide +kernel⟩) (by decide +kernel)

/-! ## Losses -/

omit [Callback κ] in
/-- What a callback for removals from one place is shown. -/
theorem filterMap_heard_onDelete (policy : PayloadCase) {l : Location}
    (hl : l.key.isConcrete = true) (callback : κ) {rs : List Record}
    (hplaced : ∀ r ∈ rs, r.tuple.location = .ok r.place) :
    (rs.map Record.change).filterMap (heard policy ⟨l.pattern, .onDelete, some callback⟩)
      = (rs.filter (Record.TellsLoss l)).map fun r => (callback, r.tuple) := by
  rw [List.filterMap_map, ← List.filterMap_eq_map, List.filterMap_filter]
  refine List.filterMap_congr fun r hr => ?_
  have hcovers : l.pattern.covers policy r.tuple = true ↔ r.place = l :=
    Location.covers_pattern_iff_eq hl (hplaced r hr)
  obtain ⟨deed, place, tuple⟩ := r
  cases deed <;> simp [heard, Record.change, Deed.mode, Registry.concerns, Registry.delivered,
    Record.TellsLoss, hcovers]

/-- A callback for removals, registered for one place, is shown each loss of the value there once, and
with it the payload, the number and the key of the value stored there last. An operation shows a loss
if there is a value and it takes that away, which overwriting, appending to and failing do not. -/
theorem Reachable.shows_losses (h : Reachable guard s) (hx : s.Given x) {l : Location}
    (hl : l.key.isConcrete = true) (callback : κ) (ops : List (Operation κ))
    (hops : ∀ op ∈ ops, ¬ op.Names x) :
    let s₀ := s.step (.subscribe x ⟨l.pattern, .onDelete, some callback⟩)
    let after := s₀.run ops
    let history := s₀.history ops
    s₀.space.store.Logs history after.space.store ∧
    shownTo x (after.space.fired.drop s₀.space.fired.length)
      = (history.filter (Record.TellsLoss l)).map (fun r => (callback, r.tuple)) ∧
    (shownTo x (after.space.fired.drop s₀.space.fired.length)).length
      = Change.losses l s₀.space.store.content (history.map Record.change) ∧
    (∀ earlier r later, history = earlier ++ r :: later → r.TellsLoss l →
      ∃ t, Record.lastStored (s₀.space.peek l) l earlier = some t ∧
        r.tuple.payload = t.payload ∧ r.tuple.seqno = t.seqno ∧ r.tuple.key = t.key) ∧
    ∀ a, (shownTo x ((after.space.access a).fired.drop after.space.fired.length)).length
        = (if (after.space.peek l).isSome ∧ after.space.TakesAway l a then 1 else 0) ∧
      (after.space.reported a = [] → (after.space.access a).fired = after.space.fired) := by
  intro s₀ after history
  have hcoherent : s₀.space.Coherent := coherent_step h.coherent _
  have hsound : after.space.store.Sound := (coherent_run hcoherent ops).sound
  have hlogs := logs_run hcoherent ops
  have hserves := h.serves hx ⟨l.pattern, .onDelete, some callback⟩ hops
  have hshown : shownTo x (after.space.fired.drop s₀.space.fired.length)
      = (history.filter (Record.TellsLoss l)).map (fun r => (callback, r.tuple)) := by
    rw [hserves.shownTo_eq]
    exact filterMap_heard_onDelete _ hl callback (placed_history hcoherent)
  refine ⟨hlogs, hshown, ?_, ?_, fun a => ⟨?_, Space.fired_of_reported_nil hsound⟩⟩
  · rw [hshown, List.length_map, hlogs.chain.losses l, List.countP_eq_length_filter]
  · rintro earlier r later hsplit ⟨hremoval, rfl⟩
    have hchain : Record.Chain s₀.space.store.content (earlier ++ r :: later) :=
      hsplit ▸ show Record.Chain s₀.space.store.content history from hlogs.chain
    obtain ⟨t, ht, hsame⟩ : ∃ t,
        Change.replay (earlier.map Record.change) s₀.space.store.content r.place = some t ∧
        r.tuple.ignoringFresh = { t with expiry := r.tuple.expiry, creator := r.tuple.creator } := by
      simpa only [Record.Continues, hremoval] using hchain.of_split
    obtain ⟨u, hu, rfl⟩ := Record.lastStored_of_replay (s₀.space.peek r.place) rfl ht
    have hpayload := congrArg Tuple.payload hsame
    have hseqno := congrArg Tuple.seqno hsame
    have hkey := congrArg Tuple.key hsame
    exact ⟨u, hu, hpayload, hseqno, hkey⟩
  · have hbecomes := (Space.does_access hsound a).becomes
    have hplaced : ∀ r ∈ after.space.records a, r.tuple.location = .ok r.place := fun r hr =>
      hbecomes.placed r.change (List.mem_map_of_mem hr)
    rw [(serves_becomes hserves.owned hserves.entry hbecomes).shownTo_eq,
      filterMap_heard_onDelete _ hl callback hplaced, List.length_map,
      ← List.countP_eq_length_filter, Space.countP_records hsound]

/-- A value that is overwritten and removed, then removed in vain, and that comes back to expire. -/
def departures : List (Operation String) :=
  let a : Location := ⟨1, ⟨[some "a"]⟩⟩
  [.access (.write (.plainText 1 a.key "v") ⟨1000, 0⟩),
    .access (.write (.plainText 1 a.key "w") ⟨1001, 0⟩),
    .access (.delete a (some 2) ⟨1002, 0⟩),
    .access (.delete a none ⟨1003, 0⟩),
    .access (.write { Tuple.plainText 1 a.key "x" with expiry := some (.dueAt ⟨1005, 0⟩) } ⟨1004, 0⟩),
    .access (.expire ⟨1010, 0⟩)]

theorem equipped_shows_losses :
    let a : Location := ⟨1, ⟨[some "a"]⟩⟩
    let s₀ := equipped.step (.subscribe 1 ⟨a.pattern, .onDelete, some "gone"⟩)
    (shownTo 1 ((s₀.run departures).space.fired.drop s₀.space.fired.length)).map
        (fun c => (c.2.payload, c.2.seqno))
      = [(some (Text.octets "w"), some 2), (some (Text.octets "x"), some 1)] ∧
    Change.losses a s₀.space.store.content ((s₀.history departures).map Record.change) = 2 := by
  intro a s₀
  have hreach : Reachable (fun _ _ => True) equipped :=
    ⟨1, .insensitive, true, {}, runs_run (by decide +kernel)⟩
  obtain ⟨-, hshown, hlength, -⟩ := Reachable.shows_losses hreach (x := 1) (by decide +kernel)
    (l := a) rfl "gone" departures (by decide +kernel)
  exact ⟨(congrArg (List.map _) hshown).trans (by decide +kernel),
    hlength.symm.trans (by decide +kernel)⟩

end Session

end Blackboard
