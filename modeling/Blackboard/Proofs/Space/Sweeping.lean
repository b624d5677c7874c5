import Blackboard.Proofs.Store.Runs
import Blackboard.Proofs.Space.Listing
import Blackboard.Proofs.Space.Values

/-!
# Sweeps

A sweep finds what has expired through the index of deadlines, which knows nothing of a value that has the
mark of a deletion. No such value is ever stored: a tuple with the mark deletes where others are written,
and the changes of a value in place leave its expiry alone. So nothing that has expired escapes a sweep.

What a sweep finds is ordered by deadline, and a removal takes one deadline off the index. So a sweep
goes on where an earlier one stopped, and may as well be made in stages.
-/

namespace Blackboard

variable {κ : Type}

namespace Space

variable {s s' : Space κ}

/-! ## The mark of a deletion is not stored -/

/-- No value has the mark of a deletion. -/
def Unmarked (s : Space κ) : Prop := ∀ l t, s.peek l = some t → t.isDeletion = false

variable [Callback κ]

omit [Callback κ] in
theorem isDeletion_of_mem_renewal {changed : Key} {now : Timestamp} {r : Record}
    (h : r ∈ s.renewal changed now) : r.tuple.isDeletion = false := by
  rw [eq_of_mem_renewal h]
  rfl

/-- What an operation stores does not have the mark of a deletion. -/
theorem Unmarked.isDeletion_of_mem_records (hs : s.Unmarked) {a : Access} {r : Record}
    (h : r ∈ s.records a) (hr : r.deed ≠ .removal) : r.tuple.isDeletion = false := by
  obtain hremoval | ⟨_, _, _, hrenewal⟩ | ⟨t, now, l, -, hdel, rfl⟩ | ⟨t, now, l, -, hdel, rfl⟩ |
    ⟨_, _, _, _, -, c, hc, rfl⟩ := mem_records_cases h
  · exact absurd hremoval hr
  · exact isDeletion_of_mem_renewal hrenewal
  · exact hdel
  · exact hdel
  · obtain ⟨t, ht, -, -, htuple⟩ := mem_additions_iff.1 hc
    have hsame : c.tuple.isDeletion = t.isDeletion := by rw [htuple]; rfl
    exact hsame.trans (hs _ t ht)

/-! ## What is left after a sweep -/

theorem peek_purgeAll (s : Space κ) (ls : List Location) (l : Location) :
    (s.purgeAll ls).1.peek l = if l ∈ ls then none else s.peek l := by
  induction ls generalizing s with
  | nil => rfl
  | cons place rest ih =>
    rw [purgeAll]
    cases ht : s.store.peek place with
    | none =>
      refine (ih s).trans ?_
      by_cases heq : l = place
      · subst heq
        simp [show s.peek l = none from ht]
      · simp [heq]
    | some t =>
      refine (ih _).trans ?_
      rw [peek_purge]
      by_cases heq : l = place
      · simp [heq]
      · simp [heq]

/-- Once the values that are due are removed, a sweep may write the list of keys anew, and that is
all. -/
theorem expire_eq_or_renewed (hs : s.store.Sound) (now : Timestamp) :
    let purged := (s.purgeAll (s.store.due now)).1
    (s.expire now).1 = purged ∨
      (s.expire now).1.Renewed ∧ ∀ l, l ≠ s.listingPlace → (s.expire now).1.peek l = purged.peek l := by
  intro purged
  have hid : purged.localId = s.localId := (becomes_purgeAll hs (hs.nodup_due now)).1.localId
  rw [(expire_fst hs now).2]
  split
  next c _ =>
    split
    next =>
      by_cases hskip : purged.keepsListing = false ∨ c.tuple.key.render = listingName
      · exact .inl (refreshListing_of_eq hskip now)
      · obtain ⟨hkeep, hne⟩ := not_or.1 hskip
        replace hkeep : purged.keepsListing = true := by simpa using hkeep
        refine .inr ⟨renewed_refreshListing hkeep hne now, fun l hl => ?_⟩
        obtain ⟨t, -, -, -, heq⟩ := refreshListing_of_keepsListing hkeep hne now
        have hplace : purged.listingPlace = s.listingPlace := congrArg (Location.mk · listingKey) hid
        rw [heq, peek_stored, hplace, if_neg hl]
    next => exact .inl rfl
  next => exact .inl rfl

theorem expire_of_due_eq_nil {now : Timestamp} (h : s.store.due now = []) :
    s.expire now = (s, []) := by
  rw [expire, h]
  rfl

omit [Callback κ] in
/-- The value at a location has a deadline, and it has been reached. -/
def Expired (s : Space κ) (now : Timestamp) (l : Location) : Prop :=
  ∃ t time, s.peek l = some t ∧ t.expiry = some (.dueAt time) ∧ time.le now = true

omit [Callback κ] in
theorem mem_due_iff (hs : s.store.Sound) {now : Timestamp} {l : Location} :
    l ∈ s.store.due now ↔ s.Expired now l := by
  obtain ⟨ds, hdue, -, hmem⟩ := hs.due_spec now
  rw [hdue, List.mem_map]
  constructor
  · rintro ⟨d, hd, rfl⟩
    obtain ⟨hle, t, ht, hexpiry⟩ := (hmem d).1 hd
    exact ⟨t, d.time, ht, hexpiry, hle⟩
  · rintro ⟨t, time, ht, hexpiry, hle⟩
    exact ⟨⟨time, l⟩, (hmem _).2 ⟨hle, t, ht, hexpiry⟩, rfl⟩

/-- Every location keeps its value unless that has expired. The list of keys may be written anew. -/
theorem peek_expire (hs : s.store.Sound) (now : Timestamp) (l : Location) :
    (∀ t, (s.expire now).1.peek l = some t ↔ s.peek l = some t ∧ ¬ s.Expired now l) ∨
      l = s.listingPlace ∧ (s.expire now).1.Renewed := by
  have hpurged (t : Tuple) : (s.purgeAll (s.store.due now)).1.peek l = some t ↔
      s.peek l = some t ∧ ¬ s.Expired now l := by
    rw [peek_purgeAll, ← mem_due_iff hs]
    split
    next hdue => simp [hdue]
    next hdue => simp [hdue]
  rcases expire_eq_or_renewed hs now with heq | ⟨hrenewed, hothers⟩
  · exact .inl fun t => heq ▸ hpurged t
  · by_cases hl : l = s.listingPlace
    · exact .inr ⟨hl, hrenewed⟩
    · exact .inl fun t => hothers l hl ▸ hpurged t

omit [Callback κ] in
/-- What the callers are told of removals are the values as they were stored. -/
theorem tuples_removals {ls : List Location} (h : ∀ l ∈ ls, ∃ t, s.peek l = some t) :
    (s.removals ls).map (fun c => some c.tuple) = ls.map s.peek := by
  rw [removals, List.map_filterMap, ← List.filterMap_eq_map]
  refine List.filterMap_congr fun l hl => ?_
  obtain ⟨t, ht⟩ := h l hl
  rw [Function.comp_apply, ht]
  rfl

/-- A sweep reports the values that have expired, in the order of their deadlines. -/
theorem tuples_expire (hs : s.store.Sound) (now : Timestamp) :
    ∃ ds : List Deadline, ds.Pairwise (fun a b => compare a b = .lt) ∧
      (∀ d, d ∈ ds ↔ d.time.le now = true ∧
        ∃ t, s.peek d.location = some t ∧ t.expiry = some (.dueAt d.time)) ∧
      (s.expire now).2.map (·.tuple) = ds.map fun d => s.peek d.location := by
  obtain ⟨ds, hdue, hsorted, hmem⟩ := hs.due_spec now
  refine ⟨ds, hsorted, hmem, ?_⟩
  have hstored : ∀ l ∈ s.store.due now, ∃ t, s.peek l = some t := by
    intro l hl
    obtain ⟨t, -, ht, -⟩ := hs.mem_due hl
    exact ⟨t, ht⟩
  rw [(expire_fst hs now).1, (becomes_purgeAll hs (hs.nodup_due now)).2, tuples_removals hstored, hdue,
    List.map_map]
  rfl

omit [Callback κ] in
/-- A value without the mark of a deletion is due only once its deadline is reached. -/
theorem isDue_of_not_expired {now : Timestamp} {l : Location} {t : Tuple} {e : Expiry}
    (hs : s.Unmarked) (ht : s.peek l = some t) (he : t.expiry = some e)
    (h : ¬ s.Expired now l) : e.isDue now = false := by
  cases e with
  | never => rfl
  | immediately =>
    have hmarked : t.isDeletion = true := by rw [Tuple.isDeletion, he]; rfl
    exact nomatch (hs l t ht).symm.trans hmarked
  | dueAt time =>
    refine Bool.eq_false_iff.2 fun hle => h ?_
    exact ⟨t, time, ht, he, hle⟩

/-- A sweep leaves nothing behind that is due. -/
theorem isDue_after_expire (hs : s.store.Sound) (hmarks : s.Unmarked) {now : Timestamp} {l : Location}
    {t : Tuple} {e : Expiry} (ht : (s.expire now).1.peek l = some t) (he : t.expiry = some e) :
    e.isDue now = false := by
  rcases peek_expire hs now l with hkept | ⟨rfl, u, hu, -, hnever⟩
  · obtain ⟨hbefore, hlasting⟩ := (hkept t).1 ht
    exact isDue_of_not_expired hmarks hbefore he hlasting
  · -- The new list of keys has no deadline.
    obtain ⟨changes, hbecomes, -⟩ := becomes_expire hs now
    have hplace : (s.expire now).1.listingPlace = s.listingPlace :=
      congrArg (Location.mk · listingKey) hbecomes.localId
    have hcontent : (s.expire now).1.store.content s.listingPlace = some t.ignoringFresh :=
      congrArg (Option.map Tuple.ignoringFresh) ht
    rw [hplace, hcontent] at hu
    obtain rfl := Option.some.inj hu
    obtain rfl := Option.some.inj (he.symm.trans hnever)
    rfl

theorem due_after_expire (hs : s.store.Sound) (hmarks : s.Unmarked) (now : Timestamp) :
    (s.expire now).1.store.due now = [] := by
  obtain ⟨changes, hbecomes, -⟩ := becomes_expire hs now
  refine List.eq_nil_iff_forall_not_mem.2 fun l hl => ?_
  obtain ⟨t, time, ht, hexpiry, hle⟩ := (mem_due_iff hbecomes.sound).1 hl
  exact nomatch (isDue_after_expire hs hmarks ht hexpiry).symm.trans hle

/-! ## Sweeping in stages -/

theorem purgeAll_append (s : Space κ) (xs ys : List Location) :
    s.purgeAll (xs ++ ys) = (((s.purgeAll xs).1.purgeAll ys).1,
      (s.purgeAll xs).2 ++ ((s.purgeAll xs).1.purgeAll ys).2) := by
  induction xs generalizing s with
  | nil => rfl
  | cons l rest ih =>
    rw [List.cons_append, purgeAll, purgeAll]
    cases s.store.peek l with
    | none => exact ih s
    | some t =>
      dsimp only
      rw [ih]
      rfl

/-- A sweep adds to the log of callbacks and takes nothing from it. -/
theorem prefix_fired_purgeAll (s : Space κ) (ls : List Location) :
    s.fired <+: (s.purgeAll ls).1.fired := by
  induction ls generalizing s with
  | nil => exact List.prefix_rfl
  | cons l rest ih =>
    rw [purgeAll]
    cases s.store.peek l with
    | none => exact ih s
    | some t =>
      have hfirst : s.fired <+: (s.purge l t).1.fired := List.prefix_append ..
      exact hfirst.trans (ih _)

/-- Without a list of keys, a sweep removes what is due and does nothing else. -/
theorem expire_eq_purgeAll (hs : s.store.Sound) (hkeep : s.keepsListing = false) (now : Timestamp) :
    s.expire now = s.purgeAll (s.store.due now) := by
  obtain ⟨hmutations, hspace⟩ := expire_fst hs now
  refine Prod.ext (hspace.trans ?_) hmutations
  have hpurged := (becomes_purgeAll hs (hs.nodup_due now)).1.keepsListing.trans hkeep
  split
  next c _ => rw [refreshListing_of_eq (.inl hpurged), ite_self]
  next => rfl

omit [Callback κ] in
/-- A deadline that is reached by a time comes before one that is not. -/
theorem compare_deadlines {d e : Deadline} {now : Timestamp} (hd : d.time.le now = true)
    (he : ¬ e.time.le now = true) : compare d e = .lt := by
  have hlater : compare now e.time = .lt := by
    rw [Timestamp.le, Ordering.isLE_iff_ne_gt, not_not] at he
    exact Std.OrientedCmp.gt_iff_lt.1 he
  rw [Deadline.compare_eq, Std.TransCmp.lt_of_isLE_of_lt hd hlater]
  rfl

omit [Callback κ] in
/-- A value has this deadline. -/
def Scheduled (s : Space κ) (d : Deadline) : Prop :=
  ∃ t, s.peek d.location = some t ∧ t.expiry = some (.dueAt d.time)

omit [Callback κ] in
/-- A value has no other deadline that could make it due. -/
theorem Scheduled.mem_due_iff (hs : s.store.Sound) {d : Deadline} (hd : s.Scheduled d)
    (now : Timestamp) : d.location ∈ s.store.due now ↔ d.time.le now = true := by
  obtain ⟨t, ht, hexpiry⟩ := hd
  rw [Space.mem_due_iff hs]
  constructor
  · rintro ⟨u, time, hu, hother, htime⟩
    obtain rfl := Option.some.inj (ht.symm.trans hu)
    rw [hexpiry] at hother
    cases hother
    exact htime
  · exact fun htime => ⟨t, d.time, ht, hexpiry, htime⟩

theorem scheduled_purgeAll_iff (hs : s.store.Sound) (now : Timestamp) (d : Deadline) :
    (s.purgeAll (s.store.due now)).1.Scheduled d ↔ s.Scheduled d ∧ ¬ d.time.le now = true := by
  have hkept : (s.purgeAll (s.store.due now)).1.Scheduled d ↔
      s.Scheduled d ∧ d.location ∉ s.store.due now := by
    rw [Scheduled, Scheduled, peek_purgeAll]
    split
    next hdue => simp [hdue]
    next hdue => simp [hdue]
  rw [hkept]
  exact and_congr_right fun hd => not_congr (hd.mem_due_iff hs now)

/-- What is due at some time is what was due earlier, and what is due then once that is removed. -/
theorem due_append (hs : s.store.Sound) {t₁ t₂ : Timestamp} (hle : t₁.le t₂ = true) :
    s.store.due t₂
      = s.store.due t₁ ++ (s.purgeAll (s.store.due t₁)).1.store.due t₂ := by
  have hpurged := (becomes_purgeAll hs (hs.nodup_due t₁)).1.sound
  obtain ⟨early, hearly, hsortedEarly, hmemEarly⟩ := hs.due_spec t₁
  obtain ⟨late, hlate, hsortedLate, hmemLate⟩ := hpurged.due_spec t₂
  obtain ⟨all, hall, hsorted, hmem⟩ := hs.due_spec t₂
  have hfirst (d : Deadline) : d ∈ early ↔ d ∈ all ∧ d.time.le t₁ = true := by
    rw [hmemEarly, hmem]
    constructor
    · exact fun h => ⟨⟨Std.TransCmp.isLE_trans h.1 hle, h.2⟩, h.1⟩
    · exact fun h => ⟨h.2, h.1.2⟩
  have hsecond (d : Deadline) : d ∈ late ↔ d ∈ all ∧ ¬ d.time.le t₁ = true := by
    rw [hmemLate, hmem, and_assoc]
    exact and_congr_right fun _ => scheduled_purgeAll_iff hs t₁ d
  have hsplit : all = early ++ late := by
    refine Table.eq_of_mem_iff hsorted (List.pairwise_append.2 ⟨hsortedEarly, hsortedLate, ?_⟩) ?_
    · intro d hd e he
      exact compare_deadlines ((hfirst d).1 hd).2 ((hsecond e).1 he).2
    · intro d
      rw [List.mem_append, hfirst, hsecond, ← and_or_left]
      exact (and_iff_left (Decidable.em _)).symm
  rw [hall, hsplit, List.map_append, ← hearly, ← hlate]

theorem expire_expire (hs : s.store.Sound) (hkeep : s.keepsListing = false) {t₁ t₂ : Timestamp}
    (hle : t₁.le t₂ = true) :
    s.expire t₂ = (((s.expire t₁).1.expire t₂).1, (s.expire t₁).2 ++ ((s.expire t₁).1.expire t₂).2) := by
  have hpurged := (becomes_purgeAll hs (hs.nodup_due t₁)).1
  have hlater := expire_eq_purgeAll hpurged.sound (hpurged.keepsListing.trans hkeep) t₂
  rw [expire_eq_purgeAll hs hkeep t₁, hlater, expire_eq_purgeAll hs hkeep t₂, due_append hs hle,
    purgeAll_append]

end Space

namespace Session

variable [Callback κ] {guard : Session κ → Operation κ → Prop} {s : Session κ}

theorem Reachable.unmarked (h : Reachable guard s) : s.space.Unmarked :=
  h.allValues (P := fun t => t.isDeletion = false) (fun _ => Iff.rfl) fun _ hspace _ _ _ hr =>
    .of_tuple (Space.Unmarked.isDeletion_of_mem_records hspace hr)

/-- A sweep removes the values whose deadline has been reached and reports each, earliest first and then
by location. All other values stay as they are, but for the list of keys, which may be written anew. No
value that is left is due, so that a second sweep at the same time does nothing. -/
theorem Reachable.sweeps_expired (h : Reachable guard s) (now : Timestamp) :
    let space := s.space
    let after := (space.expire now).1
    (∃ ds : List Deadline, ds.Pairwise (fun a b => compare a b = .lt) ∧
      (∀ d, d ∈ ds ↔ d.time.le now = true ∧
        ∃ t, space.peek d.location = some t ∧ t.expiry = some (.dueAt d.time)) ∧
      (space.expire now).2.map (·.tuple) = ds.map fun d => space.peek d.location) ∧
    (∀ l, (∀ t, after.peek l = some t ↔ space.peek l = some t ∧ ¬ space.Expired now l) ∨
      l = space.listingPlace ∧ after.Renewed) ∧
    (∀ l t e, after.peek l = some t → t.expiry = some e → e.isDue now = false) ∧
    after.expire now = (after, []) := by
  intro space after
  have hs := h.coherent.sound
  refine ⟨Space.tuples_expire hs now, Space.peek_expire hs now, fun l t e => ?_, ?_⟩
  · exact Space.isDue_after_expire hs h.unmarked
  · exact Space.expire_of_due_eq_nil (Space.due_after_expire hs h.unmarked now)

/-- Values that expire at different times, a copy of another process's among them, and one that does
not expire. -/
def fading : Session String :=
  let at5 := some (Expiry.dueAt ⟨1005, 0⟩)
  (start 1 .insensitive true {}).run
    [.access (.write { Tuple.plainText 1 ⟨[some "a"]⟩ "v" with expiry := at5 } ⟨1000, 0⟩),
      .access (.writeReplica
        { Tuple.plainText 2 ⟨[some "a"]⟩ "w" with expiry := some (.dueAt ⟨1003, 7⟩) } ⟨1000, 0⟩),
      .access (.write { Tuple.plainText 1 ⟨[some "b"]⟩ "v" with expiry := at5 } ⟨1001, 0⟩),
      .access (.write (.plainText 1 ⟨[some "b"]⟩ "w") ⟨1002, 0⟩)]

/-- The value that replaced an expiring one outlives the sweep. -/
theorem fading_sweeps_expired :
    let space := fading.space
    let after := (space.expire ⟨1005, 0⟩).1
    Reachable Allows fading ∧
    (space.expire ⟨1005, 0⟩).2.map (·.tuple)
      = [space.peek ⟨2, ⟨[some "a"]⟩⟩, space.peek ⟨1, ⟨[some "a"]⟩⟩] ∧
    (∀ t, after.peek ⟨1, ⟨[some "b"]⟩⟩ = some t ↔ space.peek ⟨1, ⟨[some "b"]⟩⟩ = some t ∧
      ¬ space.Expired ⟨1005, 0⟩ ⟨1, ⟨[some "b"]⟩⟩) ∧
    after.expire ⟨1005, 0⟩ = (after, []) := by
  intro space after
  have hreach : Reachable Allows fading := ⟨1, .insensitive, true, {}, runs_run (by decide +kernel)⟩
  obtain ⟨-, hkept, -, hagain⟩ := hreach.sweeps_expired ⟨1005, 0⟩
  refine ⟨hreach, by decide +kernel, ?_, hagain⟩
  exact (hkept ⟨1, ⟨[some "b"]⟩⟩).resolve_right fun h => absurd h.1 (by decide)

/-- Where no list of keys is kept, a sweep may be made in two stages, the first one earlier. Together
they report what a single sweep reports, run the same callbacks on the same values in the same order,
and leave the same space. -/
theorem Reachable.sweeps_in_stages (h : Reachable guard s) (hkeep : s.space.keepsListing = false)
    {t₁ t₂ : Timestamp} (hle : t₁.le t₂ = true) :
    let early := s.space.expire t₁
    let late := early.1.expire t₂
    let single := s.space.expire t₂
    early.2 ++ late.2 = single.2 ∧
    (∃ xs ys, early.1.fired = s.space.fired ++ xs ∧ late.1.fired = early.1.fired ++ ys ∧
      single.1.fired = s.space.fired ++ (xs ++ ys)) ∧
    late.1 = single.1 := by
  intro early late single
  have hs := h.coherent.sound
  have hsingle : single = (late.1, early.2 ++ late.2) := Space.expire_expire hs hkeep hle
  have hearly : early = s.space.purgeAll (s.space.store.due t₁) :=
    Space.expire_eq_purgeAll hs hkeep t₁
  have hpurged := (Space.becomes_purgeAll hs (hs.nodup_due t₁)).1
  rw [← hearly] at hpurged
  have hlate : late = early.1.purgeAll (early.1.store.due t₂) :=
    Space.expire_eq_purgeAll hpurged.sound (hpurged.keepsListing.trans hkeep) t₂
  obtain ⟨xs, hxs⟩ : s.space.fired <+: early.1.fired := hearly ▸ Space.prefix_fired_purgeAll ..
  obtain ⟨ys, hys⟩ : early.1.fired <+: late.1.fired := hlate ▸ Space.prefix_fired_purgeAll ..
  refine ⟨(congrArg Prod.snd hsingle).symm, ⟨xs, ys, hxs.symm, hys.symm, ?_⟩,
    (congrArg Prod.fst hsingle).symm⟩
  rw [hsingle, ← List.append_assoc, hxs, hys]

/-- A meta tuple that a subscription is bound through, the value that it names, and another value. They
expire in this order or at the same time. -/
def dwindling : Session String :=
  let m : Location := ⟨1, ⟨[some "m"]⟩⟩
  let x : Reference := ⟨⟨2, ⟨[some "x"]⟩⟩, isConcrete_x⟩
  let at5 := some (Expiry.dueAt ⟨1005, 0⟩)
  (start 1 .insensitive false {}).run
    [.allocate, .allocate, .subscribe 1 ⟨.pattern, .onDelete, some "gone"⟩,
      .access (.write { Reference.metaTuple m (some x) with expiry := some (.dueAt ⟨1003, 0⟩) }
        ⟨1000, 0⟩),
      .subscribeIndirect 2 m.pattern (some "moved"),
      .access (.writeReplica { Tuple.plainText 2 x.location.key "v" with expiry := at5 } ⟨1001, 0⟩),
      .access (.write { Tuple.plainText 1 ⟨[some "a"]⟩ "w" with expiry := at5 } ⟨1002, 0⟩)]

/-- The first stage removes the meta tuple and unbinds the subscription, the second one the rest. -/
theorem dwindling_sweeps_in_stages :
    let early := dwindling.space.expire ⟨1003, 0⟩
    let late := early.1.expire ⟨1005, 0⟩
    let single := dwindling.space.expire ⟨1005, 0⟩
    Reachable Allows dwindling ∧ dwindling.space.keepsListing = false ∧
    (dwindling.space.indirectTarget 2).isSome = true ∧ early.1.indirectTarget 2 = none ∧
    early.2.map (·.callbacks) = [1] ∧ late.2.map (·.callbacks) = [1, 1] ∧
    early.2 ++ late.2 = single.2 ∧ late.1 = single.1 := by
  intro early late single
  have hreach : Reachable Allows dwindling :=
    ⟨1, .insensitive, false, {}, runs_run (by decide +kernel)⟩
  have hkeep : dwindling.space.keepsListing = false := by decide +kernel
  obtain ⟨hreports, -, hspace⟩ := Reachable.sweeps_in_stages hreach hkeep
    (by decide : Timestamp.le ⟨1003, 0⟩ ⟨1005, 0⟩ = true)
  exact ⟨hreach, hkeep, by decide +kernel, by decide +kernel, by decide +kernel, by decide +kernel,
    hreports, hspace⟩

end Session

end Blackboard
