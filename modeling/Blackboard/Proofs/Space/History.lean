import Blackboard.Proofs.Space.Session

/-!
# The history of a session

A record is one change with what brought it about. `records` gives the records of an operation, read
off the space before it. `Does` says that a space turned into another by some records and no others:
the changes are those of the records, the store counted each of them, and each record goes on from the
value that was at its place before.

There is one lemma for each operation. What holds for all histories then follows from `Does.trans`.
-/

namespace Blackboard

variable {κ : Type}

/-- What brought a change about. Renewing the list of keys is a write. -/
inductive Deed where
  | write
  | copy
  | append
  | removal
  deriving DecidableEq, Repr

/-- A value that was stored or removed, as the callbacks concerned see it. -/
structure Record where
  deed : Deed
  place : Location
  tuple : Tuple
  deriving DecidableEq, Repr

def Deed.mode : Deed → Mode
  | .write | .copy | .append => .onWrite
  | .removal => .onDelete

namespace Record

def change (r : Record) : Change := ⟨r.deed.mode, r.place, r.tuple⟩

def ofChange (deed : Deed) (c : Change) : Record := ⟨deed, c.place, c.tuple⟩

theorem map_change_ofChange {deed : Deed} {changes : List Change}
    (h : ∀ c ∈ changes, c.mode = deed.mode) :
    (changes.map (ofChange deed)).map change = changes := by
  rw [List.map_map]
  refine (List.map_congr_left fun c hc => ?_).trans (List.map_id _)
  show (⟨deed.mode, c.place, c.tuple⟩ : Change) = c
  rw [← h c hc]

theorem outcome_change (r : Record) :
    r.change.outcome = if r.deed = .removal then none else some r.tuple.ignoringFresh := by
  obtain ⟨deed, place, tuple⟩ := r
  cases deed <;> rfl

/-! ## What a record goes on from -/

/-- How a record relates to the value at its place before. A write has the next number, an append
keeps the number, a copy has a higher one or the next, and a removal shows the value but for who removed
it. -/
def Continues (before : Option Tuple) (r : Record) : Prop :=
  match r.deed with
  | .write =>
    r.tuple.seqno = some ((before.bind (·.seqno)).elim 1 (nextCount UInt64.size)) ∧
      r.tuple.appends = 0
  | .copy =>
    ∃ n, r.tuple.seqno = some n ∧
      ∀ held ∈ before.bind (·.seqno), held < n ∨ n = nextCount UInt64.size held
  | .append => ∃ t, before = some t ∧ r.tuple.seqno = t.seqno ∧
    r.tuple.appends = nextCount UInt32.size t.appends
  | .removal => ∃ t, before = some t ∧
    r.tuple.ignoringFresh = { t with expiry := r.tuple.expiry, creator := r.tuple.creator }

/-- True if a count passes its end with a record. The number of a copy may be one that its owner gave
it, but none of those comes after the last. -/
def PassesEnd (before : Option Tuple) (r : Record) : Prop :=
  match r.deed with
  | .write | .copy => ∃ n ∈ before.bind (·.seqno), IsLastCount UInt64.size n
  | .append => ∃ t ∈ before, IsLastCount UInt32.size t.appends
  | .removal => False

instance (before : Option Tuple) : DecidablePred (PassesEnd before)
  | ⟨.write, _, _⟩ | ⟨.copy, _, _⟩ =>
    inferInstanceAs (Decidable (∃ n ∈ before.bind (·.seqno), IsLastCount UInt64.size n))
  | ⟨.append, _, _⟩ =>
    inferInstanceAs (Decidable (∃ t ∈ before, IsLastCount UInt32.size t.appends))
  | ⟨.removal, _, _⟩ => inferInstanceAs (Decidable False)

/-- Each record has a property together with the value that those before it left at its place. -/
def Along (P : Option Tuple → Record → Prop) : (Location → Option Tuple) → List Record → Prop
  | _, [] => True
  | contents, r :: rest => P (contents r.place) r ∧
    Along P (Function.update contents r.place r.change.outcome) rest

/-- Each record goes on from what those before it left. -/
abbrev Chain : (Location → Option Tuple) → List Record → Prop :=
  Along fun before r => r.Continues before

/-- No count passes its end with any of the records. -/
abbrev Within : (Location → Option Tuple) → List Record → Prop :=
  Along fun before r => ¬ r.PassesEnd before

namespace Along

variable {P : Option Tuple → Record → Prop} {contents : Location → Option Tuple}
  {rs xs ys : List Record}

instance decidable [∀ before, DecidablePred (P before)] :
    (contents : Location → Option Tuple) → (rs : List Record) → Decidable (Along P contents rs)
  | _, [] => .isTrue trivial
  | contents, r :: rest =>
    have := decidable (Function.update contents r.place r.change.outcome) rest
    inferInstanceAs (Decidable (P (contents r.place) r ∧
      Along P (Function.update contents r.place r.change.outcome) rest))

theorem append_iff : Along P contents (xs ++ ys) ↔
    Along P contents xs ∧ Along P (Change.replay (xs.map change) contents) ys := by
  induction xs generalizing contents with
  | nil => simp [Along]
  | cons r rest ih =>
    rw [List.cons_append, Along, ih, Along, and_assoc]
    rfl

/-- The records of one place go on from each other. -/
theorem filter (h : Along P contents rs) (l : Location) :
    Along P contents (rs.filter fun r => r.place = l) := by
  -- Only what is at the place matters, so the contents may differ elsewhere.
  suffices ∀ contents', contents' l = contents l →
      Along P contents' (rs.filter fun r => r.place = l) from this contents rfl
  induction rs generalizing contents with
  | nil => exact fun _ _ => trivial
  | cons r rest ih =>
    intro contents' hsame
    by_cases hr : r.place = l
    · rw [List.filter_cons_of_pos (by simpa using hr)]
      subst hr
      refine ⟨hsame ▸ h.1, ih h.2 _ ?_⟩
      rw [Function.update_self, Function.update_self]
    · rw [List.filter_cons_of_neg (by simpa using hr)]
      refine ih h.2 contents' ?_
      rw [hsame, Function.update_of_ne (Ne.symm hr)]

/-- Records of different places do not meet. -/
theorem of_distinct (hdistinct : rs.Pairwise fun a b => a.place ≠ b.place)
    (h : ∀ r ∈ rs, P (contents r.place) r) : Along P contents rs := by
  induction rs generalizing contents with
  | nil => trivial
  | cons r rest ih =>
    obtain ⟨hr, hrest⟩ := List.pairwise_cons.1 hdistinct
    refine ⟨h r List.mem_cons_self, ih hrest fun q hq => ?_⟩
    rw [Function.update_of_ne (hr q hq).symm]
    exact h q (List.mem_cons_of_mem _ hq)

theorem of_split {r : Record} (h : Along P contents (xs ++ r :: ys)) :
    P (Change.replay (xs.map change) contents r.place) r :=
  (append_iff.1 h).2.1

end Along

/-- A record goes on from the value before it, and a program built in this way has not stopped at it. -/
def Steps (build : Build) (before : Option Tuple) (r : Record) : Prop :=
  r.Continues before ∧ (build = .checked → ¬ r.PassesEnd before)

theorem Chain.steps {build : Build} {contents : Location → Option Tuple} {rs : List Record}
    (h : Chain contents rs) (hwithin : build = .checked → Within contents rs) :
    Along (Steps build) contents rs := by
  induction rs generalizing contents with
  | nil => trivial
  | cons r rest ih => exact ⟨⟨h.1, fun hb => (hwithin hb).1⟩, ih h.2 fun hb => (hwithin hb).2⟩

theorem Steps.seqno_eq {build : Build} {before : Option Tuple} {r : Record} (h : r.Steps build before)
    (hwrite : r.deed = .write) : r.tuple.seqno
      = some ((before.bind (·.seqno)).elim 1 fun n => build.shows UInt64.size (n + 1)) := by
  obtain ⟨hcontinues, hwithin⟩ := h
  simp only [Continues, PassesEnd, hwrite] at hcontinues hwithin
  rw [hcontinues.1]
  cases hheld : before.bind (·.seqno) with
  | none => rfl
  | some n => exact congrArg some (Build.nextCount_eq fun hb hlast => hwithin hb ⟨n, hheld, hlast⟩)

theorem Steps.appends_eq {build : Build} {before : Option Tuple} {r : Record}
    (h : r.Steps build before) (happend : r.deed = .append) :
    ∃ t, before = some t ∧ r.tuple.seqno = t.seqno ∧
      r.tuple.appends = build.shows UInt32.size (t.appends + 1) := by
  obtain ⟨hcontinues, hwithin⟩ := h
  simp only [Continues, PassesEnd, happend] at hcontinues hwithin
  obtain ⟨t, rfl, hseqno, happends⟩ := hcontinues
  exact ⟨t, rfl, hseqno,
    happends.trans (Build.nextCount_eq fun hb hlast => hwithin hb ⟨t, rfl, hlast⟩)⟩

end Record

namespace Store

/-- True if a copy is newer than the value held, as far as both have a number. -/
def accepts (s : Store) (l : Location) (t : Tuple) : Bool :=
  match t.seqno, (s.peek l).bind (·.seqno) with
  | some incoming, some held => held < incoming
  | _, _ => true

theorem insertReplica_eq {s : Store} {l : Location} {t : Tuple} (hl : t.location = .ok l)
    (now : Timestamp) : s.insertReplica t now = .ok (if s.accepts l t
      then ((s.put l (s.copied l t now)).1, some (s.put l (s.copied l t now)).2) else (s, none)) := by
  rw [insertReplica, hl, accepts]
  simp only [bind, Except.bind, pure, Except.pure]
  split
  next incoming held hseq hheld =>
    simp only [hseq, hheld]
    by_cases hle : incoming ≤ held
    · simp [hle, Nat.not_lt_of_le hle]
    · simp [hle, Nat.lt_of_not_le hle, copied, hseq]
  next incoming hseq hheld => simp [hseq, hheld, copied]
  next hseq => simp [hseq, copied]

/-! ## Reading counts no change -/

theorem stats_markSeen (s : Store) (l : Location) : (s.markSeen l).stats = s.stats := by
  rw [markSeen]
  split
  next => rfl
  next => rfl

theorem counts_get {s s' : Store} {l : Location} {onlyFresh : Bool} {found : Option Tuple}
    (h : s.get l onlyFresh = .ok (s', found)) :
    s'.stats.writes = s.stats.writes ∧ s'.stats.removals = s.stats.removals := by
  rcases get_cases h with rfl | rfl
  · exact ⟨rfl, rfl⟩
  · rw [stats_markSeen]
    exact ⟨rfl, rfl⟩

theorem counts_first (s : Store) (p : Tuple) :
    (s.first p).1.stats.writes = s.stats.writes ∧
      (s.first p).1.stats.removals = s.stats.removals := by
  rcases s.first_cases p with h | ⟨l, h⟩ <;> rw [h]
  · exact ⟨rfl, rfl⟩
  · rw [stats_markSeen]
    exact ⟨rfl, rfl⟩

end Store

namespace Space

variable [Callback κ]

/-! ## The records of an operation -/

omit [Callback κ] in
def written (s : Space κ) (l : Location) (t : Tuple) (now : Timestamp) : Record :=
  ⟨.write, l, { s.store.numbered l t now with fresh := some true }⟩

/-- The record of a new list of keys, unless it is the list itself that changed. -/
def renewal (s : Space κ) (changed : Key) (now : Timestamp) : List Record :=
  if !s.keepsListing || changed.render = listingName then []
  else [s.written s.listingPlace (Tuple.plainText s.localId listingKey s.listing) now]

def deletion (s : Space κ) (l : Location) (remover : Option Owner) (now : Timestamp) :
    List Record :=
  match s.peek l with
  | none => []
  | some t =>
    let marked := { t with expiry := some .immediately, creator := remover.or t.creator }
    ⟨.removal, l, marked⟩ ::
      if l.owner = s.localId then (s.purge l marked).1.renewal l.key now else []

/-- The records of a deletion that a tuple with the mark of one asks for. -/
def markedDeletion (s : Space κ) (t : Tuple) (now : Timestamp) : List Record :=
  match t.owner with
  | none => []
  | some owner => s.deletion ⟨owner, t.key⟩ t.creator now

/-- The records of an operation, in the order in which the changes are made. -/
def records (s : Space κ) : Access → List Record
  | .write t now =>
    if t.isDeletion then s.markedDeletion t now
    else match t.location with
      | .error _ => []
      | .ok l => s.written l t now ::
        if (s.peek l).isNone then (s.stored l (s.store.numbered l t now)).renewal t.key now else []
  | .writeReplica t now =>
    if t.isDeletion then s.markedDeletion t now
    else match t.location with
      | .error _ => []
      | .ok l =>
        if s.store.accepts l t then
          [⟨.copy, l, { s.store.copied l t now with fresh := some true }⟩]
        else []
  | .delete l remover now => s.deletion l remover now
  | .expire now =>
    let due := s.store.due now
    (s.removals due).map (.ofChange .removal) ++ match (s.removals due).getLast? with
      | some c =>
        if due.any fun l => l.owner = s.localId then (s.purgeAll due).1.renewal c.tuple.key now
        else []
      | none => []
  | .append p suffix expected now =>
    (s.additions { p with owner := some s.localId } suffix expected now).map (.ofChange .append)
  | .get _ _ | .search _ | .first _ => []

/-- An operation returns in every build without overflow checks. In one with them it does so unless a
count passes its end. -/
def Returns (s : Space κ) (build : Build) (a : Access) : Prop :=
  build = .checked → Record.Within s.store.content (s.records a)

instance (s : Space κ) (build : Build) (a : Access) : Decidable (s.Returns build a) :=
  inferInstanceAs (Decidable (build = .checked → Record.Within s.store.content (s.records a)))

omit [Callback κ] in
theorem eq_of_mem_renewal {s : Space κ} {changed : Key} {now : Timestamp} {r : Record}
    (h : r ∈ s.renewal changed now) :
    r = s.written s.listingPlace (Tuple.plainText s.localId listingKey s.listing) now := by
  rw [renewal] at h
  split at h
  next => cases h
  next => exact List.mem_singleton.1 h

omit [Callback κ] in
theorem deed_of_mem_renewal {s : Space κ} {changed : Key} {now : Timestamp} {r : Record}
    (h : r ∈ s.renewal changed now) : r.deed = .write := by
  rw [eq_of_mem_renewal h]
  rfl

/-- A deletion is recorded as one, and a new list of keys may follow. -/
theorem mem_deletion {s : Space κ} {l : Location} {remover : Option Owner} {now : Timestamp}
    {r : Record} (h : r ∈ s.deletion l remover now) :
    r.deed = .removal ∨ ∃ space : Space κ, r ∈ space.renewal l.key now := by
  rw [deletion] at h
  split at h
  next => cases h
  next =>
    rcases List.mem_cons.1 h with rfl | h
    · exact .inl rfl
    · split at h
      next => exact .inr ⟨_, h⟩
      next => cases h

/-- A value that is written is recorded as it is stored, and a new list of keys may follow. -/
theorem mem_records_write {s : Space κ} {t : Tuple} (hdel : t.isDeletion = false)
    {now : Timestamp} {r : Record} (h : r ∈ s.records (.write t now)) : ∃ l, t.location = .ok l ∧
      (r = s.written l t now ∨ r ∈ (s.stored l (s.store.numbered l t now)).renewal t.key now) := by
  rw [records, hdel] at h
  cases hl : t.location with
  | error e =>
    rw [hl] at h
    cases h
  | ok l =>
    rw [hl] at h
    rcases List.mem_cons.1 h with rfl | h
    · exact ⟨l, rfl, .inl rfl⟩
    · split at h
      next => exact ⟨l, rfl, .inr h⟩
      next => cases h

theorem mem_records_writeReplica {s : Space κ} {t : Tuple} (hdel : t.isDeletion = false)
    {now : Timestamp} {r : Record} (h : r ∈ s.records (.writeReplica t now)) :
    ∃ l, t.location = .ok l ∧ r = ⟨.copy, l, { s.store.copied l t now with fresh := some true }⟩ := by
  rw [records, hdel] at h
  cases hl : t.location with
  | error e =>
    rw [hl] at h
    cases h
  | ok l =>
    rw [hl] at h
    simp only [Bool.false_eq_true, if_false] at h
    split at h
    next => exact ⟨l, rfl, List.mem_singleton.1 h⟩
    next => cases h

theorem deed_of_mem_write {s : Space κ} {t : Tuple} (hdel : t.isDeletion = false)
    {now : Timestamp} {r : Record} (h : r ∈ s.records (.write t now)) : r.deed = .write := by
  obtain ⟨l, -, rfl | hrenewal⟩ := mem_records_write hdel h
  · rfl
  · exact deed_of_mem_renewal hrenewal

theorem deed_of_mem_writeReplica {s : Space κ} {t : Tuple} (hdel : t.isDeletion = false)
    {now : Timestamp} {r : Record} (h : r ∈ s.records (.writeReplica t now)) : r.deed = .copy := by
  obtain ⟨l, -, rfl⟩ := mem_records_writeReplica hdel h
  rfl

/-- A deletion for a tuple with the mark of one is recorded in the same way. -/
theorem mem_markedDeletion {s : Space κ} {t : Tuple} {now : Timestamp} {r : Record}
    (h : r ∈ s.markedDeletion t now) :
    r.deed = .removal ∨ ∃ space : Space κ, r ∈ space.renewal t.key now := by
  rw [markedDeletion] at h
  split at h
  next => cases h
  next => exact mem_deletion h

/-- A sweep records what it removes, and a new list of keys may follow. -/
theorem mem_records_expire {s : Space κ} {now : Timestamp} {r : Record}
    (h : r ∈ s.records (.expire now)) :
    r.deed = .removal ∨ ∃ (space : Space κ) (changed : Key), r ∈ space.renewal changed now := by
  rw [records] at h
  rcases List.mem_append.1 h with hremoval | hrenewal
  · obtain ⟨c, -, rfl⟩ := List.mem_map.1 hremoval
    exact .inl rfl
  · split at hrenewal
    next =>
      split at hrenewal
      next => exact .inr ⟨_, _, hrenewal⟩
      next => cases hrenewal
    next => cases hrenewal

/-- An operation records removals, a new list of keys, and what a write, a copy or an append stores. -/
theorem mem_records_cases {s : Space κ} {a : Access} {r : Record} (h : r ∈ s.records a) :
    r.deed = .removal ∨
    (∃ (space : Space κ) (changed : Key) (now : Timestamp), r ∈ space.renewal changed now) ∨
    (∃ t now l, a = .write t now ∧ t.isDeletion = false ∧ r = s.written l t now) ∨
    (∃ t now l, a = .writeReplica t now ∧ t.isDeletion = false ∧
      r = ⟨.copy, l, { s.store.copied l t now with fresh := some true }⟩) ∨
    ∃ p suffix expected now, a = .append p suffix expected now ∧
      ∃ c ∈ s.additions { p with owner := some s.localId } suffix expected now,
        r = .ofChange .append c := by
  cases a with
  | write t now =>
    cases hdel : t.isDeletion with
    | true =>
      rw [records, if_pos hdel] at h
      exact (mem_markedDeletion h).imp_right fun ⟨space, hr⟩ => .inl ⟨space, _, _, hr⟩
    | false =>
      obtain ⟨l, -, hwritten | hrenewal⟩ := mem_records_write hdel h
      · exact .inr (.inr (.inl ⟨t, now, l, rfl, hdel, hwritten⟩))
      · exact .inr (.inl ⟨_, _, _, hrenewal⟩)
  | writeReplica t now =>
    cases hdel : t.isDeletion with
    | true =>
      rw [records, if_pos hdel] at h
      exact (mem_markedDeletion h).imp_right fun ⟨space, hr⟩ => .inl ⟨space, _, _, hr⟩
    | false =>
      obtain ⟨l, -, hcopied⟩ := mem_records_writeReplica hdel h
      exact .inr (.inr (.inr (.inl ⟨t, now, l, rfl, hdel, hcopied⟩)))
  | delete l remover now =>
    exact (mem_deletion h).imp_right fun ⟨space, hr⟩ => .inl ⟨space, _, _, hr⟩
  | expire now =>
    exact (mem_records_expire h).imp_right fun ⟨space, _, hr⟩ => .inl ⟨space, _, _, hr⟩
  | append p suffix expected now =>
    obtain ⟨c, hc, rfl⟩ := List.mem_map.1 h
    exact .inr (.inr (.inr (.inr ⟨p, suffix, expected, now, rfl, c, hc, rfl⟩)))
  | get l onlyFresh => cases h
  | search p => cases h
  | first p => cases h

/-- Copies are what `writeReplica` stores, and nothing else is. -/
theorem mem_records_copy {s : Space κ} {a : Access} {r : Record} (h : r ∈ s.records a)
    (hcopy : r.deed = .copy) : ∃ t now l, a = .writeReplica t now ∧
      r.tuple = { s.store.copied l t now with fresh := some true } := by
  obtain hremoval | ⟨_, _, _, hrenewal⟩ | ⟨t, now, l, -, -, rfl⟩ | ⟨t, now, l, rfl, -, rfl⟩ |
    ⟨_, _, _, _, -, c, -, rfl⟩ := mem_records_cases h
  · simp [hremoval] at hcopy
  · simp [deed_of_mem_renewal hrenewal] at hcopy
  · cases hcopy
  · exact ⟨t, now, l, rfl, rfl⟩
  · cases hcopy

/-! ## What the records do -/

/-- A space turns into another by what the records say, and by nothing else. -/
structure Does (s : Space κ) (rs : List Record) (s' : Space κ) : Prop where
  becomes : s.Becomes (rs.map Record.change) s'
  chain : Record.Chain s.store.content rs
  writes : s'.store.stats.writes
    = s.store.stats.writes + rs.countP fun r => r.deed ≠ .removal
  removals : s'.store.stats.removals
    = s.store.stats.removals + rs.countP fun r => r.deed = .removal

variable {s s' s'' : Space κ}

namespace Does

variable {xs ys : List Record}

theorem sound (h : s.Does xs s') : s'.store.Sound := h.becomes.sound

theorem refl (hs : s.store.Sound) : s.Does [] s := ⟨.refl hs, trivial, rfl, rfl⟩

theorem trans (h : s.Does xs s') (h' : s'.Does ys s'') : s.Does (xs ++ ys) s'' where
  becomes := by
    rw [List.map_append]
    exact h.becomes.trans h'.becomes
  chain := Record.Along.append_iff.2 ⟨h.chain, h.becomes.content ▸ h'.chain⟩
  writes := by rw [h'.writes, h.writes, List.countP_append, Nat.add_assoc]
  removals := by rw [h'.removals, h.removals, List.countP_append, Nat.add_assoc]

end Does

theorem does_stored (hs : s.store.Sound) {deed : Deed} {l : Location} {t : Tuple}
    (hdeed : deed ≠ .removal) (hl : t.location = .ok l)
    (hcontinues : Record.Continues (s.store.content l) ⟨deed, l, { t with fresh := some true }⟩) :
    s.Does [⟨deed, l, { t with fresh := some true }⟩] (s.stored l t) where
  becomes := by
    have hmode : deed.mode = .onWrite := by cases deed <;> trivial
    rw [List.map_singleton, Record.change, hmode]
    exact becomes_stored hs hl
  chain := ⟨hcontinues, trivial⟩
  writes := by
    rw [stored, afterWrite_fst]
    simp [hdeed]
    rfl
  removals := by
    rw [stored, afterWrite_fst]
    simp [hdeed]
    rfl

theorem does_written (hs : s.store.Sound) {l : Location} {t : Tuple} (hl : t.location = .ok l)
    (now : Timestamp) :
    s.Does [s.written l t now] (s.stored l (s.store.numbered l t now)) := by
  refine does_stored hs (by simp) ((s.store.location_numbered now).2 hl) ⟨?_, rfl⟩
  show some (s.store.nextSeqno l) = _
  rw [Store.nextSeqno, Store.content, Option.bind_map]
  cases hseqno : (s.store.peek l).bind (·.seqno) <;>
    simp [Function.comp_def, Tuple.ignoringFresh, hseqno]

theorem refreshListing_eq (s : Space κ) (changed : Key) (now : Timestamp) :
    s.refreshListing changed now = if !s.keepsListing || changed.render = listingName then s
      else s.stored s.listingPlace (s.store.numbered s.listingPlace
        (Tuple.plainText s.localId listingKey s.listing) now) := by
  have hinsert : s.store.insert (Tuple.plainText s.localId listingKey s.listing) now = .ok
      (s.store.put s.listingPlace (s.store.numbered s.listingPlace
        (Tuple.plainText s.localId listingKey s.listing) now)) :=
    Store.insert_eq_ok.2 ⟨_, s.location_listing, rfl⟩
  rw [refreshListing]
  split
  next => rfl
  next =>
    simp only [hinsert]
    rfl

/-- Renewing the list of keys after a change leaves what was changed. -/
theorem peek_refreshListing (s : Space κ) (l : Location) (now : Timestamp) :
    (s.refreshListing l.key now).peek l = s.peek l := by
  rw [refreshListing_eq]
  split
  next => rfl
  next hrenewed =>
    -- The list is not renewed for its own key, so what was changed is elsewhere.
    rw [peek_stored, if_neg]
    intro heq
    have hkey : l.key.render = listingName := by rw [heq]; exact render_listingKey
    simp [hkey] at hrenewed

/-- What is deleted is gone, also where it is the list of keys. -/
theorem peek_delete {l : Location} {remover : Option Owner} {now : Timestamp} {m : Mutation}
    (h : s.delete l remover now = .ok (s', m)) : s'.peek l = none := by
  rcases delete_eq_ok h with ⟨hnone, hsame, -⟩ | ⟨held, -, hpurged, -⟩
  · rw [hsame, hnone]
  · rw [hpurged]
    split
    next => rw [peek_refreshListing, peek_purge, if_pos rfl]
    next => rw [peek_purge, if_pos rfl]

theorem does_renewal (hs : s.store.Sound) (changed : Key) (now : Timestamp) :
    s.Does (s.renewal changed now) (s.refreshListing changed now) := by
  rw [renewal, refreshListing_eq]
  split
  next => exact .refl hs
  next => exact does_written hs s.location_listing now

theorem does_purge (hs : s.store.Sound) {l : Location} {t held : Tuple}
    (hheld : s.peek l = some held) (hl : t.location = .ok l)
    (ht : t.ignoringFresh = { held.ignoringFresh with expiry := t.expiry, creator := t.creator }) :
    s.Does [⟨.removal, l, t⟩] (s.purge l t).1 where
  becomes := becomes_purge hs hl
  chain := ⟨⟨held.ignoringFresh, congrArg (Option.map Tuple.ignoringFresh) hheld, ht⟩, trivial⟩
  writes := by
    show (s.store.remove l).1.stats.writes = _
    rw [Store.remove, show s.store.peek l = some held from hheld]
    simp
  removals := by
    show (s.store.remove l).1.stats.removals = _
    rw [Store.remove, show s.store.peek l = some held from hheld]
    simp

/-! ## Operations -/

theorem delete_of_peek (hs : s.store.Sound) {l : Location} {t : Tuple} (ht : s.peek l = some t)
    (remover : Option Owner) (now : Timestamp) :
    let purged := s.purge l { t with expiry := some .immediately, creator := remover.or t.creator }
    s.delete l remover now = .ok
      (if l.owner = s.localId then purged.1.refreshListing l.key now else purged.1, purged.2) := by
  have hconcrete : l.requireConcrete = .ok () := by
    rw [Location.requireConcrete, if_pos (Tuple.isConcrete_of_location (hs.filed l t ht))]
  rw [delete, hconcrete, show s.store.peek l = some t from ht]
  simp only [bind, Except.bind, pure, Except.pure]
  split
  next ho => rw [if_pos (show l.owner = s.localId from ho)]
  next ho => rw [if_neg (show ¬ l.owner = s.localId from ho)]

theorem settled_delete_of_none {l : Location} (hnone : s.peek l = none) (remover : Option Owner)
    (now : Timestamp) : s.settled (s.delete l remover now) = s := by
  cases hdelete : s.delete l remover now with
  | error e => rfl
  | ok r =>
    rcases delete_eq_ok hdelete with ⟨-, hsame, -⟩ | ⟨t, ht, -⟩
    · exact hsame
    · exact nomatch hnone.symm.trans ht

theorem does_deletion (hs : s.store.Sound) (l : Location) (remover : Option Owner)
    (now : Timestamp) :
    s.Does (s.deletion l remover now) (s.settled (s.delete l remover now)) := by
  rw [deletion]
  split
  next hnone =>
    rw [settled_delete_of_none hnone]
    exact .refl hs
  next t ht =>
    have hpurge := does_purge hs ht (location_marked (hs.filed l t ht) remover) rfl
    rw [delete_of_peek hs ht]
    show s.Does _ (if _ then _ else _)
    split
    next => exact hpurge.trans (does_renewal hpurge.sound l.key now)
    next => exact hpurge

theorem does_markedDeletion (hs : s.store.Sound) (t : Tuple) (now : Timestamp) :
    s.Does (s.markedDeletion t now) (s.settled (s.deleteMarked t now)) := by
  rw [markedDeletion, deleteMarked]
  cases t.owner with
  | none => exact .refl hs
  | some owner => exact does_deletion hs ..

/-- A value that is stored, and the report to the caller. -/
def storing (s : Space κ) (l : Location) (t : Tuple) : Space κ × Mutation :=
  afterWrite { s with store := (s.store.put l t).1 } (s.store.put l t).2.tuple

theorem write_eq {t : Tuple} (hdel : t.isDeletion = false) (now : Timestamp) :
    s.write t now = t.location.map fun l =>
      let (after, mutation) := s.storing l (s.store.numbered l t now)
      (if (s.peek l).isNone then after.refreshListing t.key now else after, mutation) := by
  have hunnumbered : ({ t with seqno := none } : Tuple).location = t.location := rfl
  rw [write, hdel]
  simp only [Bool.false_eq_true, if_false]
  rw [Store.insert, hunnumbered]
  cases t.location with
  | error e => rfl
  | ok l =>
    simp only [bind, Except.bind, pure, Except.pure, Except.map]
    split
    next hcreated => exact congrArg (fun space => Except.ok (space, _)) (if_pos hcreated).symm
    next hcreated => exact congrArg (fun space => Except.ok (space, _)) (if_neg hcreated).symm

theorem does_write (hs : s.store.Sound) (t : Tuple) (now : Timestamp) :
    s.Does (s.records (.write t now)) (s.access (.write t now)) := by
  rw [records, access]
  cases hdel : t.isDeletion with
  | true =>
    rw [write, if_pos hdel]
    exact does_markedDeletion hs t now
  | false =>
    rw [write_eq hdel]
    simp only [Bool.false_eq_true, if_false]
    cases hl : t.location with
    | error e => exact .refl hs
    | ok l =>
      have hwritten := does_written hs hl now
      dsimp only
      show s.Does _ (if _ then _ else _)
      split
      next => exact hwritten.trans (does_renewal hwritten.sound t.key now)
      next => exact hwritten

/-- The number under which a value is stored over another, in a write that returns. -/
theorem Returns.nextSeqno_eq {build : Build} {t held : Tuple} {l : Location} {now : Timestamp} {n : Nat}
    (h : s.Returns build (.write t now)) (hdel : t.isDeletion = false) (hl : t.location = .ok l)
    (hheld : s.peek l = some held) (hn : held.seqno = some n) :
    s.store.nextSeqno l = build.shows UInt64.size (n + 1) := by
  have hseqno : (s.store.peek l).bind (·.seqno) = some n := by
    rw [show s.store.peek l = some held from hheld, Option.bind_some, hn]
  rw [Store.nextSeqno, hseqno]
  refine Build.nextCount_eq fun hb hlast => ?_
  have hwithin : Record.Within s.store.content (s.records (.write t now)) := h hb
  rw [records, hdel, hl] at hwithin
  refine hwithin.1 ⟨n, ?_, hlast⟩
  show ((s.store.peek l).map Tuple.ignoringFresh).bind (·.seqno) = some n
  rw [Option.bind_map]
  exact hseqno

theorem writeReplica_eq {t : Tuple} (hdel : t.isDeletion = false) (now : Timestamp) :
    s.writeReplica t now = t.location.map fun l =>
      if s.store.accepts l t then s.storing l (s.store.copied l t now) else (s, {}) := by
  rw [writeReplica, hdel]
  simp only [Bool.false_eq_true, if_false]
  cases hl : t.location with
  | error e =>
    rw [Store.insertReplica, hl]
    rfl
  | ok l =>
    rw [Store.insertReplica_eq hl]
    by_cases haccepts : s.store.accepts l t = true
    · simp only [if_pos haccepts]
      exact congrArg Except.ok (if_pos haccepts).symm
    · simp only [if_neg haccepts]
      exact congrArg Except.ok (if_neg haccepts).symm

omit [Callback κ] in
theorem continues_copied {l : Location} {t : Tuple} (h : s.store.accepts l t = true)
    (now : Timestamp) : Record.Continues (s.store.content l)
      ⟨.copy, l, { s.store.copied l t now with fresh := some true }⟩ := by
  have hheld : (s.store.content l).bind (·.seqno) = (s.store.peek l).bind (·.seqno) := by
    rw [Store.content, Option.bind_map]
    rfl
  rw [Store.accepts] at h
  show ∃ n, t.seqno.or (some (s.store.nextSeqno l)) = some n ∧ _
  rw [hheld, Store.nextSeqno]
  cases hseqno : t.seqno with
  | none =>
    refine ⟨_, rfl, fun held hmem => .inr ?_⟩
    rw [Option.mem_def.1 hmem]
  | some n =>
    refine ⟨n, rfl, fun held hmem => .inl ?_⟩
    rw [hseqno, Option.mem_def.1 hmem] at h
    exact of_decide_eq_true h

theorem does_writeReplica (hs : s.store.Sound) (t : Tuple) (now : Timestamp) :
    s.Does (s.records (.writeReplica t now)) (s.access (.writeReplica t now)) := by
  rw [records, access]
  cases hdel : t.isDeletion with
  | true =>
    rw [writeReplica, if_pos hdel]
    exact does_markedDeletion hs t now
  | false =>
    rw [writeReplica_eq hdel]
    simp only [Bool.false_eq_true, if_false]
    cases hl : t.location with
    | error e => exact .refl hs
    | ok l =>
      simp only [Except.map]
      split
      next haccepts =>
        exact does_stored hs (by simp) ((s.store.location_copied now).2 hl)
          (continues_copied haccepts now)
      next => exact .refl hs

theorem does_purgeAll (hs : s.store.Sound) {ls : List Location} (hls : ls.Nodup) :
    s.Does ((s.removals ls).map (.ofChange .removal)) (s.purgeAll ls).1 := by
  induction ls generalizing s with
  | nil => exact .refl hs
  | cons l rest ih =>
    obtain ⟨hl, hrest⟩ := List.nodup_cons.1 hls
    rw [purgeAll]
    cases ht : s.store.peek l with
    | none =>
      rw [removals_cons_of_none ht]
      exact ih hs hrest
    | some t =>
      have hpurge := does_purge hs ht (hs.filed l t ht) rfl
      rw [removals_cons_of_some ht hl]
      exact hpurge.trans (ih hpurge.sound hrest)

theorem does_expire (hs : s.store.Sound) (now : Timestamp) :
    s.Does (s.records (.expire now)) (s.access (.expire now)) := by
  have hpurge := does_purgeAll hs (hs.nodup_due now)
  rw [records, access, (expire_fst hs now).2]
  cases (s.removals (s.store.due now)).getLast? with
  | none =>
    rw [List.append_nil]
    exact hpurge
  | some c =>
    dsimp only
    split
    next => exact hpurge.trans (does_renewal hpurge.sound ..)
    next =>
      rw [List.append_nil]
      exact hpurge

theorem store_append (s : Space κ) (p : Tuple) (suffix : List UInt8) (expected : Option Nat)
    (now : Timestamp) : (s.append p suffix expected now).1.store
      = (s.store.append { p with owner := some s.localId } suffix expected now).1 := by
  have hkeeps (ts : List Tuple) (space : Space κ) :
      (space.afterWrites ts).1.store = space.store := by
    induction ts generalizing space with
    | nil => rfl
    | cons t rest ih =>
      have hfirst : (space.afterWrite t).1.store = space.store := by
        rw [afterWrite_fst]
        rfl
      exact (ih _).trans hfirst
  exact hkeeps ..

theorem does_append (hs : s.store.Sound) (p : Tuple) (suffix : List UInt8) (expected : Option Nat)
    (now : Timestamp) : s.Does (s.records (.append p suffix expected now))
      (s.access (.append p suffix expected now)) := by
  let own : Tuple := { p with owner := some s.localId }
  have hmode : ∀ c ∈ s.additions own suffix expected now, c.mode = Deed.append.mode := fun c hc => by
    obtain ⟨_, _, _, hmode, -⟩ := mem_additions_iff.1 hc
    exact hmode
  constructor
  case becomes =>
    rw [records, Record.map_change_ofChange hmode]
    exact becomes_append hs p suffix expected now
  case chain =>
    refine Record.Along.of_distinct (List.pairwise_map.2 (s.distinct_additions ..)) fun r hr => ?_
    obtain ⟨c, hc, rfl⟩ := List.mem_map.1 hr
    obtain ⟨t, ht, -, -, htuple⟩ := mem_additions_iff.1 hc
    refine ⟨t.ignoringFresh, congrArg (Option.map Tuple.ignoringFresh) ht, ?_, ?_⟩
    · rw [Record.ofChange, htuple]
      rfl
    · rw [Record.ofChange, htuple]
      rfl
  case writes =>
    rw [access, store_append, records, List.countP_eq_length.2 (by simp [Record.ofChange])]
    simp [Store.append, additions, Table.values, List.filter_map, Function.comp_def]
  case removals =>
    rw [access, store_append, records, List.countP_eq_zero.2 (by simp [Record.ofChange])]
    rfl

omit [Callback κ] in
theorem counts_get {l : Location} {onlyFresh : Bool} {found : Option Tuple}
    (h : s.get l onlyFresh = .ok (s', found)) :
    s'.store.stats.writes = s.store.stats.writes ∧
      s'.store.stats.removals = s.store.stats.removals := by
  rw [get] at h
  cases hget : s.store.get l onlyFresh with
  | error e => simp [hget, bind, Except.bind] at h
  | ok r =>
    simp only [hget, bind, Except.bind, pure, Except.pure] at h
    cases h
    exact Store.counts_get hget

theorem does_access (hs : s.store.Sound) (a : Access) : s.Does (s.records a) (s.access a) := by
  cases a with
  | write t now => exact does_write hs t now
  | writeReplica t now => exact does_writeReplica hs t now
  | delete l remover now => exact does_deletion hs l remover now
  | expire now => exact does_expire hs now
  | append p suffix expected now => exact does_append hs p suffix expected now
  | get l onlyFresh =>
    rw [records, access]
    cases hget : s.get l onlyFresh with
    | error e => exact .refl hs
    | ok r =>
      have hcounts := counts_get hget
      exact ⟨becomes_get hs hget, trivial, hcounts.1, hcounts.2⟩
  | search p => exact ⟨becomes_search hs p, trivial, rfl, rfl⟩
  | first p =>
    have hcounts := s.store.counts_first p
    exact ⟨becomes_first hs p, trivial, hcounts.1, hcounts.2⟩

end Space

end Blackboard
