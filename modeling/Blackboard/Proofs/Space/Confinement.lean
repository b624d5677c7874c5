import Blackboard.Proofs.Space.Values

/-!
# What a change leaves alone

A write, a copy or a deletion is about one location. It may also bring about a new list of keys, and it
moves bindings and runs callbacks, but these hold no values. So every other location keeps its value, the
mark of reading included.
-/

namespace Blackboard

/-- The tuple has the owner and the key of a location. Its other fields need not be concrete. -/
def Tuple.Addresses (t : Tuple) (l : Location) : Prop := t.owner = some l.owner ∧ t.key = l.key

theorem Tuple.Addresses.unique {t : Tuple} {l other : Location} (h : t.Addresses l)
    (hother : t.Addresses other) : l = other := by
  obtain ⟨howner, hkey⟩ := h
  obtain ⟨howner', hkey'⟩ := hother
  exact congrArg₂ Location.mk (Option.some.inj (howner.symm.trans howner')) (hkey.symm.trans hkey')

variable {κ : Type} [Callback κ]

namespace Space

variable {s s' : Space κ} {l place : Location} {t : Tuple}

/-! ## At the location -/

theorem exists_delete_eq_ok (hl : l.requireConcrete = .ok ()) (remover : Option Owner)
    (now : Timestamp) : ∃ r, s.delete l remover now = .ok r := by
  rw [delete, hl]
  simp only [bind, Except.bind, pure, Except.pure]
  split
  next => exact ⟨_, rfl⟩
  next => split <;> exact ⟨_, rfl⟩

theorem exists_write_eq_ok (hl : t.location = .ok l) (now : Timestamp) :
    ∃ r, s.write t now = .ok r := by
  cases hdel : t.isDeletion with
  | true =>
    have hconcrete : l.requireConcrete = .ok () := if_pos (Tuple.isConcrete_of_location hl)
    obtain ⟨howner, hkey⟩ := Tuple.location_owner_key hl
    rw [write, if_pos hdel, deleteMarked, howner, hkey]
    exact exists_delete_eq_ok hconcrete ..
  | false =>
    rw [write_eq hdel, hl]
    exact ⟨_, rfl⟩

theorem peek_write (hdel : t.isDeletion = false) (hl : t.location = .ok l) {now : Timestamp}
    {m : Mutation} (h : s.write t now = .ok (s', m)) :
    s'.peek l = some { s.store.numbered l t now with fresh := some true } := by
  obtain ⟨place, hplace, hstored, -⟩ := write_eq_ok hdel h
  obtain rfl : l = place := Except.ok.inj (hl.symm.trans hplace)
  rw [hstored, (Tuple.location_owner_key hl).2]
  split
  next => rw [peek_refreshListing, peek_stored, if_pos rfl]
  next => rw [peek_stored, if_pos rfl]

/-! ## Elsewhere -/

theorem peek_refreshListing_of_ne (h : l ≠ s.listingPlace) (changed : Key) (now : Timestamp) :
    (s.refreshListing changed now).peek l = s.peek l := by
  rw [refreshListing_eq]
  split
  next => rfl
  next => rw [peek_stored, if_neg h]

/-- A deletion leaves the values elsewhere. The list of keys changes for tuples of the process only. -/
theorem peek_settled_delete (hne : l ≠ place)
    (hlisting : place.owner = s.localId → l ≠ s.listingPlace) (remover : Option Owner)
    (now : Timestamp) : (s.settled (s.delete place remover now)).peek l = s.peek l := by
  cases hdelete : s.delete place remover now with
  | error e => rfl
  | ok r =>
    rcases delete_eq_ok hdelete with ⟨-, hsame, -⟩ | ⟨held, -, hpurged, -⟩
    · exact congrArg (·.peek l) hsame
    · have hkept (marked : Tuple) : (s.purge place marked).1.peek l = s.peek l := by
        rw [peek_purge, if_neg hne]
      have hrenewed (marked : Tuple) (hother : l ≠ s.listingPlace) :
          ((s.purge place marked).1.refreshListing place.key now).peek l = s.peek l :=
        (peek_refreshListing_of_ne (s := (s.purge place marked).1) hother ..).trans (hkept marked)
      show r.1.peek l = s.peek l
      rw [hpurged]
      split
      next hlocal => exact hrenewed _ (hlisting hlocal)
      next => exact hkept _

theorem peek_settled_deleteMarked (hne : ¬ t.Addresses l)
    (hlisting : t.owner = some s.localId → l ≠ s.listingPlace) (now : Timestamp) :
    (s.settled (s.deleteMarked t now)).peek l = s.peek l := by
  rw [deleteMarked]
  cases howner : t.owner with
  | none => rfl
  | some owner =>
    refine peek_settled_delete (fun heq => hne ?_) (fun heq => hlisting ?_) ..
    · rw [heq]
      exact ⟨howner, rfl⟩
    · exact howner.trans (congrArg some heq)

theorem peek_storing_of_ne (h : l ≠ place) : (s.storing place t).1.peek l = s.peek l :=
  (peek_stored ..).trans (if_neg h)

/-- A write leaves the values elsewhere, but for the list of keys. -/
theorem peek_settled_write (hne : ¬ t.Addresses l) (hlisting : l ≠ s.listingPlace)
    (now : Timestamp) : (s.settled (s.write t now)).peek l = s.peek l := by
  cases hdel : t.isDeletion with
  | true =>
    rw [write, if_pos hdel]
    exact peek_settled_deleteMarked hne (fun _ => hlisting) now
  | false =>
    rw [write_eq hdel]
    cases hplace : t.location with
    | error e => rfl
    | ok place =>
      have hstored := peek_storing_of_ne (s := s) (t := s.store.numbered place t now)
        (l := l) fun heq => hne (heq ▸ Tuple.location_owner_key hplace)
      show (if _ then _ else _ : Space κ).peek l = _
      split
      next =>
        have hother : l ≠ (s.stored place (s.store.numbered place t now)).listingPlace := by
          rwa [listingPlace, localId_stored]
        exact (peek_refreshListing_of_ne hother ..).trans hstored
      next => exact hstored

/-- A copy leaves the values elsewhere. The list of keys changes if a value of the process is taken
back. -/
theorem peek_settled_writeReplica (hne : ¬ t.Addresses l)
    (hlisting : t.owner = some s.localId → l ≠ s.listingPlace) (now : Timestamp) :
    (s.settled (s.writeReplica t now)).peek l = s.peek l := by
  cases hdel : t.isDeletion with
  | true =>
    rw [writeReplica, if_pos hdel]
    exact peek_settled_deleteMarked hne hlisting now
  | false =>
    rw [writeReplica_eq hdel]
    cases hplace : t.location with
    | error e => rfl
    | ok place =>
      simp only [Except.map]
      split
      next => exact peek_storing_of_ne fun heq => hne (heq ▸ Tuple.location_owner_key hplace)
      next => rfl

/-- Only the value at one location and the list of keys may differ. -/
def Confined (s s' : Space κ) (l : Location) : Prop :=
  ∀ other, other ≠ l → other ≠ s.listingPlace → s'.peek other = s.peek other

theorem confined_delete {remover : Option Owner} {now : Timestamp} {m : Mutation}
    (h : s.delete l remover now = .ok (s', m)) : s.Confined s' l := by
  intro other hother hlisting
  have hkept := peek_settled_delete hother (fun _ => hlisting) remover now
  rwa [h] at hkept

theorem confined_write (ht : t.Addresses l) {now : Timestamp} {m : Mutation}
    (h : s.write t now = .ok (s', m)) : s.Confined s' l := by
  intro other hother hlisting
  have hkept := peek_settled_write (fun hsame => hother (hsame.unique ht)) hlisting now
  rwa [h] at hkept

theorem confined_writeReplica {now : Timestamp} {m : Mutation}
    (h : s.writeReplica t now = .ok (s', m)) : ∃ l, t.Addresses l ∧ s.Confined s' l := by
  have howner : ∃ owner, t.owner = some owner := by
    cases hdel : t.isDeletion with
    | true =>
      rw [writeReplica, if_pos hdel, deleteMarked] at h
      split at h
      next => cases h
      next owner howner => exact ⟨owner, howner⟩
    | false =>
      obtain ⟨place, hplace, -⟩ := writeReplica_eq_ok hdel h
      exact ⟨place.owner, (Tuple.location_owner_key hplace).1⟩
  obtain ⟨owner, howner⟩ := howner
  have ht : t.Addresses ⟨owner, t.key⟩ := ⟨howner, rfl⟩
  refine ⟨_, ht, fun other hother hlisting => ?_⟩
  have hkept := peek_settled_writeReplica (fun hsame => hother (hsame.unique ht))
    (fun _ => hlisting) now
  rwa [h] at hkept

end Space

namespace Session

variable {guard : Session κ → Operation κ → Prop} {s : Session κ}

/-- A write is read back under the number one above that of the value before, and what is deleted is
gone. Neither they nor a copy change a value elsewhere but for the list of keys. After the last number
there is, the write does not return in a build with overflow checks, and is read back under zero in one
without them: the counts stay within their widths if those of the copies that come in do. -/
theorem Reachable.changes_confined (h : Reachable guard s) (now : Timestamp) :
    let space := s.space
    (∀ (t : Tuple) (l : Location), t.isDeletion = false → t.location = .ok l →
      ∃ (after : Space κ) (report : Mutation) (n : Nat), space.write t now = .ok (after, report) ∧
        after.peek l = some
          { t with seqno := some n, appends := 0, written := some now, fresh := some true } ∧
        (space.peek l = none → n = 1) ∧
        (∀ held, space.peek l = some held → ∃ before, held.seqno = some before ∧
          ∀ build, space.Returns build (.write t now) →
            n = build.shows UInt64.size (before + 1)) ∧
        space.Confined after l) ∧
    (∀ (l : Location) (remover : Option Owner) (after : Space κ) (report : Mutation),
      space.delete l remover now = .ok (after, report) →
        after.peek l = none ∧ space.Confined after l) ∧
    (∀ (t : Tuple) (after : Space κ) (report : Mutation),
      space.writeReplica t now = .ok (after, report) →
        ∃ l, t.Addresses l ∧ space.Confined after l) ∧
    ((∀ s op, guard s op → op.CountsFit) → space.AllValues Tuple.CountsFit) := by
  intro space
  refine ⟨fun t l hdel hl => ?_, fun l remover after report hdelete => ?_,
    fun t after report => Space.confined_writeReplica, h.countsFit⟩
  · obtain ⟨⟨after, report⟩, hwrite⟩ := Space.exists_write_eq_ok (s := space) hl now
    refine ⟨after, report, _, hwrite, Space.peek_write hdel hl hwrite, fun hnone => ?_,
      fun held hheld => ?_, Space.confined_write (Tuple.location_owner_key hl) hwrite⟩
    · rw [Store.nextSeqno, show space.store.peek l = none from hnone]
      rfl
    · obtain ⟨before, hbefore⟩ := h.numbered l held hheld
      exact ⟨before, hbefore, fun build hreturns => hreturns.nextSeqno_eq hdel hl hheld hbefore⟩
  · exact ⟨Space.peek_delete hdelete, Space.confined_delete hdelete⟩

/-- A write over a copy that has the last number. -/
example :
    let place : Location := ⟨2, ⟨[some "x"]⟩⟩
    let last := { Tuple.plainText 2 place.key "v" with seqno := some 18446744073709551615 }
    let full : Space String :=
      ((start 1 .insensitive true {}).step (.access (.writeReplica last ⟨1000, 0⟩))).space
    let again : Access := .write (.plainText 2 place.key "w") ⟨1001, 0⟩
    ((full.access again).peek place).map (·.seqno) = some (some 0) ∧
      ¬ full.Returns .checked again := by
  decide +kernel

/-- A meta tuple that a subscription is bound through, a copy of the value that it names, and a value
that two subscriptions are about. -/
def charted : Session String :=
  let m : Location := ⟨1, ⟨[some "m"]⟩⟩
  let x : Reference := ⟨⟨2, ⟨[some "x"]⟩⟩, isConcrete_x⟩
  (start 1 .insensitive true {}).run
    [.allocate, .allocate, .allocate, .subscribe 1 ⟨.pattern, .onWrite, some "written"⟩,
      .subscribe 2 ⟨.pattern, .onDelete, some "gone"⟩,
      .access (.write (Reference.metaTuple m (some x)) ⟨1000, 0⟩),
      .subscribeIndirect 3 m.pattern (some "moved"),
      .access (.writeReplica (.plainText 2 x.location.key "v") ⟨1001, 0⟩),
      .access (.write (.plainText 1 ⟨[some "a"]⟩ "w") ⟨1002, 0⟩)]

/-- The meta tuple is written anew, naming nothing. The value of the process is deleted, and a copy
comes in. -/
theorem charted_changes_confined :
    let space := charted.space
    let now : Timestamp := ⟨1003, 0⟩
    let m : Location := ⟨1, ⟨[some "m"]⟩⟩
    let x : Location := ⟨2, ⟨[some "x"]⟩⟩
    let a : Location := ⟨1, ⟨[some "a"]⟩⟩
    let unset := Reference.metaTuple m none
    Reachable (fun s op => s.Allows op ∧ op.CountsFit) charted ∧
    (∃ (after : Space String) (report : Mutation), space.write unset now = .ok (after, report) ∧
      after.peek m = some { unset with seqno := some 2, written := some now, fresh := some true } ∧
      after.peek x = space.peek x) ∧
    (∃ (after : Space String) (report : Mutation), space.delete a none now = .ok (after, report) ∧
      after.peek a = none ∧ after.peek m = space.peek m) ∧
    (∃ (after : Space String) (report : Mutation),
      space.writeReplica (.plainText 2 x.key "u") now = .ok (after, report) ∧
        after.peek x ≠ space.peek x ∧ after.peek a = space.peek a) ∧
    space.AllValues Tuple.CountsFit := by
  intro space now m x a unset
  have hreach : Reachable (fun s op => s.Allows op ∧ op.CountsFit) charted :=
    ⟨1, .insensitive, true, {}, runs_run (by decide +kernel)⟩
  obtain ⟨hwrite, hdelete, hcopy, hfit⟩ := hreach.changes_confined now
  refine ⟨hreach, ?_, ?_, ?_, hfit fun _ _ hop => hop.2⟩
  · obtain ⟨after, report, n, hok, hback, -, hnumber, hkept⟩ :=
      hwrite unset m (by decide) (by decide)
    have hfirst : (space.peek m).bind (·.seqno) = some 1 := by decide +kernel
    obtain ⟨held, hheld, hseqno⟩ := Option.bind_eq_some_iff.1 hfirst
    obtain ⟨before, hbefore, hn⟩ := hnumber held hheld
    obtain rfl : 1 = before := Option.some.inj (hseqno.symm.trans hbefore)
    obtain rfl : n = 2 := hn .checked (by decide +kernel)
    exact ⟨after, report, hok, hback, hkept x (by decide) (by decide +kernel)⟩
  · obtain ⟨⟨after, report⟩, hok⟩ := Space.exists_delete_eq_ok (s := space) (l := a) rfl none now
    obtain ⟨hgone, hkept⟩ := hdelete a none after report hok
    exact ⟨after, report, hok, hgone, hkept m (by decide) (by decide +kernel)⟩
  · let newer := Tuple.plainText 2 x.key "u"
    obtain ⟨⟨after, report⟩, hok⟩ : ∃ r, space.writeReplica newer now = .ok r := by
      rw [Space.writeReplica_eq (by decide)]
      exact ⟨_, rfl⟩
    obtain ⟨l, haddress, hkept⟩ := hcopy newer after report hok
    obtain rfl : x = l := Tuple.Addresses.unique ⟨rfl, rfl⟩ haddress
    have hchanged : (space.settled (space.writeReplica newer now)).peek x ≠ space.peek x := by
      decide +kernel
    rw [hok] at hchanged
    exact ⟨after, report, hok, hchanged, hkept a (by decide) (by decide +kernel)⟩

end Session

end Blackboard
