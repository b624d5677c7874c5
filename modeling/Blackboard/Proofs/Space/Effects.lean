import Mathlib.Data.List.Basic
import Blackboard.Proofs.Space.Change

/-!
# The changes each operation makes

One lemma for each operation on a sound store. A failed operation is not mentioned: it leaves the
space as it is by the form of its result.
-/

namespace Blackboard

namespace Space

variable {κ : Type} [Callback κ] {s s' : Space κ}

/-- Where the list of the keys of the process lies. -/
def listingPlace (s : Space κ) : Location := ⟨s.localId, listingKey⟩

/-- The space once a value is stored and followed up on. -/
def stored (s : Space κ) (l : Location) (t : Tuple) : Space κ :=
  (afterWrite { s with store := (s.store.put l t).1 } (s.store.put l t).2.tuple).1

theorem peek_stored (s : Space κ) (l other : Location) (t : Tuple) :
    (s.stored l t).peek other
      = if other = l then some { t with fresh := some true } else s.peek other := by
  rw [stored, afterWrite_fst]
  exact Store.peek_put ..

theorem content_stored (s : Space κ) (l other : Location) (t : Tuple) :
    (s.stored l t).store.content other
      = if other = l then some t.ignoringFresh else s.store.content other := by
  rw [stored, afterWrite_fst]
  exact Store.content_put ..

@[simp] theorem localId_stored (s : Space κ) (l : Location) (t : Tuple) :
    (s.stored l t).localId = s.localId := by
  rw [stored, afterWrite_fst]
  rfl

@[simp] theorem keepsListing_stored (s : Space κ) (l : Location) (t : Tuple) :
    (s.stored l t).keepsListing = s.keepsListing := by
  rw [stored, afterWrite_fst]
  rfl

/-! ## Single changes -/

theorem becomes_stored (hs : s.store.Sound) {l : Location} {t : Tuple} (hl : t.location = .ok l) :
    s.Becomes [⟨.onWrite, l, { t with fresh := some true }⟩] (s.stored l t) where
  placed := by
    intro c hc
    obtain rfl := List.mem_singleton.1 hc
    exact Store.location_setFresh _ hl
  noticed := by
    rw [noticeAll_cons, noticeAll_nil, notice, stored, afterWrite_fst, afterWrite_fst]
    rfl
  content := by
    funext other
    rw [content_stored, Change.replay_cons, Change.replay_nil, Function.update_apply]
    rfl
  sound := by
    rw [stored, afterWrite_fst]
    exact hs.put hl
  policy := by
    rw [stored, afterWrite_fst]
    rfl

theorem becomes_purge (hs : s.store.Sound) {l : Location} {t : Tuple} (hl : t.location = .ok l) :
    s.Becomes [⟨.onDelete, l, t⟩] (s.purge l t).1 where
  placed := by
    intro c hc
    obtain rfl := List.mem_singleton.1 hc
    exact hl
  noticed := rfl
  content := by
    funext other
    refine (Store.content_remove s.store l other).trans ?_
    rw [Change.replay_cons, Change.replay_nil, Function.update_apply]
    rfl
  sound := hs.remove l
  policy := by
    show (s.store.remove l).1.policy = s.store.policy
    rw [Store.remove]
    split <;> rfl

omit [Callback κ] in
theorem location_listing (s : Space κ) :
    (Tuple.plainText s.localId listingKey s.listing).location = .ok s.listingPlace := by
  rfl

theorem refreshListing_of_keepsListing (hkeep : s.keepsListing = true) {changed : Key}
    (hne : changed.render ≠ listingName) (now : Timestamp) :
    ∃ t : Tuple, t.payload = some (Text.octets s.listing) ∧ t.expiry = some .never ∧
      t.location = .ok s.listingPlace ∧
      s.refreshListing changed now = s.stored s.listingPlace t := by
  have hinsert : s.store.insert (Tuple.plainText s.localId listingKey s.listing) now = .ok
      (s.store.put s.listingPlace (s.store.numbered s.listingPlace
        (Tuple.plainText s.localId listingKey s.listing) now)) :=
    Store.insert_eq_ok.2 ⟨_, s.location_listing, rfl⟩
  refine ⟨s.store.numbered s.listingPlace (Tuple.plainText s.localId listingKey s.listing) now,
    rfl, rfl, (Store.location_numbered ..).2 s.location_listing, ?_⟩
  rw [refreshListing, if_neg (by simp [hkeep, hne])]
  simp only [hinsert]
  rfl

theorem refreshListing_of_eq {changed : Key} (h : s.keepsListing = false ∨ changed.render = listingName)
    (now : Timestamp) : s.refreshListing changed now = s := by
  rw [refreshListing, if_pos (by simpa using h)]

/-- Renewing the list of keys stores one value, at the place of the list, or does nothing. -/
theorem becomes_refreshListing (hs : s.store.Sound) (changed : Key) (now : Timestamp) :
    ∃ changes, s.Becomes changes (s.refreshListing changed now) ∧
      (changes = [] ∨
        changed.render ≠ listingName ∧ ∃ t, changes = [⟨.onWrite, s.listingPlace, t⟩]) := by
  by_cases h : s.keepsListing = false ∨ changed.render = listingName
  · rw [refreshListing_of_eq h]
    exact ⟨[], .refl hs, .inl rfl⟩
  · obtain ⟨hkeep, hne⟩ := not_or.1 h
    obtain ⟨t, _, _, hl, heq⟩ :=
      refreshListing_of_keepsListing (by simpa using hkeep) hne now
    rw [heq]
    exact ⟨_, becomes_stored hs hl, .inr ⟨hne, _, rfl⟩⟩

/-- Changes after which the list of keys is renewed, for a key under which all values were stored. -/
theorem Becomes.refreshListing {mid : Space κ} {xs : List Change} (h : s.Becomes xs mid)
    (htidy : Change.Tidy xs) (changed : Key)
    (hkey : ∀ c ∈ xs, c.mode = .onWrite → c.place.key = changed) (now : Timestamp) :
    ∃ ys, s.Becomes (xs ++ ys) (mid.refreshListing changed now) ∧ Change.Tidy (xs ++ ys) := by
  obtain ⟨ys, hys, rfl | ⟨hne, t, rfl⟩⟩ := becomes_refreshListing h.sound changed now
  · exact ⟨[], h.trans hys, by rwa [List.append_nil]⟩
  · refine ⟨_, h.trans hys, List.pairwise_append.2 ⟨htidy, List.pairwise_singleton .., ?_⟩⟩
    intro a ha b hb hmode heq
    obtain rfl := List.mem_singleton.1 hb
    have hlisting : a.place.key = listingKey := (congrArg Location.key heq).symm
    exact hne (by rw [← hkey a ha hmode, hlisting, render_listingKey])

/-! ## Removing -/

theorem delete_eq_ok {l : Location} {remover : Option Owner} {now : Timestamp} {m : Mutation}
    (h : s.delete l remover now = .ok (s', m)) :
    s.peek l = none ∧ s' = s ∧ m = {} ∨ ∃ t, s.peek l = some t ∧
      let purged := s.purge l
        { t with expiry := some .immediately, creator := remover.or t.creator }
      s' = (if l.owner = s.localId then purged.1.refreshListing l.key now else purged.1) ∧
        m = purged.2 := by
  rw [delete] at h
  cases hc : l.requireConcrete with
  | error e => simp [hc, bind, Except.bind] at h
  | ok _ =>
    simp only [hc, bind, Except.bind, pure, Except.pure] at h
    split at h
    next hnone => cases h; exact .inl ⟨hnone, rfl, rfl⟩
    next t hsome =>
      refine .inr ⟨t, hsome, ?_⟩
      split at h
      next ho => cases h; exact ⟨(if_pos ho).symm, rfl⟩
      next ho => cases h; exact ⟨(if_neg ho).symm, rfl⟩

omit [Callback κ] in
theorem location_marked {t : Tuple} {l : Location} (h : t.location = .ok l)
    (remover : Option Owner) :
    ({ t with expiry := some .immediately, creator := remover.or t.creator } : Tuple).location
      = .ok l := by
  obtain ⟨hconcrete, howner, hkey⟩ := Tuple.location_eq_ok_iff.1 h
  refine Tuple.location_eq_ok_iff.2 ⟨?_, howner, hkey⟩
  simp only [Tuple.isAbstract, Bool.or_eq_false_iff] at hconcrete
  cases remover <;> simp [Tuple.isAbstract, hconcrete]

theorem becomes_delete (hs : s.store.Sound) {l : Location} {remover : Option Owner}
    {now : Timestamp} {m : Mutation} (h : s.delete l remover now = .ok (s', m)) :
    ∃ changes, s.Becomes changes s' ∧ Change.Tidy changes := by
  rcases delete_eq_ok h with ⟨-, rfl, -⟩ | ⟨t, ht, hs', -⟩
  · exact ⟨[], .refl hs, .nil⟩
  · have hpurge := becomes_purge hs (location_marked (hs.filed l t ht) remover)
    subst hs'
    split
    next =>
      obtain ⟨ys, hrefresh, htidy⟩ :=
        hpurge.refreshListing (List.pairwise_singleton ..) l.key (by simp) now
      exact ⟨_, hrefresh, htidy⟩
    next => exact ⟨_, hpurge, List.pairwise_singleton ..⟩

theorem becomes_deleteMarked (hs : s.store.Sound) {t : Tuple} {now : Timestamp} {m : Mutation}
    (h : s.deleteMarked t now = .ok (s', m)) :
    ∃ changes, s.Becomes changes s' ∧ Change.Tidy changes := by
  rw [deleteMarked] at h
  split at h
  next => cases h
  next => exact becomes_delete hs h

/-! ## Writing -/

/-- A value is written by storing it and following up on it; if its location had none, the list of
keys is renewed. -/
theorem write_eq_ok {t : Tuple} {now : Timestamp} {m : Mutation} (hdel : t.isDeletion = false)
    (h : s.write t now = .ok (s', m)) : ∃ l, t.location = .ok l ∧
      s' = (if (s.peek l).isNone then
          (s.stored l (s.store.numbered l t now)).refreshListing t.key now
        else s.stored l (s.store.numbered l t now)) ∧
      m.tuple = some { s.store.numbered l t now with fresh := some true } := by
  rw [write, hdel] at h
  simp only [Bool.false_eq_true, if_false] at h
  cases hi : s.store.insert { t with seqno := none } now with
  | error e => simp [hi, bind, Except.bind] at h
  | ok r =>
    obtain ⟨l, hl, rfl⟩ := Store.insert_eq_ok.1 hi
    refine ⟨l, by simpa [Tuple.location_eq_ok_iff, Tuple.isAbstract] using hl, ?_⟩
    simp only [hi, bind, Except.bind, pure, Except.pure] at h
    split at h
    next hc => cases h; exact ⟨(if_pos hc).symm, rfl⟩
    next hc => cases h; exact ⟨(if_neg hc).symm, rfl⟩

theorem becomes_write (hs : s.store.Sound) {t : Tuple} {now : Timestamp} {m : Mutation}
    (h : s.write t now = .ok (s', m)) :
    ∃ changes, s.Becomes changes s' ∧ Change.Tidy changes := by
  cases hdel : t.isDeletion with
  | true =>
    rw [write, if_pos hdel] at h
    exact becomes_deleteMarked hs h
  | false =>
    obtain ⟨l, hl, hs', -⟩ := write_eq_ok hdel h
    have hput := becomes_stored (t := s.store.numbered l t now) hs
      ((s.store.location_numbered now).2 hl)
    subst hs'
    split
    next =>
      obtain ⟨ys, hrefresh, htidy⟩ := hput.refreshListing (List.pairwise_singleton ..)
        t.key (by simp [(Tuple.location_owner_key hl).2]) now
      exact ⟨_, hrefresh, htidy⟩
    next => exact ⟨_, hput, List.pairwise_singleton ..⟩

/-- A copy is stored and followed up on, or it is left out and nothing changes. -/
theorem writeReplica_eq_ok {t : Tuple} {now : Timestamp} {m : Mutation}
    (hdel : t.isDeletion = false) (h : s.writeReplica t now = .ok (s', m)) :
    ∃ l, t.location = .ok l ∧ (s' = s ∧ m = {} ∨
      s' = s.stored l (s.store.copied l t now) ∧
      m.tuple = some { s.store.copied l t now with fresh := some true }) := by
  rw [writeReplica, hdel] at h
  simp only [Bool.false_eq_true, if_false] at h
  cases hi : s.store.insertReplica t now with
  | error e => simp [hi, bind, Except.bind] at h
  | ok r =>
    obtain ⟨store, stored⟩ := r
    obtain ⟨l, hl, hcase⟩ := Store.insertReplica_eq_ok hi
    refine ⟨l, hl, ?_⟩
    simp only [hi, bind, Except.bind, pure, Except.pure] at h
    rcases hcase with ⟨rfl, rfl⟩ | ⟨stored, hput, rfl⟩
    · cases h
      exact .inl ⟨rfl, rfl⟩
    · obtain ⟨rfl, rfl⟩ := Prod.mk.inj hput
      cases h
      exact .inr ⟨rfl, rfl⟩

theorem becomes_writeReplica (hs : s.store.Sound) {t : Tuple} {now : Timestamp} {m : Mutation}
    (h : s.writeReplica t now = .ok (s', m)) :
    ∃ changes, s.Becomes changes s' ∧ Change.Tidy changes := by
  cases hdel : t.isDeletion with
  | true =>
    rw [writeReplica, if_pos hdel] at h
    exact becomes_deleteMarked hs h
  | false =>
    obtain ⟨l, hl, ⟨rfl, -⟩ | ⟨rfl, -⟩⟩ := writeReplica_eq_ok hdel h
    · exact ⟨[], .refl hs, .nil⟩
    · exact ⟨_, becomes_stored hs ((s.store.location_copied now).2 hl), List.pairwise_singleton ..⟩

/-! ## Sweeping -/

/-- The removals that a sweep over some locations makes. -/
def removals (s : Space κ) (ls : List Location) : List Change :=
  ls.filterMap fun l => (s.peek l).map fun t => ⟨.onDelete, l, t⟩

omit [Callback κ] in
/-- What is due is stored, so a sweep removes a value at each of these locations. -/
theorem places_due (hs : s.store.Sound) (now : Timestamp) :
    (s.removals (s.store.due now)).map (·.place) = s.store.due now := by
  rw [removals, List.map_filterMap]
  refine (List.filterMap_congr fun l hl => ?_).trans (List.filterMap_some ..)
  obtain ⟨t, -, ht, -⟩ := hs.mem_due hl
  rw [show s.peek l = some t from ht]
  rfl

theorem peek_purge (s : Space κ) (l other : Location) (t : Tuple) :
    (s.purge l t).1.peek other = if other = l then none else s.peek other :=
  Store.peek_remove ..

omit [Callback κ] in
theorem removals_cons_of_none {l : Location} (ht : s.store.peek l = none) (rest : List Location) :
    s.removals (l :: rest) = s.removals rest :=
  List.filterMap_cons_none (by simp [peek, ht])

/-- Once a value is removed the sweep goes on as if it had begun there: it does not come back. -/
theorem removals_cons_of_some {l : Location} {t : Tuple} (ht : s.store.peek l = some t)
    {rest : List Location} (hl : l ∉ rest) :
    s.removals (l :: rest) = ⟨.onDelete, l, t⟩ :: (s.purge l t).1.removals rest := by
  have hlater : (s.purge l t).1.removals rest = s.removals rest :=
    List.filterMap_congr fun other hother => by
      rw [peek_purge, if_neg (ne_of_mem_of_not_mem hother hl)]
  rw [hlater]
  exact List.filterMap_cons_some (by simp [peek, ht])

theorem becomes_purgeAll (hs : s.store.Sound) {ls : List Location} (hls : ls.Nodup) :
    s.Becomes (s.removals ls) (s.purgeAll ls).1 ∧
      (s.purgeAll ls).2.map (·.tuple) = (s.removals ls).map fun c => some c.tuple := by
  induction ls generalizing s with
  | nil => exact ⟨.refl hs, rfl⟩
  | cons l rest ih =>
    obtain ⟨hl, hrest⟩ := List.nodup_cons.1 hls
    rw [purgeAll]
    cases ht : s.store.peek l with
    | none =>
      rw [removals_cons_of_none ht]
      exact ih hs hrest
    | some t =>
      have hpurge := becomes_purge hs (hs.filed l t ht)
      obtain ⟨hbecomes, hmutations⟩ := ih hpurge.sound hrest
      rw [removals_cons_of_some ht hl]
      exact ⟨hpurge.trans hbecomes, congrArg (some t :: ·) hmutations⟩

/-- A sweep removes what is due, and renews the list of keys if that includes a local value and the
last value removed was not filed under the key of the list. -/
theorem expire_fst (hs : s.store.Sound) (now : Timestamp) :
    (s.expire now).2 = (s.purgeAll (s.store.due now)).2 ∧
    (s.expire now).1 = (match (s.removals (s.store.due now)).getLast? with
      | some c =>
        if (s.store.due now).any fun l => l.owner = s.localId then
          (s.purgeAll (s.store.due now)).1.refreshListing c.tuple.key now
        else (s.purgeAll (s.store.due now)).1
      | none => (s.purgeAll (s.store.due now)).1) := by
  have hexists : (s.store.due now).filter s.store.exists? = s.store.due now := by
    refine List.filter_eq_self.2 fun l hl => ?_
    obtain ⟨t, _, ht, _⟩ := hs.mem_due hl
    exact Option.isSome_iff_exists.2 ⟨t, ht⟩
  have hlast : ((s.purgeAll (s.store.due now)).2.getLast?.bind (·.tuple)).map (·.key)
      = (s.removals (s.store.due now)).getLast?.map (·.tuple.key) := by
    have htuples := congrArg List.getLast? (becomes_purgeAll hs (hs.nodup_due now)).2
    rw [List.getLast?_map, List.getLast?_map] at htuples
    cases hm : (s.purgeAll (s.store.due now)).2.getLast? <;>
      cases hc : (s.removals (s.store.due now)).getLast? <;> simp_all
  have hid := (becomes_purgeAll hs (hs.nodup_due now)).1.localId
  rw [expire, hexists]
  simp only [hlast, hid]
  cases (s.removals (s.store.due now)).getLast? with
  | none => exact ⟨rfl, rfl⟩
  | some c =>
    simp only [Option.map_some]
    split
    next => exact ⟨rfl, rfl⟩
    next => exact ⟨rfl, rfl⟩

omit [Callback κ] in
theorem mem_removals_iff {ls : List Location} {c : Change} :
    c ∈ s.removals ls ↔ c.place ∈ ls ∧ c.mode = .onDelete ∧ s.peek c.place = some c.tuple := by
  simp only [removals, List.mem_filterMap, Option.map_eq_some_iff]
  constructor
  · rintro ⟨l, hl, t, ht, rfl⟩
    exact ⟨hl, rfl, ht⟩
  · rintro ⟨hl, hmode, ht⟩
    refine ⟨c.place, hl, c.tuple, ht, ?_⟩
    cases c
    simp_all

theorem becomes_expire (hs : s.store.Sound) (now : Timestamp) :
    ∃ changes, s.Becomes changes (s.expire now).1 ∧ Change.Tidy changes ∧
      ∀ l ∈ s.store.due now, ∃ c ∈ changes, c.mode = .onDelete ∧ c.place = l := by
  have hpurge := (becomes_purgeAll hs (hs.nodup_due now)).1
  have hmode : ∀ c ∈ s.removals (s.store.due now), c.mode = .onDelete := fun c hc =>
    (mem_removals_iff.1 hc).2.1
  have hall : ∀ l ∈ s.store.due now,
      ∃ c ∈ s.removals (s.store.due now), c.mode = .onDelete ∧ c.place = l := by
    intro l hl
    obtain ⟨t, -, ht, -⟩ := hs.mem_due hl
    exact ⟨⟨.onDelete, l, t⟩, mem_removals_iff.2 ⟨hl, rfl, ht⟩, rfl, rfl⟩
  rw [(expire_fst hs now).2]
  split
  next c _ =>
    split
    next =>
      obtain ⟨ys, hrefresh, htidy⟩ := hpurge.refreshListing (.of_removals hmode)
        c.tuple.key (fun d hd hw => nomatch (hmode d hd).symm.trans hw) now
      refine ⟨_, hrefresh, htidy, fun l hl => ?_⟩
      obtain ⟨d, hd, hl⟩ := hall l hl
      exact ⟨d, List.mem_append_left _ hd, hl⟩
    next => exact ⟨_, hpurge, .of_removals hmode, hall⟩
  next => exact ⟨_, hpurge, .of_removals hmode, hall⟩

/-! ## Appending -/

theorem afterWrites_fst (s : Space κ) (ts : List Tuple) :
    (s.afterWrites ts).1 = ts.foldl (fun s t => (s.afterWrite t).1) s := by
  induction ts generalizing s with
  | nil => rfl
  | cons t rest ih => exact ih _

/-- The changes that an append makes, in the order of their locations. -/
def additions (s : Space κ) (p : Tuple) (suffix : List UInt8) (expected : Option Nat)
    (now : Timestamp) : List Change :=
  (s.store.tuples.entries.filter fun e => s.store.isAppended p expected e.2).map fun e =>
    ⟨.onWrite, e.1, Store.extend suffix now e.2⟩

omit [Callback κ] in
theorem mem_additions_iff {p : Tuple} {suffix : List UInt8} {expected : Option Nat}
    {now : Timestamp} {c : Change} :
    c ∈ s.additions p suffix expected now ↔ ∃ t, s.peek c.place = some t ∧
      s.store.isAppended p expected t = true ∧ c.mode = .onWrite ∧
      c.tuple = Store.extend suffix now t := by
  simp only [additions, List.mem_map, List.mem_filter]
  constructor
  · rintro ⟨⟨l, t⟩, ⟨hmem, happ⟩, rfl⟩
    exact ⟨t, (s.store.tuples.mem_entries_iff l t).1 hmem, happ, rfl, rfl⟩
  · rintro ⟨t, ht, happ, hmode, htuple⟩
    refine ⟨(c.place, t), ⟨(s.store.tuples.mem_entries_iff _ t).2 ht, happ⟩, ?_⟩
    cases c
    simp_all

omit [Callback κ] in
theorem distinct_additions (s : Space κ) (p : Tuple) (suffix : List UInt8)
    (expected : Option Nat) (now : Timestamp) :
    (s.additions p suffix expected now).Pairwise fun a b => a.place ≠ b.place := by
  refine List.pairwise_map.2 ((s.store.tuples.sorted.filter _).imp fun {a b} hlt heq => ?_)
  simp [show a.1 = b.1 from heq, Std.ReflCmp.compare_self] at hlt

omit [Callback κ] in
theorem content_append (s : Space κ) (p : Tuple) (suffix : List UInt8) (expected : Option Nat)
    (now : Timestamp) :
    (s.store.append p suffix expected now).1.content
      = Change.replay (s.additions p suffix expected now) s.store.content := by
  funext l
  rw [Store.content, Store.peek_append]
  by_cases h : ∃ t, s.peek l = some t ∧ s.store.isAppended p expected t = true
  · obtain ⟨t, ht, happ⟩ := h
    have hmem : (⟨.onWrite, l, Store.extend suffix now t⟩ : Change)
        ∈ s.additions p suffix expected now :=
      mem_additions_iff.2 ⟨t, ht, happ, rfl, rfl⟩
    have hpeek : s.store.peek l = some t := ht
    rw [Change.replay_of_mem hmem (s.distinct_additions p suffix expected now), hpeek]
    simp [Store.appended, happ, Change.outcome]
  · rw [Change.replay_of_forall_ne fun c hc heq => h ?_]
    · cases hpeek : s.store.peek l with
      | none => simp [Store.content, hpeek]
      | some t =>
        have happ : ¬ s.store.isAppended p expected t = true := fun happ => h ⟨t, hpeek, happ⟩
        simp [Store.content, hpeek, Store.appended, happ]
    · obtain ⟨t, ht, happ, -⟩ := mem_additions_iff.1 hc
      exact ⟨t, heq ▸ ht, happ⟩

theorem becomes_append (hs : s.store.Sound) (p : Tuple) (suffix : List UInt8)
    (expected : Option Nat) (now : Timestamp) :
    s.Becomes (s.additions { p with owner := some s.localId } suffix expected now)
      (s.append p suffix expected now).1 := by
  let own : Tuple := { p with owner := some s.localId }
  let store := (s.store.append own suffix expected now).1
  have hchanged : (s.store.append own suffix expected now).2
      = (s.additions own suffix expected now).map (·.tuple) := by
    simp [Store.append, additions, Table.values, List.filter_map, Function.comp_def]
  have hspace : (s.append p suffix expected now).1
      = { s.noticeAll (s.additions own suffix expected now) with store } := by
    rw [← noticeAll_withStore]
    show (afterWrites { s with store } (s.store.append own suffix expected now).2).1 = _
    rw [hchanged, afterWrites_fst, List.foldl_map, noticeAll]
    refine List.foldl_ext _ _ _ fun space c hc => ?_
    obtain ⟨_, _, _, hmode, -⟩ := mem_additions_iff.1 hc
    simp [notice, hmode]
  rw [hspace]
  refine ⟨fun c hc => ?_, rfl, s.content_append .., hs.append .., rfl⟩
  obtain ⟨t, ht, -, -, htuple⟩ := mem_additions_iff.1 hc
  rw [htuple]
  exact Store.location_extend suffix now (hs.filed _ t ht)

omit [Callback κ] in
theorem tidy_additions (s : Space κ) (p : Tuple) (suffix : List UInt8) (expected : Option Nat)
    (now : Timestamp) : Change.Tidy (s.additions p suffix expected now) :=
  (s.distinct_additions p suffix expected now).imp fun hne _ => hne.symm

/-! ## Reading -/

theorem becomes_get (hs : s.store.Sound) {l : Location} {onlyFresh : Bool} {found : Option Tuple}
    (h : s.get l onlyFresh = .ok (s', found)) : s.Becomes [] s' := by
  rw [get] at h
  cases hg : s.store.get l onlyFresh with
  | error e => simp [hg, bind, Except.bind] at h
  | ok r =>
    simp only [hg, bind, Except.bind, pure, Except.pure] at h
    cases h
    exact .of_content (hs.get hg) (Store.content_get hg) (Store.policy_get hg)

theorem becomes_search (hs : s.store.Sound) (p : Tuple) : s.Becomes [] (s.search p).1 :=
  .of_content (hs.search p) (s.store.content_search p) rfl

theorem becomes_first (hs : s.store.Sound) (p : Tuple) : s.Becomes [] (s.first p).1 :=
  .of_content (hs.first p) (s.store.content_first p) (s.store.policy_first p)

end Space

end Blackboard
