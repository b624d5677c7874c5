import Mathlib.Algebra.Order.BigOperators.Group.List
import Mathlib.Algebra.Order.Ring.Nat
import Blackboard.Proofs.Space.Session

/-!
# The list of keys

The space keeps a tuple that lists the keys of the process. `Accurate` says what it should hold, without
reference to the code that writes it. An operation that leaves the list alone either changes nothing the
list is about or ends with a new list, with one exception: a sweep looks at the key of the last value it
removed to tell whether it was the list itself that expired, and takes another process's list for it.
-/

namespace Blackboard

variable {κ : Type}

namespace Space

variable {s s' s'' : Space κ}

/-- The list of keys is stored, and it names every key of the process that has a value, in their order,
but for its own. -/
def Accurate (s : Space κ) : Prop :=
  ∃ (t : Tuple) (keys : List Key), s.peek s.listingPlace = some t ∧
    keys.Pairwise (fun a b => compare a b = .lt) ∧
    (∀ k, k ∈ keys ↔ k.render ≠ listingName ∧ s.exists? ⟨s.localId, k⟩ = true) ∧
    t.payload = some (Text.octets ("(" ++ " ".intercalate (keys.map Key.render) ++ ")"))

/-- The keys that the list should name. -/
def listedKeys (s : Space κ) : List Key :=
  (s.store.keysOf s.localId).filter (·.render ≠ listingName)

theorem listing_eq (s : Space κ) :
    s.listing = "(" ++ " ".intercalate (s.listedKeys.map Key.render) ++ ")" := by
  rw [listing, List.filter_map]
  rfl

theorem mem_listedKeys_iff {k : Key} :
    k ∈ s.listedKeys ↔ k.render ≠ listingName ∧ s.exists? ⟨s.localId, k⟩ = true := by
  rw [listedKeys, List.mem_filter, Store.keysOf, List.mem_map, decide_eq_true_iff, and_comm]
  refine and_congr_right fun _ => ⟨?_, fun h => ?_⟩
  · rintro ⟨⟨owner, key⟩, hmem, rfl⟩
    obtain ⟨hmem, howner⟩ := List.mem_filter.1 hmem
    obtain rfl : owner = s.localId := of_decide_eq_true howner
    exact (s.store.tuples.mem_keys_iff _).1 hmem
  · exact ⟨⟨s.localId, k⟩, List.mem_filter.2 ⟨(s.store.tuples.mem_keys_iff _).2 h, by simp⟩, rfl⟩

theorem sorted_listedKeys (s : Space κ) :
    s.listedKeys.Pairwise fun a b => compare a b = .lt := by
  refine List.Pairwise.filter _ (List.pairwise_map.2 ?_)
  have hkeys : s.store.tuples.keys.Pairwise fun a b => compare a b = .lt :=
    List.pairwise_map.2 s.store.tuples.sorted
  refine (hkeys.filter _).imp_of_mem fun {a b} ha hb hlt => ?_
  have howner : a.owner = b.owner :=
    (of_decide_eq_true (List.mem_filter.1 ha).2).trans (of_decide_eq_true (List.mem_filter.1 hb).2).symm
  have hsame : compare b.owner b.owner = .eq := Std.ReflCmp.compare_self
  rw [Location.compare_eq, howner, hsame] at hlt
  exact hlt

theorem accurate_iff : s.Accurate ↔
    ∃ t, s.peek s.listingPlace = some t ∧ t.payload = some (Text.octets s.listing) := by
  constructor
  · rintro ⟨t, keys, ht, hsorted, hkeys, hpayload⟩
    have heq : keys = s.listedKeys :=
      Table.eq_of_mem_iff hsorted s.sorted_listedKeys fun k => (hkeys k).trans mem_listedKeys_iff.symm
    exact ⟨t, ht, by rw [hpayload, heq, listing_eq]⟩
  · rintro ⟨t, ht, hpayload⟩
    exact ⟨t, s.listedKeys, ht, s.sorted_listedKeys, fun _ => mem_listedKeys_iff,
      by rw [hpayload, listing_eq]⟩

theorem exists?_eq_content (s : Space κ) (l : Location) :
    s.exists? l = (s.store.content l).isSome := by
  rw [Store.content, Option.isSome_map]
  rfl

/-! ## Lists that differ -/

theorem length_intercalate {keys : List Key} (h : keys ≠ []) :
    (" ".intercalate (keys.map Key.render)).length + 1
      = (keys.map fun k => k.render.length + 1).sum := by
  induction keys with
  | nil => exact absurd rfl h
  | cons k rest ih =>
    by_cases hrest : rest = []
    · simp [hrest]
    · have hspace : " ".length = 1 := rfl
      rw [List.map_cons, String.intercalate_cons_of_ne_nil (by simpa using hrest),
        String.length_append, String.length_append, List.map_cons, List.sum_cons, ← ih hrest]
      omega

theorem sum_filter_le {ks : List Key} (f : Key → Nat) (P : Key → Bool) {k : Key} (hk : k ∈ ks)
    (hP : P k = false) : ((ks.filter P).map f).sum + f k ≤ (ks.map f).sum := by
  have hsplit : (ks.map f).sum
      = ((ks.filter P).map f).sum + ((ks.filter fun x => !P x).map f).sum := by
    rw [← List.sum_append, ← List.map_append]
    exact ((List.filter_append_perm P ks).map f).sum_nat.symm
  have hmem : f k ∈ (ks.filter fun x => !P x).map f :=
    List.mem_map_of_mem (List.mem_filter.2 ⟨hk, by simp [hP]⟩)
  rw [hsplit]
  exact Nat.add_le_add_left (List.le_sum_of_mem hmem) _

/-- A list of keys from which one is left out is written differently. -/
theorem written_filter_ne {ks : List Key} (P : Key → Bool) {k : Key} (hk : k ∈ ks)
    (hP : P k = false) (hname : k.render ≠ "") :
    "(" ++ " ".intercalate ((ks.filter P).map Key.render) ++ ")"
      ≠ "(" ++ " ".intercalate (ks.map Key.render) ++ ")" := by
  intro heq
  have hlength := congrArg String.length heq
  simp only [String.length_append] at hlength
  have hall := length_intercalate (List.ne_nil_of_mem hk)
  have hle := sum_filter_le (fun k => k.render.length + 1) P hk hP
  have hpos : 0 < k.render.length :=
    Nat.pos_of_ne_zero fun h => hname (String.length_eq_zero_iff.1 h)
  by_cases hnil : ks.filter P = []
  · rw [hnil] at hlength hle
    have hzero : (" ".intercalate (([] : List Key).map Key.render)).length = 0 := rfl
    simp only [List.map_nil, List.sum_nil] at hle
    omega
  · have hsome := length_intercalate hnil
    omega

theorem octets_injective {a b : String} (h : Text.octets a = Text.octets b) : a = b := by
  have hback := congrArg Text.ofOctets? h
  rwa [Text.ofOctets?_octets, Text.ofOctets?_octets, Option.some.injEq] at hback

/-- Nothing changed that the list of keys is about, and it was not changed itself. -/
structure Keeps (s s' : Space κ) : Prop where
  localId : s'.localId = s.localId
  listing : s'.store.content s.listingPlace = s.store.content s.listingPlace
  keys : ∀ k, k.render ≠ listingName → s'.exists? ⟨s.localId, k⟩ = s.exists? ⟨s.localId, k⟩

/-- The list of keys is stored as the space writes it, without a deadline. -/
def Renewed (s : Space κ) : Prop :=
  ∃ t, s.store.content s.listingPlace = some t ∧ t.payload = some (Text.octets s.listing) ∧
    t.expiry = some .never

theorem listing_congr (hid : s'.localId = s.localId)
    (hkeys : ∀ k, k.render ≠ listingName →
      s'.exists? ⟨s.localId, k⟩ = s.exists? ⟨s.localId, k⟩) :
    s'.listing = s.listing := by
  have heq : s'.listedKeys = s.listedKeys := by
    refine Table.eq_of_mem_iff s'.sorted_listedKeys s.sorted_listedKeys fun k => ?_
    rw [mem_listedKeys_iff, mem_listedKeys_iff, hid]
    exact and_congr_right fun hk => by rw [hkeys k hk]
  rw [listing_eq, listing_eq, heq]

theorem Renewed.accurate (h : s.Renewed) : s.Accurate := by
  obtain ⟨t, ht, hpayload, -⟩ := h
  obtain ⟨u, hu, rfl⟩ := Option.map_eq_some_iff.1 ht
  exact accurate_iff.2 ⟨u, hu, hpayload⟩

namespace Keeps

theorem of_store (hid : s'.localId = s.localId) (hstore : s'.store = s.store) : s.Keeps s' where
  localId := hid
  listing := by rw [hstore]
  keys _ _ := by rw [exists?, exists?, hstore]

theorem of_content (hid : s'.localId = s.localId)
    (hcontent : ∀ l, l.owner = s.localId → s'.store.content l = s.store.content l) : s.Keeps s' where
  localId := hid
  listing := hcontent _ rfl
  keys k _ := by rw [exists?_eq_content, exists?_eq_content, hcontent ⟨s.localId, k⟩ rfl]

theorem of_reading [Callback κ] (h : s.Becomes [] s') : s.Keeps s' :=
  of_content h.localId fun l _ => by
    rw [h.content]
    rfl

theorem renewed (h : s.Keeps s') (hs : s.Renewed) : s'.Renewed := by
  obtain ⟨t, ht, hpayload, hexpiry⟩ := hs
  have hplace : s'.listingPlace = s.listingPlace := congrArg (Location.mk · listingKey) h.localId
  refine ⟨t, ?_, ?_, hexpiry⟩
  · rw [hplace, h.listing, ht]
  · rw [hpayload, listing_congr h.localId h.keys]

end Keeps

/-! ## What each operation does to the list -/

variable [Callback κ]

theorem keeps_stored {l : Location} {t : Tuple} (hl : l ≠ s.listingPlace)
    (hheld : l.owner = s.localId → l.key.render ≠ listingName → s.exists? l = true) :
    s.Keeps (s.stored l t) where
  localId := localId_stored ..
  listing := by rw [content_stored, if_neg hl.symm]
  keys k hk := by
    rw [exists?_eq_content, content_stored]
    split
    next heq => rw [heq, hheld (heq ▸ rfl) (heq ▸ hk)]; rfl
    next => rw [exists?_eq_content]

theorem renewed_refreshListing (hkeep : s.keepsListing = true) {changed : Key}
    (hne : changed.render ≠ listingName) (now : Timestamp) :
    (s.refreshListing changed now).Renewed := by
  obtain ⟨t, hpayload, hexpiry, -, heq⟩ := refreshListing_of_keepsListing hkeep hne now
  have hplace : (s.stored s.listingPlace t).listingPlace = s.listingPlace :=
    congrArg (Location.mk · listingKey) (localId_stored ..)
  have hlisting : (s.stored s.listingPlace t).listing = s.listing := by
    refine listing_congr (localId_stored ..) fun k hk => ?_
    have hne : (⟨s.localId, k⟩ : Location) ≠ s.listingPlace := by
      intro heq
      obtain rfl : k = listingKey := congrArg Location.key heq
      exact hk render_listingKey
    rw [exists?_eq_content, content_stored, if_neg hne, exists?_eq_content]
  rw [heq]
  refine ⟨t.ignoringFresh, ?_, ?_, hexpiry⟩
  · rw [hplace, content_stored, if_pos rfl]
  · rw [hlisting]
    exact hpayload

/-- Renewing the list does that, or nothing. -/
theorem keeps_or_renewed_refreshListing (hkeep : s'.keepsListing = true) {changed : Key}
    (h : changed.render = listingName → s.Keeps s') (now : Timestamp) :
    s.Keeps (s'.refreshListing changed now) ∨ (s'.refreshListing changed now).Renewed := by
  by_cases hkey : changed.render = listingName
  · rw [refreshListing_of_eq (.inr hkey)]
    exact .inl (h hkey)
  · exact .inr (renewed_refreshListing hkeep hkey now)

theorem keeps_purge {l : Location} {t : Tuple} (hl : l ≠ s.listingPlace)
    (hlocal : l.owner = s.localId → l.key.render = listingName) : s.Keeps (s.purge l t).1 where
  localId := rfl
  listing := (Store.content_remove s.store l _).trans (if_neg hl.symm)
  keys k hk := by
    have hne : (⟨s.localId, k⟩ : Location) ≠ l := by
      intro heq
      subst heq
      exact hk (hlocal rfl)
    rw [exists?_eq_content, exists?_eq_content]
    exact congrArg Option.isSome ((Store.content_remove s.store l _).trans (if_neg hne))

theorem keeps_or_renewed_delete (hkeep : s.keepsListing = true) {l : Location}
    (hl : l ≠ s.listingPlace) {remover : Option Owner} {now : Timestamp} {m : Mutation}
    (h : s.delete l remover now = .ok (s', m)) : s.Keeps s' ∨ s'.Renewed := by
  rcases delete_eq_ok h with ⟨-, rfl, -⟩ | ⟨t, -, hs', -⟩
  · exact .inl (.of_store rfl rfl)
  · subst hs'
    split
    next howner =>
      refine keeps_or_renewed_refreshListing ?_ (fun hkey => ?_) now
      · exact hkeep
      · exact keeps_purge hl fun _ => hkey
    next howner => exact .inl (keeps_purge hl fun hlocal => absurd hlocal howner)

theorem keeps_or_renewed_deleteMarked (hkeep : s.keepsListing = true) {t : Tuple}
    (ht : ¬ (t.owner = some s.localId ∧ t.key = listingKey)) {now : Timestamp} {m : Mutation}
    (h : s.deleteMarked t now = .ok (s', m)) : s.Keeps s' ∨ s'.Renewed := by
  rw [deleteMarked] at h
  split at h
  next => cases h
  next owner howner =>
    refine keeps_or_renewed_delete hkeep (fun hl => ht ?_) h
    obtain ⟨rfl, hkey⟩ := Location.mk.inj hl
    exact ⟨howner, hkey⟩

theorem keeps_or_renewed_write (hkeep : s.keepsListing = true) {t : Tuple}
    (ht : ¬ (t.owner = some s.localId ∧ t.key = listingKey)) {now : Timestamp} {m : Mutation}
    (h : s.write t now = .ok (s', m)) : s.Keeps s' ∨ s'.Renewed := by
  cases hdel : t.isDeletion with
  | true =>
    rw [write, if_pos hdel] at h
    exact keeps_or_renewed_deleteMarked hkeep ht h
  | false =>
    obtain ⟨l, hl, hs', -⟩ := write_eq_ok hdel h
    obtain ⟨howner, hkey⟩ := Tuple.location_owner_key hl
    have hne : l ≠ s.listingPlace := by
      intro heq
      subst heq
      exact ht ⟨howner, hkey⟩
    subst hs'
    split
    next =>
      refine keeps_or_renewed_refreshListing (by rwa [keepsListing_stored]) (fun hlisting => ?_) now
      exact keeps_stored hne fun _ hother => absurd (hkey ▸ hlisting) hother
    next hheld =>
      refine .inl (keeps_stored hne fun _ _ => ?_)
      simpa [exists?, Table.contains, peek, Store.peek, Store.exists?, Option.isSome_iff_ne_none]
        using hheld

theorem keeps_writeReplica {t : Tuple} {now : Timestamp} {m : Mutation}
    (ht : t.owner ≠ some s.localId) (hdel : t.isDeletion = false)
    (h : s.writeReplica t now = .ok (s', m)) : s.Keeps s' := by
  obtain ⟨l, hl, ⟨rfl, -⟩ | ⟨rfl, -⟩⟩ := writeReplica_eq_ok hdel h
  · exact .of_store rfl rfl
  · have hforeign : l.owner ≠ s.localId := fun hlocal =>
      ht (hlocal ▸ (Tuple.location_owner_key hl).1)
    exact keeps_stored (fun heq => hforeign (heq ▸ rfl)) fun hlocal => absurd hlocal hforeign

theorem keeps_or_renewed_writeReplica (hkeep : s.keepsListing = true) {t : Tuple} {now : Timestamp}
    {m : Mutation} (ht : t.owner ≠ some s.localId)
    (h : s.writeReplica t now = .ok (s', m)) : s.Keeps s' ∨ s'.Renewed := by
  cases hdel : t.isDeletion with
  | true =>
    rw [writeReplica, if_pos hdel] at h
    exact keeps_or_renewed_deleteMarked hkeep (fun hplace => ht hplace.1) h
  | false => exact .inl (keeps_writeReplica ht hdel h)

/-- An append changes no key, and the list only if it goes to the list. -/
theorem keeps_append (hs : s.store.Sound) {p : Tuple} {suffix : List UInt8} {expected : Option Nat}
    {now : Timestamp} (h : ∀ t, s.peek s.listingPlace = some t →
      s.store.isAppended { p with owner := some s.localId } expected t = false) :
    s.Keeps (s.append p suffix expected now).1 := by
  have hbecomes := becomes_append hs p suffix expected now
  refine ⟨hbecomes.localId, ?_, fun k _ => ?_⟩
  · rw [hbecomes.content]
    refine Change.replay_of_forall_ne (fun c hc heq => ?_) _
    obtain ⟨t, ht, happended, -⟩ := mem_additions_iff.1 hc
    exact nomatch (h t (heq ▸ ht)).symm.trans happended
  · rw [exists?_eq_content, exists?_eq_content, hbecomes.content]
    by_cases hany : ∃ c ∈ s.additions { p with owner := some s.localId } suffix expected now,
        c.place = ⟨s.localId, k⟩
    · obtain ⟨c, hc, hplace⟩ := hany
      obtain ⟨t, ht, -, hmode, -⟩ := mem_additions_iff.1 hc
      rw [← hplace, Change.replay_of_mem hc (s.distinct_additions ..), Change.outcome, hmode,
        Store.content, show s.store.peek c.place = some t from ht]
      rfl
    · rw [Change.replay_of_forall_ne fun c hc heq => hany ⟨c, hc, heq⟩]

omit [Callback κ] in
theorem keeps_or_renewed_settled {α : Type} {r : Except TupleError (Space κ × α)}
    (h : ∀ {s' m}, r = .ok (s', m) → s.Keeps s' ∨ s'.Renewed) :
    s.Keeps (s.settled r) ∨ (s.settled r).Renewed := by
  cases r with
  | error e => exact .inl (.of_store rfl rfl)
  | ok r => exact h rfl

/-! ## Sweeps -/

/-- A sweep that takes away a key of the process and ends with some list of keys. -/
def Skips (s : Space κ) (now : Timestamp) : Prop :=
  (∃ l ∈ s.store.due now, l.owner = s.localId ∧ l.key.render ≠ listingName) ∧
    ∃ l, (s.store.due now).getLast? = some l ∧ l.key.render = listingName

theorem content_purgeAll (hs : s.store.Sound) (now : Timestamp) (l : Location) :
    (s.purgeAll (s.store.due now)).1.store.content l
      = if l ∈ s.store.due now then none else s.store.content l := by
  rw [(becomes_purgeAll hs (hs.nodup_due now)).1.content]
  split
  next hl =>
    rw [← s.places_due hs now] at hl
    obtain ⟨c, hc, rfl⟩ := List.mem_map.1 hl
    have hdistinct : (s.removals (s.store.due now)).Pairwise fun a b => a.place ≠ b.place := by
      refine List.pairwise_map.1 ?_
      rw [s.places_due hs now]
      exact hs.nodup_due now
    rw [Change.replay_of_mem hc hdistinct, Change.outcome, (mem_removals_iff.1 hc).2.1]
  next hl =>
    refine Change.replay_of_forall_ne (fun c hc heq => hl ?_) _
    exact heq ▸ (mem_removals_iff.1 hc).1

/-- A sweep that skips the list only removes what expired. -/
theorem expire_of_skips (hs : s.store.Sound) {now : Timestamp} (h : s.Skips now) :
    (s.expire now).1 = (s.purgeAll (s.store.due now)).1 := by
  obtain ⟨-, l, hlast, hlisting⟩ := h
  rw [← s.places_due hs now, List.getLast?_map, Option.map_eq_some_iff] at hlast
  obtain ⟨c, hc, rfl⟩ := hlast
  have hplaced := (becomes_purgeAll hs (hs.nodup_due now)).1.placed c (List.mem_of_getLast? hc)
  have hkey : c.tuple.key.render = listingName := by
    rw [(Tuple.location_owner_key hplaced).2, hlisting]
  rw [(expire_fst hs now).2, hc]
  dsimp only
  split
  next => exact refreshListing_of_eq (.inr hkey) now
  next => rfl

/-- What a sweep does to the list: nothing, if no key of the process expired; else it renews it, unless
the last value it removes lies under the key of a list. -/
theorem expire_cases (hs : s.store.Sound) (hkeep : s.keepsListing = true) {now : Timestamp}
    (hlisting : s.listingPlace ∉ s.store.due now) :
    s.Keeps (s.expire now).1 ∨ (s.expire now).1.Renewed ∨
      s.Skips now ∧ (s.expire now).1 = (s.purgeAll (s.store.due now)).1 := by
  have hbecomes := (becomes_purgeAll hs (hs.nodup_due now)).1
  have hplaces := congrArg List.getLast? (s.places_due hs now)
  rw [List.getLast?_map] at hplaces
  have hkept (h : ∀ l ∈ s.store.due now, l.owner = s.localId → l.key.render = listingName) :
      s.Keeps (s.purgeAll (s.store.due now)).1 := by
    refine ⟨hbecomes.localId, ?_, fun k hk => ?_⟩
    · rw [content_purgeAll hs, if_neg hlisting]
    · rw [exists?_eq_content, exists?_eq_content, content_purgeAll hs,
        if_neg fun hmem => hk (h _ hmem rfl)]
  rw [(expire_fst hs now).2]
  cases hlast : (s.removals (s.store.due now)).getLast? with
  | none =>
    rw [hlast, Option.map_none, eq_comm, List.getLast?_eq_none_iff] at hplaces
    exact .inl (hkept fun l hl => by rw [hplaces] at hl; exact nomatch hl)
  | some c =>
    rw [hlast, Option.map_some] at hplaces
    dsimp only
    split
    next =>
      have hkey : c.tuple.key = c.place.key :=
        (Tuple.location_owner_key (hbecomes.placed c (List.mem_of_getLast? hlast))).2
      by_cases hname : c.tuple.key.render = listingName
      · rw [refreshListing_of_eq (.inr hname)]
        by_cases hlocal : ∃ l ∈ s.store.due now, l.owner = s.localId ∧ l.key.render ≠ listingName
        · exact .inr (.inr ⟨⟨hlocal, c.place, hplaces.symm, hkey ▸ hname⟩, rfl⟩)
        · exact .inl (hkept fun l hl howner => by_contra fun hne => hlocal ⟨l, hl, howner, hne⟩)
      · exact .inr (.inl (renewed_refreshListing (hbecomes.keepsListing.trans hkeep) hname now))
    next hnone =>
      refine .inl (hkept fun l hl howner => absurd ?_ hnone)
      exact List.any_eq_true.2 ⟨l, hl, decide_eq_true howner⟩

end Space

namespace Session

variable [Callback κ] {s s' : Session κ}

omit [Callback κ] in
/-- An operation that leaves the list of keys to the space: it does not itself write, append to or
delete the list, and copies are of tuples of other processes. -/
def LeavesListing (s : Session κ) : Operation κ → Prop
  | .access (.write t _) => ¬ (t.owner = some s.space.localId ∧ t.key = Space.listingKey)
  | .access (.writeReplica t _) => t.owner ≠ some s.space.localId
  | .access (.delete l _ _) => l ≠ s.space.listingPlace
  | .access (.append p _ expected _) => ∀ t, s.space.peek s.space.listingPlace = some t →
    s.space.store.isAppended { p with owner := some s.space.localId } expected t = false
  | _ => True

omit [Callback κ] in
/-- A sweep that takes away a key of the process and ends with some list of keys. -/
def SkipsListing (s : Session κ) (op : Operation κ) : Prop :=
  ∃ now, op = .access (.expire now) ∧ s.space.Skips now

variable {localId : Owner} {policy : PayloadCase} {handles : Allocator}
  {guard : Session κ → Operation κ → Prop}

/-- What every run from a space that keeps the list has: the list, if there is one, never expires. -/
structure Keeping (localId : Owner) (s : Session κ) : Prop where
  coherent : s.space.Coherent
  keepsListing : s.space.keepsListing = true
  localId : s.space.localId = localId
  never : ∀ t, s.space.store.content s.space.listingPlace = some t → t.expiry = some .never

omit [Callback κ] in
theorem keeping_start :
    Keeping localId (start localId policy true handles : Session κ) :=
  ⟨coherent_start .., rfl, rfl, fun _ ht => nomatch ht⟩

omit [Callback κ] in
/-- No sweep takes the list away. -/
theorem Keeping.not_due (h : Keeping localId s) (now : Timestamp) :
    s.space.listingPlace ∉ s.space.store.due now := by
  intro hmem
  obtain ⟨t, time, ht, htime, -⟩ := h.coherent.sound.mem_due hmem
  have hnever : t.expiry = some .never :=
    h.never t.ignoringFresh (Option.map_eq_some_iff.2 ⟨t, ht, rfl⟩)
  rw [Tuple.deadline?, hnever] at htime
  cases htime

/-- What an operation does to the list of keys. -/
theorem Keeping.listing_step (h : Keeping localId s) {op : Operation κ} (hop : s.LeavesListing op) :
    s.space.Keeps (s.step op).space ∨ (s.step op).space.Renewed ∨
      ∃ now, op = .access (.expire now) ∧ s.space.Skips now ∧
        (s.step op).space = (s.space.purgeAll (s.space.store.due now)).1 := by
  have hs := h.coherent.sound
  have hkeep := h.keepsListing
  cases op with
  | access a =>
    cases a with
    | write t now =>
      exact (Space.keeps_or_renewed_settled (Space.keeps_or_renewed_write hkeep hop)).imp_right .inl
    | writeReplica t now =>
      exact (Space.keeps_or_renewed_settled
        (Space.keeps_or_renewed_writeReplica hkeep hop)).imp_right .inl
    | delete l remover now =>
      exact (Space.keeps_or_renewed_settled (Space.keeps_or_renewed_delete hkeep hop)).imp_right .inl
    | expire now =>
      exact (Space.expire_cases hs hkeep (h.not_due now)).imp_right
        (.imp_right fun h => ⟨now, rfl, h⟩)
    | append p suffix expected now => exact .inl (Space.keeps_append hs hop)
    | get l onlyFresh =>
      exact (Space.keeps_or_renewed_settled fun h =>
        .inl (.of_reading (Space.becomes_get hs h))).imp_right .inl
    | search p => exact .inl (.of_reading (Space.becomes_search hs p))
    | first p => exact .inl (.of_reading (Space.becomes_first hs p))
  | allocate => exact .inl (.of_store rfl rfl)
  | subscribe i subscription => exact .inl (.of_store rfl rfl)
  | subscribeIndirect i prototype callback => exact .inl (.of_store rfl rfl)
  | unsubscribe i =>
    exact .inl (.of_store (Space.localId_dropped ..) (Space.store_dropped ..))

theorem Keeping.step (h : Keeping localId s) {op : Operation κ} (hop : s.LeavesListing op) :
    Keeping localId (s.step op) where
  coherent := coherent_step h.coherent op
  keepsListing := (s.keepsListing_step h.coherent.sound op).trans h.keepsListing
  localId := (s.localId_step h.coherent.sound op).trans h.localId
  never := by
    intro t ht
    rcases h.listing_step hop with
      hkeeps | ⟨u, hu, -, hexpiry⟩ | ⟨now, -, -, hpurged⟩
    · rw [Space.listingPlace, hkeeps.localId] at ht
      exact h.never t (hkeeps.listing.symm.trans ht)
    · obtain rfl := Option.some.inj (hu.symm.trans ht)
      exact hexpiry
    · have hid := (Space.becomes_purgeAll h.coherent.sound (h.coherent.sound.nodup_due now)).1.localId
      rw [hpurged, Space.listingPlace, hid, Space.content_purgeAll h.coherent.sound] at ht
      split at ht
      next => cases ht
      next => exact h.never t ht

theorem Runs.keeping (h : Runs guard s s') (hguard : ∀ s op, guard s op → s.LeavesListing op)
    (hs : Keeping localId s) : Keeping localId s' :=
  h.invariant (I := Keeping localId) (fun s op hs hop => hs.step (hguard s op hop)) hs

/-- In a run without a sweep that skips the list, the list is as the space writes it from the first
operation on that changes what it is about. -/
theorem Runs.renewed_or {P : Space κ → Prop} (h : Runs guard s s')
    (hguard : ∀ s op, guard s op → s.LeavesListing op ∧ ¬ s.SkipsListing op)
    (hkeeps : ∀ space space' : Space κ, space.Keeps space' → P space → P space')
    (hs : Keeping localId s) (hstart : s.space.Renewed ∨ P s.space) :
    s'.space.Renewed ∨ P s'.space := by
  refine (h.invariant (I := fun s => Keeping localId s ∧ (s.space.Renewed ∨ P s.space)) ?_
    ⟨hs, hstart⟩).2
  rintro s op ⟨hs, hcase⟩ hop
  refine ⟨hs.step (hguard s op hop).1, ?_⟩
  rcases hs.listing_step (hguard s op hop).1 with
    hkept | hrenewed | ⟨now, rfl, hskips, -⟩
  · exact hcase.imp hkept.renewed (hkeeps _ _ hkept)
  · exact .inl hrenewed
  · exact absurd ⟨now, rfl, hskips⟩ (hguard s _ hop).2

/-- Once a key was created the list is right, as long as no sweep skips it. -/
theorem Runs.accurate (h : Runs guard (start localId policy true handles) s)
    (hguard : ∀ s op, guard s op → s.LeavesListing op ∧ ¬ s.SkipsListing op)
    (hcreated : ∃ k, k.render ≠ Space.listingName ∧ s.space.exists? ⟨localId, k⟩ = true)
    (h' : Runs guard s s') : s'.space.Accurate := by
  have hs := h.keeping (fun s op hop => (hguard s op hop).1) keeping_start
  have hrenewed : s.space.Renewed := by
    -- There is a key, so the list was written at some time before.
    refine (h.renewed_or (P := fun space => ∀ k, k.render ≠ Space.listingName →
      space.exists? ⟨space.localId, k⟩ = false) hguard ?_ keeping_start
      (.inr fun _ _ => rfl)).resolve_right fun hnone => ?_
    · intro space space' hkept hnone k hk
      rw [hkept.localId, hkept.keys k hk]
      exact hnone k hk
    · obtain ⟨k, hk, hexists⟩ := hcreated
      exact nomatch (hs.localId ▸ hnone k hk).symm.trans hexists
  exact ((h'.renewed_or (P := fun _ => False) hguard (fun _ _ _ => id) hs
    (.inl hrenewed)).resolve_right id).accurate

/-- A sweep leaves those keys of the process whose values have not expired. -/
theorem listedKeys_purgeAll {s : Space κ} (hs : s.store.Sound) (now : Timestamp) :
    (s.purgeAll (s.store.due now)).1.listedKeys = s.listedKeys.filter fun k =>
      (⟨s.localId, k⟩ : Location) ∉ s.store.due now := by
  refine Table.eq_of_mem_iff (Space.sorted_listedKeys _) (s.sorted_listedKeys.filter _) fun k => ?_
  rw [List.mem_filter, Space.mem_listedKeys_iff, Space.mem_listedKeys_iff,
    (Space.becomes_purgeAll hs (hs.nodup_due now)).1.localId, Space.exists?_eq_content,
    Space.exists?_eq_content, Space.content_purgeAll hs]
  by_cases hmem : (⟨s.localId, k⟩ : Location) ∈ s.store.due now <;> simp [hmem]

omit [Callback κ] in
/-- Where two lists of keys are right and one tuple holds both, the same keys are to be named. -/
theorem listing_eq_of_accurate {s s' : Space κ} (h : s.Accurate) (h' : s'.Accurate)
    (hlocal : s'.localId = s.localId)
    (hheld : s'.store.content s.listingPlace = s.store.content s.listingPlace) :
    s'.listing = s.listing := by
  obtain ⟨t, ht, hpayload⟩ := Space.accurate_iff.1 h
  obtain ⟨t', ht', hpayload'⟩ := Space.accurate_iff.1 h'
  have hplace : s'.listingPlace = s.listingPlace :=
    congrArg (Location.mk · Space.listingKey) hlocal
  have hsame : some t'.ignoringFresh = some t.ignoringFresh := by
    calc some t'.ignoringFresh
        = s'.store.content s.listingPlace :=
          (Option.map_eq_some_iff.2 ⟨t', hplace ▸ ht', rfl⟩).symm
      _ = s.store.content s.listingPlace := hheld
      _ = some t.ignoringFresh := Option.map_eq_some_iff.2 ⟨t, ht, rfl⟩
  have hoctets : t'.payload = t.payload := by
    show t'.ignoringFresh.payload = t.ignoringFresh.payload
    rw [Option.some.inj hsame]
  rw [hpayload, hpayload'] at hoctets
  exact Space.octets_injective (Option.some.inj hoctets)

/-- A sweep that skips the list leaves it wrong: it still names the keys that are gone. -/
theorem Keeping.not_accurate_of_skips (h : Keeping localId s) (haccurate : s.space.Accurate)
    {now : Timestamp} (hskips : s.space.Skips now)
    (hnames : ∀ l ∈ s.space.store.due now, l.owner = localId → l.key.render ≠ "") :
    ¬ (s.space.expire now).1.Accurate := by
  have hs := h.coherent.sound
  obtain ⟨l, hl, howner, hkey⟩ := hskips.1
  rw [Space.expire_of_skips hs hskips]
  -- The list lost the keys that expired, the tuple that holds it is the same.
  have hlocal := (Space.becomes_purgeAll hs (hs.nodup_due now)).1.localId
  have hheld : (s.space.purgeAll (s.space.store.due now)).1.store.content s.space.listingPlace
      = s.space.store.content s.space.listingPlace := by
    rw [Space.content_purgeAll hs, if_neg (h.not_due now)]
  have hlisted : l.key ∈ s.space.listedKeys := by
    obtain ⟨t, -, ht, -⟩ := hs.mem_due hl
    refine Space.mem_listedKeys_iff.2 ⟨hkey, ?_⟩
    rw [← howner]
    exact Option.isSome_iff_exists.2 ⟨t, ht⟩
  intro haccurate'
  have hsame := listing_eq_of_accurate haccurate haccurate' hlocal hheld
  rw [Space.listing_eq, Space.listing_eq, listedKeys_purgeAll hs] at hsame
  refine Space.written_filter_ne _ hlisted ?_ (hnames l hl (howner.trans h.localId)) hsame
  rw [← howner]
  simpa using hl

/-- Once a key of the process was created its list of keys is right, in every run that leaves the list to
the space and in which no sweep skips it. Any sweep that skips a list that was right leaves it wrong. -/
theorem accurate_unless_skipped (localId : Owner) (policy : PayloadCase) (handles : Allocator) :
    (∀ s s' : Session κ,
      Runs (fun s op => s.LeavesListing op ∧ ¬ s.SkipsListing op)
        (start localId policy true handles) s →
      (∃ k, k.render ≠ Space.listingName ∧ s.space.exists? ⟨localId, k⟩ = true) →
      Runs (fun s op => s.LeavesListing op ∧ ¬ s.SkipsListing op) s s' →
      s'.space.Accurate) ∧
    ∀ (s : Session κ) (now : Timestamp),
      Runs LeavesListing (start localId policy true handles) s →
      s.space.Accurate → s.space.Skips now →
      (∀ l ∈ s.space.store.due now, l.owner = localId → l.key.render ≠ "") →
      ¬ (s.step (.access (.expire now))).space.Accurate :=
  ⟨fun _ _ h hcreated h' => h.accurate (fun _ _ hop => hop) hcreated h',
    fun _ _ h haccurate hskips hnames =>
      (h.keeping (fun _ _ hop => hop) keeping_start).not_accurate_of_skips haccurate hskips hnames⟩

/-- A session with a key, and a copy of the list of another process that expires together with it. -/
def expiring : Session String :=
  (start 1 .insensitive true {}).run
    [.access (.write
        { Tuple.plainText 1 ⟨[some "a"]⟩ "v" with expiry := some (.dueAt ⟨1005, 0⟩) } ⟨1000, 0⟩),
      .access (.writeReplica
        { Tuple.plainText 2 Space.listingKey "()" with expiry := some (.dueAt ⟨1005, 0⟩) } ⟨1000, 0⟩)]

theorem runs_expiring :
    Runs (fun s op => s.LeavesListing op ∧ ¬ s.SkipsListing op)
      (start 1 .insensitive true {}) expiring := by
  refine runs_run ⟨⟨?_, ?_⟩, ⟨?_, ?_⟩, trivial⟩
  · exact fun h => absurd h.2 (by decide)
  · rintro ⟨_, hop, -⟩
    cases hop
  · exact fun h => absurd (Option.some.inj h) (by decide +kernel)
  · rintro ⟨_, hop, -⟩
    cases hop

theorem expiring_accurate_until_sweep : expiring.space.Accurate ∧
    ¬ (expiring.step (.access (.expire ⟨1010, 0⟩))).space.Accurate := by
  obtain ⟨haccurate, hskipped⟩ := accurate_unless_skipped (κ := String) 1 .insensitive {}
  have hexpiring := haccurate expiring expiring runs_expiring
    ⟨⟨[some "a"]⟩, by decide, by decide +kernel⟩ .refl
  have hdue : expiring.space.store.due ⟨1010, 0⟩
      = [⟨1, ⟨[some "a"]⟩⟩, ⟨2, Space.listingKey⟩] := by decide +kernel
  have hleaves := runs_expiring.mono fun _ _ hop => hop.1
  refine ⟨hexpiring, hskipped expiring ⟨1010, 0⟩ hleaves hexpiring ⟨?_, ?_⟩ ?_⟩
  · exact ⟨⟨1, ⟨[some "a"]⟩⟩, by rw [hdue]; exact List.mem_cons_self, by decide +kernel, by decide⟩
  · exact ⟨⟨2, Space.listingKey⟩, by rw [hdue]; rfl, rfl⟩
  · rw [hdue]
    decide +kernel

/-- A sweep that ends with the list of another process leaves a key in the list that is gone. -/
theorem not_accurate_after_sweep : ¬ ∀ s s' : Session String,
    Runs LeavesListing (start 1 .insensitive true {}) s →
    (∃ k, k.render ≠ Space.listingName ∧ s.space.exists? ⟨1, k⟩ = true) → Runs LeavesListing s s' →
    s'.space.Accurate := by
  intro hall
  have hleaves := runs_expiring.mono fun _ _ hop => hop.1
  obtain ⟨t, ht, hpayload⟩ := Space.accurate_iff.1 <|
    hall expiring (expiring.step (.access (.expire ⟨1010, 0⟩))) hleaves
      ⟨⟨[some "a"]⟩, by decide, by decide +kernel⟩ (.single ⟨.access (.expire ⟨1010, 0⟩), trivial, rfl⟩)
  have hold : ∀ t ∈ (expiring.step (.access (.expire ⟨1010, 0⟩))).space.peek ⟨1, Space.listingKey⟩,
      t.payload = some (Text.octets "(a)") := by decide +kernel
  exact absurd (hpayload.symm.trans (hold t ht)) (by decide +kernel)

end Session

end Blackboard
