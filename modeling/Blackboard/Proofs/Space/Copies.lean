import Mathlib.Data.List.MinMax
import Blackboard.Proofs.Space.Notification

/-!
# Copies that arrive in any order

The messages by which an owner spreads a value may be repeated and may overtake each other. A copy of a
value is accepted if its number exceeds all that came before, so what is held in the end does not depend
on the order of arrival, and a callback is shown the copies that were the newest when they came.

A message that asks for a removal is not compared with what is held: an old one takes a newer value
away.
-/

namespace Blackboard

variable {κ : Type}

/-- A value at a place as its owner spreads it: it has a number and is no request to remove it. -/
@[ext]
structure Copy (l : Location) where
  tuple : Tuple
  number : Nat
  numbered : tuple.seqno = some number
  located : tuple.location = .ok l
  remains : tuple.isDeletion = false

namespace Copy

variable {l : Location}

/-- The value that is held once a copy was accepted at `now`. -/
def arrived (c : Copy l) (now : Timestamp) (fresh : Bool) : Tuple :=
  { c.tuple with written := some (c.tuple.written.getD now), fresh := some fresh }

/-- True if a copy is newer than each of these. -/
def Exceeds (c : Copy l) (earlier : List (Copy l)) : Prop := ∀ b ∈ earlier, b.number < c.number

instance (c : Copy l) (earlier : List (Copy l)) : Decidable (c.Exceeds earlier) :=
  inferInstanceAs (Decidable (∀ b ∈ earlier, b.number < c.number))

/-- Of copies that arrive one after the other, those that are newer than all that came before. -/
def leaders (earlier : List (Copy l)) : List (Copy l × Timestamp) → List (Copy l × Timestamp)
  | [] => []
  | (c, now) :: rest =>
    if c.Exceeds earlier then (c, now) :: leaders (c :: earlier) rest
    else leaders (c :: earlier) rest

/-! ## The last of the leaders -/

theorem leaders_eq_nil {b : Copy l} {earlier : List (Copy l)} (hb : b ∈ earlier)
    {arrivals : List (Copy l × Timestamp)} (h : ∀ a ∈ arrivals, a.1.number ≤ b.number) :
    leaders earlier arrivals = [] := by
  induction arrivals generalizing earlier with
  | nil => rfl
  | cons a rest ih =>
    have hle : a.1.number ≤ b.number := h a List.mem_cons_self
    have hnot : ¬ a.1.Exceeds earlier := fun hexceeds => Nat.not_lt_of_le hle (hexceeds b hb)
    rw [leaders, if_neg hnot]
    exact ih (List.mem_cons_of_mem _ hb) fun a ha => h a (List.mem_cons_of_mem _ ha)

/-- The last leader is the first arrival with the highest number. -/
theorem getLast?_leaders {earlier : List (Copy l)} {c : Copy l} {now : Timestamp}
    {before after : List (Copy l × Timestamp)} (hearlier : c.Exceeds earlier)
    (hbefore : ∀ a ∈ before, a.1.number < c.number) (hafter : ∀ a ∈ after, a.1.number ≤ c.number) :
    (leaders earlier (before ++ (c, now) :: after)).getLast? = some (c, now) := by
  -- Whatever leads before `c` is older, so `c` still exceeds all that came.
  induction before generalizing earlier with
  | nil =>
    rw [List.nil_append, leaders, if_pos hearlier, leaders_eq_nil List.mem_cons_self hafter]
    rfl
  | cons a rest ih =>
    have hnewer : c.Exceeds (a.1 :: earlier) :=
      List.forall_mem_cons.2 ⟨hbefore a List.mem_cons_self, hearlier⟩
    have hlater := ih hnewer fun b hb => hbefore b (List.mem_cons_of_mem _ hb)
    rw [List.cons_append, leaders]
    split
    next => rw [List.getLast?_cons, hlater]; rfl
    next => exact hlater

theorem exists_newest {copies : List (Copy l)} (hne : copies ≠ []) :
    ∃ c ∈ copies, ∀ d ∈ copies, d.number ≤ c.number := by
  obtain ⟨c, hc⟩ : ∃ c, copies.argmax number = some c :=
    Option.ne_none_iff_exists'.1 fun hmax => hne (List.argmax_eq_none.1 hmax)
  exact ⟨c, List.argmax_mem hc, fun d hd => List.le_of_mem_argmax hd hc⟩

/-- The last leader is the first arrival of the newest copy. -/
theorem getLast?_leaders_of_greatest {copies : List (Copy l)} {arrivals : List (Copy l × Timestamp)}
    (hsame : ∀ c ∈ copies, ∀ d ∈ copies, c.number = d.number → c.tuple = d.tuple)
    (harrivals : ∀ c, c ∈ copies ↔ ∃ now, (c, now) ∈ arrivals) {c : Copy l} (hc : c ∈ copies)
    (hnewest : ∀ d ∈ copies, d.number ≤ c.number) :
    ∃ now, arrivals.find? (fun a => a.1.number = c.number) = some (c, now) ∧
      (leaders [] arrivals).getLast? = some (c, now) := by
  have harrived : ∀ a ∈ arrivals, a.1 ∈ copies := fun a ha => (harrivals a.1).2 ⟨a.2, ha⟩
  obtain ⟨⟨d, now⟩, hfind⟩ : ∃ a, arrivals.find? (fun a => a.1.number = c.number) = some a := by
    obtain ⟨now, hnow⟩ := (harrivals c).1 hc
    apply Option.isSome_iff_exists.1
    exact List.find?_isSome.2 ⟨(c, now), hnow, by simp⟩
  obtain ⟨hfound, before, later, hsplit, hbefore⟩ := List.find?_eq_some_iff_append.1 hfind
  have hnumber : d.number = c.number := of_decide_eq_true hfound
  have hd : d ∈ copies := harrived (d, now) (List.mem_of_find?_eq_some hfind)
  obtain rfl : d = c := Copy.ext (hsame d hd c hc hnumber) hnumber
  refine ⟨now, hfind, ?_⟩
  rw [hsplit] at harrived ⊢
  apply getLast?_leaders (fun _ h => absurd h List.not_mem_nil)
  · intro a ha
    have hle := hnewest a.1 (harrived a (List.mem_append_left _ ha))
    have hne : a.1.number ≠ d.number := by simpa using hbefore a ha
    omega
  · intro a ha
    exact hnewest a.1 (harrived a (List.mem_append_right _ (List.mem_cons_of_mem _ ha)))

end Copy

namespace Space

variable [Callback κ] {s : Space κ} {l : Location} {earlier : List (Copy l)}

/-! ## One arrival -/

omit [Callback κ] in
/-- A number exceeds those of all copies that came before exactly if it exceeds that of the value
held. -/
def CaughtUp (s : Space κ) (earlier : List (Copy l)) : Prop :=
  ∀ n, (∀ b ∈ earlier, b.number < n) ↔ ∀ held ∈ (s.peek l).bind (·.seqno), held < n

omit [Callback κ] in
theorem caughtUp_nil (h : s.peek l = none) : s.CaughtUp ([] : List (Copy l)) := by
  simp [CaughtUp, h]

omit [Callback κ] in
theorem CaughtUp.accepts_iff (h : s.CaughtUp earlier) (c : Copy l) :
    s.store.accepts l c.tuple = true ↔ c.Exceeds earlier := by
  rw [Copy.Exceeds, h c.number, Store.accepts, c.numbered]
  show _ ↔ ∀ held ∈ (s.store.peek l).bind (·.seqno), held < c.number
  cases (s.store.peek l).bind (·.seqno) <;> simp

omit [Callback κ] in
theorem copied_copy (s : Space κ) (c : Copy l) (now : Timestamp) :
    { s.store.copied l c.tuple now with fresh := some true } = c.arrived now true := by
  have hseqno : c.tuple.seqno.or (some (s.store.nextSeqno l)) = c.tuple.seqno := by
    rw [c.numbered]
    rfl
  rw [Store.copied, hseqno]
  rfl

omit [Callback κ] in
theorem pattern_covers_copy (policy : PayloadCase) (c : Copy l) (now : Timestamp) (fresh : Bool) :
    l.pattern.covers policy (c.arrived now fresh) = true := by
  obtain ⟨-, howner, hkey⟩ := Tuple.location_eq_ok_iff.1 c.located
  have hconcrete := Tuple.isConcrete_of_location c.located
  exact (Location.covers_pattern_iff hconcrete).2 ⟨howner, hkey⟩

theorem access_copy (c : Copy l) (now : Timestamp) :
    s.access (.writeReplica c.tuple now) = if s.store.accepts l c.tuple then
      s.stored l (s.store.copied l c.tuple now) else s := by
  rw [access, writeReplica_eq c.remains, c.located]
  simp only [Except.map]
  split
  next => rfl
  next => rfl

theorem CaughtUp.peek (h : s.CaughtUp earlier) (c : Copy l) (now : Timestamp) :
    (s.access (.writeReplica c.tuple now)).peek l
      = if c.Exceeds earlier then some (c.arrived now true) else s.peek l := by
  rw [access_copy]
  by_cases haccepts : s.store.accepts l c.tuple = true
  · have hexceeds := (h.accepts_iff c).1 haccepts
    rw [if_pos haccepts, if_pos hexceeds, peek_stored, if_pos rfl, copied_copy]
  · have hnot : ¬ c.Exceeds earlier := fun hexceeds => haccepts ((h.accepts_iff c).2 hexceeds)
    rw [if_neg haccepts, if_neg hnot]

theorem CaughtUp.records (h : s.CaughtUp earlier) (c : Copy l) (now : Timestamp) :
    s.records (.writeReplica c.tuple now)
      = if c.Exceeds earlier then [⟨.copy, l, c.arrived now true⟩] else [] := by
  rw [Space.records, c.remains, c.located]
  simp only [Bool.false_eq_true, if_false, h.accepts_iff c, copied_copy]

/-- The numbers that are still accepted stay those above all that arrived. -/
theorem CaughtUp.next (h : s.CaughtUp earlier) (c : Copy l) (now : Timestamp) :
    (s.access (.writeReplica c.tuple now)).CaughtUp (c :: earlier) := by
  intro n
  rw [h.peek, List.forall_mem_cons]
  by_cases hexceeds : c.Exceeds earlier
  · have hheld : ((some (c.arrived now true)).bind (·.seqno)) = some c.number := c.numbered
    rw [if_pos hexceeds, hheld]
    constructor
    · rintro ⟨hlt, -⟩ held hmem
      exact Option.some.inj hmem ▸ hlt
    · intro hall
      have hlt := hall c.number rfl
      exact ⟨hlt, fun b hb => Nat.lt_trans (hexceeds b hb) hlt⟩
  · rw [if_neg hexceeds, ← h n]
    constructor
    · exact fun hall => hall.2
    · -- Some copy that came before has at least the number of this one.
      intro hall
      refine ⟨?_, hall⟩
      simp only [Copy.Exceeds, not_forall, Nat.not_lt] at hexceeds
      obtain ⟨b, hb, hle⟩ := hexceeds
      exact Nat.lt_of_le_of_lt hle (hall b hb)

end Space

namespace Session

open Copy

variable [Callback κ] {s : Session κ} {l : Location} {earlier : List (Copy l)}

/-! ## All arrivals -/

def deliver (a : Copy l × Timestamp) : Operation κ := .access (.writeReplica a.1.tuple a.2)

theorem history_deliver (h : s.space.CaughtUp earlier) (arrivals : List (Copy l × Timestamp)) :
    s.history (arrivals.map deliver)
      = (leaders earlier arrivals).map fun a => ⟨.copy, l, a.1.arrived a.2 true⟩ := by
  induction arrivals generalizing s earlier with
  | nil => rfl
  | cons a rest ih =>
    have hlater := ih (s := s.step (deliver a)) (h.next a.1 a.2)
    have hfirst : s.records (deliver a) = _ := h.records a.1 a.2
    rw [List.map_cons, history, hlater, hfirst, leaders]
    split
    next => rfl
    next => rfl

theorem peek_deliver (h : s.space.CaughtUp earlier) (arrivals : List (Copy l × Timestamp)) :
    (s.run (arrivals.map deliver)).space.peek l
      = ((leaders earlier arrivals).getLast?.map fun a => a.1.arrived a.2 true).or
        (s.space.peek l) := by
  induction arrivals generalizing s earlier with
  | nil => rfl
  | cons a rest ih =>
    have hlater := ih (s := s.step (deliver a)) (h.next a.1 a.2)
    have hfirst : (s.step (deliver a)).space.peek l = _ := h.peek a.1 a.2
    refine hlater.trans ?_
    rw [hfirst, leaders]
    split
    next =>
      rw [List.getLast?_cons]
      cases (leaders (a.1 :: earlier) rest).getLast? <;> rfl
    next => rfl

/-- A callback for values that are stored at the place is shown the leaders. -/
theorem Reachable.shown_deliver (h : Reachable Allows s) {x : Handle} {callback : κ}
    (hx : s.ledger.direct.get? x = some ⟨l.pattern, .onWrite, some callback⟩)
    (hcaught : s.space.CaughtUp earlier) (arrivals : List (Copy l × Timestamp)) :
    shownTo x ((s.run (arrivals.map deliver)).space.fired.drop s.space.fired.length)
      = (leaders earlier arrivals).map fun a => (callback, a.1.arrived a.2 false) := by
  obtain ⟨howned, hentry⟩ := h.standing hx
  have hops : ∀ op ∈ (arrivals.map deliver : List (Operation κ)), ¬ op.Names x := by
    intro op hop
    obtain ⟨a, -, rfl⟩ := List.mem_map.1 hop
    exact id
  rw [(serves_run h.coherent howned hentry hops).shownTo_eq, filterMap_heard_onWrite,
    history_deliver hcaught, List.filter_eq_self.2, List.map_map]
  · rfl
  · intro r hr
    obtain ⟨a, -, rfl⟩ := List.mem_map.1 hr
    have hcovers := Space.pattern_covers_copy s.space.registry.policy a.1 a.2 true
    simp [hcovers]

/-- Copies of one value may arrive in any order and any number of times: the newest of them is held in
the end, and a callback for values that are stored there is shown those that were newer than all before
them, each once. -/
theorem Reachable.converges (h : Reachable Allows s) {x : Handle} {callback : κ}
    (hx : s.ledger.direct.get? x = some ⟨l.pattern, .onWrite, some callback⟩)
    (hnone : s.space.peek l = none) (copies : List (Copy l))
    (hsame : ∀ c ∈ copies, ∀ d ∈ copies, c.number = d.number → c.tuple = d.tuple)
    (arrivals : List (Copy l × Timestamp))
    (harrivals : ∀ c, c ∈ copies ↔ ∃ now, (c, now) ∈ arrivals) :
    let after := s.run (arrivals.map deliver)
    (copies = [] → after.space.peek l = none) ∧
    (copies ≠ [] → ∃ c ∈ copies, (∀ d ∈ copies, d.number ≤ c.number) ∧ ∃ now,
      arrivals.find? (fun a => a.1.number = c.number) = some (c, now) ∧
      after.space.peek l = some (c.arrived now true)) ∧
    shownTo x (after.space.fired.drop s.space.fired.length)
      = (leaders [] arrivals).map fun a => (callback, a.1.arrived a.2 false) := by
  intro after
  have hcaught := Space.caughtUp_nil hnone
  have hpeek : after.space.peek l
      = (leaders [] arrivals).getLast?.map fun a => a.1.arrived a.2 true := by
    rw [show after.space.peek l = _ from peek_deliver hcaught arrivals, hnone, Option.or_none]
  refine ⟨?_, ?_, h.shown_deliver hx hcaught arrivals⟩
  · rintro rfl
    have hempty : arrivals = [] := by
      apply List.eq_nil_iff_forall_not_mem.2
      rintro ⟨c, now⟩ hmem
      exact List.not_mem_nil ((harrivals c).2 ⟨now, hmem⟩)
    rw [hpeek, hempty]
    rfl
  · intro hne
    obtain ⟨c, hc, hnewest⟩ := exists_newest hne
    obtain ⟨now, hfind, hlast⟩ := getLast?_leaders_of_greatest hsame harrivals hc hnewest
    refine ⟨c, hc, hnewest, now, hfind, ?_⟩
    rw [hpeek, hlast]
    rfl

/-- The place of a lamp, and what its owner sends about it. -/
def lamp : Location := ⟨2, ⟨[some "lamp"]⟩⟩

def revision (number : Nat) : Copy lamp where
  tuple := { Tuple.plainText 2 ⟨[some "lamp"]⟩ (toString number) with seqno := some number }
  number := number
  numbered := rfl
  located := rfl
  remains := rfl

/-- A session in which a callback waits for the lamp. -/
def waiting : Session String :=
  (start 1 .insensitive true {}).run
    [.allocate, .subscribe 1 ⟨lamp.pattern, .onWrite, some "seen"⟩]

theorem waiting_converges :
    let arrivals := [(revision 2, ⟨1000, 0⟩), (revision 1, ⟨1001, 0⟩), (revision 5, ⟨1002, 0⟩),
      (revision 2, ⟨1003, 0⟩), (revision 5, ⟨1004, 0⟩), (revision 3, ⟨1005, 0⟩)]
    let after := waiting.run (arrivals.map deliver)
    after.space.peek lamp = some ((revision 5).arrived ⟨1002, 0⟩ true) ∧
    (shownTo 1 after.space.fired).map (·.2.seqno) = [some 2, some 5] := by
  intro arrivals after
  have hreach : Reachable Allows waiting :=
    ⟨1, .insensitive, true, {}, runs_run (by decide +kernel)⟩
  have hrevision : ∀ c ∈ arrivals.map (·.1), ∃ n, c = revision n := by simp [arrivals]
  have hsame : ∀ c ∈ arrivals.map (·.1), ∀ d ∈ arrivals.map (·.1), c.number = d.number →
      c.tuple = d.tuple := by
    intro c hc d hd heq
    obtain ⟨n, rfl⟩ := hrevision c hc
    obtain ⟨m, rfl⟩ := hrevision d hd
    exact congrArg (fun n => (revision n).tuple) heq
  have hstanding : waiting.ledger.direct.get? 1 = some ⟨lamp.pattern, .onWrite, some "seen"⟩ := rfl
  obtain ⟨-, hnewest, hshown⟩ := Reachable.converges hreach hstanding (by decide +kernel)
    (arrivals.map (·.1)) hsame arrivals (by simp)
  constructor
  · obtain ⟨c, hc, hmax, now, hfind, hheld⟩ := hnewest (List.cons_ne_nil _ _)
    have hfifth : 5 ≤ c.number := hmax (revision 5) (by simp [arrivals])
    obtain ⟨n, rfl⟩ := hrevision c hc
    have hmost : ∀ c ∈ arrivals.map (·.1), c.number ≤ 5 := by simp [arrivals, revision]
    obtain rfl : n = 5 := Nat.le_antisymm (hmost (revision n) hc) hfifth
    obtain ⟨-, rfl⟩ := Prod.mk.inj (Option.some.inj
      (show some (revision 5, (⟨1002, 0⟩ : Timestamp)) = some (revision 5, now) from hfind))
    exact hheld
  · exact (congrArg (List.map _) hshown).trans (by decide +kernel)

end Session

/-! ## Old messages -/

namespace Space

variable [Callback κ] {s : Space κ} {l : Location} {held t : Tuple}

theorem writeReplica_of_stale {number n : Nat} (hheld : s.peek l = some held)
    (hnumber : held.seqno = some number) (hn : t.seqno = some n) (hlt : n < number)
    (hdel : t.isDeletion = false) (hl : t.location = .ok l) (now : Timestamp) :
    s.writeReplica t now = .ok (s, {}) := by
  have hrefuses : ¬ s.store.accepts l t = true := by
    rw [Store.accepts, hn, show s.store.peek l = some held from hheld, Option.bind_some, hnumber]
    simp only [decide_eq_true_eq]
    omega
  rw [writeReplica_eq hdel, hl, Except.map, if_neg hrefuses]

theorem writeReplica_of_isAbstract (hdel : t.isDeletion = false) (habstract : t.isAbstract = true)
    (now : Timestamp) : s.writeReplica t now = .error (.abstractUse t.render) := by
  have hl : t.location = .error (.abstractUse t.render) := by
    rw [Tuple.location]
    split
    next => exact if_pos habstract
    next => rfl
  rw [writeReplica_eq hdel, hl, Except.map]

/-- A request to remove a value is carried out whatever its number is. -/
theorem writeReplica_of_isDeletion (hs : s.store.Sound) (hheld : s.peek l = some held)
    (howner : t.owner = some l.owner) (hkey : t.key = l.key) (hdel : t.isDeletion = true)
    (now : Timestamp) :
    ∃ s' m, s.writeReplica t now = .ok (s', m) ∧ s'.peek l = none ∧ m.tuple = some { held with
      expiry := some .immediately, creator := t.creator.or held.creator } := by
  rw [writeReplica, if_pos hdel, deleteMarked, howner, hkey]
  have hdelete := delete_of_peek hs hheld t.creator now
  exact ⟨_, _, hdelete, peek_delete hdelete, rfl⟩

end Space

namespace Session

variable [Callback κ] {guard : Session κ → Operation κ → Prop} {s : Session κ} {l : Location}

/-- A message under a lower number than that of the value held changes nothing exactly if it is no
request to remove the value, and complete. A request to remove it takes it away. -/
theorem Reachable.stale_ignored_iff (h : Reachable guard s) {held t : Tuple} {number n : Nat}
    (hheld : s.space.peek l = some held) (hnumber : held.seqno = some number)
    (howner : t.owner = some l.owner) (hkey : t.key = l.key) (hn : t.seqno = some n)
    (hlt : n < number) (now : Timestamp) :
    (s.space.writeReplica t now = .ok (s.space, {}) ↔
      t.isDeletion = false ∧ t.isAbstract = false) ∧
    (t.isDeletion = false → t.isAbstract = true →
      s.space.writeReplica t now = .error (.abstractUse t.render)) ∧
    (t.isDeletion = true → ∃ s' m, s.space.writeReplica t now = .ok (s', m) ∧
      s'.peek l = none ∧
      m.tuple = some { held with
        expiry := some .immediately, creator := t.creator.or held.creator }) := by
  have hremoved (hdel : t.isDeletion = true) :=
    Space.writeReplica_of_isDeletion h.coherent.sound hheld howner hkey hdel now
  have hrefused (hdel : t.isDeletion = false) (habstract : t.isAbstract = true) :
      s.space.writeReplica t now = .error (.abstractUse t.render) :=
    Space.writeReplica_of_isAbstract hdel habstract now
  refine ⟨⟨fun hsame => ?_, ?_⟩, hrefused, hremoved⟩
  · cases hdel : t.isDeletion with
    | true =>
      obtain ⟨s', m, hok, -, htuple⟩ := hremoved hdel
      rw [hsame] at hok
      cases hok
      cases htuple
    | false =>
      refine ⟨rfl, ?_⟩
      cases habstract : t.isAbstract with
      | false => rfl
      | true => exact nomatch (hrefused hdel habstract).symm.trans hsame
  · rintro ⟨hdel, hconcrete⟩
    have hl : t.location = .ok l := Tuple.location_eq_ok_iff.2 ⟨hconcrete, howner, hkey⟩
    exact Space.writeReplica_of_stale hheld hnumber hn hlt hdel hl now

/-- A session that holds the fifth revision of the lamp. -/
def informed : Session String :=
  (start 1 .insensitive false {}).run [deliver (revision 5, ⟨1000, 0⟩)]

/-- A request to remove the third revision. -/
def withdrawal : Tuple := { (revision 3).tuple with expiry := some .immediately }

theorem informed_keeps_newer :
    informed.space.writeReplica (revision 3).tuple ⟨1001, 0⟩ = .ok (informed.space, {}) ∧
    ∃ s' m, informed.space.writeReplica withdrawal ⟨1001, 0⟩ = .ok (s', m) ∧
      s'.peek lamp = none := by
  have hreach : Reachable Allows informed :=
    ⟨1, .insensitive, false, {}, runs_run (by decide +kernel)⟩
  have hheld : informed.space.peek lamp = some ((revision 5).arrived ⟨1000, 0⟩ true) := by
    decide +kernel
  constructor
  · obtain ⟨hignored, -⟩ := Reachable.stale_ignored_iff hreach hheld rfl
      (t := (revision 3).tuple) rfl rfl rfl (by decide) ⟨1001, 0⟩
    exact hignored.2 ⟨rfl, rfl⟩
  · obtain ⟨-, -, hremoved⟩ := Reachable.stale_ignored_iff hreach hheld rfl
      (t := withdrawal) rfl rfl rfl (by decide) ⟨1001, 0⟩
    obtain ⟨s', m, hok, hnone, -⟩ := hremoved rfl
    exact ⟨s', m, hok, hnone⟩

/-- An old request to remove a value is carried out on a newer one. -/
theorem stale_removal_not_ignored : ¬ ∀ (s : Session String) (l : Location) (held t : Tuple)
    (number n : Nat) (now : Timestamp), Reachable Allows s → s.space.peek l = some held →
    held.seqno = some number → t.location = .ok l → t.seqno = some n → n < number →
    s.space.writeReplica t now = .ok (s.space, {}) := by
  intro hall
  have hreach : Reachable Allows informed :=
    ⟨1, .insensitive, false, {}, runs_run (by decide +kernel)⟩
  have hheld : informed.space.peek lamp = some ((revision 5).arrived ⟨1000, 0⟩ true) := by
    decide +kernel
  have hsame := hall informed lamp _ withdrawal 5 3 ⟨1001, 0⟩ hreach hheld rfl rfl rfl (by decide)
  have hpeek : (informed.space.access (.writeReplica withdrawal ⟨1001, 0⟩)).peek lamp
      = informed.space.peek lamp := by
    rw [Space.access, hsame]
    rfl
  exact absurd hpeek (by decide +kernel)

end Session

end Blackboard
