import Blackboard.Proofs.Space.History

/-!
# What holds of every value

A property of tuples that does not depend on the mark of reading holds of all values of a space at all
times if it holds of what is stored, where a value that is appended to may be taken to have it. So for
each property only the records of an operation have to be looked at.

Two such properties: every value has a number, and the counts of a value stay within their widths if
those of the copies that come in do.
-/

namespace Blackboard

variable {κ : Type} {P : Tuple → Prop}

/-- The counts of a tuple are within their widths. -/
structure Tuple.CountsFit (t : Tuple) : Prop where
  seqno : ∀ n ∈ t.seqno, n < UInt64.size
  appends : t.appends < UInt32.size

instance (t : Tuple) : Decidable t.CountsFit :=
  decidable_of_iff ((∀ n ∈ t.seqno, n < UInt64.size) ∧ t.appends < UInt32.size)
    ⟨fun h => ⟨h.1, h.2⟩, fun h => ⟨h.seqno, h.appends⟩⟩

/-- The counts of a copy that comes in are within their widths. No other operation brings any. -/
def Operation.CountsFit : Operation κ → Prop
  | .access (.writeReplica t _) => t.CountsFit
  | _ => True

instance : DecidablePred (@Operation.CountsFit κ)
  | .access (.writeReplica t _) => inferInstanceAs (Decidable t.CountsFit)
  | .access (.write ..) | .access (.delete ..) | .access (.expire _) | .access (.append ..)
  | .access (.get ..) | .access (.search _) | .access (.first _) | .allocate | .subscribe ..
  | .subscribeIndirect .. | .unsubscribe _ => inferInstanceAs (Decidable True)

theorem nextCount_lt {size : Nat} (hsize : 0 < size) (n : Nat) : nextCount size n < size :=
  Nat.mod_lt _ hsize

theorem Store.nextSeqno_lt (s : Store) (l : Location) : s.nextSeqno l < UInt64.size := by
  rw [nextSeqno]
  split
  next => decide
  next => exact nextCount_lt (by decide) _

namespace Record

/-- What a record stores has a property, if what it goes on from has. -/
def Grants (P : Tuple → Prop) (r : Record) : Prop :=
  ∀ before, (∀ t, before = some t → P t) → r.Continues before → r.deed ≠ .removal →
    P r.tuple.ignoringFresh

theorem Grants.of_tuple {r : Record} (h : r.deed ≠ .removal → P r.tuple.ignoringFresh) : r.Grants P :=
  fun _ _ _ hr => h hr

theorem Chain.preserves {contents : Location → Option Tuple} {rs : List Record}
    (h : Chain contents rs) (hrs : ∀ r ∈ rs, r.Grants P)
    (hcontents : ∀ l t, contents l = some t → P t) (l : Location) (t : Tuple)
    (ht : Change.replay (rs.map change) contents l = some t) : P t := by
  induction rs generalizing contents with
  | nil => exact hcontents l t ht
  | cons r rest ih =>
    rw [List.map_cons, Change.replay_cons] at ht
    refine ih h.2 (fun q hq => hrs q (List.mem_cons_of_mem _ hq)) (fun other u hu => ?_) ht
    rw [Function.update_apply] at hu
    split at hu
    next =>
      rw [outcome_change] at hu
      split at hu
      next => cases hu
      next hr =>
        obtain rfl := Option.some.inj hu
        exact hrs r List.mem_cons_self _ (hcontents r.place) h.1 hr
    next => exact hcontents other u hu

/-- Whatever is stored has a number. -/
theorem grants_seqno (r : Record) : r.Grants fun t => ∃ n, t.seqno = some n := by
  intro before hbefore hcontinues hr
  obtain ⟨deed, place, tuple⟩ := r
  cases deed with
  | write => exact ⟨_, hcontinues.1⟩
  | copy =>
    obtain ⟨n, hn, -⟩ := hcontinues
    exact ⟨n, hn⟩
  | append =>
    obtain ⟨t, ht, hseqno, -⟩ := hcontinues
    obtain ⟨n, hn⟩ := hbefore t ht
    exact ⟨n, hseqno.trans hn⟩
  | removal => exact absurd rfl hr

/-- What is stored has counts within their widths, if a copy that is stored has. -/
theorem grants_countsFit {r : Record} (hcopy : r.deed = .copy → r.tuple.CountsFit) :
    r.Grants Tuple.CountsFit := by
  intro before hbefore hcontinues hr
  obtain ⟨deed, place, tuple⟩ := r
  cases deed with
  | write =>
    obtain ⟨hseqno, happends⟩ := hcontinues
    refine ⟨fun n hn => ?_, Nat.lt_of_le_of_lt happends.le (by decide)⟩
    obtain rfl := Option.some.inj (hseqno.symm.trans hn)
    cases before.bind (·.seqno) with
    | none => decide
    | some held => exact nextCount_lt (by decide) _
  | copy => exact ⟨(hcopy rfl).seqno, (hcopy rfl).appends⟩
  | append =>
    obtain ⟨t, ht, hseqno, happends⟩ := hcontinues
    exact ⟨fun n hn => (hbefore t ht).seqno n (hseqno.symm.trans hn),
      Nat.lt_of_le_of_lt happends.le (nextCount_lt (by decide) _)⟩
  | removal => exact absurd rfl hr

end Record

namespace Space

/-- All values have a property. -/
def AllValues (s : Space κ) (P : Tuple → Prop) : Prop := ∀ l t, s.peek l = some t → P t

variable {s : Space κ}

theorem allValues_iff_content (hP : ∀ t, P t.ignoringFresh ↔ P t) :
    s.AllValues P ↔ ∀ l t, s.store.content l = some t → P t := by
  constructor
  · intro h l t ht
    obtain ⟨u, hu, rfl⟩ := Option.map_eq_some_iff.1 ht
    exact (hP u).2 (h l u hu)
  · intro h l t ht
    exact (hP t).1 (h l t.ignoringFresh (congrArg (Option.map Tuple.ignoringFresh) ht))

theorem AllValues.access [Callback κ] (hP : ∀ t, P t.ignoringFresh ↔ P t) (hs : s.store.Sound)
    (h : s.AllValues P) {a : Access} (hrecords : ∀ r ∈ s.records a, r.Grants P) :
    (s.access a).AllValues P := by
  have hdoes := does_access hs a
  rw [allValues_iff_content hP, hdoes.becomes.content]
  exact hdoes.chain.preserves hrecords ((allValues_iff_content hP).1 h)

end Space

namespace Session

variable [Callback κ] {guard : Session κ → Operation κ → Prop} {s : Session κ}

theorem allValues_step (hP : ∀ t, P t.ignoringFresh ↔ P t) (hs : s.space.store.Sound)
    (h : s.space.AllValues P) (op : Operation κ)
    (hrecords : ∀ a, op = .access a → ∀ r ∈ s.space.records a, r.Grants P) :
    (s.step op).space.AllValues P := by
  cases op with
  | access a => exact h.access hP hs (hrecords a rfl)
  | allocate => exact h
  | subscribe i subscription => exact h
  | subscribeIndirect i prototype callback => exact h
  | unsubscribe i =>
    intro l t ht
    rw [step, Space.peek, Space.store_dropped] at ht
    exact h l t ht

theorem Reachable.allValues (h : Reachable guard s) (hP : ∀ t, P t.ignoringFresh ↔ P t)
    (hrecords : ∀ s : Session κ, s.space.AllValues P → ∀ a, guard s (.access a) →
      ∀ r ∈ s.space.records a, r.Grants P) : s.space.AllValues P :=
  (h.invariant (I := fun s => s.space.Coherent ∧ s.space.AllValues P)
    (fun _ _ _ _ => ⟨coherent_start .., fun _ _ ht => nomatch ht⟩)
    fun s op hs hop => ⟨coherent_step hs.1 op, allValues_step hP hs.1.sound hs.2 op
      fun a ha => hrecords s hs.2 a (ha ▸ hop)⟩).2

/-- Every value has a number. -/
theorem Reachable.numbered (h : Reachable guard s) :
    s.space.AllValues fun t => ∃ n, t.seqno = some n :=
  h.allValues (fun _ => Iff.rfl) fun _ _ _ _ r _ => r.grants_seqno

/-- The counts of every value are within their widths, if those of all copies that come in are. -/
theorem Reachable.countsFit (h : Reachable guard s)
    (hguard : ∀ s op, guard s op → op.CountsFit) :
    s.space.AllValues Tuple.CountsFit := by
  refine h.allValues
    (fun t => ⟨fun h => ⟨h.seqno, h.appends⟩, fun h => ⟨h.seqno, h.appends⟩⟩) ?_
  refine fun s _ a ha r hr => Record.grants_countsFit fun hcopy => ?_
  obtain ⟨t, now, l, rfl, htuple⟩ := Space.mem_records_copy hr hcopy
  have ht : t.CountsFit := hguard s _ ha
  rw [htuple]
  refine ⟨fun n hn => ?_, ht.appends⟩
  rcases Option.or_eq_some_iff.1 hn with hown | ⟨-, hnext⟩
  · exact ht.seqno n hown
  · exact Option.some.inj hnext ▸ s.space.store.nextSeqno_lt l

end Session

end Blackboard
