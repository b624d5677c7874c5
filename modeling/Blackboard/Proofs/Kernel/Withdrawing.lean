import Blackboard.Proofs.Kernel.Registering

/-!
# Taking registrations back

A client can give up what was registered by a client, once, and nothing else. The entries that the
space makes for itself when it binds indirect subscriptions lie under handles of the same allocator,
but no client is ever given one of these, so none can be named in a call that succeeds.

What was taken back and applied is gone for good: its handle is never entered again, and whatever runs
later was registered under another one.
-/

namespace Blackboard

theorem Bindings.get?_register {κ : Type} (b : Bindings κ) {h other : Handle} (hne : other ≠ h)
    (prototype : Tuple) (callback : Option κ) (current : Option Tuple) :
    (b.register h prototype callback current).resolver.entries.get? other
      = b.resolver.entries.get? other := by
  cases current with
  | none => exact (Table.get?_insert ..).trans (if_neg hne)
  | some t =>
    exact ((get?_rebind ..).trans (if_neg hne)).trans ((Table.get?_insert ..).trans (if_neg hne))

namespace Space

variable {κ : Type}

/-- A registration leaves the other indirect subscriptions as they are. -/
theorem get?_apply (s : Space κ) {r : Registration κ} {i : Handle} (hne : r.handle ≠ i) :
    (s.apply r).resolver.entries.get? i = s.resolver.entries.get? i := by
  cases r with
  | subscribe h subscription => rfl
  | follow h prototype callback => exact Bindings.get?_register _ (Ne.symm hne) ..
  | remove h =>
    show (s.dropped h).resolver.entries.get? i = s.resolver.entries.get? i
    rcases s.dropped_cases h with ⟨b, hb, heq⟩ | ⟨-, heq⟩ <;> rw [heq]
    · exact Bindings.get?_unregister hb (Ne.symm hne)
    · rfl

theorem get?_applyAll (s : Space κ) {rs : Roll κ} {i : Handle} (hne : ∀ r ∈ rs, r.handle ≠ i) :
    (rs.foldl apply s).resolver.entries.get? i = s.resolver.entries.get? i := by
  induction rs generalizing s with
  | nil => rfl
  | cons r rest ih =>
    exact (ih _ fun x hx => hne x (List.mem_cons_of_mem _ hx)).trans
      (s.get?_apply (hne r List.mem_cons_self))

end Space

/-- In an orderly roll, what follows the entry that counts does not mention its handle. -/
theorem Roll.Orderly.not_mem_of_enters {κ : Type} {roll later : Roll κ} {r : Registration κ}
    {h : Handle} (ho : Roll.Orderly (roll ++ later)) (hmem : r ∈ roll) (hr : r.handle = h)
    (hstands : Roll.stands (roll ++ later) h = true) : ∀ x ∈ later, x.handle ≠ h := by
  intro x hx heq
  have horder := (List.pairwise_append.1 ho).2.2 r hmem x hx
  cases x with
  | subscribe i subscription => exact horder rfl (hr.trans heq.symm)
  | follow i prototype callback => exact horder rfl (hr.trans heq.symm)
  | remove i =>
    have hi : i = h := heq
    subst hi
    have hlast := ho.lastWord_of_mem (List.mem_append_right _ hx)
    rw [Roll.stands, hlast] at hstands
    cases hstands

namespace Docket

open Kernel (Move)

/-- A docket in the middle of a move: some callbacks have run, and one has done some of its actions. -/
def midway (d : Docket) (ran : List (Firing Reaction)) (handles : Allocator)
    (actions : List Action) : Docket where
  kernel := (ran.foldl Kernel.react d.kernel).act handles actions
  applied := d.applied
  roll := (ran.foldl Roll.react d.roll).act handles actions

end Docket

namespace Kernel

variable {k : Kernel} {applied roll : Roll Reaction} {ledger : Ledger Reaction}

/-- A handle is taken back exactly if something stands under it. -/
theorem Out.unsubscribe_iff (ho : k.Out roll) (haccepts : k.accepts = true) (h : Handle) :
    ((k.unsubscribe h).2 = .ok () ↔ roll.stands h = true) ∧
      (roll.stands h = false → k.unsubscribe h = (k, .error (.failed .badHandle))) := by
  have hiff := ho haccepts h
  cases hstands : roll.stands h with
  | true => simp [unsubscribe_of_mem (hiff.2 hstands) haccepts]
  | false =>
    have hnot : h ∉ k.issued := fun hmem => by simp [hiff.1 hmem] at hstands
    simp [unsubscribe_of_not_mem hnot]

/-- What waits does not touch what a live subscription is bound under, and nobody can name it. -/
theorem Booked.bound_kept (hb : k.Booked applied roll ledger) (haccepts : k.accepts = true)
    {i x : Handle} {prototype : Tuple} {callback : Option Reaction}
    (hlive : roll.lastWord i = some (.follow i prototype callback))
    (hbound : k.space.resolver.bound? i = some x) :
    k.applyQueued.space.resolver.bound? i = some x ∧
      (∃ r, k.applyQueued.space.resolver.target? i = some r ∧
        k.applyQueued.space.registry.get? x = some ⟨r.locator, .onWrite, callback⟩) ∧
      k.unsubscribe x = (k, .error (.failed .badHandle)) := by
  have hroll := hb.filed.roll_eq haccepts
  obtain ⟨ledger', happlied⟩ := hb.applyQueued
  have heffect := happlied.inEffect
  rw [← hroll] at heffect
  -- The subscription was entered before it was bound, so nothing in the queue is about it.
  have hentered : ∃ r ∈ applied, r.handle = i := by
    by_contra hnone
    have hlast : applied.lastWord i = none :=
      Roll.lastWord_eq_none_iff.2 fun r hr heq => hnone ⟨r, hr, heq⟩
    have hunregistered := hb.inEffect.resolver i
    rw [hlast] at hunregistered
    have hentry : k.space.resolver.entries.get? i = none := Option.map_eq_none_iff.1 hunregistered
    rw [Resolver.bound?, hentry] at hbound
    cases hbound
  obtain ⟨r, hr, hi⟩ := hentered
  have hstands : roll.stands i = true := by rw [Roll.stands, hlive]; rfl
  have hqueued := hb.filed.orderly.not_mem_of_enters hr hi (hroll ▸ hstands)
  have hsame : k.applyQueued.space.resolver.entries.get? i = k.space.resolver.entries.get? i :=
    k.space.get?_applyAll hqueued
  have hstill : k.applyQueued.space.resolver.bound? i = some x := by
    rw [Resolver.bound?, hsame]
    exact hbound
  have htarget : (k.applyQueued.space.resolver.target? i).isSome = true :=
    (happlied.reachable.accounted.bindings.bound_iff i).symm.trans (congrArg Option.isSome hstill)
  obtain ⟨target, htarget⟩ := Option.isSome_iff_exists.1 htarget
  refine ⟨hstill, ⟨target, htarget, (heffect.registry x _).2 (.bound hlive htarget hstill)⟩, ?_⟩
  refine (hb.filed.out.unsubscribe_iff haccepts x).2 ?_
  rw [Roll.stands, Roll.lastWord_eq_none_iff.2 (heffect.hidden i x hstill)]
  rfl

/-- What was taken back never runs again. -/
theorem causes_of_removed (ho : roll.Orderly) {n : Handle} (hn : Registration.remove n ∈ roll)
    {f : Firing Reaction} {i : Handle} (hcauses : roll.Causes f i) : f.handle ≠ n ∧ i ≠ n := by
  have hlast := ho.lastWord_of_mem hn
  have hother {x : Handle} {r : Registration Reaction} (hx : roll.lastWord x = some r)
      (henters : r.enters = true) : x ≠ n := by
    rintro rfl
    cases hlast.symm.trans hx
    cases henters
  cases hcauses with
  | direct h _ => exact ⟨hother h rfl, hother h rfl⟩
  | bound h hhidden => exact ⟨fun heq => hhidden _ hn heq.symm, hother h rfl⟩

theorem accepts_midway (d : Docket) (ran : List (Firing Reaction)) (handles : Allocator)
    (actions : List Action) :
    (d.midway ran handles actions).kernel.accepts = d.kernel.accepts :=
  ((keeps_reactAll d.kernel ran).trans (keeps_act ..)).eq accepts (by intros; rfl)

end Kernel

namespace Docket

open Kernel (Move)

/-- What clients can do to the registrations of a kernel that accepts them. -/
structure Guarded (d : Docket) : Prop where
  /-- A call that enrols gives a handle that no client had before. -/
  enrols : ∀ e, let next := d.kernel.space.handles.next
    (d.kernel.enrol e).2 = .ok next ∧ (∀ r ∈ d.roll, r.handle ≠ next) ∧
      (d.step (.enrol e)).roll = d.roll ++ [e.register next]
  /-- At any moment a handle can be given up exactly if something was registered under it and it was
  not given up since. -/
  withdraws : ∀ ran handles actions n, let now := d.midway ran handles actions
    ((now.kernel.unsubscribe n).2 = .ok () ↔ ∃ before r after, now.roll = before ++ r :: after ∧
      r.enters = true ∧ r.handle = n ∧ .remove n ∉ after) ∧
    ((now.kernel.unsubscribe n).2 ≠ .ok () →
      now.kernel.unsubscribe n = (now.kernel, .error (.failed .badHandle)))
  /-- What a live indirect subscription is bound under stays through all calls. -/
  spares : ∀ calls, (∀ m ∈ calls, m.isCall = true) → let d' := d.run calls
    ∀ i x prototype callback, d.kernel.space.resolver.bound? i = some x →
      d'.roll.lastWord i = some (.follow i prototype callback) →
      d'.kernel.applyQueued.space.resolver.bound? i = some x ∧
        (∃ r, d'.kernel.applyQueued.space.resolver.target? i = some r ∧
          d'.kernel.applyQueued.space.registry.get? x = some ⟨r.locator, .onWrite, callback⟩) ∧
        d'.kernel.unsubscribe x = (d'.kernel, .error (.failed .badHandle))
  /-- What is given up is taken out before the next request is served. -/
  applies : ∀ n, (d.kernel.unsubscribe n).2 = .ok () → ∀ r,
    .remove n ∈ (d.run [.unsubscribe n, .serve r]).applied

/-- Nothing is left under a handle, and whatever runs was registered under another one. -/
structure Gone (d : Docket) (n : Handle) : Prop where
  registry : d.kernel.space.registry.get? n = none
  resolver : d.kernel.space.resolver.registration? n = none
  runs : ∀ m, ∀ f ∈ d.kernel.runs m, f.handle ≠ n ∧ ∃ i, i ≠ n ∧ (d.step m).applied.Causes f i

namespace Sound

variable {d : Docket}

theorem out (hd : d.Sound) : d.kernel.Out d.roll := by
  obtain ⟨ledger, hb⟩ := hd
  exact hb.filed.out

theorem guarded (hd : d.Sound) (haccepts : d.kernel.accepts = true) : d.Guarded where
  enrols e := by
    intro next
    obtain ⟨ledger, hb⟩ := hd
    refine ⟨?_, fun r hr => ?_, ?_⟩
    · have hpush := Kernel.push_of_accepts
        (k := { d.kernel with space := d.kernel.space.allocate.1, issued := next :: d.kernel.issued })
        haccepts (e.register next)
      exact congrArg (fun o => o.2.map fun _ => next) hpush
    · rw [hb.filed.roll_eq haccepts] at hr
      exact Nat.ne_of_lt (Nat.lt_succ_of_le (hb.filed.bounded r hr))
    · exact if_pos (((d.kernel.called_enrol e).eq Kernel.accepts (by intros; rfl)).trans haccepts)
  withdraws ran handles actions n := by
    intro now
    have hout : now.kernel.Out now.roll := (hd.out.reactAll ran).act handles actions
    obtain ⟨hok, hrefused⟩ := hout.unsubscribe_iff ((Kernel.accepts_midway ..).trans haccepts) n
    refine ⟨hok.trans Roll.stands_iff, fun hne => hrefused ?_⟩
    exact Bool.eq_false_iff.2 fun hstands => hne (hok.2 hstands)
  spares calls hcalls := by
    intro d' i x prototype callback hbound hlive
    obtain ⟨ledger, hb⟩ := hd.run calls
    -- Calls leave the resolver alone, and the queue holds nothing about what is bound.
    have hcalled : d.kernel.Called d'.kernel :=
      (d.kernel_run calls).symm ▸ Kernel.called_of_calls hcalls
    exact hb.bound_kept ((hcalled.eq Kernel.accepts (by intros; rfl)).trans haccepts) hlive
      ((congrArg (·.bound? i) (hcalled.eq (·.space.resolver) (by intros; rfl))).trans hbound)
  applies n hok r := by
    have hstands := (hd.out.unsubscribe_iff haccepts n).1.1 hok
    have hafter : (d.step (.unsubscribe n)).kernel.accepts = true :=
      (Kernel.accepts_unsubscribe ..).trans haccepts
    have hentered : (d.step (.unsubscribe n)).roll = d.roll ++ [.remove n] :=
      (if_pos hafter).trans (if_pos hstands)
    obtain ⟨ledger, hb⟩ := hd.step (.unsubscribe n)
    have hmem : Registration.remove n ∈ (d.step (.unsubscribe n)).roll := by simp [hentered]
    rwa [hb.filed.roll_eq hafter] at hmem

theorem gone (hd : d.Sound) {n : Handle} (hn : .remove n ∈ d.applied) : d.Gone n := by
  obtain ⟨ledger, hb⟩ := hd
  have ho : Roll.Orderly d.applied := (List.pairwise_append.1 hb.filed.orderly).1
  obtain ⟨hregistry, hresolver⟩ := hb.inEffect.removed ho hn
  refine ⟨hregistry, hresolver, fun m f hf => ?_⟩
  obtain ⟨i, hcauses⟩ := (hb.foregone m).caused f hf
  obtain ⟨ledger', hb'⟩ := (hb.continues m).1
  have horder := (List.pairwise_append.1 hb'.filed.orderly).1
  obtain ⟨hhandle, hi⟩ := Kernel.causes_of_removed horder (List.mem_append_left _ hn) hcauses
  exact ⟨hhandle, i, hi, hcauses⟩

end Sound

def pointerKey : Key := ⟨[some "m"]⟩

def namedKey : Key := ⟨[some "x"]⟩

/-- One client follows a pointer and one watches what it points at. -/
def following : List Move :=
  [.serve (.insert (Reference.metaTuple ⟨1, pointerKey⟩ (some ⟨⟨1, namedKey⟩, rfl⟩))),
    .enrol (.indirect (.locator (some 1) pointerKey) (some (.of "through" []))),
    .enrol (.callback (.locator (some 1) namedKey) .onWrite (.of "direct" [])),
    .serve .sync]

def followed : Docket :=
  run { kernel := .opened { publishAllKeys := false } (.standalone false) ⟨1000000000⟩ } following

end Docket

end Blackboard
