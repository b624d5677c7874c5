import Blackboard.Proofs.Space.Accounts
import Blackboard.Proofs.Space.Reports

/-!
# Registrations that stand

What a caller registered stays in the registry until the caller names its handle again. Indirect
subscriptions come and go beside it, but what they are bound under is always a handle nobody has.

So each change of a run is shown to the callback of such a registration once if the registration is
about it, and nothing else is.
-/

namespace Blackboard

variable {κ : Type}

namespace Bindings

/-- A handle in the hands of a caller: it was taken, and nothing is bound under it. -/
def Owned (b : Bindings κ) (x : Handle) : Prop :=
  x ≤ b.handles.taken ∧ ∀ i, b.resolver.bound? i ≠ some x

/-- Whatever is bound anew is bound under fresh handles, and under an owned handle that is not named
the registry has what it had. -/
structure Steady (named : Handle → Prop) (b b' : Bindings κ) : Prop where
  taken : b.handles.taken ≤ b'.handles.taken
  bound : ∀ i y, b'.resolver.bound? i = some y →
    b.resolver.bound? i = some y ∨ b.handles.taken < y ∧ y ≤ b'.handles.taken
  entry : ∀ x, b.Owned x → ¬ named x → b'.registry.get? x = b.registry.get? x

namespace Steady

variable {named : Handle → Prop} {b b' b'' : Bindings κ}

theorem refl (named : Handle → Prop) (b : Bindings κ) : Steady named b b :=
  ⟨Nat.le_refl _, fun _ _ h => .inl h, fun _ _ _ => rfl⟩

theorem owned (h : Steady named b b') {x : Handle} (hx : b.Owned x) : b'.Owned x := by
  refine ⟨Nat.le_trans hx.1 h.taken, fun i hi => ?_⟩
  rcases h.bound i x hi with hold | ⟨hlt, -⟩
  · exact hx.2 i hold
  · exact Nat.not_le_of_lt hlt hx.1

theorem trans (h : Steady named b b') (h' : Steady named b' b'') : Steady named b b'' where
  taken := Nat.le_trans h.taken h'.taken
  bound := by
    intro i y hi
    rcases h'.bound i y hi with hi | ⟨hlt, hle⟩
    · rcases h.bound i y hi with hi | ⟨hlt, hle⟩
      · exact .inl hi
      · exact .inr ⟨hlt, Nat.le_trans hle h'.taken⟩
    · exact .inr ⟨Nat.lt_of_le_of_lt h.taken hlt, hle⟩
  entry x hx hnamed := (h'.entry x (h.owned hx) hnamed).trans (h.entry x hx hnamed)

theorem rebind (named : Handle → Prop) (b : Bindings κ) (i : Handle) (source : Option Location)
    (target : Option Reference) : Steady named b (b.rebind i source target).1 := by
  cases he : b.resolver.entries.get? i with
  | none =>
    rw [Bindings.rebind]
    simp only [he]
    exact refl ..
  | some e =>
    constructor
    case taken => exact taken_le_rebind ..
    case bound =>
      intro j y hj
      rw [bound?_rebind] at hj
      split at hj
      next hji =>
        rw [he, Option.bind_some] at hj
        split at hj
        next =>
          refine .inl ?_
          rw [hji, Resolver.bound?, he]
          exact hj
        next hne =>
          obtain ⟨r, hr, rfl⟩ := Option.map_eq_some_iff.1 hj
          subst hr
          exact .inr ⟨Nat.lt_succ_self _, Nat.le_of_eq (taken_bind b i source he hne).symm⟩
      next => exact .inl hj
    case entry =>
      -- An owned handle is neither the fresh one that is bound now nor the one bound before.
      intro x hx _
      rw [registry_rebind he]
      have hfresh : x ≠ b.handles.next := by
        intro heq
        subst heq
        exact Nat.not_succ_le_self b.handles.taken hx.1
      have hbound : e.bound ≠ some x := by
        intro heq
        refine hx.2 i ?_
        rw [Resolver.bound?, he]
        exact heq
      simp only [hfresh, hbound, and_false, if_false, ite_self]

theorem rebindAll (named : Handle → Prop) (source : Option Location) (target : Option Reference)
    (b : Bindings κ) (hs : List Handle) : Steady named b (Bindings.rebindAll source target b hs).1 := by
  induction hs generalizing b with
  | nil => exact refl ..
  | cons i rest ih => exact (rebind named b i source target).trans (ih _)

theorem register (b : Bindings κ) (i : Handle) (prototype : Tuple) (callback : Option κ)
    (current : Option Tuple) :
    Steady (· = i) b (b.register i prototype callback current) := by
  have hfiled : Steady (· = i) b (Bindings.file { b with
      registry := b.registry.insert i (.interest prototype.ignoringFresh) } i
      ⟨prototype.ignoringFresh, none, none, none, callback⟩) := by
    refine ⟨Nat.le_refl _, fun j y hj => .inl ?_, fun x _ hx => ?_⟩
    · by_cases hji : j = i
      · simp [Bindings.file, Resolver.bound?, hji] at hj
      · simpa [Bindings.file, Resolver.bound?, Table.get?_insert, hji] using hj
    · exact (Table.get?_insert ..).trans (if_neg hx)
  cases current with
  | none => exact hfiled
  | some t => exact hfiled.trans (rebind ..)

theorem unregister {b b' : Bindings κ} {i : Handle} (hok : b.unregister i = .ok b') :
    Steady (· = i) b b' := by
  rw [Bindings.unregister] at hok
  split at hok
  next => cases hok
  next e he =>
    cases hok
    refine ⟨Nat.le_of_eq (congrArg _ (unbind_handles b e)).symm, fun j y hj => .inl ?_,
      fun x hx hne => ?_⟩
    · by_cases hji : j = i
      · simp [Resolver.bound?, hji, Table.get?_erase] at hj
      · simpa [Resolver.bound?, hji, Table.get?_erase] using hj
    · refine (Table.get?_erase ..).trans ((if_neg hne).trans ((registry_unbind b e x).trans ?_))
      refine if_neg fun hbound => hx.2 i ?_
      rw [Resolver.bound?, he]
      exact hbound

theorem dispatch [Callback κ] (s : Space κ) (mode : Mode) (t : Tuple) :
    Steady named s.bindings (s.dispatch mode t).1.bindings :=
  ⟨s.registry.taken_le_dispatch s.handles mode t, fun _ _ h => .inl h, fun _ _ _ => rfl⟩

theorem notice [Callback κ] (s : Space κ) (c : Change) :
    Steady named s.bindings (s.notice c).bindings := by
  rw [Space.notice]
  split
  next =>
    rw [Space.afterWrite_fst]
    exact (rebindAll ..).trans
      (dispatch { s with bindings := (s.bindings.retarget c.tuple).1 } .onWrite c.tuple)
  next => exact (dispatch s .onDelete c.tuple).trans (rebindAll ..)

theorem dropped (s : Space κ) (i : Handle) : Steady (· = i) s.bindings (s.dropped i).bindings := by
  rcases s.dropped_cases i with ⟨b, hb, heq⟩ | ⟨-, heq⟩ <;> rw [heq]
  · exact unregister hb
  · exact ⟨Nat.le_refl _, fun _ _ h => .inl h,
      fun x _ hx => (Table.get?_erase ..).trans (if_neg hx)⟩

end Steady

end Bindings

/-- The operations that name a handle. -/
def Operation.Names : Operation κ → Handle → Prop
  | .access _, _ | .allocate, _ => False
  | .subscribe i _, x | .subscribeIndirect i _ _, x | .unsubscribe i, x => x = i

instance (op : Operation κ) (x : Handle) : Decidable (op.Names x) :=
  match op with
  | .access _ | .allocate => inferInstanceAs (Decidable False)
  | .subscribe i _ | .subscribeIndirect i _ _ | .unsubscribe i =>
    inferInstanceAs (Decidable (x = i))

namespace Session

open Bindings

variable [Callback κ]

theorem steady_becomes {s s' : Space κ} {changes : List Change} {named : Handle → Prop}
    (h : s.Becomes changes s') : Steady named s.bindings s'.bindings :=
  h.invariant (I := fun space _ => Steady named s.bindings space.bindings) (fun _ _ _ h => h)
    (fun space _ c _ _ h => h.trans (.notice space c)) (.refl named s.bindings)

theorem steady_step (s : Session κ) (hs : s.space.store.Sound) (op : Operation κ) :
    Steady op.Names s.space.bindings (s.step op).space.bindings := by
  cases op with
  | access a => exact steady_becomes (Space.does_access hs a).becomes
  | allocate => exact ⟨Nat.le_succ _, fun _ _ h => .inl h, fun _ _ _ => rfl⟩
  | subscribe i subscription =>
    exact ⟨Nat.le_refl _, fun _ _ h => .inl h,
      fun x _ hx => (Table.get?_insert ..).trans (if_neg hx)⟩
  | subscribeIndirect i prototype callback => exact .register ..
  | unsubscribe i => exact .dropped ..

/-! ## The handles of callers -/

/-- Bound handles were taken, and the handles that callers have are their own. -/
structure Reserved (s : Session κ) : Prop where
  bound_taken : ∀ i y, s.space.bindings.resolver.bound? i = some y →
    y ≤ s.space.bindings.handles.taken
  owned : ∀ x, s.Given x → s.space.bindings.Owned x

theorem Reserved.steady {s s' : Session κ} {named : Handle → Prop} (h : s.Reserved)
    (hsteady : Steady named s.space.bindings s'.space.bindings)
    (hgiven : ∀ x, s'.Given x → s.Given x) : s'.Reserved where
  bound_taken i y hi := by
    rcases hsteady.bound i y hi with hi | ⟨-, hle⟩
    · exact Nat.le_trans (h.bound_taken i y hi) hsteady.taken
    · exact hle
  owned x hx := hsteady.owned (h.owned x (hgiven x hx))

/-- Callers may take the handles by which the allocator moves on while bindings do not change. -/
theorem Reserved.advance {s s' : Session κ} (h : s.Reserved)
    (hbound : ∀ i, s'.space.bindings.resolver.bound? i = s.space.bindings.resolver.bound? i)
    (htaken : s.space.bindings.handles.taken ≤ s'.space.bindings.handles.taken)
    (hgiven : ∀ x : Nat, s'.Given x → s.Given x ∨
      s.space.bindings.handles.taken < x ∧ x ≤ s'.space.bindings.handles.taken) : s'.Reserved where
  bound_taken i y hi := Nat.le_trans (h.bound_taken i y ((hbound i).symm.trans hi)) htaken
  owned x hx := by
    rcases hgiven x hx with hx | ⟨hlt, hle⟩
    · obtain ⟨hx, hfree⟩ := h.owned x hx
      exact ⟨Nat.le_trans hx htaken, fun i hi => hfree i ((hbound i).symm.trans hi)⟩
    · refine ⟨hle, fun i hi => ?_⟩
      exact Nat.not_le_of_lt hlt (h.bound_taken i x ((hbound i).symm.trans hi))

variable {space space' : Space κ} {ledger : Ledger κ}

theorem reserved_dispatch (h : Reserved ⟨space, ledger⟩) (mode : Mode) (t : Tuple) :
    Reserved ⟨(space.dispatch mode t).1, ledger⟩ := by
  refine h.advance (fun _ => rfl) (space.registry.taken_le_dispatch space.handles mode t) ?_
  intro x hcase
  rcases hcase with hx | hx
  · exact .inl (.inl hx)
  · simp only [Space.dispatch, List.flatMap_append, List.mem_append] at hx
    rcases hx with hx | hx
    · exact .inl (.inr hx)
    · exact .inr ((space.registry.mem_taken_dispatch space.handles mode t).1 hx)

theorem reserved_notice (h : Reserved ⟨space, ledger⟩) (c : Change) :
    Reserved ⟨space.notice c, ledger⟩ := by
  rw [Space.notice]
  split
  next =>
    rw [Space.afterWrite_fst]
    have hretarget :
        Reserved ⟨{ space with bindings := (space.bindings.retarget c.tuple).1 }, ledger⟩ :=
      h.steady (.rebindAll (fun _ => False) ..) fun _ hx => hx
    exact reserved_dispatch hretarget .onWrite c.tuple
  next =>
    exact (reserved_dispatch h .onDelete c.tuple).steady (.rebindAll (fun _ => False) ..)
      fun _ hx => hx

theorem reserved_becomes {changes : List Change} (h : Reserved ⟨space, ledger⟩)
    (hbecomes : space.Becomes changes space') : Reserved ⟨space', ledger⟩ :=
  hbecomes.invariant (I := fun s _ => Reserved ⟨s, ledger⟩) (fun _ _ _ h => ⟨h.1, h.2⟩)
    (fun _ _ c _ _ h => reserved_notice h c) h

theorem reserved_step {s : Session κ} (hs : s.space.store.Sound) (h : s.Reserved)
    (op : Operation κ) : (s.step op).Reserved := by
  cases op with
  | access a => exact reserved_becomes h (Space.does_access hs a).becomes
  | allocate =>
    refine h.advance (fun _ => rfl) (Nat.le_succ _) ?_
    intro x hcase
    rcases hcase with hx | hx
    · rcases List.mem_cons.1 hx with rfl | hx
      · exact .inr ⟨Nat.lt_succ_self _, Nat.le_refl _⟩
      · exact .inl (.inl hx)
    · exact .inl (.inr hx)
  | subscribe i subscription => exact h.steady (s.steady_step hs _) fun _ hx => hx
  | subscribeIndirect i prototype callback => exact h.steady (s.steady_step hs _) fun _ hx => hx
  | unsubscribe i =>
    exact h.steady (s.steady_step hs _) fun x hx => s.given_unsubscribe i ▸ hx

/-- A handle that a caller has is its own at all times, whatever callers do. -/
theorem Reachable.reserved {guard : Session κ → Operation κ → Prop} {s : Session κ}
    (h : Reachable guard s) : s.Reserved := by
  refine (h.invariant (I := fun s => s.space.Coherent ∧ s.Reserved)
    (fun localId policy keepsListing handles => ⟨coherent_start .., ?_, ?_⟩)
    fun _ op hs _ => ⟨coherent_step hs.1 op, reserved_step hs.1.sound hs.2 op⟩).2
  · exact fun _ _ h => nomatch h
  · intro x hcase
    refine ⟨?_, fun _ h => nomatch h⟩
    rcases hcase with hx | hx
    · have hlt := (List.mem_range'_1.1 hx).2
      rw [Nat.add_comm] at hlt
      exact Nat.le_of_lt_succ hlt
    · cases hx

/-! ## What a standing registration is shown -/

/-- What was run under a handle: the callback and the tuple it was shown. -/
def shownTo (x : Handle) (firings : List (Firing κ)) : List (κ × Tuple) :=
  (firings.filter fun f => f.handle = x).map fun f => (f.callback, f.tuple)

/-- What the callback of a subscription is shown of a change. -/
def heard (policy : PayloadCase) (subscription : Subscription κ) (c : Change) :
    Option (κ × Tuple) :=
  if Registry.concerns policy c.mode c.tuple subscription then
    subscription.callback.map fun callback => (callback, Registry.delivered c.mode c.tuple)
  else none

theorem shownTo_dispatch {r : Registry κ} {x : Handle} {subscription : Subscription κ}
    (hx : r.get? x = some subscription) (a : Allocator) (mode : Mode) (place : Location)
    (t : Tuple) :
    shownTo x (r.dispatch a mode t).2.2
      = (heard r.policy subscription ⟨mode, place, t⟩).toList := by
  have hcallbacks := r.filter_dispatch a mode t hx
  have hpairs : shownTo x (r.dispatch a mode t).2.2
      = (((r.dispatch a mode t).2.2.filter fun f => f.handle = x).map (·.callback)).map
        fun callback => (callback, Registry.delivered mode t) := by
    rw [List.map_map, shownTo]
    refine List.map_congr_left fun f hf => ?_
    rw [r.tuple_of_mem_dispatch a mode t (List.mem_of_mem_filter hf)]
    rfl
  rw [hpairs, hcallbacks, heard]
  split
  next => cases subscription.callback <;> rfl
  next => rfl

/-- A registration that stands through some changes and is shown of each what concerns it. -/
structure Serves (x : Handle) (subscription : Subscription κ) (s : Space κ) (changes : List Change)
    (s' : Space κ) : Prop where
  owned : s'.bindings.Owned x
  entry : s'.registry.get? x = some subscription
  policy : s'.registry.policy = s.registry.policy
  shown : ∃ new, s'.fired = s.fired ++ new ∧
    shownTo x new = changes.filterMap (heard s.registry.policy subscription)

section

variable {x : Handle} {subscription : Subscription κ} {s s' s'' : Space κ} {xs ys : List Change}

omit [Callback κ] in
theorem Serves.trans (h : Serves x subscription s xs s') (h' : Serves x subscription s' ys s'') :
    Serves x subscription s (xs ++ ys) s'' where
  owned := h'.owned
  entry := h'.entry
  policy := h'.policy.trans h.policy
  shown := by
    obtain ⟨new, hfired, hnew⟩ := h.shown
    obtain ⟨later, hfired', hlater⟩ := h'.shown
    refine ⟨new ++ later, ?_, ?_⟩
    · rw [hfired', hfired, List.append_assoc]
    · rw [List.filterMap_append, ← hnew, ← h.policy, ← hlater, shownTo, List.filter_append,
        List.map_append]
      rfl

omit [Callback κ] in
theorem Serves.shownTo_eq (h : Serves x subscription s xs s') :
    shownTo x (s'.fired.drop s.fired.length)
      = xs.filterMap (heard s.registry.policy subscription) := by
  obtain ⟨new, hfired, hnew⟩ := h.shown
  rw [hfired, List.drop_left, hnew]

theorem serves_notice (howned : s.bindings.Owned x)
    (hentry : s.registry.get? x = some subscription) (c : Change) :
    Serves x subscription s [c] (s.notice c) := by
  have hsteady : Steady (fun _ => False) s.bindings (s.notice c).bindings := .notice s c
  refine ⟨hsteady.owned howned, (hsteady.entry x howned id).trans hentry,
    s.registry_policy_notice c, ?_⟩
  obtain ⟨mode, place, t⟩ := c
  cases mode with
  | onWrite =>
    -- The callbacks run after repointing, in a registry that may differ at other handles only.
    let b := (s.bindings.retarget t).1
    have hretarget : b.registry.get? x = some subscription :=
      ((Steady.rebindAll (fun _ => False) ..).entry x howned id).trans hentry
    have hpolicy : b.registry.policy = s.registry.policy := registry_policy_rebindAll ..
    refine ⟨(b.registry.dispatch b.handles .onWrite t).2.2, ?_, ?_⟩
    · rw [Space.notice, Space.afterWrite_fst]
      rfl
    · rw [shownTo_dispatch hretarget b.handles .onWrite place t, hpolicy]
      cases hheard : heard s.registry.policy subscription ⟨.onWrite, place, t⟩ <;> simp [hheard]
  | onDelete =>
    refine ⟨(s.registry.dispatch s.handles .onDelete t).2.2, rfl, ?_⟩
    rw [shownTo_dispatch hentry s.handles .onDelete place t]
    cases hheard : heard s.registry.policy subscription ⟨.onDelete, place, t⟩ <;> simp [hheard]

omit [Callback κ] in
theorem serves_nil (howned : s.bindings.Owned x) (hentry : s.registry.get? x = some subscription) :
    Serves x subscription s [] s :=
  ⟨howned, hentry, rfl, [], (List.append_nil _).symm, rfl⟩

theorem serves_noticeAll (howned : s.bindings.Owned x)
    (hentry : s.registry.get? x = some subscription) (changes : List Change) :
    Serves x subscription s changes (s.noticeAll changes) := by
  induction changes generalizing s with
  | nil => exact serves_nil howned hentry
  | cons c rest ih =>
    have hfirst := serves_notice howned hentry c
    exact hfirst.trans (ih hfirst.owned hfirst.entry)

theorem serves_becomes (howned : s.bindings.Owned x)
    (hentry : s.registry.get? x = some subscription) (h : s.Becomes xs s') :
    Serves x subscription s xs s' := by
  have hserves := serves_noticeAll howned hentry xs
  rw [h.noticed]
  exact ⟨hserves.owned, hserves.entry, hserves.policy, hserves.shown⟩

end

variable {s : Session κ} {x : Handle} {subscription : Subscription κ}

theorem serves_step (hs : s.space.Coherent) (howned : s.space.bindings.Owned x)
    (hentry : s.space.registry.get? x = some subscription) {op : Operation κ} (hop : ¬ op.Names x) :
    Serves x subscription s.space ((s.records op).map Record.change) (s.step op).space := by
  have hsteady := s.steady_step hs.sound op
  have hstands := And.intro (hsteady.owned howned) ((hsteady.entry x howned hop).trans hentry)
  cases op with
  | access a => exact serves_becomes howned hentry (Space.does_access hs.sound a).becomes
  | allocate => exact ⟨hstands.1, hstands.2, rfl, [], (List.append_nil _).symm, rfl⟩
  | subscribe i subscription =>
    exact ⟨hstands.1, hstands.2, rfl, [], (List.append_nil _).symm, rfl⟩
  | subscribeIndirect i prototype callback =>
    exact ⟨hstands.1, hstands.2, registry_policy_register .., [], (List.append_nil _).symm, rfl⟩
  | unsubscribe i =>
    refine ⟨hstands.1, hstands.2, ?_, [], ?_, rfl⟩
    · exact (hs.dropped i).registry_policy.trans
        ((congrArg Store.policy (s.space.store_dropped i)).trans hs.registry_policy.symm)
    · rw [List.append_nil]
      exact Space.fired_dropped ..

theorem serves_run (hs : s.space.Coherent) (howned : s.space.bindings.Owned x)
    (hentry : s.space.registry.get? x = some subscription) {ops : List (Operation κ)}
    (hops : ∀ op ∈ ops, ¬ op.Names x) :
    Serves x subscription s.space ((s.history ops).map Record.change) (s.run ops).space := by
  induction ops generalizing s with
  | nil => exact serves_nil howned hentry
  | cons op rest ih =>
    have hfirst := serves_step hs howned hentry (hops op List.mem_cons_self)
    have hlater := ih (coherent_step hs op) hfirst.owned hfirst.entry fun other hother =>
      hops other (List.mem_cons_of_mem _ hother)
    rw [history, List.map_append]
    exact hfirst.trans hlater

theorem Reachable.standing (h : Reachable Allows s)
    (hx : s.ledger.direct.get? x = some subscription) :
    s.space.bindings.Owned x ∧ s.space.registry.get? x = some subscription := by
  have hbindings := h.accounted.bindings
  have hgiven := hbindings.direct_given x subscription hx
  exact ⟨h.reserved.owned x hgiven, (hbindings.entry_iff ..).2 (.direct hx)⟩

/-- From its registration on, a callback is shown what it is registered for of the changes in the
history, each once and in their order, until its handle is named again. -/
theorem Reachable.serves {guard : Session κ → Operation κ → Prop} (h : Reachable guard s)
    (hx : s.Given x) (subscription : Subscription κ) {ops : List (Operation κ)}
    (hops : ∀ op ∈ ops, ¬ op.Names x) :
    let s₀ := s.step (.subscribe x subscription)
    Serves x subscription s₀.space ((s₀.history ops).map Record.change) (s₀.run ops).space := by
  have howned := (s.steady_step h.coherent.sound (.subscribe x subscription)).owned
    (h.reserved.owned x hx)
  exact serves_run (coherent_step h.coherent _) howned (Table.get?_insert_self ..) hops

end Session

end Blackboard
