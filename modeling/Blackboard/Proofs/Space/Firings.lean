import Blackboard.Proofs.Space.Standing

/-!
# Why callbacks run

What an operation on tuples runs is there by the ledger: a callback runs because a caller registered
it and did not take it back. It runs under the caller's handle if it was registered for the tuples,
and under a handle that no caller has if it was registered for what meta tuples name.

The callbacks of an operation take their handles one after the other, each where the one before it
left off.
-/

namespace Blackboard

variable {κ : Type} [Callback κ]

/-- Between two states of the allocator these callbacks took their handles, in their order. -/
def Allocator.Feeds : Allocator → List (Firing κ) → Allocator → Prop
  | a, [], b => a.taken ≤ b.taken
  | a, f :: rest, b =>
    a.taken ≤ f.handles.taken ∧ (f.handles.advance (Callback.handles f.callback)).Feeds rest b

namespace Allocator

variable {a b c : Allocator} {xs ys : List (Firing κ)}

theorem Feeds.of_le (hle : a.taken ≤ b.taken) (h : b.Feeds xs c) : a.Feeds xs c := by
  cases xs with
  | nil => exact Nat.le_trans hle h
  | cons f rest => exact ⟨Nat.le_trans hle h.1, h.2⟩

theorem Feeds.trans (h : a.Feeds xs b) (h' : b.Feeds ys c) : a.Feeds (xs ++ ys) c := by
  induction xs generalizing a with
  | nil => exact .of_le h h'
  | cons f rest ih => exact ⟨h.1, ih h.2⟩

theorem feeds_runAll (t : Tuple) (a : Allocator) (xs : List (Handle × κ)) :
    a.Feeds (Registry.runAll t a xs).2 (Registry.runAll t a xs).1 := by
  induction xs generalizing a with
  | nil => exact Nat.le_refl _
  | cons x rest ih => exact ⟨Nat.le_refl _, ih _⟩

end Allocator

/-- A firing runs the callback that a caller registered under a handle `i`. -/
inductive Ledger.Causes (ledger : Ledger κ) (given : Handle → Prop) (f : Firing κ) : Handle → Prop
  | direct {subscription : Subscription κ}
    (hledger : ledger.direct.get? f.handle = some subscription)
    (hcallback : subscription.callback = some f.callback) : Causes ledger given f f.handle
  | bound {i : Handle} {prototype : Tuple}
    (hledger : ledger.indirect.get? i = some (prototype, some f.callback))
    (hhidden : ¬ given f.handle) : Causes ledger given f i

namespace Session

/-- What runs while one space turns into another. -/
structure Fires (ledger : Ledger κ) (s : Space κ) (new : List (Firing κ)) (s' : Space κ) : Prop where
  fired : s'.fired = s.fired ++ new
  fed : s.handles.Feeds new s'.handles
  caused : ∀ f ∈ new, ∃ i, ledger.Causes (Given ⟨s, ledger⟩) f i

variable {s s' s'' : Space κ} {ledger : Ledger κ} {xs ys : List (Firing κ)}

theorem Fires.quiet (hfired : s'.fired = s.fired) (hle : s.handles.taken ≤ s'.handles.taken) :
    Fires ledger s [] s' :=
  ⟨hfired.trans (List.append_nil _).symm, hle, fun _ hf => nomatch hf⟩

theorem Fires.given (h : Fires ledger s xs s') {x : Handle} (hx : Given ⟨s, ledger⟩ x) :
    Given ⟨s', ledger⟩ x := by
  refine hx.imp_right fun hmem => ?_
  show x ∈ s'.fired.flatMap Firing.taken
  rw [h.fired, List.flatMap_append]
  exact List.mem_append_left _ hmem

theorem Fires.given_of_mem_taken (h : Fires ledger s xs s') {f : Firing κ} (hf : f ∈ xs)
    {x : Handle} (hx : x ∈ f.taken) : Given ⟨s', ledger⟩ x := by
  refine .inr ?_
  show x ∈ s'.fired.flatMap Firing.taken
  rw [h.fired, List.flatMap_append]
  exact List.mem_append_right _ (List.mem_flatMap.2 ⟨f, hf, hx⟩)

theorem Fires.trans (h : Fires ledger s xs s') (h' : Fires ledger s' ys s'') :
    Fires ledger s (xs ++ ys) s'' where
  fired := by rw [h'.fired, h.fired, List.append_assoc]
  fed := h.fed.trans h'.fed
  caused := by
    intro f hf
    rcases List.mem_append.1 hf with hf | hf
    · exact h.caused f hf
    · -- A handle that nobody has later on is one that nobody had before.
      obtain ⟨i, hcauses⟩ := h'.caused f hf
      cases hcauses with
      | direct hledger hcallback => exact ⟨_, .direct hledger hcallback⟩
      | bound hledger hhidden => exact ⟨i, .bound hledger fun hx => hhidden (h.given hx)⟩

/-- A callback that runs has its entry in the registry, and the entry has its reason. -/
theorem fires_dispatch (mode : Mode) (t : Tuple)
    (h : s.bindings.Accounted ledger.direct ledger.indirect (Given ⟨s, ledger⟩)) :
    Fires ledger s (s.registry.dispatch s.handles mode t).2.2 (s.dispatch mode t).1 where
  fired := rfl
  fed := Allocator.feeds_runAll ..
  caused := by
    intro f hf
    obtain ⟨subscription, hentry, -, hcallback⟩ := s.registry.get?_of_mem_dispatch _ _ _ hf
    rcases (h.entry_iff f.handle subscription).1 hentry with hd | hi | ⟨hl, -, hb⟩
    · exact ⟨_, .direct hd hcallback⟩
    · cases hcallback
    · obtain rfl : _ = some f.callback := hcallback
      exact ⟨_, .bound hl (h.hidden _ _ hb)⟩

theorem fires_notice (c : Change)
    (h : s.bindings.Accounted ledger.direct ledger.indirect (Given ⟨s, ledger⟩)) :
    ∃ new, Fires ledger s new (s.notice c) := by
  rw [Space.notice]
  split
  next =>
    rw [Space.afterWrite_fst]
    have hsteady : Bindings.Steady (fun _ => False) s.bindings (s.bindings.retarget c.tuple).1 :=
      .rebindAll ..
    have hretarget : Fires ledger s [] { s with bindings := (s.bindings.retarget c.tuple).1 } :=
      .quiet rfl hsteady.taken
    exact ⟨_, hretarget.trans (fires_dispatch .onWrite c.tuple (h.retarget c.tuple))⟩
  next =>
    have hrun := fires_dispatch .onDelete c.tuple h
    have hsteady : Bindings.Steady (fun _ => False) (s.dispatch .onDelete c.tuple).1.bindings
        ((s.dispatch .onDelete c.tuple).1.bindings.release c.place).1 := .rebindAll ..
    exact ⟨_, hrun.trans (.quiet rfl hsteady.taken)⟩

theorem fires_becomes {changes : List Change} (hbecomes : s.Becomes changes s')
    (h : s.bindings.Accounted ledger.direct ledger.indirect (Given ⟨s, ledger⟩)) :
    ∃ new, Fires ledger s new s' := by
  have hboth := hbecomes.invariant
    (I := fun space _ =>
      space.bindings.Accounted ledger.direct ledger.indirect (Given ⟨space, ledger⟩) ∧
        ∃ new, Fires ledger s new space)
    (fun _ _ _ hspace => ⟨hspace.1, hspace.2.imp fun _ hnew => ⟨hnew.1, hnew.2, hnew.3⟩⟩)
    (fun space _ c _ _ hspace => ?_) ⟨h, [], .quiet rfl (Nat.le_refl _)⟩
  · exact hboth.2
  · obtain ⟨haccounted, before, hbefore⟩ := hspace
    obtain ⟨new, hnew⟩ := fires_notice c haccounted
    exact ⟨accounted_notice c haccounted, _, hbefore.trans hnew⟩

/-- Nothing runs during an operation on tuples but what a caller registered and did not take back. -/
theorem Reachable.fires {s : Session κ} (h : Reachable Allows s) (a : Access) :
    ∃ new, Fires s.ledger s.space new (s.space.access a) := by
  obtain ⟨changes, hbecomes, -⟩ := Space.becomes_access h.coherent.sound a
  exact fires_becomes hbecomes h.accounted.bindings

end Session

end Blackboard
