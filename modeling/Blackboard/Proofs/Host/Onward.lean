import Blackboard.Proofs.Host.Steps

/-!
# Runs in which time does not go back

Steps of a host may set its time to anything; `LeadsOn` are the runs in which it never goes back. What
loops and tasks do takes no time, and a host that waits goes to the next moment at which something can
happen, which is still to come. So the runs of the host by itself are such runs.

Whatever happens, the settings of a kernel stay as they were when it started.
-/

namespace Blackboard

variable {α : Type}

/-- Kernels that start tick at a positive period. -/
theorem Config.tickPeriod_pos {c : Config} (hc : c.validate = .ok ()) : 0 < c.tickPeriod.nanos := by
  have hrate : c.tickHz ≤ fastestTick := by
    by_contra hrange
    rw [validate, if_pos (by simp [Nat.lt_of_not_le hrange])] at hc
    cases hc
  rw [fastestTick] at hrate
  have hpos : 0 < microsPerSecond / max 1 c.tickHz :=
    Nat.div_pos (by rw [microsPerSecond]; omega) (by omega)
  exact Nat.mul_pos hpos (by decide)

theorem Node.Turns.config {n n' : Node} (h : n.Turns n') : n'.kernel.config = n.kernel.config := by
  refine h.invariant (I := fun m => m.kernel.config = n.kernel.config) (fun m m' hturn hm => ?_) rfl
  cases hturn with
  | line _ _ _ | stall _ => exact hm
  | call _ | environment _ _ | serve _ _ _ | beginTick _ _ | endTick _ | finish _ _ _ | abort _ =>
    exact (m.kernel.evolves_after _).config.trans hm

namespace Host

variable {h h' h'' : Host α} {i : NodeId} {id : TaskId} {n : Node}

/-! ## Settings -/

/-- All kernels started with settings that are not refused. -/
def Valid (h : Host α) : Prop := ∀ j n, h.node? j = some n → n.kernel.config.validate = .ok ()

theorem Step.valid (hstep : h.Step h') (ho : h.Orderly) (hv : h.Valid) : h'.Valid := by
  intro j n' hn'
  rcases hstep.turns_or_starts ho.lined with ⟨hturns, -⟩ | ⟨config, transport, clock, _, hstart⟩
  · obtain ⟨n, hn, hturned⟩ := hturns.exists_before hn'
    rw [hturned.config]
    exact hv j n hn
  · obtain ⟨hopened, -, rfl⟩ := start_eq_ok hstart
    rw [node?_addNode] at hn'
    split at hn'
    next =>
      obtain rfl := Option.some.inj hn'
      rw [(Kernel.evolves_opened config transport clock).config]
      exact (Kernel.start_eq_ok_iff.1 hopened).1
    next => exact hv j n' hn'

theorem Reachable.valid (hr : h.Reachable) : h.Valid := by
  induction hr with
  | refl => exact fun _ _ hn => nomatch hn
  | tail hbefore hlast ih => exact hlast.valid (Reachable.orderly hbefore) ih

/-! ## What takes no time -/

section Now

variable (h) (n) (i) (id)

theorem now_attempt (p : Poll α) (since : Moment) : (h.attempt n i id p since).now = h.now := by
  rw [attempt]
  split <;> rfl

theorem now_proceed (p : Program α) : (h.proceed n i id p).now = h.now := by
  induction p with
  | done _ | awaitAck _ _ | awaitStop _ => rfl
  | ask r next ih =>
    rw [proceed]
    split
    next => rfl
    next => exact ih _
  | poll p => exact h.now_attempt i id n p h.now
  | stop next ih =>
    rw [proceed]
    split
    next => exact ih
    next => rfl

theorem now_goOn (p : Program α) : (h.goOn i id p).now = h.now := by
  rw [goOn]
  split
  next => rfl
  next n _ => exact h.now_proceed i id n p

theorem now_deliver (reply : Reply) : (h.deliver i id reply).now = h.now := by
  rw [deliver]
  split
  next n _ _ =>
    split
    next =>
      split
      next => exact h.now_proceed i id n _
      next => rfl
    next =>
      split
      next =>
        rw [settlePoll]
        split <;> rfl
      next => rfl
    next => rfl
  next => rfl

theorem now_deliverAll (replies : List (TaskId × Reply)) : (h.deliverAll i replies).now = h.now := by
  induction replies generalizing h with
  | nil => rfl
  | cons r rest ih => exact (ih _).trans (h.now_deliver i r.1 r.2)

theorem now_serve : (h.serve i).now = h.now := by
  rw [serve]
  split
  next => rfl
  next =>
    split
    next => exact now_deliver ..
    next => rfl

theorem now_finish (why : Kernel.Ending) : (h.finish i why).now = h.now := by
  rw [finish]
  split
  next => rfl
  next => exact now_deliverAll ..

theorem now_abort : (h.abort i).now = h.now := by
  rw [abort]
  split
  next => rfl
  next => exact now_deliverAll ..

theorem now_endTick : (h.endTick i).now = h.now := by
  rw [endTick]
  split
  next => rfl
  next =>
    dsimp only
    split
    next => rfl
    next => exact now_finish ..

theorem now_tick : (h.tick i).now = h.now := by
  rw [tick]
  split
  next => rfl
  next =>
    dsimp only
    split
    next => rfl
    next => exact now_endTick ..

theorem now_wake : (h.wake id).now = h.now := by
  rw [wake]
  split
  next => rfl
  next =>
    split
    next => exact now_attempt ..
    next => exact now_goOn ..
    next => exact now_goOn ..
    next =>
      refine (now_goOn ..).trans ?_
      split
      next => rfl
      next => exact now_abort ..
    next => rfl

end Now

theorem now_perform (h : Host α) (e : Happening) : (h.perform e).now = h.now := by
  cases e with
  | serves i => exact h.now_serve i
  | ticks i => exact h.now_tick i
  | resumes i => exact h.now_endTick i
  | ends i why => exact h.now_finish i why
  | goesOn id => exact h.now_wake id

/-! ## Time that passes -/

/-- A step in which time does not go back. -/
def StepOn (h h' : Host α) : Prop := h.Step h' ∧ h.now ≤ h'.now

/-- Steps lead from one host to another, and time does not go back. -/
def LeadsOn : Host α → Host α → Prop := Relation.ReflTransGen StepOn

theorem LeadsOn.refl (h : Host α) : h.LeadsOn h := Relation.ReflTransGen.refl

theorem LeadsOn.leads (hleads : h.LeadsOn h') : h.Leads h' := by
  induction hleads with
  | refl => exact .refl h
  | tail _ hlast ih => exact ih.tail hlast.1

theorem stepOn_perform {e : Happening} (he : h.Enabled e) : h.StepOn (h.perform e) :=
  ⟨.happens he, (h.now_perform e).ge⟩

theorem stepOn_passes {now : Moment} (hnow : h.now ≤ now) : h.StepOn { h with now } :=
  ⟨.passes now, hnow⟩

/-- A task that has to go on now is ready. -/
theorem lt_of_not_ready {t : Task α} {moment : Moment} (hn : h.node? t.node = some n)
    (hready : h.isReady t = false) (hdeadline : t.progress.deadline? = some moment) :
    h.now < moment := by
  rw [isReady, hn] at hready
  cases hp : t.progress with
  | resting p since wake =>
    rw [hp] at hready hdeadline
    cases hdeadline
    simpa using hready
  | awaitingAck ticket deadline next =>
    rw [hp] at hready hdeadline
    cases hdeadline
    dsimp only at hready
    split at hready
    next => simpa using hready
    next => cases hready
  | stopping deadline next =>
    rw [hp] at hready hdeadline
    cases hdeadline
    simp only [Bool.or_eq_false_iff, decide_eq_false_iff_not] at hready
    exact Nat.lt_of_not_le hready.2
  | asking _ _ | polling _ _ | awaitingStop _ | finished _ =>
    rw [hp] at hdeadline
    cases hdeadline

/-- A loop whose tick is due does something. -/
theorem lt_of_nextOfNode?_eq_none (hphase : n.phase = .idle) (hnext : h.nextOfNode? i n = none) :
    h.now < n.nextTick := by
  by_contra hdue
  rw [nextOfNode?, hphase] at hnext
  grind

/-- When nothing can happen now, the next moment at which something can is still to come. -/
theorem now_lt_nextMoment (hl : h.InLine) (hnext : h.next? = none) {moment : Moment}
    (hmoment : h.nextMoment? = some moment) : h.now < moment := by
  rw [next?, Option.or_eq_none_iff, List.findSome?_eq_none_iff, List.findSome?_eq_none_iff] at hnext
  obtain ⟨hloops, htasks⟩ := hnext
  rw [nextMoment?] at hmoment
  rcases List.mem_append.1 (List.min?_mem hmoment) with htick | hdeadline
  · obtain ⟨n, hn, hphase⟩ := List.mem_filterMap.1 htick
    obtain ⟨i, hi⟩ := List.mem_iff_getElem?.1 hn
    split at hphase
    next hidle =>
      cases hphase
      exact lt_of_nextOfNode?_eq_none hidle (hloops (n, i) (List.mk_mem_zipIdx_iff_getElem?.2 hi))
    next => cases hphase
  · obtain ⟨t, ht, hdeadline⟩ := List.mem_filterMap.1 hdeadline
    obtain ⟨id, hid⟩ := List.mem_iff_getElem?.1 ht
    have hready := htasks (t, id) (List.mk_mem_zipIdx_iff_getElem?.2 hid)
    obtain ⟨n, hn⟩ := Option.isSome_iff_exists.1 (hl.housed id t hid)
    exact lt_of_not_ready hn (by simpa using hready) hdeadline

theorem leadsOn_await (id : TaskId) (fuel : Nat) (ho : h.Orderly) : h.LeadsOn (h.await id fuel) := by
  induction fuel generalizing h with
  | zero => exact .refl h
  | succ fuel ih =>
    rw [await]
    split
    next e he =>
      have hstep := stepOn_perform (enabled_of_next? he)
      exact .head hstep (ih (hstep.1.orderly ho))
    next hnext =>
      split
      next => exact .refl h
      next =>
        split
        next => exact .refl h
        next moment hmoment =>
          -- Time moves on only to a moment that is still to come.
          have hstep := stepOn_passes (now_lt_nextMoment ho.lined hnext hmoment).le
          exact .head hstep (ih (hstep.1.orderly ho))

end Host

end Blackboard
