import Blackboard.Proofs.Host.Steps

/-!
# What leaves a kernel standing

Loops and tasks change neither who uses a kernel nor whether it goes on, unless its transport breaks
down. The exceptions are loops that were asked to end, loops that nobody can reach, and tasks that wait
for a loop to end and lose patience; `MayEnd` collects them.
-/

namespace Blackboard

variable {α : Type}

namespace Kernel

/-- Who uses a kernel, and whether and how it has ended. -/
def standing (k : Kernel) : Nat × Lifecycle × Bool × Bool :=
  (k.users, k.state, k.aborted, k.transportFailed)

/-- The transport of a kernel has broken down, and the kernel has ended for it. -/
def IsBroken (k : Kernel) : Prop := k.state = .shuttingDown ∧ k.transportFailed = true

end Kernel

/-! ## Tasks that end no loop -/

/-- A program ends no loop. -/
def Program.Mild : Program α → Prop
  | .done _ => True
  | .ask _ next => ∀ answer, (next answer).Mild
  | .poll _ => True
  | .awaitAck _ next => ∀ answer, (next answer).Mild
  | .awaitStop next => next.Mild
  | .stop _ => False

/-- A call that neither adds nor removes a user and ends no loop. -/
structure Call.Calm (c : Call α) : Prop where
  standing : ∀ k, (c k).1.standing = k.standing
  mild : ∀ k, (c k).2.Mild

namespace Progress

/-- A task will not ask a loop to end. It may have done so before. -/
def Mild : Progress α → Prop
  | .asking _ next => ∀ answer, (next answer).Mild
  | .awaitingAck _ _ next => ∀ answer, (next answer).Mild
  | .awaitingStop next => next.Mild
  | .stopping _ next => next.Mild
  | .polling _ _ | .resting _ _ _ | .finished _ => True

/-- A task waits for a loop that it asked to end. -/
def isStopping : Progress α → Bool
  | .stopping _ _ => true
  | _ => false

/-- How far a mild program gets. -/
structure Calm (p : Progress α) : Prop where
  mild : p.Mild
  going : p.isStopping = false

end Progress

/-! ## Loops that go on -/

/-- A loop turns into another that has the same users and was not asked to end in between. Unless it
may end, its kernel goes on as before or breaks down. -/
structure Node.Calm (mayEnd : Prop) (n n' : Node) : Prop where
  users : n'.kernel.users = n.kernel.users
  asked : n'.stopRequested = n.stopRequested
  standing : mayEnd ∨ n'.kernel.IsBroken ∨ n'.kernel.standing = n.kernel.standing

namespace Node.Calm

variable {mayEnd mayEnd' : Prop} {n n' n'' : Node}

theorem keeps (hasked : n'.stopRequested = n.stopRequested)
    (hstanding : n'.kernel.standing = n.kernel.standing) : n.Calm mayEnd n' :=
  ⟨congrArg Prod.fst hstanding, hasked, .inr (.inr hstanding)⟩

theorem refl (n : Node) : n.Calm mayEnd n := keeps rfl rfl

theorem trans (h : n.Calm mayEnd n') (h' : n'.Calm mayEnd n'') : n.Calm mayEnd n'' := by
  refine ⟨h'.users.trans h.users, h'.asked.trans h.asked, ?_⟩
  rcases h'.standing with hmay | hbroken | heq
  · exact .inl hmay
  · exact .inr (.inl hbroken)
  · refine h.standing.imp_right (.imp (fun hbroken => ?_) heq.trans)
    simp only [Kernel.standing, Prod.mk.injEq] at heq
    exact ⟨heq.2.1.trans hbroken.1, heq.2.2.2.trans hbroken.2⟩

end Node.Calm

namespace Host

variable {h h' h'' : Host α} {i j : NodeId} {id : TaskId} {n : Node} {P Q : NodeId → Prop}

/-- No task will ask a loop to end. -/
def Mild (h : Host α) : Prop := ∀ (id : TaskId) t, h.tasks[id]? = some t → t.progress.Mild

/-- Nothing happens to the loops but what may, and tasks go on calmly. -/
structure Calm (P : NodeId → Prop) (h h' : Host α) : Prop where
  shared : h'.shared = h.shared
  node : ∀ j n, h.node? j = some n → ∃ n', h'.node? j = some n' ∧ n.Calm (P j) n'
  task : ∀ (id : TaskId) t, h'.tasks[id]? = some t → h.tasks[id]? = some t ∨ t.progress.Calm

namespace Calm

theorem refl (h : Host α) : h.Calm P h := ⟨rfl, fun _ n hn => ⟨n, hn, .refl n⟩, fun _ _ => .inl⟩

theorem trans (hcalm : h.Calm P h') (hcalm' : h'.Calm P h'') : h.Calm P h'' where
  shared := hcalm'.shared.trans hcalm.shared
  node j n hn := by
    obtain ⟨n', hn', hfirst⟩ := hcalm.node j n hn
    obtain ⟨n'', hn'', hlater⟩ := hcalm'.node j n' hn'
    exact ⟨n'', hn'', hfirst.trans hlater⟩
  task id t ht := (hcalm'.task id t ht).elim (hcalm.task id t) .inr

theorem mild (hcalm : h.Calm P h') (hm : h.Mild) : h'.Mild := fun id t ht =>
  (hcalm.task id t ht).elim (hm id t) Progress.Calm.mild

theorem modifyNode {f : Node → Node} (hf : ∀ n, h.node? i = some n → n.Calm (P i) (f n)) :
    h.Calm P (h.modifyNode i f) where
  shared := rfl
  node j n hn := by
    rw [node?_modifyNode]
    split
    next hij =>
      subst hij
      exact ⟨f n, by rw [hn, Option.map_some], hf n hn⟩
    next => exact ⟨n, hn, .refl n⟩
  task _ _ := .inl

theorem modifyNode_of_node {f : Node → Node} (hn : h.node? i = some n) (hf : n.Calm (P i) (f n)) :
    h.Calm P (h.modifyNode i f) :=
  modifyNode fun m hm => by
    cases hn.symm.trans hm
    exact hf

theorem setProgress {p : Progress α} (hp : p.Calm) : h.Calm P (h.setProgress id p) where
  shared := rfl
  node _ n hn := ⟨n, hn, .refl n⟩
  task other t ht := by
    rw [task?_setProgress] at ht
    split at ht
    next =>
      obtain ⟨t', -, rfl⟩ := Option.map_eq_some_iff.1 ht
      exact .inr hp
    next => exact .inl ht

theorem enqueue {p : Progress α} (hp : p.Calm) : h.Calm P (h.enqueue i id p) :=
  (setProgress hp).trans (modifyNode fun _ _ => .keeps rfl rfl)

theorem addTask {t : Task α} (ht : t.progress.Calm) :
    h.Calm P { h with tasks := h.tasks ++ [t] } where
  shared := rfl
  node _ n hn := ⟨n, hn, .refl n⟩
  task id t' ht' := by
    rw [List.getElem?_append] at ht'
    split at ht'
    next => exact .inl ht'
    next =>
      cases List.mem_singleton.1 (List.mem_of_getElem? ht')
      exact .inr ht

end Calm

theorem calm_attempt (h : Host α) (n : Node) (i : NodeId) (id : TaskId) (p : Poll α)
    (since : Moment) : h.Calm P (h.attempt n i id p since) := by
  rw [attempt]
  split
  next => exact .enqueue ⟨trivial, rfl⟩
  next => exact .setProgress ⟨trivial, rfl⟩

theorem calm_proceed {p : Program α} (hp : p.Mild) (h : Host α) (n : Node) (i : NodeId)
    (id : TaskId) : h.Calm P (h.proceed n i id p) := by
  induction p with
  | done outcome => exact .setProgress ⟨trivial, rfl⟩
  | ask r next ih =>
    rw [proceed]
    split
    next => exact .enqueue ⟨hp, rfl⟩
    next => exact ih _ (hp _)
  | poll p => exact h.calm_attempt n i id p h.now
  | awaitAck ticket next => exact .setProgress ⟨hp, rfl⟩
  | awaitStop next => exact .setProgress ⟨hp, rfl⟩
  | stop next => exact hp.elim

theorem calm_goOn {p : Program α} (hp : p.Mild) (h : Host α) (i : NodeId) (id : TaskId) :
    h.Calm P (h.goOn i id p) := by
  rw [goOn]
  split
  next => exact .refl h
  next => exact calm_proceed hp ..

theorem calm_deliver (hm : h.Mild) (i : NodeId) (id : TaskId) (reply : Reply) :
    h.Calm P (h.deliver i id reply) := by
  rw [deliver]
  split
  next t n ht hn =>
    have ht := hm id t ht
    split
    next r next hp =>
      rw [hp] at ht
      split
      next => exact calm_proceed (ht _) ..
      next => exact .refl h
    next p since hp =>
      split
      next =>
        rw [settlePoll]
        split <;> exact .setProgress ⟨trivial, rfl⟩
      next => exact .refl h
    next => exact .refl h
  next => exact .refl h

theorem calm_deliverAll (hm : h.Mild) (i : NodeId) (replies : List (TaskId × Reply)) :
    h.Calm P (h.deliverAll i replies) := by
  induction replies generalizing h with
  | nil => exact .refl h
  | cons r rest ih =>
    have hfirst : h.Calm P (h.deliver i r.1 r.2) := calm_deliver hm i r.1 r.2
    exact hfirst.trans (ih (hfirst.mild hm))

/-! ## Loops -/

theorem calm_serve (hm : h.Mild) (i : NodeId) : h.Calm P (h.serve i) := by
  rw [serve]
  split
  next => exact .refl h
  next n hn =>
    dsimp only
    split
    next id r _ _ =>
      have hworks := n.kernel.applyQueued.works_serve r
      have hserved : h.Calm P (h.modifyNode i fun m =>
          { m with kernel := (n.kernel.serveNext r).1, pending := m.pending.drop 1 }) :=
        .modifyNode_of_node hn (.keeps rfl (hworks.eq Kernel.standing (by intros; rfl)))
      exact hserved.trans (calm_deliver (hserved.mild hm) ..)
    next => exact .modifyNode fun _ _ => .keeps rfl rfl

/-- A loop that ends, for one of the reasons that it may have or because its transport broke down. -/
theorem calm_finish (hm : h.Mild) (i : NodeId) {why : Kernel.Ending}
    (hwhy : why ≠ .transportStopped → P i) : h.Calm P (h.finish i why) := by
  rw [finish]
  split
  next => exact .refl h
  next n hn =>
    have hended : h.Calm P (h.modifyNode i fun m => { m with
        kernel := (n.kernel.finish why ((h.requests n).map Prod.snd)).1
        phase := .ended, pending := [] }) := by
      refine .modifyNode_of_node hn ?_
      by_cases hbroken : why = .transportStopped
      · subst hbroken
        exact ⟨rfl, rfl, .inr (.inl ⟨rfl, rfl⟩)⟩
      · have hworks := n.kernel.works_finish hbroken ((h.requests n).map Prod.snd)
        exact ⟨hworks.eq Kernel.users (by intros; rfl), rfl, .inl (hwhy hbroken)⟩
    exact hended.trans (calm_deliverAll (hended.mild hm) ..)

theorem calm_abort (hm : h.Mild) {i : NodeId} (hmay : P i) : h.Calm P (h.abort i) := by
  rw [abort]
  split
  next => exact .refl h
  next n hn =>
    have hended : h.Calm P (h.modifyNode i fun m =>
        { m with kernel := n.kernel.abort, phase := .ended, pending := [] }) :=
      .modifyNode_of_node hn ⟨rfl, rfl, .inl hmay⟩
    exact hended.trans (calm_deliverAll (hended.mild hm) ..)

theorem calm_endTick (hm : h.Mild) (i : NodeId) : h.Calm P (h.endTick i) := by
  rw [endTick]
  split
  next => exact .refl h
  next n hn =>
    have hstepped : h.Calm P (h.modifyNode i fun m =>
        { m with kernel := n.kernel.endTick.1, phase := .idle }) :=
      .modifyNode_of_node hn (.keeps rfl (n.kernel.works_endTick.eq Kernel.standing (by intros; rfl)))
    dsimp only
    split
    next => exact hstepped
    next => exact hstepped.trans (calm_finish (hstepped.mild hm) i fun h => absurd rfl h)

theorem calm_tick (hm : h.Mild) (i : NodeId) : h.Calm P (h.tick i) := by
  rw [tick]
  split
  next => exact .refl h
  next n hn =>
    have hbegun : h.Calm P (h.modifyNode i fun m => { m with
        kernel := n.kernel.beginTick
        nextTick := tickAfter n.nextTick n.kernel.beginTick.config.tickPeriod.nanos h.now }) :=
      .modifyNode_of_node hn (.keeps rfl rfl)
    dsimp only
    split
    next => exact hbegun.trans (.modifyNode fun _ _ => .keeps rfl rfl)
    next => exact hbegun.trans (calm_endTick (hbegun.mild hm) i)

/-! ## What happens -/

/-- A loop may end for other reasons than a broken transport. -/
inductive MayEnd (h : Host α) (i : NodeId) : Prop
  | asked {n : Node} (hn : h.node? i = some n) (hasked : n.stopRequested = true)
  | abandoned (hheld : h.isHeld i = false)
  | forced {id : TaskId} {t : Task α} (ht : h.tasks[id]? = some t) (hi : t.node = i)
    (hstopping : t.progress.isStopping = true)

/-- A loop that ends by itself is one that may. -/
theorem mayEnd_of_ends {why : Kernel.Ending} (hn : h.node? j = some n)
    (hnext : h.nextOfNode? j n = some (.ends i why)) : h.MayEnd i := by
  have hcases := nextOfNode?_cases hnext
  obtain rfl : i = j := by simpa using hcases.2
  rw [nextOfNode?] at hnext
  cases hphase : n.phase with
  | ended => simp [hphase] at hnext
  | stalled => simp [hphase] at hnext
  | idle =>
    by_cases hasked : n.stopRequested = true
    · exact .asked hn hasked
    · refine .abandoned ?_
      grind

theorem calm_wake (hm : h.Mild) (id : TaskId) : h.Calm h.MayEnd (h.wake id) := by
  rw [wake]
  split
  next => exact .refl h
  next t ht =>
    have hp := hm id t ht
    split
    next => exact calm_attempt ..
    next n ticket deadline next hn hprogress =>
      rw [hprogress] at hp
      have hworks : n.kernel.Works _ := n.kernel.works_acknowledge ticket
      have hlearnt : h.Calm h.MayEnd
          (h.modifyKernel t.node fun _ => n.kernel.after (.acknowledge ticket)) :=
        .modifyNode_of_node hn (.keeps rfl (hworks.eq Kernel.standing (by intros; rfl)))
      exact hlearnt.trans (calm_goOn (hp _) ..)
    next n next hn hprogress =>
      rw [hprogress] at hp
      exact calm_goOn hp ..
    next n deadline next hn hprogress =>
      rw [hprogress] at hp
      have hended : h.Calm h.MayEnd (if n.phase = .ended then h else h.abort t.node) := by
        split
        next => exact .refl h
        next => exact calm_abort hm (.forced ht rfl (by rw [hprogress]; rfl))
      exact hended.trans (calm_goOn hp ..)
    next => exact .refl h

/-- Whatever happens, only those loops end that may. -/
theorem calm_perform (hm : h.Mild) {e : Happening} (he : h.Enabled e) :
    h.Calm h.MayEnd (h.perform e) := by
  cases e with
  | serves i => exact calm_serve hm i
  | ticks i => exact calm_tick hm i
  | resumes i => exact calm_endTick hm i
  | ends i why =>
    obtain ⟨j, n, hn, hnext⟩ := he
    exact calm_finish hm i fun _ => mayEnd_of_ends hn hnext
  | goesOn id => exact calm_wake hm id

theorem calm_call {c : Call α} (hc : c.Calm) (h : Host α) (i : NodeId) :
    h.Calm P (h.call i c).1 := by
  rw [call]
  split
  next => exact .refl h
  next n hn =>
    have hcalled : h.Calm P (h.modifyNode i fun _ => { n with kernel := (c n.kernel).1 }) :=
      .modifyNode_of_node hn (.keeps rfl (hc.standing n.kernel))
    exact (hcalled.trans (.addTask (t := ⟨i, .finished (.error .notRunning)⟩) ⟨trivial, rfl⟩)).trans
      (calm_proceed (hc.mild n.kernel) ..)

end Host

end Blackboard
