import Blackboard.Proofs.Host.Steps

/-!
# How loops end

A loop that ends answers whoever is in line, each once. If it was shut down or nobody reaches it any
more, it puts the registrations that wait into effect and serves the requests in their order; if its
transport broke down, it refuses them all and leaves the space alone.

From then on the loop does nothing. Programs that ask it for something get an error at once, so a task
that is answered comes to a halt without joining the line again.
-/

namespace Blackboard

variable {α : Type}

/-! ## Coming to a halt -/

/-- How far a program gets at a kernel that refuses all requests. -/
def Program.halt (k : Kernel) (now : Moment) (stopRequested : Bool) : Program α → Progress α
  | .done outcome => .finished outcome
  | .ask _ next => (next (.error k.stoppedError)).halt k now stopRequested
  | .poll _ => .finished (.error k.stoppedError)
  | .awaitAck ticket next =>
    .awaitingAck ticket (now + k.config.insertAckTimeout.nanos) next
  | .awaitStop next => .awaitingStop next
  | .stop next =>
    if stopRequested then next.halt k now stopRequested
    else .stopping (now + graceOfStop.nanos) next

/-- How far a task gets with the reply to its request, at a kernel that refuses all others. -/
def Progress.answered (k : Kernel) (now : Moment) (stopRequested : Bool) (reply : Reply) :
    Progress α → Progress α
  | .asking r next =>
    if same : reply.request = r then (next (same ▸ reply.answer)).halt k now stopRequested
    else .asking r next
  | .polling p since =>
    if same : reply.request = p.request then
      match p.judge ⟨now - since⟩ (same ▸ reply.answer) with
      | .finished outcome => .finished outcome
      | .again => .resting p since (now + k.config.tickPeriod.nanos)
    else .polling p since
  | p => p

namespace Kernel

/-- A kernel that was shut down or abandoned, after some of the requests in line. -/
def drained (k : Kernel) (rs : List Request) : Kernel :=
  rs.foldl (fun k r => (k.serve r).1) { k with state := .shuttingDown }.applyQueued

/-- A kernel whose transport broke down. The registrations that wait are dropped. -/
def broken (k : Kernel) (transport : Transport) : Kernel :=
  { k with
    transport := transport.close, state := .shuttingDown, transportFailed := true, queued := [] }

/-- Each request is served in the state that the ones before it leave. -/
theorem getElem?_serveAll (k : Kernel) (rs : List Request) (m : Nat) :
    (k.serveAll rs).2[m]? = rs[m]?.map fun r =>
      ⟨r, (((rs.take m).foldl (fun k r => (k.serve r).1) k).serve r).2⟩ := by
  induction rs generalizing k m with
  | nil => rfl
  | cons r rest ih =>
    cases m with
    | zero => rfl
    | succ m => exact ih (k.serve r).1 m

theorem finish_eq (k : Kernel) {why : Ending} (hwhy : why ≠ .transportStopped)
    (rs : List Request) : (k.finish why rs).1 = (k.drained rs).closeTransport ∧
      ∀ m : Nat, (k.finish why rs).2[m]? = rs[m]?.map fun r =>
        ⟨r, ((k.drained (rs.take m)).serve r).2⟩ := by
  cases why with
  | shutdown | abandoned =>
    exact ⟨congrArg closeTransport (serveAll_fst ..), fun m => getElem?_serveAll _ rs m⟩
  | transportStopped => exact absurd rfl hwhy

end Kernel

namespace Node

/-- An ended loop with the space of a kernel, but for handles that were taken since. -/
structure Rests (k : Kernel) (n : Node) : Prop where
  phase : n.phase = .ended
  failed : n.kernel.transportFailed = k.transportFailed
  space : ∃ handles, n.kernel.space = { k.space with bindings.handles := handles }

variable {k : Kernel} {n n' : Node}

theorem Rests.turn (hrests : n.Rests k) (h : n.Turn n') : n'.Rests k := by
  obtain ⟨hphase, hfailed, handles, hspace⟩ := hrests
  cases h with
  | line pending stopRequested _ => exact ⟨hphase, hfailed, handles, hspace⟩
  | call hm =>
    have hcalled := n.kernel.called_of_isCall hm
    refine ⟨hphase, (hcalled.eq Kernel.transportFailed (by intros; rfl)).trans hfailed, ?_⟩
    obtain ⟨handles', _, _, _, _, _, heq⟩ := hcalled
    exact ⟨handles', by simp only [heq, hspace]⟩
  | environment transport clock => exact ⟨hphase, hfailed, handles, hspace⟩
  | serve _ _ hrunning | beginTick _ hrunning | stall hrunning | endTick hrunning
  | finish _ _ hrunning | abort hrunning => exact absurd hphase hrunning

theorem Rests.turns (hrests : n.Rests k) (h : n.Turns n') : n'.Rests k :=
  h.invariant (fun _ _ hturn hn => hn.turn hturn) hrests

end Node

namespace Host

variable {h h' h'' : Host α} {i j : NodeId} {id : TaskId} {n : Node}

theorem tasks_proceed (hrefuses : n.kernel.accepts = false) (h : Host α) (i : NodeId) (id : TaskId)
    (p : Program α) : (h.proceed n i id p).tasks
      = (h.setProgress id (p.halt n.kernel h.now n.stopRequested)).tasks := by
  induction p with
  | done outcome => rfl
  | ask r next ih =>
    rw [proceed, if_neg (by simp [hrefuses]), ih, Program.halt]
  | poll p =>
    rw [proceed, attempt, if_neg (by simp [hrefuses])]
    rfl
  | awaitAck ticket next => rfl
  | awaitStop next => rfl
  | stop next ih =>
    rw [proceed, Program.halt]
    split
    next => exact ih
    next => rfl

theorem tasks_deliver (hrefuses : n.kernel.accepts = false) (hn : h.node? i = some n) {t : Task α}
    (ht : h.tasks[id]? = some t) {reply : Reply} (hr : t.progress.request? = some reply.request) :
    (h.deliver i id reply).tasks[id]? = some
      { t with progress := t.progress.answered n.kernel h.now n.stopRequested reply } := by
  have hset (p : Progress α) := task?_setProgress_self ht p
  rw [deliver, ht, hn]
  cases hp : t.progress with
  | asking r next =>
    rw [hp] at hr
    have hsame : reply.request = r := (Option.some.inj hr).symm
    simp only [hp, hsame, dite_true, Progress.answered]
    rw [tasks_proceed hrefuses]
    exact hset _
  | polling p since =>
    rw [hp] at hr
    have hsame : reply.request = p.request := (Option.some.inj hr).symm
    simp only [hp, hsame, dite_true, Progress.answered, settlePoll]
    split <;> simp only [*]
  | resting _ _ _ | awaitingAck _ _ _ | awaitingStop _ | stopping _ _ | finished _ =>
    rw [hp] at hr
    cases hr

/-- Each task that gets a reply from a loop that has ended comes to a halt with it. -/
theorem Owed.answered {replies : List (TaskId × Reply)} (ho : h.Owed i replies)
    (hn : h.node? i = some n) (hrefuses : n.kernel.accepts = false) :
    ∀ r ∈ replies, ∃ t stopRequested, h.tasks[r.1]? = some t ∧
      (h.deliverAll i replies).tasks[r.1]? = some
        { t with progress := t.progress.answered n.kernel h.now stopRequested r.2 } := by
  induction replies generalizing h n with
  | nil => exact fun _ hr => nomatch hr
  | cons r rest ih =>
    intro x hx
    obtain ⟨t, ht, -, hr⟩ := ho.asked r List.mem_cons_self
    have hadv := ho.advances
    have hfresh := (List.nodup_cons.1 ho.nodup).1
    rcases List.mem_cons.1 hx with rfl | hx
    · exact ⟨t, n.stopRequested, ht,
        (ho.tail.task?_of_not_mem hfresh).trans (tasks_deliver hrefuses hn ht hr)⟩
    · -- The first reply changes neither the kernel nor the task that this one is for.
      obtain ⟨n', hn', -⟩ := hadv.turns.exists_node hn
      have hkernel : n'.kernel = n.kernel := by
        have hsame := hadv.kernel?_eq i
        rw [kernel?, kernel?, hn, hn'] at hsame
        exact Option.some.inj hsame
      obtain ⟨t', stopRequested, ht', hanswered⟩ := ih ho.tail hn' (hkernel ▸ hrefuses) x hx
      rw [hkernel, hadv.now_eq] at hanswered
      have hne : x.1 ≠ r.1 := fun heq => hfresh (heq ▸ List.mem_map_of_mem hx)
      exact ⟨t', stopRequested, (hadv.task?_of_ne hne).symm.trans ht', hanswered⟩

/-! ## What an ended loop leaves -/

/-- Everyone in line at a loop gets one reply, to the own request, and comes to a halt. -/
structure Answers (h : Host α) (i : NodeId) (k : Kernel) (replies : List (TaskId × Reply))
    (h' : Host α) : Prop where
  once : (replies.map Prod.fst).Nodup
  everyone : ∀ id, id ∈ replies.map Prod.fst ↔ h.Asks i id
  own : ∀ r ∈ replies, ∃ t stopRequested, h.tasks[r.1]? = some t ∧
    t.progress.request? = some r.2.request ∧ h'.tasks[r.1]? = some
      { t with progress := t.progress.answered k h.now stopRequested r.2 }
  nobody : ∀ id, ¬ h'.Asks i id
  others : ∀ id, ¬ h.Asks i id → h'.tasks[id]? = h.tasks[id]?

/-- The loop has ended for good. Whatever happens later, its space stays, but for handles that are
taken, and whoever asks it for something gets an error at once. -/
structure Over (h : Host α) (i : NodeId) (k : Kernel) (e : KernelError) : Prop where
  kernel : ∃ n, h.node? i = some n ∧ n.kernel = k ∧ n.phase = .ended ∧ n.pending = []
  later : ∀ h', h.Leads h' → ∃ n, h'.node? i = some n ∧ n.phase = .ended ∧ n.pending = [] ∧
    (∃ handles, n.kernel.space = { k.space with bindings.handles := handles }) ∧
    (∀ r, n.kernel.push r = (n.kernel, .error e)) ∧
    (∀ id r next, h'.proceed n i id (.ask r next) = h'.proceed n i id (next (.error e))) ∧
    ∀ id p since, h'.attempt n i id p since = h'.setProgress id (.finished (.error e))

theorem over_of_ended (ho : h.Orderly) (hn : h.node? i = some n) (hphase : n.phase = .ended) :
    h.Over i n.kernel n.kernel.stoppedError where
  kernel := ⟨n, hn, rfl, hphase, (ho.sound i n hn).emptied hphase⟩
  later h' hleads := by
    obtain ⟨n', hn', hturns⟩ := hleads.exists_node ho hn
    have hrests : n'.Rests n.kernel :=
      Node.Rests.turns ⟨hphase, rfl, n.kernel.space.bindings.handles, rfl⟩ hturns
    have hsound := (hleads.orderly ho).sound i n' hn'
    have hrefuses : ¬ n'.kernel.accepts = true := by simp [hsound.ended_iff.1 hrests.phase]
    have herror : n'.kernel.stoppedError = n.kernel.stoppedError := by
      rw [Kernel.stoppedError, Kernel.stoppedError, hrests.failed]
    refine ⟨n', hn', hrests.phase, hsound.emptied hrests.phase, hrests.space, fun r => ?_,
      fun id r next => ?_, fun id p since => ?_⟩
    · rw [Kernel.push, if_neg hrefuses, herror]
    · rw [proceed, if_neg hrefuses, herror]
    · rw [attempt, if_neg hrefuses, herror]

/-- A loop that refuses from some turn on and hands out replies to all in line. -/
theorem ends_answering (ho : h.Orderly) (hn : h.node? i = some n) {f : Node → Node}
    (hturn : n.Turn (f n)) (hpending : (f n).pending = [])
    (hrefuses : (f n).kernel.accepts = false) {replies : List (TaskId × Reply)}
    (hsame : replies.map (fun r => (r.1, r.2.request)) = h.requests n) :
    h.Answers i (f n).kernel replies ((h.modifyNode i f).deliverAll i replies) ∧
      ((h.modifyNode i f).deliverAll i replies).Over i (f n).kernel
        (f n).kernel.stoppedError := by
  obtain ⟨howed, hids⟩ := owed_of_requests (f := f) ho.lined hn hsame
  have hturns := turns_deliverAll ho.lined hn hturn hsame
  have hafter : ((h.modifyNode i f).deliverAll i replies).Orderly :=
    ⟨hturns.sound ho.sound, lined_deliverAll ho.lined hn hpending hsame⟩
  have hf : (h.modifyNode i f).node? i = some (f n) := by
    exact node?_modifyNode_self hn _
  obtain ⟨n', hn', -⟩ := howed.turns.exists_node hf
  have hkernel : n'.kernel = (f n).kernel := by
    have heq := howed.kernel?_eq i
    rw [kernel?, kernel?, hf, hn'] at heq
    exact Option.some.inj heq
  have hsound := hafter.sound i n' hn'
  have hended : n'.phase = .ended := hsound.ended_iff.2 (hkernel ▸ hrefuses)
  refine ⟨⟨howed.nodup, fun id => ?_, fun r hr => ?_, fun id => ?_, fun id hid => ?_⟩,
    hkernel ▸ over_of_ended hafter hn' hended⟩
  · rw [hids]
    exact ho.lined.mem_pending_iff hn
  · obtain ⟨t, stopRequested, ht, hanswered⟩ := howed.answered hf hrefuses r hr
    obtain ⟨t', ht', -, hrequest⟩ := howed.asked r hr
    cases ht.symm.trans ht'
    exact ⟨t, stopRequested, ht, hrequest, hanswered⟩
  · rw [← hafter.lined.mem_pending_iff hn', hsound.emptied hended]
    exact List.not_mem_nil
  · refine howed.task?_of_not_mem ?_
    rw [hids]
    exact mt (ho.lined.mem_pending_iff hn).1 hid

/-! ## How loops come to their end -/

/-- The loop ends by itself if it was shut down, or if nobody is in line and nobody can reach it. -/
theorem nextOfNode?_eq_ends_iff {why : Kernel.Ending} :
    h.nextOfNode? i n = some (.ends i why) ↔ n.phase = .idle ∧
      (n.stopRequested = true ∧ why = .shutdown ∨
        n.stopRequested = false ∧ n.pending = [] ∧ h.isHeld i = false ∧ why = .abandoned) := by
  rw [nextOfNode?]
  cases hphase : n.phase with
  | ended => simp
  | stalled => grind
  | idle => grind [List.isEmpty_iff]

/-- Each request is served once, in the state that the ones before it in line leave. -/
def InTurn (k : Kernel) (waiting : List (TaskId × Request)) (replies : List (TaskId × Reply)) :
    Prop :=
  ∀ m : Nat, replies[m]? = waiting[m]?.map fun w =>
    (w.1, ⟨w.2, ((k.drained ((waiting.take m).map Prod.snd)).serve w.2).2⟩)

theorem finish_answers (ho : h.Orderly) (hn : h.node? i = some n) (hphase : n.phase ≠ .ended)
    {why : Kernel.Ending} (hwhy : why ≠ .transportStopped) {k : Kernel}
    (hk : k = (n.kernel.drained ((h.requests n).map Prod.snd)).closeTransport) :
    ∃ replies, InTurn n.kernel (h.requests n) replies ∧ h.Answers i k replies (h.finish i why) ∧
      (h.finish i why).Over i k .notRunning := by
  let waiting := h.requests n
  let f (m : Node) : Node :=
    { m with
      kernel := (n.kernel.finish why (waiting.map Prod.snd)).1, phase := .ended, pending := [] }
  obtain ⟨hkernel, hreplies⟩ := n.kernel.finish_eq hwhy (waiting.map Prod.snd)
  obtain ⟨hanswers, hover⟩ := ends_answering ho hn (f := f) (.finish why _ hphase) rfl
    (by simp [f, Kernel.accepts, Kernel.isRunning, n.kernel.state_finish])
    (zip_requests waiting (n.kernel.finish_requests why _))
  -- The transport of a loop that has not ended has not broken down.
  have herror : (f n).kernel.stoppedError = .notRunning := by
    have hworks := (n.kernel.works_finish hwhy (waiting.map Prod.snd)).eq Kernel.transportFailed
      (by intros; rfl)
    have hfine : n.kernel.transportFailed ≠ true := mt (ho.sound i n hn).failed hphase
    rw [Kernel.stoppedError, if_neg (by rw [hworks]; exact hfine)]
  cases hk.trans hkernel.symm
  rw [finish, hn]
  refine ⟨_, fun m => ?_, hanswers, herror ▸ hover⟩
  rw [List.zip_eq_zipWith, List.getElem?_zipWith, hreplies, List.getElem?_map, List.getElem?_map,
    List.map_take]
  cases waiting[m]? <;> rfl

theorem endTick_answers (ho : h.Orderly) (hn : h.node? i = some n) (hphase : n.phase ≠ .ended)
    (hbroken : n.kernel.transport.step.1.isRunning = false) {k : Kernel}
    (hk : k = n.kernel.broken n.kernel.transport.step.1) :
    h.Answers i k ((h.requests n).map fun w => (w.1, ⟨w.2, .error .transportStopped⟩))
        (h.endTick i) ∧ (h.endTick i).Over i k .transportStopped := by
  subst hk
  have hstep : n.kernel.endTick
      = ({ n.kernel with transport := n.kernel.transport.step.1 }, false) := by
    rw [Kernel.endTick]
    simp only [hbroken, Bool.false_eq_true, if_false]
  let waiting := h.requests n
  let replies : List (TaskId × Reply) :=
    waiting.map fun w => (w.1, ⟨w.2, .error .transportStopped⟩)
  let g (m : Node) : Node := { m with kernel := n.kernel.endTick.1, phase := .idle }
  let f (m : Node) : Node :=
    { m with
      kernel := ((g n).kernel.finish .transportStopped (waiting.map Prod.snd)).1
      phase := .ended, pending := [] }
  have hstepped : (h.modifyNode i g).Orderly :=
    ⟨(Turns.modifyNode_of_turn hn (.endTick hphase)).sound ho.sound,
      lined_modifyNode ho.lined fun _ _ => rfl⟩
  have hn' : (h.modifyNode i g).node? i = some (g n) := by
    exact node?_modifyNode_self hn _
  have hsame : replies.map (fun r => (r.1, r.2.request)) = waiting :=
    refused_requests waiting .transportStopped
  obtain ⟨hanswers, hover⟩ := ends_answering hstepped hn' (f := f)
    (.finish .transportStopped _ fun h => by cases h) rfl rfl hsame
  have hkernel : (f n).kernel = n.kernel.broken n.kernel.transport.step.1 := by
    simp only [f, g, hstep]
    rfl
  have hdone : h.endTick i = ((h.modifyNode i g).modifyNode i f).deliverAll i replies := by
    have hzip : (waiting.map Prod.fst).zip
        ((waiting.map Prod.snd).map fun r => (⟨r, .error .transportStopped⟩ : Reply)) = replies := by
      rw [List.map_map, List.zip_map']
      rfl
    rw [endTick, hn]
    dsimp only
    rw [if_neg (by simp [hstep]), finish, hn', ← hzip]
    rfl
  rw [hdone, ← hkernel]
  exact ⟨⟨hanswers.once, hanswers.everyone, hanswers.own, hanswers.nobody, hanswers.others⟩, hover⟩

theorem tick_answers (ho : h.Orderly) (hn : h.node? i = some n) (hphase : n.phase ≠ .ended)
    (hgoes : n.kernel.beginTick.transport.stalls = false)
    (hbroken : n.kernel.beginTick.transport.step.1.isRunning = false) {k : Kernel}
    (hk : k = n.kernel.beginTick.broken n.kernel.beginTick.transport.step.1) :
    h.Answers i k ((h.requests n).map fun w => (w.1, ⟨w.2, .error .transportStopped⟩)) (h.tick i) ∧
      (h.tick i).Over i k .transportStopped := by
  let g (m : Node) : Node := { m with
    kernel := n.kernel.beginTick,
    nextTick := tickAfter n.nextTick n.kernel.beginTick.config.tickPeriod.nanos h.now }
  have hbegun : (h.modifyNode i g).Orderly :=
    ⟨(Turns.modifyNode_of_turn hn (.beginTick _ hphase)).sound ho.sound,
      lined_modifyNode ho.lined fun _ _ => rfl⟩
  have hn' : (h.modifyNode i g).node? i = some (g n) := by
    exact node?_modifyNode_self hn _
  have htick : h.tick i = (h.modifyNode i g).endTick i := by
    rw [tick, hn]
    dsimp only
    rw [if_neg (by simp [hgoes])]
  obtain ⟨hanswers, hover⟩ := endTick_answers hbegun hn' hphase hbroken hk
  rw [htick]
  exact ⟨⟨hanswers.once, hanswers.everyone, hanswers.own, hanswers.nobody, hanswers.others⟩, hover⟩

/-- What a client does to end a loop: it takes itself away and, as the last, asks the loop to end. -/
def leaving (f : Unit → α) : Call α := fun k =>
  ((Client.shutdown k).1, (Client.shutdown k).2.map f)

theorem node?_call_leaving (hn : h.node? i = some n) (f : Unit → α) :
    (h.call i (leaving f)).1.node? i = some { n with
      kernel := n.kernel.dismiss.1
      stopRequested := n.stopRequested || n.kernel.dismiss.2 } := by
  let n' : Node := { n with kernel := n.kernel.dismiss.1 }
  have hcalled : (h.modifyNode i fun _ => n').node? i = some n' := by
    exact node?_modifyNode_self hn _
  rw [call, hn]
  dsimp only [leaving, Client.shutdown]
  cases n.kernel.dismiss.2 with
  | false =>
    rw [Bool.or_false]
    exact hcalled
  | true =>
    rw [Bool.or_true]
    simp only [if_true, Program.map, proceed]
    split
    next hstop =>
      rw [← hstop]
      exact hcalled
    next =>
      rw [node?_modifyNode, if_pos rfl]
      exact congrArg (Option.map _) hcalled

/-- A kernel with one user, just started. -/
def attended : Host Bool where
  nodes := [{
    kernel := .opened { publishAllKeys := false } (.scripted {}) ⟨1000000000⟩
    nextTick := 0 }]

/-- A client asks for a write and another whether there is a value then. Before anything is served the
user leaves. -/
def closing : Host Bool :=
  let l : Location := ⟨1, ⟨[some "x"]⟩⟩
  let writer := Client.running fun _ => .request (.insert (.plainText 1 l.key "v")) fun _ =>
    .done (.ok true)
  (((attended.call 0 writer).1.call 0 (Client.isPresent l)).1.call 0 (leaving fun _ => true)).1

end Host

end Blackboard
