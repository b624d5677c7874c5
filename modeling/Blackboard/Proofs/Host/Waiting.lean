import Blackboard.Proofs.Host.Onward
import Blackboard.Proofs.Host.Polling
import Blackboard.Proofs.Host.Stopping

/-!
# Tasks that poll

Whatever step a host takes, a task that polls makes at most one move of its poll. It is in line at its
loop during an attempt, so its loop answers it when it serves the first in line, when it ends and
answers all in line, or when it is ended by force; it goes on when its sleep is over; and nothing else
is about it. The answers are those of requests that are served, or refusals, so none is a timeout.
-/

namespace Blackboard

variable {α : Type}

/-! ## What loops answer -/

namespace Kernel

variable {k : Kernel}

theorem commit_ne_timeout (outcome : Except TupleError (Space Reaction × Mutation)) (d : Duration) :
    (k.commit outcome).2 ≠ .error (.timeout d) := by
  cases outcome <;> simp [commit]

theorem send_ne_timeout (owner : Owner) (t : Tuple) (d : Duration) :
    (k.send owner t).2 ≠ .error (.timeout d) := by
  rw [send]
  split <;> simp

theorem get_ne_timeout (l : Location) (onlyFresh : Bool) (d : Duration) :
    (k.get l onlyFresh).2 ≠ .error (.timeout d) := by
  rw [get]
  split <;> simp

/-- No request runs out of time while it is served. -/
theorem serve_ne_timeout (k : Kernel) (r : Request) (d : Duration) :
    (k.serve r).2 ≠ .error (.timeout d) := by
  cases r with
  | insert t =>
    rw [serve, insert]
    split
    next => simp
    next =>
      dsimp only
      split
      next => exact commit_ne_timeout _ d
      next => exact send_ne_timeout _ _ d
  | delete l =>
    rw [serve, delete]
    split
    next => exact commit_ne_timeout _ d
    next =>
      split
      next => simp
      next => exact send_ne_timeout _ _ d
  | get l onlyFresh => exact get_ne_timeout l onlyFresh d
  | getIndirect prototype onlyFresh =>
    rw [serve, getIndirect]
    dsimp only
    split
    next => simp
    next =>
      split
      next => simp
      next => simp
      next => exact get_ne_timeout _ _ d
  | append p suffix expected =>
    rw [serve, append]
    split <;> simp
  | resolve l =>
    rw [serve, resolve]
    cases k.space.resolve l <;> simp [Except.mapError]
  | connect url =>
    rw [serve, connect]
    split <;> simp
  | first _ | isPresent _ | search _ | isMeta _ | hasSubscriber _ | owners _ | stats | sync =>
    simp [serve]

theorem stoppedError_cases (k : Kernel) :
    k.stoppedError = .notRunning ∨ k.stoppedError = .transportStopped := by
  rw [stoppedError]
  split
  next => exact .inr rfl
  next => exact .inl rfl

end Kernel

namespace Host

variable {h h' h'' : Host α} {i j : NodeId} {id other : TaskId} {n : Node}

/-! ## One step of a task that polls -/

/-- The answers that a loop gives to the request of a task: it serves the request as the first in line,
it serves it with all others in line when it ends, or it refuses it because it has ended. -/
inductive Gives (h : Host α) (i : NodeId) (id : TaskId) (r : Request) :
    Except KernelError r.Answer → Prop
  | serves {n : Node} {rest : List TaskId} (hn : h.node? i = some n)
    (hfirst : n.pending = id :: rest) : Gives h i id r (n.kernel.serveNext r).2
  | drains {n : Node} {m : Nat} (hn : h.node? i = some n)
    (hplace : (h.requests n)[m]? = some (id, r)) :
    Gives h i id r ((n.kernel.drained (((h.requests n).take m).map Prod.snd)).serve r).2
  | refuses {e : KernelError} (he : e = .notRunning ∨ e = .transportStopped) :
    Gives h i id r (.error e)

theorem Gives.ne_timeout {r : Request} {answer : Except KernelError r.Answer}
    (hgives : h.Gives i id r answer) (d : Duration) : answer ≠ .error (.timeout d) := by
  cases hgives with
  | serves hn hfirst => exact Kernel.serve_ne_timeout _ r d
  | drains hn hplace => exact Kernel.serve_ne_timeout _ r d
  | refuses he => rcases he with rfl | rfl <;> simp

variable {p : Poll α} {since : Moment} {period : Duration} {made : List (Attempt p.request)}
  {q : Progress α}

/-- A task at a loop has polled up to here, and in another host it stands where its poll may move to. -/
def Follows (h : Host α) (i : NodeId) (id : TaskId) (p : Poll α) (since : Moment) (period : Duration)
    (q : Progress α) (h' : Host α) : Prop :=
  ∃ q' more, h'.tasks[id]? = some ⟨i, q'⟩ ∧
    p.Moves since period h.now (h.Gives i id p.request) q more q'

theorem follows_of_task_eq (ht : h.tasks[id]? = some ⟨i, q⟩)
    (hsame : h'.tasks[id]? = h.tasks[id]?) : h.Follows i id p since period q h' :=
  ⟨q, [], hsame.trans ht, .stays q⟩

theorem Follows.then_same (hf : h.Follows i id p since period q h')
    (hsame : h''.tasks[id]? = h'.tasks[id]?) : h.Follows i id p since period q h'' := by
  obtain ⟨q', more, ht, hmoves⟩ := hf
  exact ⟨q', more, hsame.trans ht, hmoves⟩

/-- Among the tasks that poll only one that awaits an answer has a request in line. -/
theorem polling_of_stage (hstage : p.Stage since period made h.now q) {r : Request}
    (hr : q.request? = some r) : q = .polling p since ∧ r = p.request := by
  cases hstage with
  | polling => exact ⟨rfl, (Option.some.inj hr).symm⟩
  | resting | finished => cases hr

/-- A loop ends and answers all in line. -/
theorem Answers.follows {k : Kernel} {replies : List (TaskId × Reply)} (ha : h.Answers j k replies h')
    (ht : h.tasks[id]? = some ⟨i, q⟩) (hstage : p.Stage since period made h.now q)
    (hperiod : i = j → k.config.tickPeriod = period)
    (hgives : i = j → ∀ answer, (id, ⟨p.request, answer⟩) ∈ replies →
      h.Gives i id p.request answer) : h.Follows i id p since period q h' := by
  by_cases hasks : h.Asks j id
  · obtain ⟨r, hr, rfl⟩ := List.mem_map.1 ((ha.everyone id).2 hasks)
    obtain ⟨t, ht', rfl, -⟩ := hasks
    cases ht.symm.trans ht'
    obtain ⟨t', stopRequested, ht'', hrequest, hafter⟩ := ha.own r hr
    cases ht.symm.trans ht''
    obtain ⟨id, request, answer⟩ := r
    obtain ⟨rfl, rfl⟩ := polling_of_stage hstage hrequest
    refine ⟨_, _, ?_, .answered (hgives rfl answer hr)⟩
    rw [hafter]
    cases hjudge : p.judge ⟨h.now - since⟩ answer <;>
      simp only [Progress.answered, dite_true, hjudge, hperiod rfl, Poll.progressAfter, Poll.verdict]
  · exact follows_of_task_eq ht (ha.others id hasks)

theorem deliver_polling (hn : h.node? i = some n) (ht : h.tasks[id]? = some ⟨i, .polling p since⟩)
    (answer : Except KernelError p.request.Answer) :
    (h.deliver i id ⟨p.request, answer⟩).tasks[id]? = some
      ⟨i, p.progressAfter since n.kernel.config.tickPeriod ⟨h.now, answer⟩⟩ := by
  rw [deliver, ht, hn]
  simp only [dite_true, settlePoll, Poll.progressAfter, Poll.verdict]
  split <;> simp only [*, task?_setProgress_self ht]

/-- The first in line is served. -/
theorem serve_follows (hl : h.InLine) (ht : h.tasks[id]? = some ⟨i, q⟩)
    (hstage : p.Stage since period made h.now q) (hn : h.node? j = some n)
    (hperiod : i = j → n.kernel.config.tickPeriod = period) :
    h.Follows i id p since period q (h.serve j) := by
  cases hpending : n.pending with
  | nil =>
    rw [serve_of_nil hn hpending]
    exact follows_of_task_eq ht rfl
  | cons first rest =>
    obtain ⟨t, r, ht', rfl, hr, hserve⟩ := serve_of_pending hl hn hpending
    rw [hserve]
    let f (m : Node) : Node :=
      { m with kernel := n.kernel.after (.serve r), pending := m.pending.drop 1 }
    have hf : (h.modifyNode t.node f).node? t.node = some (f n) := by
      exact node?_modifyNode_self hn _
    by_cases hfirst : id = first
    · subst hfirst
      cases ht.symm.trans ht'
      obtain ⟨rfl, rfl⟩ := polling_of_stage hstage hr
      have hdone := deliver_polling hf ht (n.kernel.serveNext p.request).2
      have hconfig : (f n).kernel.config = n.kernel.config := (n.kernel.evolves_after _).config
      rw [hconfig, hperiod rfl] at hdone
      exact ⟨_, _, hdone, .answered (.serves hn hpending)⟩
    · refine follows_of_task_eq ht ?_
      exact (advances_deliver (h := h.modifyNode t.node f) ht' hf hr).task?_of_ne hfirst

theorem finish_follows (ho : h.Orderly) (ht : h.tasks[id]? = some ⟨i, q⟩)
    (hstage : p.Stage since period made h.now q) (hn : h.node? j = some n)
    (hperiod : i = j → n.kernel.config.tickPeriod = period) (hphase : n.phase ≠ .ended)
    {why : Kernel.Ending} (hwhy : why ≠ .transportStopped) :
    h.Follows i id p since period q (h.finish j why) := by
  obtain ⟨replies, hturn, hanswers, -⟩ := finish_answers ho hn hphase hwhy rfl
  refine hanswers.follows ht hstage (fun hij => ?_) fun hij answer hmem => ?_
  · rw [← (n.kernel.finish_eq hwhy _).1, (n.kernel.evolves_finish why _).config]
    exact hperiod hij
  · obtain ⟨m, hm⟩ := List.mem_iff_getElem?.1 hmem
    rw [hturn, Option.map_eq_some_iff] at hm
    obtain ⟨⟨id, r⟩, hplace, heq⟩ := hm
    cases heq
    exact .drains (hij ▸ hn) hplace

/-- Everyone in line is refused. -/
theorem Answers.follows_refused {k : Kernel} {waiting : List (TaskId × Request)} {e : KernelError}
    (ha : h.Answers j k (waiting.map fun w => (w.1, ⟨w.2, .error e⟩)) h')
    (he : e = .notRunning ∨ e = .transportStopped) (ht : h.tasks[id]? = some ⟨i, q⟩)
    (hstage : p.Stage since period made h.now q) (hperiod : i = j → k.config.tickPeriod = period) :
    h.Follows i id p since period q h' := by
  refine ha.follows ht hstage hperiod fun _ answer hmem => ?_
  obtain ⟨⟨_, _⟩, -, heq⟩ := List.mem_map.1 hmem
  cases heq
  exact .refuses he

/-- A loop whose transport runs answers nobody at the end of a tick. -/
theorem tasks_endTick (hn : h.node? j = some n)
    (hruns : n.kernel.transport.step.1.isRunning = true) : (h.endTick j).tasks = h.tasks := by
  have hgoes : n.kernel.endTick.2 = true := by
    rw [Kernel.endTick]
    simp only [hruns, if_true]
  rw [endTick, hn]
  dsimp only
  rw [if_pos hgoes]
  rfl

theorem endTick_follows (ho : h.Orderly) (ht : h.tasks[id]? = some ⟨i, q⟩)
    (hstage : p.Stage since period made h.now q) (hn : h.node? j = some n)
    (hperiod : i = j → n.kernel.config.tickPeriod = period) (hphase : n.phase ≠ .ended) :
    h.Follows i id p since period q (h.endTick j) := by
  cases hruns : n.kernel.transport.step.1.isRunning with
  | false =>
    obtain ⟨hanswers, -⟩ := endTick_answers ho hn hphase hruns rfl
    exact hanswers.follows_refused (.inr rfl) ht hstage hperiod
  | true => exact follows_of_task_eq ht (congrArg (·[id]?) (tasks_endTick hn hruns))

theorem tick_follows (ho : h.Orderly) (ht : h.tasks[id]? = some ⟨i, q⟩)
    (hstage : p.Stage since period made h.now q) (hn : h.node? j = some n)
    (hperiod : i = j → n.kernel.config.tickPeriod = period) (hphase : n.phase ≠ .ended) :
    h.Follows i id p since period q (h.tick j) := by
  cases hstalls : n.kernel.beginTick.transport.stalls with
  | true =>
    refine follows_of_task_eq ht ?_
    rw [tick, hn]
    dsimp only
    rw [if_pos hstalls]
    rfl
  | false =>
    cases hruns : n.kernel.beginTick.transport.step.1.isRunning with
    | false =>
      obtain ⟨hanswers, -⟩ := tick_answers ho hn hphase hstalls hruns rfl
      exact hanswers.follows_refused (.inr rfl) ht hstage hperiod
    | true =>
      let f (m : Node) : Node := { m with
        kernel := n.kernel.beginTick,
        nextTick := tickAfter n.nextTick n.kernel.beginTick.config.tickPeriod.nanos h.now }
      have hf : (h.modifyNode j f).node? j = some (f n) := by
        exact node?_modifyNode_self hn _
      refine follows_of_task_eq ht (congrArg (·[id]?) ?_)
      rw [tick, hn]
      dsimp only
      rw [if_neg (by simp [hstalls])]
      exact tasks_endTick hf hruns

theorem abort_answers (ho : h.Orderly) (hn : h.node? j = some n) (hphase : n.phase ≠ .ended) :
    h.Answers j n.kernel.abort
      ((h.requests n).map fun w => (w.1, ⟨w.2, .error n.kernel.abort.stoppedError⟩)) (h.abort j) := by
  let f (m : Node) : Node :=
    { m with kernel := n.kernel.abort, phase := .ended, pending := [] }
  have hsame := refused_requests (h.requests n) n.kernel.abort.stoppedError
  have hrefuses : (f n).kernel.accepts = false := by simp [f, Kernel.abort, Kernel.accepts]
  rw [abort, hn]
  exact (ends_answering ho hn (f := f) (.abort hphase) rfl hrefuses hsame).1

theorem tasks_goOn_of_ne (hne : id ≠ other) (j : NodeId) (p : Program α) :
    (h.goOn j other p).tasks[id]? = h.tasks[id]? := by
  rw [goOn]
  split
  next => rfl
  next n hn => exact (advances_proceed hn other p).task?_of_ne hne

/-- Another task goes on. That may end a loop. -/
theorem wake_follows_of_ne (ho : h.Orderly) (ht : h.tasks[id]? = some ⟨i, q⟩)
    (hstage : p.Stage since period made h.now q)
    (hperiod : ∀ n, h.node? i = some n → n.kernel.config.tickPeriod = period) (hne : id ≠ other) :
    h.Follows i id p since period q (h.wake other) := by
  have hsame : h.Follows i id p since period q h := follows_of_task_eq ht rfl
  rw [wake]
  split
  next => exact hsame
  next t ht' =>
    split
    next n _ _ _ hn _ => exact hsame.then_same ((advances_attempt hn other _ _).task?_of_ne hne)
    next => exact hsame.then_same (tasks_goOn_of_ne hne ..)
    next => exact hsame.then_same (tasks_goOn_of_ne hne ..)
    next n _ _ hn _ =>
      -- It waited for a loop to end and does so no longer. The loop may be the one of our task.
      refine Follows.then_same ?_ (tasks_goOn_of_ne hne ..)
      split
      next => exact hsame
      next hphase =>
        exact (abort_answers ho hn hphase).follows_refused n.kernel.abort.stoppedError_cases ht hstage
          fun hij => hperiod n (hij ▸ hn)
    next => exact hsame

/-- The sleep of a task that polls is over. -/
theorem wake_follows_self (ht : h.tasks[id]? = some ⟨i, q⟩)
    (hstage : p.Stage since period made h.now q) (hready : h.isReady ⟨i, q⟩ = true) :
    h.Follows i id p since period q (h.wake id) := by
  rw [isReady] at hready
  cases hn : h.node? i with
  | none => simp [hn] at hready
  | some n =>
    cases hstage with
    | polling => simp [hn] at hready
    | finished => simp [hn] at hready
    | @resting before last =>
      simp only [hn, decide_eq_true_eq] at hready
      rw [wake, ht]
      simp only [hn, attempt]
      split
      next =>
        refine ⟨_, _, ?_, .wakes hready⟩
        exact task?_setProgress_self ht _
      next =>
        refine ⟨_, _, ?_, .refused hready (.refuses n.kernel.stoppedError_cases)⟩
        exact task?_setProgress_self ht _

/-- Whatever happens, a task that polls goes on as its poll does. -/
theorem perform_follows (ho : h.Orderly) (ht : h.tasks[id]? = some ⟨i, q⟩)
    (hstage : p.Stage since period made h.now q)
    (hperiod : ∀ n, h.node? i = some n → n.kernel.config.tickPeriod = period) {e : Happening}
    (he : h.Enabled e) : h.Follows i id p since period q (h.perform e) := by
  have hloop {j : NodeId} {n : Node} (hn : h.node? j = some n) (hnext : h.nextOfNode? j n = some e) :
      h.Follows i id p since period q (h.perform e) := by
    have hsame (hij : i = j) : n.kernel.config.tickPeriod = period := hperiod n (hij ▸ hn)
    obtain ⟨hphase, rfl | rfl | rfl | ⟨why, rfl⟩⟩ := nextOfNode?_cases hnext
    · exact serve_follows ho.lined ht hstage hn hsame
    · exact tick_follows ho ht hstage hn hsame hphase
    · exact endTick_follows ho ht hstage hn hsame hphase
    · refine finish_follows ho ht hstage hn hsame hphase ?_
      rcases (nextOfNode?_eq_ends_iff.1 hnext).2 with ⟨-, rfl⟩ | ⟨-, -, -, rfl⟩ <;> simp
  cases e with
  | goesOn other =>
    by_cases hid : id = other
    · subst hid
      obtain ⟨t, ht', hready⟩ := he
      cases ht.symm.trans ht'
      exact wake_follows_self ht hstage hready
    · exact wake_follows_of_ne ho ht hstage hperiod hid
  | serves _ | ticks _ | resumes _ | ends _ _ =>
    obtain ⟨j, n, hn, hnext⟩ := he
    exact hloop hn hnext

theorem task?_call (hid : id < h.tasks.length) (j : NodeId) (c : Call α) :
    (h.call j c).1.tasks[id]? = h.tasks[id]? := by
  cases hn : h.node? j with
  | none => rw [call, hn]
  | some n =>
    obtain ⟨hcall, hnew⟩ := call_of_node hn (c := c) rfl
    rw [hcall, (advances_proceed hnew h.tasks.length _).task?_of_ne (Nat.ne_of_lt hid)]
    exact List.getElem?_append_left hid

theorem Step.follows (hstep : h.Step h') (ho : h.Orderly) (ht : h.tasks[id]? = some ⟨i, q⟩)
    (hstage : p.Stage since period made h.now q)
    (hperiod : ∀ n, h.node? i = some n → n.kernel.config.tickPeriod = period) :
    h.Follows i id p since period q h' := by
  cases hstep with
  | call j hc => exact follows_of_task_eq ht (task?_call (List.getElem?_eq_some_iff.1 ht).1 j _)
  | happens he => exact perform_follows ho ht hstage hperiod he
  | starts hstart =>
    obtain ⟨-, -, rfl⟩ := start_eq_ok hstart
    exact follows_of_task_eq ht rfl
  | passes _ | joins _ | environment _ _ _ | holds _ _ => exact follows_of_task_eq ht rfl

end Host

end Blackboard
