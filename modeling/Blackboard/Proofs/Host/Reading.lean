import Blackboard.Proofs.Host.Waiting

/-!
# Blocking reads

Four calls read until they find something: by location, by pattern, through a meta tuple, and for the
owner of a value. On a host such a call is a task that polls. In every run in which time does not go
back the task follows a course of its poll, with answers that its dispatch loop gave in this run. So
the number of its attempts is bounded, and it is over at some time unless it is left without an answer
or its sleep without an end.
-/

namespace Blackboard

variable {α β : Type}

/-- The same call with another result. -/
def Call.map (f : β → α) (c : Call β) : Call α := fun k => ((c k).1, (c k).2.map f)

/-- The calls that read until they find something, each with its poll. -/
inductive Client.Awaits (k : Kernel) : {β : Type} → Call β → Poll β → Prop
  | get {l : Location} {flags : GetFlags} (hl : l.key.isConcrete = true)
    (hblocking : flags.blocking = true) :
    Awaits k (Client.get l flags) ⟨.get l !flags.keepOld, fun a => a.map some, flags.limit k⟩
  | first {pattern : Tuple} {flags : GetFlags} (hblocking : flags.blocking = true) :
    Awaits k (Client.first pattern flags)
      ⟨.first (if flags.keepOld then pattern else pattern.onlyFresh), fun a => a.map some,
        flags.limit k⟩
  | getIndirectBy {prototype : Tuple} {flags : GetFlags} (hblocking : flags.blocking = true) :
    Awaits k (Client.getIndirectBy prototype flags)
      ⟨.getIndirect prototype !flags.keepOld, fun a => a.map some, flags.limit k⟩
  | findOwner {key : Key} {timeout : Option Duration} (hkey : key.isConcrete = true) :
    Awaits k (Client.findOwner key timeout) ⟨.owners key, fun owners => owners.head?, timeout⟩

theorem Client.Awaits.call_eq {k : Kernel} {c : Call β} {p : Poll β} (hc : Client.Awaits k c p) :
    c k = (k, .poll p) := by
  cases hc with
  | get hl hblocking =>
    simp only [Client.get, running, checkedProgram, Location.requireConcrete, hl, if_true, read,
      hblocking]
    rfl
  | first hblocking =>
    simp only [Client.first, running, read, hblocking, if_true]
    rfl
  | getIndirectBy hblocking =>
    simp only [Client.getIndirectBy, running, read, hblocking, if_true]
    rfl
  | findOwner hkey => simp only [Client.findOwner, running, hkey, if_true]

theorem Client.Awaits.civil {k : Kernel} {c : Call β} {p : Poll β} (hc : Client.Awaits k c p)
    (f : β → α) : (c.map f).Civil := by
  cases hc <;> exact civil_running _

namespace Host

variable {h h' h'' begun : Host α} {i j : NodeId} {id : TaskId} {n : Node} {p : Poll α}
  {since : Moment} {period limit : Duration} {made : List (Attempt p.request)} {q : Progress α}

/-! ## Runs of a task that polls -/

/-- A task has polled since a moment. Its attempts follow a course, and its loop answered each of them
in a host of the run. -/
structure Watched (begun : Host α) (i : NodeId) (id : TaskId) (p : Poll α) (since : Moment)
    (period : Duration) (made : List (Attempt p.request)) (q : Progress α) (h : Host α) : Prop where
  task : h.tasks[id]? = some ⟨i, q⟩
  course : p.Course since period made h.now q
  given : ∀ x ∈ made, ∃ g, begun.LeadsOn g ∧ g.LeadsOn h ∧ g.now = x.moment ∧
    g.Gives i id p.request x.answer

/-- The call begins to poll. If its kernel refuses requests, this is its only attempt. -/
theorem watched_call (hn : h.node? i = some n) {c : Call α} (hc : c n.kernel = (n.kernel, .poll p)) :
    ∃ made q, (h.call i c).1.Watched i h.tasks.length p h.now n.kernel.config.tickPeriod made q
      (h.call i c).1 := by
  have hnew := h.task?_calling i n
  have hsame : n = { n with kernel := (c n.kernel).1 } := by rw [hc]
  have hcall : (h.call i c).1 = (h.calling i n).attempt n i h.tasks.length p h.now := by
    rw [(call_of_node hn hsame).1, hc]
    rfl
  rw [hcall, attempt]
  split
  next => exact ⟨[], _, task?_setProgress_self hnew _, .begins, by simp⟩
  next =>
    refine ⟨[⟨h.now, .error n.kernel.stoppedError⟩], _, task?_setProgress_self hnew _,
      Poll.Course.begins.answered (.error n.kernel.stoppedError), fun x hx => ?_⟩
    cases List.mem_singleton.1 hx
    exact ⟨_, .refl _, .refl _, rfl, .refuses n.kernel.stoppedError_cases⟩

/-- A host at the beginning of a run, in which a loop ticks at a period. -/
structure Paced (begun : Host α) (i : NodeId) (period : Duration) : Prop where
  orderly : begun.Orderly
  node : ∃ n, begun.node? i = some n ∧ n.kernel.config.tickPeriod = period

theorem Paced.tickPeriod (hs : begun.Paced i period) (hleads : begun.LeadsOn h)
    (hn : h.node? i = some n) : n.kernel.config.tickPeriod = period := by
  obtain ⟨m, hm, hperiod⟩ := hs.node
  obtain ⟨n', hn', hturns⟩ := hleads.leads.exists_node hs.orderly hm
  cases hn.symm.trans hn'
  rw [hturns.config, hperiod]

/-- One step of the host is at most one move of the poll. -/
theorem Watched.step (hw : begun.Watched i id p since period made q h)
    (hs : begun.Paced i period) (hleads : begun.LeadsOn h) (hstep : h.StepOn h') :
    ∃ more q', p.Moves since period h.now (h.Gives i id p.request) q more q' ∧
      begun.Watched i id p since period (made ++ more) q' h' := by
  have ho := hleads.leads.orderly hs.orderly
  have hstage := hw.course.spaced_and_stage.2
  obtain ⟨q', more, ht, hmoves⟩ :=
    hstep.1.follows ho hw.task hstage fun n hn => hs.tickPeriod hleads hn
  refine ⟨more, q', hmoves, ht, (hw.course.moves hmoves).passes hstep.2, fun x hx => ?_⟩
  rcases List.mem_append.1 hx with hold | hnew
  · obtain ⟨g, hg, hlater, hgives⟩ := hw.given x hold
    exact ⟨g, hg, hlater.tail hstep, hgives⟩
  · obtain ⟨hmoment, hgives⟩ := hmoves.given_of_mem hnew
    exact ⟨h, hleads, .single hstep, hmoment.symm, hgives⟩

theorem LeadsOn.watched (hleads : begun.LeadsOn h) (hs : begun.Paced i period)
    (hw : ∃ made q, begun.Watched i id p since period made q begun) :
    ∃ made q, begun.Watched i id p since period made q h := by
  induction hleads with
  | refl => exact hw
  | tail hbefore hlast ih =>
    obtain ⟨made, q, hw⟩ := ih
    obtain ⟨more, q', -, hw'⟩ := hw.step hs hbefore hlast
    exact ⟨made ++ more, q', hw'⟩

/-- A poll that goes on waits in line at a loop that has not ended, or sleeps for one period. -/
theorem Watched.waits (hw : begun.Watched i id p since period made q h) (ho : h.Orderly)
    (hq : q.outcome? = none) :
    (q = .polling p since ∧ ∃ n, h.node? i = some n ∧ n.phase ≠ .ended ∧ id ∈ n.pending) ∨
      ∃ x, made.getLast? = some x ∧ q = .resting p since (x.moment + period.nanos) := by
  have ht := hw.task
  cases hw.course.spaced_and_stage.2 with
  | polling =>
    obtain ⟨n, hn⟩ := Option.isSome_iff_exists.1 (ho.lined.housed id _ ht)
    have hmem : id ∈ n.pending := (ho.lined.mem_pending_iff hn).2 ⟨_, ht, rfl, rfl⟩
    refine .inl ⟨rfl, n, hn, fun hended => ?_, hmem⟩
    rw [(ho.sound i n hn).emptied hended] at hmem
    exact List.not_mem_nil hmem
  | resting => exact .inr ⟨_, List.getLast?_concat, rfl⟩
  | finished => cases hq

/-! ## Runs without an end -/

/-- A run without an end, in which time does not go back. -/
def Endless (run : Nat → Host α) : Prop := ∀ m, (run m).StepOn (run (m + 1))

/-- A task is not left alone for ever: whatever it waits for comes. -/
def Attends (run : Nat → Host α) (id : TaskId) : Prop :=
  ∀ m, (run m).outcome? id = none → ∃ m' ≥ m, (run (m' + 1)).tasks[id]? ≠ (run m').tasks[id]?

/-- In each step of a run a task that polls keeps what it has, and if anything becomes of it at all, it
comes further. -/
theorem Watched.effort_le (hw : begun.Watched i id p since period made q h)
    (hs : begun.Paced i period) (hleads : begun.LeadsOn h) (hstep : h.StepOn h') :
    ∃ made' q', begun.Watched i id p since period made' q' h' ∧
      Poll.effort made q ≤ Poll.effort made' q' ∧
      (h'.tasks[id]? ≠ h.tasks[id]? → Poll.effort made q < Poll.effort made' q') := by
  obtain ⟨more, q', hmoves, hw'⟩ := hw.step hs hleads hstep
  refine ⟨made ++ more, q', hw', ?_⟩
  by_cases hsame : q = q'
  · subst hsame
    exact ⟨Poll.effort_le_append made more q, fun hne => absurd (hw'.task.trans hw.task.symm) hne⟩
  · have hlt := hmoves.effort_lt hsame made
    exact ⟨hlt.le, fun _ => hlt⟩

section Endless

variable {run : Nat → Host α} (hs : (run 0).Paced i period)
  (hw : ∃ made q, (run 0).Watched i id p since period made q (run 0)) (hrun : Endless run)
  (hattends : Attends run id)

include hs hw hrun hattends

/-- As long as it is not over, a task that polls comes further and further. -/
theorem exists_le_effort (hopen : ∀ m, (run m).outcome? id = none) (least : Nat) :
    ∃ m made q, (run 0).Watched i id p since period made q (run m) ∧
      least ≤ Poll.effort made q := by
  have hleads (m : Nat) : (run 0).LeadsOn (run m) := by
    induction m with
    | zero => exact .refl _
    | succ m ih => exact ih.tail (hrun m)
  induction least with
  | zero =>
    obtain ⟨made, q, hw⟩ := hw
    exact ⟨0, made, q, hw, Nat.zero_le _⟩
  | succ least ih =>
    obtain ⟨m, made, q, hm, hleast⟩ := ih
    obtain ⟨m', hlater, hchange⟩ := hattends m (hopen m)
    -- Up to the step that changes the task nothing is lost, and this step gains something.
    have hbefore : ∃ made q, (run 0).Watched i id p since period made q (run m') ∧
        least ≤ Poll.effort made q := by
      clear hchange
      induction m', hlater using Nat.le_induction with
      | base => exact ⟨made, q, hm, hleast⟩
      | succ m' _ ih =>
        obtain ⟨made, q, hm, hleast⟩ := ih
        obtain ⟨made', q', hm', hle, -⟩ := hm.effort_le hs (hleads m') (hrun m')
        exact ⟨made', q', hm', hleast.trans hle⟩
    obtain ⟨made, q, hm, hleast⟩ := hbefore
    obtain ⟨made', q', hm', -, hlt⟩ := hm.effort_le hs (hleads m') (hrun m')
    exact ⟨m' + 1, made', q', hm', Nat.succ_le_of_lt (hleast.trans_lt (hlt hchange))⟩

theorem exists_outcome (hlimit : p.timeout = some limit) (hperiod : 0 < period.nanos) :
    ∃ m, ((run m).outcome? id).isSome = true := by
  by_contra hnever
  have hopen (m : Nat) : (run m).outcome? id = none := by
    cases hm : (run m).outcome? id with
    | none => rfl
    | some outcome => exact absurd ⟨m, by rw [hm]; rfl⟩ hnever
  obtain ⟨m, made, q, hw, hfar⟩ := exists_le_effort hs hw hrun hattends hopen
    (2 * (limit.nanos ⌈/⌉ period.nanos + 1) + 2)
  have hnear := hw.course.effort_le hlimit hperiod
  omega

end Endless

/-! ## Blocking reads -/

/-- A call that reads until it finds something, within a time limit, makes at most one attempt for each
period that begins before the limit, and one more. At any later time the answers to its attempts tell
what has become of it. If it is not over, there is room for another attempt, and it waits for an answer
or for the end of one period. So it is over at some time in every run in which what it waits for comes. -/
theorem blocking_reads_end (hr : h.Reachable) (hn : h.node? i = some n) {c : Call β} {p : Poll β}
    (hc : Client.Awaits n.kernel c p) (hlimit : p.timeout = some limit) (f : β → α) :
    let begun := (h.call i (c.map f)).1
    let id := h.tasks.length
    let period := n.kernel.config.tickPeriod
    let most := limit.nanos ⌈/⌉ period.nanos + 1
    0 < period.nanos ∧
    (∀ h', begun.LeadsOn h' → ∃ made q,
      begun.Watched i id (p.map f) h.now period made q h' ∧
      (p.map f).Fate h.now limit made q ∧ made.length ≤ most ∧
      (q.outcome? = none → made.length < most ∧
        ((∃ n', h'.node? i = some n' ∧ n'.phase ≠ .ended ∧ id ∈ n'.pending) ∨
          ∃ x, made.getLast? = some x ∧
            q = .resting (p.map f) h.now (x.moment + period.nanos)))) ∧
    ∀ run : Nat → Host α, run 0 = begun → Endless run → Attends run id →
      ∃ m, ((run m).outcome? id).isSome = true := by
  intro begun id period most
  have hlimit' : (p.map f).timeout = some limit := hlimit
  have hperiod : 0 < period.nanos := Config.tickPeriod_pos (hr.valid i n hn)
  have hcall : c.map f n.kernel = (n.kernel, .poll (p.map f)) := by
    rw [Call.map, hc.call_eq, Program.map]
  obtain ⟨hturns, hlined⟩ := call_orderly hr.orderly.lined i (hc.civil f)
  have hs : begun.Paced i period := by
    obtain ⟨n', hn', hafter⟩ := hturns.exists_node hn
    exact ⟨⟨hturns.sound hr.orderly.sound, hlined⟩, n', hn', by rw [hafter.config]⟩
  have hw : ∃ made q, begun.Watched i id (p.map f) h.now period made q begun :=
    watched_call hn hcall
  refine ⟨hperiod, fun h' hleads => ?_, fun run hbegun hrun hattends => ?_⟩
  · obtain ⟨made, q, hlater⟩ := hleads.watched hs hw
    have hplain : ∀ x ∈ made, ∀ d, x.answer ≠ .error (.timeout d) := fun x hx d => by
      obtain ⟨g, -, -, -, hgives⟩ := hlater.given x hx
      exact hgives.ne_timeout d
    refine ⟨made, q, hlater, hlater.course.fate hlimit' hplain,
      hlater.course.length_le hlimit' hperiod, fun hq => ⟨?_, ?_⟩⟩
    · exact Nat.lt_succ_of_le (hlater.course.length_le_of_open hlimit' hperiod hq)
    · exact (hlater.waits (hleads.leads.orderly hs.orderly) hq).imp_left And.right
  · rw [← hbegun] at hs hw
    exact exists_outcome hs hw hrun hattends hlimit' hperiod

/-- A kernel that has just started. It ticks every ten milliseconds. -/
def vacant : Host (Option Owner) where
  nodes := [{
    kernel := .opened { publishAllKeys := false } (.scripted {}) ⟨1000000000⟩
    nextTick := 0 }]

theorem reachable_vacant : vacant.Reachable := by
  have hstart : ({} : Host (Option Owner)).start { publishAllKeys := false } (.scripted {})
      ⟨1000000000⟩ = .ok (vacant, 0) := by
    rw [start, Kernel.start_eq_ok_iff.2 ⟨by decide, by decide, rfl⟩]
    rfl
  exact .single (.starts hstart)

/-- The owner of a value is looked for, for fifteen milliseconds. -/
def inquiry : Poll Owner :=
  ⟨.owners ⟨[some "x"]⟩, fun owners => owners.head?, some (.ofMillis 15)⟩

def inquiring : Host (Option Owner) :=
  (vacant.call 0 ((Client.findOwner ⟨[some "x"]⟩ (some (.ofMillis 15))).map some)).1

/-- There is no value. After at most three attempts there is a timeout, at the end of the second
period, with nothing found when the fifteen milliseconds were over. -/
theorem inquiring_ends : (inquiring.await 0 12).now = 20000000 ∧
    (inquiring.await 0 12).outcome? 0 = some (.error (.timeout (.ofMillis 15))) ∧
    ∃ before last q, inquiring.Watched 0 0 (inquiry.map some) 0 (.ofMillis 10) (before ++ [last]) q
        (inquiring.await 0 12) ∧
      before.length ≤ 2 ∧ (inquiry.map some).Misses last ∧ 15000000 ≤ last.moment := by
  obtain ⟨n, hn⟩ : ∃ n, vacant.node? 0 = some n := ⟨_, rfl⟩
  have hperiod : n.kernel.config.tickPeriod = .ofMillis 10 := by
    cases hn
    rfl
  have hawaits : Client.Awaits n.kernel _ inquiry := .findOwner rfl
  obtain ⟨-, hruns, -⟩ := blocking_reads_end reachable_vacant hn hawaits rfl some
  have hreachable : inquiring.Reachable :=
    Relation.ReflTransGen.tail reachable_vacant (.call 0 (hawaits.civil some))
  obtain ⟨made, q, hwatched, hfate, hlength, -⟩ := hruns _ (leadsOn_await 0 12 hreachable.orderly)
  have hmost : (Duration.ofMillis 15).nanos ⌈/⌉ (Duration.ofMillis 10).nanos = 2 := by decide
  rw [hperiod] at hwatched hlength
  rw [hmost] at hlength
  have houtcome : (inquiring.await 0 12).outcome? 0 = some (.error (.timeout (.ofMillis 15))) := by
    decide +kernel
  have hq : q.outcome? = some (.error (.timeout (.ofMillis 15))) := by
    rw [← houtcome, outcome?]
    exact (congrArg (·.bind fun t => t.progress.outcome?) hwatched.task).symm
  cases hfate with
  | waits _ hopen =>
    rw [hopen] at hq
    cases hq
  | finds _ _ => cases hq
  | fails _ he =>
    cases hq
    exact absurd rfl (he _)
  | @timesOut before last _ hlast hover =>
    rw [List.length_append, List.length_singleton] at hlength
    exact ⟨by decide +kernel, houtcome, before, last, _, hwatched, Nat.le_of_succ_le_succ hlength,
      hlast, hover⟩

end Host

end Blackboard
