import Blackboard.Proofs.Space.Counting
import Blackboard.Proofs.Kernel.Moves

/-!
# What the metrics say about callbacks

Callbacks are counted twice. The space counts those it runs, and the metrics count what the reports of
the space say. Both see the same callbacks but for those that run for a new list of keys, which no
report mentions: the space counts them, and the metrics never hear of them.

`Tallied` compares both with what callbacks themselves report, which is an event for every run.
-/

namespace Blackboard

/-! ## What is counted -/

namespace Metrics

/-- The callbacks that were counted for changes of one kind, as it is published. -/
def dispatched (m : Metrics) (mode : Mode) : Nat :=
  (m.counters.lookup
    (labelled "coordspace_callbacks_dispatched_total" "mode" mode.label)).getD 0

/-- The callbacks that were counted. -/
def callbacks (m : Metrics) : Nat := m.dispatched .onWrite + m.dispatched .onDelete

theorem callbacks_eq (m : Metrics) : m.callbacks = m.writeCallbacks + m.deleteCallbacks := by
  have hwrite : m.dispatched .onWrite = m.writeCallbacks := rfl
  have hdelete : m.dispatched .onDelete = m.deleteCallbacks := rfl
  rw [callbacks, hwrite, hdelete]

/-- A change is counted with the callbacks that its report tells of. -/
def Hears (count : Metrics → Mutation → Metrics) : Prop :=
  ∀ (m : Metrics) (change : Mutation), (change.tuple = none → change.callbacks = 0) →
    (count m change).callbacks = m.callbacks + change.callbacks

theorem hears_countWrite (origin : Origin) : Hears fun m change => m.countWrite origin change := by
  intro m change hsilent
  rw [callbacks_eq, callbacks_eq]
  dsimp only
  rw [countWrite]
  split
  next hnone => rw [hsilent (Option.isNone_iff_eq_none.1 hnone), Nat.add_zero]
  next =>
    cases origin <;> simp only [countRebinds] <;> omega

theorem hears_countRemoval (removal : Removal) :
    Hears fun m change => m.countRemoval removal change := by
  intro m change hsilent
  rw [callbacks_eq, callbacks_eq]
  dsimp only
  rw [countRemoval]
  split
  next hnone => rw [hsilent (Option.isNone_iff_eq_none.1 hnone), Nat.add_zero]
  next =>
    cases removal <;> simp only [countRebinds] <;> omega

theorem hears_countChange (origin : Origin) : Hears fun m change => m.countChange origin change := by
  intro m change hsilent
  dsimp only
  rw [countChange]
  split
  next => exact hears_countRemoval .deletion m change hsilent
  next => exact hears_countWrite origin m change hsilent

theorem Hears.foldl {count : Metrics → Mutation → Metrics} (h : Hears count) (m : Metrics)
    {changes : List Mutation} (hsilent : ∀ c ∈ changes, c.tuple = none → c.callbacks = 0) :
    (changes.foldl count m).callbacks = m.callbacks + Space.told changes := by
  induction changes generalizing m with
  | nil => rfl
  | cons c rest ih =>
    rw [List.foldl_cons, ih _ fun d hd => hsilent d (List.mem_cons_of_mem _ hd),
      h m c (hsilent c List.mem_cons_self), Space.told, Space.told, List.map_cons, List.sum_cons,
      Nat.add_assoc]

end Metrics

/-- A callback was shown a tuple. -/
def Event.isCall : Event → Bool
  | .called _ _ => true
  | .acted _ => false

/-- Registering and taking back runs nothing. -/
theorem Space.runs_apply {κ : Type} (s : Space κ) (r : Registration κ) : s.Runs 0 (s.apply r) := by
  cases r with
  | subscribe h subscription => exact .none rfl rfl
  | follow h prototype callback => exact .none rfl (Bindings.dispatched_register ..)
  | remove h =>
    refine .none (s.fired_dropped h) ?_
    show (s.dropped h).registry.dispatched = _
    rcases s.dropped_cases h with ⟨b, hb, heq⟩ | ⟨-, heq⟩ <;> rw [heq]
    · exact Bindings.dispatched_unregister hb
    · rfl

namespace Kernel

variable {k : Kernel} {n : Nat}

/-- The number of callbacks that ran, by their own reports. -/
def calls (k : Kernel) : Nat := k.journal.countP Event.isCall

/-! ## What callbacks report -/

theorem calls_note (k : Kernel) (e : Event) : (k.note e).calls = k.calls + e.isCall.toNat := by
  rw [calls, note, List.countP_append, List.countP_singleton]
  cases e <;> rfl

theorem calls_push (k : Kernel) (r : Registration Reaction) : (k.push r).1.calls = k.calls := by
  rw [push]
  split <;> rfl

theorem calls_unsubscribe (k : Kernel) (h : Handle) : (k.unsubscribe h).1.calls = k.calls := by
  rw [unsubscribe]
  split
  next => exact calls_push ..
  next => rfl

theorem calls_act (k : Kernel) (handles : Allocator) (actions : List Action) :
    (k.act handles actions).calls = k.calls := by
  induction actions generalizing k handles with
  | nil => rfl
  | cons a rest ih =>
    cases a with
    | enrol e => exact (ih ..).trans ((calls_note ..).trans (calls_push ..))
    | unsubscribe h => exact (ih ..).trans ((calls_note ..).trans (k.calls_unsubscribe h))
    | refused cause => exact (ih ..).trans (calls_note ..)

theorem calls_reactAll (k : Kernel) (fs : List (Firing Reaction)) :
    (fs.foldl react k).calls = k.calls + fs.length := by
  induction fs generalizing k with
  | nil => rfl
  | cons f rest ih =>
    have hreact : (k.react f).calls = k.calls + 1 := (calls_act ..).trans (calls_note ..)
    rw [List.foldl_cons, ih, hreact, List.length_cons]
    omega

theorem calls_adopt (k : Kernel) (s : Space Reaction) :
    (k.adopt s).calls = k.calls + (s.fired.length - k.space.fired.length) := by
  rw [adopt, calls_reactAll, List.length_drop]
  rfl

/-! ## What runs for lists of keys -/

/-- The operation that a request comes to, if it may run callbacks. -/
def asked (k : Kernel) : Request → Option Access
  | .insert t =>
    match t.location with
    | .error _ => none
    | .ok l =>
      if l.owner = k.localId then some (.write { t with creator := some k.localId } k.now) else none
  | .delete l => if l.owner = k.localId then some (.delete l (some k.localId) k.now) else none
  | .append p suffix expected =>
    match p.owner.filter (· ≠ k.localId) with
    | some _ => none
    | none => some (.append p suffix expected k.now)
  | _ => none

/-- The operation that a message of a peer comes to. -/
def received (k : Kernel) : Inbound → Option Access
  | .published t => if t.owner = some k.localId then none else some (.writeReplica t k.now)
  | .setRequest t => if t.owner = some k.localId then some (.write t k.now) else none

/-- The callbacks that run for a new list of keys during an operation. -/
def listingRuns (k : Kernel) (a : Option Access) : Nat := a.elim 0 k.space.listingRuns

/-- What something amounts to that is counted at every step of a run. -/
def along {α : Type} (step : Kernel → α → Kernel) (amount : Kernel → α → Nat) :
    Kernel → List α → Nat
  | _, [] => 0
  | k, x :: rest => amount k x + along step amount (step k x) rest

/-- The callbacks that run for new lists of keys during a move. -/
def listingRunsIn (k : Kernel) : Move → Nat
  | .serve r => k.applyQueued.listingRuns (k.applyQueued.asked r)
  | .endTick =>
    let stepped := { k with transport := k.transport.step.1 }
    let messages := k.transport.step.2
    let informed := messages.foldl receive stepped
    if stepped.transport.isRunning then
      along receive (fun k message => k.listingRuns (k.received message)) stepped messages
        + informed.listingRuns (some (.expire informed.now))
    else 0
  | .finish why pending =>
    if why = .transportStopped then 0
    else along (fun k r => (k.serve r).1) (fun k r => k.listingRuns (k.asked r))
      { k with state := .shuttingDown }.applyQueued pending
  | _ => 0

/-- The callbacks that run for new lists of keys during a run. -/
def listingRunsAlong (k : Kernel) (ms : List Move) : Nat := along after listingRunsIn k ms

/-! ## The counts side by side -/

/-- The space counts every callback that reported, and the metrics all but some. -/
structure Tallied (k : Kernel) (missed : Nat) : Prop where
  dispatched : k.space.registry.dispatched = k.space.fired.length
  called : k.calls = k.space.fired.length
  counted : k.metrics.callbacks + missed = k.space.fired.length

namespace Tallied

variable {k' : Kernel}

/-- A kernel for which nobody counted anything new. -/
theorem congr (h : k.Tallied n) (hspace : k.space.Runs 0 k'.space)
    (hcalls : k'.calls = k.calls) (hmetrics : k'.metrics.callbacks = k.metrics.callbacks) :
    k'.Tallied n where
  dispatched := by rw [hspace.dispatched, h.dispatched, hspace.fired]
  called := by rw [hcalls, h.called, hspace.fired]; rfl
  counted := by rw [hmetrics, h.counted, hspace.fired]; rfl

/-- An operation whose report is counted. -/
theorem access (h : k.Tallied n) (a : Access) {count : Metrics → Mutation → Metrics}
    (hcount : Metrics.Hears count) :
    let adopted := k.adopt (k.space.access a)
    { adopted with metrics := (k.space.mutations a).foldl count adopted.metrics }.Tallied
      (n + k.space.listingRuns a) := by
  intro adopted
  have hruns := k.space.runs_access a
  have hspace : adopted.space = k.space.access a := space_adopt ..
  have hmetrics : adopted.metrics = k.metrics :=
    (k.keeps_adopt _).eq Kernel.metrics (by intros; rfl)
  constructor
  case dispatched =>
    show adopted.space.registry.dispatched = adopted.space.fired.length
    rw [hspace, hruns.dispatched, hruns.fired, h.dispatched]
  case called =>
    show adopted.calls = adopted.space.fired.length
    rw [hspace, calls_adopt, hruns.fired, h.called, Nat.add_sub_cancel_left]
  case counted =>
    have hcounted := h.counted
    have htold := hcount.foldl adopted.metrics (k.space.tells_access a).1
    refine (congrArg (· + (n + k.space.listingRuns a)) htold).trans ?_
    show _ = adopted.space.fired.length
    rw [hspace, hruns.fired, hmetrics]
    omega

theorem absorb (h : k.Tallied n) (origin : Origin)
    {outcome : Except TupleError (Space Reaction × Mutation)} (a : Access)
    (hspace : k.space.settled outcome = k.space.access a)
    (hreport : Space.mutation outcome = k.space.mutations a) :
    (k.absorb origin outcome).Tallied (n + k.space.listingRuns a) := by
  cases outcome with
  | error e =>
    have hruns := k.space.runs_access a
    rw [← hreport, ← show k.space = k.space.access a from hspace] at hruns
    have hnone : k.space.listingRuns a = 0 := by
      have hfired := hruns.fired
      rw [show Space.told (Space.mutation (.error e)) = 0 from rfl] at hfired
      omega
    rwa [hnone]
  | ok r =>
    obtain ⟨space, change⟩ := r
    have hcounted := h.access a (Metrics.hears_countChange origin)
    rwa [← hreport, ← show space = k.space.access a from hspace] at hcounted

theorem commit (h : k.Tallied n) {outcome : Except TupleError (Space Reaction × Mutation)}
    (a : Access) (hspace : k.space.settled outcome = k.space.access a)
    (hreport : Space.mutation outcome = k.space.mutations a) :
    (k.commit outcome).1.Tallied (n + k.space.listingRuns a) := by
  have hcommit : (k.commit outcome).1 = k.absorb .client outcome := by cases outcome <;> rfl
  exact hcommit ▸ h.absorb .client a hspace hreport

theorem send (h : k.Tallied n) (owner : Owner) (t : Tuple) : (k.send owner t).1.Tallied n := by
  rw [Kernel.send]
  split
  next => exact h.congr (.none rfl rfl) rfl rfl
  next => exact h

/-! ## Requests -/

theorem insert (h : k.Tallied n) (t : Tuple) :
    (k.insert t).1.Tallied (n + k.listingRuns (k.asked (.insert t))) := by
  rw [Kernel.insert, asked]
  cases t.location with
  | error e => exact h
  | ok l =>
    dsimp only
    split
    next => exact h.commit (.write _ k.now) rfl rfl
    next => exact h.send ..

theorem delete (h : k.Tallied n) (l : Location) :
    (k.delete l).1.Tallied (n + k.listingRuns (k.asked (.delete l))) := by
  rw [Kernel.delete, asked]
  split
  next => exact h.commit (.delete l (some k.localId) k.now) rfl rfl
  next =>
    split
    next => exact h
    next => exact h.send ..

theorem append (h : k.Tallied n) (p : Tuple) (suffix : List UInt8) (expected : Option Nat) :
    (k.append p suffix expected).1.Tallied
      (n + k.listingRuns (k.asked (.append p suffix expected))) := by
  rw [Kernel.append, asked]
  cases p.owner.filter (· ≠ k.localId) with
  | some owner => exact h
  | none => exact h.access (.append p suffix expected k.now) (Metrics.hears_countWrite .append)

theorem get (h : k.Tallied n) (l : Location) (onlyFresh : Bool) :
    (k.get l onlyFresh).1.Tallied n := by
  rcases k.get_cases l onlyFresh with heq | ⟨store, found, -, heq⟩ <;> rw [heq]
  · exact h
  · exact h.congr (.none rfl rfl) rfl rfl

theorem first (h : k.Tallied n) (p : Tuple) : (k.first p).1.Tallied n :=
  h.congr (.none rfl rfl) rfl rfl

theorem serve (h : k.Tallied n) (r : Request) :
    (k.serve r).1.Tallied (n + k.listingRuns (k.asked r)) := by
  cases r with
  | insert t => exact h.insert t
  | delete l => exact h.delete l
  | append p suffix expected => exact h.append p suffix expected
  | get l onlyFresh => exact h.get l onlyFresh
  | first p => exact h.first p
  | getIndirect prototype onlyFresh =>
    show (k.getIndirect prototype onlyFresh).1.Tallied n
    rcases k.getIndirect_cases prototype onlyFresh with heq | ⟨l, fresh, heq⟩ <;> rw [heq]
    · exact h.first _
    · exact (h.first _).get l fresh
  | search p => exact h.congr (.none rfl rfl) rfl rfl
  | connect url =>
    show (k.connect url).1.Tallied n
    rw [Kernel.connect]
    split
    next => exact h
    next => exact h.congr (.none rfl rfl) rfl rfl
  | isPresent _ | resolve _ | isMeta _ | hasSubscriber _ | owners _ | stats | sync => exact h

/-! ## Ticks -/

theorem applyQueued (h : k.Tallied n) : k.applyQueued.Tallied n := by
  have hruns : k.space.Runs 0 (k.queued.foldl Space.apply k.space) := by
    generalize k.space = s
    induction k.queued generalizing s with
    | nil => exact .none rfl rfl
    | cons r rest ih => exact (s.runs_apply r).trans (ih _)
  exact h.congr hruns rfl rfl

theorem receive (h : k.Tallied n) (message : Inbound) :
    (k.receive message).Tallied (n + k.listingRuns (k.received message)) := by
  cases message with
  | published t =>
    rw [Kernel.receive, received]
    split
    next => exact h
    next => exact h.absorb .replica (.writeReplica t k.now) rfl rfl
  | setRequest t =>
    rw [Kernel.receive, received]
    split
    next => exact h.absorb .remote (.write t k.now) rfl rfl
    next => exact h

theorem sweep (h : k.Tallied n) : k.sweep.Tallied (n + k.listingRuns (some (.expire k.now))) :=
  h.access (.expire k.now) (Metrics.hears_countRemoval .expiry)

/-- What holds of every step holds of a run, and the amounts add up. -/
theorem along {α : Type} {step : Kernel → α → Kernel} {amount : Kernel → α → Nat}
    (hstep : ∀ {k : Kernel} {n : Nat} (x : α), k.Tallied n → (step k x).Tallied (n + amount k x))
    (h : k.Tallied n) (xs : List α) :
    (xs.foldl step k).Tallied (n + Kernel.along step amount k xs) := by
  induction xs generalizing k n with
  | nil => exact h
  | cons x rest ih =>
    rw [Kernel.along, ← Nat.add_assoc]
    exact ih (hstep x h)

theorem countTick (h : k.Tallied n) : { k with metrics := k.metrics.countTick }.Tallied n :=
  h.congr (.none rfl rfl) rfl rfl

theorem endTick (h : k.Tallied n) : k.endTick.1.Tallied (n + k.listingRunsIn .endTick) := by
  let stepped := { k with transport := k.transport.step.1 }
  have hstepped : stepped.Tallied n := h.congr (.none rfl rfl) rfl rfl
  have hreceived := hstepped.along (fun message h => h.receive message) k.transport.step.2
  rw [Kernel.endTick, listingRunsIn]
  dsimp only
  split
  next =>
    have hswept := hreceived.sweep
    rw [Nat.add_assoc] at hswept
    exact hswept.countTick
  next => exact hstepped

theorem finish (h : k.Tallied n) (why : Ending) (pending : List Request) :
    (k.finish why pending).1.Tallied (n + k.listingRunsIn (.finish why pending)) := by
  have hstopping : { k with state := .shuttingDown }.Tallied n := h.congr (.none rfl rfl) rfl rfl
  have hserved := hstopping.applyQueued.along (fun r h => h.serve r) pending
  rw [← serveAll_fst] at hserved
  cases why with
  | transportStopped => exact h.congr (.none rfl rfl) rfl rfl
  | shutdown => exact hserved.congr (.none rfl rfl) rfl rfl
  | abandoned => exact hserved.congr (.none rfl rfl) rfl rfl

/-! ## Moves -/

theorem after (h : k.Tallied n) (m : Move) : (k.after m).Tallied (n + k.listingRunsIn m) := by
  have hkept {k' k'' : Kernel} (hk' : k'.Tallied n) (hkeeps : k'.Keeps k'')
      (hcalls : k''.calls = k'.calls) : k''.Tallied n := by
    have hspace : k''.space = k'.space := hkeeps.eq Kernel.space (by intros; rfl)
    have hmetrics : k''.metrics = k'.metrics := hkeeps.eq Kernel.metrics (by intros; rfl)
    exact hk'.congr (.none (by rw [hspace]) (by rw [hspace])) hcalls (by rw [hmetrics])
  have henrol (e : Enrolment Reaction) : (k.enrol e).1.Tallied n := by
    have hallocated : { k with space := k.space.allocate.1 }.Tallied n :=
      h.congr (.none rfl rfl) rfl rfl
    exact hkept hallocated (keeps_enrolUnder ..) (calls_push ..)
  cases m with
  | serve r => exact h.applyQueued.serve r
  | beginTick =>
    have hbegun : { k with ticks := k.ticks + 1 }.Tallied n := h.congr (.none rfl rfl) rfl rfl
    exact hbegun.applyQueued
  | endTick => exact h.endTick
  | finish why pending => exact h.finish why pending
  | abort => exact h.congr (.none rfl rfl) rfl rfl
  | environment transport clock => exact h.congr (.none rfl rfl) rfl rfl
  | enrol e => exact henrol e
  | enrolThrough source callback =>
    show (k.enrolThrough source callback).1.Tallied n
    rw [enrolThrough]
    split
    next => exact h
    next => exact henrol _
  | unsubscribe handle => exact hkept h (k.keeps_unsubscribe handle) (k.calls_unsubscribe handle)
  | retain => exact h.congr (.none rfl rfl) rfl rfl
  | dismiss => exact h.congr (.none rfl rfl) rfl rfl
  | acknowledge ticket =>
    show ((k.acknowledge (k.transport.delivery ticket)).getD k.giveUpOn).1.Tallied n
    cases k.transport.delivery ticket with
    | pending => exact h.congr (.none rfl rfl) rfl rfl
    | answered answer => cases answer <;> exact h.congr (.none rfl rfl) rfl rfl
    | lost => exact h.congr (.none rfl rfl) rfl rfl

theorem run (h : k.Tallied n) (ms : List Move) :
    (ms.foldl Kernel.after k).Tallied (n + k.listingRunsAlong ms) :=
  h.along (fun m h => h.after m) ms

end Tallied

/-! ## Starting -/

theorem space_commit (k : Kernel) (outcome : Except TupleError (Space Reaction × Mutation)) :
    (k.commit outcome).1.space = k.space.settled outcome := by
  cases outcome with
  | error e => rfl
  | ok r => exact space_adopt ..

/-- A kernel while it starts: nobody has registered anything, so nothing has run. -/
structure Starting (k : Kernel) : Prop where
  tallied : k.Tallied 0
  idle : k.space.Idle
  sound : k.space.store.Sound
  silent : k.space.fired = []

theorem starting_blank (config : Config) (transport : Transport) (clock : Clock) :
    (blank config transport clock).Starting where
  tallied := ⟨rfl, rfl, rfl⟩
  idle := ⟨rfl, rfl⟩
  sound := (Session.coherent_start ..).sound
  silent := rfl

theorem Starting.writeOwn (h : k.Starting) (key : Key) (text : String) :
    (k.writeOwn key text).Starting := by
  let a : Access := .write (.plainText k.localId key text) k.now
  have hspace : (k.writeOwn key text).space = k.space.access a := k.space_commit _
  obtain ⟨hidle, hfired⟩ := h.idle.access h.sound a
  obtain ⟨changes, hbecomes, -⟩ := Space.becomes_access h.sound a
  have hsilent : (k.writeOwn key text).space.fired = [] := by rw [hspace, hfired, h.silent]
  have htallied : (k.writeOwn key text).Tallied (0 + k.space.listingRuns a) :=
    h.tallied.commit a rfl rfl
  have hmissed : 0 + k.space.listingRuns a = 0 := by
    have hcounted := htallied.counted
    rw [hsilent, List.length_nil] at hcounted
    omega
  exact ⟨hmissed ▸ htallied, hspace ▸ hidle, hspace ▸ hbecomes.sound, hsilent⟩

theorem Tallied.connectPeers (h : k.Tallied n) : k.connectPeers.Tallied n :=
  h.congr (.none rfl rfl) rfl rfl

theorem tallied_opened (config : Config) (transport : Transport) (clock : Clock) :
    (opened config transport clock).Tallied 0 := by
  have hblank := starting_blank config transport clock
  exact ((hblank.writeOwn ..).writeOwn ..).tallied.connectPeers

/-! ## Without a list of keys -/

/-- The kernel keeps no list of its keys. -/
structure Unlisted (k : Kernel) : Prop where
  coherent : k.space.Coherent
  unlisted : k.space.keepsListing = false

theorem Unlisted.evolves {k' : Kernel} (h : k.Unlisted) (he : k.Evolves k') : k'.Unlisted := by
  have hperform (s : Space Reaction) (op : Operation Reaction)
      (hs : s.Coherent ∧ s.keepsListing = false) :
      (s.perform op).Coherent ∧ (s.perform op).keepsListing = false := by
    have hstep := Session.keepsListing_step ⟨s, { handed := [] }⟩ hs.1.sound op
    refine ⟨Space.coherent_perform hs.1 op, ?_⟩
    rw [← hs.2]
    cases op <;> exact hstep
  obtain ⟨hcoherent, hunlisted⟩ := he.space.invariant hperform ⟨h.coherent, h.unlisted⟩
  exact ⟨hcoherent, hunlisted⟩

theorem Unlisted.listingRuns (h : k.Unlisted) (a : Option Access) : k.listingRuns a = 0 := by
  cases a with
  | none => rfl
  | some a => exact Space.listingRuns_of_unlisted h.unlisted a

theorem Unlisted.along {α : Type} {step : Kernel → α → Kernel} {amount : Kernel → α → Nat}
    (hstep : ∀ (k : Kernel) (x : α), k.Evolves (step k x))
    (hamount : ∀ {k : Kernel} (x : α), k.Unlisted → amount k x = 0) (h : k.Unlisted) (xs : List α) :
    Kernel.along step amount k xs = 0 := by
  induction xs generalizing k with
  | nil => rfl
  | cons x rest ih => rw [Kernel.along, hamount x h, ih (h.evolves (hstep k x))]

theorem Unlisted.listingRunsIn (h : k.Unlisted) (m : Move) : k.listingRunsIn m = 0 := by
  cases m with
  | serve r => exact (h.evolves k.evolves_applyQueued).listingRuns _
  | endTick =>
    have hstepped : { k with transport := k.transport.step.1 }.Unlisted :=
      ⟨h.coherent, h.unlisted⟩
    have hinformed := hstepped.evolves (.of_works (works_receiveAll _ k.transport.step.2))
    have hreceived := hstepped.along evolves_receive
      (fun {k} message h => h.listingRuns (k.received message)) k.transport.step.2
    rw [Kernel.listingRunsIn]
    dsimp only
    rw [hreceived, hinformed.listingRuns, ite_self]
  | finish why pending =>
    have hstopping : { k with state := .shuttingDown }.Unlisted := ⟨h.coherent, h.unlisted⟩
    have hserved := (hstopping.evolves (evolves_applyQueued _)).along evolves_serve
      (fun {k} r h => h.listingRuns (k.asked r)) pending
    rw [Kernel.listingRunsIn, hserved, ite_self]
  | _ => rfl

theorem Unlisted.listingRunsAlong (h : k.Unlisted) (ms : List Move) : k.listingRunsAlong ms = 0 :=
  h.along evolves_after (fun m h => h.listingRunsIn m) ms

theorem Reachable.run (h : k.Reachable) (ms : List Move) : (ms.foldl Kernel.after k).Reachable := by
  induction ms generalizing k with
  | nil => exact h
  | cons m rest ih => exact ih (h.after m)

theorem unlisted_opened {config : Config} (h : config.publishAllKeys = false)
    (transport : Transport) (clock : Clock) : (opened config transport clock).Unlisted :=
  Unlisted.evolves ⟨Session.coherent_start .., h⟩ (evolves_opened ..)

/-- In every run the kernel's own count is the number of callbacks that ran, and the metrics count those
that did not run for a new list of keys. So the metrics are right exactly if none ran for one, as is so
in every run without a list of keys. -/
theorem counted_but_for_listings {config : Config} {transport : Transport} {clock : Clock}
    {k₀ : Kernel} (hstart : Kernel.start config transport clock = .ok k₀) (ms : List Move) :
    let k := ms.foldl after k₀
    let missed := k₀.listingRunsAlong ms
    k.stats.space.dispatched = k.calls ∧
      k.metrics.dispatched .onWrite + k.metrics.dispatched .onDelete + missed = k.calls ∧
      (k.metrics.dispatched .onWrite + k.metrics.dispatched .onDelete = k.stats.space.dispatched ↔
        missed = 0) ∧
      (config.publishAllKeys = false → missed = 0) := by
  intro k missed
  obtain ⟨-, -, rfl⟩ := start_eq_ok_iff.1 hstart
  have htallied : k.Tallied (0 + missed) := (tallied_opened config transport clock).run ms
  have hdispatched : k.stats.space.dispatched = k.calls :=
    htallied.dispatched.trans htallied.called.symm
  have hcounted : k.metrics.callbacks + (0 + missed) = k.calls :=
    htallied.counted.trans htallied.called.symm
  rw [Nat.zero_add, Metrics.callbacks] at hcounted
  refine ⟨hdispatched, hcounted, ?_, fun hkeep => (unlisted_opened hkeep ..).listingRunsAlong ms⟩
  rw [hdispatched, ← hcounted]
  omega

/-- The kernel of a process with a callback for the changes at a key, once something is written. -/
def heeding (key : Key) : List Move :=
  [.enrol (.callback (.locator (some 1) key) .onWrite (.of "c" [])),
    .serve (.insert (.plainText 1 ⟨[some "x"]⟩ "v"))]

def heeded (key : Key) : Kernel :=
  (heeding key).foldl after (opened {} (.standalone false) ⟨1000000000⟩)

theorem start_standard : Kernel.start {} (.standalone false) ⟨1000000000⟩
    = .ok (opened {} (.standalone false) ⟨1000000000⟩) :=
  start_eq_ok_iff.2 ⟨by decide, by decide, rfl⟩

/-- A callback for the key that is written is counted. -/
theorem heeded_counted :
    let k := heeded ⟨[some "x"]⟩
    k.metrics.dispatched .onWrite + k.metrics.dispatched .onDelete = k.stats.space.dispatched ∧
      k.stats.space.dispatched = k.calls ∧ k.calls = 1 := by
  intro k
  obtain ⟨hdispatched, -, hexact, -⟩ :=
    counted_but_for_listings start_standard (heeding ⟨[some "x"]⟩)
  exact ⟨hexact.2 (by decide +kernel), hdispatched, by decide +kernel⟩

/-- A callback for the list of keys runs, and the metrics do not count it. -/
theorem listing_uncounted : ¬ ∀ k : Kernel, k.Reachable →
    k.metrics.dispatched .onWrite + k.metrics.dispatched .onDelete = k.stats.space.dispatched := by
  intro hall
  have hreachable : (heeded Space.listingKey).Reachable := (Reachable.start start_standard).run _
  exact absurd (hall _ hreachable) (by decide +kernel)

end Kernel

end Blackboard
