import Blackboard.Proofs.Space.Session
import Blackboard.Kernel.Loop
import Blackboard.Kernel.Client

/-!
# What can happen to a kernel

A move is one thing that happens to a kernel: its dispatch loop serves a request, does a part of a
tick or ends, a client registers something or gives it up, a user comes or goes, or something changes
outside. `Reachable` are the kernels that moves lead to from a start.

No move has a way of its own into the space. Whatever happens to a kernel, its space goes through
operations that any caller of a space has: `evolves_after` says so for all moves, and what these
operations preserve then holds for every reachable kernel.
-/

namespace Blackboard

/-! ## Spaces -/

namespace Space

variable {κ : Type} [Callback κ]

/-- The space after an operation, whoever asks for it. -/
def perform (s : Space κ) : Operation κ → Space κ
  | .access a => s.access a
  | .allocate => s.allocate.1
  | .subscribe h subscription => s.subscribe h subscription
  | .subscribeIndirect h prototype callback => s.subscribeIndirect h prototype callback
  | .unsubscribe h => s.dropped h

/-- Operations lead from one space to another. -/
def Leads (s s' : Space κ) : Prop := Relation.ReflTransGen (fun s s' => ∃ op, s' = s.perform op) s s'

variable {s s' : Space κ}

theorem Leads.perform (s : Space κ) (op : Operation κ) : s.Leads (s.perform op) :=
  .single ⟨op, rfl⟩

theorem Leads.invariant {I : Space κ → Prop} (h : s.Leads s')
    (hperform : ∀ s op, I s → I (s.perform op)) (hs : I s) : I s' := by
  induction h with
  | refl => exact hs
  | tail _ hlast ih =>
    obtain ⟨op, rfl⟩ := hlast
    exact hperform _ op ih

theorem coherent_perform (hs : s.Coherent) (op : Operation κ) : (s.perform op).Coherent := by
  have hstep := Session.coherent_step (s := ⟨s, { handed := [] }⟩) hs op
  cases op <;> exact hstep

theorem Leads.coherent (h : s.Leads s') (hs : s.Coherent) : s'.Coherent :=
  h.invariant (fun _ op hs => coherent_perform hs op) hs

theorem localId_perform (hs : s.Coherent) (op : Operation κ) :
    (s.perform op).localId = s.localId := by
  have hstep := Session.localId_step ⟨s, { handed := [] }⟩ hs.sound op
  cases op <;> exact hstep

theorem Leads.localId (h : s.Leads s') (hs : s.Coherent) : s'.localId = s.localId := by
  have hboth := h.invariant (I := fun s' => s'.Coherent ∧ s'.localId = s.localId)
    (fun _ op hs => ⟨coherent_perform hs.1 op, (localId_perform hs.1 op).trans hs.2⟩) ⟨hs, rfl⟩
  exact hboth.2

theorem leads_apply (s : Space κ) (r : Registration κ) : s.Leads (s.apply r) := by
  cases r with
  | subscribe h subscription => exact .perform s (.subscribe h subscription)
  | follow h prototype callback => exact .perform s (.subscribeIndirect h prototype callback)
  | remove h => exact .perform s (.unsubscribe h)

theorem leads_applyAll (s : Space κ) (rs : List (Registration κ)) :
    s.Leads (rs.foldl apply s) := by
  induction rs generalizing s with
  | nil => exact .refl
  | cons r rest ih => exact (s.leads_apply r).trans (ih _)

omit [Callback κ] in
theorem store_apply (s : Space κ) (r : Registration κ) : (s.apply r).store = s.store := by
  cases r with
  | subscribe h subscription => rfl
  | follow h prototype callback => rfl
  | remove h => exact s.store_dropped h

end Space

namespace Kernel

/-! ## Callbacks touch no space -/

/-- A kernel turns into another, and at most the registrations and the reports of callbacks differ. -/
def Keeps (k k' : Kernel) : Prop :=
  ∃ queued issued journal, k' = { k with queued, issued, journal }

variable {k k' k'' : Kernel}

namespace Keeps

theorem refl (k : Kernel) : k.Keeps k := ⟨_, _, _, rfl⟩

theorem trans (h : k.Keeps k') (h' : k'.Keeps k'') : k.Keeps k'' := by
  obtain ⟨_, _, _, rfl⟩ := h
  obtain ⟨_, _, _, rfl⟩ := h'
  exact ⟨_, _, _, rfl⟩

/-- A part of a kernel that registrations and reports have nothing to do with. -/
theorem eq {β : Type} (h : k.Keeps k') (part : Kernel → β)
    (hpart : ∀ k queued issued journal,
      part { k with queued, issued, journal } = part k) : part k' = part k := by
  obtain ⟨_, _, _, rfl⟩ := h
  exact hpart ..

end Keeps

theorem keeps_push (k : Kernel) (r : Registration Reaction) : k.Keeps (k.push r).1 := by
  rw [push]
  split <;> exact ⟨_, _, _, rfl⟩

theorem keeps_enrolUnder (k : Kernel) (h : Handle) (e : Enrolment Reaction) :
    k.Keeps (k.enrolUnder h e).1 := by
  have hissued : k.Keeps { k with issued := h :: k.issued } := ⟨_, _, _, rfl⟩
  exact hissued.trans (keeps_push ..)

theorem keeps_unsubscribe (k : Kernel) (h : Handle) : k.Keeps (k.unsubscribe h).1 := by
  rw [unsubscribe]
  split
  next =>
    have hissued : k.Keeps { k with issued := k.issued.filter (· ≠ h) } := ⟨_, _, _, rfl⟩
    exact hissued.trans (keeps_push ..)
  next => exact .refl k

theorem keeps_act (k : Kernel) (handles : Allocator) (actions : List Action) :
    k.Keeps (k.act handles actions) := by
  have hnote (k : Kernel) (e : Event) : k.Keeps (k.note e) := ⟨_, _, _, rfl⟩
  induction actions generalizing k handles with
  | nil => exact .refl k
  | cons a rest ih =>
    cases a with
    | enrol e => exact ((keeps_enrolUnder ..).trans (hnote ..)).trans (ih ..)
    | unsubscribe h => exact ((keeps_unsubscribe ..).trans (hnote ..)).trans (ih ..)
    | refused cause => exact (hnote ..).trans (ih ..)

theorem keeps_react (k : Kernel) (f : Firing Reaction) : k.Keeps (k.react f) := by
  have hnote : k.Keeps (k.note (.called f.callback.label f.tuple)) := ⟨_, _, _, rfl⟩
  exact hnote.trans (keeps_act ..)

theorem keeps_reactAll (k : Kernel) (fs : List (Firing Reaction)) :
    k.Keeps (fs.foldl react k) := by
  induction fs generalizing k with
  | nil => exact .refl k
  | cons f rest ih => exact (k.keeps_react f).trans (ih _)

/-- The callbacks that ran during a change leave the space as the change left it. -/
theorem keeps_adopt (k : Kernel) (s : Space Reaction) : { k with space := s }.Keeps (k.adopt s) :=
  keeps_reactAll ..

theorem space_adopt (k : Kernel) (s : Space Reaction) : (k.adopt s).space = s :=
  (k.keeps_adopt s).eq Kernel.space (by intros; rfl)

/-- Where no callback ran there is nobody to report. -/
theorem adopt_of_fired_eq {s : Space Reaction} (h : s.fired = k.space.fired) :
    k.adopt s = { k with space := s } := by
  rw [adopt, h, List.drop_length]
  rfl

/-! ## Work on the space -/

/-- The dispatch loop works on the tuples, or on something that neither tuples nor registrations are
part of. -/
inductive Beat (k : Kernel) : Kernel → Prop
  /-- It takes over the space after an operation on tuples. -/
  | access (a : Access) : Beat k (k.adopt (k.space.access a))
  | aside (transport : Transport) (clock : Clock) (ticks : Nat) (metrics : Metrics) :
    Beat k { k with transport, clock, ticks, metrics }

/-- A kernel turns into another through work of the dispatch loop. -/
def Works : Kernel → Kernel → Prop := Relation.ReflTransGen Beat

namespace Works

theorem refl (k : Kernel) : k.Works k := Relation.ReflTransGen.refl

theorem trans (h : k.Works k') (h' : k'.Works k'') : k.Works k'' := Relation.ReflTransGen.trans h h'

theorem access (k : Kernel) (a : Access) : k.Works (k.adopt (k.space.access a)) :=
  .single (.access a)

theorem aside (k : Kernel) (transport : Transport) (clock : Clock) (ticks : Nat)
    (metrics : Metrics) : k.Works { k with transport, clock, ticks, metrics } :=
  .single (.aside ..)

/-- What the metrics count does not matter. -/
theorem count (h : k.Works k') (metrics : Metrics) : k.Works { k' with metrics } :=
  h.trans (.aside k' k'.transport k'.clock k'.ticks metrics)

/-- An operation that runs no callbacks changes the space alone. -/
theorem quiet (a : Access) (h : (k.space.access a).fired = k.space.fired) :
    k.Works { k with space := k.space.access a } :=
  adopt_of_fired_eq h ▸ .access k a

theorem invariant {I : Kernel → Prop} (h : k.Works k') (hbeat : ∀ k k', Beat k k' → I k → I k')
    (hk : I k) : I k' := by
  induction h with
  | refl => exact hk
  | tail _ hlast ih => exact hbeat _ _ hlast ih

/-- A part of a kernel that the dispatch loop leaves alone while it works. -/
theorem eq {β : Type} (h : k.Works k') (part : Kernel → β)
    (hpart : ∀ k space transport clock ticks queued issued metrics journal,
      part { k with space, transport, clock, ticks, queued, issued, metrics, journal } = part k) :
    part k' = part k := by
  refine h.invariant (I := fun k' => part k' = part k) (fun k₁ k₂ hbeat hk => ?_) rfl
  cases hbeat with
  | access a =>
    obtain ⟨queued, issued, journal, hadopt⟩ := k₁.keeps_adopt (k₁.space.access a)
    rw [hadopt]
    exact (hpart k₁ _ k₁.transport k₁.clock k₁.ticks queued issued k₁.metrics journal).trans hk
  | aside transport clock ticks metrics =>
    exact (hpart k₁ k₁.space transport clock ticks k₁.queued k₁.issued metrics k₁.journal).trans hk

end Works

theorem works_commit {outcome : Except TupleError (Space Reaction × Mutation)} (a : Access)
    (h : k.space.settled outcome = k.space.access a) : k.Works (k.commit outcome).1 := by
  cases outcome with
  | error e => exact .refl k
  | ok r =>
    have hr : r.1 = k.space.access a := h
    rw [commit, hr]
    exact (Works.access k a).count _

theorem works_send (k : Kernel) (owner : Owner) (t : Tuple) : k.Works (k.send owner t).1 := by
  rw [send]
  split
  next => exact .aside ..
  next => exact .refl k

theorem works_insert (k : Kernel) (t : Tuple) : k.Works (k.insert t).1 := by
  rw [insert]
  split
  next => exact .refl k
  next =>
    dsimp only
    split
    next => exact works_commit (.write _ k.now) rfl
    next => exact k.works_send ..

theorem works_delete (k : Kernel) (l : Location) : k.Works (k.delete l).1 := by
  rw [delete]
  split
  next => exact works_commit (.delete l (some k.localId) k.now) rfl
  next =>
    split
    next => exact .refl k
    next => exact k.works_send ..

theorem works_append (k : Kernel) (p : Tuple) (suffix : List UInt8) (expected : Option Nat) :
    k.Works (k.append p suffix expected).1 := by
  rw [append]
  split
  next => exact .refl k
  next => exact (Works.access k (.append p suffix expected k.now)).count _

/-- A read that is not refused changes the store alone. -/
theorem get_cases (k : Kernel) (l : Location) (onlyFresh : Bool) : (k.get l onlyFresh).1 = k ∨
    ∃ store found, k.space.store.get l onlyFresh = .ok (store, found) ∧
      (k.get l onlyFresh).1 = { k with space := { k.space with store } } := by
  rw [get, Space.get]
  cases hstore : k.space.store.get l onlyFresh with
  | error e => exact .inl rfl
  | ok r => exact .inr ⟨_, _, rfl, rfl⟩

theorem works_get (k : Kernel) (l : Location) (onlyFresh : Bool) :
    k.Works (k.get l onlyFresh).1 := by
  rcases k.get_cases l onlyFresh with heq | ⟨store, found, hstore, heq⟩
  · rw [heq]
    exact .refl k
  · have haccess : k.space.access (.get l onlyFresh) = { k.space with store } := by
      rw [Space.access, Space.get, hstore]
      rfl
    rw [heq, ← haccess]
    exact .quiet _ (by rw [haccess])

theorem works_first (k : Kernel) (p : Tuple) : k.Works (k.first p).1 := .quiet (.first p) rfl

/-- A read through a meta tuple reads the meta tuple, and then what it names if it can be read. -/
theorem getIndirect_cases (k : Kernel) (prototype : Tuple) (onlyFresh : Bool) :
    (k.getIndirect prototype onlyFresh).1 = (k.first prototype.ignoringFresh).1 ∨
      ∃ l fresh, (k.getIndirect prototype onlyFresh).1
        = ((k.first prototype.ignoringFresh).1.get l fresh).1 := by
  rw [getIndirect]
  dsimp only
  split
  next => exact .inl rfl
  next =>
    split
    next => exact .inl rfl
    next => exact .inl rfl
    next => exact .inr ⟨_, _, rfl⟩

theorem works_getIndirect (k : Kernel) (prototype : Tuple) (onlyFresh : Bool) :
    k.Works (k.getIndirect prototype onlyFresh).1 := by
  have hfirst := k.works_first prototype.ignoringFresh
  rcases k.getIndirect_cases prototype onlyFresh with heq | ⟨l, fresh, heq⟩
  · rwa [heq]
  · rw [heq]
    exact hfirst.trans (works_get ..)

theorem works_connect (k : Kernel) (url : String) : k.Works (k.connect url).1 := by
  rw [connect]
  split
  next => exact .refl k
  next => exact .aside ..

/-- Serving a request is work on the space, and needs nothing but operations on tuples. -/
theorem works_serve (k : Kernel) (r : Request) : k.Works (k.serve r).1 := by
  cases r with
  | insert t => exact k.works_insert t
  | delete l => exact k.works_delete l
  | get l onlyFresh => exact k.works_get l onlyFresh
  | first p => exact k.works_first p
  | getIndirect prototype onlyFresh => exact k.works_getIndirect prototype onlyFresh
  | isPresent l => exact .refl k
  | search p => exact .quiet (.search p) rfl
  | append p suffix expected => exact k.works_append p suffix expected
  | resolve l => exact .refl k
  | isMeta l => exact .refl k
  | hasSubscriber p => exact .refl k
  | owners key => exact .refl k
  | connect url => exact k.works_connect url
  | stats => exact .refl k
  | sync => exact .refl k

theorem serveAll_fst (k : Kernel) (rs : List Request) :
    (k.serveAll rs).1 = rs.foldl (fun k r => (k.serve r).1) k := by
  induction rs generalizing k with
  | nil => rfl
  | cons r rest ih => exact ih (k.serve r).1

theorem works_serveAll (k : Kernel) (rs : List Request) : k.Works (k.serveAll rs).1 := by
  induction rs generalizing k with
  | nil => exact .refl k
  | cons r rest ih => exact (k.works_serve r).trans (ih _)

theorem works_absorb (origin : Origin) {outcome : Except TupleError (Space Reaction × Mutation)}
    (a : Access) (h : k.space.settled outcome = k.space.access a) :
    k.Works (k.absorb origin outcome) := by
  cases outcome with
  | error e => exact .refl k
  | ok r =>
    have hr : r.1 = k.space.access a := h
    rw [absorb, hr]
    exact (Works.access k a).count _

theorem works_receive (k : Kernel) (message : Inbound) : k.Works (k.receive message) := by
  cases message with
  | published t =>
    rw [receive]
    split
    next => exact .refl k
    next => exact works_absorb .replica (.writeReplica t k.now) rfl
  | setRequest t =>
    rw [receive]
    split
    next => exact works_absorb .remote (.write t k.now) rfl
    next => exact .refl k

theorem works_receiveAll (k : Kernel) (messages : List Inbound) :
    k.Works (messages.foldl receive k) := by
  induction messages generalizing k with
  | nil => exact .refl k
  | cons message rest ih => exact (k.works_receive message).trans (ih _)

theorem works_sweep (k : Kernel) : k.Works k.sweep := (Works.access k (.expire k.now)).count _

theorem works_endTick (k : Kernel) : k.Works k.endTick.1 := by
  have hstepped : k.Works { k with transport := k.transport.step.1 } := .aside ..
  rw [endTick]
  dsimp only
  split
  next => exact ((hstepped.trans (works_receiveAll ..)).trans (works_sweep _)).count _
  next => exact hstepped

/-- A kernel that is shut down or abandoned applies what waits and works on. -/
theorem works_finish (k : Kernel) {why : Ending} (hwhy : why ≠ .transportStopped)
    (pending : List Request) :
    Works { k with state := .shuttingDown }.applyQueued (k.finish why pending).1 := by
  have hserved := works_serveAll { k with state := .shuttingDown }.applyQueued pending
  cases why with
  | shutdown => exact hserved.trans (.aside ..)
  | abandoned => exact hserved.trans (.aside ..)
  | transportStopped => exact absurd rfl hwhy

theorem works_writeOwn (k : Kernel) (key : Key) (text : String) : k.Works (k.writeOwn key text) :=
  works_commit (.write _ k.now) rfl

/-! ## Evolution -/

/-- A kernel turns into another: operations lead from its space to the other's, and the settings are
the same. -/
structure Evolves (k k' : Kernel) : Prop where
  space : k.space.Leads k'.space
  config : k'.config = k.config

namespace Evolves

theorem of_keeps (h : k.Keeps k') : k.Evolves k' :=
  ⟨h.eq Kernel.space (by intros; rfl) ▸ .refl, h.eq Kernel.config (by intros; rfl)⟩

theorem refl (k : Kernel) : k.Evolves k := .of_keeps (.refl k)

theorem trans (h : k.Evolves k') (h' : k'.Evolves k'') : k.Evolves k'' :=
  ⟨h.space.trans h'.space, h'.config.trans h.config⟩

/-- Work of the dispatch loop asks nothing of the space but its operations. -/
theorem of_works (h : k.Works k') : k.Evolves k' := by
  refine h.invariant (I := k.Evolves) (fun k₁ k₂ hbeat hk => hk.trans ?_) (refl k)
  cases hbeat with
  | access a =>
    exact ⟨space_adopt k₁ _ ▸ .perform k₁.space (.access a),
      (k₁.keeps_adopt _).eq Kernel.config (by intros; rfl)⟩
  | aside => exact ⟨.refl, rfl⟩

theorem localId (h : k.Evolves k') : k'.localId = k.localId := congrArg Config.localId h.config

end Evolves

theorem evolves_applyQueued (k : Kernel) : k.Evolves k.applyQueued :=
  ⟨k.space.leads_applyAll k.queued, rfl⟩

theorem store_applyQueued (k : Kernel) : k.applyQueued.space.store = k.space.store := by
  suffices h : ∀ (rs : List (Registration Reaction)) (s : Space Reaction),
      (rs.foldl Space.apply s).store = s.store from h ..
  intro rs
  induction rs with
  | nil => exact fun _ => rfl
  | cons r rest ih => exact fun s => (ih _).trans (s.store_apply r)

theorem evolves_serve (k : Kernel) (r : Request) : k.Evolves (k.serve r).1 :=
  .of_works (k.works_serve r)

theorem evolves_serveNext (k : Kernel) (r : Request) : k.Evolves (k.serveNext r).1 :=
  k.evolves_applyQueued.trans (evolves_serve ..)

theorem evolves_receive (k : Kernel) (message : Inbound) : k.Evolves (k.receive message) :=
  .of_works (k.works_receive message)

theorem evolves_finish (k : Kernel) (why : Ending) (pending : List Request) :
    k.Evolves (k.finish why pending).1 := by
  by_cases hwhy : why = .transportStopped
  · subst hwhy
    exact ⟨.refl, rfl⟩
  · have hstopping : k.Evolves { k with state := .shuttingDown } := ⟨.refl, rfl⟩
    exact (hstopping.trans (evolves_applyQueued _)).trans (.of_works (k.works_finish hwhy pending))

theorem space_enrol (k : Kernel) (e : Enrolment Reaction) :
    (k.enrol e).1.space = k.space.allocate.1 :=
  (keeps_enrolUnder { k with space := k.space.allocate.1 } _ e).eq Kernel.space (by intros; rfl)

theorem evolves_enrol (k : Kernel) (e : Enrolment Reaction) : k.Evolves (k.enrol e).1 := by
  have hallocated : k.Evolves { k with space := k.space.allocate.1 } :=
    ⟨.perform k.space .allocate, rfl⟩
  exact hallocated.trans (.of_keeps (keeps_enrolUnder ..))

/-! ## Moves -/

inductive Move where
  | serve (r : Request)
  | beginTick
  | endTick
  | finish (why : Ending) (pending : List Request)
  | abort
  | enrol (e : Enrolment Reaction)
  | enrolThrough (source : Location) (callback : Option Reaction)
  | unsubscribe (h : Handle)
  | retain
  | dismiss
  /-- A client learns what became of a write that was sent, or gives up on it. -/
  | acknowledge (ticket : Ticket)
  /-- Transport and clock change by themselves. -/
  | environment (transport : Transport) (clock : Clock)

def after (k : Kernel) : Move → Kernel
  | .serve r => (k.serveNext r).1
  | .beginTick => k.beginTick
  | .endTick => k.endTick.1
  | .finish why pending => (k.finish why pending).1
  | .abort => k.abort
  | .enrol e => (k.enrol e).1
  | .enrolThrough source callback => (k.enrolThrough source callback).1
  | .unsubscribe h => (k.unsubscribe h).1
  | .retain => k.retain
  | .dismiss => k.dismiss.1
  | .acknowledge ticket => ((k.acknowledge (k.transport.delivery ticket)).getD k.giveUpOn).1
  | .environment transport clock => { k with transport, clock }

/-- What became of a write that was sent is only counted. -/
theorem works_acknowledge (k : Kernel) (ticket : Ticket) : k.Works (k.after (.acknowledge ticket)) := by
  rw [after]
  cases k.transport.delivery ticket with
  | pending => exact .aside ..
  | answered answer => cases answer <;> exact .aside ..
  | lost => exact .aside ..

theorem space_acknowledge (k : Kernel) (ticket : Ticket) :
    (k.after (.acknowledge ticket)).space = k.space := by
  rw [after]
  cases k.transport.delivery ticket with
  | pending => rfl
  | answered answer => cases answer <;> rfl
  | lost => rfl

/-- A client does this by itself, without the dispatch loop. -/
def Move.isCall : Move → Bool
  | .enrol _ | .enrolThrough _ _ | .unsubscribe _ | .retain | .dismiss | .acknowledge _ => true
  | .serve _ | .beginTick | .endTick | .finish _ _ | .abort | .environment _ _ => false

/-- A kernel turns into another through calls of clients. -/
def Called (k k' : Kernel) : Prop :=
  ∃ handles queued issued users metrics journal, k' =
    { k with space.bindings.handles := handles, queued, issued, users, metrics, journal }

namespace Called

theorem trans (h : k.Called k') (h' : k'.Called k'') : k.Called k'' := by
  obtain ⟨_, _, _, _, _, _, rfl⟩ := h
  obtain ⟨_, _, _, _, _, _, rfl⟩ := h'
  exact ⟨_, _, _, _, _, _, rfl⟩

/-- A part of a kernel that only the dispatch loop changes. -/
theorem eq {β : Type} (h : k.Called k') (part : Kernel → β)
    (hpart : ∀ k handles queued issued users metrics journal,
      part { k with space.bindings.handles := handles, queued, issued, users, metrics, journal }
        = part k) : part k' = part k := by
  obtain ⟨_, _, _, _, _, _, rfl⟩ := h
  exact hpart ..

theorem of_keeps (h : k.Keeps k') : k.Called k' := by
  obtain ⟨_, _, _, rfl⟩ := h
  exact ⟨_, _, _, _, _, _, rfl⟩

end Called

theorem called_enrol (k : Kernel) (e : Enrolment Reaction) : k.Called (k.enrol e).1 := by
  have hallocated : k.Called { k with space := k.space.allocate.1 } := ⟨_, _, _, _, _, _, rfl⟩
  exact hallocated.trans (.of_keeps (keeps_enrolUnder ..))

theorem called_of_isCall {m : Move} (hm : m.isCall = true) : k.Called (k.after m) := by
  cases m with
  | enrol e => exact k.called_enrol e
  | enrolThrough source callback =>
    rw [after, enrolThrough]
    split
    next => exact ⟨_, _, _, _, _, _, rfl⟩
    next => exact k.called_enrol _
  | unsubscribe h => exact .of_keeps (k.keeps_unsubscribe h)
  | retain => exact ⟨_, _, _, _, _, _, rfl⟩
  | dismiss => exact ⟨_, _, _, _, _, _, rfl⟩
  | acknowledge ticket =>
    rw [after]
    cases k.transport.delivery ticket with
    | pending => exact ⟨_, _, _, _, _, _, rfl⟩
    | answered answer => cases answer <;> exact ⟨_, _, _, _, _, _, rfl⟩
    | lost => exact ⟨_, _, _, _, _, _, rfl⟩
  | serve _ | beginTick | endTick | finish _ _ | abort | environment _ _ => cases hm

theorem called_of_calls {calls : List Move} (hcalls : ∀ m ∈ calls, m.isCall = true) :
    k.Called (calls.foldl after k) := by
  induction calls generalizing k with
  | nil => exact ⟨_, _, _, _, _, _, rfl⟩
  | cons m rest ih =>
    exact (called_of_isCall (hcalls m List.mem_cons_self)).trans
      (ih fun x hx => hcalls x (List.mem_cons_of_mem _ hx))

/-- Whatever happens, the space goes through operations that callers of a space have. -/
theorem evolves_after (k : Kernel) (m : Move) : k.Evolves (k.after m) := by
  cases m with
  | serve r => exact k.evolves_serveNext r
  | beginTick => exact (Evolves.of_works (.aside ..)).trans (evolves_applyQueued _)
  | endTick => exact .of_works k.works_endTick
  | finish why pending => exact k.evolves_finish why pending
  | abort => exact ⟨.refl, rfl⟩
  | enrol e => exact k.evolves_enrol e
  | enrolThrough source callback =>
    rw [after, enrolThrough]
    split
    next => exact .refl k
    next => exact k.evolves_enrol _
  | unsubscribe h => exact .of_keeps (k.keeps_unsubscribe h)
  | retain => exact ⟨.refl, rfl⟩
  | dismiss => exact ⟨.refl, rfl⟩
  | acknowledge ticket => exact .of_works (k.works_acknowledge ticket)
  | environment transport clock => exact .of_works (.aside ..)

/-! ## Reachable kernels -/

/-- Moves lead to this kernel from a start. -/
inductive Reachable : Kernel → Prop
  | start {config : Config} {transport : Transport} {clock : Clock} {k : Kernel}
    (h : Kernel.start config transport clock = .ok k) : Reachable k
  | after {k : Kernel} (h : Reachable k) (m : Move) : Reachable (k.after m)

/-- The kernel that a start gives. -/
def opened (config : Config) (transport : Transport) (clock : Clock) : Kernel :=
  (((blank config transport clock).writeOwn versionKey protocolVersion).writeOwn nameKey
    config.componentName).connectPeers

theorem start_eq_ok_iff {config : Config} {transport : Transport} {clock : Clock} :
    Kernel.start config transport clock = .ok k ↔
      config.validate = .ok () ∧ speaks transport.version = true ∧
        k = opened config transport clock := by
  rw [Kernel.start]
  cases config.validate with
  | error e => simp [Except.mapError, bind, Except.bind]
  | ok _ =>
    simp only [Except.mapError, bind, Except.bind, pure, Except.pure]
    split
    next hspeaks => simp [hspeaks, opened, eq_comm]
    next hspeaks => simp [hspeaks, throw, throwThe, MonadExceptOf.throw]

/-- A kernel that starts has come from one with an empty space. -/
theorem works_opened (config : Config) (transport : Transport) (clock : Clock) :
    (blank config transport clock).Works (opened config transport clock) :=
  ((works_writeOwn ..).trans (works_writeOwn ..)).trans (.aside ..)

theorem evolves_opened (config : Config) (transport : Transport) (clock : Clock) :
    (blank config transport clock).Evolves (opened config transport clock) :=
  .of_works (works_opened ..)

/-- The space of a kernel is coherent at all times, whatever happens. -/
theorem Reachable.coherent (h : k.Reachable) : k.space.Coherent := by
  induction h with
  | start h =>
    obtain ⟨-, -, rfl⟩ := start_eq_ok_iff.1 h
    exact (evolves_opened ..).space.coherent (Session.coherent_start ..)
  | after _ m ih => exact (evolves_after _ m).space.coherent ih

end Kernel

end Blackboard
