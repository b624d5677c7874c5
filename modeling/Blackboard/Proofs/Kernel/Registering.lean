import Blackboard.Proofs.Kernel.Docket

/-!
# When registrations take effect

What clients and callbacks register waits in one queue, and the dispatch loop applies the whole queue
before it serves a request. So a request is served in a space that holds everything registered before.

Callbacks act only after a change was made and all callbacks for it have run. That their registrations
do not reach into the change is shown with a twin: a kernel that refuses whatever they register goes
through the same spaces.
-/

namespace Blackboard

/-- A space holds in its registry and its resolver what a roll says, and nothing else. -/
structure Roll.InEffect (roll : Roll Reaction) (s : Space Reaction) : Prop where
  registry : ∀ x subscription,
    s.registry.get? x = some subscription ↔ roll.Entered s.resolver x subscription
  resolver : ∀ i, s.resolver.registration? i = ((roll.lastWord i).bind Registration.indirect?).map
    fun r => (r.1.ignoringFresh, r.2)
  /-- What is bound has its entry under a handle that nobody registered anything under. -/
  hidden : ∀ i x, s.resolver.bound? i = some x → ∀ r ∈ roll, r.handle ≠ x

/-- What was taken back has left nothing. -/
theorem Roll.InEffect.removed {roll : Roll Reaction} {s : Space Reaction} (h : roll.InEffect s)
    (ho : roll.Orderly) {x : Handle} (hx : Registration.remove x ∈ roll) :
    s.registry.get? x = none ∧ s.resolver.registration? x = none := by
  have hlast := ho.lastWord_of_mem hx
  refine ⟨Option.eq_none_iff_forall_ne_some.2 fun subscription hentry => ?_, ?_⟩
  · cases (h.registry x subscription).1 hentry with
    | direct hdirect => simp [hlast] at hdirect
    | interest hindirect => simp [hlast] at hindirect
    | bound _ _ hbound => exact h.hidden _ x hbound _ hx rfl
  · rw [h.resolver, hlast]
    rfl

namespace Kernel

variable {k k' : Kernel} {applied roll : Roll Reaction} {ledger : Ledger Reaction}

theorem Booked.inEffect (hb : k.Booked applied roll ledger) : applied.InEffect k.space where
  registry x subscription :=
    (hb.reachable.accounted.bindings.entry_iff x subscription).trans hb.kept.entry_iff
  resolver i := (hb.reachable.registered i).trans (by rw [hb.kept.indirect])
  hidden i x hbound r hr heq :=
    hb.reachable.accounted.bindings.hidden i x hbound (heq ▸ hb.given_applied r hr)

/-! ## Twins -/

/-- Two kernels that may differ in what is queued and out, in what callbacks reported, and in whether
registrations are refused. -/
def Twin (k k' : Kernel) : Prop :=
  ∃ queued issued journal aborted, k' = { k with queued, issued, journal, aborted }

namespace Twin

/-- What a kernel works on. -/
theorem parts (h : k.Twin k') : k'.localId = k.localId ∧ k'.space = k.space ∧ k'.now = k.now ∧
    k'.transport = k.transport := by
  obtain ⟨_, _, _, _, rfl⟩ := h
  exact ⟨rfl, rfl, rfl, rfl⟩

theorem space_eq (h : k.Twin k') : k'.space = k.space := h.parts.2.1

/-- A change of other parts makes twins of twins. -/
theorem map (h : k.Twin k') (f : Kernel → Kernel)
    (hf : ∀ k queued issued journal aborted,
      (f k).Twin (f { k with queued, issued, journal, aborted })) : (f k).Twin (f k') := by
  obtain ⟨_, _, _, _, rfl⟩ := h
  exact hf ..

theorem withSpace (h : k.Twin k') (space : Space Reaction) :
    Twin { k with space } { k' with space } :=
  h.map (fun k => { k with space }) fun _ _ _ _ _ => ⟨_, _, _, _, rfl⟩

theorem withTransport (h : k.Twin k') (transport : Transport) :
    Twin { k with transport } { k' with transport } :=
  h.map (fun k => { k with transport }) fun _ _ _ _ _ => ⟨_, _, _, _, rfl⟩

theorem count (h : k.Twin k') (f : Metrics → Metrics) :
    Twin { k with metrics := f k.metrics } { k' with metrics := f k'.metrics } :=
  h.map (fun k => { k with metrics := f k.metrics }) fun _ _ _ _ _ => ⟨_, _, _, _, rfl⟩

/-- Callbacks differ in nothing but what they register and report. -/
theorem adopt (h : k.Twin k') (s : Space Reaction) : (k.adopt s).Twin (k'.adopt s) := by
  obtain ⟨_, _, _, _, heq⟩ := h.withSpace s
  obtain ⟨_, _, _, hk⟩ := k.keeps_adopt s
  obtain ⟨_, _, _, hk'⟩ := k'.keeps_adopt s
  rw [hk, hk', heq]
  exact ⟨_, _, _, _, rfl⟩

theorem commit (h : k.Twin k') (outcome : Except TupleError (Space Reaction × Mutation)) :
    (k.commit outcome).1.Twin (k'.commit outcome).1 := by
  cases outcome with
  | error e => exact h
  | ok r =>
    exact (h.adopt r.1).count fun m => m.countChange .client r.2

theorem send (h : k.Twin k') (owner : Owner) (t : Tuple) :
    (k.send owner t).1.Twin (k'.send owner t).1 := by
  obtain ⟨_, _, _, _, rfl⟩ := h
  rw [Kernel.send, Kernel.send]
  dsimp only
  split <;> exact ⟨_, _, _, _, rfl⟩

theorem insert (h : k.Twin k') (t : Tuple) : (k.insert t).1.Twin (k'.insert t).1 := by
  obtain ⟨hid, hspace, hnow, -⟩ := h.parts
  rw [Kernel.insert, Kernel.insert, hid, hspace, hnow]
  split
  next => exact h
  next =>
    dsimp only
    split
    next => exact h.commit _
    next => exact h.send ..

theorem delete (h : k.Twin k') (l : Location) : (k.delete l).1.Twin (k'.delete l).1 := by
  obtain ⟨hid, hspace, hnow, -⟩ := h.parts
  rw [Kernel.delete, Kernel.delete, hid, hspace, hnow]
  split
  next => exact h.commit _
  next =>
    split
    next => exact h
    next => exact h.send ..

theorem get (h : k.Twin k') (l : Location) (onlyFresh : Bool) :
    (k.get l onlyFresh).1.Twin (k'.get l onlyFresh).1 := by
  rw [Kernel.get, Kernel.get, h.space_eq]
  split
  next => exact h
  next => exact h.withSpace _

theorem getIndirect (h : k.Twin k') (prototype : Tuple) (onlyFresh : Bool) :
    (k.getIndirect prototype onlyFresh).1.Twin (k'.getIndirect prototype onlyFresh).1 := by
  have hfirst := h.withSpace (k.space.first prototype.ignoringFresh).1
  rw [Kernel.getIndirect, Kernel.getIndirect, Kernel.first, Kernel.first, h.space_eq]
  dsimp only
  split
  next => exact hfirst
  next =>
    split
    next => exact hfirst
    next => exact hfirst
    next => exact hfirst.get ..

theorem serve (h : k.Twin k') (r : Request) : (k.serve r).1.Twin (k'.serve r).1 := by
  obtain ⟨hid, hspace, hnow, htransport⟩ := h.parts
  cases r with
  | insert t => exact h.insert t
  | delete l => exact h.delete l
  | get l onlyFresh => exact h.get l onlyFresh
  | first p =>
    simp only [Kernel.serve, Kernel.first, hspace]
    exact h.withSpace _
  | getIndirect prototype onlyFresh => exact h.getIndirect prototype onlyFresh
  | search p =>
    simp only [Kernel.serve, hspace]
    exact h.withSpace _
  | append p suffix expected =>
    rw [Kernel.serve, Kernel.serve, Kernel.append, Kernel.append, hid, hspace, hnow]
    split
    next => exact h
    next =>
      exact (h.adopt _).count fun m =>
        (k.space.append p suffix expected k.now).2.foldl
          (fun m change => m.countWrite .append change) m
  | connect url =>
    rw [Kernel.serve, Kernel.serve, Kernel.connect, Kernel.connect, htransport]
    split
    next => exact h
    next => exact h.withTransport _
  | isPresent l => exact h
  | resolve l => exact h
  | isMeta l => exact h
  | hasSubscriber p => exact h
  | owners key => exact h
  | stats => exact h
  | sync => exact h

theorem serveAll (h : k.Twin k') (rs : List Request) :
    (k.serveAll rs).1.Twin (k'.serveAll rs).1 := by
  induction rs generalizing k k' with
  | nil => exact h
  | cons r rest ih => exact ih (h.serve r)

theorem absorb (h : k.Twin k') (origin : Origin)
    (outcome : Except TupleError (Space Reaction × Mutation)) :
    (k.absorb origin outcome).Twin (k'.absorb origin outcome) := by
  cases outcome with
  | error e => exact h
  | ok r =>
    exact (h.adopt r.1).count fun m => m.countChange origin r.2

theorem receive (h : k.Twin k') (message : Inbound) :
    (k.receive message).Twin (k'.receive message) := by
  obtain ⟨hid, hspace, hnow, -⟩ := h.parts
  cases message with
  | published t =>
    rw [Kernel.receive, Kernel.receive, hid, hspace, hnow]
    split
    next => exact h
    next => exact h.absorb ..
  | setRequest t =>
    rw [Kernel.receive, Kernel.receive, hid, hspace, hnow]
    split
    next => exact h.absorb ..
    next => exact h

theorem receiveAll (h : k.Twin k') (messages : List Inbound) :
    (messages.foldl Kernel.receive k).Twin (messages.foldl Kernel.receive k') := by
  induction messages generalizing k k' with
  | nil => exact h
  | cons message rest ih => exact ih (h.receive message)

theorem sweep (h : k.Twin k') : k.sweep.Twin k'.sweep := by
  obtain ⟨-, hspace, hnow, -⟩ := h.parts
  rw [Kernel.sweep, Kernel.sweep, hspace, hnow]
  exact (h.adopt _).count fun m =>
    (k.space.expire k.now).2.foldl (fun m change => m.countRemoval .expiry change) m

theorem endTick (h : k.Twin k') : k.endTick.1.Twin k'.endTick.1 := by
  obtain ⟨-, -, -, htransport⟩ := h.parts
  rw [Kernel.endTick, Kernel.endTick, htransport]
  dsimp only
  split
  next =>
    exact ((h.withTransport _).receiveAll _).sweep.count Metrics.countTick
  next => exact h.withTransport _

end Twin

/-- The kernel that refuses all registrations from now on. -/
def deaf (k : Kernel) : Kernel := { k with aborted := true }

/-- Whatever happens next, it is the same for the space whether the callbacks that run get to register
anything or not. -/
theorem space_deaf (k : Kernel) (m : Move) : (k.deaf.after m).space = (k.after m).space := by
  have htwin : k.Twin k.deaf := ⟨_, _, _, _, rfl⟩
  have happlied : k.applyQueued.Twin k.deaf.applyQueued := ⟨_, _, _, _, rfl⟩
  have hserved (pending : List Request) :
      ({ k with state := .shuttingDown }.applyQueued.serveAll pending).1.Twin
        ({ k.deaf with state := .shuttingDown }.applyQueued.serveAll pending).1 :=
    Twin.serveAll ⟨_, _, _, _, rfl⟩ pending
  cases m with
  | serve r => exact (happlied.serve r).space_eq
  | beginTick => rfl
  | endTick => exact htwin.endTick.space_eq
  | finish why pending =>
    cases why with
    | shutdown => exact (hserved pending).space_eq
    | abandoned => exact (hserved pending).space_eq
    | transportStopped => rfl
  | abort => rfl
  | enrol e => exact (k.deaf.space_enrol e).trans (k.space_enrol e).symm
  | enrolThrough source callback =>
    rw [after, after, enrolThrough, enrolThrough]
    split
    next => rfl
    next => exact (k.deaf.space_enrol _).trans (k.space_enrol _).symm
  | unsubscribe h =>
    exact ((k.deaf.keeps_unsubscribe h).eq Kernel.space (by intros; rfl)).trans
      ((k.keeps_unsubscribe h).eq Kernel.space (by intros; rfl)).symm
  | retain => rfl
  | dismiss => rfl
  | acknowledge ticket =>
    exact (k.deaf.space_acknowledge ticket).trans (k.space_acknowledge ticket).symm
  | environment transport clock => rfl

/-! ## What callbacks are shown -/

/-- The dispatch loop makes changes during such a move. -/
def Move.dispatches : Move → Bool
  | .serve _ | .endTick => true
  | .finish why _ => why ≠ .transportStopped
  | .beginTick | .abort | .enrol _ | .enrolThrough _ _ | .unsubscribe _ | .retain | .dismiss
  | .acknowledge _ | .environment _ _ => false

/-- What runs during a move is decided by what was applied when it began. -/
structure Foregone (k : Kernel) (applied : Roll Reaction) (m : Move) : Prop where
  fired : (k.after m).space.fired = k.space.fired ++ k.runs m
  caused : ∀ f ∈ k.runs m, ∃ i, applied.Causes f i
  quiet : m.dispatches = false → k.runs m = []
  /-- Each registration that stands is shown what concerns it of the changes that are made. -/
  shown : m.dispatches = true → ∃ changes,
    ((k.takes m).foldl Space.apply k.space).Becomes changes (k.after m).space ∧
    ∀ x subscription, applied.lastWord x = some (.subscribe x subscription) →
      Session.shownTo x (k.runs m)
        = changes.filterMap (Session.heard
          ((k.takes m).foldl Space.apply k.space).registry.policy subscription)
  /-- The space goes through the same if whatever callbacks register is refused. -/
  deaf : (k.deaf.after m).space = (k.after m).space

theorem Works.becomes (h : k.Works k') (hs : k.space.store.Sound) :
    ∃ changes, k.space.Becomes changes k'.space := by
  refine h.invariant (I := fun k' => ∃ changes, k.space.Becomes changes k'.space)
    (fun k₁ k₂ hbeat hk => ?_) ⟨[], .refl hs⟩
  obtain ⟨before, hbefore⟩ := hk
  cases hbeat with
  | access a =>
    obtain ⟨changes, hbecomes, -⟩ := Space.becomes_access hbefore.sound a
    exact ⟨before ++ changes, space_adopt k₁ _ ▸ hbefore.trans hbecomes⟩
  | aside => exact ⟨before, hbefore⟩

theorem Booked.shown (hb : k.Booked applied roll ledger) (hworks : k.Works k') :
    ∃ changes, k.space.Becomes changes k'.space ∧
      ∀ x subscription, applied.lastWord x = some (.subscribe x subscription) →
        Session.shownTo x (k'.space.fired.drop k.space.fired.length)
          = changes.filterMap (Session.heard k.space.registry.policy subscription) := by
  obtain ⟨changes, hbecomes⟩ := hworks.becomes hb.reachable.coherent.sound
  refine ⟨changes, hbecomes, fun x subscription hx => ?_⟩
  obtain ⟨howned, hentry⟩ := hb.reachable.standing (hb.kept.direct_iff.2 hx)
  exact (Session.serves_becomes howned hentry hbecomes).shownTo_eq

theorem runs_eq_nil {m : Move} (h : (k.after m).space.fired = k.space.fired) : k.runs m = [] := by
  rw [runs, h, List.drop_length]

theorem runs_of_not_dispatches {m : Move} (hm : m.dispatches = false) : k.runs m = [] := by
  have hcall (hm : m.isCall = true) : k.runs m = [] :=
    runs_eq_nil ((called_of_isCall hm).eq (·.space.fired) (by intros; rfl))
  cases m with
  | serve r => cases hm
  | beginTick => exact runs_eq_nil (fired_applyQueued { k with ticks := k.ticks + 1 })
  | endTick => cases hm
  | finish why pending =>
    cases why with
    | shutdown => cases hm
    | abandoned => cases hm
    | transportStopped => exact runs_eq_nil rfl
  | abort => exact runs_eq_nil rfl
  | environment transport clock => exact runs_eq_nil rfl
  | enrol _ | enrolThrough _ _ | unsubscribe _ | retain | dismiss | acknowledge _ => exact hcall rfl

/-- A move that makes changes first applies what it takes, and then works. -/
theorem Booked.works_of_dispatches (hb : k.Booked applied roll ledger) {m : Move}
    (hm : m.dispatches = true) : ∃ (k₀ : Kernel) (ledger₀ : Ledger Reaction),
      k₀.space = (k.takes m).foldl Space.apply k.space ∧ k₀.space.fired = k.space.fired ∧
      k₀.Booked (applied ++ k.takes m) roll ledger₀ ∧ k₀.Works (k.after m) := by
  cases m with
  | serve r =>
    obtain ⟨ledger₀, happlied⟩ := hb.applyQueued
    exact ⟨_, _, rfl, k.fired_applyQueued, happlied, k.applyQueued.works_serve r⟩
  | endTick => exact ⟨k, _, rfl, rfl, (List.append_nil applied).symm ▸ hb, k.works_endTick⟩
  | finish why pending =>
    have hwhy : why ≠ .transportStopped := of_decide_eq_true hm
    have hstopping : { k with state := .shuttingDown }.Booked applied roll ledger :=
      hb.congr rfl rfl rfl fun h => nomatch h
    obtain ⟨ledger₀, happlied⟩ := hstopping.applyQueued
    have htakes : k.takes (.finish why pending) = k.queued := if_neg hwhy
    rw [htakes]
    exact ⟨_, _, rfl, fired_applyQueued { k with state := .shuttingDown }, happlied,
      k.works_finish hwhy pending⟩
  | beginTick | abort | enrol _ | enrolThrough _ _ | unsubscribe _ | retain | dismiss
  | acknowledge _ | environment _ _ => cases hm

theorem Booked.foregone (hb : k.Booked applied roll ledger) (m : Move) :
    k.Foregone (applied ++ k.takes m) m where
  fired := (hb.continues m).2.1
  caused := (hb.continues m).2.2
  quiet := runs_of_not_dispatches
  shown hm := by
    obtain ⟨k₀, ledger₀, hspace, hfired, happlied, hworks⟩ := hb.works_of_dispatches hm
    obtain ⟨changes, hbecomes, hshown⟩ := happlied.shown hworks
    rw [hfired] at hshown
    exact ⟨changes, hspace ▸ hbecomes, hspace ▸ hshown⟩
  deaf := k.space_deaf m

/-- Before the dispatch loop serves a request it puts into effect all that is registered. -/
theorem inEffect_applyQueued {d : Docket} (hd : d.Sound) (haccepts : d.kernel.accepts = true) :
    d.roll.InEffect d.kernel.applyQueued.space := by
  obtain ⟨ledger, hb⟩ := hd
  obtain ⟨ledger', happlied⟩ := hb.applyQueued
  rw [hb.filed.roll_eq haccepts]
  exact happlied.inEffect

/-- What clients and callbacks register is applied in its order, each once and all of it before the
next request is served, so it is in effect then. What runs during a move depends on nothing that is
registered meanwhile. -/
theorem registrations_in_turn {config : Config} {transport : Transport} {clock : Clock}
    (h : Kernel.start config transport clock = .ok k) (ms : List Move) :
    let d := Docket.run { kernel := k } ms
    d.kernel.accepts = true →
      d.roll = d.applied ++ d.kernel.queued ∧ d.applied.InEffect d.kernel.space ∧
      d.roll.InEffect d.kernel.applyQueued.space ∧
      (∀ x, .remove x ∈ d.roll → d.kernel.applyQueued.space.registry.get? x = none ∧
        d.kernel.applyQueued.space.resolver.registration? x = none) ∧
      ∀ m, d.kernel.Foregone (d.step m).applied m ∧
        ((d.step m).kernel.accepts = true →
          (d.kernel.enters d.roll m).InEffect (d.step m).kernel.applyQueued.space) := by
  intro d haccepts
  have hsound : d.Sound := (Docket.sound_start h).run ms
  have heffect := inEffect_applyQueued hsound haccepts
  have hstep (m : Move) (haccepts : (d.step m).kernel.accepts = true) :
      (d.kernel.enters d.roll m).InEffect (d.step m).kernel.applyQueued.space := by
    have hentered : (d.step m).roll = d.kernel.enters d.roll m := if_pos haccepts
    exact hentered ▸ inEffect_applyQueued (hsound.step m) haccepts
  obtain ⟨ledger, hb⟩ := hsound
  have hroll := hb.filed.roll_eq haccepts
  exact ⟨hroll, hb.inEffect, heffect, fun x hx => heffect.removed (hroll ▸ hb.filed.orderly) hx,
    fun m => ⟨hb.foregone m, hstep m⟩⟩

/-! ## A callback that registers another -/

def anyText : Tuple := .locator (some 1) ⟨[none]⟩

/-- A callback that another one takes the place of as soon as it has run. -/
def relay : Reaction :=
  .of "first" [.enrol (.callback anyText .onWrite (.of "second" [])), .unsubscribe 1]

def relaying : List Move :=
  [.enrol (.callback anyText .onWrite relay), .serve (.insert (.plainText 1 ⟨[some "x"]⟩ "v"))]

/-- The second callback is not shown the text that it was registered upon, but the next one, which the
first is not shown. -/
theorem relaying_in_turn :
    let k := opened { publishAllKeys := false } (.standalone false) ⟨1000000000⟩
    let d := Docket.run { kernel := k } relaying
    let next := d.step (.serve (.insert (.plainText 1 ⟨[some "y"]⟩ "w")))
    Kernel.start { publishAllKeys := false } (.standalone false) ⟨1000000000⟩ = .ok k ∧
      d.kernel.accepts = true ∧ d.roll.length = 3 ∧ d.applied.length = 1 ∧
      d.roll.InEffect d.kernel.applyQueued.space ∧
      d.kernel.applyQueued.space.registry.get? 1 = none ∧
      d.kernel.space.fired.map (fun f => f.callback.label) = ["first"] ∧
      next.kernel.space.fired.map (fun f => f.callback.label) = ["first", "second"] := by
  intro k d next
  have hstart : Kernel.start { publishAllKeys := false } (.standalone false) ⟨1000000000⟩ = .ok k :=
    start_eq_ok_iff.2 ⟨by decide, by decide, rfl⟩
  have haccepts : d.kernel.accepts = true := by decide +kernel
  have hremoved : Registration.remove 1 ∈ d.roll := List.mem_of_getLast? (by rfl)
  obtain ⟨-, -, heffect, hnone, -⟩ := registrations_in_turn hstart relaying haccepts
  exact ⟨hstart, haccepts, by decide +kernel, by decide +kernel, heffect, (hnone 1 hremoved).1,
    by decide +kernel, by decide +kernel⟩

end Kernel

end Blackboard
