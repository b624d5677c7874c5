import Blackboard.Proofs.Host.Calm
import Blackboard.Proofs.Host.Stopping

/-!
# Who uses the shared kernel

Components join the shared kernel and leave it, one at a time. The kernel counts its users. The count
is that of the components that joined and did not leave, but for those whose kernel broke down and was
replaced: they are not counted by the new one, although it is the new one that they leave.

A shared kernel goes on while it has users, unless its transport breaks down. Then it stays the shared
one until somebody joins or all have left.
-/

namespace Blackboard

variable {α : Type}

/-! ## Kernels that go on -/

namespace Kernel

variable {k k' : Kernel}

/-- A kernel takes requests and has a transport. -/
def IsUp (k : Kernel) : Prop := k.accepts = true ∧ k.transportFailed = false

theorem isUp_of_standing_eq (h : k'.standing = k.standing) (hk : k.IsUp) : k'.IsUp := by
  simp only [standing, Prod.mk.injEq] at h
  obtain ⟨-, hstate, haborted, hfailed⟩ := h
  simpa [IsUp, accepts, isRunning, hstate, haborted, hfailed] using hk

theorem isBroken_of_standing_eq (h : k'.standing = k.standing) (hk : k.IsBroken) : k'.IsBroken := by
  simp only [standing, Prod.mk.injEq] at h
  exact ⟨h.2.1.trans hk.1, h.2.2.2.trans hk.2⟩

theorem isUp_opened (config : Config) (transport : Transport) (clock : Clock) :
    (opened config transport clock).IsUp :=
  isUp_of_standing_eq ((works_opened config transport clock).eq standing (by intros; rfl)) ⟨rfl, rfl⟩

theorem accepts_eq_isRunning_iff (hk : k.IsBroken ∨ k.IsUp) : k.accepts = k.isRunning ∧
    (k.isRunning = true ↔ k.transportFailed = false) := by
  rcases hk with ⟨hstate, hfailed⟩ | ⟨haccepts, hfailed⟩
  · simp [accepts, isRunning, hstate, hfailed]
  · have hrunning : k.isRunning = true := by
      rw [accepts, Bool.and_eq_true] at haccepts
      exact haccepts.1
    simp [haccepts, hrunning, hfailed]

end Kernel

/-! ## The place of the shared kernel -/

namespace Host

variable {h h' : Host α} {i : NodeId} {n : Node} {k : Kernel}

theorem shared?_eq_some_iff :
    h.shared? = some (i, k) ↔ h.shared = some i ∧ ∃ n, h.node? i = some n ∧ n.kernel = k := by
  simp only [shared?, kernel?, Option.bind_eq_some_iff, Option.map_eq_some_iff, Prod.mk.injEq]
  constructor
  · rintro ⟨_, hi, _, ⟨n, hn, rfl⟩, rfl, rfl⟩
    exact ⟨hi, n, hn, rfl⟩
  · rintro ⟨hi, n, hn, rfl⟩
    exact ⟨i, hi, n.kernel, ⟨n, hn, rfl⟩, rfl, rfl⟩

theorem joinable?_eq_some (hi : h.joinable? = some i) : ∃ n, h.shared = some i ∧
    h.node? i = some n ∧ n.kernel.isRunning = true ∧ 0 < n.kernel.users := by
  rw [joinable?] at hi
  split at hi
  next j k hshared =>
    obtain ⟨hj, n, hn, rfl⟩ := shared?_eq_some_iff.1 hshared
    split at hi
    next hjoins =>
      cases hi
      simp only [Bool.and_eq_true, decide_eq_true_eq] at hjoins
      exact ⟨n, hj, hn, hjoins⟩
    next => cases hi
  next => cases hi

/-- A component joins a kernel that goes on, or one is started in the place of the shared one. -/
theorem joinOrStart_eq_ok {config : Config} {transport : Transport} {clock : Clock}
    (hok : h.joinOrStart config transport clock = .ok (h', i)) :
    h.joinable? = some i ∧ h' = { h.modifyKernel i Kernel.retain with current := some i } ∨
    h.joinable? = none ∧ i = h.nodes.length ∧ h' = { h with
      nodes := h.nodes ++ [{ kernel := .opened config transport clock, nextTick := h.now }]
      current := some i, shared := some i } := by
  rw [joinOrStart] at hok
  split at hok
  next j hj =>
    cases hok
    exact .inl ⟨hj, rfl⟩
  next hnone =>
    cases hstart : h.start config transport clock with
    | error e => simp [startCurrent, hstart, bind, Except.bind] at hok
    | ok r =>
      obtain ⟨-, hi, hr⟩ := start_eq_ok hstart
      simp only [startCurrent, hstart, bind, Except.bind, pure, Except.pure, Except.ok.injEq,
        Prod.mk.injEq] at hok
      obtain ⟨rfl, rfl⟩ := hok
      exact .inr ⟨hnone, hi, by rw [hr]⟩

theorem forgetUnused_eq (hi : h.shared = some i) (hn : h.node? i = some n) :
    h.forgetUnused = if n.kernel.users = 0 then { h with shared := none } else h := by
  rw [forgetUnused, shared?_eq_some_iff.2 ⟨hi, n, hn, rfl⟩]

/-- The call of a component that leaves is a task of its own, and waits only if it is the last. -/
theorem call_leaving_cases (hn : h.node? i = some n) (f : Unit → α) :
    (h.call i (leaving f)).1.shared = h.shared ∧ ∃ p : Progress α, p.Mild ∧
      (p.isStopping = true → n.kernel.users = 1) ∧
      (h.call i (leaving f)).1.tasks = h.tasks ++ [⟨i, p⟩] := by
  let begun : Task α := ⟨i, .finished (.error .notRunning)⟩
  have hadded (p : Progress α) : (h.tasks ++ [begun]).modify h.tasks.length
      (fun t => { t with progress := p }) = h.tasks ++ [⟨i, p⟩] := by
    refine List.ext_getElem? fun m => ?_
    grind
  let last : Program α := .done ((Except.ok ()).map f)
  let gone : Progress α := .finished ((Except.ok ()).map f)
  rw [call, hn]
  dsimp only [leaving, Client.shutdown, Kernel.dismiss]
  by_cases hlast : n.kernel.users = 1
  · simp only [hlast, decide_true, if_true, Program.map, proceed]
    split
    next => exact ⟨rfl, gone, trivial, fun _ => trivial, hadded gone⟩
    next =>
      exact ⟨rfl, .stopping (h.now + graceOfStop.nanos) last, trivial, fun _ => trivial, hadded _⟩
  · simp only [hlast, decide_false, Bool.false_eq_true, if_false, Program.map, proceed]
    exact ⟨rfl, gone, trivial, (fun h => by cases h), hadded gone⟩

end Host

/-! ## Components that share a kernel -/

/-- A host whose components share a kernel, and an account of them since there was none. -/
structure Commons (α : Type) where
  host : Host α := {}
  /-- The call of a component that is leaving. Until it is over nobody else joins or leaves. -/
  leaving : Option TaskId := none
  joined : Nat := 0
  left : Nat := 0
  /-- How many users broken kernels had when others took their place. -/
  forsaken : Nat := 0

namespace Commons

def join (c : Commons α) (config : Config) (transport : Transport) (clock : Clock) : Commons α :=
  match c.host.joinOrStart config transport clock with
  | .error _ => c
  | .ok (host, _) =>
    let forsaken := if c.host.joinable?.isSome then 0 else c.host.shared?.elim 0 (·.2.users)
    { c with host, joined := c.joined + 1, forsaken := c.forsaken + forsaken }

def leave (c : Commons α) (f : Unit → α) : Commons α :=
  match c.host.shared? with
  | none => c
  | some (i, _) =>
    let (host, id) := c.host.call i (Host.leaving f)
    { c with host, leaving := some id, left := c.left + 1 }

/-- A component has left. The account ends with the last. -/
def depart (c : Commons α) : Commons α :=
  let host := c.host.forgetUnused
  if host.shared.isNone then { host } else { c with host, leaving := none }

/-- What can happen while components share a kernel. -/
inductive Step (c : Commons α) : Commons α → Prop
  | joins (hfree : c.leaving = none) (config : Config) (transport : Transport) (clock : Clock) :
    Step c (c.join config transport clock)
  | leaves (hfree : c.leaving = none) (f : Unit → α) : Step c (c.leave f)
  | departs {id : TaskId} (hid : c.leaving = some id) (hover : (c.host.outcome? id).isSome = true) :
    Step c c.depart
  /-- A component makes any other use of a kernel. -/
  | calls (i : NodeId) {call : Call α} (hcall : call.Calm) :
    Step c { c with host := (c.host.call i call).1 }
  | happens {e : Host.Happening} (he : c.host.Enabled e) : Step c { c with host := c.host.perform e }
  | passes (now : Moment) : Step c { c with host := { c.host with now } }
  /-- Transport and clock change by themselves. So does the transport that breaks down. -/
  | environment (i : NodeId) (transport : Transport) (clock : Clock) :
    Step c { c with host := c.host.modifyKernel i fun k => { k with transport, clock } }
  | holds (current : Option NodeId) : Step c { c with host := { c.host with current } }

/-- Steps lead to this from a host without kernels. -/
def Reachable (c : Commons α) : Prop := Relation.ReflTransGen Step {} c

/-! ## What every step keeps -/

variable {c : Commons α} {i : NodeId} {k : Kernel} {n n' : Node} {h' : Host α}

/-- What holds of the loop of the shared kernel. -/
structure Serves (c : Commons α) (n : Node) : Prop where
  counted : n.kernel.users + c.left + c.forsaken = c.joined
  used : c.leaving = none → 0 < n.kernel.users
  asked : 0 < n.kernel.users → n.stopRequested = false
  standing : 0 < n.kernel.users → n.kernel.IsBroken ∨ n.kernel.IsUp

structure Sound (c : Commons α) : Prop where
  mild : c.host.Mild
  /-- The task of a component that was the last to leave. -/
  stopping : ∀ (id : TaskId) t, c.host.tasks[id]? = some t → t.progress.isStopping = true →
    c.leaving = some id ∧ ∀ i n, c.host.shared = some i → c.host.node? i = some n →
      n.kernel.users = 0
  shared : ∀ i, c.host.shared = some i → ∃ n, c.host.node? i = some n ∧ c.Serves n
  empty : c.host.shared = none → c.joined = 0 ∧ c.left = 0 ∧ c.forsaken = 0

theorem Serves.calm {mayEnd : Prop} (hs : c.Serves n) (hcalm : n.Calm mayEnd n')
    (hmay : 0 < n.kernel.users → ¬ mayEnd) : c.Serves n' := by
  have husers := hcalm.users
  refine ⟨husers ▸ hs.counted, fun hfree => husers ▸ hs.used hfree, fun hused => ?_,
    fun hused => ?_⟩
  · exact hcalm.asked.trans (hs.asked (husers ▸ hused))
  · rw [husers] at hused
    rcases hcalm.standing with hends | hbroken | heq
    · exact absurd hends (hmay hused)
    · exact .inl hbroken
    · exact (hs.standing hused).imp (Kernel.isBroken_of_standing_eq heq)
        (Kernel.isUp_of_standing_eq heq)

/-- While the shared kernel has users its loop ends for no reason but a broken transport. -/
theorem Sound.not_mayEnd (hs : c.Sound) (hi : c.host.shared = some i)
    (hn : c.host.node? i = some n) (hserves : c.Serves n) (hused : 0 < n.kernel.users) :
    ¬ c.host.MayEnd i := by
  intro hmay
  cases hmay with
  | asked hm hasked =>
    cases hn.symm.trans hm
    simp [hserves.asked hused] at hasked
  | abandoned hheld => simp [Host.isHeld, hi] at hheld
  | forced ht _ hstopping => exact hused.ne' ((hs.stopping _ _ ht hstopping).2 i n hi hn)

/-- What happens by itself, and what components do but joining and leaving. -/
theorem Sound.calm (hs : c.Sound) (hcalm : c.host.Calm c.host.MayEnd h') :
    Sound { c with host := h' } where
  mild := hcalm.mild hs.mild
  stopping id t ht hstopping := by
    rcases hcalm.task id t ht with ht | hgoes
    · obtain ⟨hid, hunused⟩ := hs.stopping id t ht hstopping
      refine ⟨hid, fun i n' hi hn' => ?_⟩
      rw [hcalm.shared] at hi
      obtain ⟨n, hn, -⟩ := hs.shared i hi
      obtain ⟨m, hm, hcalm⟩ := hcalm.node i n hn
      cases hm.symm.trans hn'
      exact hcalm.users.trans (hunused i n hi hn)
    · simp [hgoes.going] at hstopping
  shared i hi := by
    rw [hcalm.shared] at hi
    obtain ⟨n, hn, hserves⟩ := hs.shared i hi
    obtain ⟨n', hn', hnode⟩ := hcalm.node i n hn
    have hserves' := hserves.calm hnode (hs.not_mayEnd hi hn hserves)
    exact ⟨n', hn', hserves'.counted, hserves'.used, hserves'.asked, hserves'.standing⟩
  empty h := hs.empty (hcalm.shared ▸ h)

/-- Where nobody is leaving, no task waits for a loop to end. -/
theorem Sound.not_stopping (hs : c.Sound) (hfree : c.leaving = none) {id : TaskId} {t : Task α}
    (ht : c.host.tasks[id]? = some t) : t.progress.isStopping = false := by
  cases hstopping : t.progress.isStopping with
  | false => rfl
  | true =>
    have hid := (hs.stopping id t ht hstopping).1
    rw [hfree] at hid
    cases hid

/-! ## Joining -/

/-- How many components the shared kernel counts. -/
theorem Sound.counted (hs : c.Sound) :
    c.host.shared?.elim 0 (·.2.users) + c.left + c.forsaken = c.joined := by
  cases hi : c.host.shared with
  | none =>
    obtain ⟨hjoined, hleft, hforsaken⟩ := hs.empty hi
    simp [Host.shared?, hi, hjoined, hleft, hforsaken]
  | some i =>
    obtain ⟨n, hn, hserves⟩ := hs.shared i hi
    rw [Host.shared?_eq_some_iff.2 ⟨hi, n, hn, rfl⟩]
    exact hserves.counted

theorem Sound.join (hs : c.Sound) (hfree : c.leaving = none) (config : Config)
    (transport : Transport) (clock : Clock) : (c.join config transport clock).Sound := by
  have hnobody (id : TaskId) (t : Task α) (ht : c.host.tasks[id]? = some t) :
      ¬ t.progress.isStopping = true := by
    rw [hs.not_stopping hfree ht]
    exact Bool.false_ne_true
  have hcounted := hs.counted
  have husers : (Kernel.opened config transport clock).users = 1 :=
    (Kernel.works_opened config transport clock).eq Kernel.users (by intros; rfl)
  rw [Commons.join]
  split
  next => exact hs
  next h i hok =>
    rcases Host.joinOrStart_eq_ok hok with ⟨hjoins, rfl⟩ | ⟨hnone, rfl, rfl⟩
    · obtain ⟨n, hi, hn, -, hused⟩ := Host.joinable?_eq_some hjoins
      obtain ⟨m, hm, hserves⟩ := hs.shared i hi
      cases hn.symm.trans hm
      have hafter : (c.host.modifyKernel i Kernel.retain).node? i
          = some { n with kernel := n.kernel.retain } := by
        rw [Host.modifyKernel, Host.node?_modifyNode, if_pos rfl, hn]
        rfl
      refine ⟨hs.mild, fun id t ht hstopping => absurd hstopping (hnobody id t ht), fun j hj => ?_,
        fun hj => (nomatch hi.symm.trans hj)⟩
      cases hi.symm.trans hj
      refine ⟨_, hafter, ?_, fun _ => Nat.succ_pos _, fun _ => hserves.asked hused,
        fun _ => hserves.standing hused⟩
      have hbefore := hserves.counted
      simp only [hjoins, Option.isSome_some, if_true, Kernel.retain]
      omega
    · refine ⟨hs.mild, fun id t ht hstopping => absurd hstopping (hnobody id t ht), fun j hj => ?_,
        fun hj => (nomatch hj)⟩
      cases hj
      refine ⟨{ kernel := .opened config transport clock, nextTick := c.host.now },
        (Host.node?_addNode ..).trans (if_pos rfl), ?_, fun _ => husers ▸ Nat.one_pos, fun _ => rfl,
        fun _ => .inr (Kernel.isUp_opened ..)⟩
      simp only [hnone, Option.isSome_none, Bool.false_eq_true, if_false, husers]
      omega

/-! ## Leaving -/

theorem Sound.leave (hs : c.Sound) (hfree : c.leaving = none) (f : Unit → α) :
    (c.leave f).Sound := by
  rw [Commons.leave]
  split
  next => exact hs
  next i k hshared =>
    obtain ⟨hi, n, hn, rfl⟩ := Host.shared?_eq_some_iff.1 hshared
    obtain ⟨m, hm, hserves⟩ := hs.shared i hi
    cases hn.symm.trans hm
    obtain ⟨hstill, p, hmild, hlast, htasks⟩ := Host.call_leaving_cases hn f
    have hafter := Host.node?_call_leaving hn f
    have hused := hserves.used hfree
    have htask {id : TaskId} {t : Task α}
        (ht : (c.host.call i (Host.leaving f)).1.tasks[id]? = some t) :
        c.host.tasks[id]? = some t ∨ id = (c.host.call i (Host.leaving f)).2 ∧ t.progress = p := by
      have hnew : (c.host.call i (Host.leaving f)).2 = c.host.tasks.length := by
        rw [Host.call, hn]
      rw [htasks, List.getElem?_append] at ht
      grind
    refine ⟨fun id t ht => ?_, fun id t ht hstopping => ?_, fun j hj => ?_, fun hj => ?_⟩
    · rcases htask ht with hold | ⟨-, hp⟩
      · exact hs.mild id t hold
      · exact hp ▸ hmild
    · rcases htask ht with hold | ⟨hid, hp⟩
      · simp [hs.not_stopping hfree hold] at hstopping
      · refine ⟨hid ▸ rfl, fun j m hj hm => ?_⟩
        cases hi.symm.trans (hstill.symm.trans hj)
        cases hafter.symm.trans hm
        simp [Kernel.dismiss, hlast (hp ▸ hstopping)]
    · cases hi.symm.trans (hstill.symm.trans hj)
      refine ⟨_, hafter, ?_, (fun h => by cases h), fun hothers => ?_,
        fun _ => hserves.standing hused⟩
      · have hbefore := hserves.counted
        simp only [Kernel.dismiss]
        omega
      · simp only [Kernel.dismiss] at hothers ⊢
        rw [hserves.asked hused, Bool.false_or, decide_eq_false_iff_not]
        omega
    · cases hi.symm.trans (hstill.symm.trans hj)

/-! ## Having left -/

theorem Sound.depart (hs : c.Sound) {id : TaskId} (hid : c.leaving = some id)
    (hover : (c.host.outcome? id).isSome = true) : c.depart.Sound := by
  -- The task of whoever has left was the only one that could wait for a loop to end.
  have hnobody (other : TaskId) (t : Task α) (ht : c.host.tasks[other]? = some t) :
      ¬ t.progress.isStopping = true := by
    intro hstopping
    obtain ⟨hother, -⟩ := hs.stopping other t ht hstopping
    cases hid.symm.trans hother
    rw [Host.outcome?, ht] at hover
    cases hp : t.progress <;> simp_all [Progress.isStopping, Progress.outcome?]
  cases hi : c.host.shared with
  | none =>
    have hforget : c.host.forgetUnused = c.host := by
      simp [Host.forgetUnused, Host.shared?, hi]
    simp only [Commons.depart, hforget, hi, Option.isNone_none, if_true]
    exact ⟨hs.mild, fun id t ht hstopping => absurd hstopping (hnobody id t ht),
      fun j hj => (nomatch hi.symm.trans hj), fun _ => ⟨rfl, rfl, rfl⟩⟩
  | some i =>
    obtain ⟨n, hn, hserves⟩ := hs.shared i hi
    rw [Commons.depart, Host.forgetUnused_eq hi hn]
    by_cases hunused : n.kernel.users = 0
    · simp only [hunused, if_true, Option.isNone_none]
      refine ⟨hs.mild, fun id t ht hstopping => absurd hstopping (hnobody id t ht),
        fun j hj => (nomatch hj), fun _ => ⟨rfl, rfl, rfl⟩⟩
    · simp only [hunused, if_false, hi, Option.isNone_some, Bool.false_eq_true]
      refine ⟨hs.mild, fun id t ht hstopping => absurd hstopping (hnobody id t ht), fun j hj => ?_,
        fun hj => (nomatch hi.symm.trans hj)⟩
      cases hi.symm.trans hj
      exact ⟨n, hn, hserves.counted, fun _ => Nat.pos_of_ne_zero hunused, hserves.asked,
        hserves.standing⟩

/-! ## The shared kernel at all times -/

theorem Step.sound {c' : Commons α} (h : c.Step c') (hs : c.Sound) : c'.Sound := by
  cases h with
  | joins hfree config transport clock => exact hs.join hfree config transport clock
  | leaves hfree f => exact hs.leave hfree f
  | departs hid hover => exact hs.depart hid hover
  | calls i hcall => exact hs.calm (Host.calm_call hcall ..)
  | happens he => exact hs.calm (Host.calm_perform hs.mild he)
  | passes now => exact hs.calm ⟨rfl, fun _ n hn => ⟨n, hn, .refl n⟩, fun _ _ => .inl⟩
  | environment i transport clock => exact hs.calm (.modifyNode fun _ _ => .keeps rfl rfl)
  | holds current => exact hs.calm ⟨rfl, fun _ n hn => ⟨n, hn, .refl n⟩, fun _ _ => .inl⟩

theorem Reachable.sound (h : c.Reachable) : c.Sound := by
  induction h with
  | refl => exact ⟨fun _ _ ht => (nomatch ht), fun _ _ ht => (nomatch ht), fun _ hi => (nomatch hi),
      fun _ => ⟨rfl, rfl, rfl⟩⟩
  | tail _ hlast ih => exact hlast.sound ih

/-- The shared kernel counts all who joined and did not leave, but those whose kernel broke down and
was replaced. It goes on until its transport breaks down or the last that it counts leaves. -/
theorem counts_but_forsaken (h : c.Reachable) (hshared : c.host.shared? = some (i, k)) :
    k.users + c.left + c.forsaken = c.joined ∧ (k.users + c.left = c.joined ↔ c.forsaken = 0) ∧
    (0 < k.users → k.accepts = k.isRunning ∧ (k.isRunning = true ↔ k.transportFailed = false)) ∧
    (c.leaving = none → 0 < k.users ∧ ∀ f, ∃ n, (c.leave f).host.node? i = some n ∧
      (n.stopRequested = true ↔ c.joined = c.left + c.forsaken + 1)) := by
  obtain ⟨hi, n, hn, rfl⟩ := Host.shared?_eq_some_iff.1 hshared
  obtain ⟨m, hm, hserves⟩ := h.sound.shared i hi
  cases hn.symm.trans hm
  have hcounted := hserves.counted
  refine ⟨hcounted, ⟨fun _ => by omega, fun _ => by omega⟩,
    fun hused => Kernel.accepts_eq_isRunning_iff (hserves.standing hused), fun hfree => ?_⟩
  have hused := hserves.used hfree
  refine ⟨hused, fun f => ?_⟩
  rw [Commons.leave, hshared]
  refine ⟨_, Host.node?_call_leaving hn f, ?_⟩
  simp only [hserves.asked hused, Bool.false_or, Kernel.dismiss, decide_eq_true_eq]
  omega

def joinBy (c : Commons Bool) : Commons Bool :=
  c.join { publishAllKeys := false } (.scripted {}) ⟨1000000000⟩

def partners : Commons Bool := ({} : Commons Bool).joinBy.joinBy

theorem Reachable.joinBy {c : Commons Bool} (h : c.Reachable) (hfree : c.leaving = none) :
    c.joinBy.Reachable :=
  .tail h (.joins hfree ..)

theorem reachable_partners : partners.Reachable := Reachable.joinBy (Reachable.joinBy .refl rfl) rfl

/-- When one of two leaves, the kernel goes on. -/
theorem partners_counted : ∃ k, partners.host.shared? = some (0, k) ∧ k.users = 2 ∧
    k.accepts = true ∧ ∀ f, ∃ n, (partners.leave f).host.node? 0 = some n ∧
      ¬ n.stopRequested = true := by
  obtain ⟨k, hshared⟩ : ∃ k, partners.host.shared? = some (0, k) := ⟨_, rfl⟩
  obtain ⟨hcounted, -, hup, hleave⟩ := counts_but_forsaken reachable_partners hshared
  have hjoined : partners.joined = 2 ∧ partners.left = 0 ∧ partners.forsaken = 0 := by
    decide +kernel
  obtain ⟨hjoined, hleft, hforsaken⟩ := hjoined
  have husers : k.users = 2 := by omega
  have hfine : k.transportFailed = false := by
    cases hshared
    rfl
  obtain ⟨haccepts, hrunning⟩ := hup (by omega)
  refine ⟨k, hshared, husers, haccepts.trans (hrunning.2 hfine), fun f => ?_⟩
  obtain ⟨n, hn, hstop⟩ := (hleave rfl).2 f
  exact ⟨n, hn, fun hasked => by have := hstop.1 hasked; omega⟩

/-- The transport of a kernel that two components share breaks down. -/
def bereft : Commons Bool :=
  let broken : Transport := .scripted { isRunning := false }
  let host := partners.host.modifyKernel 0 fun k => { k with transport := broken, clock := k.clock }
  { partners with host := host.perform (.ticks 0) }

theorem reachable_bereft : bereft.Reachable := by
  have hbroken := reachable_partners.tail
    (.environment 0 (.scripted { isRunning := false }) ⟨1000000000⟩)
  refine hbroken.tail (.happens ⟨0, _, rfl, ?_⟩)
  decide +kernel

/-- The shared kernel stays although it has ended. After a third component has started another, the
count is wrong, and the first that leaves ends the kernel of all. -/
theorem not_counted_after_failure :
    (bereft.Reachable ∧ bereft.leaving = none ∧
      ¬ ∀ i k, bereft.host.shared? = some (i, k) → k.isRunning = true) ∧
    (bereft.joinBy.Reachable ∧ ¬ ∀ i k, bereft.joinBy.host.shared? = some (i, k) →
      k.isRunning = true → k.users + bereft.joinBy.left = bereft.joinBy.joined) ∧
    bereft.joinBy.joined = 3 ∧
    ((bereft.joinBy.leave fun _ => true).host.node? 1).map Node.stopRequested = some true := by
  refine ⟨⟨reachable_bereft, rfl, fun h => ?_⟩, ⟨reachable_bereft.joinBy rfl, fun h => ?_⟩,
    by decide +kernel, by decide +kernel⟩
  · exact absurd (h 0 _ rfl) (by decide +kernel)
  · exact absurd (h 1 _ rfl (by decide +kernel)) (by decide +kernel)

end Commons

end Blackboard
