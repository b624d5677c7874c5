import Blackboard.Proofs.Host.Lines

/-!
# What can happen to a host

A host takes steps: a client calls a kernel, a loop does something that it can do, a task goes on that
can go on, time passes, a kernel starts or is joined, or something changes outside. `Reachable` are the
hosts that steps lead to, whatever comes first where several things can happen.
-/

namespace Blackboard

open Kernel (Move)

/-- A call does to a kernel what clients do by themselves, and leaves the rest to its program. -/
def Call.Civil {α : Type} (c : Call α) : Prop :=
  ∀ k, ∃ calls : List Move, (∀ m ∈ calls, m.isCall = true) ∧ (c k).1 = calls.foldl Kernel.after k

theorem Client.civil_running {α : Type} (f : Kernel → Program α) : (running f).Civil := fun _ =>
  ⟨[], by simp, rfl⟩

namespace Host

variable {α : Type} {h h' h'' : Host α} {i j : NodeId} {id : TaskId} {n : Node}

/-! ## What loops do -/

/-- Whoever asks is in line. -/
abbrev InLine (h : Host α) : Prop := h.Lined fun _ => False

theorem InLine.mem_pending_iff (hl : h.InLine) (hn : h.node? i = some n) :
    id ∈ n.pending ↔ h.Asks i id := (hl.mem_iff i n hn id).trans (and_iff_right not_false)

/-- The line at a loop, with the requests. -/
theorem requests_fst (hl : h.InLine) (hn : h.node? i = some n) :
    (h.requests n).map Prod.fst = n.pending := by
  have hasks : ∀ id ∈ n.pending, h.Asks i id := fun id => (hl.mem_pending_iff hn).1
  rw [requests]
  generalize n.pending = ids at hasks
  induction ids with
  | nil => rfl
  | cons id rest ih =>
    obtain ⟨t, ht, -, hr⟩ := hasks id List.mem_cons_self
    obtain ⟨r, hr⟩ := Option.isSome_iff_exists.1 hr
    have hfirst : (h.tasks[id]?.bind fun t => t.progress.request?).map (id, ·) = some (id, r) := by
      rw [ht, Option.bind_some, hr, Option.map_some]
    simp only [List.filterMap_cons, hfirst, List.map_cons]
    rw [ih fun x hx => hasks x (List.mem_cons_of_mem _ hx)]

/-- Replies to all requests in line are owed to the tasks there. -/
theorem owed_of_requests (hl : h.InLine) (hn : h.node? i = some n) {f : Node → Node}
    {replies : List (TaskId × Reply)}
    (hsame : replies.map (fun r => (r.1, r.2.request)) = h.requests n) :
    (h.modifyNode i f).Owed i replies ∧ replies.map Prod.fst = n.pending := by
  have hids : replies.map Prod.fst = n.pending := by
    rw [← requests_fst hl hn, ← hsame, List.map_map]
    rfl
  refine ⟨⟨⟨f n, ?_⟩, hids ▸ hl.nodup i n hn, fun r hr => ?_⟩, hids⟩
  · exact node?_modifyNode_self hn _
  · have hmem : (r.1, r.2.request) ∈ h.requests n := hsame ▸ List.mem_map_of_mem hr
    obtain ⟨id, hid, heq⟩ := List.mem_filterMap.1 hmem
    obtain ⟨t, ht, hi, -⟩ := (hl.mem_pending_iff hn).1 hid
    rw [ht, Option.bind_some, Option.map_eq_some_iff] at heq
    obtain ⟨request, hrequest, heq⟩ := heq
    cases heq
    exact ⟨t, ht, hi, hrequest⟩

/-- All in line are taken out, and get replies. -/
theorem lined_deliverAll (hl : h.InLine) (hn : h.node? i = some n) {f : Node → Node}
    (hf : (f n).pending = []) {replies : List (TaskId × Reply)}
    (hsame : replies.map (fun r => (r.1, r.2.request)) = h.requests n) :
    ((h.modifyNode i f).deliverAll i replies).InLine := by
  obtain ⟨howed, hids⟩ := owed_of_requests (f := f) hl hn hsame
  refine howed.lined ?_
  rw [hids]
  refine hl.modifyNode (fun m hm => ?_) (fun m hm x => ?_) fun j x hj hx => ?_
  · cases hn.symm.trans hm
    rw [hf]
    exact List.nodup_nil
  · cases hn.symm.trans hm
    rw [hf, hl.mem_pending_iff hn]
    simp
  · exact iff_of_false (fun hmem => hj (hx.node_unique ((hl.mem_pending_iff hn).1 hmem))) id

/-- A change of a loop that leaves its line as it is. -/
theorem lined_modifyNode (hl : h.InLine) {f : Node → Node}
    (hf : ∀ n, h.node? i = some n → (f n).pending = n.pending) : (h.modifyNode i f).InLine :=
  hl.modifyNode (fun n hn => hf n hn ▸ hl.nodup i n hn)
    (fun n hn x => (hf n hn).symm ▸ hl.mem_iff i n hn x) fun _ _ _ _ => Iff.rfl

theorem turns_deliverAll (hl : h.InLine) (hn : h.node? i = some n) {f : Node → Node}
    (hf : n.Turn (f n)) {replies : List (TaskId × Reply)}
    (hsame : replies.map (fun r => (r.1, r.2.request)) = h.requests n) :
    h.Turns ((h.modifyNode i f).deliverAll i replies) :=
  (Turns.modifyNode_of_turn hn hf).trans (owed_of_requests (f := f) hl hn hsame).1.turns

theorem zip_requests (waiting : List (TaskId × Request)) {replies : List Reply}
    (h : replies.map Reply.request = waiting.map Prod.snd) :
    ((waiting.map Prod.fst).zip replies).map (fun r => (r.1, r.2.request)) = waiting := by
  have hzip : ((waiting.map Prod.fst).zip replies).map (fun r => (r.1, r.2.request))
      = (waiting.map Prod.fst).zip (replies.map Reply.request) := by
    rw [List.zip_map_right]
    rfl
  rw [hzip, h, ← List.unzip_fst, ← List.unzip_snd, List.zip_unzip]

/-- A refusal for each of those in line. -/
theorem refused_requests (waiting : List (TaskId × Request)) (e : KernelError) :
    (waiting.map fun w => (w.1, (⟨w.2, .error e⟩ : Reply))).map (fun r => (r.1, r.2.request))
      = waiting := List.map_map.trans (List.map_id _)

theorem serve_of_pending (hl : h.InLine) (hn : h.node? i = some n) {rest : List TaskId}
    (hpending : n.pending = id :: rest) : ∃ t r, h.tasks[id]? = some t ∧ t.node = i ∧
      t.progress.request? = some r ∧
      h.serve i = (h.modifyNode i fun m =>
        { m with kernel := n.kernel.after (.serve r), pending := m.pending.drop 1 }).deliver i id
          ⟨r, (n.kernel.serveNext r).2⟩ := by
  have hid : id ∈ n.pending := hpending ▸ List.mem_cons_self
  obtain ⟨t, ht, hi, hr⟩ := (hl.mem_pending_iff hn).1 hid
  obtain ⟨r, hr⟩ := Option.isSome_iff_exists.1 hr
  refine ⟨t, r, ht, hi, hr, ?_⟩
  have hrequests : h.requests { n with pending := n.pending.take 1 } = [(id, r)] := by
    simp [requests, hpending, ht, hr]
  rw [serve, hn]
  dsimp only
  rw [hrequests]
  rfl

theorem serve_of_nil (hn : h.node? i = some n) (hpending : n.pending = []) :
    h.serve i = h.modifyNode i fun m => { m with pending := m.pending.drop 1 } := by
  have hrequests : h.requests { n with pending := n.pending.take 1 } = [] := by
    simp [requests, hpending]
  rw [serve, hn]
  dsimp only
  rw [hrequests]

theorem serve_orderly (hl : h.InLine) (hn : h.node? i = some n) (hphase : n.phase ≠ .ended) :
    h.Turns (h.serve i) ∧ (h.serve i).InLine := by
  cases hpending : n.pending with
  | nil =>
    rw [serve_of_nil hn hpending]
    refine ⟨.modifyNode_of_turn hn (.line _ n.stopRequested (.inr (.inl hphase))), ?_⟩
    refine hl.modifyNode (fun m hm => (hl.nodup i m hm).sublist (List.drop_sublist ..))
      (fun m hm x => ?_) fun _ _ _ _ => Iff.rfl
    cases hn.symm.trans hm
    rw [← hl.mem_iff i n hn x, hpending, List.drop_nil]
  | cons id rest =>
    obtain ⟨t, r, ht, hi, hr, hserve⟩ := serve_of_pending hl hn hpending
    have hid : h.Asks i id := ⟨t, ht, hi, Option.isSome_of_eq_some hr⟩
    let replies : List (TaskId × Reply) := [(id, ⟨r, (n.kernel.serveNext r).2⟩)]
    let f (m : Node) : Node :=
      { m with kernel := n.kernel.after (.serve r), pending := m.pending.drop 1 }
    have howed : (h.modifyNode i f).Owed i replies := by
      refine ⟨⟨f n, ?_⟩, List.nodup_singleton id, fun x hx => ?_⟩
      · exact node?_modifyNode_self hn _
      · cases List.mem_singleton.1 hx
        exact ⟨t, ht, hi, hr⟩
    have hout : (h.modifyNode i f).Lined (· ∈ replies.map Prod.fst) := by
      refine hl.modifyNode (fun m hm => (hl.nodup i m hm).sublist (List.drop_sublist ..))
        (fun m hm x => ?_) fun j x hj hx => ?_
      · cases hn.symm.trans hm
        have hnodup := hl.nodup i n hn
        rw [hpending] at hnodup
        have hmem : x ∈ n.pending ↔ h.Asks i x := hl.mem_pending_iff hn
        rw [hpending] at hmem
        show x ∈ n.pending.drop 1 ↔ _
        rw [hpending, ← hmem]
        by_cases hx : x = id
        · simpa [hx, replies] using (List.nodup_cons.1 hnodup).1
        · simp [hx, replies]
      · refine iff_of_false (fun hmem => ?_) not_false
        exact hj (hx.node_unique (List.mem_singleton.1 hmem ▸ hid))
    have hturn : n.Turn (f n) := .serve r (n.pending.drop 1) hphase
    rw [hserve]
    exact ⟨(Turns.modifyNode_of_turn hn hturn).trans howed.turns, howed.lined hout⟩

theorem finish_orderly (hl : h.InLine) (hn : h.node? i = some n) (hphase : n.phase ≠ .ended)
    (why : Kernel.Ending) : h.Turns (h.finish i why) ∧ (h.finish i why).InLine := by
  have hsame := zip_requests (h.requests n)
    (n.kernel.finish_requests why ((h.requests n).map Prod.snd))
  rw [finish, hn]
  exact ⟨turns_deliverAll hl hn (.finish why _ hphase) hsame, lined_deliverAll hl hn rfl hsame⟩

theorem abort_orderly (hl : h.InLine) (hn : h.node? i = some n) (hphase : n.phase ≠ .ended) :
    h.Turns (h.abort i) ∧ (h.abort i).InLine := by
  have hsame := refused_requests (h.requests n) n.kernel.abort.stoppedError
  rw [abort, hn]
  exact ⟨turns_deliverAll hl hn (.abort hphase) hsame, lined_deliverAll hl hn rfl hsame⟩

theorem endTick_orderly (hl : h.InLine) (hn : h.node? i = some n) (hphase : n.phase ≠ .ended) :
    h.Turns (h.endTick i) ∧ (h.endTick i).InLine := by
  let f (m : Node) : Node := { m with kernel := n.kernel.endTick.1, phase := .idle }
  have hturns : h.Turns (h.modifyNode i f) := .modifyNode_of_turn hn (.endTick hphase)
  have hlined : (h.modifyNode i f).InLine := lined_modifyNode hl fun _ _ => rfl
  have hafter : (h.modifyNode i f).node? i = some (f n) := by
    exact node?_modifyNode_self hn _
  rw [endTick, hn]
  dsimp only
  split
  next => exact ⟨hturns, hlined⟩
  next =>
    obtain ⟨hfinish, hline⟩ := finish_orderly hlined hafter (fun h => nomatch h) .transportStopped
    exact ⟨hturns.trans hfinish, hline⟩

theorem tick_orderly (hl : h.InLine) (hn : h.node? i = some n) (hphase : n.phase ≠ .ended) :
    h.Turns (h.tick i) ∧ (h.tick i).InLine := by
  let f (m : Node) : Node := { m with
    kernel := n.kernel.beginTick,
    nextTick := tickAfter n.nextTick n.kernel.beginTick.config.tickPeriod.nanos h.now }
  have hturns : h.Turns (h.modifyNode i f) := .modifyNode_of_turn hn (.beginTick _ hphase)
  have hlined : (h.modifyNode i f).InLine := lined_modifyNode hl fun _ _ => rfl
  have hafter : (h.modifyNode i f).node? i = some (f n) := by
    exact node?_modifyNode_self hn _
  rw [tick, hn]
  dsimp only
  split
  next =>
    exact ⟨hturns.trans (.modifyNode_of_turn hafter (.stall hphase)),
      lined_modifyNode hlined fun _ _ => rfl⟩
  next =>
    obtain ⟨hend, hline⟩ := endTick_orderly hlined hafter hphase
    exact ⟨hturns.trans hend, hline⟩

/-! ## What tasks do -/

theorem goOn_of_node (hn : h.node? i = some n) (id : TaskId) (p : Program α) :
    h.goOn i id p = h.proceed n i id p := by rw [goOn, hn]

/-- A task that has nothing in line goes on. -/
theorem advance_orderly (hl : h.InLine) {t : Task α} (ht : h.tasks[id]? = some t) (hi : t.node = i)
    (hp : t.progress.request? = none) (hadv : h.Advances i id h') : h.Turns h' ∧ h'.InLine := by
  refine ⟨hadv.turns, ?_⟩
  have hid (j : NodeId) : ¬ h.Asks j id := by
    rintro ⟨t', ht', -, hr⟩
    cases ht.symm.trans ht'
    rw [hp] at hr
    cases hr
  exact ((hl.excepting hid).advance (.inr rfl) ht hi hadv).congr fun x => by simp

theorem abort_task? (hl : h.InLine) (hn : h.node? i = some n) (hid : ¬ h.Asks i id) :
    (h.abort i).tasks[id]? = h.tasks[id]? := by
  have hsame := refused_requests (h.requests n) n.kernel.abort.stoppedError
  obtain ⟨howed, hids⟩ := owed_of_requests
    (f := fun m => { m with kernel := n.kernel.abort, phase := .ended, pending := [] }) hl hn hsame
  rw [abort, hn]
  exact howed.task?_of_not_mem (hids ▸ mt (hl.mem_pending_iff hn).1 hid)

theorem wake_orderly (hl : h.InLine) (id : TaskId) : h.Turns (h.wake id) ∧ (h.wake id).InLine := by
  rw [wake]
  cases ht : h.tasks[id]? with
  | none => exact ⟨.refl h, hl⟩
  | some t =>
    dsimp only
    have hgoes {h' : Host α} {p : Program α} (hl' : h'.InLine) (ht' : h'.tasks[id]? = some t)
        (hp : t.progress.request? = none) :
        h'.Turns (h'.goOn t.node id p) ∧ (h'.goOn t.node id p).InLine := by
      obtain ⟨n', hn'⟩ := Option.isSome_iff_exists.1 (hl'.housed id t ht')
      rw [goOn_of_node hn']
      exact advance_orderly hl' ht' rfl hp (advances_proceed hn' id p)
    split
    next n p since _ hn hp =>
      exact advance_orderly hl ht rfl (by rw [hp]; rfl) (advances_attempt hn id p since)
    next n ticket deadline next hn hp =>
      let f (m : Node) : Node := { m with kernel := n.kernel.after (.acknowledge ticket) }
      have hturns : h.Turns (h.modifyNode t.node f) :=
        .modifyNode_of_turn hn (.call (m := .acknowledge ticket) rfl)
      have hlined : (h.modifyNode t.node f).InLine := lined_modifyNode hl fun _ _ => rfl
      obtain ⟨hnext, hline⟩ := hgoes (p := next _) hlined ht (by rw [hp]; rfl)
      exact ⟨hturns.trans hnext, hline⟩
    next n next hn hp => exact hgoes hl ht (by rw [hp]; rfl)
    next n deadline next hn hp =>
      have hquiet : t.progress.request? = none := by rw [hp]; rfl
      by_cases hphase : n.phase = .ended
      · rw [if_pos hphase]
        exact hgoes hl ht hquiet
      · rw [if_neg hphase]
        obtain ⟨hturns, hlined⟩ := abort_orderly hl hn hphase
        have hid : ¬ h.Asks t.node id := by
          rintro ⟨t', ht', -, hr⟩
          cases ht.symm.trans ht'
          rw [hquiet] at hr
          cases hr
        obtain ⟨hnext, hline⟩ := hgoes (p := next) hlined ((abort_task? hl hn hid).trans ht) hquiet
        exact ⟨hturns.trans hnext, hline⟩
    next => exact ⟨.refl h, hl⟩

/-- A task is added that is not in line. -/
theorem lined_addTask (hl : h.InLine) {t : Task α} (hnode : (h.node? t.node).isSome = true)
    (hp : t.progress.request? = none) : Lined { h with tasks := h.tasks ++ [t] } fun _ => False := by
  have htask (id : TaskId) : (h.tasks ++ [t])[id]?
      = if id = h.tasks.length then some t else h.tasks[id]? := by
    rw [List.getElem?_append]
    grind
  have hasks (j : NodeId) (id : TaskId) :
      Asks { h with tasks := h.tasks ++ [t] } j id ↔ h.Asks j id := by
    rw [Asks, Asks, htask]
    split
    next heq => simp [heq, hp]
    next => rfl
  refine ⟨hl.nodup, fun j n hn id => ?_, fun id t' ht' => ?_⟩
  · rw [hasks]
    exact hl.mem_iff j n hn id
  · rw [htask] at ht'
    split at ht'
    next =>
      cases ht'
      exact hnode
    next => exact hl.housed id t' ht'

/-- A host in which a call was made and its program has not begun. -/
def calling (h : Host α) (i : NodeId) (n : Node) : Host α :=
  { h.modifyNode i fun _ => n with
    tasks := h.tasks ++ [⟨i, .finished (.error .notRunning)⟩] }

theorem call_of_node (hn : h.node? i = some n) {c : Call α} {n' : Node}
    (hn' : n' = { n with kernel := (c n.kernel).1 }) :
    (h.call i c).1 = (h.calling i n').proceed n' i h.tasks.length (c n.kernel).2 ∧
      (h.calling i n').node? i = some n' := by
  subst hn'
  exact ⟨by rw [call, hn]; rfl, node?_modifyNode_self hn _⟩

theorem task?_calling (h : Host α) (i : NodeId) (n : Node) :
    (h.calling i n).tasks[h.tasks.length]? = some ⟨i, .finished (.error .notRunning)⟩ :=
  List.getElem?_concat_length

theorem call_orderly (hl : h.InLine) (i : NodeId) {c : Call α} (hc : c.Civil) :
    h.Turns (h.call i c).1 ∧ (h.call i c).1.InLine := by
  cases hn : h.node? i with
  | none =>
    rw [call, hn]
    exact ⟨.refl h, hl⟩
  | some n =>
    obtain ⟨calls, hcalls, hkernel⟩ := hc n.kernel
    let n' : Node := { n with kernel := (c n.kernel).1 }
    have hturns : h.Turns (h.modifyNode i fun _ => n') := .modifyNode fun m hm => by
      cases hn.symm.trans hm
      have hcalled := Node.Turns.of_calls n hcalls
      rwa [← hkernel] at hcalled
    have hlined : (h.modifyNode i fun _ => n').InLine :=
      lined_modifyNode hl fun m hm => by cases hn.symm.trans hm; rfl
    obtain ⟨hcall, hnew⟩ := call_of_node hn (c := c) (rfl : n' = _)
    have hadded : (h.calling i n').InLine := lined_addTask hlined (Option.isSome_of_eq_some hnew) rfl
    obtain ⟨hnext, hline⟩ := advance_orderly hadded (h.task?_calling i n') rfl rfl
      (advances_proceed hnew h.tasks.length (c n.kernel).2)
    rw [hcall]
    exact ⟨hturns.trans ((Turns.of_nodes_eq rfl).trans hnext), hline⟩

/-! ## Steps -/

/-- Something that can happen: what a loop does next, or a task that is ready. -/
def Enabled (h : Host α) : Happening → Prop
  | .goesOn id => ∃ t, h.tasks[id]? = some t ∧ h.isReady t = true
  | e => ∃ i n, h.node? i = some n ∧ h.nextOfNode? i n = some e

/-- A host takes a step. -/
inductive Step (h : Host α) : Host α → Prop
  | call (i : NodeId) {c : Call α} (hc : c.Civil) : Step h (h.call i c).1
  | happens {e : Happening} (he : h.Enabled e) : Step h (h.perform e)
  | passes (now : Moment) : Step h { h with now }
  | starts {config : Config} {transport : Transport} {clock : Clock} {h' : Host α} {i : NodeId}
    (hstart : h.start config transport clock = .ok (h', i)) : Step h h'
  | joins (i : NodeId) : Step h (h.modifyKernel i Kernel.retain)
  | environment (i : NodeId) (transport : Transport) (clock : Clock) :
    Step h (h.modifyKernel i fun k => { k with transport, clock })
  | holds (current shared : Option NodeId) : Step h { h with current, shared }

/-- Steps lead from one host to another. -/
def Leads : Host α → Host α → Prop := Relation.ReflTransGen Step

/-- Steps lead to this host from an empty one. -/
def Reachable (h : Host α) : Prop := Leads {} h

/-- What a loop does next is about the loop itself, and it has not ended. -/
theorem nextOfNode?_cases {e : Happening} (he : h.nextOfNode? i n = some e) :
    n.phase ≠ .ended ∧
      (e = .serves i ∨ e = .ticks i ∨ e = .resumes i ∨ ∃ why, e = .ends i why) := by
  rw [nextOfNode?] at he
  cases hphase : n.phase with
  | ended => simp [hphase] at he
  | stalled => grind
  | idle => grind

theorem enabled_of_nextOfNode? (hn : h.node? i = some n) {e : Happening}
    (he : h.nextOfNode? i n = some e) : h.Enabled e := by
  obtain ⟨-, rfl | rfl | rfl | ⟨why, rfl⟩⟩ := nextOfNode?_cases he
  all_goals exact ⟨i, n, hn, he⟩

/-- What comes next is something that can happen. -/
theorem enabled_of_next? {e : Happening} (he : h.next? = some e) : h.Enabled e := by
  rw [next?, Option.or_eq_some_iff] at he
  rcases he with hloop | ⟨-, htask⟩
  · obtain ⟨⟨n, i⟩, hmem, hnext⟩ := List.exists_of_findSome?_eq_some hloop
    exact enabled_of_nextOfNode? (List.mk_mem_zipIdx_iff_getElem?.1 hmem) hnext
  · obtain ⟨⟨t, id⟩, hmem, hready⟩ := List.exists_of_findSome?_eq_some htask
    dsimp only at hready
    split at hready
    next hr =>
      cases hready
      exact ⟨t, List.mk_mem_zipIdx_iff_getElem?.1 hmem, hr⟩
    next => cases hready

theorem Leads.refl (h : Host α) : h.Leads h := Relation.ReflTransGen.refl

/-! ## What every step keeps -/

/-- All loops are sound, and whoever asks is in line. -/
structure Orderly (h : Host α) : Prop where
  sound : h.Sound
  lined : h.InLine

theorem perform_orderly (hl : h.InLine) {e : Happening} (he : h.Enabled e) :
    h.Turns (h.perform e) ∧ (h.perform e).InLine := by
  have hloop {j : NodeId} {m : Node} (hm : h.node? j = some m) (hnext : h.nextOfNode? j m = some e) :
      h.Turns (h.perform e) ∧ (h.perform e).InLine := by
    obtain ⟨hphase, rfl | rfl | rfl | ⟨why, rfl⟩⟩ := nextOfNode?_cases hnext
    · exact serve_orderly hl hm hphase
    · exact tick_orderly hl hm hphase
    · exact endTick_orderly hl hm hphase
    · exact finish_orderly hl hm hphase why
  cases e with
  | goesOn id => exact wake_orderly hl id
  | serves _ | ticks _ | resumes _ | ends _ _ =>
    obtain ⟨j, m, hm, hnext⟩ := he
    exact hloop hm hnext

theorem start_eq_ok {config : Config} {transport : Transport} {clock : Clock}
    (hstart : h.start config transport clock = .ok (h', i)) :
    Kernel.start config transport clock = .ok (.opened config transport clock) ∧
      i = h.nodes.length ∧ h' = { h with nodes := h.nodes ++
        [{ kernel := .opened config transport clock, nextTick := h.now }] } := by
  cases hkernel : Kernel.start config transport clock with
  | error e => simp [start, hkernel, bind, Except.bind] at hstart
  | ok k =>
    obtain ⟨-, -, rfl⟩ := Kernel.start_eq_ok_iff.1 hkernel
    simp only [start, hkernel, bind, Except.bind, pure, Except.pure, Except.ok.injEq,
      Prod.mk.injEq] at hstart
    exact ⟨rfl, hstart.2.symm, hstart.1.symm⟩

theorem node?_addNode (h : Host α) (n : Node) (j : NodeId) :
    node? { h with nodes := h.nodes ++ [n] } j
      = if j = h.nodes.length then some n else h.node? j := by
  rw [node?, node?, List.getElem?_append]
  grind

/-- A loop is added, and no task is there yet. -/
theorem orderly_addNode (ho : h.Orderly) (hs : n.Sound) (hpending : n.pending = []) :
    Orderly { h with nodes := h.nodes ++ [n] } := by
  have hold (j : NodeId) (hj : (h.node? j).isSome = true) : j ≠ h.nodes.length := by
    rintro rfl
    simp [node?] at hj
  refine ⟨fun j m hm => ?_, fun j m hm => ?_, fun j m hm id => ?_, fun id t ht => ?_⟩
  · rw [node?_addNode] at hm
    split at hm
    next => cases hm; exact hs
    next => exact ho.sound j m hm
  · rw [node?_addNode] at hm
    split at hm
    next => cases hm; rw [hpending]; exact List.nodup_nil
    next => exact ho.lined.nodup j m hm
  · rw [node?_addNode] at hm
    split at hm
    next hj =>
      cases hm
      rw [hpending]
      refine iff_of_false List.not_mem_nil fun hasks => ?_
      obtain ⟨t, ht, hi, -⟩ := hasks.2
      exact hold t.node (ho.lined.housed id t ht) (hi.trans hj)
    next => exact ho.lined.mem_iff j m hm id
  · have hsome := ho.lined.housed id t ht
    rw [node?_addNode, if_neg (hold t.node hsome)]
    exact hsome

/-- A step that starts no kernel takes each loop through some turns and keeps the lines. -/
theorem Step.turns_or_starts (hstep : h.Step h') (hl : h.InLine) : (h.Turns h' ∧ h'.InLine) ∨
    ∃ config transport clock i, h.start config transport clock = .ok (h', i) := by
  cases hstep with
  | call i hc => exact .inl (call_orderly hl i hc)
  | happens he => exact .inl (perform_orderly hl he)
  | passes now => exact .inl ⟨.of_nodes_eq rfl, hl.nodup, hl.mem_iff, hl.housed⟩
  | starts hstart => exact .inr ⟨_, _, _, _, hstart⟩
  | joins i =>
    exact .inl ⟨.modifyNode fun n _ => .of_turn (.call (m := .retain) rfl),
      lined_modifyNode hl fun _ _ => rfl⟩
  | environment i transport clock =>
    exact .inl ⟨.modifyNode fun n _ => .of_turn (.environment transport clock),
      lined_modifyNode hl fun _ _ => rfl⟩
  | holds current shared => exact .inl ⟨.of_nodes_eq rfl, hl.nodup, hl.mem_iff, hl.housed⟩

theorem Step.orderly (hstep : h.Step h') (ho : h.Orderly) : h'.Orderly := by
  rcases hstep.turns_or_starts ho.lined with ⟨hturns, hl⟩ | ⟨_, _, _, _, hstart⟩
  · exact ⟨hturns.sound ho.sound, hl⟩
  · obtain ⟨-, -, rfl⟩ := start_eq_ok hstart
    exact orderly_addNode ho (.opened ..) rfl

theorem Step.exists_node (hstep : h.Step h') (ho : h.Orderly) (hn : h.node? j = some n) :
    ∃ n', h'.node? j = some n' ∧ n.Turns n' := by
  rcases hstep.turns_or_starts ho.lined with ⟨hturns, -⟩ | ⟨_, _, _, _, hstart⟩
  · exact hturns.exists_node hn
  · obtain ⟨-, -, rfl⟩ := start_eq_ok hstart
    have hj : j ≠ h.nodes.length := by
      rintro rfl
      simp [node?] at hn
    exact ⟨n, (node?_addNode ..).trans ((if_neg hj).trans hn), .refl n⟩

theorem Leads.orderly (hleads : h.Leads h') (ho : h.Orderly) : h'.Orderly := by
  induction hleads with
  | refl => exact ho
  | tail _ hlast ih => exact hlast.orderly ih

/-- A loop that there is goes through turns for ever. -/
theorem Leads.exists_node (hleads : h.Leads h') (ho : h.Orderly) (hn : h.node? j = some n) :
    ∃ n', h'.node? j = some n' ∧ n.Turns n' := by
  induction hleads with
  | refl => exact ⟨n, hn, .refl n⟩
  | tail hbefore hlast ih =>
    obtain ⟨m, hm, hfirst⟩ := ih
    obtain ⟨n', hn', hlater⟩ := hlast.exists_node (Leads.orderly hbefore ho) hm
    exact ⟨n', hn', hfirst.trans hlater⟩

theorem Reachable.orderly (hr : h.Reachable) : h.Orderly :=
  Leads.orderly hr ⟨fun _ _ hn => (nomatch hn), fun _ _ hn => (nomatch hn),
    fun _ _ hn => (nomatch hn), fun _ _ ht => (nomatch ht)⟩

end Host

end Blackboard
