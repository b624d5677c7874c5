import Blackboard.Proofs.Host.Loops

/-!
# The tasks in line

The tasks that wait in line at a loop are the ones whose request it has not answered, each in line
once. While the loop hands out replies this fails for the tasks that are being answered, so `Lined`
leaves some tasks out, and each reply brings one of them back.
-/

namespace Blackboard.Host

variable {α : Type} {h h' h'' : Host α} {i j : NodeId} {id other : TaskId} {n : Node}

/-! ## Tasks going on -/

/-- One task at a loop goes on until it has to wait again, and no other task does. -/
inductive Advances (h : Host α) (i : NodeId) (id : TaskId) : Host α → Prop
  | asks (p : Progress α) (hp : p.request?.isSome = true)
    (haccepts : ∀ n, h.node? i = some n → n.kernel.accepts = true) :
    Advances h i id (h.enqueue i id p)
  | rests (p : Progress α) (hp : p.request? = none) : Advances h i id (h.setProgress id p)
  | stops (p : Progress α) (hp : p.request? = none) :
    Advances h i id ((h.setProgress id p).modifyNode i fun n => { n with stopRequested := true })

theorem advances_attempt (hn : h.node? i = some n) (id : TaskId) (p : Poll α) (since : Moment) :
    h.Advances i id (h.attempt n i id p since) := by
  rw [attempt]
  split
  next haccepts =>
    refine .asks _ rfl fun m hm => ?_
    cases hn.symm.trans hm
    exact haccepts
  next => exact .rests _ rfl

theorem advances_proceed (hn : h.node? i = some n) (id : TaskId) (p : Program α) :
    h.Advances i id (h.proceed n i id p) := by
  induction p with
  | done outcome => exact .rests _ rfl
  | ask r next ih =>
    rw [proceed]
    split
    next haccepts =>
      refine .asks _ rfl fun m hm => ?_
      cases hn.symm.trans hm
      exact haccepts
    next => exact ih _
  | poll p => exact advances_attempt hn id p h.now
  | awaitAck ticket next => exact .rests _ rfl
  | awaitStop next => exact .rests _ rfl
  | stop next ih =>
    rw [proceed]
    split
    next => exact ih
    next => exact .stops _ rfl

theorem advances_settlePoll (h : Host α) (i : NodeId) (n : Node) (id : TaskId) (p : Poll α)
    (since : Moment) (answer : Except KernelError p.request.Answer) :
    h.Advances i id (h.settlePoll n id p since answer) := by
  rw [settlePoll]
  split <;> exact .rests _ rfl

/-- A task whose request is answered goes on. -/
theorem advances_deliver {t : Task α} {reply : Reply} (ht : h.tasks[id]? = some t)
    (hn : h.node? i = some n) (hr : t.progress.request? = some reply.request) :
    h.Advances i id (h.deliver i id reply) := by
  rw [deliver, ht, hn]
  cases hp : t.progress with
  | asking r next =>
    rw [hp] at hr
    have hsame : reply.request = r := (Option.some.inj hr).symm
    simp only [hp, hsame, dite_true]
    exact advances_proceed hn id _
  | polling p since =>
    rw [hp] at hr
    have hsame : reply.request = p.request := (Option.some.inj hr).symm
    simp only [hp, hsame, dite_true]
    exact advances_settlePoll h i n id p since _
  | resting _ _ _ | awaitingAck _ _ _ | awaitingStop _ | stopping _ _ | finished _ =>
    rw [hp] at hr
    cases hr

namespace Advances

theorem turns (hadv : h.Advances i id h') : h.Turns h' := by
  cases hadv with
  | asks p hp haccepts =>
    refine .trans (.of_nodes_eq rfl) (.modifyNode fun n hn => ?_)
    exact .of_turn (.line _ n.stopRequested (.inl (haccepts n hn)))
  | rests p hp => exact .of_nodes_eq rfl
  | stops p hp =>
    refine .trans (.of_nodes_eq rfl) (.modifyNode fun n _ => ?_)
    exact .of_turn (.line n.pending true (.inr (.inr rfl)))

theorem kernel?_eq (hadv : h.Advances i id h') (j : NodeId) : h'.kernel? j = h.kernel? j := by
  have hmodified {h : Host α} {f : Node → Node} (hf : ∀ n, (f n).kernel = n.kernel) :
      (h.modifyNode i f).kernel? j = h.kernel? j := by
    rw [kernel?, kernel?, node?_modifyNode]
    split
    next => simp [Function.comp_def, hf]
    next => rfl
  cases hadv with
  | asks p hp haccepts => exact hmodified fun _ => rfl
  | rests p hp => rfl
  | stops p hp => exact hmodified fun _ => rfl

theorem now_eq (hadv : h.Advances i id h') : h'.now = h.now := by
  cases hadv <;> rfl

theorem task?_eq (hadv : h.Advances i id h') : ∃ p : Progress α, ∀ other,
    h'.tasks[other]? = if id = other then h.tasks[other]?.map fun t => { t with progress := p }
      else h.tasks[other]? := by
  cases hadv with
  | asks p hp haccepts => exact ⟨p, fun other => h.task?_setProgress id other p⟩
  | rests p hp => exact ⟨p, fun other => h.task?_setProgress id other p⟩
  | stops p hp => exact ⟨p, fun other => h.task?_setProgress id other p⟩

theorem task?_of_ne (hadv : h.Advances i id h') (hne : other ≠ id) :
    h'.tasks[other]? = h.tasks[other]? := by
  obtain ⟨p, hp⟩ := hadv.task?_eq
  rw [hp, if_neg (Ne.symm hne)]

end Advances

/-! ## Lines -/

/-- A task at a loop has a request that was not answered. -/
def Asks (h : Host α) (i : NodeId) (id : TaskId) : Prop :=
  ∃ t, h.tasks[id]? = some t ∧ t.node = i ∧ t.progress.request?.isSome = true

/-- In line are the tasks that ask, each once, apart from some that are just taken out of it. -/
structure Lined (h : Host α) (busy : TaskId → Prop) : Prop where
  nodup : ∀ i n, h.node? i = some n → n.pending.Nodup
  mem_iff : ∀ i n, h.node? i = some n → ∀ id, id ∈ n.pending ↔ ¬ busy id ∧ h.Asks i id
  /-- Every task is at a loop that there is. -/
  housed : ∀ (id : TaskId) (t : Task α), h.tasks[id]? = some t → (h.node? t.node).isSome = true

/-- A task is at one loop. -/
theorem Asks.node_unique (hi : h.Asks i id) (hj : h.Asks j id) : i = j := by
  obtain ⟨t, ht, hi, -⟩ := hi
  obtain ⟨t', ht', hj, -⟩ := hj
  cases ht.symm.trans ht'
  exact hi.symm.trans hj

theorem asks_setProgress (h : Host α) (i : NodeId) (id other : TaskId) (p : Progress α) :
    (h.setProgress id p).Asks i other ↔ if id = other
      then (∃ t, h.tasks[id]? = some t ∧ t.node = i) ∧ p.request?.isSome = true
      else h.Asks i other := by
  rw [Asks, task?_setProgress]
  by_cases hid : id = other
  · subst hid
    simp only [if_true, Option.map_eq_some_iff]
    constructor
    · rintro ⟨_, ⟨t, ht, rfl⟩, hi, hp⟩
      exact ⟨⟨t, ht, hi⟩, hp⟩
    · rintro ⟨⟨t, ht, hi⟩, hp⟩
      exact ⟨_, ⟨t, ht, rfl⟩, hi, hp⟩
  · simp only [if_neg hid]
    rfl

namespace Lined

variable {busy busy' : TaskId → Prop}

theorem congr (hl : h.Lined busy) (hbusy : ∀ id, busy' id ↔ busy id) : h.Lined busy' :=
  ⟨hl.nodup, fun i n hn id =>
    (hl.mem_iff i n hn id).trans (and_congr_left' (not_congr (hbusy id).symm)), hl.housed⟩

/-- A task that does not ask may as well be taken out. -/
theorem excepting (hl : h.Lined busy) (hid : ∀ i, ¬ h.Asks i id) :
    h.Lined fun x => busy x ∨ x = id where
  nodup := hl.nodup
  housed := hl.housed
  mem_iff j n hn x := by
    rw [hl.mem_iff j n hn x, not_or]
    constructor
    · rintro ⟨hx, hasks⟩
      exact ⟨⟨hx, fun heq => hid j (heq ▸ hasks)⟩, hasks⟩
    · rintro ⟨⟨hx, -⟩, hasks⟩
      exact ⟨hx, hasks⟩

/-- A line changes together with the tasks that are taken out of it. -/
theorem modifyNode {f : Node → Node} (hl : h.Lined busy)
    (hnodup : ∀ n, h.node? i = some n → (f n).pending.Nodup)
    (hmem : ∀ n, h.node? i = some n → ∀ id, id ∈ (f n).pending ↔ ¬ busy' id ∧ h.Asks i id)
    (hothers : ∀ j id, j ≠ i → h.Asks j id → (busy' id ↔ busy id)) :
    (h.modifyNode i f).Lined busy' where
  housed id t ht := by
    rw [node?_modifyNode]
    split
    next => exact (Option.isSome_map ..).trans (hl.housed id t ht)
    next => exact hl.housed id t ht
  nodup j n' hn' := by
    rw [node?_modifyNode] at hn'
    split at hn'
    next hij =>
      subst hij
      obtain ⟨n, hn, rfl⟩ := Option.map_eq_some_iff.1 hn'
      exact hnodup n hn
    next => exact hl.nodup j n' hn'
  mem_iff j n' hn' x := by
    rw [node?_modifyNode] at hn'
    split at hn'
    next hij =>
      subst hij
      obtain ⟨n, hn, rfl⟩ := Option.map_eq_some_iff.1 hn'
      exact hmem n hn x
    next hij =>
      rw [hl.mem_iff j n' hn' x]
      exact and_congr_left fun hasks => not_congr (hothers j x (Ne.symm hij) hasks).symm

/-- What a task that is taken out waits for does not matter. -/
theorem setProgress (hl : h.Lined busy) (hid : busy id) (p : Progress α) :
    (h.setProgress id p).Lined busy where
  nodup := hl.nodup
  housed x t ht := by
    rw [task?_setProgress] at ht
    split at ht
    next =>
      obtain ⟨t', ht', rfl⟩ := Option.map_eq_some_iff.1 ht
      exact hl.housed x t' ht'
    next => exact hl.housed x t ht
  mem_iff j n hn x := by
    rw [hl.mem_iff j n hn x, asks_setProgress]
    refine and_congr_right fun hx => ?_
    have hne : ¬ id = x := fun heq => hx (heq ▸ hid)
    rw [if_neg hne]

/-- A task that does not ask need not be taken out. -/
theorem released (hl : h.Lined busy) (hid : ∀ i, ¬ h.Asks i id) :
    h.Lined fun x => busy x ∧ x ≠ id where
  nodup := hl.nodup
  housed := hl.housed
  mem_iff j n hn x := by
    rw [hl.mem_iff j n hn x]
    refine and_congr_left fun hasks => not_congr ?_
    exact ⟨fun hx => ⟨hx, fun heq => hid j (heq ▸ hasks)⟩, And.left⟩

/-- A task that goes on is in line exactly if it asks again. -/
theorem advance (hl : h.Lined busy) (hid : busy id) {t : Task α} (ht : h.tasks[id]? = some t)
    (hi : t.node = i) (hadv : h.Advances i id h') : h'.Lined fun x => busy x ∧ x ≠ id := by
  have hquiet {p : Progress α} (hp : p.request? = none) (j : NodeId) :
      ¬ (h.setProgress id p).Asks j id := by
    rw [asks_setProgress, if_pos rfl, hp]
    exact fun h => nomatch h.2
  cases hadv with
  | asks p hp haccepts =>
    have hset := hl.setProgress hid p
    have hout {n : Node} (hn : h.node? i = some n) : id ∉ n.pending := fun hmem =>
      ((hl.mem_iff i n hn id).1 hmem).1 hid
    have hasks : (h.setProgress id p).Asks i id := by
      rw [asks_setProgress, if_pos rfl]
      exact ⟨⟨t, ht, hi⟩, hp⟩
    refine hset.modifyNode (fun n hn => ?_) (fun n hn x => ?_) fun j x hj hx => ?_
    · exact (hset.nodup i n hn).append (List.nodup_singleton id) (by simpa using hout hn)
    · rw [List.mem_append, List.mem_singleton, hset.mem_iff i n hn x]
      by_cases hx : x = id
      · simp [hx, hasks]
      · simp [hx]
    · refine ⟨And.left, fun hbusy => ⟨hbusy, fun heq => ?_⟩⟩
      subst heq
      rw [asks_setProgress, if_pos rfl] at hx
      obtain ⟨⟨t', ht', hj'⟩, -⟩ := hx
      cases ht.symm.trans ht'
      exact hj (hj'.symm.trans hi)
  | rests p hp => exact (hl.setProgress hid p).released (hquiet hp)
  | stops p hp =>
    have hset := (hl.setProgress hid p).released (hquiet hp)
    exact hset.modifyNode (hset.nodup i) (hset.mem_iff i) fun _ _ _ _ => Iff.rfl

end Lined

/-! ## Replies -/

/-- Every task gets the reply to what it asks, and goes on. -/
structure Owed (h : Host α) (i : NodeId) (replies : List (TaskId × Reply)) : Prop where
  node : ∃ n, h.node? i = some n
  nodup : (replies.map Prod.fst).Nodup
  asked : ∀ r ∈ replies, ∃ t, h.tasks[r.1]? = some t ∧ t.node = i ∧
    t.progress.request? = some r.2.request

namespace Owed

variable {replies rest : List (TaskId × Reply)} {r : TaskId × Reply}

theorem advances (ho : h.Owed i (r :: rest)) : h.Advances i r.1 (h.deliver i r.1 r.2) := by
  obtain ⟨n, hn⟩ := ho.node
  obtain ⟨t, ht, -, hr⟩ := ho.asked r List.mem_cons_self
  exact advances_deliver ht hn hr

theorem tail (ho : h.Owed i (r :: rest)) : (h.deliver i r.1 r.2).Owed i rest := by
  have hadv := ho.advances
  obtain ⟨hfresh, hnodup⟩ := List.nodup_cons.1 ho.nodup
  obtain ⟨n, hn⟩ := ho.node
  obtain ⟨n', hn', -⟩ := hadv.turns.exists_node hn
  refine ⟨⟨n', hn'⟩, hnodup, fun x hx => ?_⟩
  obtain ⟨t, ht, hasked⟩ := ho.asked x (List.mem_cons_of_mem _ hx)
  have hne : x.1 ≠ r.1 := fun heq => hfresh (heq ▸ List.mem_map_of_mem hx)
  exact ⟨t, (hadv.task?_of_ne hne).trans ht, hasked⟩

theorem turns (ho : h.Owed i replies) : h.Turns (h.deliverAll i replies) := by
  induction replies generalizing h with
  | nil => exact .refl h
  | cons r rest ih => exact ho.advances.turns.trans (ih ho.tail)

theorem kernel?_eq (ho : h.Owed i replies) (j : NodeId) :
    (h.deliverAll i replies).kernel? j = h.kernel? j := by
  induction replies generalizing h with
  | nil => rfl
  | cons r rest ih => exact (ih ho.tail).trans (ho.advances.kernel?_eq j)

theorem task?_of_not_mem (ho : h.Owed i replies) (hid : id ∉ replies.map Prod.fst) :
    (h.deliverAll i replies).tasks[id]? = h.tasks[id]? := by
  induction replies generalizing h with
  | nil => rfl
  | cons r rest ih =>
    obtain ⟨hne, hrest⟩ := not_or.1 (mt List.mem_cons.2 hid)
    exact (ih ho.tail hrest).trans (ho.advances.task?_of_ne hne)

theorem lined (ho : h.Owed i replies) (hl : h.Lined (· ∈ replies.map Prod.fst)) :
    (h.deliverAll i replies).Lined fun _ => False := by
  -- With each reply one task fewer is taken out, so the induction needs any set of them.
  suffices hall : ∀ busy : TaskId → Prop, (∀ r ∈ replies, busy r.1) → h.Lined busy →
      (h.deliverAll i replies).Lined fun x => busy x ∧ x ∉ replies.map Prod.fst by
    refine (hall _ (fun r hr => List.mem_map_of_mem hr) hl).congr fun x => ?_
    exact ⟨False.elim, fun hx => hx.2 hx.1⟩
  clear hl
  induction replies generalizing h with
  | nil =>
    intro busy _ hl
    exact hl.congr fun x => by simp
  | cons r rest ih =>
    intro busy hbusy hl
    obtain ⟨t, ht, hi, -⟩ := ho.asked r List.mem_cons_self
    have hfirst := hl.advance (hbusy r List.mem_cons_self) ht hi ho.advances
    have hrest (x : TaskId × Reply) (hx : x ∈ rest) : busy x.1 ∧ x.1 ≠ r.1 := by
      refine ⟨hbusy x (List.mem_cons_of_mem _ hx), fun heq => ?_⟩
      exact (List.nodup_cons.1 ho.nodup).1 (heq ▸ List.mem_map_of_mem hx)
    exact (ih ho.tail _ hrest hfirst).congr fun x => by simp [and_assoc]

end Owed

end Blackboard.Host
