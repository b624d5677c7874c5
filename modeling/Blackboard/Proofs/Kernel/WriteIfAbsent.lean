import Blackboard.Proofs.Reference
import Blackboard.Proofs.Space.Confinement
import Blackboard.Proofs.Kernel.Moves

/-!
# Writing where there is nothing

Several clients of a kernel write to one location unless there is a value. Each of them asks twice:
whether there is a value, and if not, for the write. The dispatch loop may serve the requests of
different clients in any order, and other things may happen in between.

`Race` tells from the order alone what becomes of the calls. Those served before the first write all
find nothing, and all of them write. So there is one winner exactly if the call that is served first
is also served second.
-/

namespace Blackboard

/-! ## Clients of one kernel -/

namespace Program

variable {α : Type}

def request? : Program α → Option Request
  | ask r _ => some r
  | _ => none

def outcome? : Program α → Option (Except KernelError α)
  | done outcome => some outcome
  | _ => none

end Program

/-- A kernel, and what is left of the calls of its clients. -/
structure Crowd (α : Type) where
  kernel : Kernel
  calls : List (Program α)

/-- What can happen next: the request that a call waits with is served, or something else. -/
inductive Turn where
  | serve (call : Nat)
  | other (move : Kernel.Move)

/-- The calls that are served, in their order. -/
def Turn.served (turns : List Turn) : List Nat :=
  turns.filterMap fun turn =>
    match turn with
    | serve i => some i
    | other _ => none

namespace Crowd

variable {α : Type}

def gather : Kernel → List (Call α) → Crowd α
  | k, [] => ⟨k, []⟩
  | k, call :: rest =>
    let (k, program) := call k
    let crowd := gather k rest
    { crowd with calls := program :: crowd.calls }

def waits (c : Crowd α) (i : Nat) : Bool := (c.calls[i]?.bind Program.request?).isSome

def outcome? (c : Crowd α) (i : Nat) : Option (Except KernelError α) :=
  c.calls[i]?.bind Program.outcome?

/-- A call that has its answer goes on to its next request. -/
def turn (c : Crowd α) : Turn → Crowd α
  | .serve i =>
    match c.calls[i]? with
    | some (.ask r next) =>
      let (kernel, answer) := c.kernel.serveNext r
      ⟨kernel, c.calls.set i (next answer)⟩
    | _ => c
  | .other move => { c with kernel := c.kernel.after move }

def run (c : Crowd α) (turns : List Turn) : Crowd α := turns.foldl turn c

/-- Only calls that wait are served, while the kernel takes requests, and nothing else changes the
value at a location. -/
def Minds (l : Location) (c : Crowd α) : Turn → Prop
  | .serve i => c.kernel.accepts = true ∧ c.waits i = true
  | .other move => (c.kernel.after move).space.store.content l = c.kernel.space.store.content l

def Undisturbed (l : Location) : Crowd α → List Turn → Prop
  | _, [] => True
  | c, turn :: rest => c.Minds l turn ∧ Undisturbed l (c.turn turn) rest

instance (l : Location) (c : Crowd α) : DecidablePred (c.Minds l)
  | .serve _ => inferInstanceAs (Decidable (_ ∧ _))
  | .other _ => inferInstanceAs (Decidable (_ = _))

instance decidableUndisturbed (l : Location) :
    (c : Crowd α) → (turns : List Turn) → Decidable (c.Undisturbed l turns)
  | _, [] => inferInstanceAs (Decidable True)
  | c, turn :: rest =>
    have := decidableUndisturbed l (c.turn turn) rest
    inferInstanceAs (Decidable (_ ∧ _))

end Crowd

/-! ## The two requests -/

/-- What its writer said of a tuple: everything but what the store fills in. -/
def Tuple.given (t : Tuple) : Tuple :=
  { t with seqno := none, appends := 0, written := none, fresh := none }

/-- A tuple that the owner of a location writes there, and that marks no deletion. -/
structure Location.Takes (l : Location) (t : Tuple) : Prop where
  location : t.location = .ok l
  isDeletion : t.isDeletion = false
  creator : t.creator = some l.owner

namespace Kernel

/-- The value at a location is a tuple as its writer gave it. -/
def Holds (k : Kernel) (l : Location) (t : Tuple) : Prop :=
  (k.space.peek l).map Tuple.given = some t.given

variable {k : Kernel} {l : Location} {t : Tuple}

theorem map_given_content (s : Store) (l : Location) :
    (s.content l).map Tuple.given = (s.peek l).map Tuple.given := by
  rw [Store.content, Option.map_map]
  rfl

/-- A write of a tuple of this process succeeds, and the tuple is there then. -/
theorem insert_here (ht : l.Takes t) (howner : l.owner = k.localId) :
    (∃ receipt, (k.insert t).2 = .ok (.here receipt)) ∧ (k.insert t).1.Holds l t := by
  have hsame : { t with creator := some k.localId } = t := by rw [← howner, ← ht.creator]
  -- The kernel enters itself as the writer, which is what these tuples say already.
  obtain ⟨⟨after, report⟩, hwrite⟩ := Space.exists_write_eq_ok (s := k.space) ht.location k.now
  rw [insert, ht.location]
  simp only [hsame, if_pos howner, hwrite, commit]
  refine ⟨⟨_, rfl⟩, ?_⟩
  rw [Holds, space_adopt, Space.peek_write ht.isDeletion ht.location hwrite]
  rfl

end Kernel

/-! ## The calls -/

namespace Client

/-- The calls that write a tuple at a location of this process unless there is a value. -/
inductive Offers (k : Kernel) (l : Location) : Call Bool → Tuple → Prop
  | text {name : String} (text : String) (h : Key.parse name = .ok l.key) :
    Offers k l (setDefault name text) (.plainText k.localId l.key text)
  | declaration : Offers k l (declareMeta l) (Reference.metaTuple l none)
  | reference (target : Reference) : Offers k l (setDefaultMeta l.key target)
      (Reference.metaTuple ⟨k.localId, l.key⟩ (some target))

variable {k : Kernel} {l : Location}

theorem location_new (hkey : l.key.isConcrete = true) (payload : List UInt8) :
    (Tuple.new l.owner l.key payload).location = .ok l :=
  Tuple.location_eq_ok_iff.2 ⟨by simp [Tuple.isAbstract, Tuple.new, hkey], rfl, rfl⟩

theorem Offers.spec {call : Call Bool} {t : Tuple} (h : Offers k l call t)
    (howner : l.owner = k.localId) (hkey : l.key.isConcrete = true) :
    call k = (k, writeIfAbsent l t) ∧ l.Takes t := by
  obtain ⟨owner, key⟩ := l
  obtain rfl : owner = k.localId := howner
  cases h with
  | text text h =>
    refine ⟨?_, ⟨location_new hkey _, rfl, rfl⟩⟩
    rw [setDefault, h]
    rfl
  | declaration => exact ⟨rfl, ⟨Reference.location_metaTuple hkey none, rfl, rfl⟩⟩
  | reference target => exact ⟨rfl, ⟨Reference.location_metaTuple hkey target, rfl, rfl⟩⟩

theorem gather_offers {calls : List (Call Bool)} {given : List Tuple}
    (h : List.Forall₂ (Offers k l) calls given) (howner : l.owner = k.localId)
    (hkey : l.key.isConcrete = true) :
    Crowd.gather k calls = ⟨k, given.map (writeIfAbsent l)⟩ ∧ ∀ t ∈ given, l.Takes t := by
  induction h with
  | nil => exact ⟨rfl, by simp⟩
  | cons hcall _ ih =>
    obtain ⟨hprogram, ht⟩ := hcall.spec howner hkey
    refine ⟨?_, List.forall_mem_cons.2 ⟨ht, ih.2⟩⟩
    rw [Crowd.gather, hprogram]
    simp only [ih.1]
    rfl

end Client

/-! ## The race -/

/-- How far the calls have come: those that found nothing, those of them that wrote, and those that
found a value. -/
structure Race where
  entered : List Nat := []
  wrote : List Nat := []
  refused : List Nat := []

namespace Race

/-- The race once a call is served. The first time it finds nothing up to the first write, and the
second time it writes. -/
def serve (r : Race) (i : Nat) : Race :=
  if i ∈ r.entered then { r with wrote := r.wrote ++ [i] }
  else if r.wrote = [] then { r with entered := r.entered ++ [i] }
  else { r with refused := r.refused ++ [i] }

def of (served : List Nat) : Race := served.foldl serve {}

/-- What is left of a call. -/
def left (r : Race) (l : Location) (i : Nat) (t : Tuple) : Program Bool :=
  if i ∈ r.refused then .done (.ok false)
  else if i ∈ r.wrote then .done (.ok true)
  else if i ∈ r.entered then (Client.insertProgram t).map fun _ => true
  else Client.writeIfAbsent l t

/-- Only calls that entered write, each of them once, and nobody is refused before the first write. -/
structure Fair (r : Race) : Prop where
  nodup_wrote : r.wrote.Nodup
  entered_of_wrote : ∀ i ∈ r.wrote, i ∈ r.entered
  not_entered_of_refused : ∀ i ∈ r.refused, i ∉ r.entered
  wrote_of_refused : r.refused ≠ [] → r.wrote ≠ []

variable {r : Race}

theorem fair_empty : ({} : Race).Fair := ⟨.nil, by simp, by simp, by simp⟩

theorem Fair.serve (h : r.Fair) {i : Nat} (hwrote : i ∉ r.wrote) : (r.serve i).Fair := by
  rw [Race.serve]
  split
  next hentered =>
    refine ⟨List.nodup_append.2 ⟨h.nodup_wrote, List.nodup_singleton i, ?_⟩, ?_,
      h.not_entered_of_refused, fun _ => by simp⟩
    · rintro j hj _ hi rfl
      exact hwrote (List.mem_singleton.1 hi ▸ hj)
    · intro j hj
      rcases List.mem_append.1 hj with hj | hj
      · exact h.entered_of_wrote j hj
      · exact List.mem_singleton.1 hj ▸ hentered
  next hentered =>
    split
    next hnone =>
      -- Without a write nobody was refused, so the one who enters is not among them.
      have hnobody : r.refused = [] := by
        by_contra hne
        exact h.wrote_of_refused hne hnone
      exact ⟨h.nodup_wrote, by simp [hnone], by simp [hnobody], by simp [hnobody]⟩
    next hsome =>
      refine ⟨h.nodup_wrote, h.entered_of_wrote, ?_, fun _ => hsome⟩
      intro j hj
      rcases List.mem_append.1 hj with hj | hj
      · exact h.not_entered_of_refused j hj
      · exact List.mem_singleton.1 hj ▸ hentered

theorem Fair.not_wrote_of_refused (h : r.Fair) {i : Nat} (hi : i ∈ r.refused) : i ∉ r.wrote :=
  fun hwrote => h.not_entered_of_refused i hi (h.entered_of_wrote i hwrote)

theorem Fair.wrote_eq (h : r.Fair) {i : Nat} (hmem : ∀ j, j ∈ r.wrote ↔ j = i) : r.wrote = [i] :=
  List.perm_singleton.1 ((List.perm_ext_iff_of_nodup h.nodup_wrote (List.nodup_singleton i)).2
    fun j => (hmem j).trans List.mem_singleton.symm)

theorem left_serve_of_ne {i j : Nat} (h : j ≠ i) (l : Location) (t : Tuple) :
    (r.serve i).left l j t = r.left l j t := by
  rw [serve]
  split
  next => simp [left, h]
  next => split <;> simp [left, h]

theorem entered_serve_of_wrote (h : r.wrote ≠ []) (i : Nat) : (r.serve i).entered = r.entered := by
  by_cases hi : i ∈ r.entered <;> simp [serve, hi, h]

theorem wrote_serve_of_not_entered {i : Nat} (h : i ∉ r.entered) :
    (r.serve i).wrote = r.wrote := by
  rw [serve, if_neg h]
  split <;> rfl

theorem mem_entered_serve {i j : Nat} (h : j ∈ (r.serve i).entered) : j ∈ r.entered ∨ j = i := by
  rw [serve] at h
  split at h
  next => exact .inl h
  next =>
    split at h
    next => simpa using h
    next => exact .inl h

theorem subset_serve (r : Race) (i : Nat) :
    r.entered ⊆ (r.serve i).entered ∧ r.wrote ⊆ (r.serve i).wrote := by
  rw [serve]
  split
  next => simp
  next => split <;> simp

theorem subset_foldl (r : Race) (served : List Nat) :
    r.entered ⊆ (served.foldl serve r).entered ∧ r.wrote ⊆ (served.foldl serve r).wrote := by
  induction served generalizing r with
  | nil => simp
  | cons i rest ih =>
    obtain ⟨hentered, hwrote⟩ := r.subset_serve i
    exact ⟨fun j hj => (ih _).1 (hentered hj), fun j hj => (ih _).2 (hwrote hj)⟩

/-- Nobody enters any more once somebody wrote. -/
theorem entered_foldl (h : r.wrote ≠ []) (served : List Nat) :
    (served.foldl serve r).entered = r.entered := by
  induction served generalizing r with
  | nil => rfl
  | cons i rest ih =>
    have hwrote : (r.serve i).wrote ≠ [] := fun hnone =>
      h (List.subset_nil.1 (hnone ▸ (r.subset_serve i).2))
    exact (ih hwrote).trans (entered_serve_of_wrote h i)

/-- There is one writer, and it was alone, exactly if the first two requests are of the same call. -/
theorem of_eq_iff {served : List Nat} (hfair : (of served).Fair)
    (hall : ∀ i ∈ (of served).entered, i ∈ (of served).wrote) (i : Nat) :
    (of served).wrote = [i] ↔ served.take 2 = [i, i] := by
  match served with
  | [] => simp [of]
  | [a] => simp [of, serve] at hall
  | a :: b :: rest =>
    have hstart : of (a :: b :: rest) = rest.foldl serve ((serve {} a).serve b) := rfl
    have hsub := subset_foldl ((serve {} a).serve b) rest
    rw [← hstart] at hsub
    -- If the second request is of the first call, it is a write and closes the race behind it. If
    -- not, two calls are in the race, and both get to write.
    by_cases hab : b = a
    · subst hab
      have hb : b ∈ (of (b :: b :: rest)).wrote := hsub.2 (by simp [serve])
      have hentered : (of (b :: b :: rest)).entered = [b] :=
        (entered_foldl (by simp [serve]) rest).trans (by simp [serve])
      have hwrote : (of (b :: b :: rest)).wrote = [b] := by
        refine hfair.wrote_eq fun j => ⟨fun hj => ?_, fun hj => hj ▸ hb⟩
        exact List.mem_singleton.1 (hentered ▸ hfair.entered_of_wrote j hj)
      simp [hwrote]
    · have ha := hall a (hsub.1 (by simp [serve, hab]))
      have hb := hall b (hsub.1 (by simp [serve, hab]))
      refine ⟨fun h => ?_, fun h => ?_⟩
      · rw [h] at ha hb
        exact absurd ((List.mem_singleton.1 hb).trans (List.mem_singleton.1 ha).symm) hab
      · obtain ⟨rfl, rfl⟩ : a = i ∧ b = i := by simpa using h
        exact absurd rfl hab

end Race

/-! ## The race and the calls -/

namespace Crowd

/-- The calls are as far as the race says, and the location has the value of the last writer. -/
structure Races (l : Location) (given : List Tuple) (c : Crowd Bool) (r : Race) : Prop where
  owner : l.owner = c.kernel.localId
  calls : ∀ i, c.calls[i]? = given[i]?.map (r.left l i)
  inside : ∀ i ∈ r.entered, i < given.length
  value : (c.kernel.space.peek l).map Tuple.given
    = (r.wrote.getLast?.bind (given[·]?)).map Tuple.given

variable {l : Location} {given : List Tuple} {c : Crowd Bool} {r : Race}

theorem Races.inside_wrote (h : c.Races l given r) (hfair : r.Fair) {i : Nat} (hi : i ∈ r.wrote) :
    i < given.length :=
  h.inside i (hfair.entered_of_wrote i hi)

theorem Races.other (h : c.Races l given r) {move : Kernel.Move}
    (hmove : c.Minds l (.other move)) : (c.turn (.other move)).Races l given r where
  owner := h.owner.trans (c.kernel.evolves_after move).localId.symm
  calls := h.calls
  inside := h.inside
  value := by
    rw [← h.value, Space.peek, Space.peek, ← Kernel.map_given_content, ← Kernel.map_given_content]
    exact congrArg _ hmove

theorem Races.exists_iff (h : c.Races l given r) (hfair : r.Fair) :
    c.kernel.space.exists? l = true ↔ r.wrote ≠ [] := by
  have hvalue : (c.kernel.space.peek l).isSome = (r.wrote.getLast?.bind (given[·]?)).isSome := by
    rw [← Option.isSome_map (f := Tuple.given), h.value, Option.isSome_map]
  rw [show c.kernel.space.exists? l = (c.kernel.space.peek l).isSome from rfl, hvalue]
  cases hlast : r.wrote.getLast? with
  | none => simp [List.getLast?_eq_none_iff.1 hlast]
  | some i =>
    have hi : i ∈ r.wrote := List.mem_of_getLast? hlast
    simp [h.inside_wrote hfair hi, List.ne_nil_of_mem hi]

theorem Races.call (h : c.Races l given r) {i : Nat} {t : Tuple} (ht : given[i]? = some t) :
    c.calls[i]? = some (r.left l i t) := by
  rw [h.calls i, ht]
  rfl

theorem Races.calls_set (h : c.Races l given r) {i : Nat} {t : Tuple} (ht : given[i]? = some t)
    (j : Nat) : (c.calls.set i ((r.serve i).left l i t))[j]?
      = given[j]?.map ((r.serve i).left l j) := by
  by_cases hj : j = i
  · subst hj
    obtain ⟨hlength, -⟩ := List.getElem?_eq_some_iff.1 (h.call ht)
    rw [List.getElem?_set_self hlength, ht]
    rfl
  · rw [List.getElem?_set_ne (Ne.symm hj), h.calls j]
    exact Option.map_congr fun t _ => (Race.left_serve_of_ne hj l t).symm

theorem Races.of_waits (h : c.Races l given r) {i : Nat} (hwaits : c.waits i = true) :
    ∃ t, given[i]? = some t ∧ i ∉ r.refused ∧ i ∉ r.wrote := by
  rw [waits, h.calls i] at hwaits
  cases ht : given[i]? with
  | none => simp [ht] at hwaits
  | some t =>
    refine ⟨t, rfl, fun hi => ?_, fun hi => ?_⟩
    · simp [ht, Race.left, hi, Program.request?] at hwaits
    · by_cases hrefused : i ∈ r.refused <;>
        simp [ht, Race.left, hi, hrefused, Program.request?] at hwaits

theorem Races.inside_serve (h : c.Races l given r) {i : Nat} {t : Tuple}
    (ht : given[i]? = some t) : ∀ j ∈ (r.serve i).entered, j < given.length := by
  intro j hj
  rcases Race.mem_entered_serve hj with hj | rfl
  · exact h.inside j hj
  · exact (List.getElem?_eq_some_iff.1 ht).1

theorem turn_serve {i : Nat} {q : Request} {next : Except KernelError q.Answer → Program Bool}
    (h : c.calls[i]? = some (.ask q next)) : c.turn (.serve i)
      = ⟨(c.kernel.serveNext q).1, c.calls.set i (next (c.kernel.serveNext q).2)⟩ := by
  rw [turn, h]

/-- The first request of a call: it enters the race, or is refused because there is a value. -/
theorem Races.serve_first (h : c.Races l given r) (hfair : r.Fair) {i : Nat} {t : Tuple}
    (ht : given[i]? = some t) (hrefused : i ∉ r.refused) (hentered : i ∉ r.entered) :
    (c.turn (.serve i)).Races l given (r.serve i) := by
  have hwrote : i ∉ r.wrote := fun hi => hentered (hfair.entered_of_wrote i hi)
  have hcall : c.calls[i]? = some (Client.writeIfAbsent l t) := by
    rw [h.call ht, Race.left, if_neg hrefused, if_neg hwrote, if_neg hentered]
  have hpresent : c.kernel.applyQueued.space.exists? l = true ↔ r.wrote ≠ [] := by
    rw [← h.exists_iff hfair, Space.exists?, Kernel.store_applyQueued]
    rfl
  have hnext : c.turn (.serve i)
      = ⟨c.kernel.applyQueued, c.calls.set i ((r.serve i).left l i t)⟩ := by
    rw [turn_serve hcall]
    by_cases hnone : r.wrote = []
    · have habsent : c.kernel.applyQueued.space.exists? l = false := by simpa [hnone] using hpresent
      simp [Kernel.serveNext, Kernel.serve, habsent, Race.left, Race.serve, hentered, hnone, hrefused]
    · have hthere := hpresent.2 hnone
      simp [Kernel.serveNext, Kernel.serve, hthere, Race.left, Race.serve, hentered, hnone]
  rw [hnext]
  refine ⟨h.owner, h.calls_set ht, h.inside_serve ht, ?_⟩
  rw [Space.peek, Kernel.store_applyQueued, Race.wrote_serve_of_not_entered hentered]
  exact h.value

/-- The second request of a call that found nothing: it writes, and succeeds. -/
theorem Races.serve_second (h : c.Races l given r) (htakes : ∀ t ∈ given, l.Takes t) {i : Nat}
    {t : Tuple} (ht : given[i]? = some t) (hrefused : i ∉ r.refused) (hwrote : i ∉ r.wrote)
    (hentered : i ∈ r.entered) : (c.turn (.serve i)).Races l given (r.serve i) := by
  have hcall : c.calls[i]? = some ((Client.insertProgram t).map fun _ => true) := by
    rw [h.call ht, Race.left, if_neg hrefused, if_neg hwrote, if_pos hentered]
  obtain ⟨⟨receipt, hanswer⟩, hholds⟩ := Kernel.insert_here (k := c.kernel.applyQueued)
    (htakes t (List.mem_of_getElem? ht)) h.owner
  have hnext : c.turn (.serve i)
      = ⟨(c.kernel.applyQueued.insert t).1, c.calls.set i ((r.serve i).left l i t)⟩ := by
    rw [turn_serve hcall]
    simp only [Kernel.serveNext, Kernel.serve, hanswer]
    simp [Race.left, Race.serve, hentered, hrefused, Program.map, Except.map]
  rw [hnext]
  refine ⟨?_, h.calls_set ht, h.inside_serve ht, ?_⟩
  · exact h.owner.trans (c.kernel.evolves_serveNext (.insert t)).localId.symm
  · have hlast : (r.serve i).wrote.getLast?.bind (given[·]?) = some t := by
      simp [Race.serve, hentered, ht]
    rw [hlast]
    exact hholds

theorem Races.serve (h : c.Races l given r) (hfair : r.Fair) (htakes : ∀ t ∈ given, l.Takes t)
    {i : Nat} (hwaits : c.waits i = true) :
    (c.turn (.serve i)).Races l given (r.serve i) ∧ (r.serve i).Fair := by
  obtain ⟨t, ht, hrefused, hwrote⟩ := h.of_waits hwaits
  refine ⟨?_, hfair.serve hwrote⟩
  by_cases hentered : i ∈ r.entered
  · exact h.serve_second htakes ht hrefused hwrote hentered
  · exact h.serve_first hfair ht hrefused hentered

/-- However the turns are taken, the calls run as the race says. -/
theorem Races.run (h : c.Races l given r) (hfair : r.Fair) (htakes : ∀ t ∈ given, l.Takes t)
    {turns : List Turn} (hturns : c.Undisturbed l turns) :
    (c.run turns).Races l given ((Turn.served turns).foldl Race.serve r) ∧
      ((Turn.served turns).foldl Race.serve r).Fair := by
  -- By induction on the turns. Being fair goes along, because whether a call finds a value depends on
  -- whether anybody wrote, and only a fair race keeps the writers among the calls.
  induction turns generalizing c r with
  | nil => exact ⟨h, hfair⟩
  | cons turn rest ih =>
    cases turn with
    | serve i =>
      obtain ⟨hnext, hfair⟩ := h.serve hfair htakes hturns.1.2
      exact ih hnext hfair hturns.2
    | other move => exact ih (h.other hturns.1) hfair hturns.2

theorem races_gather {k : Kernel} {calls : List (Call Bool)}
    (hcalls : List.Forall₂ (Client.Offers k l) calls given) (howner : l.owner = k.localId)
    (hkey : l.key.isConcrete = true) (habsent : k.space.peek l = none) :
    (gather k calls).Races l given {} ∧ ∀ t ∈ given, l.Takes t := by
  obtain ⟨hgather, htakes⟩ := Client.gather_offers hcalls howner hkey
  rw [hgather]
  refine ⟨⟨howner, fun i => ?_, by simp, by simp [habsent]⟩, htakes⟩
  have hleft : ({} : Race).left l i = Client.writeIfAbsent l := by
    funext t
    simp [Race.left]
  rw [hleft, List.getElem?_map]

/-! ## Winners -/

/-- No request is left. -/
def Over (c : Crowd α) : Prop := ∀ p ∈ c.calls, p.request? = none

instance (c : Crowd α) : Decidable c.Over := inferInstanceAs (Decidable (∀ p ∈ c.calls, _))

/-- Exactly one call wrote, all others know that they did not, and its value is there. -/
def OneWins (l : Location) (given : List Tuple) (c : Crowd Bool) : Prop :=
  ∃ i t, given[i]? = some t ∧ c.kernel.Holds l t ∧
    ∀ j < given.length, c.outcome? j = some (.ok (decide (j = i)))

theorem Races.wrote_or_refused (h : c.Races l given r) (hover : c.Over) {i : Nat}
    (hi : i < given.length) : i ∈ r.wrote ∨ i ∈ r.refused := by
  by_contra hneither
  obtain ⟨hwrote, hrefused⟩ := not_or.1 hneither
  have hnone := hover _ (List.mem_of_getElem? (h.call (List.getElem?_eq_getElem hi)))
  rw [Race.left, if_neg hrefused, if_neg hwrote] at hnone
  split at hnone <;> exact nomatch hnone

/-- At the end every call has returned, and it tells whether it wrote. -/
theorem Races.outcome? (h : c.Races l given r) (hfair : r.Fair) (hover : c.Over) {i : Nat}
    (hi : i < given.length) : c.outcome? i = some (.ok (decide (i ∈ r.wrote))) := by
  rw [Crowd.outcome?, h.call (List.getElem?_eq_getElem hi), Race.left]
  rcases h.wrote_or_refused hover hi with hwrote | hrefused
  · have hnot : i ∉ r.refused := fun hrefused => hfair.not_wrote_of_refused hrefused hwrote
    rw [if_neg hnot, if_pos hwrote]
    simp [Program.outcome?, hwrote]
  · rw [if_pos hrefused]
    simp [Program.outcome?, hfair.not_wrote_of_refused hrefused]

theorem Races.wrote_of_entered (h : c.Races l given r) (hfair : r.Fair) (hover : c.Over) {i : Nat}
    (hi : i ∈ r.entered) : i ∈ r.wrote := by
  rcases h.wrote_or_refused hover (h.inside i hi) with hwrote | hrefused
  · exact hwrote
  · exact absurd hi (hfair.not_entered_of_refused i hrefused)

theorem Races.oneWins_iff (h : c.Races l given r) (hfair : r.Fair) (hover : c.Over) :
    c.OneWins l given ↔ ∃ i, r.wrote = [i] := by
  constructor
  · rintro ⟨i, t, ht, -, houtcomes⟩
    have hwrote (j : Nat) (hj : j < given.length) : j ∈ r.wrote ↔ j = i := by
      have hsame := (h.outcome? hfair hover hj).symm.trans (houtcomes j hj)
      simpa using hsame
    refine ⟨i, hfair.wrote_eq fun j => ?_⟩
    refine ⟨fun hj => (hwrote j (h.inside_wrote hfair hj)).1 hj, ?_⟩
    rintro rfl
    exact (hwrote j (List.getElem?_eq_some_iff.1 ht).1).2 rfl
  · rintro ⟨i, hi⟩
    have hinside := h.inside_wrote hfair (hi ▸ List.mem_singleton_self i : i ∈ r.wrote)
    refine ⟨i, given[i], List.getElem?_eq_getElem hinside, ?_, fun j hj => ?_⟩
    · refine h.value.trans ?_
      simp [hi, hinside]
    · rw [h.outcome? hfair hover hj, hi]
      simp

/-- If there are calls at all, one of them has won at the end, and its value is there. -/
theorem Races.someWins (h : c.Races l given r) (hfair : r.Fair) (hover : c.Over)
    (hgiven : given ≠ []) :
    ∃ i t, given[i]? = some t ∧ c.kernel.Holds l t ∧ c.outcome? i = some (.ok true) := by
  have hsome : r.wrote ≠ [] := by
    rcases h.wrote_or_refused hover (List.length_pos_iff.2 hgiven) with hwrote | hrefused
    · exact List.ne_nil_of_mem hwrote
    · exact hfair.wrote_of_refused (List.ne_nil_of_mem hrefused)
  have hlast := List.getLast_mem hsome
  have hinside := h.inside_wrote hfair hlast
  refine ⟨r.wrote.getLast hsome, given[r.wrote.getLast hsome], List.getElem?_eq_getElem hinside,
    ?_, ?_⟩
  · refine h.value.trans ?_
    simp [List.getLast?_eq_some_getLast hsome, hinside]
  · rw [h.outcome? hfair hover hinside]
    simp [hlast]

/-- Calls that write to one absent location of this process unless there is a value, in any number
and served in any order. All of them return, and the value at the end is that of a call that says it
wrote. It is the only one exactly if the call that is served first has both its requests served before
any other call has one. -/
theorem race_decided {k : Kernel} {calls : List (Call Bool)} {turns : List Turn}
    (hcalls : List.Forall₂ (Client.Offers k l) calls given) (howner : l.owner = k.localId)
    (hkey : l.key.isConcrete = true) (habsent : k.space.peek l = none)
    (hturns : (gather k calls).Undisturbed l turns) (hover : ((gather k calls).run turns).Over) :
    let c := (gather k calls).run turns
    (∀ i < given.length, ∃ wrote, c.outcome? i = some (.ok wrote)) ∧
      (given ≠ [] →
        ∃ i t, given[i]? = some t ∧ c.kernel.Holds l t ∧ c.outcome? i = some (.ok true)) ∧
      (c.OneWins l given ↔ ∃ i, (Turn.served turns).take 2 = [i, i]) := by
  obtain ⟨hstart, htakes⟩ := races_gather hcalls howner hkey habsent
  obtain ⟨hraces, hfair⟩ := hstart.run Race.fair_empty htakes hturns
  refine ⟨fun i hi => ⟨_, hraces.outcome? hfair hover hi⟩, hraces.someWins hfair hover, ?_⟩
  rw [hraces.oneWins_iff hfair hover]
  exact exists_congr fun i =>
    Race.of_eq_iff hfair (fun j hj => hraces.wrote_of_entered hfair hover hj) i

/-- A kernel just started, which keeps no list of its keys. -/
def bare : Kernel := .opened { publishAllKeys := false } (.standalone false) ⟨1000000000⟩

def lamp : Location := ⟨1, ⟨[some "lamp"]⟩⟩

def switches : List (Call Bool) := [Client.setDefault "lamp" "on", Client.setDefault "lamp" "off"]

def switched : List Tuple := [.plainText 1 lamp.key "on", .plainText 1 lamp.key "off"]

theorem offers_switches : List.Forall₂ (Client.Offers bare lamp) switches switched :=
  .cons (.text "on" (by decide +kernel)) (.cons (.text "off" (by decide +kernel)) .nil)

/-- With a tick between the first call and the second, the first wins. -/
theorem switches_in_turn :
    let turns : List Turn := [.serve 0, .serve 0, .other .beginTick, .other .endTick, .serve 1]
    ((gather bare switches).run turns).OneWins lamp switched :=
  (race_decided offers_switches (by decide +kernel) (by decide +kernel) (by decide +kernel)
    (by decide +kernel) (by decide +kernel)).2.2.2 ⟨0, rfl⟩

/-- Where both calls are served before either has written, both say that they wrote. -/
theorem switches_at_once :
    let turns : List Turn := [.serve 0, .serve 1, .serve 0, .serve 1]
    let c := (gather bare switches).run turns
    Kernel.start { publishAllKeys := false } (.standalone false) ⟨1000000000⟩ = .ok bare ∧
      bare.accepts = true ∧ bare.space.peek lamp = none ∧
      (gather bare switches).Undisturbed lamp turns ∧ c.Over ∧
      c.outcome? 0 = some (.ok true) ∧ c.outcome? 1 = some (.ok true) ∧
      ¬ c.OneWins lamp switched := by
  intro turns c
  have hfirst : c.outcome? 0 = some (.ok true) := by decide +kernel
  have hsecond : c.outcome? 1 = some (.ok true) := by decide +kernel
  refine ⟨Kernel.start_eq_ok_iff.2 ⟨by decide, by decide, rfl⟩, by decide +kernel,
    by decide +kernel, by decide +kernel, by decide +kernel, hfirst, hsecond, ?_⟩
  rintro ⟨i, t, -, -, houtcomes⟩
  have hzero := hfirst.symm.trans (houtcomes 0 (by decide))
  have hone := hsecond.symm.trans (houtcomes 1 (by decide))
  simp only [Option.some.injEq, Except.ok.injEq, Bool.true_eq, decide_eq_true_eq] at hzero hone
  omega

end Crowd

end Blackboard
