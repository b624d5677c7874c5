import Blackboard.Proofs.Kernel.Failures
import Blackboard.Proofs.Space.Confinement

/-!
# Whose tuples change

A process changes its own tuples only, and keeps copies of the others'. What a peer publishes
changes copies and nothing else, what a peer asks for changes own tuples and nothing else. A
client's write goes one of three ways: into the space if the tuple is the process's own, to the
transport if it is not, or nowhere if it is refused.

`Routed` are these ways for one request. Over a whole run `Posts` says what has gone to the
transport: the writes of others' tuples that were served, in the order in which they were served.
-/

namespace Blackboard

theorem Location.eq_of_requireConcrete {l other : Location}
    (h : (l.requireConcrete.map fun _ => l) = .ok other) : l = other := by
  cases hconcrete : l.requireConcrete with
  | error e =>
    rw [hconcrete] at h
    cases h
  | ok _ =>
    rw [hconcrete] at h
    exact Except.ok.inj h

/-! ## Spaces -/

namespace Space

variable {κ : Type} [Callback κ] {s : Space κ} {l : Location}

/-- An append is about values of the process. -/
theorem content_append_of_owner_ne (hs : s.store.Sound) (hl : l.owner ≠ s.localId) (p : Tuple)
    (suffix : List UInt8) (expected : Option Nat) (now : Timestamp) :
    (s.append p suffix expected now).1.store.content l = s.store.content l := by
  rw [store_append, content_append]
  refine Change.replay_of_forall_ne (fun c hc heq => ?_) _
  obtain ⟨t, ht, happended, -⟩ := mem_additions_iff.1 hc
  have hplaced : t.owner = some c.place.owner := (Tuple.location_owner_key (hs.filed _ t ht)).1
  have hown : t.owner = some s.localId := by
    simp only [Store.isAppended, Tuple.covers, Bool.and_eq_true] at happended
    simpa [Tuple.fieldCovers] using happended.1.1.1.1.1.1.1.1.1.1.1
  exact hl (heq ▸ Option.some.inj (hplaced.symm.trans hown))

end Space

/-! ## What is sent -/

namespace Transport

/-- The writes that a transport was asked to send, if it keeps an account of them. -/
def outbox? : Transport → Option (List Tuple)
  | standalone _ => none
  | scripted s => some s.published

variable {t t' : Transport}

theorem outbox?_publish (t : Transport) (tuple : Tuple) :
    (t.publish tuple).1.outbox? = t.outbox?.map (· ++ [tuple]) := by
  cases t with
  | standalone closed => rfl
  | scripted s =>
    rw [publish, Script.publish]
    dsimp only
    split
    next => rfl
    next => split <;> rfl

theorem outbox?_step (t : Transport) : t.step.1.outbox? = t.outbox? := by
  cases t with
  | standalone closed => rfl
  | scripted s =>
    rw [step, Script.step]
    cases s.failingSteps <;> rfl

theorem outbox?_close (t : Transport) : t.close.outbox? = t.outbox? := by
  cases t <;> rfl

theorem outbox?_connect {url : String} (h : t.connect url = .ok t') : t'.outbox? = t.outbox? := by
  cases t with
  | standalone closed => cases h
  | scripted s =>
    rw [connect, Script.connect] at h
    split at h
    next => cases h
    next => cases h; rfl

end Transport

namespace Config

variable (config : Config)

/-- Whether a write for a place is sent to a peer. -/
def sends : Except TupleError Location → Bool
  | .ok l => config.allowRemoteWrites && l.owner ≠ config.localId
  | .error _ => false

/-- A tuple with this process as its writer. -/
def sign (t : Tuple) : Tuple := { t with creator := some config.localId }

theorem location_sign {t : Tuple} {l : Location} (h : t.location = .ok l) :
    (config.sign t).location = .ok l := by
  obtain ⟨hconcrete, howner, hkey⟩ := Tuple.location_eq_ok_iff.1 h
  refine Tuple.location_eq_ok_iff.2 ⟨?_, howner, hkey⟩
  simp only [Tuple.isAbstract, Bool.or_eq_false_iff] at hconcrete
  simp [Tuple.isAbstract, sign, hconcrete]

/-- What goes to a peer when a request is served. -/
def sent : Request → List Tuple
  | .insert t => if config.sends t.location then [config.sign t] else []
  | .delete l =>
    if config.sends (l.requireConcrete.map fun _ => l) then
      [Kernel.deletionMark l config.localId]
    else []
  | _ => []

end Config

namespace Kernel

variable {k k' k'' : Kernel} {config : Config} {l : Location}

/-! ## The outbox -/

/-- The callbacks that ran during a change send nothing. -/
theorem transport_adopt (k : Kernel) (s : Space Reaction) :
    (k.adopt s).transport = k.transport :=
  (k.keeps_adopt s).eq Kernel.transport (by intros; rfl)

/-- While a kernel turns into another, these tuples go to the transport. A transport that keeps no
account of them has nothing to say. -/
def Posts (k : Kernel) (ts : List Tuple) (k' : Kernel) : Prop :=
  k'.transport.outbox? = k.transport.outbox?.map (· ++ ts)

theorem Posts.silent (h : k'.transport.outbox? = k.transport.outbox?) : k.Posts [] k' := by
  rw [Posts, h]
  simp

theorem Posts.trans {xs ys : List Tuple} (h : k.Posts xs k') (h' : k'.Posts ys k'') :
    k.Posts (xs ++ ys) k'' := by
  rw [Posts, h', h, Option.map_map]
  simp [Function.comp_def, List.append_assoc]

theorem Posts.of_transport (h : k'.transport = k.transport) : k.Posts [] k' :=
  .silent (congrArg Transport.outbox? h)

/-! ## The ways of a write -/

/-- What becomes of a write or a deletion for a place. It is applied to the space of the process, or
it is sent to a peer as the tuple `t`, or it is refused. -/
inductive Routed (k : Kernel) (place : Except TupleError Location)
    (outcome : Except TupleError (Space Reaction × Mutation)) (t : Tuple) :
    Kernel × Except KernelError Accepted → Prop
  /-- The space is the one after the change, and nothing is sent. -/
  | here {k' : Kernel} {l : Location} {change : Mutation} (hplace : place = .ok l)
    (howner : l.owner = k.localId) (houtcome : outcome = .ok (k'.space, change))
    (htransport : k'.transport = k.transport) :
    Routed k place outcome t (k', .ok (.here (.ofChange change)))
  /-- The tuple is sent with this process as its writer, and the space is as it was. -/
  | sent {k' : Kernel} {ticket : Ticket} (hsends : k.config.sends place = true)
    (hcreator : t.creator = some k.localId) (hspace : k'.space = k.space)
    (hpublish : k.transport.publish t = (k'.transport, ticket)) :
    Routed k place outcome t (k', .ok (.sent ticket))
  /-- Nothing is done. The place has wildcards, or is a peer's and nothing may be sent. -/
  | refused {e : KernelError}
    (hplace : ∀ l, place = .ok l → l.owner ≠ k.localId ∧ k.config.allowRemoteWrites = false) :
    Routed k place outcome t (k, .error e)

theorem routed_commit {place : Except TupleError Location} {t : Tuple}
    {outcome : Except TupleError (Space Reaction × Mutation)} (hplace : place = .ok l)
    (howner : l.owner = k.localId) (hok : ∃ r, outcome = .ok r) :
    k.Routed place outcome t (k.commit outcome) := by
  obtain ⟨⟨space, change⟩, rfl⟩ := hok
  exact .here hplace howner (by rw [space_adopt]) (k.transport_adopt space)

theorem routed_send {place : Except TupleError Location} {t : Tuple}
    {outcome : Except TupleError (Space Reaction × Mutation)} (hplace : place = .ok l)
    (howner : l.owner ≠ k.localId) (hcreator : t.creator = some k.localId) :
    k.Routed place outcome t (k.send l.owner t) := by
  rw [send]
  split
  next hallowed =>
    refine .sent ?_ hcreator rfl rfl
    rw [hplace, Config.sends, hallowed]
    exact decide_eq_true howner
  next hforbidden =>
    refine .refused fun other hother => ?_
    obtain rfl := Except.ok.inj (hplace.symm.trans hother)
    exact ⟨howner, by simpa using hforbidden⟩

theorem routed_insert (k : Kernel) (t : Tuple) :
    k.Routed t.location (k.space.write (k.config.sign t) k.now) (k.config.sign t) (k.insert t) := by
  rw [insert]
  cases hplace : t.location with
  | error e => exact .refused fun _ h => by cases h
  | ok l =>
    have hsigned := k.config.location_sign hplace
    dsimp only
    split
    next howner => exact routed_commit rfl howner (Space.exists_write_eq_ok hsigned k.now)
    next howner => exact routed_send rfl howner rfl

theorem routed_delete (k : Kernel) (l : Location) :
    k.Routed (l.requireConcrete.map fun _ => l) (k.space.delete l (some k.localId) k.now)
      (deletionMark l k.localId) (k.delete l) := by
  rw [delete]
  split
  next howner =>
    cases hconcrete : l.requireConcrete with
    | error e =>
      have hfails : k.space.delete l (some k.localId) k.now = .error e := by
        rw [Space.delete, hconcrete]
        rfl
      rw [hfails]
      exact .refused fun _ h => by cases h
    | ok _ => exact routed_commit rfl howner (Space.exists_delete_eq_ok hconcrete ..)
  next howner =>
    cases l.requireConcrete with
    | error e => exact .refused fun _ h => by cases h
    | ok _ => exact routed_send rfl howner rfl

namespace Routed

variable {place : Except TupleError Location} {t : Tuple}
  {outcome : Except TupleError (Space Reaction × Mutation)}
  {result : Kernel × Except KernelError Accepted}

/-- Where the change itself leaves a value alone, it is left alone whichever way is taken. -/
theorem content (h : k.Routed place outcome t result)
    (hkept : ∀ other, place = .ok other → other.owner = k.localId →
      (k.space.settled outcome).peek l = k.space.peek l) :
    result.1.space.store.content l = k.space.store.content l := by
  cases h with
  | here hplace howner houtcome htransport =>
    have hpeek := hkept _ hplace howner
    rw [houtcome] at hpeek
    exact congrArg (Option.map Tuple.ignoringFresh) hpeek
  | sent hsends hcreator hspace hpublish => exact congrArg (·.store.content l) hspace
  | refused hplace => rfl

/-- What is sent is sent once, and what is applied or refused is not sent at all. -/
theorem posts (h : k.Routed place outcome t result) :
    k.Posts (if k.config.sends place then [t] else []) result.1 := by
  cases h with
  | here hplace howner houtcome htransport =>
    have hsends : k.config.sends place = false := by
      rw [hplace, Config.sends, show k.config.localId = k.localId from rfl, howner]
      simp
    rw [hsends]
    exact .of_transport htransport
  | sent hsends hcreator hspace hpublish =>
    have houtbox := k.transport.outbox?_publish t
    rw [hpublish] at houtbox
    rw [hsends]
    exact houtbox
  | refused hplace =>
    have hsends : k.config.sends place = false := by
      cases place with
      | error e => rfl
      | ok l => simp [Config.sends, hplace l rfl]
    rw [hsends]
    exact .of_transport rfl

end Routed

/-! ## Requests -/

theorem content_get (k : Kernel) (l : Location) (onlyFresh : Bool) :
    (k.get l onlyFresh).1.space.store.content = k.space.store.content := by
  rw [get, Space.get]
  cases hget : k.space.store.get l onlyFresh with
  | error e => rfl
  | ok r => exact Store.content_get hget

theorem content_getIndirect (k : Kernel) (prototype : Tuple) (onlyFresh : Bool) :
    (k.getIndirect prototype onlyFresh).1.space.store.content = k.space.store.content := by
  have hfirst : (k.first prototype.ignoringFresh).1.space.store.content = k.space.store.content :=
    Store.content_first ..
  rcases k.getIndirect_cases prototype onlyFresh with heq | ⟨l, fresh, heq⟩
  · rwa [heq]
  · rw [heq]
    exact (content_get ..).trans hfirst

/-- No request changes a tuple of another process, but for the mark of reading. -/
theorem content_serve (hs : k.space.store.Sound) (hlocal : k.space.localId = k.localId)
    (r : Request) (hl : l.owner ≠ k.localId) :
    (k.serve r).1.space.store.content l = k.space.store.content l := by
  have hforeign : l.owner ≠ k.space.localId := hlocal ▸ hl
  -- The list of keys is a tuple of this process.
  have hlisting : l ≠ k.space.listingPlace := fun heq => hforeign (congrArg Location.owner heq)
  cases r with
  | insert t =>
    refine (k.routed_insert t).content fun other hplace howner =>
      Space.peek_settled_write (fun hsame => hl ?_) hlisting k.now
    have hother : t.Addresses other := Tuple.location_owner_key hplace
    rw [hsame.unique hother, howner]
  | delete place =>
    refine (k.routed_delete place).content fun other hplace howner =>
      Space.peek_settled_delete (fun heq => hl ?_) (fun _ => hlisting) ..
    rw [heq, Location.eq_of_requireConcrete hplace, howner]
  | append p suffix expected =>
    rw [serve, append]
    split
    next => rfl
    next =>
      dsimp only
      rw [space_adopt]
      exact Space.content_append_of_owner_ne hs hforeign ..
  | get place onlyFresh => exact congrFun (k.content_get ..) l
  | first p => exact congrFun (Store.content_first ..) l
  | search p => exact congrFun (Store.content_search ..) l
  | getIndirect prototype onlyFresh => exact congrFun (k.content_getIndirect ..) l
  | connect url =>
    rw [serve, connect]
    split <;> rfl
  | isPresent place => rfl
  | resolve place => rfl
  | isMeta place => rfl
  | hasSubscriber p => rfl
  | owners key => rfl
  | stats => rfl
  | sync => rfl

/-! ## Messages -/

theorem space_absorb (k : Kernel) (origin : Origin)
    (outcome : Except TupleError (Space Reaction × Mutation)) :
    (k.absorb origin outcome).space = k.space.settled outcome := by
  cases outcome with
  | error e => rfl
  | ok r => exact k.space_adopt r.1

/-- What a peer publishes leaves the tuples of this process. -/
theorem peek_receive_published (k : Kernel) (t : Tuple) (hl : l.owner = k.localId) :
    (k.receive (.published t)).space.peek l = k.space.peek l := by
  rw [receive]
  split
  next => rfl
  next howner =>
    rw [space_absorb]
    have hne : t.owner ≠ some l.owner := hl ▸ howner
    exact Space.peek_settled_writeReplica (fun hsame => hne hsame.1)
      (fun hlocal heq => hne (heq ▸ hlocal)) k.now

/-- What a peer asks for leaves the tuples of all other processes. -/
theorem peek_receive_setRequest (hlocal : k.space.localId = k.localId) (t : Tuple)
    (hl : l.owner ≠ k.localId) : (k.receive (.setRequest t)).space.peek l = k.space.peek l := by
  rw [receive]
  split
  next howner =>
    have hne : t.owner ≠ some l.owner := fun heq => hl (Option.some.inj (heq.symm.trans howner))
    have hlisting : l ≠ k.space.listingPlace := fun heq =>
      hl ((congrArg Location.owner heq).trans hlocal)
    rw [space_absorb]
    exact Space.peek_settled_write (fun hsame => hne hsame.1) hlisting k.now
  next => rfl

/-! ## Sending -/

theorem transport_get (k : Kernel) (l : Location) (onlyFresh : Bool) :
    (k.get l onlyFresh).1.transport = k.transport := by
  rw [get]
  split <;> rfl

theorem transport_getIndirect (k : Kernel) (prototype : Tuple) (onlyFresh : Bool) :
    (k.getIndirect prototype onlyFresh).1.transport = k.transport := by
  rcases k.getIndirect_cases prototype onlyFresh with heq | ⟨l, fresh, heq⟩
  · rw [heq]
    rfl
  · rw [heq]
    exact transport_get ..

theorem transport_append (k : Kernel) (p : Tuple) (suffix : List UInt8) (expected : Option Nat) :
    (k.append p suffix expected).1.transport = k.transport := by
  rw [append]
  split
  next => rfl
  next => exact k.transport_adopt _

/-- A request sends what it has to send, once, and nothing else. -/
theorem posts_serve (k : Kernel) (r : Request) : k.Posts (k.config.sent r) (k.serve r).1 := by
  cases r with
  | insert t => exact (k.routed_insert t).posts
  | delete l => exact (k.routed_delete l).posts
  | get l onlyFresh => exact .of_transport (k.transport_get ..)
  | getIndirect prototype onlyFresh => exact .of_transport (k.transport_getIndirect ..)
  | append p suffix expected => exact .of_transport (k.transport_append ..)
  | connect url =>
    apply Posts.silent
    rw [serve, connect]
    split
    next => rfl
    next hconnect => exact Transport.outbox?_connect hconnect
  | first p => exact .of_transport rfl
  | search p => exact .of_transport rfl
  | isPresent l => exact .of_transport rfl
  | resolve l => exact .of_transport rfl
  | isMeta l => exact .of_transport rfl
  | hasSubscriber p => exact .of_transport rfl
  | owners key => exact .of_transport rfl
  | stats => exact .of_transport rfl
  | sync => exact .of_transport rfl

theorem posts_serveAll (k : Kernel) (rs : List Request) :
    k.Posts (rs.flatMap k.config.sent) (k.serveAll rs).1 := by
  induction rs generalizing k with
  | nil => exact .of_transport rfl
  | cons r rest ih =>
    have hrest := ih (k.serve r).1
    rw [(k.evolves_serve r).config] at hrest
    exact (k.posts_serve r).trans hrest

theorem transport_absorb (k : Kernel) (origin : Origin)
    (outcome : Except TupleError (Space Reaction × Mutation)) :
    (k.absorb origin outcome).transport = k.transport := by
  cases outcome with
  | error e => rfl
  | ok r => exact k.transport_adopt r.1

theorem transport_receive (k : Kernel) (message : Inbound) :
    (k.receive message).transport = k.transport := by
  cases message with
  | published t =>
    rw [receive]
    split
    next => rfl
    next => exact transport_absorb ..
  | setRequest t =>
    rw [receive]
    split
    next => exact transport_absorb ..
    next => rfl

theorem transport_receiveAll (k : Kernel) (messages : List Inbound) :
    (messages.foldl receive k).transport = k.transport := by
  induction messages generalizing k with
  | nil => rfl
  | cons message rest ih => exact (ih _).trans (k.transport_receive message)

theorem transport_sweep (k : Kernel) : k.sweep.transport = k.transport := transport_adopt ..

theorem posts_endTick (k : Kernel) : k.Posts [] k.endTick.1 := by
  have hstep : k.Posts [] { k with transport := k.transport.step.1 } :=
    .silent (Transport.outbox?_step _)
  have hheard (k : Kernel) (messages : List Inbound) (metrics : Metrics) :
      k.Posts [] { (messages.foldl receive k).sweep with metrics } :=
    .of_transport ((transport_sweep _).trans (transport_receiveAll ..))
  rw [endTick]
  dsimp only
  split
  next => exact hstep.trans (hheard ..)
  next => exact hstep

theorem posts_finish (k : Kernel) (why : Ending) (pending : List Request) :
    k.Posts ((if why = .transportStopped then [] else pending).flatMap k.config.sent)
      (k.finish why pending).1 := by
  have hclose (k : Kernel) : k.Posts [] k.closeTransport := .silent (Transport.outbox?_close _)
  have hserved : k.Posts (pending.flatMap k.config.sent)
      ({ k with state := .shuttingDown }.applyQueued.serveAll pending).1.closeTransport := by
    have hall := posts_serveAll { k with state := .shuttingDown }.applyQueued pending
    have hboth := hall.trans (hclose _)
    rw [List.append_nil] at hboth
    exact hboth
  cases why with
  | shutdown => exact hserved
  | abandoned => exact hserved
  | transportStopped => exact hclose _

/-- The requests that wait when the transport breaks down are refused, and nothing is done for them.
-/
theorem finish_transportStopped (k : Kernel) (pending : List Request) :
    (k.finish .transportStopped pending).1.space = k.space ∧
      ∀ reply ∈ (k.finish .transportStopped pending).2, ∃ e, reply.answer = .error e := by
  refine ⟨rfl, fun reply hreply => ?_⟩
  obtain ⟨r, -, rfl⟩ := List.mem_map.1 hreply
  exact ⟨_, rfl⟩

/-! ## Runs -/

/-- The requests that a move serves, in their order. -/
def Move.served : Move → List Request
  | .serve r => [r]
  | .finish why pending => if why = .transportStopped then [] else pending
  | _ => []

/-- What happens to a kernel, taken apart as far as the dispatch loop does it one thing after the
other: it applies the registrations that wait, serves a request, or takes in a message. -/
inductive Occurrence where
  | move (m : Move)
  | apply
  | serve (r : Request)
  | receive (message : Inbound)

def Occurrence.served : Occurrence → List Request
  | .move m => m.served
  | .serve r => [r]
  | _ => []

def occur (k : Kernel) : Occurrence → Kernel
  | .move m => k.after m
  | .apply => k.applyQueued
  | .serve r => (k.serve r).1
  | .receive message => k.receive message

def run (k : Kernel) (xs : List Occurrence) : Kernel := xs.foldl occur k

/-- What happens outside sends nothing in the name of the kernel. -/
def LeavesOutbox (k : Kernel) : Occurrence → Prop
  | .move (.environment transport _) => transport.outbox? = k.transport.outbox?
  | _ => True

def Undisturbed : Kernel → List Occurrence → Prop
  | _, [] => True
  | k, x :: rest => k.LeavesOutbox x ∧ Undisturbed (k.occur x) rest

theorem evolves_occur (k : Kernel) (x : Occurrence) : k.Evolves (k.occur x) := by
  cases x with
  | move m => exact k.evolves_after m
  | apply => exact k.evolves_applyQueued
  | serve r => exact k.evolves_serve r
  | receive message => exact k.evolves_receive message

theorem evolves_run (k : Kernel) (xs : List Occurrence) : k.Evolves (k.run xs) := by
  induction xs generalizing k with
  | nil => exact .refl k
  | cons x rest ih => exact (k.evolves_occur x).trans (ih _)

theorem posts_after {m : Move} (hm : k.LeavesOutbox (.move m)) :
    k.Posts (m.served.flatMap k.config.sent) (k.after m) := by
  cases m with
  | serve r =>
    have hserve : k.Posts (k.config.sent r) (k.serveNext r).1 := k.applyQueued.posts_serve r
    rwa [← List.flatMap_singleton k.config.sent r] at hserve
  | beginTick => exact .of_transport rfl
  | endTick => exact k.posts_endTick
  | finish why pending => exact k.posts_finish why pending
  | abort => exact .of_transport rfl
  | enrol e => exact .of_transport ((keeps_enrolUnder ..).eq Kernel.transport (by intros; rfl))
  | enrolThrough source callback =>
    rw [after, enrolThrough]
    split
    next => exact .of_transport rfl
    next => exact .of_transport ((keeps_enrolUnder ..).eq Kernel.transport (by intros; rfl))
  | unsubscribe h => exact .of_transport ((k.keeps_unsubscribe h).eq Kernel.transport (by intros; rfl))
  | retain => exact .of_transport rfl
  | dismiss => exact .of_transport rfl
  | acknowledge ticket =>
    rw [after]
    cases k.transport.delivery ticket with
    | pending => exact .of_transport rfl
    | answered answer => cases answer <;> exact .of_transport rfl
    | lost => exact .of_transport rfl
  | environment transport clock => exact .silent hm

theorem posts_occur {x : Occurrence} (hx : k.LeavesOutbox x) :
    k.Posts (x.served.flatMap k.config.sent) (k.occur x) := by
  cases x with
  | move m => exact posts_after hx
  | apply => exact .of_transport rfl
  | serve r =>
    have hserve := k.posts_serve r
    rwa [← List.flatMap_singleton k.config.sent r] at hserve
  | receive message => exact .of_transport (k.transport_receive message)

/-- What is sent during a run is what its requests have to send, in the order in which they are
served. -/
theorem posts_run {xs : List Occurrence} (hxs : k.Undisturbed xs) :
    k.Posts ((xs.flatMap Occurrence.served).flatMap k.config.sent) (k.run xs) := by
  induction xs generalizing k with
  | nil => exact .of_transport rfl
  | cons x rest ih =>
    have hrest := ih hxs.2
    rw [(k.evolves_occur x).config] at hrest
    rw [List.flatMap_cons, List.flatMap_append]
    exact (posts_occur hxs.1).trans hrest

/-- Throughout a run nobody changes what is not theirs. What a peer publishes leaves the tuples of
this process as they are, what a peer asks for and what a client asks for leave those of all other
processes. A client's write or deletion goes one of three ways, and is refused if the transport
breaks down before it is served. What is sent during a run are the writes and deletions of others'
tuples that were served, each once and in their order. -/
theorem run_separates_owners {transport : Transport} {clock : Clock}
    (h : Kernel.start config transport clock = .ok k) (xs : List Occurrence) :
    let k' := k.run xs
    k'.config = config ∧
    (∀ t l, l.owner = config.localId →
      (k'.receive (.published t)).space.peek l = k'.space.peek l) ∧
    (∀ t l, l.owner ≠ config.localId →
      (k'.receive (.setRequest t)).space.peek l = k'.space.peek l) ∧
    (∀ r l, l.owner ≠ config.localId →
      (k'.serve r).1.space.store.content l = k'.space.store.content l) ∧
    (∀ t, k'.Routed t.location (k'.space.write (config.sign t) k'.now) (config.sign t)
      (k'.serve (.insert t))) ∧
    (∀ l, k'.Routed (l.requireConcrete.map fun _ => l)
      (k'.space.delete l (some config.localId) k'.now) (deletionMark l config.localId)
      (k'.serve (.delete l))) ∧
    (∀ pending, (k'.finish .transportStopped pending).1.space = k'.space ∧
      ∀ reply ∈ (k'.finish .transportStopped pending).2, ∃ e, reply.answer = .error e) ∧
    (k.Undisturbed xs → k.Posts ((xs.flatMap Occurrence.served).flatMap config.sent) k') := by
  intro k'
  obtain ⟨-, -, hopened⟩ := start_eq_ok_iff.1 h
  have hstart : (blank config transport clock).Evolves k := hopened ▸ evolves_opened ..
  have hevolves : (blank config transport clock).Evolves k' := hstart.trans (k.evolves_run xs)
  have hblank : (blank config transport clock).space.Coherent := Session.coherent_start ..
  have hsound := (hevolves.space.coherent hblank).sound
  have hconfig : k'.config = config := hevolves.config
  have hid : k'.localId = config.localId := hevolves.localId
  have hlocal : k'.space.localId = k'.localId := (hevolves.space.localId hblank).trans hid.symm
  simp only [← hid]
  refine ⟨hconfig, fun t l hl => k'.peek_receive_published t hl,
    fun t l hl => peek_receive_setRequest hlocal t hl,
    fun r l hl => content_serve hsound hlocal r hl, fun t => ?_, k'.routed_delete,
    k'.finish_transportStopped, fun hxs => ?_⟩
  · have hrouted := k'.routed_insert t
    rwa [hconfig] at hrouted
  · have hposts := posts_run hxs
    rwa [show k.config = config from hstart.config] at hposts

/-- A kernel just started, with a peer. -/
def courier : Kernel := .opened {} (.scripted {}) ⟨1000000000⟩

def ours : Location := ⟨1, ⟨[some "x"]⟩⟩

def theirs : Location := ⟨2, ⟨[some "x"]⟩⟩

/-- Both processes have a value under one key. A forged message of the peer's, and a misdirected
one, do no harm to them, and the peer gets what is for it. -/
theorem courier_separates_owners :
    let letter := Tuple.plainText 2 theirs.key "v"
    let xs : List Occurrence :=
      [.serve (.insert letter), .serve (.insert (.plainText 1 ours.key "w")),
        .receive (.published letter), .move .endTick, .serve (.delete theirs)]
    let k := courier.run xs
    Kernel.start {} (.scripted {}) ⟨1000000000⟩ = .ok courier ∧ courier.Undisturbed xs ∧
      (k.space.peek ours).isSome = true ∧ (k.space.peek theirs).isSome = true ∧
      (k.receive (.published (.plainText 1 ours.key "forged"))).space.peek ours
        = k.space.peek ours ∧
      (k.receive (.setRequest letter)).space.peek theirs = k.space.peek theirs ∧
      k.transport.outbox? = some [{ letter with creator := some 1 }, deletionMark theirs 1] := by
  intro letter xs k
  have hstart : Kernel.start {} (.scripted {}) ⟨1000000000⟩ = .ok courier :=
    start_eq_ok_iff.2 ⟨by decide, by decide, rfl⟩
  have hxs : courier.Undisturbed xs := ⟨trivial, trivial, trivial, trivial, trivial, trivial⟩
  obtain ⟨-, hpublished, hrequested, -, -, -, -, hposts⟩ := run_separates_owners hstart xs
  have houtbox : k.transport.outbox? = courier.transport.outbox?.map (· ++ _) := hposts hxs
  exact ⟨hstart, hxs, by decide +kernel, by decide +kernel, hpublished _ ours rfl,
    hrequested letter theirs (by decide), houtbox.trans (by decide +kernel)⟩

end Kernel

end Blackboard
