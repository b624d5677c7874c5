import Blackboard.Proofs.Kernel.FirstCovered

/-!
# Locations with wildcards

Whoever names a location means one place, so a key with wildcards is refused. A client finds this out
before it asks, when the dispatch loop looks at what it is asked, or when the store is about to look a
value up, and at none of these places has anything been done.

One way to use a location has no such place. A read through the meta tuple at a location turns the
location into a pattern at once, and a pattern may have wildcards: it goes through whatever comes first
under them.
-/

namespace Blackboard

/-- It ends with an error and does nothing. What it asks the dispatch loop for is refused by every
kernel, which is left as it was. -/
inductive Program.Refused {α : Type} (e : KernelError) : Program α → Prop where
  | done : Refused e (.done (.error e))
  | ask {r : Request} {next : Except KernelError r.Answer → Program α}
    (refused : ∀ k : Kernel, k.serve r = (k, .error e)) (ends : Refused e (next (.error e))) :
    Refused e (.ask r next)

/-- The ways in which a client uses the location it names. -/
inductive Approach where
  | getExact
  | get (flags : GetFlags)
  /-- Reads through the meta tuple there. -/
  | getIndirect (flags : GetFlags)
  | delete
  /-- Waits for an owner of the key. -/
  | findOwner (timeout : Option Duration)
  | setMeta (target : Option Reference)
  /-- Enrols, with a callback or without, for what the meta tuple there names. -/
  | enrolThrough (callback : Option Reaction)

namespace Approach

abbrev Result : Approach → Type
  | getExact => Option Tuple
  | get _ => Option Tuple
  | getIndirect _ => Option Tuple
  | delete => Receipt
  | findOwner _ => Owner
  | setMeta _ => Receipt
  | enrolThrough _ => Handle

def call (l : Location) : (a : Approach) → Call a.Result
  | getExact => Client.getExact l
  | get flags => Client.get l flags
  | getIndirect flags => Client.getIndirect l flags
  | delete => Client.delete l
  | findOwner timeout => Client.findOwner l.key timeout
  | setMeta target => Client.setMeta l target
  | enrolThrough callback => Client.enrolThrough l callback

/-- What a refusal shows: the key, the tuple to be written, or the location. -/
def subject (l : Location) : Approach → String
  | findOwner _ => l.key.render
  | setMeta target => (Reference.metaTuple l target).render
  | _ => l.render

/-- Why a location with wildcards is refused. -/
def refusal (l : Location) (a : Approach) : KernelError := .tuple (.abstractUse (a.subject l))

/-- True if what is at the location is not what is asked for, but the way to it. -/
def readsThrough : Approach → Bool
  | getIndirect _ => true
  | _ => false

end Approach

namespace Program

variable {α : Type} {e : KernelError} {r : Request}

theorem refused_request (h : ∀ k : Kernel, k.serve r = (k, .error e)) (next : r.Answer → Program α) :
    (Program.request r next).Refused e := .ask h .done

theorem refused_query (h : ∀ k : Kernel, k.serve r = (k, .error e)) : (Program.query r).Refused e :=
  .ask h .done

/-- A read is refused only by a dispatch loop that answers so. -/
theorem not_refused_read {flags : GetFlags} {k : Kernel} {value : r.Answer → Option Tuple}
    (h : (k.serve r).2 ≠ .error e) : ¬ (Client.read flags k r value).Refused e := by
  rw [Client.read]
  split
  next => exact fun hrefused => nomatch hrefused
  next =>
    rintro (_ | ⟨hserve, -⟩)
    exact h (congrArg Prod.snd (hserve k))

end Program

namespace Kernel

variable {k : Kernel} {l : Location}

/-! ## Where wildcards are refused -/

theorem requireConcrete_of_wildcard (hl : l.key.isConcrete = false) :
    l.requireConcrete = .error (.abstractUse l.render) :=
  if_neg (by simp [hl])

theorem serve_get_of_wildcard (hl : l.key.isConcrete = false) (k : Kernel) (onlyFresh : Bool) :
    k.serve (.get l onlyFresh) = (k, .error (.tuple (.abstractUse l.render))) := by
  have hstore : k.space.store.get l onlyFresh = .error (.abstractUse l.render) := by
    rw [Store.get, requireConcrete_of_wildcard hl]
    rfl
  rw [serve, get, Space.get, hstore]
  rfl

/-- The space refuses what belongs to the process, the kernel what belongs to others. -/
theorem serve_delete_of_wildcard (hl : l.key.isConcrete = false) (k : Kernel) :
    k.serve (.delete l) = (k, .error (.tuple (.abstractUse l.render))) := by
  have hspace : k.space.delete l (some k.localId) k.now = .error (.abstractUse l.render) := by
    rw [Space.delete, requireConcrete_of_wildcard hl]
    rfl
  rw [serve, delete]
  split
  next => rw [hspace, commit]
  next => rw [requireConcrete_of_wildcard hl]

theorem serve_insert_of_wildcard (hl : l.key.isConcrete = false) (target : Option Reference)
    (k : Kernel) : k.serve (.insert (Reference.metaTuple l target))
      = (k, .error (.tuple (.abstractUse (Reference.metaTuple l target).render))) := by
  have habstract : (Reference.metaTuple l target).isAbstract = true := by
    simp [Reference.metaTuple, Tuple.new, Tuple.isAbstract, hl]
  have hlocation : (Reference.metaTuple l target).location
      = .error (.abstractUse (Reference.metaTuple l target).render) := if_pos habstract
  rw [serve, insert, hlocation]

theorem refused_of_wildcard (hl : l.key.isConcrete = false) {a : Approach}
    (ha : a.readsThrough = false) (k : Kernel) : (a.call l k).2.Refused (a.refusal l) := by
  cases a with
  | getExact => exact Program.refused_query fun k => serve_get_of_wildcard hl k false
  | get flags =>
    show (Client.checkedProgram l.requireConcrete _).Refused _
    rw [requireConcrete_of_wildcard hl]
    exact .done
  | getIndirect flags => cases ha
  | delete => exact Program.refused_request (serve_delete_of_wildcard hl) _
  | findOwner timeout =>
    show (ite (l.key.isConcrete = true) _ _ : Program Owner).Refused _
    rw [if_neg (by simp [hl])]
    exact .done
  | setMeta target => exact Program.refused_request (serve_insert_of_wildcard hl target) _
  | enrolThrough callback =>
    show (Client.immediate (fun k => k.enrolThrough l callback) k).2.Refused _
    rw [Client.immediate, enrolThrough, Enrolment.through, requireConcrete_of_wildcard hl]
    exact .done

/-- A call that comes to nothing has done nothing to the kernel either. -/
theorem call_fst_of_wildcard (hl : l.key.isConcrete = false) (a : Approach) (k : Kernel) :
    (a.call l k).1 = k := by
  cases a with
  | enrolThrough callback =>
    show (Client.immediate (fun k => k.enrolThrough l callback) k).1 = k
    rw [Client.immediate, enrolThrough, Enrolment.through, requireConcrete_of_wildcard hl]
    rfl
  | _ => rfl

/-! ## Reads through what comes first -/

/-- The client is told what the dispatch loop answers. -/
theorem not_refused_of_serve {flags : GetFlags} {e : KernelError}
    (h : (k.serve (.getIndirect l.pattern !flags.keepOld)).2 ≠ .error e) :
    ¬ ((Approach.getIndirect flags).call l k).2.Refused e := Program.not_refused_read h

/-- A stored tuple has a payload, so there is nothing missing that a report could be about. -/
theorem eq_invalidMeta_of_resolve {s : Store} (hs : s.Sound) {t : Tuple} (ht : s.peek l = some t)
    {e : TupleError} (h : Reference.resolve t = .error e) : ∃ reason, e = .invalidMeta reason := by
  obtain ⟨habstract, -, -⟩ := Tuple.location_eq_ok_iff.1 (hs.filed l t ht)
  obtain ⟨payload, hpayload⟩ : ∃ payload, t.payload = some payload := by
    cases hpayload : t.payload with
    | none => simp [Tuple.isAbstract, hpayload] at habstract
    | some payload => exact ⟨payload, rfl⟩
  cases htype : Reference.isMetaType t with
  | false =>
    rw [Reference.resolve_of_ordinary htype] at h
    cases h
    exact ⟨_, rfl⟩
  | true =>
    rw [Reference.resolve_of_meta htype hpayload] at h
    exact Reference.eq_invalidMeta_of_parse h

theorem getIndirect_ne_abstract (hs : k.space.store.Sound) (prototype : Tuple) (onlyFresh : Bool)
    (subject : String) :
    (k.getIndirect prototype onlyFresh).2 ≠ .error (.tuple (.abstractUse subject)) := by
  intro h
  obtain ⟨m, cause, hm, hcause⟩ := unreadable_of_getIndirect h
  obtain ⟨place, hplace, -⟩ := Store.first_eq_some hm
  obtain ⟨reason, rfl⟩ := eq_invalidMeta_of_resolve hs hplace hcause
  rw [getIndirect_of_unreadable hm hcause] at h
  cases h

theorem getIndirect_of_uncovered (hs : k.space.store.Sound) {prototype : Tuple}
    (h : k.space.store.firstOf (k.space.store.follows prototype) = none) (onlyFresh : Bool) :
    (k.getIndirect prototype onlyFresh).2 = .ok none := by
  have hfirst : (k.first prototype.ignoringFresh).2 = none := (hs.first_eq prototype).trans h
  rw [getIndirect]
  simp only [hfirst]

/-- A value that was seen stays seen when something is read. -/
theorem seen_get {place : Location} (h : (k.space.peek place).bind (·.fresh) = some false)
    (l : Location) (onlyFresh : Bool) :
    ((k.get l onlyFresh).1.space.peek place).bind (·.fresh) = some false := by
  rcases k.get_cases l onlyFresh with heq | ⟨store, found, hstore, heq⟩ <;> rw [heq]
  · exact h
  · rw [Store.get_of_isConcrete _ (Store.isConcrete_of_get hstore)] at hstore
    cases hstore
    show (Store.peek _ place).bind _ = _
    split
    next =>
      rw [Store.peek_markSeen]
      show ((k.space.peek place).map _).bind _ = _
      cases hplace : k.space.peek place with
      | none => rw [hplace] at h; cases h
      | some t =>
        rw [hplace] at h
        rw [Option.map_some]
        split
        next => rfl
        next => exact h
    next => exact h

/-- What is read through counts as seen, whatever comes of it. -/
theorem seen_getIndirect (hs : k.space.store.Sound) {prototype t : Tuple}
    (h : k.space.store.firstOf (k.space.store.follows prototype) = some t) (onlyFresh : Bool) :
    ∃ place, k.space.peek place = some t ∧
      ((k.getIndirect prototype onlyFresh).1.space.peek place).bind (·.fresh) = some false := by
  obtain ⟨place, hplace, hstore⟩ := Store.first_eq_some ((hs.first_eq prototype).trans h)
  have hfirst : ((k.first prototype.ignoringFresh).1.space.peek place).bind (·.fresh)
      = some false := by
    show ((k.space.store.first prototype.ignoringFresh).1.peek place).bind _ = _
    rw [hstore]
    exact Store.fresh_markSeen (show k.space.store.countRead.peek place = some t from hplace)
  refine ⟨place, hplace, ?_⟩
  rcases k.getIndirect_cases prototype onlyFresh with heq | ⟨l, fresh, heq⟩
  · rwa [heq]
  · rw [heq]
    exact seen_get hfirst l fresh

/-- A location with wildcards is refused by every kernel, which is left as it was, unless it is read
through. Such a read is never refused for its wildcards: if nothing is covered it finds nothing, and
otherwise what comes first counts as seen from then on. -/
theorem wildcards_refused_unless_read_through (hk : k.Reachable) (hl : l.key.isConcrete = false) :
    (∀ a : Approach, (a.call l k).1 = k ∧
      ((a.call l k).2.Refused (a.refusal l) ↔ a.readsThrough = false)) ∧
    ∀ flags, (Client.getIndirect l flags k).2
        = Client.read flags k (.getIndirect l.pattern !flags.keepOld) id ∧
      ∀ onlyFresh,
        let served := k.serveNext (.getIndirect l.pattern onlyFresh)
        let first := k.space.store.firstOf (k.space.store.follows l.pattern)
        (∀ subject, served.2 ≠ .error (.tuple (.abstractUse subject))) ∧
        (first = none → served.2 = .ok none) ∧
        ∀ t ∈ first, ∃ place, k.space.peek place = some t ∧
          (served.1.space.peek place).bind (·.fresh) = some false := by
  have hsound : k.space.store.Sound := hk.coherent.sound
  have hstore : k.applyQueued.space.store = k.space.store := k.store_applyQueued
  have hsound' : k.applyQueued.space.store.Sound := hstore ▸ hsound
  refine ⟨fun a => ⟨call_fst_of_wildcard hl a k, ?_, fun ha => refused_of_wildcard hl ha k⟩,
    fun flags => ⟨rfl, fun onlyFresh => ⟨?_, ?_, ?_⟩⟩⟩
  · intro hrefused
    cases a with
    | getIndirect flags =>
      exact absurd hrefused (not_refused_of_serve (getIndirect_ne_abstract hsound _ _ _))
    | _ => rfl
  · exact getIndirect_ne_abstract hsound' l.pattern onlyFresh
  · intro hnone
    exact getIndirect_of_uncovered hsound' (hstore ▸ hnone) onlyFresh
  · intro t ht
    obtain ⟨place, hplace, hseen⟩ := seen_getIndirect hsound' (hstore ▸ ht) onlyFresh
    exact ⟨place, (congrArg (·.peek place) hstore).symm.trans hplace, hseen⟩

end Kernel

/-- With a wildcard a client can delete nothing, but reads through the meta tuple that comes first. -/
theorem mixture_read_through :
    let k := serving (mixture "c")
    let l : Location := ⟨1, underA.key⟩
    (Approach.delete.call l k).2.Refused (.tuple (.abstractUse "1:a.*")) ∧
      ¬ ((Approach.getIndirect {}).call l k).2.Refused (.tuple (.abstractUse "1:a.*")) ∧
      (k.serveNext (.getIndirect l.pattern false)).2 ≠ .error (.tuple (.abstractUse "1:a.*")) := by
  intro k l
  have hrender : l.render = "1:a.*" := by decide +kernel
  obtain ⟨hcalls, hreads⟩ := Kernel.wildcards_refused_unless_read_through
    (reachable_serving (mixture "c")) (show l.key.isConcrete = false by decide)
  rw [← hrender]
  refine ⟨(hcalls .delete).2.2 rfl, ?_, ((hreads {}).2 false).1 _⟩
  intro h
  exact nomatch (hcalls (.getIndirect {})).2.1 h

/-- What a read with a wildcard goes through is seen by then, and the read has an answer. -/
theorem not_refused_read_through : ¬ ∀ (k : Kernel) (l : Location) (a : Approach), k.Reachable →
    l.key.isConcrete = false → (a.call l k).2.Refused (a.refusal l) := by
  intro hall
  have hrefused := hall _ ⟨1, underA.key⟩ (.getIndirect {}) (reachable_serving (mixture "c"))
    (by decide)
  exact absurd hrefused (Kernel.not_refused_of_serve (by decide +kernel))

end Blackboard
