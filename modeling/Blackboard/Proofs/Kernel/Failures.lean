import Blackboard.Proofs.Kernel.Moves
import Blackboard.Proofs.Reference
import Blackboard.Proofs.Store.Searching

/-!
# Requests that fail

A request that is refused is refused before anything was done for it, and leaves the kernel as it was.
There is one exception. A read through a meta tuple reads the meta tuple first and looks at its payload
then: where the payload names nothing that can be read, the caller gets an error, and what was found
counts as seen although nobody was given it.

Serving counts reads, and that count is of no account here: `Traceless` leaves it out.
-/

namespace Blackboard

namespace Store

variable {s : Store} {l : Location} {p t : Tuple}

theorem markSeen_of_seen (hl : s.peek l = some t) (hseen : t.fresh = some false) :
    s.markSeen l = s := by
  have hsame : ({ t with fresh := some false } : Tuple) = t := by rw [← hseen]
  have htuples : s.tuples.insert l t = s.tuples := by
    refine Table.ext_get? fun other => ?_
    rw [Table.get?_insert]
    split
    next heq => exact (heq ▸ hl).symm
    next => rfl
  rw [markSeen, hl]
  simp only [hsame, htuples]

theorem fresh_markSeen (hl : s.peek l = some t) :
    ((s.markSeen l).peek l).bind (·.fresh) = some false := by
  rw [peek_markSeen, hl, Option.map_some, if_pos rfl]
  rfl

end Store

namespace Kernel

variable {k : Kernel}

/-- Nothing is different but how many reads were counted. -/
def Traceless (k k' : Kernel) : Prop := ∃ reads, k' = { k with space.store.stats.reads := reads }

theorem Traceless.refl (k : Kernel) : k.Traceless k := ⟨_, rfl⟩

theorem Traceless.peek {k' : Kernel} (h : k.Traceless k') (l : Location) :
    k'.space.peek l = k.space.peek l := by
  obtain ⟨reads, rfl⟩ := h
  rfl

/-- A read through a meta tuple that finds one with an unreadable payload that nobody has seen. -/
def Spoils (k : Kernel) (r : Request) : Prop :=
  ∃ prototype onlyFresh m cause, r = .getIndirect prototype onlyFresh ∧
    (k.space.first prototype.ignoringFresh).2 = some m ∧ m.fresh ≠ some false ∧
    Reference.resolve m = .error cause

/-- A request that gets an error for an answer leaves the kernel as it was. -/
def Atomic {α : Type} (k : Kernel) (result : Kernel × Except KernelError α) : Prop :=
  ∀ e, result.2 = .error e → result.1 = k

/-! ## Refusals -/

theorem Atomic.same {α : Type} {answer : Except KernelError α} : k.Atomic (k, answer) :=
  fun _ _ => rfl

theorem Atomic.granted {α : Type} {k' : Kernel} {answer : α} : k.Atomic (k', .ok answer) :=
  fun _ h => nomatch h

theorem atomic_commit (k : Kernel) (outcome : Except TupleError (Space Reaction × Mutation)) :
    k.Atomic (k.commit outcome) := by
  cases outcome with
  | error e => exact .same
  | ok change => exact .granted

theorem atomic_send (k : Kernel) (owner : Owner) (t : Tuple) : k.Atomic (k.send owner t) := by
  rw [send]
  split
  next => exact .granted
  next => exact .same

theorem atomic_insert (k : Kernel) (t : Tuple) : k.Atomic (k.insert t) := by
  rw [insert]
  split
  next => exact .same
  next =>
    dsimp only
    split
    next => exact k.atomic_commit _
    next => exact k.atomic_send _ _

theorem atomic_delete (k : Kernel) (l : Location) : k.Atomic (k.delete l) := by
  rw [delete]
  split
  next => exact k.atomic_commit _
  next =>
    split
    next => exact .same
    next => exact k.atomic_send _ _

theorem atomic_append (k : Kernel) (p : Tuple) (suffix : List UInt8) (expected : Option Nat) :
    k.Atomic (k.append p suffix expected) := by
  rw [append]
  split
  next => exact .same
  next => exact .granted

theorem atomic_get (k : Kernel) (l : Location) (onlyFresh : Bool) :
    k.Atomic (k.get l onlyFresh) := by
  rw [get]
  split
  next => exact .same
  next => exact .granted

theorem atomic_connect (k : Kernel) (url : String) : k.Atomic (k.connect url) := by
  rw [connect]
  split
  next => exact .same
  next => exact .granted

/-! ## Reads through a meta tuple -/

/-- A reference names a location without wildcards, so what it names can always be looked up. -/
theorem get_reference_ne_error (k : Kernel) (r : Reference) (onlyFresh : Bool) {e : KernelError} :
    (k.get r.location onlyFresh).2 ≠ .error e := by
  have hconcrete : r.location.requireConcrete = .ok () := if_pos r.concrete
  obtain ⟨found, hstore⟩ : ∃ found, k.space.store.get r.location onlyFresh = .ok found := by
    rw [Store.get, hconcrete]
    simp only [bind, Except.bind, pure, Except.pure]
    split
    next => exact ⟨_, rfl⟩
    next => split <;> exact ⟨_, rfl⟩
  rw [get, Space.get, hstore]
  intro h
  cases h

theorem getIndirect_of_unreadable {prototype m : Tuple} {onlyFresh : Bool} {cause : TupleError}
    (hm : (k.space.first prototype.ignoringFresh).2 = some m)
    (hcause : Reference.resolve m = .error cause) :
    k.getIndirect prototype onlyFresh
      = ((k.first prototype.ignoringFresh).1, .error (.tuple cause)) := by
  have hfound : (k.first prototype.ignoringFresh).2 = some m := hm
  rw [getIndirect]
  simp only [hfound, hcause]

/-- A read that fails at the meta tuple leaves a mark on it. -/
theorem serve_of_unreadable {prototype m : Tuple} {onlyFresh : Bool} {cause : TupleError}
    (hm : (k.space.first prototype.ignoringFresh).2 = some m)
    (hcause : Reference.resolve m = .error cause) :
    ∃ l, k.space.peek l = some m ∧ (k.serve (.getIndirect prototype onlyFresh)).1
      = { k with space.store := k.space.store.countRead.markSeen l } := by
  have hfound : (k.space.store.first prototype.ignoringFresh).2 = some m := hm
  obtain ⟨l, hl, hstore⟩ := Store.first_eq_some hfound
  refine ⟨l, hl, ?_⟩
  rw [serve, getIndirect_of_unreadable hm hcause, ← hstore]
  rfl

/-- A read through a meta tuple fails at the meta tuple or not at all. -/
theorem unreadable_of_getIndirect {prototype : Tuple} {onlyFresh : Bool} {e : KernelError}
    (h : (k.getIndirect prototype onlyFresh).2 = .error e) :
    ∃ m cause, (k.space.first prototype.ignoringFresh).2 = some m ∧
      Reference.resolve m = .error cause := by
  rw [getIndirect] at h
  dsimp only at h
  split at h
  next => cases h
  next m hm =>
    split at h
    next cause hcause => exact ⟨m, cause, hm, hcause⟩
    next => cases h
    next => exact absurd h (get_reference_ne_error _ _ _)

/-! ## All requests -/

theorem atomic_serve (k : Kernel) {r : Request}
    (hr : ∀ prototype onlyFresh, r ≠ .getIndirect prototype onlyFresh) :
    k.Atomic (k.serve r) := by
  cases r with
  | insert t => exact k.atomic_insert t
  | delete l => exact k.atomic_delete l
  | get l onlyFresh => exact k.atomic_get l onlyFresh
  | first p => exact .granted
  | getIndirect prototype onlyFresh => exact absurd rfl (hr prototype onlyFresh)
  | isPresent l => exact .same
  | search p => exact .granted
  | append p suffix expected => exact k.atomic_append p suffix expected
  | resolve l => exact .same
  | isMeta l => exact .same
  | hasSubscriber p => exact .same
  | owners key => exact .same
  | connect url => exact k.atomic_connect url
  | stats => exact .same
  | sync => exact .same

/-- A mark on a value leaves no trace exactly if the value was seen before. -/
theorem traceless_markSeen_iff {l : Location} {t : Tuple} (hl : k.space.peek l = some t) :
    k.Traceless { k with space.store := k.space.store.countRead.markSeen l } ↔
      t.fresh = some false := by
  have hl' : k.space.store.countRead.peek l = some t := hl
  constructor
  · intro htrace
    have hpeek : (k.space.store.countRead.markSeen l).peek l = some t := (htrace.peek l).trans hl
    have hmark := Store.fresh_markSeen hl'
    rwa [hpeek] at hmark
  · intro hseen
    rw [Store.markSeen_of_seen hl' hseen]
    exact ⟨k.space.store.stats.reads + 1, rfl⟩

theorem Spoils.fails {r : Request} (h : k.Spoils r) : ∃ e, (k.serve r).2 = .error e := by
  obtain ⟨prototype, onlyFresh, m, cause, rfl, hm, -, hcause⟩ := h
  exact ⟨_, congrArg Prod.snd (getIndirect_of_unreadable hm hcause)⟩

theorem Spoils.marks {r : Request} (h : k.Spoils r) :
    ∃ l t, k.space.peek l = some t ∧ t.fresh ≠ some false ∧
      (k.serve r).1 = { k with space.store := k.space.store.countRead.markSeen l } := by
  obtain ⟨prototype, onlyFresh, m, cause, rfl, hm, hfresh, hcause⟩ := h
  obtain ⟨l, hl, hserve⟩ := serve_of_unreadable hm hcause
  exact ⟨l, m, hl, hfresh, hserve⟩

/-- A request that fails leaves no trace, or it spoils. -/
theorem traceless_or_spoils {r : Request} {e : KernelError} (h : (k.serve r).2 = .error e) :
    k.Traceless (k.serve r).1 ∨ k.Spoils r := by
  by_cases hr : ∃ prototype onlyFresh, r = .getIndirect prototype onlyFresh
  case neg =>
    have hsame := k.atomic_serve (fun prototype onlyFresh heq => hr ⟨prototype, onlyFresh, heq⟩) e h
    rw [hsame]
    exact .inl (.refl k)
  case pos =>
    obtain ⟨prototype, onlyFresh, rfl⟩ := hr
    obtain ⟨m, cause, hm, hcause⟩ := unreadable_of_getIndirect h
    by_cases hseen : m.fresh = some false
    case neg => exact .inr ⟨prototype, onlyFresh, m, cause, rfl, hm, hseen, hcause⟩
    case pos =>
      obtain ⟨l, hl, hserve⟩ := serve_of_unreadable hm hcause
      rw [hserve]
      exact .inl ((traceless_markSeen_iff hl).2 hseen)

/-- A request fails and leaves a trace exactly if it is a read that spoils. What it leaves is a mark on
the value it found, and nothing else. -/
theorem traceless_unless_spoiled (k : Kernel) (r : Request) :
    (k.Spoils r ↔ (∃ e, (k.serve r).2 = .error e) ∧ ¬ k.Traceless (k.serve r).1) ∧
    (k.Spoils r → ∃ l t, k.space.peek l = some t ∧ t.fresh ≠ some false ∧
      (k.serve r).1 = { k with space.store := k.space.store.countRead.markSeen l }) := by
  refine ⟨⟨fun h => ⟨h.fails, fun htrace => ?_⟩, ?_⟩, fun h => h.marks⟩
  · obtain ⟨l, t, hl, hfresh, hserve⟩ := h.marks
    rw [hserve] at htrace
    exact hfresh ((traceless_markSeen_iff hl).1 htrace)
  · rintro ⟨⟨e, he⟩, htrace⟩
    exact (traceless_or_spoils he).resolve_left htrace

/-- A kernel with a text where a reader may look for a reference. -/
def mislaid : Kernel :=
  (opened { publishAllKeys := false } (.standalone false) ⟨1000000000⟩).after
    (.serve (.insert (.plainText 1 ⟨[some "x"]⟩ "v")))

theorem reachable_mislaid : mislaid.Reachable :=
  .after (.start (start_eq_ok_iff.2 ⟨by decide, by decide, rfl⟩)) _

theorem spoils_mislaid : mislaid.Spoils (.getIndirect (.locator (some 1) ⟨[some "x"]⟩) false) := by
  let found := (mislaid.space.first (Tuple.locator (some 1) ⟨[some "x"]⟩).ignoringFresh).2
  have hsome : found.isSome = true := by decide +kernel
  have hplain : ∀ m ∈ found, m.fresh ≠ some false ∧ Reference.isMetaType m = false := by
    decide +kernel
  obtain ⟨m, hm⟩ := Option.isSome_iff_exists.1 hsome
  obtain ⟨hfresh, htype⟩ := hplain m hm
  exact ⟨_, _, m, _, rfl, hm, hfresh, Reference.resolve_of_ordinary htype⟩

theorem mislaid_traces :
    let refused : Request := .get ⟨1, ⟨[none]⟩⟩ false
    let spoiling : Request := .getIndirect (.locator (some 1) ⟨[some "x"]⟩) false
    (∃ e, (mislaid.serve refused).2 = .error e) ∧ mislaid.Traceless (mislaid.serve refused).1 ∧
      (∃ e, (mislaid.serve spoiling).2 = .error e) ∧
      ∃ l t, mislaid.space.peek l = some t ∧ t.fresh ≠ some false ∧ (mislaid.serve spoiling).1
        = { mislaid with space.store := mislaid.space.store.countRead.markSeen l } := by
  intro refused spoiling
  have hrefused : (mislaid.serve refused).2 = .error (.tuple (.abstractUse "1:*")) := rfl
  have hkept : ¬ mislaid.Spoils refused := by
    rintro ⟨_, _, _, _, heq, -⟩
    exact nomatch (show Request.get _ _ = Request.getIndirect _ _ from heq)
  obtain ⟨hspoils, hmark⟩ := traceless_unless_spoiled mislaid spoiling
  refine ⟨⟨_, hrefused⟩, ?_, (hspoils.1 spoils_mislaid).1, hmark spoils_mislaid⟩
  by_contra htrace
  exact hkept ((traceless_unless_spoiled mislaid refused).1.2 ⟨⟨_, hrefused⟩, htrace⟩)

/-- A reader that takes a text for a reference gets an error, and the text counts as seen. -/
theorem mislaid_spoiled : ¬ ∀ (k : Kernel) (r : Request) (e : KernelError), k.Reachable →
    (k.serve r).2 = .error e → k.Traceless (k.serve r).1 := by
  intro hall
  obtain ⟨e, he⟩ := spoils_mislaid.fails
  have hpeek := (hall mislaid _ e reachable_mislaid he).peek ⟨1, ⟨[some "x"]⟩⟩
  exact absurd hpeek (by decide +kernel)

end Kernel

end Blackboard
