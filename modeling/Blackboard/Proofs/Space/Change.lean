import Mathlib.Logic.Function.Basic
import Blackboard.Space
import Blackboard.Proofs.Store
import Blackboard.Proofs.Indirection

/-!
# Operations as sequences of changes

Whatever an operation does to the tuples of a space comes down to a sequence of changes: a value is
stored at a location or removed from one. `Becomes` ties the three sides of that together. The store
ends with the outcome of the changes, subscriptions and callbacks have noticed them one after the
other, and nothing else of the space is different.

There is one lemma for each operation that says which changes it makes. Facts about runs are then
shown change by change and not operation by operation.
-/

namespace Blackboard

variable {κ : Type}

/-- A value stored at a location or removed from it, as the callbacks concerned see it. -/
structure Change where
  mode : Mode
  place : Location
  tuple : Tuple

namespace Change

/-- What a change leaves at its place, without the mark of reading. -/
def outcome (c : Change) : Option Tuple :=
  match c.mode with
  | .onWrite => some c.tuple.ignoringFresh
  | .onDelete => none

/-- The contents of all locations after some changes. -/
def replay (changes : List Change) (contents : Location → Option Tuple) :
    Location → Option Tuple :=
  changes.foldl (fun f c => Function.update f c.place c.outcome) contents

@[simp] theorem replay_nil (contents : Location → Option Tuple) : replay [] contents = contents := rfl

@[simp] theorem replay_cons (c : Change) (changes : List Change)
    (contents : Location → Option Tuple) :
    replay (c :: changes) contents
      = replay changes (Function.update contents c.place c.outcome) := rfl

theorem replay_append (xs ys : List Change) (contents : Location → Option Tuple) :
    replay (xs ++ ys) contents = replay ys (replay xs contents) :=
  List.foldl_append

/-- A location that no change is about keeps its content. -/
theorem replay_of_forall_ne {changes : List Change} {l : Location}
    (h : ∀ c ∈ changes, c.place ≠ l) (contents : Location → Option Tuple) :
    replay changes contents l = contents l := by
  induction changes generalizing contents with
  | nil => rfl
  | cons c rest ih =>
    rw [replay_cons, ih fun d hd => h d (List.mem_cons_of_mem _ hd),
      Function.update_of_ne (h c List.mem_cons_self).symm]

/-- Where every location is changed once at most, each change determines the content of its place. -/
theorem replay_of_mem {changes : List Change} {c : Change} (hc : c ∈ changes)
    (hdistinct : changes.Pairwise fun a b => a.place ≠ b.place)
    (contents : Location → Option Tuple) : replay changes contents c.place = c.outcome := by
  induction changes generalizing contents with
  | nil => cases hc
  | cons d rest ih =>
    obtain ⟨hd, hrest⟩ := List.pairwise_cons.1 hdistinct
    rw [replay_cons]
    rcases List.mem_cons.1 hc with rfl | hmem
    · rw [replay_of_forall_ne fun e he => (hd e he).symm, Function.update_self]
    · exact ih hmem hrest _

/-- A value that is stored stays as it is until all changes are made. -/
def Tidy (changes : List Change) : Prop :=
  changes.Pairwise fun a b => a.mode = .onWrite → b.place ≠ a.place

theorem Tidy.of_removals {changes : List Change} (h : ∀ c ∈ changes, c.mode = .onDelete) :
    Tidy changes :=
  List.pairwise_of_forall_mem_list fun a ha _ _ hmode => nomatch (h a ha).symm.trans hmode

end Change

namespace Space

variable [Callback κ]

/-- What a change does to the subscriptions: a stored value repoints those that follow it before its
callbacks run, a removal unbinds after its callbacks ran. -/
def notice (s : Space κ) (c : Change) : Space κ :=
  match c.mode with
  | .onWrite => (s.afterWrite c.tuple).1
  | .onDelete =>
    let s := (s.dispatch .onDelete c.tuple).1
    { s with bindings := (s.bindings.release c.place).1 }

def noticeAll (s : Space κ) (changes : List Change) : Space κ := changes.foldl notice s

@[simp] theorem noticeAll_nil (s : Space κ) : s.noticeAll [] = s := rfl

@[simp] theorem noticeAll_cons (s : Space κ) (c : Change) (changes : List Change) :
    s.noticeAll (c :: changes) = (s.notice c).noticeAll changes := rfl

theorem noticeAll_append (s : Space κ) (xs ys : List Change) :
    s.noticeAll (xs ++ ys) = (s.noticeAll xs).noticeAll ys :=
  List.foldl_append

/-! ## Following up does not look at the store -/

omit [Callback κ] in
theorem retarget_fst (s : Space κ) (t : Tuple) :
    (s.retarget t).1 = { s with bindings := (s.bindings.retarget t).1 } := by
  rw [retarget]
  split
  next => rfl
  next hw =>
    rw [Bindings.retarget_of_not_watches (by simpa [resolver] using hw)]

theorem afterWrite_fst (s : Space κ) (t : Tuple) :
    (s.afterWrite t).1
      = ({ s with bindings := (s.bindings.retarget t).1 }.dispatch .onWrite t).1 :=
  congrArg (fun s : Space κ => (s.dispatch .onWrite t).1) (s.retarget_fst t)

theorem notice_withStore (s : Space κ) (store : Store) (c : Change) :
    { s with store }.notice c = { s.notice c with store } := by
  rw [notice, notice]
  split
  next => rw [afterWrite_fst, afterWrite_fst]; rfl
  next => rfl

theorem noticeAll_withStore (s : Space κ) (store : Store) (changes : List Change) :
    { s with store }.noticeAll changes = { s.noticeAll changes with store } := by
  induction changes generalizing s with
  | nil => rfl
  | cons c rest ih => rw [noticeAll_cons, noticeAll_cons, notice_withStore, ih]

@[simp] theorem notice_localId (s : Space κ) (c : Change) : (s.notice c).localId = s.localId := by
  rw [notice]
  split
  next => rw [afterWrite_fst]; rfl
  next => rfl

@[simp] theorem notice_keepsListing (s : Space κ) (c : Change) :
    (s.notice c).keepsListing = s.keepsListing := by
  rw [notice]
  split
  next => rw [afterWrite_fst]; rfl
  next => rfl

@[simp] theorem noticeAll_localId (s : Space κ) (changes : List Change) :
    (s.noticeAll changes).localId = s.localId := by
  induction changes generalizing s with
  | nil => rfl
  | cons c rest ih => exact (ih _).trans (notice_localId s c)

@[simp] theorem noticeAll_keepsListing (s : Space κ) (changes : List Change) :
    (s.noticeAll changes).keepsListing = s.keepsListing := by
  induction changes generalizing s with
  | nil => rfl
  | cons c rest ih => exact (ih _).trans (notice_keepsListing s c)

/-! ## Becoming -/

/-- A space turns into another through some changes, in their order. -/
structure Becomes (s : Space κ) (changes : List Change) (s' : Space κ) : Prop where
  /-- Each change is about the location its tuple names. -/
  placed : ∀ c ∈ changes, c.tuple.location = .ok c.place
  /-- Apart from the store, the space is as it is after noticing the changes. -/
  noticed : s' = { s.noticeAll changes with store := s'.store }
  /-- The store holds what the changes leave. -/
  content : s'.store.content = Change.replay changes s.store.content
  sound : s'.store.Sound
  policy : s'.store.policy = s.store.policy

namespace Becomes

variable {s s' s'' : Space κ} {xs ys : List Change}

theorem localId (h : s.Becomes xs s') : s'.localId = s.localId := by
  rw [h.noticed]
  exact noticeAll_localId s xs

theorem keepsListing (h : s.Becomes xs s') : s'.keepsListing = s.keepsListing := by
  rw [h.noticed]
  exact noticeAll_keepsListing s xs

/-- Only the marks of reading may differ where nothing changed. -/
theorem of_content {store : Store} (hsound : store.Sound) (hcontent : store.content = s.store.content)
    (hpolicy : store.policy = s.store.policy) : s.Becomes [] { s with store } where
  placed := by simp
  noticed := rfl
  content := hcontent
  sound := hsound
  policy := hpolicy

theorem refl (hs : s.store.Sound) : s.Becomes [] s := of_content hs rfl rfl

theorem trans (h : s.Becomes xs s') (h' : s'.Becomes ys s'') : s.Becomes (xs ++ ys) s'' where
  placed := by
    intro c hc
    rcases List.mem_append.1 hc with hc | hc
    · exact h.placed c hc
    · exact h'.placed c hc
  noticed := by
    have hnoticed : s'.noticeAll ys = { s.noticeAll (xs ++ ys) with store := s'.store } := by
      rw [h.noticed, noticeAll_withStore, noticeAll_append]
    rw [h'.noticed, hnoticed]
  content := by rw [h'.content, h.content, Change.replay_append]
  sound := h'.sound
  policy := h'.policy.trans h.policy

/-- What noticing a change preserves, while the change takes effect on the contents of the store,
holds after all changes. -/
theorem invariant {I : Space κ → (Location → Option Tuple) → Prop} (h : s.Becomes xs s')
    (hstore : ∀ space store contents, I space contents → I { space with store } contents)
    (hnotice : ∀ space contents c, c ∈ xs → c.tuple.location = .ok c.place → I space contents →
      I (space.notice c) (Function.update contents c.place c.outcome))
    (hs : I s s.store.content) : I s' s'.store.content := by
  rw [h.noticed, h.content]
  refine hstore _ _ _ ?_
  have hplaced := h.placed
  clear h
  generalize s.store.content = contents at hs
  induction xs generalizing s contents with
  | nil => exact hs
  | cons c rest ih =>
    exact ih (fun space contents d hd => hnotice space contents d (List.mem_cons_of_mem _ hd))
      (fun d hd => hplaced d (List.mem_cons_of_mem _ hd)) _
      (hnotice s contents c List.mem_cons_self (hplaced c List.mem_cons_self) hs)

end Becomes

end Space

end Blackboard
