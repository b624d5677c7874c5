import Mathlib.Data.List.Nodup
import Blackboard.Subscription

/-!
# What a dispatch runs

A dispatch makes one firing for each callback concerned, in the order of the handles, all on the same
tuple. The handles that the callbacks take while they run are those by which the allocator moves on.
-/

namespace Blackboard

variable {κ : Type} [Callback κ]

/-- The handles that a callback takes while it runs. -/
def Firing.taken (f : Firing κ) : List Handle :=
  List.range' (f.handles.taken + 1) (Callback.handles f.callback)

namespace Registry

omit [Callback κ] in
theorem mem_matching_iff {r : Registry κ} {mode : Mode} {t : Tuple} {h : Handle} {callback : κ} :
    (h, callback) ∈ r.matching mode t ↔ ∃ s, r.get? h = some s ∧
      concerns r.policy mode t s = true ∧ s.callback = some callback := by
  simp only [matching, List.mem_filterMap]
  constructor
  · rintro ⟨⟨k, s⟩, hmem, hs⟩
    simp only [Option.ite_none_right_eq_some, Option.map_eq_some_iff, Prod.mk.injEq] at hs
    obtain ⟨hconcerns, _, hcallback, rfl, rfl⟩ := hs
    exact ⟨s, (r.entries.mem_entries_iff k s).1 hmem, hconcerns, hcallback⟩
  · rintro ⟨s, hs, hconcerns, hcallback⟩
    exact ⟨(h, s), (r.entries.mem_entries_iff h s).2 hs, by simp [hconcerns, hcallback]⟩

omit [Callback κ] in
/-- No subscription is served twice by one dispatch. -/
theorem nodup_matching (r : Registry κ) (mode : Mode) (t : Tuple) :
    ((r.matching mode t).map (·.1)).Nodup := by
  refine List.pairwise_map.2 (List.Pairwise.filterMap _ ?_ (List.pairwise_map.1 r.entries.nodup_keys))
  intro e other hne p hp q hq heq
  simp only [Option.ite_none_right_eq_some, Option.map_eq_some_iff] at hp hq
  obtain ⟨-, _, -, rfl⟩ := hp
  obtain ⟨-, _, -, rfl⟩ := hq
  exact hne heq

theorem runAll_pairs (t : Tuple) (a : Allocator) (xs : List (Handle × κ)) :
    (runAll t a xs).2.map (fun f => (f.handle, f.callback)) = xs := by
  induction xs generalizing a with
  | nil => rfl
  | cons x rest ih =>
    rw [runAll]
    exact congrArg (x :: ·) (ih _)

theorem tuple_of_mem_runAll {t : Tuple} {a : Allocator} {xs : List (Handle × κ)} {f : Firing κ}
    (h : f ∈ (runAll t a xs).2) : f.tuple = t := by
  induction xs generalizing a with
  | nil => cases h
  | cons x rest ih =>
    rw [runAll] at h
    rcases List.mem_cons.1 h with rfl | h
    · rfl
    · exact ih h

theorem taken_le_runAll (t : Tuple) (a : Allocator) (xs : List (Handle × κ)) :
    a.taken ≤ (runAll t a xs).1.taken := by
  induction xs generalizing a with
  | nil => exact Nat.le_refl _
  | cons x rest ih =>
    rw [runAll]
    exact Nat.le_trans (Nat.le_add_right ..) (ih _)

/-- The callbacks take the handles by which the allocator moves on, no others. -/
theorem mem_taken_runAll {t : Tuple} {a : Allocator} {xs : List (Handle × κ)} {h : Nat} :
    h ∈ (runAll t a xs).2.flatMap Firing.taken ↔
      a.taken < h ∧ h ≤ (runAll t a xs).1.taken := by
  induction xs generalizing a with
  | nil =>
    simp only [runAll, List.flatMap_nil, List.not_mem_nil, false_iff]
    omega
  | cons x rest ih =>
    have hle := taken_le_runAll t (a.advance (Callback.handles x.2)) rest
    rw [runAll, List.flatMap_cons, List.mem_append, ih, Firing.taken, List.mem_range'_1]
    simp only [Allocator.advance] at hle ⊢
    omega

/-! ## Dispatches -/

section

variable (r : Registry κ) (a : Allocator) (mode : Mode) (t : Tuple)

theorem tuple_of_mem_dispatch {f : Firing κ} (h : f ∈ (r.dispatch a mode t).2.2) :
    f.tuple = delivered mode t :=
  tuple_of_mem_runAll h

theorem taken_le_dispatch : a.taken ≤ (r.dispatch a mode t).2.1.taken := taken_le_runAll ..

theorem mem_taken_dispatch {h : Nat} : h ∈ (r.dispatch a mode t).2.2.flatMap Firing.taken ↔
    a.taken < h ∧ h ≤ (r.dispatch a mode t).2.1.taken :=
  mem_taken_runAll

/-- A firing runs the callback that the registry has under its handle. -/
theorem get?_of_mem_dispatch {f : Firing κ} (h : f ∈ (r.dispatch a mode t).2.2) :
    ∃ s, r.get? f.handle = some s ∧ concerns r.policy mode t s = true ∧
      s.callback = some f.callback := by
  have hpair : (f.handle, f.callback) ∈ r.matching mode t := by
    rw [← runAll_pairs (delivered mode t) a (r.matching mode t)]
    exact List.mem_map_of_mem h
  exact mem_matching_iff.1 hpair

/-- One dispatch runs a callback once if the change concerns its subscription, and not otherwise. -/
theorem countP_dispatch {h : Handle} {s : Subscription κ} {callback : κ}
    (hs : r.get? h = some s) (hcallback : s.callback = some callback) :
    (r.dispatch a mode t).2.2.countP (fun f => f.handle = h)
      = if concerns r.policy mode t s then 1 else 0 := by
  have hhandles : (r.dispatch a mode t).2.2.map (·.handle) = (r.matching mode t).map (·.1) := by
    have hpairs := congrArg (List.map (·.1)) (runAll_pairs (delivered mode t) a (r.matching mode t))
    rwa [List.map_map] at hpairs
  have hmem : h ∈ (r.matching mode t).map (·.1) ↔ concerns r.policy mode t s = true := by
    simp only [List.mem_map, Prod.exists, exists_and_right, exists_eq_right, mem_matching_iff]
    simp [hs, hcallback]
  calc (r.dispatch a mode t).2.2.countP (fun f => f.handle = h)
      = ((r.dispatch a mode t).2.2.map (·.handle)).count h := by
        rw [List.count, List.countP_map]
        rfl
    _ = if h ∈ (r.matching mode t).map (·.1) then 1 else 0 := by
        rw [hhandles, (nodup_matching r mode t).count]
    _ = _ := by simp only [hmem]

/-- What one dispatch runs under a handle. -/
theorem filter_dispatch {h : Handle} {s : Subscription κ} (hs : r.get? h = some s) :
    ((r.dispatch a mode t).2.2.filter fun f => f.handle = h).map (·.callback)
      = if concerns r.policy mode t s then s.callback.toList else [] := by
  have hall : ∀ f ∈ (r.dispatch a mode t).2.2.filter fun f => f.handle = h,
      s.callback = some f.callback := by
    intro f hf
    obtain ⟨hf, heq⟩ := List.mem_filter.1 hf
    obtain ⟨_, hget, -, hf⟩ := get?_of_mem_dispatch r a mode t hf
    obtain rfl := Option.some.inj (hs.symm.trans (of_decide_eq_true heq ▸ hget))
    exact hf
  cases hcallback : s.callback with
  | none =>
    have hnil : (r.dispatch a mode t).2.2.filter (fun f => f.handle = h) = [] :=
      List.eq_nil_iff_forall_not_mem.2 fun f hf => nomatch hcallback.symm.trans (hall f hf)
    rw [hnil, Option.toList_none, ite_self]
    rfl
  | some callback =>
    have hcount := countP_dispatch r a mode t hs hcallback
    rw [List.countP_eq_length_filter] at hcount
    have hsame : ∀ f ∈ (r.dispatch a mode t).2.2.filter fun f => f.handle = h,
        f.callback = callback := fun f hf =>
      Option.some.inj ((hall f hf).symm.trans hcallback)
    rw [List.map_eq_replicate_iff.2 hsame, hcount]
    split <;> rfl

end

end Registry

end Blackboard
