import Blackboard.Proofs.Space.Registrations
import Blackboard.Proofs.Kernel.Moves

/-!
# The registrations of a kernel

A docket is a kernel with two rolls: what clients and callbacks have registered and taken back since
its start, and what of it the dispatch loop has applied. The kernel knows neither of them, only its
queue and the handles that are out. `Booked` ties them together: as long as the kernel accepts
registrations, what is registered is what was applied and then what waits, and a handle is out exactly
if its registration stands.

A handle never appears in a roll before it is entered, because callbacks and clients take handles from
one allocator that only counts up. So a space never sees a handle used twice, and what `Session` says
about callers that use each handle once holds for the space of every kernel.
-/

namespace Blackboard

/-! ## What is registered -/

namespace Roll

def withdraw (roll : Roll Reaction) (h : Handle) : Roll Reaction :=
  if roll.stands h then roll ++ [.remove h] else roll

/-- The roll after the actions of a callback that finds the allocator in this state. -/
def act (roll : Roll Reaction) (handles : Allocator) : List Action → Roll Reaction
  | [] => roll
  | .enrol e :: rest => act (roll ++ [e.register handles.next]) (handles.advance 1) rest
  | .unsubscribe h :: rest => act (roll.withdraw h) handles rest
  | .refused _ :: rest => act roll handles rest

/-- The roll after a run of a callback. -/
def react (roll : Roll Reaction) (f : Firing Reaction) : Roll Reaction :=
  roll.act f.handles f.callback.actions

end Roll

/-- A kernel, what the dispatch loop has applied, and what was registered. -/
structure Docket where
  kernel : Kernel
  applied : Roll Reaction := []
  roll : Roll Reaction := []

namespace Kernel

variable (k : Kernel)

def runs (m : Move) : List (Firing Reaction) :=
  (k.after m).space.fired.drop k.space.fired.length

/-- What the dispatch loop takes from the queue and applies. -/
def takes : Move → Roll Reaction
  | .serve _ | .beginTick => k.queued
  | .finish why _ => if why = .transportStopped then [] else k.queued
  | _ => []

/-- The roll after a move: a client's call enters its registration under the next handle or takes one
back, and the callbacks that run do the same. -/
def enters (roll : Roll Reaction) (m : Move) : Roll Reaction :=
  match m with
  | .enrol e => roll ++ [e.register k.space.handles.next]
  | .enrolThrough source callback =>
    match Enrolment.through source callback with
    | .ok e => roll ++ [e.register k.space.handles.next]
    | .error _ => roll
  | .unsubscribe h => roll.withdraw h
  | m => (k.runs m).foldl Roll.react roll

end Kernel

namespace Docket

open Kernel (Move)

/-- The docket after a move. A kernel that accepts nothing any more enters nothing. -/
def step (d : Docket) (m : Move) : Docket where
  kernel := d.kernel.after m
  applied := d.applied ++ d.kernel.takes m
  roll := if (d.kernel.after m).accepts then d.kernel.enters d.roll m else d.roll

def run (d : Docket) (ms : List Move) : Docket := ms.foldl step d

theorem kernel_run (d : Docket) (ms : List Move) :
    (d.run ms).kernel = ms.foldl Kernel.after d.kernel := by
  induction ms generalizing d with
  | nil => rfl
  | cons m rest ih => exact ih (d.step m)

end Docket

namespace Kernel

variable {k k' : Kernel} {applied roll : Roll Reaction} {given : Handle → Prop} {bound : Nat}

/-! ## Calls -/

theorem push_of_accepts (h : k.accepts = true) (r : Registration Reaction) :
    k.push r = ({ k with queued := k.queued ++ [r] }, .ok ()) := if_pos h

theorem push_of_refuses (h : k.accepts = false) (r : Registration Reaction) :
    k.push r = (k, .error k.stoppedError) := if_neg (by simp [h])

theorem enrolUnder_fst (k : Kernel) (h : Handle) (e : Enrolment Reaction) :
    (k.enrolUnder h e).1 = if k.accepts then
      { k with issued := h :: k.issued, queued := k.queued ++ [e.register h] }
      else { k with issued := h :: k.issued } := by
  cases haccepts : k.accepts with
  | true =>
    exact congrArg Prod.fst (push_of_accepts (k := { k with issued := h :: k.issued }) haccepts _)
  | false =>
    exact congrArg Prod.fst (push_of_refuses (k := { k with issued := h :: k.issued }) haccepts _)

theorem unsubscribe_of_not_mem {h : Handle} (hh : h ∉ k.issued) :
    k.unsubscribe h = (k, .error (.failed .badHandle)) := if_neg hh

theorem unsubscribe_of_mem {h : Handle} (hh : h ∈ k.issued) (haccepts : k.accepts = true) :
    k.unsubscribe h = ({ k with issued := k.issued.filter (· ≠ h),
                                queued := k.queued ++ [.remove h] }, .ok ()) := by
  rw [unsubscribe, if_pos hh]
  exact push_of_accepts (k := { k with issued := k.issued.filter (· ≠ h) }) haccepts _

theorem accepts_enrolUnder (k : Kernel) (h : Handle) (e : Enrolment Reaction) :
    (k.enrolUnder h e).1.accepts = k.accepts :=
  (k.keeps_enrolUnder h e).eq accepts (by intros; rfl)

theorem accepts_unsubscribe (k : Kernel) (h : Handle) : (k.unsubscribe h).1.accepts = k.accepts :=
  (k.keeps_unsubscribe h).eq accepts (by intros; rfl)

/-! ## The handles that are out -/

/-- The handles that are out are those under which something stands. -/
def Out (k : Kernel) (roll : Roll Reaction) : Prop :=
  k.accepts = true → ∀ h, h ∈ k.issued ↔ roll.stands h = true

namespace Out

theorem enrolUnder (ho : k.Out roll) (h : Handle) (e : Enrolment Reaction) :
    (k.enrolUnder h e).1.Out (roll ++ [e.register h]) := by
  intro haccepts x
  rw [accepts_enrolUnder] at haccepts
  rw [enrolUnder_fst, if_pos haccepts, Roll.stands_concat, e.handle_register, e.enters_register]
  by_cases hx : x = h
  · simp [hx]
  · simp [hx, Ne.symm hx, ho haccepts x]

theorem unsubscribe (ho : k.Out roll) (h : Handle) : (k.unsubscribe h).1.Out (roll.withdraw h) := by
  intro haccepts x
  rw [accepts_unsubscribe] at haccepts
  have hiff := ho haccepts h
  rw [Roll.withdraw]
  by_cases hstands : roll.stands h = true
  · rw [unsubscribe_of_mem (hiff.2 hstands) haccepts, if_pos hstands, Roll.stands_concat]
    show x ∈ k.issued.filter (· ≠ h) ↔ (if h = x then false else roll.stands x) = true
    by_cases hx : x = h
    · simp [hx]
    · simp [hx, Ne.symm hx, ho haccepts x]
  · rw [unsubscribe_of_not_mem fun hmem => hstands (hiff.1 hmem), if_neg hstands]
    exact ho haccepts x

theorem act (ho : k.Out roll) (handles : Allocator) (actions : List Action) :
    (k.act handles actions).Out (roll.act handles actions) := by
  induction actions generalizing k handles roll with
  | nil => exact ho
  | cons action rest ih =>
    cases action with
    | enrol e =>
      have hnoted : ((k.enrolUnder handles.next e).1.note
          (.acted ((k.enrolUnder handles.next e).2.map some))).Out
            (roll ++ [e.register handles.next]) := ho.enrolUnder handles.next e
      exact ih hnoted _
    | unsubscribe h =>
      have hnoted : ((k.unsubscribe h).1.note
          (.acted ((k.unsubscribe h).2.map fun _ => none))).Out (roll.withdraw h) :=
        ho.unsubscribe h
      exact ih hnoted _
    | refused cause =>
      have hnoted : (k.note (.acted (.error (.tuple cause)))).Out roll := ho
      exact ih hnoted _

theorem reactAll (ho : k.Out roll) (fs : List (Firing Reaction)) :
    (fs.foldl react k).Out (fs.foldl Roll.react roll) := by
  induction fs generalizing k roll with
  | nil => exact ho
  | cons f rest ih =>
    have hnoted : (k.note (.called f.callback.label f.tuple)).Out roll := ho
    exact ih (hnoted.act f.handles f.callback.actions)

end Out

/-! ## The queue -/

/-- The queue continues the applied roll in an orderly way, with handles that are given and lie below a
bound. While registrations are accepted, the two make up the roll. -/
structure Filed (k : Kernel) (applied roll : Roll Reaction) (given : Handle → Prop) (bound : Nat) :
    Prop where
  orderly : Roll.Orderly (applied ++ k.queued)
  given : ∀ r ∈ applied ++ k.queued, given r.handle
  bounded : ∀ r ∈ applied ++ k.queued, r.handle ≤ bound
  roll_eq : k.accepts = true → roll = applied ++ k.queued
  out : k.Out roll

namespace Filed

theorem mono {given' : Handle → Prop} {bound' : Nat} (hf : k.Filed applied roll given bound)
    (hgiven : ∀ h, given h → given' h) (hle : bound ≤ bound') :
    k.Filed applied roll given' bound' :=
  ⟨hf.orderly, fun r hr => hgiven _ (hf.given r hr), fun r hr => Nat.le_trans (hf.bounded r hr) hle,
    hf.roll_eq, hf.out⟩

/-- A kernel with the same queue and the same handles out. -/
theorem congr (hf : k.Filed applied roll given bound) (hqueued : k'.queued = k.queued)
    (hissued : k'.issued = k.issued) (haccepts : k'.accepts = true → k.accepts = true) :
    k'.Filed applied roll given bound := by
  refine ⟨?_, ?_, ?_, fun h => ?_, fun h => ?_⟩
  · rw [hqueued]; exact hf.orderly
  · rw [hqueued]; exact hf.given
  · rw [hqueued]; exact hf.bounded
  · rw [hqueued]; exact hf.roll_eq (haccepts h)
  · rw [hissued]; exact hf.out (haccepts h)

/-- Nothing is said about the roll of a kernel that refuses. -/
theorem of_refuses {roll' : Roll Reaction} (hf : k.Filed applied roll given bound)
    (hqueued : k'.queued = k.queued) (hrefuses : k'.accepts = false) :
    k'.Filed applied roll' given bound := by
  have hnone : ¬ k'.accepts = true := by simp [hrefuses]
  refine ⟨?_, ?_, ?_, fun h => absurd h hnone, fun h => absurd h hnone⟩ <;> rw [hqueued]
  exacts [hf.orderly, hf.given, hf.bounded]

/-- A registration joins the queue. -/
theorem concat (hf : k.Filed applied roll given bound) {r : Registration Reaction} {bound' : Nat}
    (hqueued : k'.queued = k.queued ++ [r]) (haccepts : k.accepts = true)
    (hgiven : given r.handle) (hle : bound ≤ bound') (hbounded : r.handle ≤ bound')
    (hfresh : r.enters = true → bound < r.handle) (hout : k'.Out (roll ++ [r])) :
    k'.Filed applied (roll ++ [r]) given bound' := by
  have hmem (x : Registration Reaction) (hx : x ∈ applied ++ k'.queued) :
      x ∈ applied ++ k.queued ∨ x = r := by
    rw [hqueued, ← List.append_assoc] at hx
    exact (List.mem_append.1 hx).imp_right List.mem_singleton.1
  refine ⟨?_, fun x hx => ?_, fun x hx => ?_, fun _ => ?_, hout⟩
  · rw [hqueued, ← List.append_assoc]
    refine Roll.orderly_concat_iff.2 ⟨hf.orderly, fun a ha henters => ?_⟩
    exact Nat.ne_of_lt (Nat.lt_of_le_of_lt (hf.bounded a ha) (hfresh henters))
  · rcases hmem x hx with hx | rfl
    · exact hf.given x hx
    · exact hgiven
  · rcases hmem x hx with hx | rfl
    · exact Nat.le_trans (hf.bounded x hx) hle
    · exact hbounded
  · rw [hf.roll_eq haccepts, hqueued, List.append_assoc]

/-- A handle above the bound is new to the rolls. -/
theorem enrolUnder (hf : k.Filed applied roll given bound) {h : Handle} (hgiven : given h)
    (hfresh : bound < h) (e : Enrolment Reaction) :
    (k.enrolUnder h e).1.Filed applied (roll ++ [e.register h]) given h := by
  have hhandle := e.handle_register h
  cases haccepts : k.accepts with
  | true =>
    refine hf.concat ?_ haccepts (hhandle.symm ▸ hgiven) (Nat.le_of_lt hfresh)
      (Nat.le_of_eq hhandle) (fun _ => hhandle.symm ▸ hfresh) (hf.out.enrolUnder h e)
    rw [enrolUnder_fst, if_pos haccepts]
  | false =>
    refine (hf.mono (fun _ hx => hx) (Nat.le_of_lt hfresh)).of_refuses ?_
      ((k.accepts_enrolUnder h e).trans haccepts)
    rw [enrolUnder_fst, haccepts]
    rfl

theorem unsubscribe (hf : k.Filed applied roll given bound) (h : Handle) :
    (k.unsubscribe h).1.Filed applied (roll.withdraw h) given bound := by
  have hout := hf.out.unsubscribe h
  cases haccepts : k.accepts with
  | false =>
    refine hf.of_refuses ?_ ((k.accepts_unsubscribe h).trans haccepts)
    rw [Kernel.unsubscribe]
    split
    next => rw [push_of_refuses (k := { k with issued := k.issued.filter (· ≠ h) }) haccepts]
    next => rfl
  | true =>
    have hiff := hf.out haccepts h
    rw [Roll.withdraw] at hout ⊢
    by_cases hstands : roll.stands h = true
    · rw [if_pos hstands] at hout ⊢
      have hentered : ∃ r ∈ applied ++ k.queued, r.handle = h :=
        hf.roll_eq haccepts ▸ Roll.exists_of_stands hstands
      obtain ⟨r, hr, heq⟩ := hentered
      refine hf.concat ?_ haccepts (heq ▸ hf.given r hr) (Nat.le_refl _) (heq ▸ hf.bounded r hr)
        (fun hremove => by cases hremove) hout
      rw [unsubscribe_of_mem (hiff.2 hstands) haccepts]
    · rw [unsubscribe_of_not_mem fun hmem => hstands (hiff.1 hmem), if_neg hstands]
      exact hf

/-- The actions of a callback take handles in order, and nobody else takes any meanwhile. -/
theorem act (hf : k.Filed applied roll given bound) {a : Allocator} (hle : bound ≤ a.taken)
    (actions : List Action)
    (hgiven : ∀ x : Nat, a.taken < x → x ≤ a.taken + actions.countP Action.takesHandle → given x) :
    (k.act a actions).Filed applied (roll.act a actions) given
      (a.taken + actions.countP Action.takesHandle) := by
  -- The bound lies behind the allocator and catches up with every handle that is taken.
  induction actions generalizing k a roll bound with
  | nil => exact hf.mono (fun _ hx => hx) hle
  | cons action rest ih =>
    cases action with
    | enrol e =>
      have hnext : given a.next := hgiven _ (Nat.lt_succ_self _) (by
        simp [Allocator.next, Action.takesHandle])
      have hentered := hf.enrolUnder hnext (Nat.lt_succ_of_le hle) e
      have hnoted : ((k.enrolUnder a.next e).1.note
          (.acted ((k.enrolUnder a.next e).2.map some))).Filed applied
            (roll ++ [e.register a.next]) given (a.advance 1).taken := hentered.congr rfl rfl id
      have hcount : (a.advance 1).taken + rest.countP Action.takesHandle
          = a.taken + (Action.enrol e :: rest).countP Action.takesHandle := by
        simp only [Allocator.advance, List.countP_cons, Action.takesHandle, if_true]
        omega
      have hrest := ih hnoted (Nat.le_refl _) fun x hlt hx =>
        hgiven x (Nat.lt_of_succ_lt hlt) (hcount ▸ hx)
      rwa [hcount] at hrest
    | unsubscribe h =>
      have hnoted : ((k.unsubscribe h).1.note
          (.acted ((k.unsubscribe h).2.map fun _ => none))).Filed applied (roll.withdraw h)
            given bound := (hf.unsubscribe h).congr rfl rfl id
      exact ih hnoted hle hgiven
    | refused cause =>
      have hnoted : (k.note (.acted (.error (.tuple cause)))).Filed applied roll given bound :=
        hf.congr rfl rfl id
      exact ih hnoted hle hgiven

theorem reactAll (hf : k.Filed applied roll given bound) {a b : Allocator}
    {fs : List (Firing Reaction)} (hle : bound ≤ a.taken) (hfeeds : a.Feeds fs b)
    (hgiven : ∀ f ∈ fs, ∀ x ∈ f.taken, given x) :
    (fs.foldl react k).Filed applied (fs.foldl Roll.react roll) given b.taken := by
  induction fs generalizing k roll bound a with
  | nil => exact hf.mono (fun _ hx => hx) (Nat.le_trans hle hfeeds)
  | cons f rest ih =>
    have hnoted : (k.note (.called f.callback.label f.tuple)).Filed applied roll given bound :=
      hf.congr rfl rfl id
    have hacted := hnoted.act (Nat.le_trans hle hfeeds.1) f.callback.actions fun x hlt hx => by
      refine hgiven f List.mem_cons_self x (List.mem_range'_1.2 ⟨hlt, ?_⟩)
      show x < f.handles.taken + 1 + f.callback.actions.countP Action.takesHandle
      omega
    exact ih hacted (Nat.le_refl _) hfeeds.2 fun g hg => hgiven g (List.mem_cons_of_mem _ hg)

end Filed

/-! ## The space -/

/-- The space is one whose callers made the registrations of the applied roll, and use each handle
once. -/
structure Booked (k : Kernel) (applied roll : Roll Reaction) (ledger : Ledger Reaction) : Prop where
  reachable : Session.Reachable Session.Allows ⟨k.space, ledger⟩
  kept : applied.Kept ledger
  filed : k.Filed applied roll (Session.Given ⟨k.space, ledger⟩) k.space.handles.taken

theorem fired_applyQueued (k : Kernel) : k.applyQueued.space.fired = k.space.fired := by
  suffices h : ∀ (rs : Roll Reaction) (s : Space Reaction),
      (rs.foldl Space.apply s).fired = s.fired from h ..
  intro rs
  induction rs with
  | nil => exact fun _ => rfl
  | cons r rest ih =>
    intro s
    refine (ih _).trans ?_
    cases r with
    | subscribe h subscription => rfl
    | follow h prototype callback => rfl
    | remove h => exact s.fired_dropped h

namespace Booked

variable {ledger : Ledger Reaction}

/-- Nothing is said about the roll of a kernel that refuses. -/
theorem reroll {roll' : Roll Reaction} (hb : k.Booked applied roll ledger)
    (h : k.accepts = true → roll' = roll) : k.Booked applied roll' ledger := by
  refine ⟨hb.reachable, hb.kept, hb.filed.orderly, hb.filed.given, hb.filed.bounded,
    fun hk => ?_, fun hk => ?_⟩
  · exact (h hk).trans (hb.filed.roll_eq hk)
  · rw [h hk]
    exact hb.filed.out hk

theorem congr (hb : k.Booked applied roll ledger) (hspace : k'.space = k.space)
    (hqueued : k'.queued = k.queued) (hissued : k'.issued = k.issued)
    (haccepts : k'.accepts = true → k.accepts = true) : k'.Booked applied roll ledger := by
  refine ⟨?_, hb.kept, ?_⟩ <;> rw [hspace]
  exacts [hb.reachable, hb.filed.congr hqueued hissued haccepts]

theorem given_applied (hb : k.Booked applied roll ledger) :
    ∀ r ∈ applied, Session.Given ⟨k.space, ledger⟩ r.handle := fun r hr =>
  hb.filed.given r (List.mem_append_left _ hr)

theorem applyQueued (hb : k.Booked applied roll ledger) :
    ∃ ledger', k.applyQueued.Booked (applied ++ k.queued) roll ledger' := by
  obtain ⟨ledger', hreach, hkept, hgiven⟩ := hb.reachable.applyAll hb.kept hb.filed.orderly
    fun r hr => hb.filed.given r (List.mem_append_right _ hr)
  have hgiven' : ∀ r ∈ applied ++ k.queued,
      Session.Given ⟨k.applyQueued.space, ledger'⟩ r.handle := by
    intro r hr
    have hsame := congrFun hgiven r.handle
    exact hsame ▸ hb.filed.given r hr
  refine ⟨ledger', hreach, hkept, ?_, ?_, ?_, fun h => ?_, hb.filed.out⟩
  · exact (List.append_nil (applied ++ k.queued)).symm ▸ hb.filed.orderly
  · exact (List.append_nil (applied ++ k.queued)).symm ▸ hgiven'
  · rw [show k.applyQueued.queued = [] from rfl, List.append_nil]
    exact fun r hr => hreach.accounted.bindings.given_taken _ (hgiven' r hr)
  · exact (hb.filed.roll_eq h).trans (List.append_nil _).symm

/-- Taking over a change lets the callbacks register, and nothing else. -/
theorem adopt (hb : k.Booked applied roll ledger) {a : Access} {new : List (Firing Reaction)}
    (hnew : Session.Fires ledger k.space new (k.space.access a)) :
    (k.adopt (k.space.access a)).Booked applied (new.foldl Roll.react roll) ledger := by
  have hallowed : Session.Allows ⟨k.space, ledger⟩ (.access a) := trivial
  have hreach : Session.Reachable Session.Allows ⟨k.space.access a, ledger⟩ :=
    hb.reachable.step hallowed
  have hfiled : { k with space := k.space.access a }.Filed applied roll
      (Session.Given ⟨k.space.access a, ledger⟩) k.space.handles.taken :=
    (hb.filed.mono (fun _ hx => hnew.given hx) (Nat.le_refl _)).congr rfl rfl id
  have hreacted := hfiled.reactAll (Nat.le_refl _) hnew.fed fun f hf x hx =>
    hnew.given_of_mem_taken hf hx
  have hadopt : k.adopt (k.space.access a) = new.foldl react { k with space := k.space.access a } := by
    rw [Kernel.adopt, hnew.fired, List.drop_left]
  refine ⟨?_, hb.kept, ?_⟩ <;> rw [space_adopt]
  · exact hreach
  · rw [hadopt]
    exact hreacted

/-- Work of the dispatch loop runs callbacks for what was applied, and lets them register. -/
theorem works (hb : k.Booked applied roll ledger) (h : k.Works k') :
    ∃ new, Session.Fires ledger k.space new k'.space ∧
      k'.Booked applied (new.foldl Roll.react roll) ledger := by
  refine h.invariant (I := fun k' => ∃ new, Session.Fires ledger k.space new k'.space ∧
    k'.Booked applied (new.foldl Roll.react roll) ledger) (fun k₁ k₂ hbeat hk => ?_)
    ⟨[], .quiet rfl (Nat.le_refl _), hb⟩
  obtain ⟨before, hbefore, hb₁⟩ := hk
  cases hbeat with
  | access a =>
    obtain ⟨new, hnew⟩ := hb₁.reachable.fires a
    refine ⟨before ++ new, ?_, ?_⟩
    · rw [space_adopt]
      exact hbefore.trans hnew
    · rw [List.foldl_append]
      exact hb₁.adopt hnew
  | aside => exact ⟨before, hbefore, hb₁.congr rfl rfl rfl id⟩

end Booked

/-! ## Moves -/

/-- What a move leaves of what was booked: the callbacks that ran were registered in what is applied
now, and the rolls go on as they should. -/
def Continues (k : Kernel) (applied roll : Roll Reaction) (m : Move) : Prop :=
  (∃ ledger, (k.after m).Booked (applied ++ k.takes m)
    (if (k.after m).accepts then k.enters roll m else roll) ledger) ∧
  (k.after m).space.fired = k.space.fired ++ k.runs m ∧
  ∀ f ∈ k.runs m, ∃ i, (applied ++ k.takes m).Causes f i

variable {ledger : Ledger Reaction} {m : Move} {roll' : Roll Reaction}

theorem continues_of_fires {new : List (Firing Reaction)} {s : Space Reaction}
    (hfired : s.fired = k.space.fired) (hnew : Session.Fires ledger s new (k.after m).space)
    (hgiven : ∀ r ∈ applied ++ k.takes m, Session.Given ⟨s, ledger⟩ r.handle)
    (hb : (k.after m).Booked (applied ++ k.takes m) roll' ledger)
    (hroll : k.runs m = new → (k.after m).accepts = true → k.enters roll m = roll') :
    k.Continues applied roll m := by
  have hwhole : (k.after m).space.fired = k.space.fired ++ new := hfired ▸ hnew.fired
  have hruns : k.runs m = new := by rw [runs, hwhole, List.drop_left]
  refine ⟨⟨ledger, hb.reroll fun h => (if_pos h).trans (hroll hruns h)⟩, hruns ▸ hwhole,
    fun f hf => ?_⟩
  obtain ⟨i, hcauses⟩ := hnew.caused f (hruns ▸ hf)
  exact ⟨i, hb.kept.causes hgiven hcauses⟩

theorem continues_of_works (hb : k.Booked applied roll ledger) (hworks : k.Works (k.after m))
    (htakes : k.takes m = []) (henters : k.enters roll m = (k.runs m).foldl Roll.react roll) :
    k.Continues applied roll m := by
  obtain ⟨new, hfires, hbooked⟩ := hb.works hworks
  have hsame : applied ++ k.takes m = applied := by rw [htakes, List.append_nil]
  exact continues_of_fires rfl hfires (hsame.symm ▸ hb.given_applied) (hsame.symm ▸ hbooked)
    fun hruns _ => by rw [henters, hruns]

/-- A move that runs no callbacks. -/
theorem continues_of_quiet (hfired : (k.after m).space.fired = k.space.fired)
    (htakes : k.takes m = []) (hb : (k.after m).Booked applied roll' ledger)
    (hroll : k.runs m = [] → (k.after m).accepts = true → k.enters roll m = roll') :
    k.Continues applied roll m := by
  have hsame : applied ++ k.takes m = applied := by rw [htakes, List.append_nil]
  exact continues_of_fires hfired (.quiet rfl (Nat.le_refl _)) (hsame.symm ▸ hb.given_applied)
    (hsame.symm ▸ hb) hroll

theorem booked_enrol (hb : k.Booked applied roll ledger) (e : Enrolment Reaction) :
    ∃ ledger', (k.enrol e).1.Booked applied (roll ++ [e.register k.space.handles.next]) ledger' := by
  have hspace := k.space_enrol e
  let ledger' := { ledger with handed := k.space.handles.next :: ledger.handed }
  have hallowed : Session.Allows ⟨k.space, ledger⟩ .allocate := trivial
  have hreach : Session.Reachable Session.Allows ⟨k.space.allocate.1, ledger'⟩ :=
    hb.reachable.step hallowed
  have hallocated : { k with space := k.space.allocate.1 }.Filed applied roll
      (Session.Given ⟨k.space.allocate.1, ledger'⟩) k.space.handles.taken :=
    (hb.filed.mono (fun x hx => hx.imp_left (List.mem_cons_of_mem _)) (Nat.le_refl _)).congr rfl
      rfl id
  refine ⟨ledger', ?_, ⟨hb.kept.used, hb.kept.direct, hb.kept.indirect⟩, ?_⟩ <;> rw [hspace]
  · exact hreach
  · exact hallocated.enrolUnder (.inl List.mem_cons_self) (Nat.lt_succ_self _) e

theorem fired_enrol (k : Kernel) (e : Enrolment Reaction) :
    (k.enrol e).1.space.fired = k.space.fired :=
  (congrArg Space.fired (k.space_enrol e)).trans rfl

/-- A kernel that ends accepts nothing, so the roll stays as it is. -/
theorem continues_finish (hb : k.Booked applied roll ledger) (why : Ending)
    (pending : List Request) : k.Continues applied roll (.finish why pending) := by
  have hended (k' : Kernel) (h : k'.state = .shuttingDown) : ¬ k'.accepts = true := by
    simp [accepts, isRunning, h]
  have hstopping : { k with state := .shuttingDown }.Booked applied roll ledger :=
    hb.congr rfl rfl rfl fun h => nomatch h
  by_cases hwhy : why = .transportStopped
  · subst hwhy
    have hrefuses : ¬ (k.after (.finish .transportStopped pending)).accepts = true := hended _ rfl
    -- What waits is dropped, and what was applied stays in order.
    have hsublist : (applied ++ []).Sublist (applied ++ k.queued) :=
      (List.nil_sublist k.queued).append_left applied
    have hfiled : (k.after (.finish .transportStopped pending)).Filed applied roll
        (Session.Given ⟨k.space, ledger⟩) k.space.handles.taken :=
      ⟨hb.filed.orderly.sublist hsublist, fun r hr => hb.filed.given r (hsublist.subset hr),
        fun r hr => hb.filed.bounded r (hsublist.subset hr), fun h => absurd h hrefuses,
        fun h => absurd h hrefuses⟩
    exact continues_of_quiet rfl rfl ⟨hb.reachable, hb.kept, hfiled⟩ fun _ h => absurd h hrefuses
  · obtain ⟨ledger', happlied⟩ := hstopping.applyQueued
    have hworks := k.works_finish hwhy pending
    have htakes : applied ++ k.takes (.finish why pending) = applied ++ k.queued :=
      congrArg (applied ++ ·) (if_neg hwhy)
    obtain ⟨new, hfires, hbooked⟩ := happlied.works hworks
    exact continues_of_fires (fired_applyQueued { k with state := .shuttingDown }) hfires
      (htakes.symm ▸ happlied.given_applied) (htakes.symm ▸ hbooked)
      fun _ h => absurd h (hended _ (hworks.eq Kernel.state (by intros; rfl)))

theorem continues_enrol (hb : k.Booked applied roll ledger) {e : Enrolment Reaction}
    (hafter : k.after m = (k.enrol e).1) (htakes : k.takes m = [])
    (henters : k.enters roll m = roll ++ [e.register k.space.handles.next]) :
    k.Continues applied roll m := by
  obtain ⟨ledger', hbooked⟩ := booked_enrol hb e
  refine continues_of_quiet ?_ htakes (hafter ▸ hbooked) fun _ _ => henters
  rw [hafter]
  exact k.fired_enrol e

theorem Booked.continues (hb : k.Booked applied roll ledger) (m : Move) :
    k.Continues applied roll m := by
  have hreacted {fs : List (Firing Reaction)} (h : k.runs m = fs) :
      (k.runs m).foldl Roll.react roll = fs.foldl Roll.react roll := by rw [h]
  cases m with
  | serve r =>
    obtain ⟨ledger', happlied⟩ := hb.applyQueued
    obtain ⟨new, hfires, hbooked⟩ := happlied.works (k.applyQueued.works_serve r)
    exact continues_of_fires k.fired_applyQueued hfires happlied.given_applied hbooked
      fun hruns _ => hreacted hruns
  | beginTick =>
    have hbegun : { k with ticks := k.ticks + 1 }.Booked applied roll ledger :=
      hb.congr rfl rfl rfl id
    obtain ⟨ledger', happlied⟩ := hbegun.applyQueued
    exact continues_of_fires (fired_applyQueued { k with ticks := k.ticks + 1 })
      (.quiet rfl (Nat.le_refl _)) happlied.given_applied happlied fun hruns _ => hreacted hruns
  | endTick => exact continues_of_works hb k.works_endTick rfl rfl
  | finish why pending => exact continues_finish hb why pending
  | abort =>
    have hquiet : k.abort.Booked applied roll ledger := hb.congr rfl rfl rfl fun h => by
      simp [accepts, abort] at h
    exact continues_of_quiet rfl rfl hquiet fun hruns _ => hreacted hruns
  | enrol e => exact continues_enrol hb rfl rfl rfl
  | enrolThrough source callback =>
    cases hthrough : Enrolment.through source callback with
    | error cause =>
      have hafter : k.after (.enrolThrough source callback) = k := by
        simp only [Kernel.after, enrolThrough, hthrough]
      have hbooked : (k.after (.enrolThrough source callback)).Booked applied roll ledger :=
        hafter.symm ▸ hb
      refine continues_of_quiet ?_ rfl hbooked fun _ _ => ?_
      · rw [hafter]
      · simp only [enters, hthrough]
    | ok e =>
      refine continues_enrol (e := e) hb ?_ rfl ?_
      · simp only [Kernel.after, enrolThrough, hthrough]
      · simp only [enters, hthrough]
  | unsubscribe h =>
    have hspace : (k.unsubscribe h).1.space = k.space :=
      (k.keeps_unsubscribe h).eq Kernel.space (by intros; rfl)
    have hbooked : (k.unsubscribe h).1.Booked applied (roll.withdraw h) ledger := by
      refine ⟨?_, hb.kept, ?_⟩ <;> rw [hspace]
      exacts [hb.reachable, hb.filed.unsubscribe h]
    exact continues_of_quiet (congrArg Space.fired hspace) rfl hbooked fun _ _ => rfl
  | retain => exact continues_of_quiet rfl rfl (hb.congr rfl rfl rfl id) fun hruns _ => hreacted hruns
  | dismiss => exact continues_of_quiet rfl rfl (hb.congr rfl rfl rfl id) fun hruns _ => hreacted hruns
  | acknowledge ticket => exact continues_of_works hb (k.works_acknowledge ticket) rfl rfl
  | environment transport clock => exact continues_of_works hb (.aside ..) rfl rfl

/-- A kernel that starts has registered nothing, so nothing runs during its start. -/
theorem booked_opened (config : Config) (transport : Transport) (clock : Clock) :
    ∃ ledger, (opened config transport clock).Booked [] [] ledger := by
  have hblank : (blank config transport clock).Booked [] [] { handed := [] } := by
    refine ⟨⟨_, _, _, _, .refl⟩, ⟨fun _ h => (nomatch h), fun _ => rfl, fun _ => rfl⟩, .nil, ?_, ?_,
      fun _ => rfl, fun _ h => ?_⟩
    · exact fun _ h => nomatch h
    · exact fun _ h => nomatch h
    · exact ⟨fun hmem => (nomatch hmem), fun hstands => (nomatch hstands)⟩
  obtain ⟨new, hfires, hbooked⟩ := hblank.works (works_opened ..)
  have hnone : new = [] := by
    refine List.eq_nil_iff_forall_not_mem.2 fun f hf => ?_
    obtain ⟨i, hcauses⟩ := hfires.caused f hf
    cases hcauses with
    | direct hledger => cases hledger
    | bound hledger => cases hledger
  exact ⟨_, hnone ▸ hbooked⟩

end Kernel

namespace Docket

def Sound (d : Docket) : Prop := ∃ ledger, d.kernel.Booked d.applied d.roll ledger

theorem Sound.step {d : Docket} (hd : d.Sound) (m : Kernel.Move) : (d.step m).Sound := by
  obtain ⟨ledger, hb⟩ := hd
  exact (hb.continues m).1

theorem Sound.run {d : Docket} (hd : d.Sound) (ms : List Kernel.Move) : (d.run ms).Sound := by
  induction ms generalizing d with
  | nil => exact hd
  | cons m rest ih => exact ih (hd.step m)

theorem sound_start {config : Config} {transport : Transport} {clock : Clock} {k : Kernel}
    (h : Kernel.start config transport clock = .ok k) : Sound { kernel := k } := by
  obtain ⟨-, -, rfl⟩ := Kernel.start_eq_ok_iff.1 h
  exact Kernel.booked_opened ..

end Docket

end Blackboard
