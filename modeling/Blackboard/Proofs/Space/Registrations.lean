import Mathlib.Data.List.Induction
import Blackboard.Proofs.Space.Firings
import Blackboard.Kernel.Reaction

/-!
# Lists of registrations

A roll is a list of registrations in the order in which they were made. For each handle the last one
counts, so a registration that was taken back leaves nothing. A space that has applied a roll in which
every handle is entered once holds in its registry what the roll says, and runs nothing else.
-/

namespace Blackboard

variable {κ : Type}

/-- Registrations, oldest first. -/
abbrev Roll (κ : Type) := List (Registration κ)

namespace Registration

def handle : Registration κ → Handle
  | subscribe h _ | follow h _ _ | remove h => h

/-- False if something is taken back. -/
def enters : Registration κ → Bool
  | subscribe _ _ | follow _ _ _ => true
  | remove _ => false

def direct? : Registration κ → Option (Subscription κ)
  | subscribe _ subscription => some subscription
  | follow _ _ _ | remove _ => none

def indirect? : Registration κ → Option (Tuple × Option κ)
  | follow _ prototype callback => some (prototype, callback)
  | subscribe _ _ | remove _ => none

/-- What a caller of the space does. -/
def operation : Registration κ → Operation κ
  | subscribe h subscription => .subscribe h subscription
  | follow h prototype callback => .subscribeIndirect h prototype callback
  | remove h => .unsubscribe h

theorem direct?_eq_some_iff {r : Registration κ} {subscription : Subscription κ} :
    r.direct? = some subscription ↔ r = .subscribe r.handle subscription := by
  cases r <;> simp [direct?, handle]

theorem indirect?_eq_some_iff {r : Registration κ} {prototype : Tuple} {callback : Option κ} :
    r.indirect? = some (prototype, callback) ↔ r = .follow r.handle prototype callback := by
  cases r <;> simp [indirect?, handle]

end Registration

theorem Enrolment.handle_register (e : Enrolment κ) (h : Handle) : (e.register h).handle = h := by
  cases e <;> rfl

theorem Enrolment.enters_register (e : Enrolment κ) (h : Handle) :
    (e.register h).enters = true := by
  cases e <;> rfl

namespace Roll

/-- The last registration about a handle. -/
def lastWord (roll : Roll κ) (h : Handle) : Option (Registration κ) :=
  roll.reverse.find? fun r => r.handle = h

/-- Something was registered under the handle and was not taken back since. -/
def stands (roll : Roll κ) (h : Handle) : Bool := (roll.lastWord h).any Registration.enters

/-- Nothing is said about a handle before something is registered under it, and then nothing else is
registered under it. -/
def Orderly (roll : Roll κ) : Prop :=
  roll.Pairwise fun a b => b.enters = true → a.handle ≠ b.handle

variable {roll : Roll κ} {r : Registration κ} {h : Handle}

theorem lastWord_concat (roll : Roll κ) (r : Registration κ) (h : Handle) :
    lastWord (roll ++ [r]) h = if r.handle = h then some r else roll.lastWord h := by
  simp only [lastWord, List.reverse_append, List.reverse_singleton, List.singleton_append,
    List.find?_cons]
  by_cases heq : r.handle = h <;> simp [heq]

theorem bind_lastWord_concat {β : Type} (roll : Roll κ) (r : Registration κ) (h : Handle)
    (f : Registration κ → Option β) : (lastWord (roll ++ [r]) h).bind f
      = if h = r.handle then f r else (roll.lastWord h).bind f := by
  rw [lastWord_concat]
  by_cases heq : h = r.handle
  · rw [if_pos heq.symm, if_pos heq, Option.bind_some]
  · rw [if_neg (Ne.symm heq), if_neg heq]

theorem stands_concat (roll : Roll κ) (r : Registration κ) (h : Handle) :
    stands (roll ++ [r]) h = if r.handle = h then r.enters else roll.stands h := by
  rw [stands, lastWord_concat]
  split <;> rfl

theorem mem_of_lastWord (hr : roll.lastWord h = some r) : r ∈ roll ∧ r.handle = h := by
  have hmem := List.mem_reverse.1 (List.mem_of_find?_eq_some hr)
  have hhandle := List.find?_some hr
  exact ⟨hmem, of_decide_eq_true hhandle⟩

theorem exists_of_stands (hstands : roll.stands h = true) : ∃ r ∈ roll, r.handle = h := by
  obtain ⟨r, hr, -⟩ := (Option.any_eq_true _ _).1 hstands
  exact ⟨r, mem_of_lastWord hr⟩

/-- What stands was entered and was not taken back since. -/
theorem stands_iff : roll.stands h = true ↔ ∃ before r after, roll = before ++ r :: after ∧
    r.enters = true ∧ r.handle = h ∧ Registration.remove h ∉ after := by
  constructor
  · intro hstands
    obtain ⟨r, hr, henters⟩ := (Option.any_eq_true _ _).1 hstands
    obtain ⟨hhandle, after, before, hreverse, hafter⟩ := List.find?_eq_some_iff_append.1 hr
    refine ⟨before.reverse, r, after.reverse, ?_, henters, of_decide_eq_true hhandle, fun hmem => ?_⟩
    · rw [← List.reverse_reverse roll, hreverse]
      simp
    · simpa [Registration.handle] using hafter _ (List.mem_reverse.1 hmem)
  · rintro ⟨before, r, after, rfl, henters, rfl, hafter⟩
    induction after using List.reverseRecOn with
    | nil => rwa [stands_concat, if_pos rfl]
    | append_singleton after last ih =>
      rw [← List.cons_append, ← List.append_assoc, stands_concat]
      split
      next heq =>
        cases last with
        | subscribe i subscription => rfl
        | follow i prototype callback => rfl
        | remove i =>
          refine absurd (List.mem_append_right _ ?_) hafter
          exact List.mem_singleton.2 (congrArg Registration.remove heq.symm)
      next => exact ih fun hmem => hafter (List.mem_append_left _ hmem)

theorem lastWord_eq_none_iff : roll.lastWord h = none ↔ ∀ r ∈ roll, r.handle ≠ h := by
  simp [lastWord, List.find?_eq_none]

theorem direct?_lastWord {subscription : Subscription κ} :
    (roll.lastWord h).bind Registration.direct? = some subscription ↔
      roll.lastWord h = some (.subscribe h subscription) := by
  rw [Option.bind_eq_some_iff]
  constructor
  · rintro ⟨r, hr, hdirect⟩
    rw [hr, Registration.direct?_eq_some_iff.1 hdirect, (mem_of_lastWord hr).2]
  · exact fun hr => ⟨_, hr, rfl⟩

theorem indirect?_lastWord {prototype : Tuple} {callback : Option κ} :
    (roll.lastWord h).bind Registration.indirect? = some (prototype, callback) ↔
      roll.lastWord h = some (.follow h prototype callback) := by
  rw [Option.bind_eq_some_iff]
  constructor
  · rintro ⟨r, hr, hindirect⟩
    rw [hr, Registration.indirect?_eq_some_iff.1 hindirect, (mem_of_lastWord hr).2]
  · exact fun hr => ⟨_, hr, rfl⟩

theorem orderly_concat_iff : Orderly (roll ++ [r]) ↔
    roll.Orderly ∧ ∀ a ∈ roll, r.enters = true → a.handle ≠ r.handle := by
  rw [Orderly, List.pairwise_append]
  simp [Orderly]

/-- What was taken back is never entered again. -/
theorem Orderly.lastWord_append {later : Roll κ} (ho : Orderly (roll ++ later))
    (hr : roll.lastWord h = some (.remove h)) :
    lastWord (roll ++ later) h = some (.remove h) := by
  -- From the end: the last registration is about another handle, or takes this one back again.
  induction later using List.reverseRecOn with
  | nil => rwa [List.append_nil]
  | append_singleton later last ih =>
    rw [← List.append_assoc] at ho ⊢
    obtain ⟨ho, hlast⟩ := orderly_concat_iff.1 ho
    rw [lastWord_concat, ih ho]
    split
    next heq =>
      have hmem : Registration.remove h ∈ roll ++ later :=
        List.mem_append_left _ (mem_of_lastWord hr).1
      cases last with
      | remove i => rw [← heq]; rfl
      | subscribe i subscription => exact absurd heq.symm (hlast _ hmem rfl)
      | follow i prototype callback => exact absurd heq.symm (hlast _ hmem rfl)
    next => rfl

theorem Orderly.lastWord_of_mem (ho : roll.Orderly) (hmem : Registration.remove h ∈ roll) :
    roll.lastWord h = some (.remove h) := by
  obtain ⟨before, after, rfl⟩ := List.append_of_mem hmem
  rw [List.append_cons] at ho ⊢
  exact ho.lastWord_append (by rw [lastWord_concat]; exact if_pos rfl)

/-! ## The registry -/

/-- The reasons for which the registry has an entry under a handle: what was registered under it, or
what an indirect subscription is bound to under it. -/
inductive Entered (roll : Roll κ) (resolver : Resolver κ) (x : Handle) : Subscription κ → Prop
  | direct {subscription : Subscription κ}
    (h : roll.lastWord x = some (.subscribe x subscription)) : Entered roll resolver x subscription
  | interest {prototype : Tuple} {callback : Option κ}
    (h : roll.lastWord x = some (.follow x prototype callback)) :
    Entered roll resolver x (.interest prototype.ignoringFresh)
  | bound {i : Handle} {prototype : Tuple} {callback : Option κ} {r : Reference}
    (h : roll.lastWord i = some (.follow i prototype callback))
    (htarget : resolver.target? i = some r) (hbound : resolver.bound? i = some x) :
    Entered roll resolver x ⟨r.locator, .onWrite, callback⟩

/-- A firing runs a callback that was registered under a handle and was not taken back. If it runs
under another handle than that, the roll does not mention it. -/
inductive Causes (roll : Roll κ) (f : Firing κ) : Handle → Prop
  | direct {subscription : Subscription κ}
    (h : roll.lastWord f.handle = some (.subscribe f.handle subscription))
    (hcallback : subscription.callback = some f.callback) : Causes roll f f.handle
  | bound {i : Handle} {prototype : Tuple}
    (h : roll.lastWord i = some (.follow i prototype (some f.callback)))
    (hhidden : ∀ r ∈ roll, r.handle ≠ f.handle) : Causes roll f i

/-- The ledger is the one after the registrations of a roll. -/
structure Kept (roll : Roll κ) (ledger : Ledger κ) : Prop where
  used : ∀ h ∈ ledger.used, ∃ r ∈ roll, r.handle = h
  direct : ∀ h, ledger.direct.get? h = (roll.lastWord h).bind Registration.direct?
  indirect : ∀ h, ledger.indirect.get? h = (roll.lastWord h).bind Registration.indirect?

namespace Kept

variable {ledger : Ledger κ}

theorem direct_iff (hkept : roll.Kept ledger) {subscription : Subscription κ} :
    ledger.direct.get? h = some subscription ↔
      roll.lastWord h = some (.subscribe h subscription) := by
  rw [hkept.direct, direct?_lastWord]

theorem indirect_iff (hkept : roll.Kept ledger) {prototype : Tuple} {callback : Option κ} :
    ledger.indirect.get? h = some (prototype, callback) ↔
      roll.lastWord h = some (.follow h prototype callback) := by
  rw [hkept.indirect, indirect?_lastWord]

theorem entry_iff (hkept : roll.Kept ledger) {b : Bindings κ} {x : Handle}
    {subscription : Subscription κ} : b.Entry ledger.direct ledger.indirect x subscription ↔
      roll.Entered b.resolver x subscription := by
  constructor
  · intro hentry
    rcases hentry with hd | hi | ⟨hl, ht, hb⟩
    · exact .direct (hkept.direct_iff.1 hd)
    · exact .interest (hkept.indirect_iff.1 hi)
    · exact .bound (hkept.indirect_iff.1 hl) ht hb
  · intro hentered
    rcases hentered with hd | hi | ⟨hl, ht, hb⟩
    · exact .direct (hkept.direct_iff.2 hd)
    · exact .interest (hkept.indirect_iff.2 hi)
    · exact .bound (hkept.indirect_iff.2 hl) ht hb

theorem causes [Callback κ] (hkept : roll.Kept ledger) {given : Handle → Prop}
    (hgiven : ∀ r ∈ roll, given r.handle) {f : Firing κ} {i : Handle}
    (hcauses : ledger.Causes given f i) : roll.Causes f i := by
  cases hcauses with
  | direct hledger hcallback => exact .direct (hkept.direct_iff.1 hledger) hcallback
  | bound hledger hhidden =>
    exact .bound (hkept.indirect_iff.1 hledger) fun r hr heq => hhidden (heq ▸ hgiven r hr)

end Kept

end Roll

/-! ## Applying -/

namespace Session

open Roll

variable [Callback κ] {s : Session κ} {roll rs : Roll κ} {r : Registration κ}

theorem space_operation (s : Session κ) (r : Registration κ) :
    (s.step r.operation).space = s.space.apply r := by
  cases r <;> rfl

theorem given_operation (s : Session κ) (r : Registration κ) :
    (s.step r.operation).Given = s.Given := by
  cases r with
  | subscribe h subscription => rfl
  | follow h prototype callback => rfl
  | remove h => exact s.given_unsubscribe h

theorem kept_operation (hkept : roll.Kept s.ledger)
    (hfresh : ∀ a ∈ roll, r.enters = true → a.handle ≠ r.handle) :
    Roll.Kept (roll ++ [r]) (s.step r.operation).ledger := by
  have hused (h : Handle) (hh : h ∈ r.handle :: s.ledger.used) :
      ∃ x ∈ roll ++ [r], x.handle = h := by
    rcases List.mem_cons.1 hh with rfl | hh
    · exact ⟨r, List.mem_append_right _ List.mem_cons_self, rfl⟩
    · obtain ⟨x, hx, heq⟩ := hkept.used h hh
      exact ⟨x, List.mem_append_left _ hx, heq⟩
  have hnone (h : r.enters = true) : roll.lastWord r.handle = none :=
    lastWord_eq_none_iff.2 fun a ha => hfresh a ha h
  cases r with
  | subscribe i subscription =>
    refine ⟨hused, fun h => ?_, fun h => ?_⟩ <;> rw [bind_lastWord_concat]
    · exact (Table.get?_insert ..).trans (by rw [hkept.direct]; rfl)
    · refine (hkept.indirect h).trans ?_
      split
      next heq => rw [heq, hnone rfl]; rfl
      next => rfl
  | follow i prototype callback =>
    refine ⟨hused, fun h => ?_, fun h => ?_⟩ <;> rw [bind_lastWord_concat]
    · refine (hkept.direct h).trans ?_
      split
      next heq => rw [heq, hnone rfl]; rfl
      next => rfl
    · exact (Table.get?_insert ..).trans (by rw [hkept.indirect]; rfl)
  | remove i =>
    refine ⟨fun h hh => hused h (List.mem_cons_of_mem _ hh), fun h => ?_, fun h => ?_⟩ <;>
      rw [bind_lastWord_concat]
    · exact (Table.get?_erase ..).trans (by rw [hkept.direct]; rfl)
    · exact (Table.get?_erase ..).trans (by rw [hkept.indirect]; rfl)

theorem allows_operation (hkept : roll.Kept s.ledger) (hgiven : s.Given r.handle)
    (hfresh : ∀ a ∈ roll, r.enters = true → a.handle ≠ r.handle) : s.Allows r.operation := by
  have hunused (h : r.enters = true) : r.handle ∉ s.ledger.used := fun hused => by
    obtain ⟨a, ha, heq⟩ := hkept.used _ hused
    exact hfresh a ha h heq
  cases r with
  | subscribe i subscription => exact ⟨hgiven, hunused rfl⟩
  | follow i prototype callback => exact ⟨hgiven, hunused rfl⟩
  | remove i => exact hgiven

/-- Callers may make the registrations of an orderly roll, and the ledger follows. -/
theorem Reachable.applyAll (hs : Reachable Allows s) (hkept : roll.Kept s.ledger)
    (ho : Roll.Orderly (roll ++ rs)) (hgiven : ∀ r ∈ rs, s.Given r.handle) :
    ∃ ledger, Reachable Allows ⟨rs.foldl Space.apply s.space, ledger⟩ ∧
      Roll.Kept (roll ++ rs) ledger ∧
      Given ⟨rs.foldl Space.apply s.space, ledger⟩ = s.Given := by
  induction rs generalizing s roll with
  | nil => exact ⟨s.ledger, hs, by rwa [List.append_nil], rfl⟩
  | cons r rest ih =>
    rw [List.append_cons] at ho ⊢
    have hfresh := (Roll.orderly_concat_iff.1 (List.pairwise_append.1 ho).1).2
    have hallows := allows_operation hkept (hgiven r List.mem_cons_self) hfresh
    obtain ⟨ledger, hreach, hledger, hsame⟩ := ih (hs.step hallows) (kept_operation hkept hfresh) ho
      fun x hx => s.given_operation r ▸ hgiven x (List.mem_cons_of_mem _ hx)
    rw [s.space_operation r] at hreach hsame
    exact ⟨ledger, hreach, hledger, hsame.trans (s.given_operation r)⟩

end Session

end Blackboard
