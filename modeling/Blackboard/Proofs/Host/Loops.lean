import Blackboard.Proofs.Kernel.Moves
import Blackboard.Host.Shared

/-!
# The loops of a host

A loop takes turns: each is a move of its kernel, or leaves the kernel alone. Whatever a host does, its
loops take turns. A loop accepts requests until it ends, and an ended one takes no turns but those of
clients that need no loop.
-/

namespace Blackboard

open Kernel (Move)

/-! ## Kernels that end -/

namespace Kernel

theorem state_finish (k : Kernel) (why : Kernel.Ending) (rs : List Request) :
    (k.finish why rs).1.state = .shuttingDown := by
  by_cases hwhy : why = .transportStopped
  · subst hwhy
    rfl
  · exact (k.works_finish hwhy rs).eq Kernel.state (by intros; rfl)

/-- Each request gets a reply of its own. -/
theorem serveAll_requests (k : Kernel) (rs : List Request) :
    (k.serveAll rs).2.map Reply.request = rs := by
  induction rs generalizing k with
  | nil => rfl
  | cons r rest ih => exact congrArg (r :: ·) (ih _)

theorem finish_requests (k : Kernel) (why : Kernel.Ending) (rs : List Request) :
    (k.finish why rs).2.map Reply.request = rs := by
  cases why with
  | shutdown => exact serveAll_requests ..
  | abandoned => exact serveAll_requests ..
  | transportStopped => exact List.map_map.trans (List.map_id rs)

end Kernel

/-! ## Loops -/

namespace Node

/-- One of the things that can become of a loop. -/
inductive Turn (n : Node) : Node → Prop
  /-- A task joins the line, or the loop is asked to end. -/
  | line (pending : List TaskId) (stopRequested : Bool)
    (h : n.kernel.accepts = true ∨ n.phase ≠ .ended ∨ pending = n.pending) :
    Turn n { n with pending, stopRequested }
  | call {m : Move} (hm : m.isCall = true) : Turn n { n with kernel := n.kernel.after m }
  | environment (transport : Transport) (clock : Clock) :
    Turn n { n with kernel := n.kernel.after (.environment transport clock) }
  | serve (r : Request) (pending : List TaskId) (h : n.phase ≠ .ended) :
    Turn n { n with kernel := n.kernel.after (.serve r), pending }
  | beginTick (nextTick : Moment) (h : n.phase ≠ .ended) :
    Turn n { n with kernel := n.kernel.after .beginTick, nextTick }
  | stall (h : n.phase ≠ .ended) : Turn n { n with phase := .stalled }
  | endTick (h : n.phase ≠ .ended) :
    Turn n { n with kernel := n.kernel.after .endTick, phase := .idle }
  | finish (why : Kernel.Ending) (rs : List Request) (h : n.phase ≠ .ended) :
    Turn n { n with kernel := n.kernel.after (.finish why rs), phase := .ended, pending := [] }
  | abort (h : n.phase ≠ .ended) :
    Turn n { n with kernel := n.kernel.after .abort, phase := .ended, pending := [] }

def Turns : Node → Node → Prop := Relation.ReflTransGen Turn

variable {n n' n'' : Node}

namespace Turns

theorem refl (n : Node) : n.Turns n := Relation.ReflTransGen.refl

theorem trans (h : n.Turns n') (h' : n'.Turns n'') : n.Turns n'' := Relation.ReflTransGen.trans h h'

theorem of_turn (h : n.Turn n') : n.Turns n' := .single h

theorem invariant {I : Node → Prop} (h : n.Turns n') (hturn : ∀ n n', Turn n n' → I n → I n')
    (hn : I n) : I n' := by
  induction h with
  | refl => exact hn
  | tail _ hlast ih => exact hturn _ _ hlast ih

theorem of_calls (n : Node) {calls : List Move} (hcalls : ∀ m ∈ calls, m.isCall = true) :
    n.Turns { n with kernel := calls.foldl Kernel.after n.kernel } := by
  induction calls generalizing n with
  | nil => exact refl n
  | cons m rest ih =>
    have hfirst : n.Turns { n with kernel := n.kernel.after m } :=
      of_turn (.call (hcalls m List.mem_cons_self))
    exact hfirst.trans (ih _ fun x hx => hcalls x (List.mem_cons_of_mem _ hx))

end Turns

/-- The kernel of a loop takes requests until the loop ends. -/
structure Sound (n : Node) : Prop where
  ended_iff : n.phase = .ended ↔ n.kernel.accepts = false
  failed : n.kernel.transportFailed = true → n.phase = .ended
  emptied : n.phase = .ended → n.pending = []

namespace Sound

theorem opened (config : Config) (transport : Transport) (clock : Clock) (nextTick : Moment) :
    Sound { kernel := .opened config transport clock, nextTick } := by
  have hworks := Kernel.works_opened config transport clock
  have haccepts : (Kernel.opened config transport clock).accepts = true :=
    hworks.eq Kernel.accepts (by intros; rfl)
  have hfailed : (Kernel.opened config transport clock).transportFailed = false :=
    hworks.eq Kernel.transportFailed (by intros; rfl)
  exact ⟨by simp [haccepts], by simp [hfailed], fun h => nomatch h⟩

theorem goesOn (hs : n.Sound) (hphase : n.phase ≠ .ended) (hphase' : n'.phase ≠ .ended)
    (haccepts : n'.kernel.accepts = n.kernel.accepts)
    (hfailed : n'.kernel.transportFailed = n.kernel.transportFailed) : n'.Sound where
  ended_iff := by
    rw [haccepts, ← hs.ended_iff]
    exact iff_of_false hphase' hphase
  failed h := absurd (hs.failed (hfailed ▸ h)) hphase
  emptied h := absurd h hphase'

theorem ends (hphase : n'.phase = .ended) (haccepts : n'.kernel.accepts = false)
    (hpending : n'.pending = []) : n'.Sound :=
  ⟨iff_of_true hphase haccepts, fun _ => hphase, fun _ => hpending⟩

theorem turn (hs : n.Sound) (h : n.Turn n') : n'.Sound := by
  cases h with
  | line pending stopRequested hline =>
    refine ⟨hs.ended_iff, hs.failed, fun hended => ?_⟩
    have hrefuses := hs.ended_iff.1 hended
    rcases hline with haccepts | hphase | hpending
    · simp [haccepts] at hrefuses
    · exact absurd hended hphase
    · exact hpending.trans (hs.emptied hended)
  | call hm =>
    have hcalled := n.kernel.called_of_isCall hm
    refine ⟨?_, fun hfailed => hs.failed ?_, hs.emptied⟩
    · exact hs.ended_iff.trans (by rw [hcalled.eq Kernel.accepts (by intros; rfl)])
    · exact (hcalled.eq Kernel.transportFailed (by intros; rfl)).symm.trans hfailed
  | environment transport clock => exact ⟨hs.ended_iff, hs.failed, hs.emptied⟩
  | serve r pending hphase =>
    have hworks := n.kernel.applyQueued.works_serve r
    exact hs.goesOn hphase hphase (hworks.eq Kernel.accepts (by intros; rfl))
      (hworks.eq Kernel.transportFailed (by intros; rfl))
  | beginTick nextTick hphase => exact hs.goesOn hphase hphase rfl rfl
  | stall hphase => exact hs.goesOn hphase (fun h => nomatch h) rfl rfl
  | endTick hphase =>
    have hworks := n.kernel.works_endTick
    exact hs.goesOn hphase (fun h => nomatch h) (hworks.eq Kernel.accepts (by intros; rfl))
      (hworks.eq Kernel.transportFailed (by intros; rfl))
  | finish why rs hphase =>
    refine ends rfl ?_ rfl
    have hstate : (n.kernel.after (.finish why rs)).state = .shuttingDown :=
      n.kernel.state_finish why rs
    simp [Kernel.accepts, Kernel.isRunning, hstate]
  | abort hphase => exact ends rfl (by simp [Kernel.after, Kernel.abort, Kernel.accepts]) rfl

theorem turns (hs : n.Sound) (h : n.Turns n') : n'.Sound := h.invariant (fun _ _ h hs => hs.turn h) hs

end Sound

end Node

/-! ## Hosts -/

namespace Host

variable {α : Type} {h h' h'' : Host α} {i j : NodeId} {id other : TaskId} {n : Node}

theorem node?_modifyNode (h : Host α) (i j : NodeId) (f : Node → Node) :
    (h.modifyNode i f).node? j = if i = j then (h.node? j).map f else h.node? j := by
  by_cases hij : i = j <;> simp [node?, modifyNode, hij]

theorem node?_modifyNode_self (hn : h.node? i = some n) (f : Node → Node) :
    (h.modifyNode i f).node? i = some (f n) := by
  rw [node?_modifyNode, if_pos rfl, hn, Option.map_some]

theorem task?_setProgress (h : Host α) (id other : TaskId) (p : Progress α) :
    (h.setProgress id p).tasks[other]?
      = if id = other then h.tasks[other]?.map fun t => { t with progress := p }
        else h.tasks[other]? := by
  by_cases hid : id = other <;> simp [setProgress, hid]

theorem task?_setProgress_self {t : Task α} (ht : h.tasks[id]? = some t) (p : Progress α) :
    (h.setProgress id p).tasks[id]? = some { t with progress := p } := by
  rw [task?_setProgress, if_pos rfl, ht, Option.map_some]

/-! ## The loops of a host -/

/-- The same loops, each after some turns. -/
def Turns (h h' : Host α) : Prop := ∀ j, Option.Rel Node.Turns (h.node? j) (h'.node? j)

def Sound (h : Host α) : Prop := ∀ j n, h.node? j = some n → n.Sound

namespace Turns

theorem of_nodes_eq (heq : h'.nodes = h.nodes) : h.Turns h' := fun j => by
  rw [node?, node?, heq]
  cases h.nodes[j]? with
  | none => exact .none
  | some n => exact .some (.refl n)

theorem refl (h : Host α) : h.Turns h := of_nodes_eq rfl

theorem trans (hturns : h.Turns h') (hturns' : h'.Turns h'') : h.Turns h'' := fun j => by
  have hfirst := hturns j
  have hlater := hturns' j
  revert hfirst hlater
  generalize h.node? j = a, h'.node? j = b, h''.node? j = c
  rintro (hfirst | _) hlater
  · cases hlater with
    | some hlater => exact .some (hfirst.trans hlater)
  · exact hlater

theorem modifyNode {f : Node → Node} (hf : ∀ n, h.node? i = some n → n.Turns (f n)) :
    h.Turns (h.modifyNode i f) := by
  intro j
  rw [node?_modifyNode]
  cases hn : h.node? j with
  | none => split <;> exact .none
  | some n =>
    split
    next hij => exact .some (hf n (hij ▸ hn))
    next => exact .some (.refl n)

/-- What becomes of a loop that there is. -/
theorem modifyNode_of_turn {f : Node → Node} (hn : h.node? i = some n) (hf : n.Turn (f n)) :
    h.Turns (h.modifyNode i f) :=
  modifyNode fun m hm => by
    cases hn.symm.trans hm
    exact .of_turn hf

/-- What a loop has come from. -/
theorem exists_before (hturns : h.Turns h') {n' : Node} (hn' : h'.node? j = some n') :
    ∃ n, h.node? j = some n ∧ n.Turns n' := by
  have hrel := hturns j
  rw [hn'] at hrel
  cases hn : h.node? j with
  | none => rw [hn] at hrel; cases hrel
  | some n =>
    rw [hn] at hrel
    cases hrel with
    | some hturned => exact ⟨n, rfl, hturned⟩

theorem sound (hturns : h.Turns h') (hs : h.Sound) : h'.Sound := fun j n' hn' => by
  obtain ⟨n, hn, hturned⟩ := hturns.exists_before hn'
  exact (hs j n hn).turns hturned

theorem exists_node (hturns : h.Turns h') (hn : h.node? j = some n) :
    ∃ n', h'.node? j = some n' ∧ n.Turns n' := by
  have hrel := hturns j
  rw [hn] at hrel
  cases hn' : h'.node? j with
  | none => rw [hn'] at hrel; cases hrel
  | some n' =>
    rw [hn'] at hrel
    cases hrel with
    | some hturns => exact ⟨n', rfl, hturns⟩

end Turns

end Host

end Blackboard
