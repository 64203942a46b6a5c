import EcmaMachine.Proofs.Budget.Cost
import EcmaMachine.Proofs.Observers
import EcmaMachine.Proofs.Run

/-!
What a step budget counts, and what an evaluation under one keeps all along.
-/

namespace EcmaMachine

variable {η : Type}

/-! ## Counting nodes -/

def Event.entersNode (e : Event) : Bool := e.isEnter && e.slot.isNone

def Observer.entered (o : Observer) : Nat := o.notes.events.countP Event.entersNode

def World.steps (w : World η) (id : Nat) : Nat := (w.observers[id]?.map (·.notes.steps)).getD 0

/-- The same, with the node that is about to be entered. -/
def State.attempts (s : State η) (id : Nat) : Nat :=
  s.world.steps id + if s.control.isEval then 1 else 0

theorem State.attempts_of_not_eval {s : State η} (h : s.control.isEval = false) (id : Nat) :
    s.attempts id = s.world.steps id := by
  simp [attempts, h]

theorem Observer.steps_stepBudget (limit : Nat) (notes : Notes) (store : Store) (e : Event) :
    ((stepBudget limit).watch notes store e).notes.steps =
      notes.steps + if e.entersNode then 1 else 0 := by
  simp only [stepBudget, Event.entersNode]
  rcases Bool.eq_false_or_eq_true (e.isEnter && e.slot.isNone) with node | node <;>
    simp only [node] <;> rfl

theorem Observer.refusal_stepBudget (limit : Nat) (notes : Notes) (store : Store) (e : Event) :
    ((stepBudget limit).watch notes store e).refusal = none ↔
      (e.entersNode = true → notes.steps + 1 ≤ limit) := by
  simp only [stepBudget, Event.entersNode]
  rcases Bool.eq_false_or_eq_true (e.isEnter && e.slot.isNone) with node | node <;>
    simp only [node] <;> simp

/-- Who watches an evaluation under a step budget: the budget is asked first. -/
structure Budget where
  config : Config
  id : Nat
  others : List Nat
  limit : Nat
  observers : config.observers = id :: others
  single : (id :: others).Nodup

namespace Budget

/-- What is kept all along. The cells of the frames are all different and unspent, so no outcome is
ever dropped; whoever watches beside the budget has seen no more nodes than the limit. -/
structure Kept (b : Budget) (start : World η) (fs : List Frame) (w : World η) : Prop where
  intact : w.Intact (Frame.cells fs)
  watching : ∃ o, w.observers[b.id]? = some o ∧ o.watch = (Observer.stepBudget b.limit).watch
  admits : w.Admits b.others
  seen : ∀ spy ∈ b.others, ∀ o, start.observers[spy]? = some o → o.Records →
    ∃ o', w.observers[spy]? = some o' ∧ o'.Records ∧
      o'.entered ≤ o.entered + min (w.steps b.id) b.limit

namespace Kept

variable {b : Budget} {start w : World η} {fs : List Frame} {f : Frame}

section

variable (h : b.Kept start fs w)
include h

theorem steps_notify (e : Event) : (w.notify e b.config.observers).2.steps b.id =
      w.steps b.id + if e.entersNode then 1 else 0 := by
  obtain ⟨o, watching, same⟩ := h.watching
  have apart := (List.nodup_cons.1 b.single).1
  rw [b.observers]
  simp only [World.steps, World.notify_first w e apart watching, watching, Option.map_some,
    Option.getD_some, same, Observer.steps_stepBudget]

/-- The budget refuses the nodes beyond its limit; nobody else refuses anything. -/
theorem refusal {e : Event} (enter : e.isEnter = true) : (w.notify e b.config.observers).1 = none ↔
      (e.entersNode = true → w.steps b.id + 1 ≤ b.limit) := by
  obtain ⟨o, watching, same⟩ := h.watching
  have steps : w.steps b.id = o.notes.steps := by simp [World.steps, watching]
  have verdict := Observer.refusal_stepBudget b.limit o.notes w.store e
  rw [← same] at verdict
  rw [b.observers, steps, ← verdict]
  simp only [World.notify, watching, Observer.see]
  cases refused : (o.watch o.notes w.store e).refusal with
  | some reason => simp
  | none =>
    simp only [iff_true]
    exact (h.admits.noted watching _ _ _).refusal (List.Subset.refl _) enter

/-- What has been seen is counted by the budget first. -/
theorem seen_notify (e : Event) {spy : Nat} (mem : spy ∈ b.others)
    {o : Observer} (watched : start.observers[spy]? = some o) (records : o.Records) :
    ∃ o', (w.notify e b.config.observers).2.observers[spy]? = some o' ∧ o'.Records ∧
      o'.entered ≤ o.entered + min ((w.notify e b.config.observers).2.steps b.id) b.limit := by
  obtain ⟨o₁, found, records₁, le⟩ := h.seen spy mem o watched records
  obtain ⟨budget, watching, same⟩ := h.watching
  obtain ⟨apart, single⟩ := List.nodup_cons.1 b.single
  have ne : b.id ≠ spy := fun eq => apart (eq ▸ mem)
  have steps : w.steps b.id = budget.notes.steps := by simp [World.steps, watching]
  have verdict := Observer.refusal_stepBudget b.limit budget.notes w.store e
  rw [← same, ← steps] at verdict
  rw [h.steps_notify, b.observers]
  simp only [World.notify, watching, Observer.see]
  cases refused : (budget.watch budget.notes w.store e).refusal with
  | some reason =>
    refine ⟨o₁, by simp [Array.getElem?_setIfInBounds_ne ne, found], records₁, ?_⟩
    omega
  | none =>
    have counted := verdict.1 refused
    have found₁ : (w.observers.setIfInBounds b.id
        { budget with notes := (budget.watch budget.notes w.store e).notes })[spy]? = some o₁ := by
      rw [Array.getElem?_setIfInBounds_ne ne, found]
    obtain ⟨o', found', seen⟩ := World.notify_single { w with
      observers := w.observers.setIfInBounds b.id
        { budget with notes := (budget.watch budget.notes w.store e).notes }
      trace := w.trace ++ (budget.watch budget.notes w.store e).trace
      log := w.log ++ (budget.watch budget.notes w.store e).log } e single found₁
    refine ⟨o', found', ?_⟩
    rcases seen with rfl | rfl
    · refine ⟨records₁, ?_⟩
      omega
    · refine ⟨records₁, ?_⟩
      simp only [Observer.entered, records₁ _ _ _, List.countP_cons] at le ⊢
      by_cases node : e.entersNode = true
      · have room := counted node
        simp only [node, if_true]
        omega
      · simp only [node, Bool.false_eq_true, if_false]
        omega

/-! ### Frames and cells -/

theorem bare {x : World η} (observers : x.observers = w.observers) : b.Kept start [] x where
  intact := ⟨.nil, List.forall_mem_nil _⟩
  watching := observers ▸ h.watching
  admits := by
    simp only [World.Admits, observers]
    exact h.admits
  seen := by
    simp only [World.steps, observers]
    exact h.seen

/-- Only the cells and the observers matter. -/
theorem same {x : World η} (spent : x.spent = w.spent)
    (observers : x.observers = w.observers) : b.Kept start fs x :=
  { h.bare observers with intact := h.intact.of_spent spent }

theorem newCell : b.Kept start fs w.newCell.2 := { h with intact := h.intact.newCell }

theorem push (none : f.cell? = none) : b.Kept start (f :: fs) w :=
  { h with intact := Frame.cells_cons_none none fs ▸ h.intact }

theorem pushCell (cell : f.cell? = some w.spent.size) : b.Kept start (f :: fs) w.newCell.2 :=
  { h with intact := Frame.cells_cons_some cell fs ▸ h.intact.fresh }

end

section

variable (h : b.Kept start (f :: fs) w)
include h

theorem pop : b.Kept start fs w :=
  { h with intact := h.intact.sublist ((List.sublist_cons_self f fs).filterMap _) }

theorem swap {f' : Frame} (cell : f'.cell? = f.cell?) : b.Kept start (f' :: fs) w :=
  { h with intact := Frame.cells_swap cell fs ▸ h.intact }

theorem spend {cell : Cell} (own : f.cell? = some cell) : b.Kept start fs (w.spend cell) :=
  { h with intact := (Frame.cells_cons_some own fs ▸ h.intact).spend }

end

/-! ### Events -/

variable {site : Site} (own : site.config = b.config) (slot : Option Slot)
include own

theorem tell (h : b.Kept start fs w) (stage : Stage) :
    b.Kept start fs (w.tell site slot stage).2 where
  intact := h.intact.of_spent (by simp)
  watching := by
    obtain ⟨o, watching, same⟩ := h.watching
    rw [World.tell, own, b.observers]
    exact ⟨_, World.notify_first w _ (List.nodup_cons.1 b.single).1 watching, same⟩
  admits := h.admits.notify _ _
  seen spy mem o watched records := by
    rw [World.tell, own]
    exact h.seen_notify _ mem watched records

theorem steps_exit (h : b.Kept start fs w) (o : Outcome) :
    (w.tell site slot (.exit o)).2.steps b.id = w.steps b.id := by
  rw [World.tell, own, h.steps_notify]
  rfl

theorem steps_enter (h : b.Kept start fs w) :
    (w.tell site slot .enter).2.steps b.id = w.steps b.id + if slot.isNone then 1 else 0 := by
  rw [World.tell, own, h.steps_notify]
  rfl

theorem tell_enter (h : b.Kept start fs w) :
    (w.tell site slot .enter).1 = none ↔ (slot.isNone = true → w.steps b.id + 1 ≤ b.limit) := by
  rw [World.tell, own]
  exact h.refusal rfl

end Kept

end Budget

/-- An evaluation under a budget that has counted at least `m` steps. While it is `calm`, the limit
has not been exceeded. -/
def Invariant.budgeted (b : Budget) (start : World η) (k : List Frame) (m : Nat) (calm : Prop) :
    Invariant η where
  allowed c := c = b.config
  base := k
  agenda := []
  Holds fs w := b.Kept start fs w ∧ m ≤ w.steps b.id ∧ (calm → w.steps b.id ≤ b.limit)
  Refused fs w := b.Kept start fs w ∧ m ≤ w.steps b.id ∧ b.limit < w.steps b.id
  called _ _ _ h := ⟨h.1.same rfl rfl, h.2⟩
  marked _ h := ⟨h.1.same rfl rfl, h.2⟩
  released _ h := ⟨h.1.same rfl rfl, h.2⟩
  newCell h := ⟨h.1.newCell, h.2⟩
  push h plain := ⟨h.1.push (Frame.cell_of_isPlain plain), h.2⟩
  pushCell h cell := ⟨h.1.pushCell cell, h.2⟩
  pop h _ := ⟨h.1.pop, h.2⟩
  swap h _ same := ⟨h.1.swap same, h.2⟩
  spend h own := ⟨h.1.spend own, h.2⟩
  left o h own := by
    refine ⟨h.1.pop.tell own _ _, ?_⟩
    rw [h.1.steps_exit own]
    exact h.2
  entered {fs w site slot} h own admitted := by
    obtain ⟨kept, reached, limit⟩ := h
    have room := (kept.tell_enter own slot).1 admitted
    refine ⟨(kept.tell own slot _).push rfl, ?_⟩
    rw [kept.steps_enter own]
    cases slot with
    | none => exact ⟨Nat.le_succ_of_le reached, fun _ => room rfl⟩
    | some slot => exact ⟨reached, limit⟩
  refused {fs w site slot reason} e h own refusal := by
    obtain ⟨kept, reached, _⟩ := h
    have told := kept.tell own slot .enter
    have exceeded := mt (kept.tell_enter own slot).2 (by simp [refusal])
    refine ⟨told.tell own slot _, ?_⟩
    rw [told.steps_exit own, kept.steps_enter own]
    cases slot with
    | none => exact ⟨Nat.le_succ_of_le reached, by simpa using exceeded⟩
    | some slot => simp at exceeded

end EcmaMachine
