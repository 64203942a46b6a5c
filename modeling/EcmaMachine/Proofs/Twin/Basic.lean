import EcmaMachine.Proofs.Bond.Basic

/-!
Two states of the machine that differ only in the names of the trees. Nothing that a step is made of
looks at these names, so what one of them does, the other does too.
-/

namespace EcmaMachine

/-! ## States under other names -/

def Site.mapTree (g : TreeId → TreeId) (site : Site) : Site :=
  { site with toSpot := site.toSpot.mapTree g }

namespace Frame

def mapTree (g : TreeId → TreeId) : Frame → Frame := map (Site.mapTree g) (Closure.mapTree g)

end Frame

def Control.mapTree (g : TreeId → TreeId) : Control → Control
  | .eval site => .eval (site.mapTree g)
  | .bind target v => .bind (target.mapTree g) v
  | control => control

def Held.mapTree (g : TreeId → TreeId) (h : Held) : Held :=
  { h with stack := h.stack.map (Frame.mapTree g) }

variable {η : Type}

def World.mapTree (g : TreeId → TreeId) (w : World η) : World η :=
  { w with store := w.store.mapTree g, held := w.held.map (Held.mapTree g) }

def State.mapTree (g : TreeId → TreeId) (s : State η) : State η where
  control := s.control.mapTree g
  stack := s.stack.map (Frame.mapTree g)
  agenda := s.agenda
  world := s.world.mapTree g

/-! ## Observers -/

/-- An observer that takes functions alike, whichever trees they come from. -/
def Observer.IgnoresTrees (o : Observer) : Prop :=
  ∀ g notes store e, o.watch notes (store.mapTree g) e = o.watch notes store e

namespace World

def IgnoresTrees (w : World η) : Prop := ∀ o ∈ w.observers, o.IgnoresTrees

/-- An event looks the same under other names, and those who have seen it ignore them as before. -/
theorem notify_mapTree (g : TreeId → TreeId) {w : World η} (blind : w.IgnoresTrees) (e : Event)
    (ids : List Nat) : (w.notify e ids).2.IgnoresTrees ∧
      (w.mapTree g).notify e ids = ((w.notify e ids).1, (w.notify e ids).2.mapTree g) := by
  induction ids generalizing w with
  | nil => exact ⟨blind, rfl⟩
  | cons id rest ih =>
    have same : (w.mapTree g).observers = w.observers := rfl
    cases found : w.observers[id]? with
    | none =>
      simp only [notify, same, found]
      exact ih blind
    | some o =>
      have ignores : o.IgnoresTrees := blind o (Array.mem_of_getElem? found)
      have seen : o.see (w.mapTree g).store e = o.see w.store e := ignores g o.notes w.store e
      have noted : ({ w with
          observers := w.observers.setIfInBounds id { o with notes := (o.see w.store e).notes }
          trace := w.trace ++ (o.see w.store e).trace
          log := w.log ++ (o.see w.store e).log } : World η).IgnoresTrees := by
        intro o' mem
        rcases Array.mem_or_eq_of_mem_setIfInBounds mem with old | rfl
        · exact blind o' old
        · exact ignores
      simp only [notify, same, found, seen]
      split
      · exact ⟨noted, rfl⟩
      · exact ih noted

end World

/-! ## Twins -/

/-- The second state is the first with its trees renamed, and nobody watches who would notice. -/
structure Twin (g : TreeId → TreeId) (s t : State η) : Prop where
  same : t = s.mapTree g
  blind : s.world.IgnoresTrees

namespace Twin

variable {g : TreeId → TreeId} {s t : State η}

variable (h : Twin g s t)
include h

theorem store : t.store = s.store.mapTree g := by
  rw [h.same]
  rfl

theorem become (control : Control) : Twin g (s.become control) (t.become (control.mapTree g)) := by
  obtain ⟨rfl, blind⟩ := h
  exact ⟨rfl, blind⟩

theorem give (v : Value) : Twin g (s.give v) (t.give v) := h.become (.ret v _)

theorem fail (e : Exception) : Twin g (s.fail e) (t.fail e) := h.become (.fail e)

theorem rest : Twin g s.rest t.rest := h.become .idle

theorem finish (o : Outcome) : Twin g (s.finish o) (t.finish o) := by
  cases o with
  | value v => exact h.give v
  | failure e => exact h.fail e

theorem push (f : Frame) : Twin g (s.push f) (t.push (f.mapTree g)) := by
  obtain ⟨rfl, blind⟩ := h
  exact ⟨rfl, blind⟩

theorem pop : Twin g s.pop t.pop := by
  obtain ⟨rfl, blind⟩ := h
  refine ⟨?_, blind⟩
  simp only [State.pop, State.mapTree, List.map_tail]

theorem pushCell (frame : Cell → Frame) :
    Twin g (s.pushCell frame) (t.pushCell fun cell => (frame cell).mapTree g) := by
  obtain ⟨rfl, blind⟩ := h
  exact ⟨rfl, blind⟩

theorem withStore (store : Store) : Twin g (s.withStore store) (t.withStore (store.mapTree g)) := by
  obtain ⟨rfl, blind⟩ := h
  exact ⟨rfl, blind⟩

theorem newCell :
    Twin g { s with world := s.world.newCell.2 } { t with world := t.world.newCell.2 } := by
  obtain ⟨rfl, blind⟩ := h
  exact ⟨rfl, blind⟩

/-- What may be done once is done in both states or in neither. -/
theorem once (cell : Cell) {work work' : State η → State η}
    (works : ∀ {s' t'}, Twin g s' t' → s'.store = s.store → Twin g (work s') (work' t')) :
    Twin g (if s.world.isSpent cell then s.rest else work { s with world := s.world.spend cell })
      (if t.world.isSpent cell then t.rest else work' { t with world := t.world.spend cell }) := by
  have spent : t.world.isSpent cell = s.world.isSpent cell := by
    rw [h.same]
    rfl
  rw [spent]
  split
  · exact h.rest
  · obtain ⟨rfl, blind⟩ := h
    exact works ⟨rfl, blind⟩ rfl

theorem tell (site : Site) (slot : Option Slot) (stage : Stage) :
    (t.world.tell (site.mapTree g) slot stage).1 = (s.world.tell site slot stage).1 ∧
    Twin g { s with world := (s.world.tell site slot stage).2 }
      { t with world := (t.world.tell (site.mapTree g) slot stage).2 } := by
  obtain ⟨rfl, blind⟩ := h
  obtain ⟨blind', told⟩ := World.notify_mapTree g blind ⟨site.node, slot, site.scope, stage⟩
    site.config.observers
  have told : (s.mapTree g).world.tell (site.mapTree g) slot stage =
      ((s.world.tell site slot stage).1, (s.world.tell site slot stage).2.mapTree g) := told
  rw [told]
  exact ⟨rfl, rfl, blind'⟩

theorem leave (site : Site) (slot : Option Slot) (o : Outcome) :
    Twin g (s.leave site slot o) (t.leave (site.mapTree g) slot o) :=
  (h.tell site slot (.exit o)).2

/-- The work inside begins with the store as it is. -/
theorem enter (site : Site) (slot : Option Slot) {work work' : State η → State η}
    (works : ∀ {s' t'}, Twin g s' t' → s'.store = s.store → Twin g (work s') (work' t')) :
    Twin g (s.enter site slot work) (t.enter (site.mapTree g) slot work') := by
  obtain ⟨told, h⟩ := h.tell site slot .enter
  cases refusal : (s.world.tell site slot .enter).1 with
  | none =>
    rw [State.enter_of_none _ refusal, State.enter_of_none _ (told.trans refusal)]
    exact works (h.push (.exit site slot)) (s.world.tell_store site slot .enter)
  | some reason =>
    rw [State.enter_of_some _ refusal, State.enter_of_some _ (told.trans refusal)]
    exact (h.leave site slot _).fail _

end Twin

end EcmaMachine
