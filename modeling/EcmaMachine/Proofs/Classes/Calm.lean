import EcmaMachine.Proofs.Conduct.Resume
import EcmaMachine.Proofs.Grammar.Trees
import EcmaMachine.Proofs.Lexicon.Step

/-!
Calm work. As long as no class is being made, no step fails for a reason that only the making of a
class has; and no class is being made after the step, unless it was one that came to a class.
-/

namespace EcmaMachine

/-- The failures that may come up: all that have nothing to do with the making of a class, and
perhaps others. -/
structure Failures where
  may : Signal → Prop
  plain {signal : Signal} : signal.isCraft = false → may signal

namespace Failures

variable (F : Failures) {η : Type}

def Tells : Outcome → Prop
  | .value _ => True
  | .failure e => F.may e.signal

def Pursues : Control → Prop
  | .fail e => F.may e.signal
  | _ => True

/-- No class is being made in the frame. One that waits for its superclass has a body of methods, and
a failure that waits for a finalizer is one that may come up. -/
def Tidy : Frame → Prop
  | .classBody .. => False
  | .superclass _ _ body => body.IsClassBody
  | .finalizer o => F.Tells o
  | _ => True

structure Waits (s : State η) : Prop where
  agenda : ∀ a ∈ s.agenda, F.Tells a.2
  held : ∀ h ∈ s.world.held, ∀ f ∈ h.stack, F.Tidy f

structure Steady (s : State η) : Prop extends F.Waits s where
  stack : ∀ f ∈ s.stack, F.Tidy f

structure Calm (s : State η) : Prop extends F.Steady s where
  control : F.Pursues s.control

variable {F}

theorem Waits.tell {s : State η} (h : F.Waits s) (site : Site) (slot : Option Slot) (stage : Stage) :
    F.Waits { s with world := (s.world.tell site slot stage).2 } where
  agenda := h.agenda
  held := by simpa using h.held

namespace Steady

variable {s : State η} {site : Site}

variable (h : F.Steady s)
include h

theorem withStore (store : Store) : F.Steady (s.withStore store) := { h with }

theorem tell (site : Site) (slot : Option Slot) (stage : Stage) :
    F.Steady { s with world := (s.world.tell site slot stage).2 } :=
  { h.toWaits.tell site slot stage with stack := h.stack }

theorem push (f : Frame) (tidy : F.Tidy f) : F.Steady (s.push f) :=
  { h with stack := List.forall_mem_cons.2 ⟨tidy, h.stack⟩ }

theorem newCell : F.Steady { s with world := s.world.newCell.2 } := { h with }

theorem spend (cell : Cell) : F.Steady { s with world := s.world.spend cell } :=
  { h with }

theorem pop : F.Steady s.pop :=
  { h with stack := fun f mem => h.stack f (List.mem_of_mem_tail mem) }

theorem pushCell (frame : Cell → Frame) (tidy : ∀ c, F.Tidy (frame c)) :
    F.Steady (s.pushCell frame) :=
  { h.newCell with stack := List.forall_mem_cons.2 ⟨tidy _, h.stack⟩ }

theorem guard : F.Steady (s.pushCell .guard) := h.pushCell .guard fun _ => trivial

theorem become {control : Control} (pursues : F.Pursues control) : F.Calm (s.become control) :=
  { h with control := pursues }

theorem give (v : Value) : F.Calm (s.give v) := h.become trivial

theorem rest : F.Calm s.rest := h.become trivial

theorem eval (site : Site) : F.Calm (s.eval site) := h.become trivial

theorem fail {e : Exception} (may : F.may e.signal) : F.Calm (s.fail e) :=
  h.become may

theorem signal {signal : Signal} (may : F.may signal) : F.Calm (s.signal signal) :=
  h.fail may

theorem finish {o : Outcome} (tells : F.Tells o) : F.Calm (s.finish o) := by
  cases o with
  | value v => exact h.give v
  | failure e => exact h.fail tells

/-- Whatever is true of calm states and of the work inside is true of the whole. -/
theorem enter_of {slot : Option Slot} {work : State η → State η}
    {Q : State η → Prop} (calm : ∀ {s}, F.Calm s → Q s)
    (inside : ∀ {s'}, F.Steady s' → s'.store = s.store → Q (work s')) :
    Q (s.enter site slot work) := by
  have told := h.tell site slot .enter
  exact State.enter_cases (inside (told.push _ trivial) (World.tell_store _ _ _ _))
    fun _ => calm ((told.tell site slot _).fail (F.plain rfl))

theorem enter {slot : Option Slot} {work : State η → State η}
    (inside : ∀ {s'}, F.Steady s' → s'.store = s.store → F.Calm (work s')) :
    F.Calm (s.enter site slot work) :=
  h.enter_of id inside

theorem visit (slot : Slot) (child : Node) : F.Calm (s.visit site slot child) :=
  h.enter fun h _ => h.eval _

end Steady

/-! ## What the machine does -/

def terms (F : Failures) : Terms where
  region := .whole
  lens := ⟨id, false⟩
  config := id
  admits _ := True
  tracks := False
  may := F.may
  crafts := False
  rewires := True
  lexicon := .free
  lawful := False
  references _ := Config.references_id
  plain := F.plain
  crafty := False.elim

theorem tidy_of_calm {f : Frame} (calm : F.terms.Calm f) : F.Tidy f := by
  cases f with
  | superclass | classBody => exact calm.elim
  | finalizer o =>
    cases o with
    | value => trivial
    | failure => exact calm
  | _ => trivial

/-- Calm work. The second state is there for its store alone. -/
def conduct (F : Failures) : Conduct η where
  toTerms := F.terms
  Mid _ _ σ s t := F.Steady s ∧ s.store = σ ∧ t.store = σ
  Next _ s _ := F.Calm s
  Top _ _ σ s t := F.Steady s ∧ s.store = σ ∧ t.store = σ
  Given _ _ _ s _ := F.Calm s
  keeps _ := trivial
  store_eq h := h.2.1
  look_eq h := h.2.2.trans (Store.look_id false _).symm
  stack_eq _ := False.elim
  top_eq h := ⟨trivial, h.2.1, h.2.2.trans (Store.look_id false _).symm⟩
  write h _ := ⟨h.1.withStore _, rfl, Store.look_id false _⟩
  push h _ bears := ⟨h.1.push _ (tidy_of_calm bears.calm), h.2⟩
  pushCell h _ bears := ⟨h.1.pushCell _ fun c => tidy_of_calm (bears c).calm, h.2⟩
  newCell h := ⟨h.1.newCell, h.2⟩
  become control h pursues := h.1.become <| by
    cases control with
    | fail => exact pursues.may
    | _ => trivial
  enter h _ inside := h.1.enter fun h' same => inside ⟨h', same.trans h.2.1, same.trans h.2.1⟩
  pop h _ := ⟨h.1.pop, h.2⟩
  leave o h _ := ⟨h.1.pop.tell _ _ _, (World.tell_store _ _ _ _).trans h.2.1,
    (World.tell_store _ _ _ _).trans h.2.2⟩
  swap h _ bears := ⟨h.1.pop.push _ (tidy_of_calm bears.calm), h.2⟩
  given _ _ _ next := next
  swapped _ _ _ next := next
  once h _ inside _ := by
    split
    · exact h.1.pop.rest
    · exact inside ⟨h.1.pop.spend _, h.2.1, h.2.1⟩

namespace Steady

variable {s : State η} {site : Site}

theorem mid (h : F.Steady s) : F.conduct.Mid s [] s.store s s := ⟨h, rfl, rfl⟩

theorem top (h : F.Steady s) (f : Frame) : F.conduct.Top f [] s.store s s := ⟨h, rfl, rfl⟩

theorem bindPattern (h : F.Steady s) (target : Site) (v : Value) : F.Calm (s.bind target v) :=
  h.mid.bindPattern ⟨Region.whole_allows, trivial, False.elim⟩ Region.whole_has

/-- A node that is no class begins. -/
theorem startNode (h : F.Steady s) (other : site.node.type ≠ .classDeclaration) :
    F.Calm (s.start site) :=
  h.mid.start (r := .closed) ⟨Region.whole_allows, trivial, False.elim⟩ False.elim
    (fun _ _ _ _ _ _ _ _ _ => rfl) other

theorem bears {f : Frame} (calm : F.terms.Calm f) (s : Store) (fs : List Frame) :
    F.terms.Bears s fs f :=
  ⟨Region.whole_carries f, fun _ _ => trivial, nofun, calm, False.elim⟩

/-- A value is handed to a frame that no class waits in. -/
theorem resume (h : F.Steady s) (v receiver : Value) {f : Frame} (tidy : F.Tidy f)
    (other : ∀ site name body, f ≠ .superclass site name body) :
    F.Calm (s.resume v receiver f) := by
  have resumed : f.isInner = true → F.terms.Calm f → F.Calm (s.resume v receiver f) :=
    fun inner calm => ((h.push f tidy).top f).resume inner (bears calm _ _) Region.whole_has
      Region.whole_has nofun (fun _ _ _ _ => ⟨trivial, Region.whole_crafted⟩)
      fun _ _ _ _ _ => .inl trivial
  cases f with
  | deliver id => exact h.rest
  | superclass site name body => exact absurd rfl (other site name body)
  | classBody => cases tidy
  | finalizer o => cases o <;> exact resumed rfl tidy
  | _ => exact resumed rfl trivial

theorem unwind (h : F.Steady s) {e : Exception} (may : F.may e.signal) (f : Frame) :
    F.Calm (s.unwind e f) := by
  have unwound : f.isInner = true → F.terms.Calm f → F.Calm (s.unwind e f) := fun inner calm =>
    ((h.push f (tidy_of_calm calm)).top f).unwind inner (bears calm _ _)
      ⟨Region.whole_signals, may, False.elim⟩
  cases f with
  | deliver id => exact h.rest
  | superclass | classBody | finalizer => exact h.fail may
  | _ => exact unwound rfl trivial

theorem applyClosure (h : F.Steady s) (closure : Closure) (this : Value) (args : List Value)
    (config : Config) : F.Calm (s.applyClosure closure this args config) :=
  h.mid.applyClosure closure trivial Region.whole_has (fun _ _ => Region.whole_has) config
    trivial False.elim False.elim

end Steady

/-! ## Calls -/

def Replies (F : Failures) : Reply → Prop
  | .failure e => F.may e.signal
  | .hold answers => ∀ o ∈ answers, F.Tells o
  | _ => True

def Permits (F : Failures) (host : Host η) : Prop :=
  ∀ word this args ticket store kept, F.Replies (host.call word this args ticket store kept).reply

namespace Steady

variable {s : State η} {host : Host η}

theorem applyHost (h : F.Steady s) (permits : F.Permits host) (word : String) (this : Value)
    (args : List Value) : F.Calm (s.applyHost host word this args) := by
  have replies := permits word this args s.world.held.size s.store s.world.host
  simp only [State.applyHost]
  generalize host.call word this args s.world.held.size s.store s.world.host = step at replies
  have after : F.Steady ({ s with world := { s.world with
      store := step.store, host := step.host, log := s.world.log ++ step.log } } : State η) :=
    { h with }
  split
  · exact after.give _
  · next given =>
    rw [given] at replies
    exact after.fail replies
  · exact after.become trivial
  · next answers given =>
    rw [given] at replies
    refine ⟨⟨⟨?_, ?_⟩, List.forall_mem_nil _⟩, trivial⟩
    · intro a mem
      rcases List.mem_append.1 mem with mem | mem
      · obtain ⟨o, own, rfl⟩ := List.mem_map.1 mem
        exact replies o own
      · exact h.agenda a mem
    · intro held mem
      rcases Array.mem_push.1 mem with mem | rfl
      · exact h.held held mem
      · exact h.stack

end Steady

/-- A held call is answered. -/
theorem Waits.answer {s : State η} (h : F.Waits s) {ticket : Nat} {o : Outcome} (tells : F.Tells o)
    (accepts : s.accepts ticket o = true) : F.Calm (s.answer ticket o) := by
  obtain ⟨call, found⟩ := State.exists_held_of_accepts accepts
  rw [State.answer_of_accepts accepts found]
  refine Steady.finish ?_ tells
  exact ⟨⟨h.agenda, Held.forall_close (P := (∀ f ∈ ·, F.Tidy f)) h.held ticket o⟩,
    h.held call (Array.mem_of_getElem? found)⟩

end Failures

end EcmaMachine
