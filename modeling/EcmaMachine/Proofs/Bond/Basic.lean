import EcmaMachine.Proofs.Look

/-!
Bonds between two runs of the machine. A bond relates the states of two runs and is kept by the few
things that a step is made of: frames pushed and taken off, stores written, cells made and spent,
events shown. `Bond.Next` then relates the states after any step; the modules beside this one say
so for every function of the machine. An invariant of one run is a bond of the run with itself.
-/

namespace EcmaMachine

variable {f : Frame}

/-! ## Frames under other configs -/

def Site.mapConfig (g : Config → Config) (site : Site) : Site :=
  { site with config := g site.config }

theorem Site.mapConfig_id : Site.mapConfig id = id := rfl

theorem Config.references_id {c : Config} : (id c).references = (!false && c.references) :=
  (Bool.true_and _).symm

namespace Frame

def map (g : Site → Site) (c : Closure → Closure) : Frame → Frame
  | exit site slot => exit (g site) slot
  | items sites done => items (sites.map (Option.map g)) done
  | bindTo target => bindTo (g target)
  | bindRest properties source => bindRest (properties.map g) source
  | bindParams site closure params args => bindParams (g site) (c closure) (params.map g) args
  | branch site yes no => branch (g site) yes no
  | whileTest site test loop => whileTest (g site) test loop
  | forIn site target loop => forIn (g site) target loop
  | forOf site target right loop => forOf (g site) target right loop
  | roundBody site cell loop outer next => roundBody (g site) cell loop (g outer) next
  | round site cell next => round (g site) cell next
  | tryBlock site cell handler final => tryBlock (g site) cell handler final
  | tryHandler site cell final => tryHandler (g site) cell final
  | catchBody site block => catchBody (g site) block
  | superclass site name members => superclass (g site) name members
  | classBody site name super => classBody (g site) name super
  | objectRest object entries => objectRest object (entries.map g)
  | propertyKey site object value => propertyKey (g site) object value
  | memberObject site property computed access => memberObject (g site) property computed access
  | callee site node args => callee (g site) node args
  | call site node f this => call (g site) node f this
  | newCallee site node args => newCallee (g site) node args
  | newCall site f => newCall (g site) f
  | assignment site operator left => assignment (g site) operator left
  | binaryLeft site operator right => binaryLeft (g site) operator right
  | logical site operator right => logical (g site) operator right
  | frame => frame

theorem map_id : Frame.map id id = id := by
  funext f
  cases f <;> simp [map]

def mapConfig (g : Config → Config) : Frame → Frame := map (Site.mapConfig g) id

theorem mapConfig_id : Frame.mapConfig id = id := map_id

def sites : Frame → List Site
  | items sites _ => sites.filterMap id
  | bindRest properties _ => properties
  | bindParams site _ params _ => site :: params
  | objectRest _ entries => entries
  | roundBody site _ _ outer _ => [site, outer]
  | exit site _ | bindTo site | branch site _ _ | whileTest site _ _ | forIn site _ _
  | forOf site _ _ _ | round site _ _ | tryBlock site _ _ _ | tryHandler site _ _
  | catchBody site _ | superclass site _ _ | classBody site _ _ | propertyKey site _ _
  | memberObject site _ _ _ | callee site _ _ | call site _ _ _ | newCallee site _ _
  | newCall site _ | assignment site _ _ | binaryLeft site _ _ | logical site _ _ => [site]
  | _ => []

def cell? : Frame → Option Cell
  | guard cell | once cell | body cell | program cell | roundBody _ cell _ _ _ | round _ cell _
  | tryBlock _ cell _ _ | tryHandler _ cell _ => some cell
  | _ => none

def isExit : Frame → Bool
  | exit .. => true
  | _ => false

theorem isExit_of_cell {f : Frame} {cell : Cell} (h : f.cell? = some cell) : f.isExit = false := by
  cases f with
  | exit => cases h
  | _ => rfl

/-- Frames of an evaluation; the outside waits below all of them. -/
def isInner : Frame → Bool
  | deliver _ => false
  | _ => true

theorem isInner_mapConfig (g : Config → Config) (f : Frame) :
    (f.mapConfig g).isInner = f.isInner := by
  cases f <;> rfl

/-- Neither the end of a bracket of events, nor guarded by a cell, nor the outside. -/
def isPlain (f : Frame) : Bool := !f.isExit && f.isInner && f.cell?.isNone

/-- Frames of a member that is called: the object is wanted along with the function. -/
def wantsReceiver : Frame → Bool
  | memberObject _ _ _ .callee | memberKey _ .callee => true
  | _ => false

def isSimple (f : Frame) : Bool := f.isPlain && !f.wantsReceiver

end Frame

/-- A receiver given to these frames gets to the call that waits for it. -/
def Receives : List Frame → Prop
  | .callee .. :: _ => True
  | .exit .. :: rest => Receives rest
  | .guard _ :: rest => Receives rest
  | _ => False

def Frame.Fits (allowed : Config → Prop) (below : List Frame) (f : Frame) : Prop :=
  (∀ site ∈ f.sites, allowed site.config) ∧ (f.wantsReceiver = true → Receives below) ∧
    f.isInner = true

theorem Frame.Fits.ofSites {allowed : Config → Prop} {below : List Frame}
    (sites : ∀ site ∈ f.sites, allowed site.config) (receiver : f.wantsReceiver = false)
    (inner : f.isInner = true) : f.Fits allowed below :=
  ⟨sites, by simp [receiver], inner⟩

theorem Frame.isInner_of_isPlain (h : f.isPlain = true) : f.isInner = true := by
  simp only [isPlain, Bool.and_eq_true] at h
  exact h.1.2

theorem Frame.isExit_of_isPlain (h : f.isPlain = true) : f.isExit = false := by
  simp only [isPlain, Bool.and_eq_true, Bool.not_eq_true'] at h
  exact h.1.1

theorem Frame.cell_of_isPlain (h : f.isPlain = true) : f.cell? = none := by
  simp only [isPlain, Bool.and_eq_true, Option.isNone_iff_eq_none] at h
  exact h.2

def Built (allowed : Config → Prop) : List Frame → Prop
  | [] => True
  | f :: below => f.Fits allowed below ∧ Built allowed below

namespace Control

def mapConfig (g : Config → Config) : Control → Control
  | eval site => eval (site.mapConfig g)
  | bind target v => bind (target.mapConfig g) v
  | apply f this args config => apply f this args (g config)
  | control => control

theorem mapConfig_id (c : Control) : c.mapConfig id = c := by
  cases c <;> rfl

def Fits (allowed : Config → Prop) (frames : List Frame) : Control → Prop
  | eval site => allowed site.config
  | bind target _ => allowed target.config
  | ret _ receiver => receiver = .undefined ∨ Receives frames
  | fail _ => True
  | apply _ _ _ config => allowed config
  | idle => False

end Control

/-! ## Events -/

namespace World

variable {η : Type}

def tell (w : World η) (site : Site) (slot : Option Slot) (stage : Stage) :
    Option String × World η :=
  w.notify ⟨site.node, slot, site.scope, stage⟩ site.config.observers

/-- Showing an event changes what the observers remember, the trace and the log. It looks at these
and the store only. -/
theorem notify_frame (w : World η) (e : Event) (ids : List Nat) :
    ∃ refusal observers trace log, ∀ spent answered held host,
      ({ w with spent, answered, held, host } : World η).notify e ids =
        (refusal, { w with spent, answered, held, host, observers, trace, log }) := by
  induction ids generalizing w with
  | nil => exact ⟨none, w.observers, w.trace, w.log, fun _ _ _ _ => rfl⟩
  | cons id rest ih =>
    cases found : w.observers[id]? with
    | none =>
      obtain ⟨refusal, observers, trace, log, same⟩ := ih w
      refine ⟨refusal, observers, trace, log, fun spent answered held host => ?_⟩
      simp only [notify, found]
      exact same spent answered held host
    | some o =>
      let verdict := o.see w.store e
      let seen : World η := { w with
        observers := w.observers.setIfInBounds id { o with notes := verdict.notes }
        trace := w.trace ++ verdict.trace
        log := w.log ++ verdict.log }
      cases refused : verdict.refusal with
      | some reason =>
        refine ⟨some reason, seen.observers, seen.trace, seen.log,
          fun spent answered held host => ?_⟩
        simp only [notify, found, verdict] at refused ⊢
        simp only [refused]
        rfl
      | none =>
        obtain ⟨refusal, observers, trace, log, same⟩ := ih seen
        refine ⟨refusal, observers, trace, log, fun spent answered held host => ?_⟩
        simp only [notify, found, verdict] at refused ⊢
        simp only [refused]
        exact same spent answered held host

section Tell

variable (w : World η) (site : Site) (slot : Option Slot) (stage : Stage)

theorem tell_eq : (w.tell site slot stage).2 = { w with
    observers := (w.tell site slot stage).2.observers
    trace := (w.tell site slot stage).2.trace
    log := (w.tell site slot stage).2.log } := by
  obtain ⟨refusal, observers, trace, log, same⟩ :=
    w.notify_frame ⟨site.node, slot, site.scope, stage⟩ site.config.observers
  have told : w.tell site slot stage = _ := same w.spent w.answered w.held w.host
  rw [told]

@[simp] theorem tell_store : (w.tell site slot stage).2.store = w.store := by
  rw [tell_eq]

@[simp] theorem tell_spent : (w.tell site slot stage).2.spent = w.spent := by
  rw [tell_eq]

@[simp] theorem tell_answered : (w.tell site slot stage).2.answered = w.answered := by
  rw [tell_eq]

@[simp] theorem tell_held : (w.tell site slot stage).2.held = w.held := by
  rw [tell_eq]

@[simp] theorem tell_host : (w.tell site slot stage).2.host = w.host := by
  rw [tell_eq]

/-- Events do not show what the host keeps. -/
theorem tell_with (held : Array Held) (host : η) :
    ({ w with held, host } : World η).tell site slot stage =
      ((w.tell site slot stage).1, { (w.tell site slot stage).2 with held, host }) := by
  obtain ⟨refusal, observers, trace, log, same⟩ :=
    w.notify_frame ⟨site.node, slot, site.scope, stage⟩ site.config.observers
  have told : w.tell site slot stage = _ := same w.spent w.answered w.held w.host
  exact (same w.spent w.answered held host).trans (by rw [told])

end Tell

end World

namespace State

variable {η : Type} {s : State η} {site : Site} {slot : Option Slot}

theorem leave_eq (s : State η) (site : Site) (slot : Option Slot) (o : Outcome) :
    s.leave site slot o = { s with world := (s.world.tell site slot (.exit o)).2 } := rfl

def pop (s : State η) : State η := { s with stack := s.stack.tail }

theorem enter_of_none (work : State η → State η)
    (h : (s.world.tell site slot .enter).1 = none) :
    s.enter site slot work =
      work (({ s with world := (s.world.tell site slot .enter).2 }).push (.exit site slot)) := by
  simp only [World.tell] at h
  simp only [enter, h, World.tell]

theorem enter_of_some (work : State η → State η) {reason : String}
    (h : (s.world.tell site slot .enter).1 = some reason) :
    s.enter site slot work =
      (({ s with world := (s.world.tell site slot .enter).2 }).leave site slot
        (.failure (.leaving (.aborted reason) site.node))).fail
          (.leaving (.aborted reason) site.node) := by
  simp only [World.tell] at h
  simp only [enter, h, World.tell]

/-- The work begins, unless an observer refuses it. -/
theorem enter_cases {Q : State η → Prop} {work : State η → State η}
    (begun : Q (work (({ s with world := (s.world.tell site slot .enter).2 }).push
      (.exit site slot))))
    (refused : ∀ reason, Q ((({ s with world := (s.world.tell site slot .enter).2 }).leave site slot
      (.failure (.leaving (.aborted reason) site.node))).fail
        (.leaving (.aborted reason) site.node))) : Q (s.enter site slot work) := by
  cases refusal : (s.world.tell site slot .enter).1 with
  | none => exact enter_of_none work refusal ▸ begun
  | some reason => exact enter_of_some work refusal ▸ refused reason

def CallsHost (word : String) (this : Value) (args : List Value) (s : State η) : Prop :=
  ∃ f config name properties, s.control = .apply f this args config ∧
    s.store.function? f = some ⟨.host name word, properties⟩

def asked (host : Host η) (word : String) (this : Value) (args : List Value) (s : State η) :
    HostStep η :=
  host.call word this args s.world.held.size s.store s.world.host

section Outcomes

variable (host : Host η) {s : State η} {f : Frame} {rest : List Frame}

theorem advance_ret {v receiver : Value} (control : s.control = .ret v receiver)
    (stack : s.stack = f :: rest) (inner : f.isInner = true) :
    s.advance host = .next (s.pop.resume v receiver f) := by
  simp only [advance, control, stack, pop, List.tail_cons]
  cases f with
  | deliver => cases inner
  | _ => rfl

theorem advance_fail {e : Exception} (control : s.control = .fail e)
    (stack : s.stack = f :: rest) (inner : f.isInner = true) :
    s.advance host = .next (s.pop.unwind e f) := by
  simp only [advance, control, stack, pop, List.tail_cons]
  cases f with
  | deliver => cases inner
  | _ => rfl

end Outcomes

end State

/-! ## Bonds -/

/-- Answers that are still to be given, each with the number of its call. -/
abbrev Agenda := List (Nat × Outcome)

structure Bond (η : Type) where
  /-- The config of the second run where the first has the given one. -/
  config : Config → Config
  /-- Whether the second run is without reference tables. -/
  forgets : Bool
  /-- The configs that the first run may meet. -/
  allowed : Config → Prop
  /-- What waits below the evaluation, in each run. -/
  base : List Frame
  base' : List Frame
  agenda : Agenda
  agenda' : Agenda
  /-- How the worlds are related under the frames of the first run. -/
  Rel : List Frame → World η → World η → Prop
  /-- The same once an observer has refused an Enter. -/
  Refused : List Frame → World η → World η → Prop
  references {c : Config} : allowed c → (config c).references = (!forgets && c.references)
  store_eq {fs w x} : Rel fs w x → x.store = w.store.view forgets
  spent_eq {fs w x} : Rel fs w x → x.spent = w.spent
  answered_eq {fs w x} : Rel fs w x → x.answered = w.answered
  /-- The machine has written to the store, or the outside has taken an outcome. -/
  stored {fs w x} (store : Store) (log : List String) : Rel fs w x →
    Rel fs { w with store, log := w.log ++ log }
      { x with store := store.view forgets, log := x.log ++ log }
  marked {fs w x} (cell : Cell) : Rel fs w x → Rel fs (w.markAnswered cell) (x.markAnswered cell)
  newCell {fs w x} : Rel fs w x → Rel fs w.newCell.2 x.newCell.2
  push {fs w x} {f : Frame} : Rel fs w x → f.isPlain = true → Rel (f :: fs) w x
  pushCell {fs w x} {f : Frame} : Rel fs w x →
    f.cell? = some w.spent.size → Rel (f :: fs) w.newCell.2 x.newCell.2
  pop {fs w x} {f : Frame} : Rel (f :: fs) w x → f.isExit = false → Rel fs w x
  swap {fs w x} {f f' : Frame} : Rel (f :: fs) w x →
    f.cell?.isSome = true → f'.cell? = f.cell? → Rel (f' :: fs) w x
  spend {fs w x} {f : Frame} {cell : Cell} : Rel (f :: fs) w x →
    f.cell? = some cell → Rel fs (w.spend cell) (x.spend cell)
  left {fs w x} {site : Site} {slot : Option Slot} (o : Outcome) :
    Rel (.exit site slot :: fs) w x → allowed site.config →
    Rel fs (w.tell site slot (.exit o)).2 (x.tell (site.mapConfig config) slot (.exit o)).2
  asked {fs w x} {site : Site} (slot : Option Slot) : Rel fs w x → allowed site.config →
    (x.tell (site.mapConfig config) slot .enter).1 = (w.tell site slot .enter).1
  entered {fs w x} {site : Site} {slot : Option Slot} : Rel fs w x →
    allowed site.config → (w.tell site slot .enter).1 = none →
    Rel (.exit site slot :: fs) (w.tell site slot .enter).2
      (x.tell (site.mapConfig config) slot .enter).2
  refused {fs w x} {site : Site} {slot : Option Slot} {reason : String} (e : Exception) :
    Rel fs w x → allowed site.config → (w.tell site slot .enter).1 = some reason →
    Refused fs ((w.tell site slot .enter).2.tell site slot (.exit (.failure e))).2
      ((x.tell (site.mapConfig config) slot .enter).2.tell (site.mapConfig config) slot
        (.exit (.failure e))).2

/-- The host is in the same state in both runs, and so are the calls that it holds. -/
structure Bond.Shared {η : Type} (B : Bond η) : Prop where
  host_eq {fs w x} : B.Rel fs w x → x.host = w.host
  held_size {fs w x} : B.Rel fs w x → x.held.size = w.held.size
  /-- A host function has been called. -/
  called {fs w x} (store : Store) (host : η) (log : List String) : B.Rel fs w x →
    B.Rel fs { w with store, host, log := w.log ++ log }
      { x with store := store.view B.forgets, host, log := x.log ++ log }
  /-- A call was held and answered since. -/
  released {fs w x} (valueOpen failureOpen : Bool) : B.Rel fs w x →
    B.Rel fs { w with held := w.held.push ⟨fs ++ B.base, valueOpen, failureOpen⟩ }
      { x with held :=
          x.held.push ⟨fs.map (Frame.mapConfig B.config) ++ B.base', valueOpen, failureOpen⟩ }

/-- What a run keeps by itself, said of the frames of the evaluation and the world. -/
structure Invariant (η : Type) where
  allowed : Config → Prop
  base : List Frame
  agenda : Agenda
  Holds : List Frame → World η → Prop
  /-- What is true once an observer has refused an Enter. -/
  Refused : List Frame → World η → Prop
  called {fs w} (store : Store) (host : η) (log : List String) :
    Holds fs w → Holds fs { w with store, host, log := w.log ++ log }
  marked {fs w} (cell : Cell) : Holds fs w → Holds fs (w.markAnswered cell)
  released {fs w} (held : Held) : Holds fs w → Holds fs { w with held := w.held.push held }
  newCell {fs w} : Holds fs w → Holds fs w.newCell.2
  push {fs w} {f : Frame} : Holds fs w → f.isPlain = true → Holds (f :: fs) w
  pushCell {fs w} {f : Frame} : Holds fs w →
    f.cell? = some w.spent.size → Holds (f :: fs) w.newCell.2
  pop {fs w} {f : Frame} : Holds (f :: fs) w → f.isExit = false → Holds fs w
  swap {fs w} {f f' : Frame} : Holds (f :: fs) w →
    f.cell?.isSome = true → f'.cell? = f.cell? → Holds (f' :: fs) w
  spend {fs w} {f : Frame} {cell : Cell} : Holds (f :: fs) w →
    f.cell? = some cell → Holds fs (w.spend cell)
  left {fs w} {site : Site} {slot : Option Slot} (o : Outcome) :
    Holds (.exit site slot :: fs) w → allowed site.config → Holds fs (w.tell site slot (.exit o)).2
  entered {fs w} {site : Site} {slot : Option Slot} : Holds fs w →
    allowed site.config → (w.tell site slot .enter).1 = none →
    Holds (.exit site slot :: fs) (w.tell site slot .enter).2
  refused {fs w} {site : Site} {slot : Option Slot} {reason : String} (e : Exception) :
    Holds fs w → allowed site.config → (w.tell site slot .enter).1 = some reason →
    Refused fs ((w.tell site slot .enter).2.tell site slot (.exit (.failure e))).2

def Invariant.bond {η : Type} (I : Invariant η) : Bond η where
  config := id
  forgets := false
  allowed := I.allowed
  base := I.base
  base' := I.base
  agenda := I.agenda
  agenda' := I.agenda
  Rel fs w x := x = w ∧ I.Holds fs w
  Refused fs w x := x = w ∧ I.Refused fs w
  references _ := Config.references_id
  store_eq h := h.1 ▸ rfl
  spent_eq h := h.1 ▸ rfl
  answered_eq h := h.1 ▸ rfl
  stored store log h := ⟨by rw [h.1]; rfl, I.called store _ log h.2⟩
  marked cell h := ⟨by rw [h.1], I.marked cell h.2⟩
  newCell h := ⟨by rw [h.1], I.newCell h.2⟩
  push h plain := ⟨h.1, I.push h.2 plain⟩
  pushCell h cell := ⟨by rw [h.1], I.pushCell h.2 cell⟩
  pop h exit := ⟨h.1, I.pop h.2 exit⟩
  swap h cell same := ⟨h.1, I.swap h.2 cell same⟩
  spend h own := ⟨by rw [h.1], I.spend h.2 own⟩
  left o h allowed := ⟨by rw [h.1]; rfl, I.left o h.2 allowed⟩
  asked _ h _ := by rw [h.1]; rfl
  entered h allowed none := ⟨by rw [h.1]; rfl, I.entered h.2 allowed none⟩
  refused e h allowed refusal := ⟨by rw [h.1]; rfl, I.refused e h.2 allowed refusal⟩

theorem Invariant.shared {η : Type} (I : Invariant η) : I.bond.Shared where
  host_eq h := h.1 ▸ rfl
  held_size h := h.1 ▸ rfl
  called store host log h := ⟨by rw [h.1]; rfl, I.called store host log h.2⟩
  released _ _ h := ⟨by rw [h.1]; simp [bond, Frame.mapConfig_id], I.released _ h.2⟩

namespace Bond

variable {η : Type} {B : Bond η} {s t : State η} {fs : List Frame}

structure Half (B : Bond η) (fs : List Frame) (s t : State η) : Prop where
  stack : s.stack = fs ++ B.base
  stack' : t.stack = fs.map (Frame.mapConfig B.config) ++ B.base'
  agenda : s.agenda = B.agenda
  agenda' : t.agenda = B.agenda'
  built : Built B.allowed fs
  rel : B.Rel fs s.world t.world

/-- Two states between steps. -/
structure Done (B : Bond η) (fs : List Frame) (s t : State η) : Prop extends B.Half fs s t where
  control : t.control = s.control.mapConfig B.config
  fits : s.control.Fits B.allowed fs

structure Stopped (B : Bond η) (fs : List Frame) (s t : State η) : Prop where
  stack : s.stack = fs ++ B.base
  stack' : t.stack = fs.map (Frame.mapConfig B.config) ++ B.base'
  agenda : s.agenda = B.agenda
  agenda' : t.agenda = B.agenda'
  built : Built B.allowed fs
  refused : B.Refused fs s.world t.world
  aborted : ∃ reason node, s.control = .fail (.leaving (.aborted reason) node)
  control : t.control = s.control

def Next (B : Bond η) (s t : State η) : Prop :=
  (∃ fs, B.Done fs s t) ∨ ∃ fs, B.Stopped fs s t

structure Rested (B : Bond η) (s t : State η) : Prop where
  control : s.control = .idle
  control' : t.control = .idle
  agenda : s.agenda = B.agenda
  agenda' : t.agenda = B.agenda'
  rel : ∃ fs, B.Rel fs s.world t.world

/-- What becomes of an outcome that is handed to a frame: it is dropped only if the cell of the
frame is spent. -/
def Handed (B : Bond η) (f : Frame) (w : World η) (s t : State η) : Prop :=
  B.Next s t ∨ (∃ cell, f.cell? = some cell ∧ w.isSpent cell = true) ∧ B.Rested s t

namespace Half

/-! ### What a step is made of -/

section

variable (h : B.Half fs s t)
include h

theorem store : t.store = s.store.view B.forgets := B.store_eq h.rel

theorem withStore (store : Store) :
    B.Half fs (s.withStore store) (t.withStore (store.view B.forgets)) := by
  have rel := B.stored store [] h.rel
  exact { h with rel := by simpa [State.withStore] using rel }

theorem push {f : Frame} (plain : f.isPlain = true) (fits : f.Fits B.allowed fs) :
    B.Half (f :: fs) (s.push f) (t.push (f.mapConfig B.config)) :=
  { h with
    stack := congrArg (f :: ·) h.stack
    stack' := congrArg (f.mapConfig B.config :: ·) h.stack'
    built := ⟨fits, h.built⟩
    rel := B.push h.rel plain }

theorem pushCell (frame : Cell → Frame)
    (cell : ∀ c, (frame c).cell? = some c) (fits : ∀ c, (frame c).Fits B.allowed fs) :
    B.Half (frame s.world.spent.size :: fs) (s.pushCell frame)
      (t.pushCell fun c => (frame c).mapConfig B.config) :=
  { h with
    stack := congrArg (frame s.world.spent.size :: ·) h.stack
    stack' := by simp [State.pushCell, World.newCell, B.spent_eq h.rel, h.stack']
    built := ⟨fits _, h.built⟩
    rel := B.pushCell h.rel (cell _) }

theorem newCell :
    B.Half fs { s with world := s.world.newCell.2 } { t with world := t.world.newCell.2 } :=
  { h with rel := B.newCell h.rel }

theorem become (control : Control) (fits : control.Fits B.allowed fs) :
    B.Next (s.become control) (t.become (control.mapConfig B.config)) :=
  .inl ⟨fs, { h with control := rfl, fits }⟩

theorem give (v : Value) : B.Next (s.give v) (t.give v) :=
  h.become (.ret v .undefined) (.inl rfl)

theorem fail (e : Exception) : B.Next (s.fail e) (t.fail e) :=
  h.become (.fail e) trivial

theorem finish (o : Outcome) : B.Next (s.finish o) (t.finish o) := by
  cases o with
  | value v => exact h.give v
  | failure e => exact h.fail e

/-- The work inside a node or slot only has to be done with its end on top. -/
theorem enter {site : Site} (slot : Option Slot)
    (allowed : B.allowed site.config) {work work' : State η → State η}
    (inside : ∀ {s' t' : State η}, B.Half (.exit site slot :: fs) s' t' → s'.store = s.store →
      B.Next (work s') (work' t')) :
    B.Next (s.enter site slot work) (t.enter (site.mapConfig B.config) slot work') := by
  have asked := B.asked slot h.rel allowed
  have fits : Frame.Fits B.allowed fs (.exit site slot) :=
    (.ofSites (List.forall_mem_singleton.2 allowed) rfl rfl)
  cases refusal : (s.world.tell site slot .enter).1 with
  | none =>
    rw [State.enter_of_none work refusal, State.enter_of_none work' (asked.trans refusal)]
    exact inside
      { h with
        stack := congrArg (Frame.exit site slot :: ·) h.stack
        stack' := congrArg (Frame.exit (site.mapConfig B.config) slot :: ·) h.stack'
        built := ⟨fits, h.built⟩
        rel := B.entered h.rel allowed refusal } (s.world.tell_store site slot .enter)
  | some reason =>
    rw [State.enter_of_some work refusal, State.enter_of_some work' (asked.trans refusal)]
    exact .inr ⟨fs,
      { h with
        refused := B.refused _ h.rel allowed refusal
        aborted := ⟨reason, site.node, rfl⟩
        control := rfl }⟩

end

/-! ### The topmost frame -/

variable {f : Frame}

theorem own (h : B.Half (f :: fs) s t) : ∀ site ∈ f.sites, B.allowed site.config := h.built.1.1

theorem pop (h : B.Half (f :: fs) s t) (exit : f.isExit = false) : B.Half fs s.pop t.pop :=
  { h with
    stack := congrArg List.tail h.stack
    stack' := congrArg List.tail h.stack'
    built := h.built.2
    rel := B.pop h.rel exit }

theorem leave {site : Site} {slot : Option Slot} (h : B.Half (.exit site slot :: fs) s t)
    (o : Outcome) :
    B.Half fs (s.pop.leave site slot o) (t.pop.leave (site.mapConfig B.config) slot o) :=
  { h with
    stack := congrArg List.tail h.stack
    stack' := congrArg List.tail h.stack'
    built := h.built.2
    rel := B.left o h.rel (h.own site List.mem_cons_self) }

theorem swap (h : B.Half (f :: fs) s t) (f' : Frame) (cell : f.cell?.isSome = true)
    (same : f'.cell? = f.cell?) (fits : f'.Fits B.allowed fs) :
    B.Half (f' :: fs) (s.pop.push f') (t.pop.push (f'.mapConfig B.config)) :=
  { h with
    stack := congrArg (f' :: List.tail ·) h.stack
    stack' := congrArg (f'.mapConfig B.config :: List.tail ·) h.stack'
    built := ⟨fits, h.built.2⟩
    rel := B.swap h.rel cell same }

theorem spend (h : B.Half (f :: fs) s t) {cell : Cell} (own : f.cell? = some cell) :
    B.Half fs { s.pop with world := s.world.spend cell }
      { t.pop with world := t.world.spend cell } :=
  { h with
    stack := congrArg List.tail h.stack
    stack' := congrArg List.tail h.stack'
    built := h.built.2
    rel := B.spend h.rel own }

theorem isSpent (h : B.Half fs s t) (cell : Cell) :
    t.world.isSpent cell = s.world.isSpent cell := by
  simp only [World.isSpent, B.spent_eq h.rel]

/-- Something that is done at most once per cell. -/
theorem handOnce (h : B.Half (f :: fs) s t) {cell : Cell} (own : f.cell? = some cell)
    {work work' : State η → State η}
    (inside : ∀ {s' t' : State η}, B.Half fs s' t' → s'.store = s.store →
      B.Next (work s') (work' t')) :
    B.Handed f s.world
      (if s.world.isSpent cell then s.pop.rest
        else work { s.pop with world := s.world.spend cell })
      (if t.world.isSpent cell then t.pop.rest
        else work' { t.pop with world := t.world.spend cell }) := by
  rw [h.isSpent]
  cases spent : s.world.isSpent cell with
  | false => exact .inl (inside (h.spend own) rfl)
  | true => exact .inr ⟨⟨cell, own, spent⟩, rfl, rfl, h.agenda, h.agenda', _, h.rel⟩

end Half

end Bond

end EcmaMachine
