import EcmaMachine.Proofs.Classes.Calm
import EcmaMachine.Proofs.Run

/-!
How classes are made. If class declarations have the form that texts give them, then the constructors
of a class are functions that are made for it while its body is evaluated, and nothing else happens
meanwhile.
-/

namespace EcmaMachine

variable {η : Type}

/-! ## The order of the work -/

/-- What is asked of the constructors of a class, which may depend on its superclass. -/
structure Craft extends Failures where
  /-- The superclass is there. -/
  ready : Store → Option FunctionId → Prop
  good : Store → Option FunctionId → Value → Prop
  isFunction {s : Store} {superclass : Option FunctionId} {v : Value} : good s superclass v →
    ∃ f, v = .function f
  made {s s' : Store} {superclass : Option FunctionId} {spot : Spot} {scope : ScopeId}
    {f : FunctionId} : ready s superclass → s.createFunction spot scope = .ok (f, s') →
    good s' superclass (.function f)
  created {s s' : Store} {superclass : Option FunctionId} {spot : Spot} {scope : ScopeId}
    {f : FunctionId} {v : Value} : s.createFunction spot scope = .ok (f, s') →
    good s superclass v → good s' superclass v
  listed {s : Store} {superclass : Option FunctionId} {v : Value} (items : List Value) :
    good s superclass v → good (s.newList items).2 superclass v

inductive Want
  | constructors
  | constructor

namespace Craft

variable (C : Craft)

/-- The frames of a class whose body is evaluated, with those of no class below. -/
inductive Assembles (t : Store) (superclass : Option FunctionId) : Want → List Frame → Prop
  | classBody {site : Site} {name : String} {below : List Frame} (tidy : ∀ f ∈ below, C.Tidy f) :
    Assembles t superclass .constructors (.classBody site name superclass :: below)
  | exit {want : Want} {site : Site} {slot : Option Slot} {fs : List Frame}
    (h : Assembles t superclass want fs) : Assembles t superclass want (.exit site slot :: fs)
  | guard {cell : Cell} {fs : List Frame} (h : Assembles t superclass .constructors fs) :
    Assembles t superclass .constructors (.guard cell :: fs)
  | relist {fs : List Frame} (h : Assembles t superclass .constructors fs) :
    Assembles t superclass .constructors (.relist :: fs)
  | items {rest : List (Option Site)} {done : List Value} {fs : List Frame}
    (h : Assembles t superclass .constructors fs)
    (methods : ∀ o ∈ rest, ∃ site : Site, o = some site ∧ site.node.IsMethod)
    (good : ∀ v ∈ done, C.good t superclass v) :
    Assembles t superclass .constructor (.items rest done :: fs)

def Suits (t : Store) (superclass : Option FunctionId) : Want → Control → Prop
  | .constructors, .eval site => site.node.IsClassBody
  | .constructor, .eval site => site.node.IsMethod ∨
    site.node.type = .functionExpression ∨ site.node.type = .arrowFunctionExpression
  | .constructors, .ret v _ => ∃ id, v = .array id ∧ ∀ w ∈ t.elements id, C.good t superclass w
  | .constructor, .ret v _ => C.good t superclass v
  | _, .fail e => C.may e.signal
  | _, _ => False

structure Busy (t : Store) (superclass : Option FunctionId) (want : Want) (s : State η) : Prop
    extends C.Waits s where
  store : s.store = t
  frames : C.Assembles t superclass want s.stack

/-- A class is made in this order, or none is made. -/
inductive Keeps (s : State η) : Prop
  | calm (h : C.Calm s)
  | busy {superclass : Option FunctionId} {want : Want} (h : C.Busy s.store superclass want s)
    (suits : C.Suits s.store superclass want s.control)
  | idle (h : C.Waits s) (idle : s.control = .idle)

variable {C} {t t' : Store} {superclass : Option FunctionId} {want : Want} {s : State η} {site : Site}

theorem Assembles.mono {fs : List Frame} (h : C.Assembles t superclass want fs)
    (kept : ∀ v, C.good t superclass v → C.good t' superclass v) :
    C.Assembles t' superclass want fs := by
  induction h with
  | classBody tidy => exact .classBody tidy
  | exit _ ih => exact .exit ih
  | guard _ ih => exact .guard ih
  | relist _ ih => exact .relist ih
  | items _ methods good ih => exact .items ih methods fun v mem => kept v (good v mem)

theorem Keeps.waits (h : C.Keeps s) : C.Waits s := by
  cases h with
  | calm h | busy h => exact h.toWaits
  | idle h => exact h

namespace Busy

section

variable (h : C.Busy t superclass want s)
include h

theorem withStore (kept : ∀ v, C.good t superclass v → C.good t' superclass v) :
    C.Busy t' superclass want (s.withStore t') :=
  { h with store := rfl, frames := h.frames.mono kept }

theorem tell (site : Site) (slot : Option Slot) (stage : Stage) :
    C.Busy t superclass want { s with world := (s.world.tell site slot stage).2 } :=
  { h.toWaits.tell site slot stage with
    store := by simpa [State.store] using h.store
    frames := h.frames }

theorem become {control : Control}
    (suits : C.Suits t superclass want control) : C.Keeps (s.become control) := by
  obtain rfl := h.store
  exact .busy { h with } suits

theorem fail {e : Exception} (may : C.may e.signal) : C.Keeps (s.fail e) :=
  h.become (by cases want <;> exact may)

/-- The end of a node or slot waits for the same. -/
theorem enter {slot : Option Slot} {work : State η → State η}
    (inside : ∀ {s : State η}, C.Busy t superclass want s → C.Keeps (work s)) :
    C.Keeps (s.enter site slot work) := by
  have told := h.tell site slot .enter
  exact State.enter_cases (Q := C.Keeps) (inside { told with frames := .exit told.frames })
    fun _ => (told.tell site slot _).fail (C.plain rfl)

theorem visit {slot : Slot} {child : Node}
    (suits : C.Suits t superclass want (.eval (site.part (.slot slot) child))) :
    C.Keeps (s.visit site slot child) :=
  h.enter fun h => h.become suits

end

/-! ## The body of a class -/

theorem nextItem (h : C.Busy t superclass .constructors s) {rest : List (Option Site)}
    {done : List Value}
    (methods : ∀ o ∈ rest, ∃ site : Site, o = some site ∧ site.node.IsMethod)
    (good : ∀ v ∈ done, C.good t superclass v) : C.Keeps (s.nextItem rest done) := by
  obtain rfl := h.store
  cases rest with
  | nil =>
    have listed := h.withStore fun v => C.listed done.reverse
    refine listed.become ⟨s.store.arrays.size, rfl, fun w mem => C.listed _ (good w ?_)⟩
    simpa [Store.newList, Store.newArray, Store.elements] using mem
  | cons head rest =>
    rw [List.forall_mem_cons] at methods
    obtain ⟨⟨child, rfl, method⟩, others⟩ := methods
    have pushed : C.Busy s.store superclass .constructor (s.push (.items rest done)) :=
      { h with frames := .items h.frames others good }
    exact pushed.become (.inl method)

theorem startBody (h : C.Busy t superclass .constructors s) (body : site.node.IsClassBody) :
    C.Keeps (s.start site) := by
  unfold State.start
  unfold Node.IsClassBody at body
  generalize site.node.shape = shape at body
  cases shape with
  | classBody members =>
    have pushed : C.Busy t superclass .constructors (s.push .relist) :=
      { h with frames := .relist h.frames }
    simp only [State.visitAll, State.visitItems]
    refine pushed.enter fun {s} h => ?_
    have guarded : C.Busy t superclass .constructors (s.pushCell .guard) :=
      { h with frames := .guard h.frames }
    refine guarded.nextItem (fun o mem => ?_) (List.forall_mem_nil _)
    obtain ⟨i, bound, rfl⟩ := List.mem_mapIdx.1 mem
    exact ⟨_, by rw [List.getElem_map]; rfl, body _ (List.getElem_mem (by simpa using bound))⟩
  | _ => exact body.elim

theorem startMethod (h : C.Busy t superclass .constructor s) (method : site.node.IsMethod) :
    C.Keeps (s.start site) := by
  unfold State.start State.refuse
  unfold Node.IsMethod at method
  generalize site.node.shape = shape at method
  cases shape with
  | methodDefinition key value kind =>
    cases kind with
    | constructor => exact h.visit (.inr method)
    | _ => exact h.fail (C.plain rfl)
  | _ => exact method.elim

theorem startFunction (h : C.Busy t superclass .constructor s) (ready : C.ready t superclass)
    (type : site.node.type = .functionExpression ∨ site.node.type = .arrowFunctionExpression) :
    C.Keeps (s.start site) := by
  obtain rfl := h.store
  have defines : site.node.functionParts?.isSome = true ∧ s.start site = s.giveFunction site := by
    unfold State.start Node.functionParts?
    unfold Node.type at type
    generalize site.node.shape = shape at type
    cases shape with
    | functionExpression | arrowFunctionExpression => exact ⟨rfl, rfl⟩
    | _ => simp [Shape.type] at type
  rw [defines.2, State.giveFunction]
  split
  · next made => exact (h.withStore fun v => C.created made).become (C.made ready made)
  · next failed => exact h.fail (C.plain (Store.isCraft_of_createFunction defines.1 failed))

end Busy

theorem keeps_visitClassBody (h : C.Steady s) (site : Site) (name : String)
    (superclass : Option FunctionId) {body : Node} (methods : body.IsClassBody) :
    C.Keeps (s.visitClassBody site name superclass body) := by
  have pushed : C.Busy s.store superclass .constructors (s.push (.classBody site name superclass)) :=
    { h with store := rfl, frames := .classBody h.stack }
  exact pushed.visit methods

/-- A class declaration begins. -/
theorem keeps_startClass (h : C.Steady s) (type : site.node.type = .classDeclaration)
    (formed : site.node.FormedClass) : C.Keeps (s.start site) := by
  unfold State.start State.refuse
  unfold Node.FormedClass at formed
  unfold Node.type at type
  generalize site.node.shape = shape at type formed
  cases shape with
  | classDeclaration id superClass body =>
    simp only
    split
    · exact .calm (h.signal (C.plain rfl))
    · next name _ =>
      cases superClass with
      | none => exact keeps_visitClassBody h.guard site name none formed
      | some super => exact .calm ((h.guard.push (.superclass site name body) formed).visit .superClass super)
  | _ => cases type

/-! ## The class itself -/

theorem isCraft_of_createClass {spot : Spot} {scope : ScopeId} {name : String}
    {constructors : List Value} {signal : Signal}
    (functions : ∀ v ∈ constructors, ∃ f, v = .function f)
    (failed : t.createClass spot scope name superclass constructors = .error signal) :
    signal.isCraft = false := by
  unfold Store.createClass at failed
  cases constructors with
  | nil =>
    simp only [Bind.bind, Except.bind] at failed
    split at failed
    · next refused =>
      cases failed
      exact Store.isCraft_of_createFunction rfl refused
    · cases failed
  | cons first rest =>
    obtain ⟨f, rfl⟩ := functions first List.mem_cons_self
    cases rest with
    | nil => cases failed
    | cons second rest =>
      cases failed
      rfl

/-- When a class is made, its constructors are as they should be. -/
theorem Keeps.constructors (h : C.Keeps s) {v receiver : Value} (control : s.control = .ret v receiver)
    {name : String} {below : List Frame} (stack : s.stack = .classBody site name superclass :: below) :
    ∀ w ∈ s.listed v, C.good s.store superclass w := by
  cases h with
  | calm h =>
    have tidy := h.stack
    rw [stack, List.forall_mem_cons] at tidy
    exact tidy.1.elim
  | busy h suits =>
    have frames := h.frames
    rw [stack] at frames
    cases frames with
    | classBody =>
      rw [control] at suits
      obtain ⟨id, rfl, good⟩ := suits
      exact fun w mem => good w (Array.mem_toList_iff.1 mem)
  | idle h idle => simp [control] at idle

namespace Busy

variable {frame : Frame} {below : List Frame} (h : C.Busy t superclass want s)
  (stack : s.stack = frame :: below)
include h stack

theorem resume {v receiver : Value} (suits : C.Suits t superclass want (.ret v receiver)) :
    C.Keeps (({ s with stack := below } : State η).resume v receiver frame) := by
  obtain rfl := h.store
  have frames := h.frames
  rw [stack] at frames
  cases frames with
  | exit frames =>
    have popped : C.Busy s.store superclass want ({ s with stack := below } : State η) :=
      { h with frames }
    exact (popped.tell _ _ _).become (by cases want <;> exact suits)
  | guard frames =>
    have popped : C.Busy s.store superclass .constructors ({ s with stack := below } : State η) :=
      { h with frames }
    exact popped.become suits
  | relist frames =>
    obtain ⟨id, rfl, good⟩ := suits
    have popped : C.Busy s.store superclass .constructors ({ s with stack := below } : State η) :=
      { h with frames }
    have listed := popped.withStore fun v => C.listed (s.store.elements id).toList
    refine listed.become ⟨s.store.arrays.size, rfl, fun w mem => C.listed _ (good w ?_)⟩
    simpa [Store.newList, Store.newArray, Store.elements] using mem
  | items frames methods good =>
    have popped : C.Busy s.store superclass .constructors ({ s with stack := below } : State η) :=
      { h with frames }
    exact popped.nextItem methods (List.forall_mem_cons.2 ⟨suits, good⟩)
  | classBody tidy =>
    obtain ⟨id, rfl, good⟩ := suits
    have popped : C.Steady ({ s with stack := below } : State η) := { h with stack := tidy }
    simp only [State.resume]
    split
    · exact .calm ((popped.withStore _).give _)
    · next failed =>
      refine .calm (popped.signal (C.plain (isCraft_of_createClass (fun v mem => ?_) failed)))
      exact C.isFunction (good v (Array.mem_toList_iff.1 mem))

theorem unwind {e : Exception} (may : C.may e.signal) :
    C.Keeps (({ s with stack := below } : State η).unwind e frame) := by
  have frames := h.frames
  rw [stack] at frames
  cases frames with
  | @exit _ site slot _ frames =>
    have popped : C.Busy t superclass want ({ s with stack := below } : State η) :=
      { h with frames }
    cases slot with
    | none => exact (popped.tell _ _ _).fail (e.signal_located _ ▸ may)
    | some slot => exact (popped.tell _ _ _).fail may
  | @guard cell _ frames =>
    have popped : C.Busy t superclass .constructors ({ s with stack := below } : State η) :=
      { h with frames }
    simp only [State.unwind, State.failOnce]
    split
    · exact .idle { h with } rfl
    · have spent : C.Busy t superclass .constructors
          { s with stack := below, world := s.world.spend cell } := { popped with }
      exact spent.fail may
  | relist frames | items frames methods good =>
    have popped : C.Busy t superclass .constructors ({ s with stack := below } : State η) :=
      { h with frames }
    exact popped.fail may
  | classBody tidy =>
    have popped : C.Steady ({ s with stack := below } : State η) := { h with stack := tidy }
    exact .calm (popped.fail may)

end Busy

/-! ## Steps -/

def Makes (C : Craft) : Progress η → Prop
  | .next s | .rest s => C.Keeps s
  | .delivered _ o s => C.Tells o ∧ C.Calm s

variable {host : Host η}

theorem makes_applyFunction (h : C.Steady s) (permits : C.Permits host) (f : FunctionId) (this : Value)
    (args : List Value) (config : Config) : C.Makes (s.applyFunction host f this args config) := by
  unfold State.applyFunction
  split
  · exact .calm (h.give _)
  · exact .calm (h.applyClosure _ this args config)
  · exact .calm (h.applyHost permits _ this args)
  · have given := h.give .undefined
    simp only
    split
    · exact .calm given
    · refine ⟨?_, { given with }⟩
      split
      · exact C.plain rfl
      · trivial

/-- A value is handed to a frame while no class is made. -/
theorem keeps_resume (h : C.Steady s) (v receiver : Value) {frame : Frame} (tidy : C.Tidy frame) :
    C.Keeps (s.resume v receiver frame) := by
  cases frame with
  | superclass site name body =>
    cases v with
    | function f => exact keeps_visitClassBody h site name (some f) tidy
    | _ => exact .calm (h.signal (C.plain rfl))
  | _ => exact .calm (h.resume v receiver tidy nofun)

theorem makes_idle (h : C.Waits s) (idle : s.control = .idle) : C.Makes (s.advance host) := by
  cases first : s.agenda with
  | nil =>
    simp only [State.advance, idle, first]
    exact .idle h idle
  | cons a agenda =>
    obtain ⟨ticket, o⟩ := a
    have tells := h.agenda
    rw [first, List.forall_mem_cons] at tells
    have later : C.Waits { s with agenda } := { h with agenda := tells.2 }
    rw [State.advance_agenda host idle first]
    cases accepts : ({ s with agenda } : State η).accepts ticket o with
    | true => exact .calm (later.answer tells.1 accepts)
    | false =>
      rw [State.answer_of_not_accepts accepts]
      exact .idle later idle

theorem makes_calm (h : C.Calm s) (permits : C.Permits host)
    (formed : ∀ site, s.control = .eval site → site.node.FormedClass) :
    C.Makes (s.advance host) := by
  have pursues := h.control
  have popped : ∀ {frame stack}, s.stack = frame :: stack →
      C.Tidy frame ∧ C.Steady { s with stack } := by
    intro frame stack top
    have tidy := h.stack
    rw [top, List.forall_mem_cons] at tidy
    exact ⟨tidy.1, { h with stack := tidy.2 }⟩
  by_cases busy : s.control = .idle
  · exact makes_idle h.toWaits busy
  unfold State.advance
  split
  · next site running =>
    by_cases type : site.node.type = .classDeclaration
    · exact h.enter_of .calm fun h _ => keeps_startClass h type (formed site running)
    · exact .calm (h.enter fun h _ => h.startNode type)
  · exact .calm (h.bindPattern _ _)
  · exact makes_applyFunction h.toSteady permits _ _ _ _
  · split
    · exact .calm h.rest
    · next top => exact ⟨trivial, (popped top).2.rest⟩
    · next top =>
      obtain ⟨tidy, steady⟩ := popped top
      exact keeps_resume steady _ _ tidy
  · next running =>
    rw [running] at pursues
    split
    · exact .calm h.rest
    · next top => exact ⟨pursues, (popped top).2.rest⟩
    · next top => exact .calm ((popped top).2.unwind pursues _)
  · next running => exact absurd running busy

theorem makes_busy (h : C.Busy s.store superclass want s)
    (suits : C.Suits s.store superclass want s.control) (ready : C.ready s.store superclass) :
    C.Makes (s.advance host) := by
  have inner : ∀ {id below}, s.stack ≠ .deliver id :: below := by
    intro id below top
    have frames := h.frames
    rw [top] at frames
    cases frames
  have some : s.stack ≠ [] := by
    intro none
    have frames := h.frames
    rw [none] at frames
    cases frames
  unfold State.advance
  split
  · next site running =>
    rw [running] at suits
    cases want with
    | constructors => exact h.enter fun h => h.startBody suits
    | constructor =>
      rcases suits with method | function
      · exact h.enter fun h => h.startMethod method
      · exact h.enter fun h => h.startFunction ready function
  · next running =>
    rw [running] at suits
    cases want <;> exact suits.elim
  · next running =>
    rw [running] at suits
    cases want <;> exact suits.elim
  · next running =>
    rw [running] at suits
    split
    · next none => exact absurd none some
    · next top => exact absurd top inner
    · next top => exact h.resume top suits
  · next running =>
    rw [running] at suits
    split
    · next none => exact absurd none some
    · next top => exact absurd top inner
    · next top => exact h.unwind top (by cases want <;> exact suits)
  · next running =>
    rw [running] at suits
    cases want <;> exact suits.elim

theorem mem_of_assembles {fs : List Frame} (h : C.Assembles t superclass want fs) :
    ∃ site name, .classBody site name superclass ∈ fs := by
  induction h with
  | @classBody site name => exact ⟨site, name, List.mem_cons_self⟩
  | exit _ ih | guard _ ih | relist _ ih | items _ _ _ ih =>
    obtain ⟨site, name, mem⟩ := ih
    exact ⟨site, name, List.mem_cons_of_mem _ mem⟩

variable (h : C.Keeps s) (permits : C.Permits host)
  (formed : ∀ site, s.control = .eval site → site.node.FormedClass)
  (ready : ∀ site name superclass, .classBody site name superclass ∈ s.stack → C.ready s.store superclass)
include h permits formed ready

/-- The machine makes classes in order. -/
theorem Keeps.advance : C.Makes (s.advance host) := by
  cases h with
  | calm h => exact makes_calm h permits formed
  | busy h suits =>
    obtain ⟨site, name, mem⟩ := mem_of_assembles h.frames
    exact makes_busy h suits (ready site name _ mem)
  | idle h idle => exact makes_idle h idle

/-- Whoever takes an outcome is not in the way. -/
theorem Keeps.step {l l' : Ledger} {s' : State η}
    (stepped : l.step host s = some (l', s')) : C.Keeps s' := by
  have makes := h.advance permits formed ready
  unfold Ledger.step at stepped
  split at stepped
  · next advanced =>
    cases stepped
    rwa [advanced] at makes
  · cases stepped
  · next id o after advanced =>
    rw [advanced] at makes
    obtain ⟨l₂, store, log, taken, -⟩ := l.exists_take id o after
    rw [taken] at stepped
    cases stepped
    exact .calm { makes.2 with }

end Craft

end EcmaMachine
