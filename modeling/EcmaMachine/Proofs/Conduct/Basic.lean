import EcmaMachine.Proofs.Conduct.Reasons
import EcmaMachine.Proofs.Lexicon.Scripts
import EcmaMachine.Proofs.Region.Frames
import EcmaMachine.Proofs.Twin.Basic

/-!
Conducts. Much that is true of the machine is true of what its steps are made of: frames pushed and
taken off, stores written, cells made and spent, events shown. A conduct relates the states of two
runs, or a state to itself, and is kept by these. The modules beside this one follow it through every
function of the machine, once and for all. A conduct also knows the state that the work began with,
for what comes of the work is told by what was there before.

The terms of a conduct say what it may rely on, and how the second run differs from the first.
-/

namespace EcmaMachine

namespace Frame

/-- Neither makes a class nor keeps a failure. -/
def isCalm : Frame → Bool
  | superclass .. | classBody .. | finalizer _ => false
  | _ => true

/-- Nothing is asked of such a frame but what it carries. -/
def isRoutine (f : Frame) : Bool := f.isSimple && f.isCalm

/-- Such a frame hands on a value, whatever it is given. -/
def isSafe (f : Frame) : Bool := !f.isRisky && f.isRoutine

theorem isInner_of_cell {f : Frame} {cell : Cell} (h : f.cell? = some cell) : f.isInner = true := by
  cases f with
  | deliver => cases h
  | _ => rfl

end Frame

namespace Lexicon

def Admits (L : Lexicon) (r : Role) : Use → Node → Prop
  | .run, n => L.part r n
  | .bind, n => L.pattern n
  | .entry, n => n.shape.EntryParts L.part L.takes
  | .field, n => n.shape.BoundParts L.pattern L.takes

end Lexicon

structure Terms where
  /-- All that the first run has at hand is in the region. -/
  region : Region
  /-- How the second run sees the store of the first. -/
  lens : Lens
  /-- The config of the second run where the first has the given one. -/
  config : Config → Config
  /-- The configs that the first run may meet. -/
  admits : Config → Prop
  /-- Receivers are given only where they are waited for. -/
  tracks : Prop
  /-- The signals that may come up. -/
  may : Signal → Prop
  /-- Classes may be made. -/
  crafts : Prop
  /-- The `prototype` of a function may be written. -/
  rewires : Prop
  lexicon : Lexicon
  /-- The first run keeps to the lexicon. -/
  lawful : Prop
  references {c : Config} : admits c → (config c).references = (!lens.forgets && c.references)
  plain {signal : Signal} : signal.isCraft = false → may signal
  crafty {signal : Signal} : crafts → may signal

namespace Terms

variable (T : Terms) {σ σ' : Store} {use use' : Use} {n m : Node} {r : Role}

/-! ## The second run -/

def site (x : Site) : Site := (x.mapTree T.lens.tree).mapConfig T.config

@[simp] theorem site_node (x : Site) : (T.site x).node = x.node := rfl

@[simp] theorem site_scope (x : Site) : (T.site x).scope = x.scope := rfl

@[simp] theorem site_config (x : Site) : (T.site x).config = T.config x.config := rfl

theorem items_site (x : Site) (children : List Node) :
    (T.site x).items children = (x.items children).map T.site := by
  apply List.ext_getElem?
  intro i
  simp only [Site.items, List.getElem?_map, List.getElem?_mapIdx, Option.map_map]
  rfl

def frame : Frame → Frame := Frame.map T.site (Closure.mapTree T.lens.tree)

def control : Control → Control
  | .eval site => .eval (T.site site)
  | .bind target v => .bind (T.site target) v
  | .apply f this args config => .apply f this args (T.config config)
  | control => control

/-! ## The first run -/

abbrev role (fs : List Frame) : Role := T.lexicon.role fs

structure Ok (σ : Store) (r : Role) (scope : ScopeId) (config : Config) (use : Use) (n : Node) :
    Prop where
  allows : T.region.Allows σ scope use n
  admits : T.admits config
  suits : T.lawful → T.lexicon.Admits r use n

abbrev Runs (σ : Store) (r : Role) (x : Site) (n : Node) : Prop :=
  T.Ok σ r x.scope x.config .run n

abbrev Binds (σ : Store) (x : Site) (n : Node) : Prop := T.Ok σ .closed x.scope x.config .bind n

structure Raises (σ : Store) (r : Role) (signal : Signal) : Prop where
  signals : T.region.Signals σ signal
  may : T.may signal
  takes : T.lawful → T.lexicon.takes r signal

def Tells (σ : Store) (r : Role) : Outcome → Prop
  | .value v => T.region.Has σ v
  | .failure e => T.Raises σ r e.signal

def Pursues (σ : Store) (fs : List Frame) : Control → Prop
  | .eval site => T.Runs σ (T.role fs) site site.node
  | .bind target v => T.Binds σ target target.node ∧ T.region.Has σ v
  | .ret v receiver => T.region.Has σ v ∧ T.region.Has σ receiver ∧
    (T.tracks → receiver = .undefined ∨ Receives fs)
  | .fail e => T.Raises σ (T.role fs) e.signal
  | .apply f this args config => T.region.holds σ (.function f) ∧ T.region.Has σ this ∧
    (∀ v ∈ args, T.region.Has σ v) ∧ T.admits config ∧ (T.lawful → T.role fs = .closed)
  | .idle => False

def Calm : Frame → Prop
  | .superclass .. | .classBody .. => T.crafts
  | .finalizer (.failure e) => T.may e.signal
  | _ => True

structure Bears (σ : Store) (fs : List Frame) (f : Frame) : Prop where
  carries : T.region.Carries σ f
  admits : ∀ site ∈ f.sites, T.admits site.config
  receives : T.tracks → f.wantsReceiver = true → Receives fs
  calm : T.Calm f
  fits : T.lawful → T.lexicon.Fits fs f

structure Later (σ σ' : Store) : Prop extends T.region.Move σ σ' where
  loyal : T.rewires ∨ σ.Loyal σ'
  scripts : T.lawful → T.lexicon.Scripts σ → T.lexicon.Scripts σ'

variable {T}

namespace Ok

variable {r : Role} {scope : ScopeId} {config : Config}

theorem holds (ok : T.Ok σ r scope config use n) : T.region.holds σ (.scope scope) :=
  ok.allows.holds

theorem next (ok : T.Ok σ r scope config use n) (next : T.region.Next σ σ') :
    T.Ok σ' r scope config use n :=
  { ok with allows := next.allows ok.allows }

theorem part (ok : T.Ok σ r scope config use n) (mem : (use', m) ∈ n.shape.uses use) {r' : Role}
    (suits : T.lawful → T.lexicon.Admits r' use' m) : T.Ok σ r' scope config use' m :=
  ⟨ok.allows.part mem, ok.admits, suits⟩

theorem items {site child : Site} {children : List Node}
    (ok : ∀ n ∈ children, T.Ok σ r site.scope site.config use n)
    (mem : child ∈ site.items children) : T.Ok σ r child.scope child.config use child.node := by
  simp only [Site.items, List.mem_mapIdx] at mem
  obtain ⟨i, bound, rfl⟩ := mem
  exact ok _ (List.getElem_mem bound)

end Ok

theorem Raises.to {r' : Role} {signal : Signal} (h : T.Raises σ r signal)
    (takes : T.lexicon.takes r signal → T.lexicon.takes r' signal) : T.Raises σ r' signal :=
  { h with takes := fun law => takes (h.takes law) }

theorem raises_of_bare {signal : Signal} (bare : signal.isBare = true)
    (takes : T.lawful → T.lexicon.takes r signal) : T.Raises σ r signal := by
  refine ⟨?_, T.plain (signal.isCraft_of_isBare bare), takes⟩
  cases signal with
  | thrown | returned | host => cases bare
  | _ => trivial

theorem raises_type {fault : TypeFault} (plain : (Signal.type fault).isCraft = false) :
    T.Raises σ r (.type fault) :=
  ⟨trivial, T.plain plain, fun _ => T.lexicon.ordinary rfl⟩

theorem Later.of_step (step : T.region.Step σ σ') (same : σ'.callables = σ.callables) :
    T.Later σ σ' :=
  ⟨step.toMove, .inr step.loyal, fun _ scripts => scripts.congr same⟩

theorem calm_of_isCalm {f : Frame} (calm : f.isCalm = true) : T.Calm f := by
  cases f with
  | superclass | classBody | finalizer => cases calm
  | _ => trivial

end Terms

/-- Where classes may be made, every frame is calm enough. -/
theorem Terms.calm_of_crafts {T : Terms} (crafts : T.crafts) (f : Frame) : T.Calm f := by
  cases f with
  | superclass | classBody => exact crafts
  | finalizer o =>
    cases o with
    | value => trivial
    | failure e => exact T.crafty crafts
  | _ => trivial

/-! ## The region of all -/

def Region.whole : Region where
  holds _ _ := True
  declares _ _ := True
  links _ _ _ := True
  keeps _ := True
  since := 0
  grows _ _ := trivial
  fresh _ _ _ := trivial
  anew _ _ := trivial
  closed _ _ _ := trivial
  edit _ _ := trivial

namespace Region

variable {t t' : Store}

theorem whole_has {v : Value} : whole.Has t v := fun _ _ => trivial

theorem whole_allows {scope : ScopeId} {use : Use} {n : Node} : whole.Allows t scope use n :=
  ⟨trivial, fun _ _ _ _ _ => trivial⟩

theorem whole_signals {signal : Signal} : whole.Signals t signal := by
  cases signal with
  | thrown | returned => exact whole_has
  | host => exact fun _ _ => whole_has
  | _ => trivial

theorem whole_crafted {superclass : Option FunctionId} {constructors : List Value} :
    whole.Crafted t superclass constructors :=
  ⟨fun _ _ _ _ => trivial, fun _ _ _ => trivial⟩

theorem whole_carries (f : Frame) : whole.Carries t f := by
  have loops : ∀ scope body target, whole.Loops t scope body target := by
    intro scope body target
    cases target with
    | assign => exact whole_allows
    | declare => trivial
  have reads : ∀ access, whole.Reads t access := by
    intro access
    cases access with
    | assign => exact whole_has
    | _ => trivial
  have remaining : ∀ scope next, whole.Remaining t scope next := by
    intro scope next
    cases next with
    | tested => exact ⟨whole_allows, whole_allows⟩
    | each => exact ⟨loops _ _ _, fun _ _ => whole_has⟩
  have gives : ∀ o, whole.Gives t o := by
    intro o
    cases o with
    | value => exact whole_has
    | failure => exact whole_signals
  have holds : ∀ p, whole.holds t p := fun _ => trivial
  have declares : ∀ scope name, whole.declares scope name := fun _ _ => trivial
  cases f <;> simp only [Carries, whole_has, whole_allows, loops, reads, remaining, gives, holds,
    declares, implies_true, and_self]

end Region

structure Conduct (η : Type) extends Terms where
  /-- How the states are related in the middle of the work that began with a state, with these
  frames on top. -/
  Mid : State η → List Frame → Store → State η → State η → Prop
  /-- How they are related after that work. -/
  Next : State η → State η → State η → Prop
  /-- How they are related before an outcome is handed to the frame on top. -/
  Top : Frame → List Frame → Store → State η → State η → Prop
  /-- How they are related after an outcome was handed to the frame, which was on top of the
  state. -/
  Given : Way → Frame → State η → State η → State η → Prop
  keeps {p fs σ s t} : Mid p fs σ s t → region.keeps σ
  store_eq {p fs σ s t} : Mid p fs σ s t → s.store = σ
  look_eq {p fs σ s t} : Mid p fs σ s t → t.store = σ.look lens
  stack_eq {p fs σ s t} : Mid p fs σ s t → lawful → s.stack = fs
  top_eq {f fs σ s t} : Top f fs σ s t → region.keeps σ ∧ s.store = σ ∧ t.store = σ.look lens
  write {p fs σ σ' s t} : Mid p fs σ s t →
    toTerms.Later σ σ' → Mid p fs σ' (s.withStore σ') (t.withStore (σ'.look lens))
  push {p fs σ s t} {f : Frame} : Mid p fs σ s t → f.isPlain = true → toTerms.Bears σ fs f →
    Mid p (f :: fs) σ (s.push f) (t.push (toTerms.frame f))
  pushCell {p fs σ s t} {f : Cell → Frame} :
    Mid p fs σ s t → (∀ c, (f c).cell? = some c) → (∀ c, toTerms.Bears σ fs (f c)) →
    Mid p (f s.world.spent.size :: fs) σ (s.pushCell f) (t.pushCell fun c => toTerms.frame (f c))
  newCell {p fs σ s t} : Mid p fs σ s t →
    Mid p fs σ { s with world := s.world.newCell.2 } { t with world := t.world.newCell.2 }
  become {p fs σ s t} (control : Control) : Mid p fs σ s t → toTerms.Pursues σ fs control →
    Next p (s.become control) (t.become (toTerms.control control))
  enter {p fs σ s t} {site : Site} {slot : Option Slot} {work work' : State η → State η} :
    Mid p fs σ s t → admits site.config →
    (∀ {s t : State η}, Mid p (.exit site slot :: fs) σ s t → Next p (work s) (work' t)) →
    Next p (s.enter site slot work) (t.enter (toTerms.site site) slot work')
  pop {fs σ s t f} : Top f fs σ s t → f.isExit = false → Mid s.pop fs σ s.pop t.pop
  leave {fs σ s t} {site : Site} {slot : Option Slot} (o : Outcome) :
    Top (.exit site slot) fs σ s t → admits site.config →
    Mid s.pop fs σ (s.pop.leave site slot o) (t.pop.leave (toTerms.site site) slot o)
  swap {fs σ s t f f'} : Top f fs σ s t → Lexicon.Succeeds f f' → toTerms.Bears σ fs f' →
    Mid (s.pop.push f') (f' :: fs) σ (s.pop.push f') (t.pop.push (toTerms.frame f'))
  given {way fs σ s t s' t' f} : Top f fs σ s t → f.stop way = none →
    (lawful → (∀ other, other ≠ way → Lexicon.Quiet other fs s') ∧
      (f.cell? = none ∨ s'.stack = fs)) → Next s.pop s' t' → Given way f s s' t'
  swapped {way fs σ s t s' t' f f'} : Top f fs σ s t → Lexicon.Succeeds f f' →
    (lawful → (∀ other, ∃ c, goal other (f' :: fs) = .cell c) ∧
      (s'.stack = f' :: fs ∨ ∃ site slot, s'.stack = .exit site slot :: f' :: fs)) →
    Next (s.pop.push f') s' t' → Given way f s s' t'
  /-- Something is done at most once per cell. -/
  once {way fs σ s t f} {cell : Cell} {work work' : State η → State η} :
    Top f fs σ s t → f.cell? = some cell →
    (∀ {s t : State η}, Mid s fs σ s t → Next s (work s) (work' t)) →
    (lawful → ∀ {s : State η}, s.stack = fs →
      ∀ other, f.stop other = some cell ∨ Lexicon.Quiet other fs (work s)) →
    Given way f s
      (if s.world.isSpent cell then s.pop.rest
        else work { s.pop with world := s.world.spend cell })
      (if t.world.isSpent cell then t.pop.rest
        else work' { t.pop with world := t.world.spend cell })

namespace Conduct.Mid

variable {η : Type} {C : Conduct η} {p s t : State η} {fs : List Frame} {σ σ' : Store} {site : Site}
  {e : Exception} {v : Value}

variable (h : C.Mid p fs σ s t)
include h

theorem step (step : C.region.Step σ σ') (same : σ'.callables = σ.callables) :
    C.Mid p fs σ' (s.withStore σ') (t.withStore (σ'.look C.lens)) :=
  C.write h (.of_step step same)

theorem push (f : Frame) (routine : f.isRoutine = true)
    (carries : C.region.Carries σ f) (admits : ∀ site ∈ f.sites, C.admits site.config)
    (fits : C.lawful → C.lexicon.Fits fs f) :
    C.Mid p (f :: fs) σ (s.push f) (t.push (C.frame f)) := by
  simp only [Frame.isRoutine, Frame.isSimple, Bool.and_eq_true, Bool.not_eq_true'] at routine
  exact C.push h routine.1.1 ⟨carries, admits, fun _ wants => by simp [routine.1.2] at wants,
    Terms.calm_of_isCalm routine.2, fits⟩

theorem pushSafe (f : Frame) (safe : f.isSafe = true)
    (carries : C.region.Carries σ f) : C.Mid p (f :: fs) σ (s.push f) (t.push (C.frame f)) := by
  cases f with
  | last | instead | declare | relist | propertyValue | construct | unary | template =>
    exact h.push _ rfl carries (List.forall_mem_nil _) fun _ => ⟨nofun, nofun, trivial⟩
  | _ => cases safe

theorem guard :
    C.Mid p (.guard s.world.spent.size :: fs) σ (s.pushCell .guard) (t.pushCell .guard) :=
  C.pushCell h (fun _ => rfl) fun _ =>
    ⟨trivial, List.forall_mem_nil _, nofun, trivial, fun _ => ⟨nofun, nofun, trivial⟩⟩

theorem once : C.Mid p (.once s.world.spent.size :: fs) σ (s.pushCell .once) (t.pushCell .once) :=
  C.pushCell h (fun _ => rfl) fun _ =>
    ⟨trivial, List.forall_mem_nil _, nofun, trivial, fun _ => ⟨nofun, nofun, trivial⟩⟩

/-- A frame that may fail stands on a guard of its own. -/
theorem guarded (f : Frame) (routine : f.isRoutine = true)
    (once : f.isLooping = false) (carries : C.region.Carries σ f)
    (admits : ∀ site ∈ f.sites, C.admits site.config)
    (suits : C.lawful → C.lexicon.Carries (C.role fs) f) :
    C.Mid p (f :: .guard s.world.spent.size :: fs) σ ((s.pushCell .guard).push f)
      ((t.pushCell .guard).push (C.frame f)) :=
  h.guard.push f routine carries admits fun law =>
    ⟨fun _ => ⟨_, rfl⟩, fun loop => by simp [once] at loop, suits law⟩

theorem give (has : C.region.Has σ v) : C.Next p (s.give v) (t.give v) :=
  C.become (.ret v .undefined) h ⟨has, nofun, fun _ => .inl rfl⟩

theorem fail (raises : C.Raises σ (C.role fs) e.signal) : C.Next p (s.fail e) (t.fail e) :=
  C.become (.fail e) h raises

theorem reject (bare : e.signal.isBare = true)
    (takes : C.lawful → C.lexicon.takes (C.role fs) e.signal) : C.Next p (s.fail e) (t.fail e) :=
  h.fail (Terms.raises_of_bare bare takes)

theorem refuse (bare : (e.signal.isBare && e.signal.isOrdinary) = true) :
    C.Next p (s.fail e) (t.fail e) := by
  rw [Bool.and_eq_true] at bare
  exact h.reject bare.1 fun _ => C.lexicon.ordinary bare.2

theorem finish {o : Outcome} (tells : C.Tells σ (C.role fs) o) :
    C.Next p (s.finish o) (t.finish o) := by
  cases o with
  | value v => exact h.give tells
  | failure e => exact h.fail tells

theorem eval (ok : C.Runs σ (C.role fs) site site.node) :
    C.Next p (s.eval site) (t.eval (C.site site)) :=
  C.become (.eval site) h ok

theorem bind (ok : C.Binds σ site site.node) (has : C.region.Has σ v) :
    C.Next p (s.become (.bind site v)) (t.become (.bind (C.site site) v)) :=
  C.become (.bind site v) h ⟨ok, has⟩

theorem visit (slot : Slot) {child : Node}
    (ok : C.Runs σ (C.role (.exit site (some slot) :: fs)) site child) :
    C.Next p (s.visit site slot child) (t.visit (C.site site) slot child) :=
  C.enter h ok.admits fun h => h.eval ok

/-! ## Lists of parts -/

theorem nextItem (shielded : C.lawful → Shielded fs) {rest : List (Option Site)} {done : List Value}
    (ok : ∀ site ∈ rest.filterMap id, C.Runs σ (C.role fs) site site.node)
    (has : ∀ v ∈ done, C.region.Has σ v) :
    C.Next p (s.nextItem rest done) (t.nextItem (rest.map (Option.map C.site)) done) := by
  induction rest generalizing done with
  | nil =>
    obtain rfl := C.store_eq h
    have reversed : ∀ v ∈ done.reverse, C.region.Has s.store v := by simpa using has
    obtain ⟨next, list⟩ := Region.newList (C.keeps h) reversed
    simp only [State.nextItem, List.map_nil, C.look_eq h, Store.newList_look]
    exact (h.step next rfl).give list
  | cons head rest ih =>
    cases head with
    | none => exact ih ok (List.forall_mem_cons.2 ⟨nofun, has⟩)
    | some child =>
      simp only [List.filterMap_cons, id, List.forall_mem_cons] at ok
      exact (h.push (.items rest done) rfl ⟨fun site mem => (ok.2 site mem).allows, has⟩
        (fun site mem => (ok.2 site mem).admits) fun law =>
          ⟨fun _ => shielded law, nofun, fun site mem => (ok.2 site mem).suits law⟩).eval ok.1

theorem visitItems (admits : C.admits site.config) (slot : Slot)
    {children : List (Option Node)} (ok : ∀ n ∈ children.filterMap id,
      C.Runs σ (C.role (.exit site (some slot) :: fs)) site n) :
    C.Next p (s.visitItems site slot children) (t.visitItems (C.site site) slot children) := by
  have parts : (children.mapIdx fun i child => child.map ((C.site site).part (.item i))) =
      (children.mapIdx fun i child => child.map (site.part (.item i))).map (Option.map C.site) := by
    apply List.ext_getElem?
    intro i
    simp only [List.getElem?_map, List.getElem?_mapIdx, Option.map_map]
    congr 1
    funext child
    cases child <;> rfl
  simp only [State.visitItems, parts]
  refine C.enter h admits fun h => h.guard.nextItem (fun _ => ⟨_, rfl⟩) (fun child mem => ?_) (by simp)
  simp only [List.mem_filterMap, List.mem_mapIdx, id] at mem
  obtain ⟨_, ⟨i, bound, rfl⟩, found⟩ := mem
  obtain ⟨n, item, rfl⟩ := Option.map_eq_some_iff.1 found
  exact ok n (List.mem_filterMap.2 ⟨some n, item ▸ List.getElem_mem bound, rfl⟩)

theorem visitAll (admits : C.admits site.config) (slot : Slot) {children : List Node}
    (ok : ∀ n ∈ children, C.Runs σ (C.role (.exit site (some slot) :: fs)) site n) :
    C.Next p (s.visitAll site slot children) (t.visitAll (C.site site) slot children) :=
  h.visitItems admits slot (by simpa using ok)

theorem listed (v : Value) : t.listed v = s.listed v := by
  cases v with
  | array id => simp only [State.listed, C.look_eq h, C.store_eq h, Store.elements_look]
  | _ => rfl

theorem has_listed (has : C.region.Has σ v) : ∀ w ∈ s.listed v, C.region.Has σ w := by
  obtain rfl := C.store_eq h
  intro w mem
  cases v with
  | array id =>
    exact Region.has_elements (C.keeps h) (Region.has_array.1 has) (Array.mem_toList_iff.1 mem)
  | _ => cases mem

end Conduct.Mid

end EcmaMachine
