import EcmaMachine.Proofs.Conduct.Resume

/-!
The machine stays in a region with every step. And unless it makes a class or writes the `prototype`
of a function, functions keep their prototypes with the step.
-/

namespace EcmaMachine

structure Leave where
  rewires : Prop
  neglects : Prop

namespace Leave

/-- Functions keep their prototypes, and bindings their references and tags, where that is asked. -/
structure Faithful (leave : Leave) (s s' : Store) : Prop where
  loyal : leave.rewires ∨ s.Loyal s'
  tended : leave.neglects ∨ s.Tended s'

theorem Faithful.refl (leave : Leave) (s : Store) : leave.Faithful s s :=
  ⟨.inr (.refl s), .inr (.refl s)⟩

theorem Faithful.trans {leave : Leave} {s s' s'' : Store} (h : leave.Faithful s s')
    (h' : leave.Faithful s' s'') : leave.Faithful s s'' :=
  ⟨h.loyal.elim .inl fun before => h'.loyal.imp_right before.trans,
    h.tended.elim .inl fun before => h'.tended.imp_right before.trans⟩

end Leave

variable {η : Type} {R : Region} {t t' t₀ : Store} {leave : Leave}

namespace Region

/-- The machine is in the region, and has been faithful to a store. -/
structure Keeps (R : Region) (t₀ : Store) (leave : Leave) (s : State η) : Prop
    extends R.Stays s where
  faithful : leave.Faithful t₀ s.store

structure Amid (R : Region) (t₀ : Store) (leave : Leave) (t : Store) (s : State η) : Prop
    extends R.Within t s where
  faithful : leave.Faithful t₀ t

namespace Amid

variable {s : State η}

theorem withStore (h : R.Amid t₀ leave t s) (next : R.Next t t')
    (faithful : leave.Faithful t t') : R.Amid t₀ leave t' (s.withStore t') :=
  ⟨h.toWithin.withStore next, h.faithful.trans faithful⟩

theorem become (h : R.Amid t₀ leave t s) {control : Control} (pursues : R.Pursues t control) :
    R.Keeps t₀ leave (s.become control) := by
  obtain rfl := h.store
  exact ⟨h.toWithin.become pursues, h.faithful⟩

theorem finish (h : R.Amid t₀ leave t s) {o : Outcome} (gives : R.Gives t o) :
    R.Keeps t₀ leave (s.finish o) := by
  cases o with
  | value v => exact h.become ⟨gives, nofun⟩
  | failure e => exact h.become gives

theorem enter (h : R.Amid t₀ leave t s) {site : Site} {slot : Option Slot}
    {work : State η → State η} (inside : ∀ {s : State η}, R.Amid t₀ leave t s →
      R.Keeps t₀ leave (work s)) : R.Keeps t₀ leave (s.enter site slot work) := by
  have told := h.tell site slot .enter
  exact State.enter_cases (Q := R.Keeps t₀ leave) (inside ⟨told.push _ trivial, h.faithful⟩)
    fun _ => become ⟨told.tell site slot _, h.faithful⟩ trivial

end Amid

def conduct (R : Region) (t₀ : Store) (leave : Leave) : Conduct η where
  region := R
  lens := ⟨id, false⟩
  config := id
  admits _ := True
  tracks := False
  may _ := True
  crafts := True
  rewires := leave.rewires
  lexicon := .free
  lawful := False
  references _ := Config.references_id
  plain _ := trivial
  crafty _ := trivial
  Mid _ _ σ s t := R.Amid t₀ leave σ s ∧ t.store = σ
  Next _ s _ := R.Keeps t₀ leave s
  Top _ _ σ s t := R.Amid t₀ leave σ s ∧ t.store = σ
  Given _ _ _ s _ := R.Keeps t₀ leave s
  keeps h := h.1.keeps
  store_eq h := h.1.store
  look_eq h := h.2.trans (Store.look_id false _).symm
  stack_eq _ := False.elim
  top_eq h := ⟨h.1.keeps, h.1.store, h.2.trans (Store.look_id false _).symm⟩
  write h later := ⟨h.1.withStore later.toNext ⟨later.loyal, .inr later.tended⟩,
    Store.look_id false _⟩
  push h _ bears := ⟨⟨h.1.push _ bears.carries, h.1.faithful⟩, h.2⟩
  pushCell h _ bears := ⟨⟨h.1.pushCell _ fun c => (bears c).carries, h.1.faithful⟩, h.2⟩
  newCell h := ⟨⟨h.1.newCell, h.1.faithful⟩, h.2⟩
  become control h pursues := h.1.become <| by
    cases control with
    | eval => exact pursues.allows
    | bind => exact ⟨pursues.1.allows, pursues.2⟩
    | ret => exact ⟨pursues.1, pursues.2.1⟩
    | fail => exact pursues.signals
    | apply => exact ⟨pursues.1, pursues.2.1, pursues.2.2.1⟩
    | idle => trivial
  enter h _ inside := h.1.enter fun h => inside ⟨h, h.store⟩
  pop h _ := ⟨⟨h.1.pop, h.1.faithful⟩, h.2⟩
  leave o h _ := ⟨⟨h.1.pop.tell _ _ _, h.1.faithful⟩, (World.tell_store _ _ _ _).trans h.2⟩
  swap h _ bears := ⟨⟨h.1.pop.push _ bears.carries, h.1.faithful⟩, h.2⟩
  given _ _ _ next := next
  swapped _ _ _ next := next
  once h _ inside _ := by
    split
    · exact Amid.become ⟨h.1.pop, h.1.faithful⟩ trivial
    · have spent := h.1.pop.spend ‹Cell›
      exact inside ⟨⟨spent, h.1.faithful⟩, spent.store⟩

def Replies (R : Region) (t : Store) : Reply → Prop
  | .value v => R.Has t v
  | .failure e => R.Signals t e.signal
  | .call f this args => R.holds t (.function f) ∧ R.Has t this ∧ ∀ v ∈ args, R.Has t v
  | .hold answers => ∀ o ∈ answers, R.Gives t o

def Admits (R : Region) (host : Host η) : Prop :=
  ∀ word this args ticket store kept, R.keeps store → R.Has store this →
    (∀ v ∈ args, R.Has store v) →
    let step := host.call word this args ticket store kept
    R.Next store step.store ∧ R.Replies step.store step.reply

end Region

/-- Host functions that leave the prototypes as they are. -/
def Host.IsLoyal (host : Host η) : Prop :=
  ∀ word this args ticket (store : Store) kept,
    store.Loyal (host.call word this args ticket store kept).store

/-- If a host function is called now, bindings keep their references and tags. -/
def State.Tends (host : Host η) (s : State η) : Prop :=
  ∀ {word this args}, s.CallsHost word this args → s.store.Tended (s.asked host word this args).store

/-- The `prototype` of a function is about to be written or deleted. -/
def State.rewires (s : State η) : Bool :=
  match s.control, s.stack with
  | .ret v _, .memberKey (.function _) access :: _ =>
    match access with
    | .read | .callee => false
    | _ => s.store.text v == "prototype"
  | _, _ => false

/-- No class is made now, and no function given another prototype. -/
structure State.Abides (host : Host η) (s : State η) : Prop where
  host : host.IsLoyal
  crafts {site : Site} {name : String} {superclass : Option FunctionId} {below : List Frame}
    {v receiver : Value} : s.stack = .classBody site name superclass :: below →
    s.control ≠ .ret v receiver
  writes : s.rewires = false

namespace Region

variable {host : Host η} {s : State η}

def Makes (R : Region) (t₀ : Store) (leave : Leave) : Progress η → Prop
  | .next s | .rest s => R.Keeps t₀ leave s
  | .delivered _ o s => R.Gives s.store o ∧ R.Keeps t₀ leave s

/-- Whenever a class is made, its prototype may be linked to the one of its superclass. -/
def Fits (R : Region) (s : State η) : Prop :=
  ∀ site name superclass below v receiver, s.stack = .classBody site name superclass :: below →
    s.control = .ret v receiver → R.Crafted s.store superclass (s.listed v)

theorem fits_of_links (all : ∀ t id p, R.links t id p) (s : State η) : R.Fits s :=
  fun _ _ _ _ _ _ _ _ => ⟨fun _ _ _ _ => all _ _ _, fun _ _ _ => all _ _ _⟩

namespace Amid

variable (h : R.Amid t₀ leave t s)
include h

theorem mid : (R.conduct t₀ leave).Mid s [] t s s := ⟨h, h.store⟩

theorem top (f : Frame) (fs : List Frame) : (R.conduct t₀ leave).Top f fs t s s :=
  ⟨h, h.store⟩

theorem applyHost (admits : R.Admits host) {word : String} {this : Value}
    (own : R.Has t this) {args : List Value} (has : ∀ v ∈ args, R.Has t v)
    (faithful : leave.Faithful t (s.asked host word this args).store) :
    R.Keeps t₀ leave (s.applyHost host word this args) := by
  obtain rfl := h.store
  obtain ⟨next, replies⟩ :=
    admits word this args s.world.held.size s.store s.world.host h.keeps own has
  simp only [State.applyHost]
  simp only [State.asked] at faithful
  generalize host.call word this args s.world.held.size s.store s.world.host = step
    at next replies faithful
  have after : R.Amid t₀ leave step.store ({ s with world := { s.world with
      store := step.store, host := step.host, log := s.world.log ++ step.log } } : State η) :=
    { h.withStore next faithful with }
  split
  · next given =>
    rw [given] at replies
    exact after.become ⟨replies, nofun⟩
  · next given =>
    rw [given] at replies
    exact after.become replies
  · next given =>
    rw [given] at replies
    exact after.become replies
  · next answers given =>
    rw [given] at replies
    refine ⟨⟨⟨rfl, next.keeps, by simp, ?_, ?_, ?_⟩, trivial⟩, after.faithful⟩
    · intro a mem
      rcases List.mem_append.1 mem with mem | mem
      · obtain ⟨o, own, rfl⟩ := List.mem_map.1 mem
        exact ⟨h.calls, replies o own⟩
      · exact after.agenda a mem
    · intro ticket held le found
      rw [Array.getElem?_push] at found
      split at found
      · cases found
        exact after.stack
      · exact after.held ticket held le found
    · exact Nat.le_trans h.calls (by simp)

theorem answer (idle : R.Pursues t s.control) {ticket : Nat} {o : Outcome}
    (le : R.since ≤ ticket) (gives : R.Gives t o) : R.Keeps t₀ leave (s.answer ticket o) := by
  unfold State.answer
  split
  · refine finish (t := t) ?_ gives
    refine ⟨⟨h.store, h.keeps, ?_, h.agenda, ?_, ?_⟩, h.faithful⟩
    · intro f mem
      cases found : s.world.held[ticket]? with
      | none => simp [found] at mem
      | some held => exact h.held ticket held le found f (by simpa [found] using mem)
    · intro other held le found
      rw [Array.getElem?_modify] at found
      split at found
      · obtain ⟨before, was, rfl⟩ := Option.map_eq_some_iff.1 found
        have carries := h.held other before le was
        cases o <;> exact carries
      · exact h.held other held le found
    · simpa using h.calls
  · obtain rfl := h.store
    exact ⟨⟨h.toWithin, idle⟩, h.faithful⟩

theorem applyFunction (admits : R.Admits host) {f : FunctionId}
    (holds : R.holds t (.function f)) {this : Value} (own : R.Has t this) {args : List Value}
    (has : ∀ v ∈ args, R.Has t v) (config : Config)
    (faithful : ∀ {name word properties}, t.function? f = some ⟨.host name word, properties⟩ →
      leave.Faithful t (s.asked host word this args).store) :
    R.Makes t₀ leave (s.applyFunction host f this args config) := by
  obtain rfl := h.store
  have given : R.Keeps t₀ leave (s.give .undefined) := h.become ⟨nofun, nofun⟩
  unfold State.applyFunction
  split
  · exact given
  · next found =>
    exact h.mid.applyClosure _ (holds_captured h.keeps holds found) own has config trivial
      False.elim False.elim
  · next found => exact h.applyHost admits own has (faithful found)
  · have first : R.Has s.store (args.head?.getD .undefined) :=
      has_getD fun v found => has v (List.mem_of_mem_head? found)
    simp only
    split
    · exact given
    · refine ⟨?_, { given with }⟩
      split
      · exact first
      · exact first

end Amid

namespace Stays

theorem amid (h : R.Stays s) : R.Amid s.store leave s.store s := ⟨h.toWithin, .refl leave _⟩

theorem bears (h : R.Stays s) {f : Frame} {below : List Frame} (top : s.stack = f :: below) :
    (R.conduct (η := η) t₀ leave).Bears s.store below f :=
  ⟨h.stack f (top ▸ List.mem_cons_self), fun _ _ => trivial, nofun, Terms.calm_of_crafts trivial f,
    False.elim⟩

theorem rest (h : R.Stays s) {f : Frame} {below : List Frame} (top : s.stack = f :: below) :
    R.Keeps s.store leave ({ s with stack := below } : State η).rest := by
  have popped : R.Amid s.store leave s.store s.pop := ⟨h.pop, .refl leave _⟩
  simp only [State.pop, top, List.tail_cons] at popped
  exact popped.become trivial

/-- The machine does not leave the region, and is loyal where it abides. -/
theorem advance (h : R.Stays s) (leave : Leave) (admits : R.Admits host) (fits : R.Fits s)
    (abides : leave.rewires ∨ s.Abides host) (tends : leave.neglects ∨ s.Tends host) :
    R.Makes s.store leave (s.advance host) := by
  have pursues := h.control
  have amid : R.Amid s.store leave s.store s := h.amid
  cases control : s.control with
  | eval site =>
    rw [control] at pursues
    simp only [State.advance, control]
    exact amid.enter fun h => h.mid.start (r := .closed) ⟨pursues, trivial, False.elim⟩ False.elim
      (fun _ _ _ _ _ _ _ _ _ => rfl) fun _ => trivial
  | bind target v =>
    rw [control] at pursues
    simp only [State.advance, control]
    exact amid.mid.bindPattern ⟨pursues.1, trivial, False.elim⟩ pursues.2
  | apply f this args config =>
    rw [control] at pursues
    simp only [State.advance, control]
    refine amid.applyFunction admits pursues.1 pursues.2.1 pursues.2.2 _ fun found => ?_
    exact ⟨abides.imp_right (·.host ..), tends.imp_right fun all => all ⟨_, _, _, _, control, found⟩⟩
  | ret v receiver =>
    rw [control] at pursues
    rcases top : s.stack with _ | ⟨f, below⟩
    · simp only [State.advance, control, top]
      exact amid.become trivial
    · cases inner : f.isInner with
      | false =>
        cases f with
        | deliver id =>
          simp only [State.advance, control, top]
          exact ⟨pursues.1, h.rest top⟩
        | _ => cases inner
      | true =>
        rw [State.advance_ret host control top inner]
        refine (amid.top f below).resume inner (h.bears top) pursues.1 pursues.2 False.elim ?_ ?_
        · rintro site name superclass rfl
          exact ⟨abides.resolve_right fun other => other.crafts top control,
            fits _ _ _ _ _ _ top control⟩
        · rintro g access rfl written other
          refine abides.imp_right fun all => ?_
          have writes := all.writes
          simp only [State.rewires, control, top] at writes
          cases access with
          | read => exact absurd rfl written
          | callee => exact absurd rfl other
          | _ => exact beq_eq_false_iff_ne.1 writes
  | fail e =>
    rw [control] at pursues
    rcases top : s.stack with _ | ⟨f, below⟩
    · simp only [State.advance, control, top]
      exact amid.become trivial
    · cases inner : f.isInner with
      | false =>
        cases f with
        | deliver id =>
          simp only [State.advance, control, top]
          exact ⟨pursues, h.rest top⟩
        | _ => cases inner
      | true =>
        rw [State.advance_fail host control top inner]
        exact (amid.top f below).unwind inner (h.bears top) ⟨pursues, trivial, False.elim⟩
  | idle =>
    simp only [State.advance, control]
    split
    · exact ⟨h, .refl leave _⟩
    · next ticket o agenda first =>
      have gives := h.agenda
      rw [first, List.forall_mem_cons] at gives
      have h : R.Amid s.store leave s.store { s with control := .idle, agenda } :=
        ⟨{ h with agenda := gives.2 }, .refl leave _⟩
      exact h.answer trivial gives.1.1 gives.1.2

end Stays

end Region

end EcmaMachine
