import EcmaMachine.Proofs.Observers
import EcmaMachine.Proofs.Run

/-!
Watching does not change an evaluation. As long as no Enter is refused, a run with observers and
with references goes through the same steps as the run that nobody watches and that gives out no
references. What they leave differs in the tables of references, the trace, the log and the notes of
the observers only.
-/

namespace EcmaMachine

variable {η : Type} {w : World η}

/-! ## Refusals -/

namespace Observer

/-- The observer without its refusals of Enters. -/
def lenient (o : Observer) : Observer :=
  { o with watch := fun notes store e =>
      let verdict := o.watch notes store e
      { verdict with refusal := if e.isEnter then none else verdict.refusal } }

theorem willing_lenient (o : Observer) : o.lenient.Willing := by
  intro notes store e enter
  simp [lenient, enter]

end Observer

def World.lenient (w : World η) : World η :=
  { w with observers := (w.observers.toList.map Observer.lenient).toArray }

def State.lenient (s : State η) : State η := { s with world := s.world.lenient }

def Progress.map (f : State η → State η) : Progress η → Progress η
  | next s => next (f s)
  | delivered recipient outcome s => delivered recipient outcome (f s)
  | rest s => rest (f s)

/-- No Enter is refused in this step. A refusal would show: the step would fail where a lenient
observer makes it put the end of the node on the stack. -/
def State.Unrefused (host : Host η) (s : State η) : Prop :=
  s.lenient.advance host = (s.advance host).map State.lenient

namespace Ledger

variable {host : Host η} {l : Ledger} {s : State η}

theorem step_lenient (l : Ledger) (h : s.Unrefused host) :
    l.step host s.lenient = (l.step host s).map (Prod.map id State.lenient) := by
  simp only [step]
  rw [h]
  cases s.advance host with
  | next s' => rfl
  | rest s' => rfl
  | delivered id outcome s' =>
    obtain ⟨l', store, log, took, seen⟩ := l.exists_take id outcome s'
    have there := seen false s'.lenient rfl
    rw [view_false, view_false] at there
    simp only [Progress.map, took, there]
    rfl

theorem settle_lenient (fuel : Nat)
    (unrefused : ∀ i l' s', l.after host i s = some (l', s') → s'.Unrefused host) :
    l.settle host fuel s.lenient =
      ((l.settle host fuel s).1, (l.settle host fuel s).2.lenient) := by
  induction fuel generalizing l s with
  | zero => rfl
  | succ fuel ih =>
    have step := l.step_lenient (unrefused 0 l s rfl)
    cases stepped : l.step host s with
    | none =>
      rw [stepped] at step
      rw [settle_of_rest step, settle_of_rest stepped]
      rfl
    | some next =>
      rw [stepped] at step
      rw [settle_of_step step, settle_of_step stepped]
      exact ih fun i l' s' h => unrefused (i + 1) l' s' ((after_succ stepped i).trans h)

end Ledger

namespace World

variable {w : World η} {ids : List Nat}

theorem admits_lenient (w : World η) (ids : List Nat) : w.lenient.Admits ids := by
  intro id _ o found
  simp only [lenient, List.getElem?_toArray, List.getElem?_map, Option.map_eq_some_iff] at found
  obtain ⟨o, _, rfl⟩ := found
  exact o.willing_lenient

structure Mirrors (forgets : Bool) (ids : List Nat) (w x : World η) : Prop where
  store : x.store = w.store.view forgets
  spent : x.spent = w.spent
  answered : x.answered = w.answered
  host : x.host = w.host
  held : x.held.size = w.held.size
  admits : w.Admits ids

theorem Mirrors.tell {forgets : Bool} {x : World η} (h : w.Mirrors forgets ids x) (site : Site)
    (slot : Option Slot) (stage : Stage) : (w.tell site slot stage).2.Mirrors forgets ids x where
  store := by simpa using h.store
  spent := by simpa using h.spent
  answered := by simpa using h.answered
  host := by simpa using h.host
  held := by simpa using h.held
  admits := h.admits.notify _ _

end World

namespace Bond

/-- An evaluation watched by `ids`, who refuse no Enter, and the same evaluation that nobody
watches. -/
def unwatched (forgets : Bool) (ids : List Nat) (k : List Frame) : Bond η where
  config _ := .plain
  forgets := forgets
  allowed c := c.observers ⊆ ids ∧ (c.references = true → forgets = true)
  base := k
  base' := k
  agenda := []
  agenda' := []
  Rel _ w x := w.Mirrors forgets ids x
  Refused _ _ _ := False
  references := by
    rintro c ⟨_, references⟩
    cases on : c.references with
    | false => simp [Config.plain]
    | true => simp [Config.plain, references on]
  store_eq h := h.store
  spent_eq h := h.spent
  answered_eq h := h.answered
  stored store log h := { h with store := rfl }
  marked cell h := { h with answered := by simp [World.markAnswered, h.answered] }
  newCell h := { h with spent := by simp [World.newCell, h.spent] }
  push h _ := h
  pushCell h _ := { h with spent := by simp [World.newCell, h.spent] }
  pop h _ := h
  swap h _ _ := h
  spend h _ := { h with spent := by simp [World.spend, h.spent] }
  left o h _ := h.tell _ _ _
  asked slot h allowed := (h.admits.tell_enter allowed.1 slot).symm
  entered h _ _ := h.tell _ _ _
  refused e h allowed refusal := by
    rw [h.admits.tell_enter allowed.1] at refusal
    cases refusal

theorem shared_unwatched (forgets : Bool) (ids : List Nat) (k : List Frame) :
    (unwatched forgets ids k : Bond η).Shared where
  host_eq h := h.host
  held_size h := h.held
  called store host log h := { h with store := rfl, host := rfl }
  released valueOpen failureOpen h := { h with held := by simp [h.held] }

variable {B : Bond η} {host : Host η} {s t : State η} {id : Nat}

section Settle

variable (runs : B.Runs host) (base : B.base = [.deliver id]) (base' : B.base' = [.deliver id])
include runs base base'

/-- An outcome that goes to the outside is the last thing that happens. -/
theorem Linked.deliver (h : B.Linked s t) (hands : s.Hands B.base) (l : Ledger) :
    ∃ l' s' t', l.step host s = some (l', s') ∧
      (l.view B.forgets).step host t = some (l'.view B.forgets, t') ∧ B.Linked s' t' := by
  have done := h.done_of_hands runs hands
  obtain ⟨o, delivered⟩ := State.exists_delivered hands.2
  have control' := done.control.trans (Control.mapConfig_of_outcome hands.2 _)
  obtain ⟨l', store, log, took, seen⟩ := l.exists_take id o s.pop.rest
  have rested : B.Rested (s.pop.rest.called store log)
      (t.pop.rest.called (store.view B.forgets) log) :=
    ⟨rfl, rfl, done.agenda, done.agenda', _, (done.called store log).rel⟩
  refine ⟨l', _, _, ?_, ?_, .rested rested⟩
  · simp only [Ledger.step, delivered host rfl (hands.1.trans base), took]
  · simp only [Ledger.step, delivered host control' (done.stack'.trans base'),
      seen _ t.pop.rest (B.store_eq done.rel)]

theorem Linked.settle (quiet' : B.agenda' = [])
    (prompt : ∀ s : State η, s.Prompt host (B.allowed .plain ∧ B.config .plain = .plain))
    (h : B.Linked s t) (l : Ledger) (fuel : Nat) :
    ((l.view B.forgets).settle host fuel t).1 = (l.settle host fuel s).1.view B.forgets ∧
      ∃ fs, B.Rel fs (l.settle host fuel s).2 ((l.view B.forgets).settle host fuel t).2 := by
  induction fuel generalizing l s t with
  | zero => exact ⟨rfl, h.rel runs⟩
  | succ fuel ih =>
    have cases_step : (∃ l' s' t', l.step host s = some (l', s') ∧
        (l.view B.forgets).step host t = some (l'.view B.forgets, t') ∧ B.Linked s' t') ∨
        B.Rested s t := by
      by_cases hands : s.Hands B.base
      · exact .inl (h.deliver runs base base' hands l)
      · exact h.cases_step runs (prompt s) hands l
    rcases cases_step with ⟨l', s', t', stepped, stepped', linked⟩ | rested
    · rw [Ledger.settle_of_step stepped, Ledger.settle_of_step stepped']
      exact ih linked l'
    · have rests : l.step host s = none := by
        simp [Ledger.step, State.advance, rested.control, rested.agenda, runs.quiet]
      have rests' : (l.view B.forgets).step host t = none := by
        simp [Ledger.step, State.advance, rested.control', rested.agenda', quiet']
      rw [Ledger.settle_of_rest rests, Ledger.settle_of_rest rests']
      exact ⟨rfl, rested.rel⟩

end Settle

end Bond

/-! ## Evaluations from outside -/

namespace Host

/-- Every call is answered at once and exactly once, maybe by a call of another function. -/
def Synchronous (host : Host η) : Prop := host.Prompt True

/-- The host functions have no part in the tables of references. -/
def Blind (host : Host η) : Prop :=
  ∀ word this args ticket store h,
    host.call word this args ticket store.unreferenced h =
      (host.call word this args ticket store h).view true

end Host

/-- Where nobody refuses an Enter, the evaluation leaves what it leaves when nobody watches. -/
theorem Ledger.settle_unwatched {host : Host η} (synchronous : host.Synchronous) {b : Bool}
    (blind : b = true → host.Blind) (site : Site)
    (references : site.config.references = true → b = true) {x : World η}
    (mirrors : w.Mirrors b site.config.observers x) (l : Ledger) (id fuel : Nat) :
    ((l.view b).settle host fuel (.program (site.mapConfig fun _ => .plain) id x)).1 =
        (l.settle host fuel (.program site id w)).1.view b ∧
      (l.settle host fuel (.program site id w)).2.Mirrors b site.config.observers
        ((l.view b).settle host fuel (.program (site.mapConfig fun _ => .plain) id x)).2 := by
  let B : Bond η := .unwatched b site.config.observers [.deliver id]
  have plain : B.allowed .plain := ⟨List.nil_subset _, by simp [Config.plain]⟩
  have runs : B.Runs host := by
    refine ⟨Bond.shared_unwatched _ _ _, fun word this args ticket store h => ?_, rfl, False.elim⟩
    cases b with
    | false => rfl
    | true => exact blind rfl word this args ticket store h
  have prompt : ∀ s : State η, s.Prompt host (B.allowed .plain ∧ B.config .plain = .plain) :=
    fun s => (synchronous.state s).mono fun _ => ⟨plain, rfl⟩
  have half : B.Half [] (State.mk (.eval site) [.deliver id] [] w)
      (State.mk (.eval (site.mapConfig B.config)) [.deliver id] [] x) :=
    ⟨rfl, rfl, rfl, rfl, trivial, mirrors⟩
  have started := half.pushCell .program (fun _ => rfl)
    fun _ => .ofSites (List.forall_mem_nil _) rfl rfl
  have linked : B.Linked (.program site id w) (.program (site.mapConfig B.config) id x) :=
    .next (started.become (.eval site) ⟨List.Subset.refl _, references⟩)
  obtain ⟨ledger, _, mirrors'⟩ := linked.settle runs rfl rfl rfl prompt l fuel
  exact ⟨ledger, mirrors'⟩

/-- All that two worlds hold is the same, if `references` is true except for the tables of
references. Nothing is said of the log, the trace and the notes of the observers. -/
structure World.Alike (references : Bool) (w w' : World η) : Prop where
  store : w'.store.view references = w.store.view references
  host : w'.host = w.host
  spent : w'.spent = w.spent
  answered : w'.answered = w.answered
  held : w'.held.size = w.held.size

theorem World.Mirrors.alike {b : Bool} {ids ids' : List Nat} {w' x : World η}
    (h : w.lenient.Mirrors b ids x) (h' : w'.Mirrors b ids' x) : World.Alike b w w' where
  store := h'.store.symm.trans h.store
  host := h'.host.symm.trans h.host
  spent := h'.spent.symm.trans h.spent
  answered := h'.answered.symm.trans h.answered
  held := h'.held.symm.trans h.held

theorem Ledger.settle_alike {host : Host η} (synchronous : host.Synchronous) {site : Site}
    (blind : site.config.references = true → host.Blind) {l : Ledger} {id : Nat}
    (unrefused : ∀ i l' s', l.after host i (.program site id w) = some (l', s') →
      s'.Unrefused host) (fuel : Nat) :
    (l.settle host fuel (.program (site.mapConfig fun _ => .plain) id w)).1.view
        site.config.references =
      (l.settle host fuel (.program site id w)).1.view site.config.references ∧
    World.Alike site.config.references (l.settle host fuel (.program site id w)).2
      (l.settle host fuel (.program (site.mapConfig fun _ => .plain) id w)).2 := by
  -- both runs are compared with the one from a store without tables of references
  let x : World η := { w with store := w.store.view site.config.references }
  have mirrors : w.lenient.Mirrors site.config.references site.config.observers x :=
    ⟨rfl, rfl, rfl, rfl, rfl, w.admits_lenient _⟩
  have mirrors' : w.Mirrors site.config.references [] x :=
    ⟨rfl, rfl, rfl, rfl, rfl, by simp [World.Admits]⟩
  have watched := settle_unwatched synchronous blind site (fun on => on) mirrors l id fuel
  have plain := settle_unwatched synchronous blind (site.mapConfig fun _ => .plain) nofun mirrors' l
    id fuel
  have lenient : l.settle host fuel (.program site id w.lenient) = _ :=
    settle_lenient fuel unrefused
  rw [lenient] at watched
  exact ⟨plain.1.symm.trans watched.1, watched.2.alike plain.2⟩

namespace Realm

/-- What was delivered and what is left is the same, with the same exception. -/
structure Alike (references : Bool) (r r' : Realm η) : Prop where
  ledger : r'.ledger.view references = r.ledger.view references
  awaited : ∀ tag, r'.awaited tag = r.awaited tag
  world : World.Alike references r.world r'.world

theorem awaited_view (b : Bool) (r : Realm η) (tag : Nat) :
    ({ r with ledger := r.ledger.view b } : Realm η).awaited tag = r.awaited tag := by
  have isFor : (Delivery.isFor tag ∘ fun d : Delivery => { d with store := d.store.view b }) =
      Delivery.isFor tag := rfl
  simp only [awaited, Ledger.view, Array.toList_map, List.find?_map, isFor]
  cases r.ledger.deliveries.toList.find? (Delivery.isFor tag) <;> rfl

theorem Alike.ofLedger {b : Bool} {r r' : Realm η} (ledger : r'.ledger.view b = r.ledger.view b)
    (world : World.Alike b r.world r'.world) : Alike b r r' := by
  refine ⟨ledger, fun tag => ?_, world⟩
  calc r'.awaited tag = ({ r' with ledger := r'.ledger.view b } : Realm η).awaited tag :=
        (r'.awaited_view b tag).symm
    _ = ({ r with ledger := r.ledger.view b } : Realm η).awaited tag := by
        rw [ledger]
        rfl
    _ = r.awaited tag := r.awaited_view b tag

end Realm

/-- With host functions that answer at once, a tree that is watched by observers who refuse no
Enter, with references or without, gives the outcome and leaves the bindings and the heap that it
does when nobody watches and no references are given out. -/
theorem evaluation_unchanged_by_observation (host : Host η) (synchronous : host.Synchronous)
    (r : Realm η) (node : Node) (kept : Option TreeId) (scope : ScopeId) (config : Config)
    (recipient : Recipient) (blind : config.references = true → host.Blind)
    (unrefused : ∀ i l s,
      (r.begun node kept scope config recipient).1.after host i
        (r.begun node kept scope config recipient).2 = some (l, s) → s.Unrefused host)
    (fuel : Nat) :
    Realm.Alike config.references (r.evalNode host fuel node kept scope config recipient)
      (r.evalNode host fuel node kept scope .plain recipient) := by
  obtain ⟨ledger, world⟩ := Ledger.settle_alike synchronous blind unrefused fuel
  exact .ofLedger ledger world

namespace Sample

/-- `f()` with references, a recorder and a budget that is just enough for its two nodes. -/
theorem call_unchanged_by_observation :
    let r : Realm Unit := ⟨world [.recorder, .stepBudget 2], .empty⟩
    host.Synchronous ∧ host.Blind ∧
      Realm.Alike true (r.evalNode host 20 (call "f") none 0 ⟨[0, 1], true⟩ .defaults)
        (r.evalNode host 20 (call "f") none 0 .plain .defaults) := by
  have synchronous : host.Synchronous := fun _ _ _ _ _ _ => trivial
  have blind : host.Blind := fun _ _ _ _ _ _ => rfl
  have unrefused : ∀ {p}, Realm.begun ⟨world [.recorder, .stepBudget 2], .empty⟩ (call "f") none 0
      ⟨[0, 1], true⟩ .defaults = p →
        Ledger.Throughout host (State.Unrefused host) 15 p.1 p.2 := by
    rintro _ rfl
    repeat refine And.intro rfl ?_
    trivial
  exact ⟨synchronous, blind, evaluation_unchanged_by_observation host synchronous _ (call "f") none
    0 ⟨[0, 1], true⟩ .defaults (fun _ => blind) (fun _ _ _ => (unrefused rfl).after) 20⟩

end Sample

end EcmaMachine
