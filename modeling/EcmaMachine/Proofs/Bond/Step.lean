import EcmaMachine.Proofs.Conduct.Resume

/-!
Bonds are kept by the steps of the machine, as long as the evaluation has not handed its outcome to
what waits below it.
-/

namespace EcmaMachine

/-- Answers given at once and exactly once. If `calls` is false, a call of a script function is not
one. -/
def Reply.Prompt (calls : Prop) : Reply → Prop
  | .value _ | .failure _ | .hold [_] => True
  | .call .. => calls
  | .hold _ => False

theorem Reply.Prompt.mono {calls calls' : Prop} (le : calls → calls') {r : Reply}
    (h : r.Prompt calls) : r.Prompt calls' := by
  cases r with
  | value => trivial
  | failure => trivial
  | call => exact le h
  | hold answers =>
    cases answers with
    | nil => exact h
    | cons o rest => cases rest <;> exact h

def Control.isOutcome : Control → Bool
  | .ret .. | .fail _ => true
  | _ => false

theorem Control.mapConfig_of_outcome {c : Control} (outcome : c.isOutcome = true)
    (g : Config → Config) : c.mapConfig g = c := by
  cases c <;> first | rfl | cases outcome

namespace Outcome

def isValue : Outcome → Bool
  | value _ => true
  | failure _ => false

def isFailure (o : Outcome) : Bool := !o.isValue

end Outcome

namespace State

variable {η : Type}

/-- If a host function is called now, it answers at once and exactly once. -/
def Prompt (host : Host η) (calls : Prop) (s : State η) : Prop :=
  ∀ ⦃word this args⦄, s.CallsHost word this args → (s.asked host word this args).reply.Prompt calls

theorem Prompt.mono {host : Host η} {calls calls' : Prop} (le : calls → calls')
    {s : State η} (h : s.Prompt host calls) : s.Prompt host calls' :=
  fun _ _ _ made => (h made).mono le

theorem modify_push {α : Type} (a : Array α) (x : α) (f : α → α) :
    (a.push x).modify a.size f = a.push (f x) := by
  apply Array.ext
  · simp
  · intro i _ _
    simp only [Array.getElem_modify, Array.getElem_push]
    grind

theorem agenda_answer (s : State η) (ticket : Nat) (o : Outcome) :
    (s.answer ticket o).agenda = s.agenda := by
  simp only [answer]
  split
  · cases o <;> rfl
  · rfl

theorem spent_answer (s : State η) (ticket : Nat) (o : Outcome) :
    (s.answer ticket o).world.spent = s.world.spent := by
  simp only [answer]
  split
  · cases o <;> rfl
  · rfl

/-- A host function is called now and leaves the call open. -/
def Holds (host : Host η) (answers : List Outcome) (s : State η) : Prop :=
  ∃ word this args, s.CallsHost word this args ∧ (s.asked host word this args).reply = .hold answers

/-- The evaluation is over: its outcome goes to the frames `k`. -/
def Hands (k : List Frame) (s : State η) : Prop := s.stack = k ∧ s.control.isOutcome = true

theorem Hands.active {k : List Frame} {s : State η} (h : s.Hands k) : s.control ≠ .idle := by
  intro idle
  have outcome := h.2
  rw [idle] at outcome
  cases outcome

/-- What is delivered depends on nothing but the outcome. -/
theorem exists_delivered {c : Control} (outcome : c.isOutcome = true) :
    ∃ o, ∀ {η : Type} (host : Host η) {s : State η} {id : Nat} {below : List Frame},
      s.control = c → s.stack = .deliver id :: below →
        s.advance host = .delivered id o s.pop.rest := by
  cases c with
  | ret v receiver =>
    refine ⟨.value v, fun host s id below control stack => ?_⟩
    simp only [advance, control, stack, pop, rest, become, List.tail_cons]
  | fail e =>
    refine ⟨.failure e, fun host s id below control stack => ?_⟩
    simp only [advance, control, stack, pop, rest, become, List.tail_cons]
  | _ => cases outcome

/-- The frames are put by until the call is answered; the answer is already on the agenda. -/
def hold (s : State η) (o : Outcome) : State η where
  control := .idle
  stack := []
  agenda := (s.world.held.size, o) :: s.agenda
  world := { s.world with held := s.world.held.push ⟨s.stack, true, true⟩ }

/-- The record of a call that was held and has been answered. -/
def release (s : State η) (o : Outcome) : State η :=
  { s with
    control := .idle
    world := { s.world with held := s.world.held.push ⟨s.stack, o.isFailure, o.isValue⟩ } }

theorem advance_hold (host : Host η) (s : State η) (o : Outcome) :
    (s.hold o).advance host = .next ((s.release o).finish o) := by
  cases o <;>
    simp [hold, release, advance, answer, accepts, modify_push, Outcome.isFailure, Outcome.isValue]

end State

namespace World

variable {η : Type} {w : World η} {c c' : Cell}

theorem cell_lt (unspent : w.isSpent c = false) : c < w.spent.size := by
  rcases Nat.lt_or_ge c w.spent.size with lt | ge
  · exact lt
  · simp [isSpent, Array.getD_eq_getD_getElem?, Array.getElem?_eq_none ge] at unspent

theorem isSpent_spend_of_ne (w : World η) (ne : c' ≠ c) :
    (w.spend c).isSpent c' = w.isSpent c' := by
  simp [isSpent, spend, Array.getD_eq_getD_getElem?, Array.getElem?_setIfInBounds_ne ne.symm]

end World

def HostStep.view {η : Type} (b : Bool) (step : HostStep η) : HostStep η :=
  { step with store := step.store.view b }

namespace Bond

variable {η : Type}

def Fair (B : Bond η) (host : Host η) : Prop :=
  ∀ word this args ticket store h,
    host.call word this args ticket (store.view B.forgets) h =
      (host.call word this args ticket store h).view B.forgets

inductive After (B : Bond η) (host : Host η) (s : State η) : Progress η → Progress η → Prop
  | next {s' t' : State η} : B.Next s' t' → After B host s (.next s') (.next t')
  | told {s' t' : State η} {fs : List Frame} (recipient : Nat) (outcome : Outcome) :
    B.Done fs s' t' →
    After B host s (.delivered recipient outcome s') (.delivered recipient outcome t')
  /-- A call is held; its answer comes in the next step. -/
  | held {s' t' : State η} {fs : List Frame} (o : Outcome) : B.Half fs s' t' →
    s.Holds host [o] → s'.stack = s.stack → s'.world.held = s.world.held →
    s'.world.observers = s.world.observers →
    After B host s (.next (s'.hold o)) (.next (t'.hold o))
  | dropped {s' t' : State η} {f : Frame} {rest : List Frame} : s.stack = f :: rest →
    s.control.isOutcome = true → (∃ cell, f.cell? = some cell ∧ s.world.isSpent cell = true) →
    B.Rested s' t' →
    After B host s (.next s') (.next t')

/-- What the machine does with two states of a bond, it does whatever is in the store. -/
def conduct (B : Bond η) : Conduct η where
  region := .whole
  lens := ⟨id, B.forgets⟩
  config := B.config
  admits := B.allowed
  tracks := True
  may _ := True
  crafts := True
  rewires := True
  lexicon := .free
  lawful := False
  references := B.references
  plain _ := trivial
  crafty _ := trivial
  Mid _ fs σ s t := s.store = σ ∧ B.Half fs s t
  Next _ := B.Next
  Top f fs σ s t := s.store = σ ∧ B.Half (f :: fs) s t
  Given _ f s := B.Handed f s.world
  keeps _ := trivial
  store_eq h := h.1
  look_eq h := by rw [Store.look_id, ← h.1, h.2.store]
  stack_eq _ := False.elim
  top_eq h := ⟨trivial, h.1, by rw [Store.look_id, ← h.1, h.2.store]⟩
  write h _ := ⟨rfl, by rw [Store.look_id]; exact h.2.withStore _⟩
  push h plain bears := ⟨h.1, h.2.push plain
    ⟨bears.admits, bears.receives trivial, Frame.isInner_of_isPlain plain⟩⟩
  pushCell h cell bears := ⟨h.1, h.2.pushCell _ cell fun c =>
    ⟨(bears c).admits, (bears c).receives trivial, Frame.isInner_of_cell (cell c)⟩⟩
  newCell h := ⟨h.1, h.2.newCell⟩
  become control h pursues := h.2.become control <| by
    cases control with
    | eval => exact pursues.admits
    | bind => exact pursues.1.admits
    | ret => exact pursues.2.2 trivial
    | fail => trivial
    | apply => exact pursues.2.2.2.1
    | idle => exact pursues
  enter h allowed inside := h.2.enter _ allowed fun h' same => inside ⟨same.trans h.1, h'⟩
  pop h exit := ⟨h.1, h.2.pop exit⟩
  leave o h _ := ⟨(World.tell_store _ _ _ _).trans h.1, h.2.leave o⟩
  swap h succeeds bears := by
    obtain ⟨c, own, own'⟩ := succeeds.cell
    exact ⟨h.1, h.2.swap _ (by rw [own]; rfl) (own'.trans own.symm)
      ⟨bears.admits, bears.receives trivial, Frame.isInner_of_cell own'⟩⟩
  given _ _ _ next := .inl next
  swapped _ _ _ next := .inl next
  once h own inside _ := h.2.handOnce own fun h' same => inside ⟨same.trans h.1, h'⟩

variable {B : Bond η} {host host' : Host η} {s t : State η} {fs : List Frame}

namespace Half

theorem mid (h : B.Half fs s t) : B.conduct.Mid s fs s.store s t := ⟨rfl, h⟩

theorem top {f : Frame} (h : B.Half (f :: fs) s t) : B.conduct.Top f fs s.store s t := ⟨rfl, h⟩

theorem start (h : B.Half fs s t) {site : Site} (allowed : B.allowed site.config) :
    B.Next (s.start site) (t.start (site.mapConfig B.config)) :=
  h.mid.start (r := .closed) ⟨Region.whole_allows, allowed, False.elim⟩ False.elim
    (fun _ _ _ _ _ _ _ _ _ => rfl) fun _ => trivial

theorem bears {f : Frame} (h : B.Half (f :: fs) s t) : B.conduct.Bears s.store fs f :=
  ⟨Region.whole_carries f, h.built.1.1, fun _ => h.built.1.2.1, Terms.calm_of_crafts trivial f,
    False.elim⟩

theorem release (h : B.Half fs s t) (shared : B.Shared) (o : Outcome) :
    B.Half fs (s.release o) (t.release o) := by
  have rel := shared.released o.isFailure o.isValue h.rel
  rw [← h.stack, ← h.stack'] at rel
  exact { h with rel }

theorem applyHost (h : B.Half fs s t) (shared : B.Shared) (fair : B.Fair host) {word : String}
    {this : Value} {args : List Value} (made : s.CallsHost word this args)
    (prompt : s.Prompt host (B.allowed .plain ∧ B.config .plain = .plain)) :
    B.After host s (.next (s.applyHost host word this args))
      (.next (t.applyHost host word this args)) := by
  have size := shared.held_size h.rel
  have prompt := prompt made
  have holds : ∀ answers, (s.asked host word this args).reply = .hold answers →
      s.Holds host answers := fun _ reply => ⟨word, this, args, made, reply⟩
  simp only [State.asked] at prompt holds
  simp only [State.applyHost, size, shared.host_eq h.rel, h.store, fair _ _ _ _ _ _, HostStep.view]
  generalize host.call word this args s.world.held.size s.store s.world.host = step
    at prompt holds ⊢
  obtain ⟨reply, store, log, kept⟩ := step
  have called : B.Half fs
      { s with world := { s.world with store, host := kept, log := s.world.log ++ log } }
      { t with world := { t.world with
        store := store.view B.forgets, host := kept, log := t.world.log ++ log } } :=
    { h with rel := shared.called store kept log h.rel }
  cases reply with
  | value v => exact .next (called.give v)
  | failure e => exact .next (called.fail e)
  | call f this args =>
    have next := called.become (.apply f this args .plain) prompt.1
    simp only [Control.mapConfig, prompt.2] at next
    exact .next next
  | hold answers =>
    cases answers with
    | nil => exact False.elim prompt
    | cons o rest =>
      cases rest with
      | cons => exact False.elim prompt
      | nil =>
        have held : B.After host s _ _ := .held o called (holds [o] rfl) rfl rfl rfl
        simp only [State.hold, size] at held
        exact held

theorem applyFunction (h : B.Half fs s t) (f : FunctionId) (this : Value) (args : List Value)
    {config : Config} (allowed : B.allowed config)
    (calls : ∀ name word properties, s.store.function? f = some ⟨.host name word, properties⟩ →
      B.After host s (.next (s.applyHost host word this args))
        (.next (t.applyHost host' word this args))) :
    B.After host s (s.applyFunction host f this args config)
      (t.applyFunction host' f this args (B.config config)) := by
  have same : t.store.function? f = s.store.function? f := by
    rw [h.store, ← Store.look_id, Store.function?_look, Function.mapTree_id, Option.map_id]
    rfl
  simp only [State.applyFunction, same]
  cases found : s.store.function? f with
  | none => exact .next (h.give _)
  | some function =>
    obtain ⟨callable, properties⟩ := function
    cases callable with
    | closure c =>
      exact .next (h.mid.applyClosure c trivial Region.whole_has
        (fun _ _ => Region.whole_has) config allowed False.elim False.elim)
    | host name word => exact calls name word properties found
    | answer recipient cell throws =>
      have answered : ∀ c, (t.give .undefined).world.isAnswered c =
          (s.give .undefined).world.isAnswered c := by
        intro c
        exact congrArg (·.getD c true) (B.answered_eq h.rel)
      simp only [answered]
      split
      · exact .next (h.give _)
      · have marked : B.Half fs { s with world := s.world.markAnswered cell }
            { t with world := t.world.markAnswered cell } :=
          { h with rel := B.marked cell h.rel }
        exact .told _ _ { marked with control := rfl, fits := .inl rfl }

end Half

theorem Handed.after {f : Frame} {rest : List Frame} {s' t' : State η}
    (h : B.Handed f s.world s' t') (stack : s.stack = f :: rest)
    (outcome : s.control.isOutcome = true) : B.After host s (.next s') (.next t') := by
  rcases h with next | ⟨spent, dropped⟩
  · exact .next next
  · exact .dropped stack outcome spent dropped

theorem Done.active (h : B.Done fs s t) : s.control ≠ .idle := by
  intro idle
  have fits := h.fits
  rw [idle] at fits
  exact fits

theorem Next.active (h : B.Next s t) : s.control ≠ .idle := by
  rcases h with ⟨fs, done⟩ | ⟨fs, stopped⟩
  · exact done.active
  · obtain ⟨reason, node, control⟩ := stopped.aborted
    simp [control]

theorem Stopped.done (h : B.Stopped fs s t) (rel : B.Rel fs s.world t.world) : B.Done fs s t := by
  obtain ⟨reason, node, control⟩ := h.aborted
  refine { h with rel, control := ?_, fits := ?_ }
  · rw [h.control, control]
    rfl
  · rw [control]
    trivial

/-- A step keeps the bond, unless the evaluation is over or its outcome is dropped. The runs may
have different hosts, as long as what they do is alike. -/
theorem Done.advanceWith (h : B.Done fs s t)
    (calls : ∀ {word this args}, s.CallsHost word this args →
      B.After host s (.next (s.applyHost host word this args))
        (.next (t.applyHost host' word this args)))
    (busy : ¬ s.Hands B.base) : B.After host s (s.advance host) (t.advance host') := by
  have active : s.control.isOutcome = true → fs ≠ [] := by
    rintro outcome rfl
    exact busy ⟨h.stack, outcome⟩
  have fits := h.fits
  have control' := h.control
  cases control : s.control with
  | eval site =>
    rw [control] at fits control'
    simp only [State.advance, control, control', Control.mapConfig]
    exact .next (h.enter none fits fun h _ => h.start fits)
  | bind target v =>
    rw [control] at fits control'
    simp only [State.advance, control, control', Control.mapConfig]
    exact .next (h.mid.bindPattern ⟨Region.whole_allows, fits, False.elim⟩ Region.whole_has)
  | apply f this args config =>
    rw [control] at fits control'
    simp only [State.advance, control, control', Control.mapConfig]
    exact h.applyFunction f this args fits fun name word properties found =>
      calls ⟨f, config, name, properties, control, found⟩
  | ret v receiver =>
    obtain ⟨f, rest, rfl⟩ := List.exists_cons_of_ne_nil (active (by rw [control]; rfl))
    rw [control] at fits control'
    have inner : f.isInner = true := h.built.1.2.2
    rw [State.advance_ret host control h.stack inner,
      State.advance_ret host' control' h.stack' (f.isInner_mapConfig B.config ▸ inner)]
    have handed := h.top.resume (v := v) inner h.bears Region.whole_has Region.whole_has
      (fun _ => fits) (fun _ _ _ _ => ⟨trivial, Region.whole_crafted⟩) fun _ _ _ _ _ => .inl trivial
    exact Handed.after handed h.stack (by rw [control]; rfl)
  | fail e =>
    obtain ⟨f, rest, rfl⟩ := List.exists_cons_of_ne_nil (active (by rw [control]; rfl))
    rw [control] at control'
    have inner : f.isInner = true := h.built.1.2.2
    rw [State.advance_fail host control h.stack inner,
      State.advance_fail host' control' h.stack' (f.isInner_mapConfig B.config ▸ inner)]
    have handed := h.top.unwind inner h.bears (e := e) ⟨Region.whole_signals, trivial, False.elim⟩
    exact Handed.after handed h.stack (by rw [control]; rfl)
  | idle =>
    rw [control] at fits
    exact fits.elim

theorem Done.advance (h : B.Done fs s t) (shared : B.Shared) (fair : B.Fair host)
    (prompt : s.Prompt host (B.allowed .plain ∧ B.config .plain = .plain))
    (busy : ¬ s.Hands B.base) : B.After host s (s.advance host) (t.advance host) :=
  h.advanceWith (fun made => h.applyHost shared fair made prompt) busy

end Bond

end EcmaMachine
