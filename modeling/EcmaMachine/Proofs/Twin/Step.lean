import EcmaMachine.Proofs.Run

/-!
Twins step alike and run alike, together with those who take what they deliver. Host functions have
to take the names of trees as names and nothing more.
-/

namespace EcmaMachine

variable {η : Type}

/-! ## Calls -/

def HostStep.mapTree (g : TreeId → TreeId) (step : HostStep η) : HostStep η :=
  { step with store := step.store.mapTree g }

/-- Host functions that take functions alike, whichever trees they come from. -/
def Host.IgnoresTrees (host : Host η) : Prop :=
  ∀ g word this args ticket store kept,
    host.call word this args ticket (store.mapTree g) kept =
      (host.call word this args ticket store kept).mapTree g

def State.Distinct (g : TreeId → TreeId) (s : State η) : Prop :=
  ∀ site, s.control = .eval site → site.Distinct g s.store

inductive Progress.Twins (g : TreeId → TreeId) : Progress η → Progress η → Prop
  | next {s t : State η} : Twin g s t → Twins g (.next s) (.next t)
  | delivered {s t : State η} (id : Nat) (o : Outcome) : Twin g s t →
    Twins g (.delivered id o s) (.delivered id o t)
  | rest {s t : State η} : Twin g s t → Twins g (.rest s) (.rest t)

namespace Twin

variable {g : TreeId → TreeId} {s t : State η} {host : Host η}

def conduct (g : TreeId → TreeId) : Conduct η where
  region := .whole
  lens := ⟨g, false⟩
  config := id
  admits _ := True
  tracks := False
  may _ := True
  crafts := True
  rewires := True
  lexicon := .free
  lawful := False
  references _ := by simp
  plain _ := trivial
  crafty _ := trivial
  Mid _ _ σ s t := s.store = σ ∧ Twin g s t
  Next _ := Twin g
  Top _ _ σ s t := s.store = σ ∧ Twin g s t
  Given _ _ _ := Twin g
  keeps _ := trivial
  store_eq h := h.1
  look_eq h := h.1 ▸ h.2.store
  stack_eq _ := False.elim
  top_eq h := ⟨trivial, h.1, h.1 ▸ h.2.store⟩
  write h _ := ⟨rfl, h.2.withStore _⟩
  push h _ _ := ⟨h.1, h.2.push _⟩
  pushCell h _ _ := ⟨h.1, h.2.pushCell _⟩
  newCell h := ⟨h.1, h.2.newCell⟩
  become control h _ := by cases control <;> exact h.2.become _
  enter h _ inside := h.2.enter _ _ fun h' same => inside ⟨same.trans h.1, h'⟩
  pop h _ := ⟨h.1, h.2.pop⟩
  leave o h _ := ⟨(World.tell_store _ _ _ _).trans h.1, h.2.pop.leave _ _ o⟩
  swap h _ _ := ⟨h.1, h.2.pop.push _⟩
  given _ _ _ next := next
  swapped _ _ _ next := next
  once h _ inside _ := h.2.pop.once _ fun h' same => inside ⟨same.trans h.1, h'⟩

theorem mid (h : Twin g s t) : (conduct g).Mid s [] s.store s t := ⟨rfl, h⟩

theorem top (h : Twin g s t) (f : Frame) : (conduct g).Top f [] s.store s t := ⟨rfl, h⟩

theorem bears (s : Store) (fs : List Frame) (f : Frame) :
    (conduct (η := η) g).Bears s fs f :=
  ⟨Region.whole_carries f, fun _ _ => trivial, nofun, Terms.calm_of_crafts trivial f,
    False.elim⟩

variable (h : Twin g s t)
include h

theorem resume {f : Frame} (inner : f.isInner = true) (v receiver : Value) :
    Twin g (s.pop.resume v receiver f) (t.pop.resume v receiver (f.mapTree g)) :=
  (h.top f).resume inner (bears _ _ _) Region.whole_has Region.whole_has nofun
    (fun _ _ _ _ => ⟨trivial, Region.whole_crafted⟩) fun _ _ _ _ _ => .inl trivial

theorem unwind {f : Frame} (inner : f.isInner = true) (e : Exception) :
    Twin g (s.pop.unwind e f) (t.pop.unwind e (f.mapTree g)) :=
  (h.top f).unwind inner (bears _ _ _) ⟨Region.whole_signals, trivial, False.elim⟩

theorem applyHost (blind : host.IgnoresTrees) (word : String) (this : Value) (args : List Value) :
    Twin g (s.applyHost host word this args) (t.applyHost host word this args) := by
  obtain ⟨rfl, watched⟩ := h
  have size : (s.mapTree g).world.held.size = s.world.held.size := by
    simp [State.mapTree, World.mapTree]
  have called : host.call word this args s.world.held.size (s.mapTree g).store
      (s.mapTree g).world.host =
      (host.call word this args s.world.held.size s.store s.world.host).mapTree g :=
    blind g word this args s.world.held.size s.store s.world.host
  simp only [State.applyHost, size, called, HostStep.mapTree]
  generalize host.call word this args s.world.held.size s.store s.world.host = step
  obtain ⟨reply, store, log, kept⟩ := step
  have after : Twin g
      { s with world := { s.world with store, host := kept, log := s.world.log ++ log } }
      { s.mapTree g with world := { (s.mapTree g).world with
        store := store.mapTree g, host := kept, log := s.world.log ++ log } } := ⟨rfl, watched⟩
  cases reply with
  | value v => exact after.give v
  | failure e => exact after.fail e
  | call f this args => exact after.become (.apply f this args .plain)
  | hold answers =>
    refine ⟨?_, watched⟩
    simp [State.mapTree, World.mapTree, Control.mapTree, Held.mapTree]

theorem accepts (ticket : Nat) (o : Outcome) : t.accepts ticket o = s.accepts ticket o := by
  obtain ⟨rfl, -⟩ := h
  cases o <;> simp only [State.accepts, State.mapTree, World.mapTree, Array.getElem?_map,
    Option.any_map] <;> rfl

theorem answer (ticket : Nat) (o : Outcome) : Twin g (s.answer ticket o) (t.answer ticket o) := by
  simp only [State.answer, h.accepts]
  split
  · obtain ⟨rfl, watched⟩ := h
    have stack : (((s.mapTree g).world.held[ticket]?.map (·.stack)).getD []) =
        ((s.world.held[ticket]?.map (·.stack)).getD []).map (Frame.mapTree g) := by
      simp only [State.mapTree, World.mapTree, Array.getElem?_map]
      cases s.world.held[ticket]? <;> rfl
    have held : ∀ used : Held → Held, (∀ x, used (x.mapTree g) = (used x).mapTree g) →
        (s.mapTree g).world.held.modify ticket used =
          (s.world.held.modify ticket used).map (Held.mapTree g) :=
      fun used keeps => modify_map s.world.held ticket keeps
    rw [stack, held _ fun _ => by cases o <;> rfl]
    refine finish ?_ o
    exact ⟨rfl, watched⟩
  · exact h

/-! ## Steps -/

theorem applyFunction (blind : host.IgnoresTrees) (f : FunctionId) (this : Value)
    (args : List Value) (config : Config) :
    (s.applyFunction host f this args config).Twins g
      (t.applyFunction host f this args config) := by
  have same : t.store.function? f = (s.store.function? f).map (Function.mapTree g) := by
    rw [h.store]
    exact s.store.function?_look ⟨g, false⟩ f
  simp only [State.applyFunction, same]
  cases s.store.function? f with
  | none => exact .next (h.give _)
  | some function =>
    obtain ⟨callable, properties⟩ := function
    cases callable with
    | closure c =>
      exact .next (h.mid.applyClosure c trivial Region.whole_has
        (fun _ _ => Region.whole_has) config trivial False.elim False.elim)
    | host name word => exact .next (h.applyHost blind word this args)
    | answer recipient cell throws =>
      obtain ⟨rfl, watched⟩ := h
      simp only [Option.map_some, Function.mapTree, Callable.mapTree]
      have same : ((s.mapTree g).give .undefined).world.isAnswered cell =
        (s.give .undefined).world.isAnswered cell := rfl
      rw [same]
      split
      · exact .next ⟨rfl, watched⟩
      · exact .delivered _ _ ⟨rfl, watched⟩

theorem advance (blind : host.IgnoresTrees) (distinct : s.Distinct g) :
    (s.advance host).Twins g (t.advance host) := by
  have control' : t.control = s.control.mapTree g := by rw [h.same]; rfl
  have stack' : t.stack = s.stack.map (Frame.mapTree g) := by rw [h.same]; rfl
  have agenda' : t.agenda = s.agenda := by rw [h.same]; rfl
  have delivers {id : Nat} {below : List Frame} (outcome : s.control.isOutcome = true)
      (same : t.control = s.control) (stack : s.stack = .deliver id :: below) :
      (s.advance host).Twins g (t.advance host) := by
    obtain ⟨o, delivered⟩ := State.exists_delivered outcome
    rw [stack] at stack'
    rw [delivered host rfl stack, delivered host same stack']
    exact .delivered id o h.pop.rest
  cases control : s.control with
  | eval site =>
    simp only [State.advance, control', control, Control.mapTree]
    refine .next (h.enter site none fun h same => h.mid.start (r := .closed)
      ⟨Region.whole_allows, trivial, False.elim⟩ False.elim ?_ fun _ => trivial)
    rw [same]
    exact distinct site control
  | bind target v =>
    simp only [State.advance, control', control, Control.mapTree]
    exact .next (h.mid.bindPattern ⟨Region.whole_allows, trivial, False.elim⟩ Region.whole_has)
  | apply f this args config =>
    simp only [State.advance, control', control, Control.mapTree]
    exact h.applyFunction blind f this args config
  | ret v receiver =>
    rw [control] at control'
    rcases stack : s.stack with _ | ⟨f, rest⟩ <;> rw [stack] at stack'
    · simp only [State.advance, control', stack', control, stack, Control.mapTree, List.map_nil]
      exact .next h.rest
    · cases f with
      | deliver => exact delivers (by rw [control]; rfl) (control'.trans control.symm) stack
      | _ =>
        rw [State.advance_ret host control stack rfl, State.advance_ret host control' stack' rfl]
        exact .next (h.resume rfl v receiver)
  | fail e =>
    rw [control] at control'
    rcases stack : s.stack with _ | ⟨f, rest⟩ <;> rw [stack] at stack'
    · simp only [State.advance, control', stack', control, stack, Control.mapTree, List.map_nil]
      exact .next h.rest
    · cases f with
      | deliver => exact delivers (by rw [control]; rfl) (control'.trans control.symm) stack
      | _ =>
        rw [State.advance_fail host control stack rfl, State.advance_fail host control' stack' rfl]
        exact .next (h.unwind rfl e)
  | idle =>
    simp only [State.advance, control', agenda', control, Control.mapTree]
    cases s.agenda with
    | nil => exact .rest h
    | cons first agenda =>
      obtain ⟨ticket, o⟩ := first
      obtain ⟨rfl, watched⟩ := h
      refine .next (answer ?_ ticket o)
      exact ⟨rfl, watched⟩

end Twin

/-! ## Those who take an outcome -/

def Delivery.mapTree (g : TreeId → TreeId) (d : Delivery) : Delivery :=
  { d with store := d.store.mapTree g }

namespace Ledger

def mapTree (g : TreeId → TreeId) (l : Ledger) : Ledger :=
  { l with deliveries := l.deliveries.map (Delivery.mapTree g) }

theorem receive_mapTree (g : TreeId → TreeId) (l : Ledger) (w : World η) (recipient : Recipient)
    (o : Outcome) :
    (l.mapTree g).receive (w.mapTree g) recipient o =
      ((l.receive w recipient o).1.mapTree g, (l.receive w recipient o).2.mapTree g) := by
  obtain ⟨store, log, world, seen⟩ := l.exists_receives w recipient o
  rw [world]
  exact seen ⟨g, false⟩ (w.mapTree g) rfl

/-! ## Runs -/

def keeping (g : TreeId → TreeId) (context : Nat) (cache : Option ParseCache) (l : Ledger) :
    Ledger :=
  (l.mapTree g).setCache context cache

section

variable (l : Ledger) (context : Nat) (cache : Option ParseCache)

theorem getElem?_contexts_setCache (i : Nat) : (l.setCache context cache).contexts[i]? =
    l.contexts[i]?.map fun c => if context = i then { c with cache } else c := by
  simp only [setCache, Array.getElem?_modify]
  cases l.contexts[i]? <;> split <;> rfl

theorem setCache_setCache (cache' : Option ParseCache) :
    (l.setCache context cache).setCache context cache' = l.setCache context cache' := by
  simp only [setCache, Ledger.mk.injEq, and_true]
  ext i <;> simp [Array.getElem_modify]
  split <;> rfl

theorem setRegistry_setCache (i : Nat) (registry : Registry) :
    (l.setCache context cache).setRegistry i registry =
      (l.setRegistry i registry).setCache context cache := by
  simp only [setCache, setRegistry, Ledger.mk.injEq, and_true]
  ext j <;> simp [Array.getElem_modify]
  split <;> split <;> rfl

/-- Whoever takes an outcome leaves the caches alone. -/
theorem receive_setCache (w : World η) (recipient : Recipient) (o : Outcome) :
    (l.setCache context cache).receive w recipient o =
      ((l.receive w recipient o).1.setCache context cache, (l.receive w recipient o).2) := by
  cases recipient with
  | caller tag => rfl
  | defaults => rfl
  | handler onError => cases o <;> cases onError <;> rfl
  | reply i scopes tag =>
    simp only [receive, context?, getElem?_contexts_setCache]
    cases l.contexts[i]? with
    | none => rfl
    | some c =>
      have registry : (if context = i then { c with cache } else c).registry = c.registry := by
        split <;> rfl
      simp only [Option.map_some, registry, setRegistry_setCache]
      generalize replyTo w.store c.registry scopes o = made
      have replies : ((l.setRegistry i made.2.1).setCache context cache).replies =
        (l.setRegistry i made.2.1).replies := rfl
      rw [replies]
      split <;> rfl

end

theorem receive_keeping (g : TreeId → TreeId) (context : Nat) (cache : Option ParseCache)
    (l : Ledger) (w : World η) (recipient : Recipient) (o : Outcome) :
    (l.keeping g context cache).receive (w.mapTree g) recipient o =
      ((l.receive w recipient o).1.keeping g context cache,
        (l.receive w recipient o).2.mapTree g) := by
  simp only [keeping, receive_setCache, receive_mapTree]

/-- What stays as it is when an outcome is taken, stays as it is in a run. -/
theorem settle_same {α : Type} {f : Ledger → α}
    (same : ∀ (l : Ledger) (w : World η) recipient o, f (l.receive w recipient o).1 = f l)
    (host : Host η) (fuel : Nat) (l : Ledger) (s : State η) :
    f (l.settle host fuel s).1 = f l := by
  induction fuel generalizing l s with
  | zero => rfl
  | succ fuel ih =>
    unfold settle
    split
    · exact ih l _
    · rfl
    · split
      · exact ih l _
      · exact (ih _ _).trans (same l _ _ _)

def caches (l : Ledger) : Array (Option ParseCache) := l.contexts.map Context.cache

theorem caches_receive (l : Ledger) (w : World η) (recipient : Recipient) (o : Outcome) :
    (l.receive w recipient o).1.caches = l.caches := by
  have registered : ∀ i registry, (l.setRegistry i registry).caches = l.caches := by
    intro i registry
    simp only [caches, setRegistry]
    ext j <;> simp [Array.getElem_modify]
    split <;> rfl
  unfold receive
  split
  · rfl
  · rfl
  · split
    · rfl
    · simp only
      split <;> exact registered _ _
  · rfl

/-- Whoever takes an outcome leaves the observers alone. -/
theorem observers_receive (l : Ledger) (w : World η) (recipient : Recipient) (o : Outcome) :
    (l.receive w recipient o).2.observers = w.observers := by
  obtain ⟨store, log, world, -⟩ := l.exists_receives w recipient o
  rw [world]

variable {g : TreeId → TreeId} {host : Host η} {s t : State η}

theorem take_keeping (h : Twin g s t) (context : Nat) (cache : Option ParseCache) (l : Ledger)
    (id : Nat) (o : Outcome) : ∃ t', (l.keeping g context cache).take id o t =
      ((l.take id o s).1.keeping g context cache, t') ∧ Twin g (l.take id o s).2 t' := by
  obtain ⟨rfl, watched⟩ := h
  have same : (l.keeping g context cache).recipients = l.recipients := rfl
  simp only [take, same]
  cases l.recipients[id]? with
  | none => exact ⟨_, rfl, rfl, watched⟩
  | some recipient =>
    have received := receive_keeping g context cache l s.world recipient o
    have world : (s.mapTree g).world = s.world.mapTree g := rfl
    simp only [world, received]
    refine ⟨_, rfl, rfl, ?_⟩
    have observers := l.observers_receive s.world recipient o
    intro watcher mem
    simp only at mem
    rw [observers] at mem
    exact watched watcher mem

/-- A twin runs as the first one does, with any cache, and leaves a twin of what that leaves. -/
theorem settle_keeping (blind : host.IgnoresTrees) (context : Nat) (cache : Option ParseCache)
    {fuel : Nat} {l : Ledger} (h : Twin g s t)
    (distinct : ∀ n < fuel, ∀ l' s', l.after host n s = some (l', s') → s'.Distinct g) :
    (l.keeping g context cache).settle host fuel t =
      ((l.settle host fuel s).1.keeping g context cache, (l.settle host fuel s).2.mapTree g) ∧
    (l.settle host fuel s).2.IgnoresTrees := by
  induction fuel generalizing l s t with
  | zero =>
    obtain ⟨rfl, watched⟩ := h
    exact ⟨rfl, watched⟩
  | succ fuel ih =>
    have advanced := h.advance blind (distinct 0 (Nat.succ_pos fuel) l s rfl)
    cases stepped : l.step host s with
    | none =>
      have rests : (l.keeping g context cache).step host t = none := by
        unfold step at stepped ⊢
        generalize s.advance host = a, t.advance host = b at advanced stepped
        cases advanced with
        | rest => rfl
        | _ => cases stepped
      rw [settle_of_rest stepped, settle_of_rest rests]
      obtain ⟨rfl, watched⟩ := h
      exact ⟨rfl, watched⟩
    | some next =>
      obtain ⟨l', s'⟩ := next
      obtain ⟨t', stepped', twin⟩ : ∃ t', (l.keeping g context cache).step host t =
          some (l'.keeping g context cache, t') ∧ Twin g s' t' := by
        unfold step at stepped ⊢
        generalize s.advance host = a, t.advance host = b at advanced stepped
        cases advanced with
        | next twin =>
          cases stepped
          exact ⟨_, rfl, twin⟩
        | rest => cases stepped
        | delivered id o twin =>
          obtain ⟨t', taken, twin⟩ := take_keeping twin context cache l id o
          rw [Option.some.inj stepped] at taken twin
          exact ⟨t', congrArg some taken, twin⟩
      rw [settle_of_step stepped, settle_of_step stepped']
      refine ih twin fun n lt l'' s'' reached => distinct (n + 1) (Nat.succ_lt_succ lt) l'' s'' ?_
      rw [after_succ stepped, reached]

end Ledger

end EcmaMachine
