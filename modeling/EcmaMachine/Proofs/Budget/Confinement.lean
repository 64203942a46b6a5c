import EcmaMachine.Proofs.Budget.Kept
import EcmaMachine.Proofs.Run

/-!
A step budget confines an evaluation. Until the limit is exceeded, the machine comes closer to its
next node or to its end with every step. From then on the failure can only be unwound: a finalizer
on the way is refused like any other node.
-/

namespace EcmaMachine

variable {η : Type}

/-! ## Aborted evaluations -/

def Exception.Aborted (e : Exception) : Prop := ∃ reason, e.signal = .aborted reason

def Outcome.Aborted (o : Outcome) : Prop := ∃ e : Exception, o = .failure e ∧ e.Aborted

theorem Exception.Aborted.located {e : Exception} (h : e.Aborted) (n : Node) :
    (e.located n).Aborted := by
  rwa [Aborted, e.signal_located n]

namespace State

/-- The machine is about to unwind an abort, or to try a finalizer. -/
def Doomed (s : State η) : Prop := (∃ e, s.control = .fail e ∧ e.Aborted) ∨ s.control.isEval = true

structure Unwinds (s : State η) (c : Nat) (s' : State η) : Prop where
  doomed : s'.Doomed
  store : s'.world.store = s.world.store
  host : s'.world.host = s.world.host
  cost : s'.cost ≤ stackCost s.stack + c

theorem Doomed.aborted {k : List Frame} {agenda : Agenda} {w : World η} {o : Outcome}
    (h : ((⟨.idle, k, agenda, w⟩ : State η).finish o).Doomed) : o.Aborted := by
  cases o with
  | value v =>
    rcases h with ⟨e, control, _⟩ | eval
    · cases control
    · cases eval
  | failure e =>
    rcases h with ⟨e', control, aborted⟩ | eval
    · cases control
      exact ⟨e, rfl, aborted⟩
    · cases eval

variable {s : State η} {e : Exception}

theorem unwinds_fail (aborted : e.Aborted) {s' : State η} (stack : s'.stack = s.stack)
    (store : s'.world.store = s.world.store) (host : s'.world.host = s.world.host) :
    s.Unwinds 0 (s'.fail e) where
  doomed := .inl ⟨e, rfl, aborted⟩
  store := store
  host := host
  cost := by simp [State.cost, State.fail, State.become, Control.cost, stack]

theorem unwinds_enter_refused {site : Site} {slot : Option Slot} {reason : String}
    (work : State η → State η) (refusal : (s.world.tell site slot .enter).1 = some reason) :
    s.Unwinds 0 (s.enter site slot work) := by
  rw [enter_of_some work refusal]
  exact unwinds_fail ⟨reason, rfl⟩ rfl (by simp [leave_eq]) (by simp [leave_eq])

theorem unwinds_visit (s : State η) (site : Site) (slot : Slot) (child : Node) :
    s.Unwinds 2 (s.visit site slot child) := by
  cases told : (s.world.tell site (some slot) .enter).1 with
  | none =>
    rw [visit, enter_of_none _ told]
    refine ⟨.inr rfl, by simp [State.eval, State.become, State.push],
      by simp [State.eval, State.become, State.push], ?_⟩
    simp [State.cost, State.eval, State.become, State.push, Control.cost, Frame.cost]
    omega
  | some reason =>
    have refused := unwinds_enter_refused (fun s => s.eval (site.part (.slot slot) child)) told
    exact { refused with cost := Nat.le_trans refused.cost (Nat.le_add_right _ 2) }

theorem unwinds_finishTry (aborted : e.Aborted) (site : Site) {cell : Cell}
    (unspent : s.world.isSpent cell = false) (finalizer : Option Node) :
    s.Unwinds 4 (s.finishTry site cell finalizer (.failure e)) := by
  simp only [finishTry, unspent, Bool.false_eq_true, if_false]
  cases finalizer with
  | none =>
    have fails : s.Unwinds 0 (({ s with world := s.world.spend cell } : State η).fail e) :=
      unwinds_fail aborted rfl rfl rfl
    exact { fails with cost := Nat.le_trans fails.cost (Nat.le_add_right _ 4) }
  | some node =>
    have visits := unwinds_visit
      ((({ s with world := s.world.spend cell } : State η).pushCell .guard).push
        (.finalizer (.failure e))) site .finalizer node
    refine ⟨visits.doomed, visits.store, visits.host, Nat.le_trans visits.cost ?_⟩
    simp [State.push, State.pushCell, Frame.cost]
    omega

/-- Nothing takes up an abort. -/
theorem unwinds_unwind (aborted : e.Aborted) {f : Frame} (inner : f.isInner = true)
    (unspent : ∀ cell, f.cell? = some cell → s.world.isSpent cell = false) :
    ∃ c < f.cost, s.Unwinds c (s.unwind e f) := by
  have passes : ∃ c < f.cost, s.Unwinds c (s.fail e) :=
    ⟨0, f.cost_pos, unwinds_fail aborted rfl rfl rfl⟩
  obtain ⟨reason, signal⟩ := id aborted
  cases f with
  | exit site slot =>
    cases slot with
    | none =>
      exact ⟨0, Nat.one_pos, unwinds_fail (aborted.located _) rfl (by simp [leave_eq])
        (by simp [leave_eq])⟩
    | some slot =>
      exact ⟨0, Nat.one_pos, unwinds_fail aborted rfl (by simp [leave_eq]) (by simp [leave_eq])⟩
  | guard cell =>
    simp only [unwind, failOnce, unspent cell rfl, Bool.false_eq_true, if_false]
    exact ⟨0, Nat.one_pos, unwinds_fail aborted rfl rfl rfl⟩
  | body cell | program cell | round site cell next =>
    simp only [unwind, signal]
    exact passes
  | tryBlock site cell handler finalizer =>
    have uncaught : e.caught? s.store = none := by simp [Exception.caught?, signal, Signal.caught?]
    simp only [unwind, handle, uncaught]
    exact ⟨4, by simp [Frame.cost], unwinds_finishTry aborted site (unspent cell rfl) finalizer⟩
  | tryHandler site cell finalizer =>
    exact ⟨4, by simp [Frame.cost], unwinds_finishTry aborted site (unspent cell rfl) finalizer⟩
  | deliver => cases inner
  | _ => exact passes

end State

/-! ## Runs -/

namespace Budget

abbrev calm (b : Budget) (start : World η) (k : List Frame) (m : Nat) : Invariant η :=
  .budgeted b start k m True

abbrev beyond (b : Budget) (start : World η) (k : List Frame) : Invariant η :=
  .budgeted b start k (b.limit + 1) False

/-- What is true of a state on the way to the outcome `o` in the world `w'`: whoever stands behind
the budget has seen no more nodes than the limit, and once the limit is exceeded nothing is done
any more but to unwind an abort. -/
structure Sound (b : Budget) (start : World η) (l : Ledger) (s : State η) (l' : Ledger)
    (o : Outcome) (w' : World η) : Prop where
  seen : ∀ spy ∈ b.others, ∀ o, start.observers[spy]? = some o → o.Records →
    ∃ o', s.world.observers[spy]? = some o' ∧ o'.entered ≤ o.entered + b.limit
  exceeded : b.limit < s.attempts b.id →
    s.Doomed ∧ o.Aborted ∧ l' = l ∧ w'.store = s.world.store ∧ w'.host = s.world.host

/-- In `n` steps the evaluation hands its outcome to the frames `k`. -/
structure Ends (b : Budget) (host : Host η) (start : World η) (k : List Frame) (l : Ledger)
    (s : State η) (n : Nat) (l' : Ledger) (o : Outcome) (w' : World η) : Prop where
  handed : l.after host n s = some (l', (⟨.idle, k, [], w'⟩ : State η).finish o)
  sound : ∀ i ≤ n, ∀ l₁ s₁, l.after host i s = some (l₁, s₁) → b.Sound start l₁ s₁ l' o w'

variable {b : Budget} {host : Host η} {start w' : World η} {k : List Frame} {l l' l₁ : Ledger}
  {s s' s₁ : State η} {fs : List Frame} {n m : Nat} {o : Outcome}

theorem Ends.here (final : s = (⟨.idle, k, [], s.world⟩ : State η).finish o)
    (here : b.Sound start l s l o s.world) : b.Ends host start k l s 0 l o s.world where
  handed := by rw [← final, Ledger.after]
  sound := by
    intro i le l₁ s₁ reached
    cases Nat.le_zero.1 le
    cases reached
    exact here

theorem Ends.step (h : b.Ends host start k l₁ s₁ n l' o w')
    (stepped : l.step host s = some (l₁, s₁)) (here : b.Sound start l s l' o w') :
    b.Ends host start k l s (n + 1) l' o w' where
  handed := (Ledger.after_succ stepped n).trans h.handed
  sound := by
    intro i le l₂ s₂ reached
    cases i with
    | zero =>
      cases reached
      exact here
    | succ i =>
      exact h.sound i (Nat.le_of_succ_le_succ le) l₂ s₂
        ((Ledger.after_succ stepped i).symm.trans reached)

theorem Kept.sound_seen {w : World η} (h : b.Kept start fs w) : ∀ spy ∈ b.others, ∀ o,
    start.observers[spy]? = some o → o.Records →
    ∃ o', w.observers[spy]? = some o' ∧ o'.entered ≤ o.entered + b.limit := by
  intro spy mem o watched records
  obtain ⟨o', found, _, le⟩ := h.seen spy mem o watched records
  exact ⟨o', found, Nat.le_trans le (Nat.add_le_add_left (Nat.min_le_right _ _) _)⟩

theorem Kept.sound (h : b.Kept start fs s.world) (allowed : s.attempts b.id ≤ b.limit) :
    b.Sound start l s l' o w' :=
  ⟨h.sound_seen, fun exceeded => absurd exceeded (Nat.not_lt.2 allowed)⟩

/-! ### Beyond the limit -/

theorem at_beyond {calm : Prop} (h : (Invariant.budgeted b start k m calm).StopsAt fs s) :
    (b.beyond start k).At fs s := by
  obtain ⟨reason, node, control⟩ := h.aborted
  refine ⟨h.stack, h.agenda, h.built, ?_, h.refused.1, h.refused.2.2, False.elim⟩
  rw [control]
  trivial

theorem doomed_step (prompt : s.Prompt host False) (h : (b.beyond start k).At fs s)
    (doomed : s.Doomed) (busy : ¬ s.Hands k) :
    ∃ s₁ fs₁, s.advance host = .next s₁ ∧ (b.beyond start k).At fs₁ s₁ ∧ s₁.Doomed ∧
      s₁.world.store = s.world.store ∧ s₁.world.host = s.world.host ∧ s₁.cost < s.cost := by
  obtain ⟨kept, reached, _⟩ := h.holds
  have goesOn : ∀ s₁, s.advance host = .next s₁ →
      (∀ f this args config, s.control ≠ .apply f this args config) →
      ∃ fs₁, (b.beyond start k).At fs₁ s₁ := by
    intro s₁ advance idle
    rcases h.moves (prompt.mono False.elim) busy kept.intact.unspent advance idle with at₁ | ⟨fs₁, stops⟩
    · exact at₁
    · exact ⟨fs₁, at_beyond stops⟩
  rcases doomed with ⟨e, control, aborted⟩ | eval
  · cases fs with
    | nil => exact absurd ⟨h.stack, by rw [control]; rfl⟩ busy
    | cons f rest =>
      have advance := State.advance_fail host control h.stack h.built.1.2.2
      obtain ⟨fs₁, at₁⟩ := goesOn _ advance (by simp [control])
      obtain ⟨c, less, unwinds⟩ := State.unwinds_unwind (s := s.pop) aborted h.built.1.2.2
        fun cell own =>
          kept.intact.unspent cell (Frame.mem_cells List.mem_cons_self own)
      refine ⟨_, fs₁, advance, at₁, unwinds.doomed, unwinds.store, unwinds.host, ?_⟩
      calc (s.pop.unwind e f).cost ≤ stackCost s.pop.stack + c := unwinds.cost
        _ < stackCost s.pop.stack + f.cost := Nat.add_lt_add_left less _
        _ = stackCost s.stack := by simp [State.pop, h.stack, Nat.add_comm]
        _ ≤ s.cost := Nat.le_add_left _ _
  · cases control : s.control with
    | eval site =>
      have own : site.config = b.config := by
        have fits := h.fits
        rwa [control] at fits
      have advance : s.advance host = .next (s.enter site none fun s => s.start site) := by
        simp only [State.advance, control]
      obtain ⟨fs₁, at₁⟩ := goesOn _ advance (by simp [control])
      cases refusal : (s.world.tell site none .enter).1 with
      | none =>
        have room := (kept.tell_enter own none).1 refusal rfl
        omega
      | some reason =>
        have unwinds := State.unwinds_enter_refused (fun s => s.start site) refusal
        refine ⟨_, fs₁, advance, at₁, unwinds.doomed, unwinds.store, unwinds.host, ?_⟩
        refine Nat.lt_of_le_of_lt unwinds.cost ?_
        simp [State.cost, control, Control.cost]
    | _ => simp [control, Control.isEval] at eval

theorem step_of_next (advance : s.advance host = .next s₁) (l : Ledger) :
    l.step host s = some (l, s₁) := by
  simp only [Ledger.step, advance]

/-- An aborted evaluation is unwound to its end, whatever waits on the way. -/
theorem exists_ends_of_doomed (prompt : ∀ s : State η, s.Prompt host False)
    (h : (b.beyond start k).At fs s) (doomed : s.Doomed) (l : Ledger) :
    ∃ n o w', b.Ends host start k l s n l o w' ∧ o.Aborted ∧ w'.store = s.world.store ∧
      w'.host = s.world.host := by
  induction c : s.cost using Nat.strongRecOn generalizing fs s with
  | ind c ih =>
    by_cases hands : s.Hands k
    · obtain ⟨o, final⟩ := h.exists_finish hands
      have aborted : o.Aborted := (final ▸ doomed).aborted
      have here : b.Sound start l s l o s.world :=
        ⟨h.holds.1.sound_seen, fun _ => ⟨doomed, aborted, rfl, rfl, rfl⟩⟩
      exact ⟨0, o, s.world, .here final here, aborted, rfl, rfl⟩
    · obtain ⟨s₁, fs₁, advance, at₁, doomed₁, store, host, less⟩ :=
        doomed_step (prompt s) h doomed hands
      obtain ⟨n, o, w', ends, aborted, store', host'⟩ := ih _ (c ▸ less) at₁ doomed₁ rfl
      refine ⟨n + 1, o, w', ends.step (step_of_next advance l) ⟨h.holds.1.sound_seen, fun _ => ?_⟩,
        aborted, store'.trans store, host'.trans host⟩
      exact ⟨doomed, aborted, rfl, store'.trans store, host'.trans host⟩

/-! ### Within the limit -/

/-- How far it is to the node that would exceed the limit; half a node closer when the next one is
about to be entered. -/
def distance (b : Budget) (s : State η) : Nat :=
  2 * (b.limit + 1 - s.world.steps b.id) - if s.control.isEval then 1 else 0

noncomputable def rank (b : Budget) (s : State η) : Nat × Nat × Nat :=
  (b.distance s, s.calls, s.cost)

def Closer (b : Budget) (s s' : State η) : Prop :=
  Prod.Lex (· < ·) (Prod.Lex (· < ·) (· < ·)) (b.rank s') (b.rank s)

theorem closer_of_steps (more : s.world.steps b.id < s'.world.steps b.id)
    (limit : s'.world.steps b.id ≤ b.limit) : b.Closer s s' := by
  refine .left _ _ ?_
  simp only [distance]
  split <;> split <;> omega

theorem closer_of_falls (falls : s.Falls s') (eval : s.control.isEval = false)
    (more : s.world.steps b.id ≤ s'.world.steps b.id) (limit : s'.world.steps b.id ≤ b.limit) :
    b.Closer s s' := by
  have distance : b.distance s = 2 * (b.limit + 1 - s.world.steps b.id) := by
    simp [distance, eval]
  by_cases eval' : s'.control.isEval = true
  · refine .left _ _ ?_
    rw [distance, Budget.distance, if_pos eval']
    omega
  · have nearer : b.distance s' ≤ b.distance s := by
      rw [distance, Budget.distance, if_neg eval']
      omega
    have lighter : Prod.Lex (· < ·) (· < ·) (s'.calls, s'.cost) (s.calls, s.cost) := by
      rcases falls.resolve_left eval' with calls | ⟨calls, cost⟩
      · exact .left _ _ calls
      · exact Prod.Lex.right' _ calls cost
    exact Prod.Lex.right' _ nearer lighter

theorem Kept.opens (h : b.Kept start fs s.world) : s.Opens b.config :=
  fun _ _ slot observers own => ((h.bare observers).tell_enter own (some slot)).2 (by simp)

theorem at_now (h : (b.calm start k m).At fs s) : (b.calm start k (s.world.steps b.id)).At fs s :=
  ⟨h.stack, h.agenda, h.built, h.fits, h.holds.1, Nat.le_refl _, h.holds.2.2⟩

theorem at_zero (h : (b.calm start k m).At fs s) : (b.calm start k 0).At fs s :=
  ⟨h.stack, h.agenda, h.built, h.fits, h.holds.1, Nat.zero_le _, h.holds.2.2⟩

theorem stopsAt_zero (h : (b.calm start k m).StopsAt fs s) : (b.calm start k 0).StopsAt fs s :=
  ⟨h.stack, h.agenda, h.built, h.aborted, h.refused.1, Nat.zero_le _, h.refused.2.2⟩

def Lasts (b : Budget) (s s' : State η) : Prop :=
  b.limit < s.attempts b.id → s'.world.store = s.world.store ∧ s'.world.host = s.world.host

/-- The machine enters the node that it is about to evaluate, or the budget refuses it. -/
theorem calm_step_eval {site : Site} (h : (b.calm start k m).At fs s)
    (control : s.control = .eval site) :
    ∃ s₁, s.advance host = .next s₁ ∧
      ((∃ fs₁, (b.calm start k (s.world.steps b.id + 1)).At fs₁ s₁) ∨
        ∃ fs₁, (b.calm start k 0).StopsAt fs₁ s₁ ∧ b.Lasts s s₁) := by
  obtain ⟨kept, reached, limit⟩ := h.holds
  have own : site.config = b.config := by
    have fits := h.fits
    rwa [control] at fits
  refine ⟨s.enter site none fun s => s.start site, by simp only [State.advance, control], ?_⟩
  cases told : (s.world.tell site none .enter).1 with
  | none =>
    rw [State.enter_of_none _ told]
    have entered := (b.calm start k 0).entered ⟨kept, Nat.zero_le _, limit⟩ own told
    have steps := kept.steps_enter own none
    have allowed : (b.calm start k (s.world.steps b.id + 1)).allowed site.config := own
    have inside : (b.calm start k (s.world.steps b.id + 1)).At (.exit site none :: fs)
        (({ s with world := (s.world.tell site none .enter).2 } : State η).push
          (.exit site none)) := {
      stack := congrArg (Frame.exit site none :: ·) h.stack
      agenda := h.agenda
      built := ⟨.ofSites (List.forall_mem_singleton.2 allowed) rfl rfl, h.built⟩
      fits := by
        simp only [State.push, control]
        exact allowed
      holds := ⟨entered.1, Nat.le_of_eq steps.symm, entered.2.2⟩ }
    rcases Invariant.ofNext (inside.half.start allowed) with at₁ | ⟨fs₁, stops⟩
    · exact .inl at₁
    · have room : s.world.steps b.id + 1 ≤ b.limit := (kept.tell_enter own none).1 told rfl
      refine .inr ⟨fs₁, stopsAt_zero stops, fun exceeded => ?_⟩
      simp only [State.attempts, control, Control.isEval, if_true] at exceeded
      exact absurd exceeded (Nat.not_lt.2 room)
  | some reason =>
    have unwinds := State.unwinds_enter_refused (fun s => s.start site) told
    refine .inr ⟨fs, ?_, fun _ => ⟨unwinds.store, unwinds.host⟩⟩
    rw [State.enter_of_some _ told]
    exact ⟨h.stack, h.agenda, h.built, ⟨reason, site.node, rfl⟩,
      (b.calm start k 0).refused _ ⟨kept, Nat.zero_le _, limit⟩ own told⟩

/-- A step within the limit brings the machine closer or ends in a refusal. A call that is held and
answered takes two. -/
inductive Advances (b : Budget) (host : Host η) (start : World η) (k : List Frame) (l : Ledger)
    (s : State η) : Prop
  | closer {l₁ : Ledger} {s₁ : State η} {fs₁ : List Frame} : l.step host s = some (l₁, s₁) →
    (b.calm start k 0).At fs₁ s₁ → b.Closer s s₁ → s.attempts b.id ≤ b.limit →
    Advances b host start k l s
  | stopped {s₁ : State η} {fs₁ : List Frame} : l.step host s = some (l, s₁) →
    (b.calm start k 0).StopsAt fs₁ s₁ → b.Lasts s s₁ → Advances b host start k l s
  | held {s₁ s₂ : State η} {fs₂ : List Frame} : l.step host s = some (l, s₁) →
    l.step host s₁ = some (l, s₂) → s₁.world.observers = s.world.observers → s₁.control = .idle →
    (b.calm start k 0).At fs₂ s₂ → b.Closer s s₂ → s.attempts b.id ≤ b.limit →
    Advances b host start k l s

theorem closer_at (h : (b.calm start k (s.world.steps b.id)).At fs s₁) (falls : s.Falls s₁)
    (eval : s.control.isEval = false) : b.Closer s s₁ :=
  closer_of_falls falls eval h.holds.2.1 (h.holds.2.2 trivial)

theorem attempts_le (h : (b.calm start k m).At fs s) (eval : s.control.isEval = false) :
    s.attempts b.id ≤ b.limit := by
  rw [State.attempts_of_not_eval eval]
  exact h.holds.2.2 trivial

/-- Before the limit is exceeded, the only node beyond it can be one that is about to be entered. -/
theorem doomed_of_exceeded (h : (b.calm start k m).At fs s) (exceeded : b.limit < s.attempts b.id) :
    s.Doomed := by
  refine .inr (Bool.of_not_eq_false fun eval => ?_)
  exact absurd exceeded (Nat.not_lt.2 (attempts_le h eval))

section Step

variable (prompt : s.Prompt host False) (h : (b.calm start k (s.world.steps b.id)).At fs s)
  (busy : ¬ s.Hands k) (l : Ledger)
include prompt h busy

/-- A step that neither enters a node nor calls a function. -/
theorem advances_of_falls (eval : s.control.isEval = false)
    (idle : ∀ f this args config, s.control ≠ .apply f this args config)
    (advance : s.advance host = .next s₁) (falls : s.Falls s₁) : b.Advances host start k l s := by
  have stepped := step_of_next advance l
  rcases h.moves (prompt.mono False.elim) busy h.holds.1.intact.unspent advance idle with ⟨fs₁, at₁⟩ | ⟨fs₁, stops⟩
  · exact .closer stepped (at_zero at₁) (closer_at at₁ falls eval) (attempts_le h eval)
  · exact .stopped stepped (stopsAt_zero stops) fun exceeded =>
      absurd exceeded (Nat.not_lt.2 (attempts_le h eval))

theorem advances_apply {f : FunctionId} {this : Value} {args : List Value} {config : Config}
    (control : s.control = .apply f this args config) : b.Advances host start k l s := by
  have eval : s.control.isEval = false := by rw [control]; rfl
  have allowed := attempts_le h eval
  cases h.goes (prompt.mono False.elim) busy h.holds.1.intact.unspent l with
  | next advance moved =>
    have stepped := step_of_next advance l
    rcases moved with ⟨fs₁, at₁⟩ | ⟨fs₁, stops⟩
    · have falls := State.falls_applyFunction host control prompt advance at₁.done.active
      exact .closer stepped (at_zero at₁) (closer_at at₁ falls eval) allowed
    · exact .stopped stepped (stopsAt_zero stops) fun exceeded =>
        absurd exceeded (Nat.not_lt.2 allowed)
  | told id o store log advance stepped at₁ =>
    have falls := State.falls_delivered host control advance
    exact .closer stepped (at_zero at₁) (closer_at at₁ falls eval) allowed
  | @held s' fs₁ o _ advance stack observers at₁ =>
    have within := (s'.release o).within_finish (o := o)
    rw [show (s'.release o).stack = s.stack from stack] at within
    exact .held (step_of_next advance l) (step_of_next (State.advance_hold host s' o) l) observers
      rfl (at_zero at₁) (closer_at at₁ (within.falls_apply control) eval) allowed

theorem calm_step : b.Advances host start k l s := by
  have outcome : s.control.isOutcome = true → ∃ f rest, fs = f :: rest := by
    intro outcome
    refine List.exists_cons_of_ne_nil ?_
    rintro rfl
    exact busy ⟨h.stack, outcome⟩
  cases control : s.control with
  | eval site =>
    obtain ⟨s₁, advance, ⟨fs₁, at₁⟩ | ⟨fs₁, stops, lasts⟩⟩ := calm_step_eval h control
    · have counted := at₁.holds.2.1
      have limit := at₁.holds.2.2 trivial
      refine .closer (step_of_next advance l) (at_zero at₁) (closer_of_steps counted limit) ?_
      simpa [State.attempts, control, Control.isEval] using Nat.le_trans counted limit
    · exact .stopped (step_of_next advance l) stops lasts
  | bind target v =>
    have advance : s.advance host = .next (s.bind target v) := by
      simp only [State.advance, control]
    exact advances_of_falls prompt h busy l (by rw [control]; rfl) (by simp [control]) advance
      (State.falls_bind control)
  | ret v receiver =>
    obtain ⟨f, rest, rfl⟩ := outcome (by rw [control]; rfl)
    exact advances_of_falls prompt h busy l (by rw [control]; rfl) (by simp [control])
      (State.advance_ret host control h.stack h.built.1.2.2)
      (State.falls_resume h.stack h.holds.1.opens h.built.1.1 v receiver)
  | fail e =>
    obtain ⟨f, rest, rfl⟩ := outcome (by rw [control]; rfl)
    exact advances_of_falls prompt h busy l (by rw [control]; rfl) (by simp [control])
      (State.advance_fail host control h.stack h.built.1.2.2)
      (State.falls_unwind h.stack h.holds.1.opens h.built.1.1 e)
  | apply f this args config => exact advances_apply prompt h busy l control
  | idle => exact absurd control h.done.active

end Step

theorem closer_wf (b : Budget) : WellFounded fun s' s : State η => b.Closer s s' :=
  InvImage.wf b.rank (Prod.lex Nat.lt_wfRel (Prod.lex Nat.lt_wfRel Nat.lt_wfRel)).wf

/-- Every evaluation under a budget ends. -/
theorem exists_ends (prompt : ∀ s : State η, s.Prompt host False) (h : (b.calm start k 0).At fs s)
    (l : Ledger) : ∃ n l' o w', b.Ends host start k l s n l' o w' := by
  induction s using b.closer_wf.induction generalizing fs l with
  | _ s ih =>
    have kept := h.holds.1
    by_cases hands : s.Hands k
    · obtain ⟨o, final⟩ := h.exists_finish hands
      have eval : s.control.isEval = false := by
        rw [final]
        cases o <;> rfl
      exact ⟨0, l, o, s.world, .here final (kept.sound (attempts_le h eval))⟩
    · cases calm_step (prompt s) (at_now h) hands l with
      | @closer l₁ s₁ fs₁ stepped at₁ closer allowed =>
        obtain ⟨n, l', o, w', ends⟩ := ih s₁ closer at₁ l₁
        exact ⟨n + 1, l', o, w', ends.step stepped (kept.sound allowed)⟩
      | @stopped s₁ fs₁ stepped stops lasts =>
        obtain ⟨reason, node, control⟩ := stops.aborted
        obtain ⟨n, o, w', ends, aborted, store, host⟩ :=
          exists_ends_of_doomed prompt (at_beyond stops) (.inl ⟨_, control, reason, rfl⟩) l
        refine ⟨n + 1, l, o, w', ends.step stepped ⟨kept.sound_seen, fun exceeded => ?_⟩⟩
        obtain ⟨store₁, host₁⟩ := lasts exceeded
        exact ⟨doomed_of_exceeded h exceeded, aborted, rfl, store.trans store₁, host.trans host₁⟩
      | @held s₁ s₂ fs₂ stepped stepped' observers idle at₂ closer allowed =>
        obtain ⟨n, l', o, w', ends⟩ := ih s₂ closer at₂ l
        have allowed₁ : s₁.attempts b.id ≤ b.limit := by
          rw [State.attempts_of_not_eval (by rw [idle]; rfl), World.steps, observers]
          exact h.holds.2.2 trivial
        have ends₁ := ends.step stepped' ((kept.bare observers).sound allowed₁)
        exact ⟨n + 1 + 1, l', o, w', ends₁.step stepped (kept.sound allowed)⟩

/-! ### Evaluations from outside -/

theorem at_begun {r : Realm η} (fresh : r.world.observers[b.id]? = some (.stepBudget b.limit))
    (admits : r.world.Admits b.others) (node : Node) (kept : Option TreeId) (scope : ScopeId)
    (recipient : Recipient) :
    (b.calm r.world [.deliver r.ledger.recipients.size] 0).At [.program r.world.spent.size]
      (r.begun node kept scope b.config recipient).2 := by
  have steps : r.world.steps b.id = 0 := by
    rw [World.steps, fresh]
    rfl
  have begins : b.Kept r.world [] r.world := {
    intact := ⟨.nil, List.forall_mem_nil _⟩
    watching := ⟨_, fresh, rfl⟩
    admits := admits
    seen := fun _ _ o watched records => ⟨o, watched, records, Nat.le_add_right _ _⟩ }
  exact {
    stack := rfl
    agenda := rfl
    built := ⟨.ofSites (List.forall_mem_nil _) rfl rfl, trivial⟩
    fits := rfl
    holds := ⟨begins.pushCell rfl, Nat.zero_le _,
      fun _ => Nat.le_trans (Nat.le_of_eq steps) (Nat.zero_le _)⟩ }

end Budget

/-- With host functions that answer at once and call no function in turn, whatever tree is evaluated
under a fresh step budget, in whatever world, the evaluation ends and its outcome is delivered.
Observers behind the budget see no more nodes than the limit. Once a node beyond it is tried, the
outcome is an abort, and neither the store nor what the host keeps changes any more. -/
theorem evaluation_confined_by_step_budget (host : Host η) (prompt : host.Prompt False)
    (r : Realm η) (node : Node) (kept : Option TreeId) (scope : ScopeId) (recipient : Recipient)
    (b : Budget) (fresh : r.world.observers[b.id]? = some (.stepBudget b.limit))
    (admits : r.world.Admits b.others) :
    ∃ n l o w,
      b.Ends host r.world [.deliver r.ledger.recipients.size]
        (r.begun node kept scope b.config recipient).1
        (r.begun node kept scope b.config recipient).2 n l o w ∧
      ∀ fuel, r.evalNode host (n + (fuel + 1)) node kept scope b.config recipient =
        ⟨(l.receive w recipient o).2, (l.receive w recipient o).1⟩ := by
  obtain ⟨n, l, o, w, ends⟩ := Budget.exists_ends prompt.state
    (Budget.at_begun fresh admits node kept scope recipient)
    (r.begun node kept scope b.config recipient).1
  refine ⟨n, l, o, w, ends, fun fuel => ?_⟩
  have found : l.recipients[r.ledger.recipients.size]? = some recipient := by
    rw [Ledger.recipients_after ends.handed]
    simp [Realm.begun, Ledger.addRecipient]
  simp only [Realm.evalNode_eq, Ledger.settle_of_after ends.handed, Ledger.settle_finish found]

namespace Sample

def budget : Budget := ⟨⟨[0, 1], false⟩, 0, [1], 3, rfl, by decide⟩

def limited : Realm Unit := ⟨world [.stepBudget 3, .recorder], .empty⟩

/-- The budget is exceeded within the `try`. -/
theorem rescue_confined_by_step_budget :
    let begun := limited.begun (rescue .plain).node none 0 ⟨[0, 1], false⟩ .defaults
    (host.Prompt False ∧ limited.world.observers[0]? = some (.stepBudget 3) ∧
      limited.world.Admits [1] ∧
      ((begun.1.after host 3 begun.2).any fun reached => 3 < reached.2.attempts 0) = true) ∧
    ∃ n l o w, budget.Ends host limited.world [.deliver 0] begun.1 begun.2 n l o w ∧
      ∀ fuel, limited.evalNode host (n + (fuel + 1)) (rescue .plain).node none 0 ⟨[0, 1], false⟩
          .defaults =
        ⟨(l.receive w .defaults o).2, (l.receive w .defaults o).1⟩ := by
  have prompt : host.Prompt False := fun _ _ _ _ _ _ => trivial
  have admits : limited.world.Admits [1] := by
    intro id mem o found notes store e enter
    cases List.mem_singleton.1 mem
    cases found
    rfl
  exact ⟨⟨prompt, rfl, admits, by decide +kernel⟩,
    evaluation_confined_by_step_budget host prompt limited (rescue .plain).node none 0 .defaults
      budget rfl admits⟩

end Sample

end EcmaMachine
