import Mathlib.Data.List.Forall2
import EcmaMachine.Host.Bench
import EcmaMachine.Proofs.Lexicon.Step
import EcmaMachine.Proofs.Run

/-!
Suspension is transparent. A function of the host that answers at once may as well hold its calls
and leave it to someone outside to answer them: as long as each is answered once, with what the
function gave, and nothing else happens in between, the evaluation goes on as it would have.
-/

namespace EcmaMachine

variable {η : Type}

/-! ## Calls that are answered from outside -/

def Reply.outcome? : Reply → Option Outcome
  | .value v => some (.value v)
  | .failure e => some (.failure e)
  | _ => none

/-- The functions with these words hold every call that they would have answered at once. -/
def Host.deferring (host : Host η) (defers : String → Bool) : Host η where
  call word this args ticket store kept :=
    let step := host.call word this args ticket store kept
    if defers word && step.reply.outcome?.isSome then { step with reply := .hold [] } else step

/-- What the function that is called now would have answered, if it defers its answers. -/
def State.deferred? (host : Host η) (defers : String → Bool) (s : State η) : Option Outcome :=
  match s.control with
  | .apply f this args _ =>
    match s.store.function? f with
    | some ⟨.host _ word, _⟩ =>
      if defers word then (s.asked host word this args).reply.outcome? else none
    | _ => none
  | _ => none

namespace State

def keep (s : State η) (answers : List Outcome) : State η where
  control := .idle
  stack := []
  agenda := answers.map (s.world.held.size, ·) ++ s.agenda
  world := { s.world with held := s.world.held.push ⟨s.stack, true, true⟩ }

def replied (s : State η) : Reply → State η
  | .value v => s.give v
  | .failure e => s.fail e
  | .call f this args => s.become (.apply f this args .plain)
  | .hold answers => s.keep answers

variable {host : Host η} {defers : String → Bool} {word : String} {this : Value}
  {args : List Value} {s : State η}

theorem applyHost_eq {step : HostStep η} (called : s.asked host word this args = step) :
    s.applyHost host word this args =
      ({ s with world := s.world.afterCall step }).replied step.reply := by
  rw [asked] at called
  simp only [applyHost, called]
  cases step.reply <;> rfl

theorem replied_of_outcome {r : Reply} {o : Outcome} (h : r.outcome? = some o) (s : State η) :
    s.replied r = s.finish o := by
  cases r <;> cases h <;> rfl

theorem CallsHost.advance (h : s.CallsHost word this args) :
    s.advance host = .next (s.applyHost host word this args) := by
  obtain ⟨f, config, name, properties, control, found⟩ := h
  simp only [State.advance, control, applyFunction, found]

theorem CallsHost.deferred (h : s.CallsHost word this args) :
    s.deferred? host defers =
      if defers word then (s.asked host word this args).reply.outcome? else none := by
  obtain ⟨f, config, name, properties, control, found⟩ := h
  simp only [deferred?, control, found]

theorem deferred_of_not_callsHost (h : ∀ word this args, ¬ s.CallsHost word this args) :
    s.deferred? host defers = none := by
  unfold deferred?
  split
  · next f this args config control =>
    split
    · next name word properties found =>
      exact absurd ⟨f, config, name, properties, control, found⟩ (h word this args)
    · rfl
  · rfl

end State

/-- A machine with deferring functions, and the one outside who answers for them: the call that is
suspended, and the answer that it will be given. -/
structure Suspended (η : Type) where
  ledger : Ledger
  state : State η
  pending : Option (Nat × Outcome)

namespace Suspended

variable (host : Host η) (defers : String → Bool)

/-- While a call is suspended, nothing happens but that it is answered. -/
def step (c : Suspended η) : Option (Suspended η) :=
  match c.pending with
  | some answer => some ⟨c.ledger, { c.state with agenda := answer :: c.state.agenda }, none⟩
  | none =>
    match c.ledger.step (host.deferring defers) c.state with
    | none => none
    | some (l, s) =>
      some ⟨l, s, (c.state.deferred? host defers).map (c.state.world.held.size, ·)⟩

def after : (n : Nat) → Suspended η → Option (Suspended η)
  | 0, c => some c
  | n + 1, c => (c.step host defers).bind (after n)

variable {host defers} {c d e : Suspended η}

theorem after_add (m n : Nat) (c : Suspended η) :
    c.after host defers (m + n) = (c.after host defers m).bind (after host defers n) := by
  induction m generalizing c with
  | zero =>
    rw [Nat.zero_add]
    rfl
  | succ m ih =>
    rw [Nat.succ_add, after, after]
    cases c.step host defers with
    | none => rfl
    | some d => exact ih d

/-- There are no steps after the machine has come to rest. -/
theorem le_of_rests {m n : Nat} (reached : c.after host defers m = some d)
    (rests : d.step host defers = none) (other : c.after host defers n = some e) : n ≤ m := by
  rcases Nat.lt_or_ge m n with lt | le
  · obtain ⟨k, rfl⟩ := Nat.exists_eq_add_of_lt lt
    rw [Nat.add_assoc, after_add, reached] at other
    simp [after, rests] at other
  · exact le

end Suspended

/-! ## Hosts that do not care for numbers -/

/-- The numbers that calls get make no difference to what the functions of the host do, though they
may keep them: states of the host that are `alike` but for the numbers lead to such states again. -/
def Host.IgnoresNumbers (host : Host η) (alike : η → η → Prop) : Prop :=
  ∀ word this args ticket ticket' store kept kept', alike kept kept' →
    let step := host.call word this args ticket store kept
    let step' := host.call word this args ticket' store kept'
    step'.reply = step.reply ∧ step'.store = step.store ∧ step'.log = step.log ∧
      alike step.host step'.host

/-- Benches that have noted the same calls and keep the same answers, each for a call of its own. -/
def Bench.SameCalls (b b' : Bench) : Prop :=
  b'.calls = b.calls ∧ b'.parked.size = b.parked.size ∧ b'.queue.map (·.2) = b.queue.map (·.2)

/-- The bench keeps numbers of calls and does nothing else with them. -/
theorem Bench.host_ignoresNumbers : Bench.host.IgnoresNumbers Bench.SameCalls := by
  rintro word this args ticket ticket' store b b' ⟨calls, parked, queue⟩
  have same : Bench.SameCalls b b' := ⟨calls, parked, queue⟩
  simp only [host, call]
  split
  · exact ⟨rfl, rfl, rfl, by simp [note, calls], parked, queue⟩
  · exact ⟨rfl, rfl, rfl, same⟩
  · exact ⟨rfl, rfl, rfl, same⟩
  · exact ⟨rfl, rfl, rfl, by simp [note, calls, parked], by simp [parked], queue⟩
  · exact ⟨rfl, rfl, rfl, calls, parked, by simp [queue]⟩
  · exact ⟨rfl, rfl, rfl, calls, parked, by simp [queue]⟩
  · exact ⟨rfl, rfl, rfl, same⟩
  · exact ⟨rfl, rfl, rfl, same⟩
  · exact ⟨rfl, rfl, rfl, same⟩
  · exact ⟨rfl, rfl, rfl, same⟩
  · split
    · next result log found =>
      cases result <;> exact ⟨rfl, rfl, rfl, same⟩
    · exact ⟨rfl, rfl, rfl, same⟩

/-! ## Worlds that differ in what the host keeps -/

def World.apart (held : Array Held) (kept : η) (w : World η) : World η :=
  { w with held, host := kept }

/-! ## The two runs -/

/-- The frames of an evaluation that was begun from outside; `inner` are its own. -/
structure Placed (fs inner : List Frame) : Prop where
  built : Built (fun _ => True) inner
  ground : ∃ id, fs = inner ++ [.deliver id]

/-- Calls that are held in both runs, each with its number in either. -/
structure Paired (pairs : Nat → Nat → Prop) (held held' : Array Held) : Prop where
  call : ∀ i j, pairs i j →
    ∃ h inner, held[i]? = some h ∧ held'[j]? = some h ∧ Placed h.stack inner
  unique : ∀ i j i' j', pairs i j → pairs i' j' → (i = i' ↔ j = j')

namespace Paired

variable {pairs : Nat → Nat → Prop} {held held' : Array Held}

variable (h : Paired pairs held held')
include h

theorem lt {i j : Nat} (pair : pairs i j) : i < held.size ∧ j < held'.size := by
  obtain ⟨call, inner, here, there, -⟩ := h.call i j pair
  exact ⟨(Array.getElem?_eq_some_iff.1 here).1, (Array.getElem?_eq_some_iff.1 there).1⟩

/-- A call of the second run only. -/
theorem pushRight (call : Held) : Paired pairs held (held'.push call) where
  call i j pair := by
    obtain ⟨known, inner, here, there, placed⟩ := h.call i j pair
    refine ⟨known, inner, here, ?_, placed⟩
    rw [Array.getElem?_push, if_neg (Nat.ne_of_lt (h.lt pair).2), there]
  unique := h.unique

/-- A call of both runs. -/
theorem push (call : Held) {inner : List Frame} (placed : Placed call.stack inner) :
    Paired (fun i j => pairs i j ∨ i = held.size ∧ j = held'.size) (held.push call)
      (held'.push call) where
  call i j pair := by
    rcases pair with pair | ⟨rfl, rfl⟩
    · obtain ⟨known, inner, here, there, placed⟩ := h.call i j pair
      have lt := h.lt pair
      refine ⟨known, inner, ?_, ?_, placed⟩
      · rw [Array.getElem?_push, if_neg (Nat.ne_of_lt lt.1), here]
      · rw [Array.getElem?_push, if_neg (Nat.ne_of_lt lt.2), there]
    · exact ⟨call, inner, by simp, by simp, placed⟩
  unique i j i' j' pair pair' := by
    rcases pair with pair | ⟨rfl, rfl⟩ <;> rcases pair' with pair' | ⟨rfl, rfl⟩
    · exact h.unique i j i' j' pair pair'
    · have lt := h.lt pair
      omega
    · have lt := h.lt pair'
      omega
    · simp

/-- A call is answered in both runs. -/
theorem close {i j : Nat} (pair : pairs i j) (o : Outcome) :
    Paired pairs (held.modify i (·.close o)) (held'.modify j (·.close o)) where
  call i' j' pair' := by
    obtain ⟨known, inner, here, there, placed⟩ := h.call i' j' pair'
    have same := h.unique i j i' j' pair pair'
    rw [Array.getElem?_modify, Array.getElem?_modify, here, there]
    by_cases eq : i = i'
    · refine ⟨known.close o, inner, ?_, ?_, ?_⟩
      · simp [eq]
      · simp [same.1 eq]
      · cases o <;> exact placed
    · have eq' : j ≠ j' := fun e => eq (same.2 e)
      exact ⟨known, inner, by simp [eq], by simp [eq'], placed⟩
  unique := h.unique

end Paired

/-- States of the two runs: the machine does the same on the same frames, in worlds that are the
same but for what the host keeps. -/
structure Alike (alike : η → η → Prop) (pairs : Nat → Nat → Prop) (s t : State η) : Prop where
  control : t.control = s.control
  busy : s.control ≠ .idle → t.stack = s.stack ∧
    ∃ inner, Placed s.stack inner ∧ s.control.Fits (fun _ => True) inner
  agenda : List.Forall₂ (fun a b => pairs a.1 b.1 ∧ b.2 = a.2) s.agenda t.agenda
  world : t.world = s.world.apart t.world.held t.world.host
  host : alike s.world.host t.world.host
  paired : Paired pairs s.world.held t.world.held

/-- None of the calls that are held changes, and nothing that the host keeps. -/
def State.bond (s t : State η) (id : Nat) : Bond η :=
  .aside (fun held kept held' kept' => held = s.world.held ∧ kept = s.world.host ∧
    held' = t.world.held ∧ kept' = t.world.host) [.deliver id] [.deliver id] s.agenda t.agenda

namespace Alike

variable {alike : η → η → Prop} {pairs : Nat → Nat → Prop} {s t s' t' : State η} {id : Nat}

variable (h : Alike alike pairs s t)
include h

theorem store : t.store = s.store := by
  rw [State.store, h.world]
  rfl

theorem done (busy : s.control ≠ .idle) : ∃ id inner, (s.bond t id).Done inner s t := by
  obtain ⟨stack, inner, placed, fits⟩ := h.busy busy
  obtain ⟨id, ground⟩ := placed.ground
  refine ⟨id, inner, ⟨⟨ground, ?_, rfl, rfl, placed.built, _, _, h.world, rfl, rfl, rfl, rfl⟩, ?_, fits⟩⟩
  · rw [stack, ground]
    simp [State.bond, Bond.aside, Frame.mapConfig_id]
  · exact h.control.trans (Control.mapConfig_id _).symm

theorem of_rel {fs : List Frame} (control : t'.control = s'.control) (agenda : s'.agenda = s.agenda)
    (agenda' : t'.agenda = t.agenda) (rel : (s.bond t id).Rel fs s'.world t'.world)
    (busy : s'.control ≠ .idle → t'.stack = s'.stack ∧
      ∃ inner, Placed s'.stack inner ∧ s'.control.Fits (fun _ => True) inner) :
    Alike alike pairs s' t' := by
  obtain ⟨_, _, world, held, kept, rfl, rfl⟩ := rel
  have held' : t'.world.held = t.world.held := by rw [world]
  have kept' : t'.world.host = t.world.host := by rw [world]
  refine ⟨control, busy, ?_, ?_, ?_, ?_⟩
  · rw [agenda, agenda']
    exact h.agenda
  · rw [held', kept']
    exact world
  · rw [kept, kept']
    exact h.host
  · rw [held, held']
    exact h.paired

theorem of_done {inner : List Frame}
    (done : (s.bond t id).Done inner s' t') : Alike alike pairs s' t' := by
  refine h.of_rel (done.control.trans (Control.mapConfig_id _)) done.agenda done.agenda' done.rel ?_
  intro _
  refine ⟨?_, inner, ⟨done.built, id, done.stack⟩, done.fits⟩
  rw [done.stack, done.stack']
  simp [State.bond, Bond.aside, Frame.mapConfig_id]

theorem of_next (next : (s.bond t id).Next s' t') : Alike alike pairs s' t' := by
  rcases next with ⟨inner, done⟩ | ⟨inner, stopped⟩
  · exact h.of_done done
  · exact h.of_done (stopped.done stopped.refused)

/-- Whoever takes an outcome does the same in both runs. -/
theorem take (l : Ledger) (recipient : Nat) (o : Outcome) :
    ∃ l' s' t', l.take recipient o s = (l', s') ∧ l.take recipient o t = (l', t') ∧
      Alike alike pairs s' t' := by
  obtain ⟨l', store, log, took, seen⟩ := l.exists_take recipient o s
  have same := seen false t h.store
  rw [Ledger.view_false, Ledger.view_false] at same
  refine ⟨l', _, _, took, same, ?_⟩
  have world : (t.called store log).world =
      (s.called store log).world.apart t.world.held t.world.host := by
    simp only [State.called]
    rw [h.world]
    rfl
  exact { h with world }

end Alike

def Matched (host : Host η) (defers : String → Bool) (alike : η → η → Prop) (l : Ledger)
    (s t : State η) : Prop :=
  ∃ l' s', l.step host s = some (l', s') ∧ ∃ n t' pairs,
    (⟨l, t, none⟩ : Suspended η).after host defers (n + 1) = some ⟨l', t', none⟩ ∧
      Alike alike pairs s' t'

namespace Alike

variable {alike : η → η → Prop} {pairs : Nat → Nat → Prop} {s t s' t' : State η} {host : Host η}
  {defers : String → Bool} {l : Ledger}

/-- Nothing is deferred. -/
theorem matched_next (h : Alike alike pairs s' t') (prompt : t.deferred? host defers = none)
    (advance : s.advance host = .next s') (advance' : t.advance (host.deferring defers) = .next t')
    (l : Ledger) : Matched host defers alike l s t := by
  refine ⟨l, s', ?_, 0, t', pairs, ?_, h⟩
  · simp [Ledger.step, advance]
  · simp [Suspended.after, Suspended.step, Ledger.step, advance', prompt]

theorem matched_told (h : Alike alike pairs s' t') (prompt : t.deferred? host defers = none)
    {id : Nat} {o : Outcome} (advance : s.advance host = .delivered id o s')
    (advance' : t.advance (host.deferring defers) = .delivered id o t') (l : Ledger) :
    Matched host defers alike l s t := by
  obtain ⟨l', s₁, t₁, took, took', same⟩ := h.take l id o
  refine ⟨l', s₁, ?_, 0, t₁, pairs, ?_, same⟩
  · simp [Ledger.step, advance, took]
  · simp [Suspended.after, Suspended.step, Ledger.step, advance', took', prompt]

section

variable (h : Alike alike pairs s t)
include h

/-- A call that both runs hold is answered. -/
theorem answer {i j : Nat} (pair : pairs i j) (o : Outcome) {rest rest' : Agenda}
    (later : List.Forall₂ (fun a b => pairs a.1 b.1 ∧ b.2 = a.2) rest rest') :
    Alike alike pairs (({ s with agenda := rest }).answer i o)
      (({ t with agenda := rest' }).answer j o) := by
  obtain ⟨call, inner, here, there, placed⟩ := h.paired.call i j pair
  have accepts : ({ t with agenda := rest' } : State η).accepts j o =
      ({ s with agenda := rest } : State η).accepts i o := by
    cases o <;> simp [State.accepts, here, there]
  cases open? : ({ s with agenda := rest } : State η).accepts i o with
  | false =>
    rw [State.answer_of_not_accepts open?, State.answer_of_not_accepts (accepts.trans open?)]
    exact { h with agenda := later }
  | true =>
    rw [State.answer_of_accepts open? here, State.answer_of_accepts (accepts.trans open?) there]
    have world : { t.world with held := t.world.held.modify j (·.close o) } =
        World.apart (t.world.held.modify j (·.close o)) t.world.host
          { s.world with held := s.world.held.modify i (·.close o) } := by
      rw [h.world]
      rfl
    have paired := h.paired.close pair o
    cases o with
    | value v =>
      exact ⟨rfl, fun _ => ⟨rfl, inner, placed, .inl rfl⟩, later, world, h.host, paired⟩
    | failure e =>
      exact ⟨rfl, fun _ => ⟨rfl, inner, placed, trivial⟩, later, world, h.host, paired⟩

/-- The agenda is worked off. -/
theorem idle_step (idle : s.control = .idle) (l : Ledger) :
    (l.step host s = none ∧ (⟨l, t, none⟩ : Suspended η).step host defers = none) ∨
      Matched host defers alike l s t := by
  have idle' : t.control = .idle := h.control.trans idle
  have prompt : t.deferred? host defers = none := by simp [State.deferred?, idle']
  have agenda := h.agenda
  cases next : s.agenda with
  | nil =>
    rw [next] at agenda
    have next' : t.agenda = [] := List.forall₂_nil_left_iff.1 agenda
    refine .inl ⟨?_, ?_⟩
    · simp [Ledger.step, State.advance, idle, next]
    · simp [Suspended.step, Ledger.step, State.advance, idle', next']
  | cons a rest =>
    obtain ⟨i, o⟩ := a
    rw [next] at agenda
    obtain ⟨⟨j, o'⟩, rest', ⟨pair, rfl⟩, later, next'⟩ := List.forall₂_cons_left_iff.1 agenda
    exact .inr ((h.answer pair o' later).matched_next prompt (State.advance_agenda host idle next)
      (State.advance_agenda _ idle' next') l)

/-- An outcome goes to the one outside. -/
theorem deliver_step {id : Nat} (hands : s.Hands [.deliver id])
    (l : Ledger) : Matched host defers alike l s t := by
  have stack' : t.stack = [.deliver id] := (h.busy hands.active).1.trans hands.1
  have rests : Alike alike pairs s.pop.rest t.pop.rest :=
    { h with control := rfl, busy := fun active => (active rfl).elim }
  obtain ⟨o, delivered⟩ := State.exists_delivered hands.2
  refine rests.matched_told (State.deferred_of_not_callsHost ?_) (delivered host rfl hands.1)
    (delivered _ h.control stack') l
  rintro word this args ⟨f, config, name, properties, control, -⟩
  have outcome := hands.2
  rw [← h.control, control] at outcome
  cases outcome

/-- The machine works, with no call of the host. -/
theorem work_step (active : s.control ≠ .idle) (inside : ∀ id, ¬ s.Hands [.deliver id])
    (silent : ∀ word this args, ¬ s.CallsHost word this args) (l : Ledger) :
    Matched host defers alike l s t := by
  obtain ⟨id, inner, done⟩ := h.done active
  have prompt : t.deferred? host defers = none := by
    refine State.deferred_of_not_callsHost ?_
    rintro word this args ⟨f, config, name, properties, control, found⟩
    rw [h.control] at control
    rw [h.store] at found
    exact silent word this args ⟨f, config, name, properties, control, found⟩
  have after : (s.bond t id).After host s (s.advance host) (t.advance (host.deferring defers)) :=
    done.advanceWith
      (fun made => (silent _ _ _ made).elim)
      (inside id)
  generalize advance : s.advance host = p, advance' : t.advance (host.deferring defers) = q at after
  cases after with
  | next next => exact (h.of_next next).matched_next prompt advance advance' l
  | told recipient o done => exact (h.of_done done).matched_told prompt advance advance' l
  | held o half holds =>
    obtain ⟨word, this, args, made, -⟩ := holds
    exact absurd made (silent word this args)
  | dropped _ _ _ rested =>
    obtain ⟨idle, idle', agenda, agenda', fs, rel⟩ := rested
    have same := h.of_rel (idle'.trans idle.symm) agenda agenda' rel
      fun active => (active idle).elim
    exact same.matched_next prompt advance advance' l

/-- What the host replies is the same in both runs. -/
theorem replied (active : s.control ≠ .idle) (r : Reply) :
    ∃ pairs', Alike alike pairs' (s.replied r) (t.replied r) := by
  obtain ⟨stack, inner, placed, -⟩ := h.busy active
  cases r with
  | value v =>
    exact ⟨pairs, { h with control := rfl, busy := fun _ => ⟨stack, inner, placed, .inl rfl⟩ }⟩
  | failure e | call f this args =>
    exact ⟨pairs, { h with control := rfl, busy := fun _ => ⟨stack, inner, placed, trivial⟩ }⟩
  | hold answers =>
    have paired := h.paired.push ⟨s.stack, true, true⟩ placed
    have agenda : List.Forall₂ (fun a b => (pairs a.1 b.1 ∨ a.1 = s.world.held.size ∧
        b.1 = t.world.held.size) ∧ b.2 = a.2) (s.keep answers).agenda (t.keep answers).agenda := by
      refine List.rel_append ?_ (h.agenda.imp fun a b pair => ⟨.inl pair.1, pair.2⟩)
      simp only [List.forall₂_map_left_iff, List.forall₂_map_right_iff]
      exact List.forall₂_same.2 fun o _ => by simp
    have world : (t.keep answers).world =
        (s.keep answers).world.apart (t.keep answers).world.held t.world.host := by
      simp only [State.keep]
      rw [h.world]
      rfl
    refine ⟨fun i j => pairs i j ∨ i = s.world.held.size ∧ j = t.world.held.size, rfl,
      fun active => (active rfl).elim, agenda, world, h.host, ?_⟩
    simp only [State.replied, State.keep, stack]
    exact paired

theorem afterCall {step step' : HostStep η}
    (store : step'.store = step.store) (log : step'.log = step.log)
    (kept : alike step.host step'.host) :
    Alike alike pairs { s with world := s.world.afterCall step }
      { t with world := t.world.afterCall step' } := by
  have world : t.world.afterCall step' =
      (s.world.afterCall step).apart t.world.held step'.host := by
    simp only [World.afterCall, store, log]
    rw [h.world]
    rfl
  exact { h with world, host := kept }

/-- A call is suspended and answered before anything else happens. -/
theorem deferred_step (active : s.control ≠ .idle) {s₀ t₀ : State η}
    {o : Outcome} (deferred : t₀.deferred? host defers = some o)
    (size : t₀.world.held.size = t.world.held.size)
    (advance : s₀.advance host = .next (s.finish o))
    (advance' : t₀.advance (host.deferring defers) = .next (t.keep [])) (l : Ledger) :
    Matched host defers alike l s₀ t₀ := by
  refine ⟨l, s.finish o, by simp [Ledger.step, advance], 2, (t.release o).finish o, pairs, ?_, ?_⟩
  · have suspends : (⟨l, t₀, none⟩ : Suspended η).step host defers =
        some ⟨l, t.keep [], some (t.world.held.size, o)⟩ := by
      simp [Suspended.step, Ledger.step, advance', deferred, size]
    have resumes : (⟨l, t.keep [], some (t.world.held.size, o)⟩ : Suspended η).step host defers =
        some ⟨l, t.hold o, none⟩ := rfl
    have goesOn : (⟨l, t.hold o, none⟩ : Suspended η).step host defers =
        some ⟨l, (t.release o).finish o, none⟩ := by
      have prompt : (t.hold o).deferred? host defers = none := rfl
      simp [Suspended.step, Ledger.step, State.advance_hold, prompt]
    simp [Suspended.after, suspends, resumes, goesOn]
  · obtain ⟨stack, inner, placed, -⟩ := h.busy active
    have world : (t.release o).world = s.world.apart (t.release o).world.held t.world.host := by
      simp only [State.release]
      rw [h.world]
      rfl
    have paired := h.paired.pushRight ⟨t.stack, o.isFailure, o.isValue⟩
    cases o with
    | value v =>
      exact ⟨rfl, fun _ => ⟨stack, inner, placed, .inl rfl⟩, h.agenda, world, h.host, paired⟩
    | failure e =>
      exact ⟨rfl, fun _ => ⟨stack, inner, placed, trivial⟩, h.agenda, world, h.host, paired⟩

end

section

variable (ignores : host.IgnoresNumbers alike) (h : Alike alike pairs s t)
include ignores h

/-- The host is called. -/
theorem host_step {word : String}
    {this : Value} {args : List Value} (calls : s.CallsHost word this args) (l : Ledger) :
    Matched host defers alike l s t := by
  have active : s.control ≠ .idle := by
    obtain ⟨f, config, name, properties, control, -⟩ := calls
    rw [control]
    nofun
  have calls' : t.CallsHost word this args := by
    obtain ⟨f, config, name, properties, control, found⟩ := calls
    exact ⟨f, config, name, properties, h.control.trans control, h.store ▸ found⟩
  obtain ⟨reply, store, log, kept⟩ := ignores word this args s.world.held.size t.world.held.size
    s.store s.world.host t.world.host h.host
  have deferred : t.deferred? host defers = _ := calls'.deferred
  have advance : s.advance host = _ := calls.advance.trans (congrArg _ (State.applyHost_eq rfl))
  have advance' : t.advance (host.deferring defers) = _ :=
    calls'.advance.trans (congrArg _ (State.applyHost_eq rfl))
  simp only [State.asked, Host.deferring, h.store] at deferred advance advance'
  generalize host.call word this args s.world.held.size s.store s.world.host = step
    at reply store log kept advance
  generalize host.call word this args t.world.held.size s.store t.world.host = step'
    at reply store log kept deferred advance'
  have after := h.afterCall store log kept
  by_cases defer : (defers word && step'.reply.outcome?.isSome) = true
  · rw [if_pos defer] at advance'
    simp only [Bool.and_eq_true] at defer
    obtain ⟨o, outcome⟩ := Option.isSome_iff_exists.1 defer.2
    rw [if_pos defer.1, outcome] at deferred
    rw [State.replied_of_outcome (reply ▸ outcome)] at advance
    exact after.deferred_step active deferred rfl advance advance' l
  · rw [if_neg defer] at advance'
    have prompt : t.deferred? host defers = none := by
      rw [deferred]
      split
      · next word => simpa [word] using defer
      · rfl
    rw [reply] at advance'
    obtain ⟨pairs', same⟩ := after.replied active step.reply
    exact same.matched_next prompt advance advance' l

/-- Each step of the first run is matched, and the second rests where the first does. -/
theorem step (defers : String → Bool) (l : Ledger) :
    (l.step host s = none ∧ (⟨l, t, none⟩ : Suspended η).step host defers = none) ∨
      Matched host defers alike l s t := by
  by_cases idle : s.control = .idle
  · exact h.idle_step idle l
  refine .inr ?_
  by_cases hands : ∃ id, s.Hands [.deliver id]
  · obtain ⟨id, hands⟩ := hands
    exact h.deliver_step hands l
  by_cases calls : ∃ word this args, s.CallsHost word this args
  · obtain ⟨word, this, args, calls⟩ := calls
    exact h.host_step ignores calls l
  · exact h.work_step idle (fun id h => hands ⟨id, h⟩)
      (fun word this args h => calls ⟨word, this, args, h⟩) l

theorem rests_iff (defers : String → Bool) (l : Ledger) :
    l.step host s = none ↔ (⟨l, t, none⟩ : Suspended η).step host defers = none := by
  rcases h.step ignores defers l with ⟨rests, rests'⟩ | ⟨l', s', stepped, n, t', pairs', reached, -⟩
  · exact ⟨fun _ => rests', fun _ => rests⟩
  · refine ⟨fun rests => ?_, fun rests' => ?_⟩
    · rw [stepped] at rests
      cases rests
    · simp [Suspended.after, rests'] at reached

end

theorem after (ignores : host.IgnoresNumbers alike) (defers : String → Bool) {n : Nat}
    {l' : Ledger} (h : Alike alike pairs s t) (reached : l.after host n s = some (l', s')) :
    ∃ m t' pairs', n ≤ m ∧
      (⟨l, t, none⟩ : Suspended η).after host defers m = some ⟨l', t', none⟩ ∧
      Alike alike pairs' s' t' := by
  induction n generalizing l s t pairs with
  | zero =>
    cases reached
    exact ⟨0, t, pairs, Nat.le_refl 0, rfl, h⟩
  | succ n ih =>
    rcases h.step ignores defers l with
      ⟨rests, -⟩ | ⟨l₁, s₁, stepped, k, t₁, pairs₁, reached₁, same⟩
    · simp [Ledger.after, rests] at reached
    · rw [Ledger.after_succ stepped] at reached
      obtain ⟨m, t', pairs', le, reached', same'⟩ := ih same reached
      refine ⟨k + 1 + m, t', pairs', by omega, ?_, same'⟩
      rw [Suspended.after_add, reached₁]
      exact reached'

/-- Both runs begin in the same state. -/
theorem program (alike : η → η → Prop) (site : Site) (id : Nat) {w : World η}
    (same : alike w.host w.host) :
    Alike alike (fun _ _ => False) (.program site id w) (.program site id w) where
  control := rfl
  busy _ := by
    have built : Built (fun _ => True) [.program w.newCell.1] :=
      ⟨.ofSites (List.forall_mem_nil _) rfl rfl, trivial⟩
    exact ⟨rfl, [.program w.newCell.1], ⟨built, id, rfl⟩, trivial⟩
  agenda := .nil
  world := rfl
  host := same
  paired := ⟨fun _ _ => False.elim, fun _ _ _ _ => False.elim⟩

end Alike

theorem Ledger.exists_rest {host : Host η} {n : Nat} {l : Ledger} {s : State η}
    (h : l.after host n s = none) :
    ∃ k l' s', l.after host k s = some (l', s') ∧ l'.step host s' = none := by
  induction n generalizing l s with
  | zero => cases h
  | succ n ih =>
    cases stepped : l.step host s with
    | none => exact ⟨0, l, s, rfl, stepped⟩
    | some next =>
      rw [after_succ stepped] at h
      obtain ⟨k, l', s', reached, rests⟩ := ih h
      exact ⟨k + 1, l', s', (after_succ stepped k).trans reached, rests⟩

/-- Functions of the host that answer at once may as well hold all their calls and have each
answered from outside, with nothing else happening in between. Each moment of the first run has its
moment in the second, with the same ledger in which the outcomes are, the same store, observers,
trace and log; one comes to rest if and only if the other does, and at corresponding moments. -/
theorem evaluation_unchanged_by_suspension {host : Host η} {alike : η → η → Prop}
    (ignores : host.IgnoresNumbers alike) (defers : String → Bool) (l : Ledger) (site : Site)
    (id : Nat) {w : World η} (same : alike w.host w.host) :
    (∀ n l' s', l.after host n (.program site id w) = some (l', s') →
      ∃ m t, n ≤ m ∧
        (⟨l, .program site id w, none⟩ : Suspended η).after host defers m = some ⟨l', t, none⟩ ∧
        t.control = s'.control ∧ t.world = s'.world.apart t.world.held t.world.host ∧
        alike s'.world.host t.world.host ∧
        (l'.step host s' = none ↔ (⟨l', t, none⟩ : Suspended η).step host defers = none)) ∧
    ∀ m d, (⟨l, .program site id w, none⟩ : Suspended η).after host defers m = some d →
      d.step host defers = none →
      ∃ n s', l.after host n (.program site id w) = some (d.ledger, s') ∧
        d.ledger.step host s' = none ∧
        d.state.world = s'.world.apart d.state.world.held d.state.world.host ∧
        alike s'.world.host d.state.world.host := by
  have start := Alike.program alike site id same
  refine ⟨?_, ?_⟩
  · intro n l' s' reached
    obtain ⟨m, t, pairs, le, reached', now⟩ := start.after ignores defers reached
    exact ⟨m, t, le, reached', now.control, now.world, now.host, now.rests_iff ignores defers l'⟩
  · intro m d reached' rests'
    -- The second run takes at least as many steps as the first, so the first comes to rest too.
    have ends : l.after host (m + 1) (.program site id w) = none := by
      cases reached : l.after host (m + 1) (.program site id w) with
      | none => rfl
      | some r =>
        obtain ⟨k, t, pairs, le, later, -⟩ := start.after ignores defers reached
        have ge := Suspended.le_of_rests reached' rests' later
        omega
    obtain ⟨n, l', s', reached, rests⟩ := Ledger.exists_rest ends
    obtain ⟨k, t, pairs, -, later, now⟩ := start.after ignores defers reached
    have le := Suspended.le_of_rests reached' rests' later
    have ge := Suspended.le_of_rests later ((now.rests_iff ignores defers l').1 rests) reached'
    obtain rfl : k = m := Nat.le_antisymm le ge
    cases later.symm.trans reached'
    exact ⟨n, s', reached, rests, now.world, now.host⟩

namespace Sample

def bench : World Bench :=
  let (f, store) := Store.empty.newFunction (.host "record" "bench.record")
  let (_, store) := store.rootScope [("f", .function f)]
  { World.start Bench.empty with store }

def bill : Ledger := (Ledger.empty.addRecipient (.caller 0)).2

/-- A script with both its calls suspended, which ends as it does when they are answered at once. -/
theorem rescue_unchanged_by_suspension :
    Bench.host.IgnoresNumbers Bench.SameCalls ∧
      ∃ d n s', (⟨bill, .program (rescue .plain) 0 bench, none⟩ : Suspended Bench).after Bench.host
          (· == "bench.record") 74 = some d ∧
        d.state.world.held.size = 2 ∧ d.ledger.deliveries.size = 1 ∧
        bill.after Bench.host n (.program (rescue .plain) 0 bench) = some (d.ledger, s') ∧
        d.state.world = s'.world.apart d.state.world.held d.state.world.host := by
  have rests : ((⟨bill, .program (rescue .plain) 0 bench, none⟩ : Suspended Bench).after Bench.host
      (· == "bench.record") 74).any (fun d =>
        (d.step Bench.host (· == "bench.record")).isNone && d.state.world.held.size == 2 &&
          d.ledger.deliveries.size == 1) = true := by decide +kernel
  obtain ⟨d, reached, test⟩ := (Option.any_eq_true _ _).1 rests
  simp only [Bool.and_eq_true, beq_iff_eq, Option.isNone_iff_eq_none] at test
  obtain ⟨⟨rests, held⟩, delivered⟩ := test
  obtain ⟨n, s', reached', -, world, -⟩ := (evaluation_unchanged_by_suspension
    Bench.host_ignoresNumbers (· == "bench.record") bill (rescue .plain) 0
    (w := bench) ⟨rfl, rfl, rfl⟩).2 74 d reached rests
  exact ⟨Bench.host_ignoresNumbers, d, n, s', reached, held, delivered, reached', world⟩

end Sample

end EcmaMachine
