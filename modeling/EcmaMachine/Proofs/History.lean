import EcmaMachine.Proofs.Lexicon.Step
import EcmaMachine.Proofs.Run

/-!
Histories: all that can happen to a machine that others use. It takes its steps; and whenever it
rests, those outside may change the world, answer calls that are held, each in any order and as
often as they like, begin an evaluation or call a function.
-/

namespace EcmaMachine

variable {η : Type}

/-- What those outside may do while the machine rests. -/
structure Outside (η : Type) where
  /-- The nodes that are evaluated, each with what it runs in. -/
  evaluates : Site → Prop
  /-- The worlds that are left to the machine, given the store that it left. -/
  leaves : Store → World η → Prop
  /-- The answers that are given to held calls. -/
  answers : Outcome → Prop

inductive History (O : Outside η) (host : Host η) : List (State η) → Ledger → Prop
  | start (l : Ledger) {w : World η} (left : O.leaves .empty w) (fresh : w.held = #[]) :
    History O host [⟨.idle, [], [], w⟩] l
  | step {s s' : State η} {past : List (State η)} {l l' : Ledger}
    (h : History O host (s :: past) l) (stepped : l.step host s = some (l', s')) :
    History O host (s' :: s :: past) l'
  /-- The world is another, and held calls are to be answered. -/
  | change {s : State η} {past : List (State η)} {l : Ledger} (h : History O host (s :: past) l)
    (idle : s.control = .idle) {w : World η} (left : O.leaves s.store w)
    (spent : w.spent = s.world.spent) (held : w.held = s.world.held)
    {agenda : List (Nat × Outcome)} (answers : ∀ a ∈ agenda, O.answers a.2)
    {l' : Ledger} (recipients : l.recipients.size ≤ l'.recipients.size) :
    History O host (⟨.idle, [], agenda, w⟩ :: s :: past) l'
  | evaluate {s : State η} {past : List (State η)} {l : Ledger}
    (h : History O host (s :: past) l) (idle : s.control = .idle) {site : Site}
    (evaluates : O.evaluates site) (recipient : Recipient) :
    History O host
      ({ State.program site l.recipients.size s.world with agenda := s.agenda } :: s :: past)
      (l.addRecipient recipient).2
  | call {s : State η} {past : List (State η)} {l : Ledger} (h : History O host (s :: past) l)
    (idle : s.control = .idle) (f : FunctionId) (this : Value) (args : List Value)
    (config : Config) (recipient : Recipient) :
    History O host
      (⟨.apply f this args config, [.deliver l.recipients.size], s.agenda, s.world⟩ :: s :: past)
      (l.addRecipient recipient).2

namespace Ledger

variable {l l' : Ledger} {host : Host η} {s s' : State η}

/-- Whoever takes an outcome makes no function. -/
theorem callables_receive (l : Ledger) (w : World η) (recipient : Recipient) (o : Outcome) :
    (l.receive w recipient o).2.store.callables = w.store.callables := by
  have told : ∀ e, (errorValue w.store e).2.callables = w.store.callables := by
    intro e
    unfold errorValue
    split
    · next found => exact Signal.callables_of_caught found
    · rfl
  have replied : ∀ registry scopes, (replyTo w.store registry scopes o).2.2.callables =
      w.store.callables := by
    intro registry scopes
    cases o with
    | value v => rfl
    | failure e => exact told e
  unfold receive
  split
  · rfl
  · rfl
  · split
    · rfl
    · simp only
      split <;> exact replied _ _
  · rfl

theorem callables_take (l : Ledger) (id : Nat) (o : Outcome) (s : State η) :
    (l.take id o s).2.store.callables = s.store.callables := by
  unfold take
  split
  · rfl
  · exact l.callables_receive s.world _ o

theorem recipients_take (l : Ledger) (id : Nat) (o : Outcome) (s : State η) :
    (l.take id o s).1.recipients = l.recipients := by
  unfold take
  split
  · rfl
  · exact l.recipients_receive s.world _ o

/-- A step of the machine and of those who take its outcomes is a step of the machine, but for the
store and the log. -/
theorem exists_advance_of_step (stepped : l.step host s = some (l', s')) :
    ∃ store log, s' = (s.advance host).state.called store log ∧
      store.callables = (s.advance host).state.store.callables ∧
      l'.recipients = l.recipients := by
  have same : ∀ s : State η, s = s.called s.store [] := fun s => by simp [State.called, State.store]
  unfold step at stepped
  split at stepped
  · next s₁ advanced =>
    cases stepped
    rw [advanced]
    exact ⟨s'.store, [], same s', rfl, rfl⟩
  · cases stepped
  · next id o s₁ advanced =>
    rw [advanced]
    have callables := l.callables_take id o s₁
    have recipients := l.recipients_take id o s₁
    obtain ⟨l₂, store, log, taken, -⟩ := l.exists_take id o s₁
    rw [taken] at stepped callables recipients
    cases stepped
    exact ⟨store, log, rfl, callables, recipients⟩

/-- Lets the machine run for `n` steps or until it rests, and keeps its states, the last first. -/
def record (host : Host η) : (n : Nat) → Ledger → State η → List (State η) → Ledger × List (State η)
  | 0, l, s, past => (l, s :: past)
  | n + 1, l, s, past =>
    match l.step host s with
    | none => (l, s :: past)
    | some (l', s') => l'.record host n s' (s :: past)

end Ledger

theorem Lexicon.Lawful.step {L : Lexicon} {host : Host η} {s s' : State η} {l l' : Ledger}
    (h : L.Lawful s) (obeys : L.Obeys host) (stepped : l.step host s = some (l', s')) :
    L.Lawful s' := by
  obtain ⟨store, log, rfl, callables, -⟩ := Ledger.exists_advance_of_step stepped
  have next := h.turn (h.turns obeys)
  exact { next with scripts := fun c mem => next.scripts c (callables ▸ mem) }

namespace History

variable {O : Outside η} {host : Host η} {s : State η} {past : List (State η)} {l : Ledger}

theorem record (h : History O host (s :: past) l) (n : Nat) :
    History O host (l.record host n s past).2 (l.record host n s past).1 := by
  induction n generalizing l s past with
  | zero => exact h
  | succ n ih =>
    unfold Ledger.record
    split
    · exact h
    · next stepped => exact ih (h.step stepped)

end History

end EcmaMachine
