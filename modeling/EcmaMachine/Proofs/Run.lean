import Mathlib.Data.Nat.Find
import EcmaMachine.Proofs.Bond.Step
import EcmaMachine.Realm.Basic

/-!
Runs of the machine together with those who take what it delivers. `Ledger.settle` is such a run;
here its steps are counted, and bonds are followed along it.
-/

namespace EcmaMachine

/-! ## Outcomes that leave the machine -/

theorem Wire.encodeWithin_look (s : Store) (k : Lens) (fuel : Nat) (path : List Value) (v : Value)
    (r : Registry) : encodeWithin (s.look k) fuel path v r = encodeWithin s fuel path v r := by
  induction fuel generalizing path v r with
  | zero => rfl
  | succ fuel ih =>
    have same : encodeWithin (s.look k) fuel = encodeWithin s fuel := by
      funext path v r
      exact ih path v r
    simp only [encodeWithin, same, Store.elements_look, Store.object_look]

theorem Wire.encodeValue_look (s : Store) (k : Lens) (r : Registry) (v : Value) :
    encodeValue (s.look k) r v = encodeValue s r v := by
  simp only [encodeValue, encodeWithin_look]
  rw [Store.look_eq]

def State.called {η : Type} (s : State η) (store : Store) (log : List String) : State η :=
  { s with world := { s.world with store, log := s.world.log ++ log } }

namespace Ledger

variable {l l' : Ledger} {n : Nat}

/-- The ledger, its deliveries with the stores seen through `Store.view`. -/
def view (b : Bool) (l : Ledger) : Ledger :=
  { l with deliveries := l.deliveries.map fun d => { d with store := d.store.view b } }

theorem view_false (l : Ledger) : l.view false = l := by
  simp [view, Store.view]

/-- The ledger, its deliveries with the stores as they are looked at. -/
def look (k : Lens) (l : Ledger) : Ledger :=
  { l with deliveries := l.deliveries.map fun d => { d with store := d.store.look k } }

theorem look_id (b : Bool) (l : Ledger) : l.look ⟨id, b⟩ = l.view b := by
  simp only [look, Store.look_id, view]

theorem replyTo_look (s : Store) (k : Lens) (registry : Registry) (scopes : SavedScopes)
    (o : Outcome) :
    replyTo (s.look k) registry scopes o =
      ((replyTo s registry scopes o).1, (replyTo s registry scopes o).2.1,
        (replyTo s registry scopes o).2.2.look k) := by
  cases o with
  | value v => simp only [replyTo, Wire.encodeValue_look]
  | failure e =>
    have told : errorValue (s.look k) e = Store.seen k (errorValue s e) := by
      simp only [errorValue, Exception.caught?, Signal.caught?_look, Exception.text_look,
        Store.newError_look]
      cases e.signal.caught? s <;> rfl
    simp only [replyTo, told, Store.seen, Wire.encodeValue_look]

/-- What taking an outcome does, said of any world with the same store up to `look`: the ledger,
the store and the new lines of the log are always the same. -/
def Receives {η : Type} (l : Ledger) (w : World η) (recipient : Recipient) (o : Outcome)
    (store : Store) (log : List String) : Prop :=
  (l.receive w recipient o).2 = { w with store, log := w.log ++ log } ∧
    ∀ (k : Lens) (x : World η), x.store = w.store.look k →
      (l.look k).receive x recipient o =
        ((l.receive w recipient o).1.look k, { x with store := store.look k, log := x.log ++ log })

theorem exists_receives {η : Type} (l : Ledger) (w : World η) (recipient : Recipient)
    (o : Outcome) : ∃ store log, l.Receives w recipient o store log := by
  have keeps : ∀ x : World η, { x with store := x.store, log := x.log ++ ([] : List String) } = x :=
    fun x => by simp
  have listed : ∀ (k : Lens) (x : World η), x.store = w.store.look k →
      ({ l.look k with deliveries := (l.look k).deliveries.push ⟨recipient, o, x.store⟩ }, x) =
        (({ l with deliveries := l.deliveries.push ⟨recipient, o, w.store⟩ } : Ledger).look k,
          { x with store := w.store.look k, log := x.log ++ ([] : List String) }) := by
    intro k x same
    simp [look, ← same]
  cases recipient with
  | caller tag | defaults => exact ⟨w.store, [], (keeps w).symm, listed⟩
  | handler onError =>
    cases o with
    | value v =>
      refine ⟨w.store, [], (keeps w).symm, fun k x same => ?_⟩
      simp [receive, ← same]
    | failure e =>
      cases onError with
      | log =>
        refine ⟨w.store, ["ERROR evaluation failed exception=" ++ e.text w.store], ?_,
          fun k x same => ?_⟩
        · simp [receive]
        · simp [receive, same]
      | _ => exact ⟨w.store, [], (keeps w).symm, listed⟩
  | reply context scopes tag =>
    cases found : l.context? context with
    | none =>
      refine ⟨w.store, [], ?_, fun k x same => ?_⟩
      · simp [receive, found]
      · have found' : (l.look k).context? context = none := found
        simp [receive, found, found', ← same]
    | some c =>
      refine ⟨(replyTo w.store c.registry scopes o).2.2, [], ?_, fun k x same => ?_⟩
      · simp only [receive, found]
        split <;> simp
      · have found' : (l.look k).context? context = some c := found
        simp only [receive, found, found', same, replyTo_look]
        generalize replyTo w.store c.registry scopes o = made
        have registered : (l.look k).setRegistry context made.2.1 =
          (l.setRegistry context made.2.1).look k := rfl
        have replies : ((l.setRegistry context made.2.1).look k).replies =
          (l.setRegistry context made.2.1).replies := rfl
        rw [registered, replies]
        split <;> simp [look]

/-! ## Steps -/

variable {η : Type}

def take (l : Ledger) (id : Nat) (outcome : Outcome) (s : State η) : Ledger × State η :=
  match l.recipients[id]? with
  | none => (l, s)
  | some recipient =>
    let (l, w) := l.receive s.world recipient outcome
    (l, { s with world := w })

theorem exists_take (l : Ledger) (id : Nat) (o : Outcome) (s : State η) :
    ∃ l' store log, l.take id o s = (l', s.called store log) ∧
      ∀ (b : Bool) (t : State η), t.world.store = s.world.store.view b →
        (l.view b).take id o t = (l'.view b, t.called (store.view b) log) := by
  cases found : l.recipients[id]? with
  | none =>
    refine ⟨l, s.world.store, [], ?_, fun b t same => ?_⟩
    · simp [take, found, State.called]
    · have found' : (l.view b).recipients[id]? = none := found
      simp [take, found', State.called, ← same]
  | some recipient =>
    obtain ⟨store, log, world, seen⟩ := l.exists_receives s.world recipient o
    refine ⟨(l.receive s.world recipient o).1, store, log, ?_, fun b t same => ?_⟩
    · simp only [take, found, world, State.called]
    · have found' : (l.view b).recipients[id]? = some recipient := found
      have received := seen ⟨fun tree => tree, b⟩ t.world (same.trans (Store.look_id b _).symm)
      have shown := look_id b
      rw [show l.look ⟨fun tree => tree, b⟩ = l.view b from shown l] at received
      simp only [take, found', received, State.called]
      exact congrArg₂ (fun l store => (l, t.called store log)) (shown _) (Store.look_id b _)

/-- One round of `settle`; `none` once the machine is at rest. -/
def step (host : Host η) (l : Ledger) (s : State η) : Option (Ledger × State η) :=
  match s.advance host with
  | .next s => some (l, s)
  | .rest _ => none
  | .delivered id outcome s => some (l.take id outcome s)

/-- Ledger and machine after `n` steps; `none` if the machine comes to rest before. -/
def after (host : Host η) : (n : Nat) → Ledger → State η → Option (Ledger × State η)
  | 0, l, s => some (l, s)
  | n + 1, l, s =>
    match l.step host s with
    | none => none
    | some (l, s) => l.after host n s

theorem after_succ {host : Host η} {s s' : State η} (h : l.step host s = some (l', s')) (n : Nat) :
    l.after host (n + 1) s = l'.after host n s' := by
  simp only [after, h]

theorem exists_step_of_after {host : Host η} {s : State η} {r : Ledger × State η}
    (h : l.after host (n + 1) s = some r) :
    ∃ l₁ s₁, l.step host s = some (l₁, s₁) ∧ l₁.after host n s₁ = some r := by
  cases stepped : l.step host s with
  | none => simp [after, stepped] at h
  | some next => exact ⟨next.1, next.2, rfl, after_succ stepped n ▸ h⟩

theorem after_add (host : Host η) (m n : Nat) (l : Ledger) (s : State η) :
    l.after host (m + n) s = (l.after host m s).bind fun r => r.1.after host n r.2 := by
  induction m generalizing l s with
  | zero =>
    rw [Nat.zero_add]
    rfl
  | succ m ih =>
    rw [Nat.succ_add, after, after]
    cases l.step host s with
    | none => rfl
    | some next => exact ih next.1 next.2

/-- A run that gets to step `n` has gone through the steps before. -/
theorem exists_after_of_le {host : Host η} {i : Nat} {s : State η} (le : i ≤ n)
    (reached : (l.after host n s).isSome = true) :
    ∃ l' s', l.after host i s = some (l', s') ∧ (l'.after host (n - i) s').isSome = true := by
  rw [← Nat.add_sub_cancel' le, after_add] at reached
  cases found : l.after host i s with
  | none => simp [found] at reached
  | some r => exact ⟨r.1, r.2, rfl, by simpa [found] using reached⟩

/-- The run from here comes to rest within `n` steps, and `P` is true of all its states. -/
def Throughout (host : Host η) (P : State η → Prop) : Nat → Ledger → State η → Prop
  | 0, _, _ => False
  | n + 1, l, s => P s ∧
    match l.step host s with
    | none => True
    | some (l, s) => Throughout host P n l s

theorem Throughout.after {host : Host η} {P : State η → Prop} {i : Nat} {s s' : State η}
    (h : l.Throughout host P n s) (reached : l.after host i s = some (l', s')) : P s' := by
  induction i generalizing n l s with
  | zero =>
    cases reached
    cases n with
    | zero => exact h.elim
    | succ n => exact h.1
  | succ i ih =>
    cases n with
    | zero => exact h.elim
    | succ n =>
      obtain ⟨l₁, s₁, stepped, reached⟩ := exists_step_of_after reached
      have later := h.2
      rw [stepped] at later
      exact ih later reached

theorem exists_first_hands {host : Host η} {s : State η} {k : List Frame}
    (ends : ∃ i l' s', l.after host i s = some (l', s') ∧ s'.Hands k) :
    ∃ n l' s', l.after host n s = some (l', s') ∧ s'.Hands k ∧
      ∀ i < n, ∀ l' s', l.after host i s = some (l', s') → ¬ s'.Hands k := by
  classical
  obtain ⟨l', s', reached, hands⟩ := Nat.find_spec ends
  exact ⟨Nat.find ends, l', s', reached, hands,
    fun i lt l' s' here hands => Nat.find_min ends lt ⟨l', s', here, hands⟩⟩

theorem settle_of_step {host : Host η} {s s' : State η} (h : l.step host s = some (l', s'))
    (fuel : Nat) : l.settle host (fuel + 1) s = l'.settle host fuel s' := by
  simp only [step] at h
  simp only [settle]
  cases adv : s.advance host with
  | next s₁ =>
    simp only [adv] at h
    cases h
    rfl
  | rest s₁ => simp [adv] at h
  | delivered id outcome s₁ =>
    simp only [adv, take, Option.some.injEq] at h ⊢
    split at h <;> simp_all

theorem settle_of_rest {host : Host η} {s : State η} (h : l.step host s = none) (fuel : Nat) :
    l.settle host fuel s = (l, s.world) := by
  cases fuel with
  | zero => rfl
  | succ fuel =>
    have rests : ∀ s', s.advance host = .rest s' → s' = s := by
      intro s' adv
      simp only [State.advance, State.applyFunction] at adv
      repeat' split at adv
      all_goals cases adv
      rfl
    simp only [step] at h
    simp only [settle]
    cases adv : s.advance host with
    | next s₁ | delivered id outcome s₁ => simp [adv] at h
    | rest s₁ => rw [rests s₁ adv]

theorem recipients_receive (l : Ledger) (w : World η) (recipient : Recipient) (o : Outcome) :
    (l.receive w recipient o).1.recipients = l.recipients := by
  simp only [receive]
  repeat' split
  all_goals rfl

theorem recipients_after {host : Host η} {s s' : State η} (h : l.after host n s = some (l', s')) :
    l'.recipients = l.recipients := by
  induction n generalizing l s with
  | zero =>
    cases h
    rfl
  | succ n ih =>
    obtain ⟨l₁, s₁, stepped, h⟩ := exists_step_of_after h
    refine (ih h).trans ?_
    simp only [step, take] at stepped
    repeat' split at stepped
    all_goals cases stepped
    · rfl
    · rfl
    · exact recipients_receive _ _ _ _

/-- The outcome of an evaluation goes to the one it was begun for, and the machine rests. -/
theorem settle_finish {host : Host η} {id : Nat} {recipient : Recipient}
    (found : l.recipients[id]? = some recipient) (w : World η) (o : Outcome) (fuel : Nat) :
    l.settle host (fuel + 1) ((⟨.idle, [.deliver id], [], w⟩ : State η).finish o) =
      l.receive w recipient o := by
  have stepped : l.step host ((⟨.idle, [.deliver id], [], w⟩ : State η).finish o) =
      some ((l.receive w recipient o).1, ⟨.idle, [], [], (l.receive w recipient o).2⟩) := by
    cases o <;> simp only [step, State.finish, State.give, State.fail, State.become, State.advance,
      State.rest, take, found]
  rw [settle_of_step stepped, settle_of_rest rfl]

/-- The run loop of the machine goes through the states that `after` counts. -/
theorem settle_of_after {host : Host η} {s s' : State η} (h : l.after host n s = some (l', s'))
    (fuel : Nat) : l.settle host (n + fuel) s = l'.settle host fuel s' := by
  induction n generalizing l s with
  | zero =>
    cases h
    rw [Nat.zero_add]
  | succ n ih =>
    obtain ⟨l₁, s₁, stepped, h⟩ := exists_step_of_after h
    rw [Nat.add_right_comm, settle_of_step stepped, ih h]

end Ledger

/-! ## Bonds along a run -/

namespace Bond

variable {η : Type} {B : Bond η} {host : Host η} {s t s' : State η} {l l' : Ledger}

inductive Linked (B : Bond η) : State η → State η → Prop
  | next {s t : State η} : B.Next s t → Linked B s t
  | held {s t : State η} {fs : List Frame} (o : Outcome) : B.Half fs s t →
    Linked B (s.hold o) (t.hold o)
  | rested {s t : State η} : B.Rested s t → Linked B s t

/-- What an evaluation hands over is an outcome and nothing else. -/
theorem Done.exists_finish (h : B.Done [] s t) (outcome : s.control.isOutcome = true) :
    ∃ o, s = (⟨.idle, B.base, B.agenda, s.world⟩ : State η).finish o := by
  have stack : s.stack = B.base := h.stack
  have agenda := h.agenda
  have fits := h.fits
  obtain ⟨control, _, _, world⟩ := s
  subst stack agenda
  cases control with
  | ret v receiver =>
    obtain rfl := fits.resolve_right id
    exact ⟨.value v, rfl⟩
  | fail e => exact ⟨.failure e, rfl⟩
  | _ => cases outcome

theorem Done.called {fs : List Frame} (h : B.Done fs s t) (store : Store) (log : List String) :
    B.Done fs (s.called store log) (t.called (store.view B.forgets) log) :=
  { h with rel := B.stored store log h.rel }

theorem After.step (l : Ledger) (h : B.After host s (s.advance host) (t.advance host)) :
    ∃ l' s' t', l.step host s = some (l', s') ∧
      (l.view B.forgets).step host t = some (l'.view B.forgets, t') ∧ B.Linked s' t' := by
  simp only [Ledger.step]
  generalize s.advance host = p, t.advance host = q at h
  cases h with
  | next next => exact ⟨l, _, _, rfl, rfl, .next next⟩
  | held o half => exact ⟨l, _, _, rfl, rfl, .held o half⟩
  | dropped _ _ _ rested => exact ⟨l, _, _, rfl, rfl, .rested rested⟩
  | @told s' t' fs id outcome done =>
    obtain ⟨l', store, log, took, seen⟩ := l.exists_take id outcome s'
    refine ⟨l', _, _, congrArg some took, congrArg some (seen _ _ (B.store_eq done.rel)), ?_⟩
    exact .next (.inl ⟨fs, done.called store log⟩)

structure Runs (B : Bond η) (host : Host η) : Prop where
  shared : B.Shared
  fair : B.Fair host
  quiet : B.agenda = []
  /-- A refusal does not break the bond. -/
  goesOn {fs : List Frame} {w x : World η} : B.Refused fs w x → B.Rel fs w x

variable (runs : B.Runs host)
include runs

theorem Linked.rel (h : B.Linked s t) : ∃ fs, B.Rel fs s.world t.world := by
  cases h with
  | next next =>
    rcases next with ⟨fs, done⟩ | ⟨fs, stopped⟩
    · exact ⟨fs, done.rel⟩
    · exact ⟨fs, runs.goesOn stopped.refused⟩
  | @held s t fs o half =>
    have rel := runs.shared.released true true half.rel
    rw [← half.stack, ← half.stack'] at rel
    exact ⟨fs, rel⟩
  | rested rested => exact rested.rel

theorem Linked.done_of_hands (h : B.Linked s t) (hands : s.Hands B.base) : B.Done [] s t := by
  have bare : ∀ fs, B.Done fs s t → B.Done [] s t := by
    intro fs done
    have empty : fs = [] := by simpa [hands.1] using done.stack
    exact empty ▸ done
  cases h with
  | next next =>
    rcases next with ⟨fs, done⟩ | ⟨fs, stopped⟩
    · exact bare fs done
    · exact bare fs (stopped.done (runs.goesOn stopped.refused))
  | held o half => cases hands.2
  | rested rested =>
    have outcome := hands.2
    rw [rested.control] at outcome
    cases outcome

section

variable (h : B.Linked s t) (prompt : s.Prompt host (B.allowed .plain ∧ B.config .plain = .plain))
  (busy : ¬ s.Hands B.base)
include h prompt busy

theorem Linked.cases_step (l : Ledger) : (∃ l' s' t', l.step host s = some (l', s') ∧
      (l.view B.forgets).step host t = some (l'.view B.forgets, t') ∧ B.Linked s' t') ∨
    B.Rested s t := by
  cases h with
  | next next =>
    rcases next with ⟨fs, done⟩ | ⟨fs, stopped⟩
    · exact .inl ((done.advance runs.shared runs.fair prompt busy).step l)
    · have done := stopped.done (runs.goesOn stopped.refused)
      exact .inl ((done.advance runs.shared runs.fair prompt busy).step l)
  | @held s t _ o half =>
    have after : B.After host (s.hold o) ((s.hold o).advance host) ((t.hold o).advance host) := by
      rw [State.advance_hold, State.advance_hold]
      exact .next ((half.release runs.shared o).finish o)
    exact .inl (after.step l)
  | rested rested => exact .inr rested

theorem Linked.step (stepped : l.step host s = some (l', s')) :
    ∃ t', (l.view B.forgets).step host t = some (l'.view B.forgets, t') ∧ B.Linked s' t' := by
  rcases h.cases_step runs prompt busy l with ⟨l₁, s₁, t', stepped₁, stepped', linked⟩ | rested
  · cases stepped.symm.trans stepped₁
    exact ⟨t', stepped', linked⟩
  · simp [Ledger.step, State.advance, rested.control, rested.agenda, runs.quiet] at stepped

end

/-- Bonded runs stay bonded until the first hands over its outcome. -/
theorem Linked.after {n : Nat} (h : B.Linked s t)
    (prompt : ∀ i l' s', l.after host i s = some (l', s') →
      s'.Prompt host (B.allowed .plain ∧ B.config .plain = .plain))
    (busy : ∀ i < n, ∀ l' s', l.after host i s = some (l', s') → ¬ s'.Hands B.base)
    (reached : l.after host n s = some (l', s')) :
    ∃ t', (l.view B.forgets).after host n t = some (l'.view B.forgets, t') ∧ B.Linked s' t' := by
  induction n generalizing l s t with
  | zero =>
    cases reached
    exact ⟨t, rfl, h⟩
  | succ n ih =>
    obtain ⟨l₁, s₁, stepped, reached⟩ := Ledger.exists_step_of_after reached
    have later : ∀ i, l.after host (i + 1) s = l₁.after host i s₁ := Ledger.after_succ stepped
    obtain ⟨t₁, stepped', linked⟩ :=
      h.step runs (prompt 0 l s rfl) (busy 0 (Nat.succ_pos n) l s rfl) stepped
    obtain ⟨t', reached', linked'⟩ := ih linked
      (fun i l' s' h => prompt (i + 1) l' s' ((later i).trans h))
      (fun i lt l' s' h => busy (i + 1) (Nat.succ_lt_succ lt) l' s' ((later i).trans h)) reached
    exact ⟨t', by simp only [Ledger.after, stepped', reached'], linked'⟩

end Bond

/-! ## Cells of frames -/

def Frame.cells (fs : List Frame) : List Cell := fs.filterMap Frame.cell?

namespace Frame

variable {f f' : Frame}

theorem cells_cons_none (none : f.cell? = none) (fs : List Frame) : cells (f :: fs) = cells fs :=
  List.filterMap_cons_none none

theorem cells_cons_some {cell : Cell} (own : f.cell? = some cell) (fs : List Frame) :
    cells (f :: fs) = cell :: cells fs :=
  List.filterMap_cons_some own

theorem mem_cells {cell : Cell} {fs : List Frame} (mem : f ∈ fs) (own : f.cell? = some cell) :
    cell ∈ cells fs :=
  List.mem_filterMap.2 ⟨f, mem, own⟩

theorem cells_swap (same : f'.cell? = f.cell?) (fs : List Frame) :
    cells (f' :: fs) = cells (f :: fs) := by
  simp only [cells, List.filterMap_cons, same]

end Frame

/-! ## Invariants along a run -/

namespace State

variable {η : Type}

/-- The frames that waited for a held call get the answer. -/
theorem answer_eq_finish {x : State η} {ticket : Nat} {k : List Frame}
    (held : x.world.held[ticket]? = some ⟨k, true, true⟩) (o : Outcome) :
    x.answer ticket o =
      ({ x with stack := k, world := (x.answer ticket o).world } : State η).finish o := by
  simp only [answer, accepts, held, Option.any_some]
  cases o <;> rfl

/-- A step that does not hold a call. -/
theorem prompt_of_step {host : Host η} {l l' : Ledger} {s s' : State η}
    (stepped : l.step host s = some (l', s')) (active : s'.control ≠ .idle) {calls : Prop}
    (all : calls) : s.Prompt host calls := by
  rintro word this args ⟨f, config, name, properties, control, found⟩
  simp only [Ledger.step, advance, control, applyFunction, found] at stepped
  cases stepped
  change (s.applyHost host word this args).control ≠ _ at active
  simp only [applyHost] at active
  simp only [asked]
  generalize host.call word this args s.world.held.size s.store s.world.host = called at active ⊢
  cases reply : called.reply with
  | value => trivial
  | failure => trivial
  | call => exact all
  | hold => simp [reply] at active

end State

namespace Invariant

variable {η : Type} {I : Invariant η} {host : Host η} {s t : State η} {fs : List Frame}

/-- A state between two steps of an evaluation that has the frames `fs` on the stack. -/
structure At (I : Invariant η) (fs : List Frame) (s : State η) : Prop where
  stack : s.stack = fs ++ I.base
  agenda : s.agenda = I.agenda
  built : Built I.allowed fs
  fits : s.control.Fits I.allowed fs
  holds : I.Holds fs s.world

structure StopsAt (I : Invariant η) (fs : List Frame) (s : State η) : Prop where
  stack : s.stack = fs ++ I.base
  agenda : s.agenda = I.agenda
  built : Built I.allowed fs
  aborted : ∃ reason node, s.control = .fail (.leaving (.aborted reason) node)
  refused : I.Refused fs s.world

theorem At.half (h : I.At fs s) : I.bond.Half fs s s where
  stack := h.stack
  stack' := by simpa [bond, Frame.mapConfig_id] using h.stack
  agenda := h.agenda
  agenda' := h.agenda
  built := h.built
  rel := ⟨rfl, h.holds⟩

theorem At.done (h : I.At fs s) : I.bond.Done fs s s :=
  { h.half with control := (Control.mapConfig_id _).symm, fits := h.fits }

theorem At.ofDone (h : I.bond.Done fs s t) : I.At fs s :=
  ⟨h.stack, h.agenda, h.built, h.fits, h.rel.2⟩

theorem At.exists_finish (h : I.At fs s) (hands : s.Hands I.base) :
    ∃ o, s = (⟨.idle, I.base, I.agenda, s.world⟩ : State η).finish o := by
  have empty : fs = [] := by simpa [hands.1] using h.stack
  subst empty
  exact h.done.exists_finish hands.2

theorem ofNext (h : I.bond.Next s t) : (∃ fs, I.At fs s) ∨ ∃ fs, I.StopsAt fs s := by
  rcases h with ⟨fs, done⟩ | ⟨fs, stopped⟩
  · exact .inl ⟨fs, .ofDone done⟩
  · exact .inr ⟨fs, stopped.stack, stopped.agenda, stopped.built, stopped.aborted,
      stopped.refused.2⟩

theorem exists_at_of_next (goesOn : ∀ fs w, I.Refused fs w → I.Holds fs w) (h : I.bond.Next s t) :
    ∃ fs, I.At fs s := by
  rcases h with ⟨fs, done⟩ | ⟨fs, stopped⟩
  · exact ⟨fs, .ofDone done⟩
  · exact ⟨fs, .ofDone (stopped.done ⟨stopped.refused.1, goesOn _ _ stopped.refused.2⟩)⟩

section

variable {l l' : Ledger} {s' : State η} (h : I.At fs s) (plain : I.allowed .plain)
include h plain

theorem At.step (goesOn : ∀ fs w, I.Refused fs w → I.Holds fs w) (busy : ¬ s.Hands I.base)
    (stepped : l.step host s = some (l', s')) (active : s'.control ≠ .idle) :
    ∃ fs', I.At fs' s' := by
  have after := h.done.advance I.shared (fun _ _ _ _ _ _ => rfl)
    (State.prompt_of_step stepped active ⟨plain, rfl⟩) busy
  obtain ⟨l₁, s₁, t₁, here, _, linked⟩ := after.step l
  cases stepped.symm.trans here
  cases linked with
  | next next => exact exists_at_of_next goesOn next
  | held => exact absurd rfl active
  | rested rested => exact absurd rested.control active

/-- A step into idleness holds a call or drops an outcome. -/
theorem At.held_or_dropped (prompt : s.Prompt host True) (busy : ¬ s.Hands I.base)
    (stepped : l.step host s = some (l', s')) (idle : s'.control = .idle) :
    (∃ o, s.Holds host [o]) ∨ s'.agenda = s.agenda := by
  obtain ⟨q, after⟩ : ∃ q, I.bond.After host s (s.advance host) q :=
    ⟨_, h.done.advance I.shared (fun _ _ _ _ _ _ => rfl) (prompt.mono fun _ => ⟨plain, rfl⟩) busy⟩
  simp only [Ledger.step] at stepped
  generalize s.advance host = p at after stepped
  cases after with
  | next next =>
    cases stepped
    exact absurd idle next.active
  | @told s₁ _ _ id outcome done =>
    have kept : s'.control = s₁.control := by
      obtain ⟨_, store, log, took, _⟩ := l.exists_take id outcome s₁
      cases (Option.some.inj stepped).symm.trans took
      rfl
    exact absurd (kept.symm.trans idle) done.active
  | held o _ holds => exact .inl ⟨o, holds⟩
  | dropped _ _ _ rested =>
    cases stepped
    exact .inr (rested.agenda.trans h.agenda.symm)

end

/-- The frames that waited for a held call are as they were. -/
theorem At.answer {J : Invariant η} (h : I.At fs s) (base : J.base = I.base)
    (allowed : J.allowed = I.allowed) {x : State η} (agenda : J.agenda = x.agenda)
    (held : x.world.held[s.world.held.size]? = some ⟨s.stack, true, true⟩) {o : Outcome}
    (holds : J.Holds fs (x.answer s.world.held.size o).world) :
    J.At fs (x.answer s.world.held.size o) := by
  refine ⟨?_, (x.agenda_answer _ o).trans agenda.symm, allowed ▸ h.built, ?_, holds⟩ <;>
    rw [State.answer_eq_finish held] <;> cases o
  · exact h.stack.trans (by rw [base])
  · exact h.stack.trans (by rw [base])
  · exact .inl rfl
  · trivial

/-- What a step comes to if the cells of the frames are not spent. -/
inductive Goes (I : Invariant η) (host : Host η) (l : Ledger) (s : State η) : Prop
  | next {s' : State η} : s.advance host = .next s' →
    (∃ fs, I.At fs s') ∨ (∃ fs, I.StopsAt fs s') → Goes I host l s
  | told {l' : Ledger} {s' : State η} {fs : List Frame} (id : Nat) (o : Outcome) (store : Store)
    (log : List String) : s.advance host = .delivered id o s' →
    l.step host s = some (l', s'.called store log) → I.At fs (s'.called store log) → Goes I host l s
  | held {s' : State η} {fs : List Frame} (o : Outcome) : s.Holds host [o] →
    s.advance host = .next (s'.hold o) → s'.stack = s.stack →
    s'.world.observers = s.world.observers → I.At fs ((s'.release o).finish o) → Goes I host l s

variable (h : I.At fs s) (prompt : s.Prompt host (I.allowed .plain)) (busy : ¬ s.Hands I.base)
  (unspent : ∀ cell ∈ Frame.cells fs, s.world.isSpent cell = false)
include h prompt busy unspent

theorem At.goes (l : Ledger) : I.Goes host l s := by
  have fair : I.bond.Fair host := fun _ _ _ _ _ _ => rfl
  obtain ⟨q, after⟩ : ∃ q, I.bond.After host s (s.advance host) q :=
    ⟨_, h.done.advance I.shared fair (prompt.mono fun plain => ⟨plain, rfl⟩) busy⟩
  generalize advance : s.advance host = p at after
  cases after with
  | next next => exact .next advance (ofNext next)
  | @told s' _ fs id o done =>
    obtain ⟨l', store, log, took, _⟩ := l.exists_take id o s'
    have stepped : l.step host s = some (l', s'.called store log) := by
      simp only [Ledger.step, advance, took]
    exact .told id o store log advance stepped (.ofDone (done.called store log))
  | @held s' _ fs o half holds stack _ observers =>
    have released := half.release I.shared o
    have finished : I.At fs ((s'.release o).finish o) := by
      cases o with
      | value v => exact ⟨half.stack, half.agenda, half.built, .inl rfl, released.rel.2⟩
      | failure e => exact ⟨half.stack, half.agenda, half.built, trivial, released.rel.2⟩
    exact .held o holds advance stack observers finished
  | @dropped _ _ f rest stack outcome spent _ =>
    obtain ⟨cell, own, spent⟩ := spent
    cases fs with
    | nil => exact absurd ⟨h.stack, outcome⟩ busy
    | cons f' fs =>
      have top := stack.symm.trans h.stack
      rw [List.cons_append] at top
      cases top
      rw [unspent cell (Frame.mem_cells List.mem_cons_self own)] at spent
      cases spent

/-- A step that calls nothing. -/
theorem At.moves {s' : State η} (advance : s.advance host = .next s')
    (idle : ∀ f this args config, s.control ≠ .apply f this args config) :
    (∃ fs', I.At fs' s') ∨ ∃ fs', I.StopsAt fs' s' := by
  cases h.goes prompt busy unspent .empty with
  | next advance' moved =>
    cases advance.symm.trans advance'
    exact moved
  | told _ _ _ _ advance' => cases advance.symm.trans advance'
  | held _ holds =>
    obtain ⟨_, this, args, ⟨f, config, _, _, control, _⟩, _⟩ := holds
    exact absurd control (idle f this args config)

end Invariant

/-! ## Evaluations from outside -/

/-- Every call of a host function is answered at once and exactly once. If `calls` is false, none of
them calls a function in turn. -/
def Host.Prompt {η : Type} (host : Host η) (calls : Prop) : Prop :=
  ∀ word this args ticket store h, (host.call word this args ticket store h).reply.Prompt calls

theorem Host.Prompt.state {η : Type} {host : Host η} {calls : Prop} (h : host.Prompt calls)
    (s : State η) : s.Prompt host calls :=
  fun word this args _ => h word this args _ _ _

def State.program {η : Type} (site : Site) (id : Nat) (w : World η) : State η :=
  (State.mk (.eval site) [.deliver id] [] w).pushCell .program

namespace Realm

variable {η : Type}

/-- The ledger and the state that the evaluation of a tree begins with. -/
def begun (r : Realm η) (node : Node) (kept : Option TreeId) (scope : ScopeId) (config : Config)
    (recipient : Recipient) : Ledger × State η :=
  let (id, ledger) := r.ledger.addRecipient recipient
  (ledger, .program ⟨.root (kept.getD (.single id)) node, scope, config⟩ id r.world)

theorem evalNode_eq (host : Host η) (fuel : Nat) (r : Realm η) (node : Node)
    (kept : Option TreeId) (scope : ScopeId) (config : Config) (recipient : Recipient) :
    r.evalNode host fuel node kept scope config recipient =
      let begun := r.begun node kept scope config recipient
      ⟨(begun.1.settle host fuel begun.2).2, (begun.1.settle host fuel begun.2).1⟩ := rfl

end Realm

/-! ## Cells of others -/

namespace World

variable {η : Type} {w w' w'' : World η} {c c' : Cell}

theorem isSpent_newCell (w : World η) : w.newCell.2.isSpent w.spent.size = false := by
  simp [isSpent, newCell]

/-- The second world has the cells of the first, spent or not as they were. -/
structure Spares (w w' : World η) : Prop where
  more : w.spent.size ≤ w'.spent.size
  same : ∀ cell < w.spent.size, w'.isSpent cell = w.isSpent cell

namespace Spares

theorem refl (w : World η) : w.Spares w := ⟨Nat.le_refl _, fun _ _ => rfl⟩

theorem trans (h : w.Spares w') (h' : w'.Spares w'') : w.Spares w'' where
  more := Nat.le_trans h.more h'.more
  same cell lt := (h'.same cell (Nat.lt_of_lt_of_le lt h.more)).trans (h.same cell lt)

theorem of_spent (same : w'.spent = w.spent) : w.Spares w' :=
  ⟨Nat.le_of_eq (by rw [same]), fun _ _ => by rw [isSpent, same, isSpent]⟩

theorem store (w : World η) (store : Store) : w.Spares { w with store } := of_spent rfl

theorem newCell (w : World η) : w.Spares w.newCell.2 where
  more := by simp [World.newCell]
  same cell lt := by
    simp only [isSpent, World.newCell, Array.getD_eq_getD_getElem?, Array.getElem?_push,
      if_neg (Nat.ne_of_lt lt)]

theorem unspent (h : w.Spares w') (unspent : w.isSpent c = false) : w'.isSpent c = false :=
  (h.same c (cell_lt unspent)).trans unspent

/-- What comes after a new cell leaves it unspent. -/
theorem fresh (h : w.newCell.2.Spares w') : w'.isSpent w.spent.size = false :=
  h.unspent w.isSpent_newCell

end Spares

/-! ## Own cells -/

/-- The cells are all different, and none of them is spent. -/
structure Intact (w : World η) (cells : List Cell) : Prop where
  apart : cells.Nodup
  unspent : ∀ cell ∈ cells, w.isSpent cell = false

namespace Intact

variable {cells cells' : List Cell}

theorem of_spent (h : w.Intact cells) (same : w'.spent = w.spent) : w'.Intact cells :=
  ⟨h.apart, fun cell mem => (World.Spares.of_spent same).unspent (h.unspent cell mem)⟩

theorem sublist (h : w.Intact cells) (sub : cells'.Sublist cells) : w.Intact cells' :=
  ⟨h.apart.sublist sub, fun cell mem => h.unspent cell (sub.subset mem)⟩

theorem newCell (h : w.Intact cells) : w.newCell.2.Intact cells :=
  ⟨h.apart, fun cell mem => (Spares.newCell w).unspent (h.unspent cell mem)⟩

theorem fresh (h : w.Intact cells) : w.newCell.2.Intact (w.spent.size :: cells) where
  apart := by
    refine List.nodup_cons.2 ⟨fun mem => ?_, h.apart⟩
    exact Nat.lt_irrefl _ (cell_lt (h.unspent _ mem))
  unspent := List.forall_mem_cons.2 ⟨w.isSpent_newCell, h.newCell.unspent⟩

theorem spend (h : w.Intact (c :: cells)) : (w.spend c).Intact cells := by
  obtain ⟨apart, others⟩ := List.nodup_cons.1 h.apart
  refine ⟨others, fun cell mem => ?_⟩
  have ne : cell ≠ c := fun eq => apart (eq ▸ mem)
  rw [isSpent_spend_of_ne w ne]
  exact h.unspent cell (List.mem_cons_of_mem _ mem)

end Intact

end World

namespace Invariant

/-- The cells of the frames, and some others with them, are all different and unspent; so no outcome
is ever dropped. -/
def intact (watched : List Cell) (k : List Frame) (agenda : Agenda) : Invariant η where
  allowed _ := True
  base := k
  agenda := agenda
  Holds fs w := w.Intact (Frame.cells fs ++ watched)
  Refused fs w := w.Intact (Frame.cells fs ++ watched)
  called _ _ _ h := h.of_spent rfl
  marked _ h := h.of_spent rfl
  released _ h := h.of_spent rfl
  newCell h := h.newCell
  push h plain := by rwa [Frame.cells_cons_none (Frame.cell_of_isPlain plain)]
  pushCell h cell := by
    rw [Frame.cells_cons_some cell]
    exact h.fresh
  pop h _ := h.sublist (((List.sublist_cons_self ..).filterMap _).append_right _)
  swap h _ same := by rwa [Frame.cells_swap same]
  spend h own := by
    rw [Frame.cells_cons_some own] at h
    exact h.spend
  left _ h _ := h.of_spent (by simp)
  entered h _ _ := h.of_spent (by simp)
  refused _ h _ _ := h.of_spent (by simp)

end Invariant

/-! ## Frames below an evaluation -/

namespace Bond

variable {η : Type}

/-- Two runs that differ in the calls that are held and in what the host keeps; of these, the relation
says what is known. -/
def aside (known : Array Held → η → Array Held → η → Prop) (base base' : List Frame)
    (agenda agenda' : Agenda) : Bond η where
  config := id
  forgets := false
  allowed _ := True
  base := base
  base' := base'
  agenda := agenda
  agenda' := agenda'
  Rel _ w x := ∃ held host, x = { w with held, host } ∧ known w.held w.host held host
  Refused _ w x := ∃ held host, x = { w with held, host } ∧ known w.held w.host held host
  references _ := Config.references_id
  store_eq := by
    rintro fs w _ ⟨held, host, rfl, _⟩
    rfl
  spent_eq := by
    rintro fs w _ ⟨held, host, rfl, _⟩
    rfl
  answered_eq := by
    rintro fs w _ ⟨held, host, rfl, _⟩
    rfl
  stored := by
    rintro fs w _ store log ⟨held, host, rfl, same⟩
    exact ⟨held, host, rfl, same⟩
  marked := by
    rintro fs w _ cell ⟨held, host, rfl, same⟩
    exact ⟨held, host, rfl, same⟩
  newCell := by
    rintro fs w _ ⟨held, host, rfl, same⟩
    exact ⟨held, host, rfl, same⟩
  push h _ := h
  pushCell := by
    rintro fs w _ f ⟨held, host, rfl, same⟩ _
    exact ⟨held, host, rfl, same⟩
  pop h _ := h
  swap h _ _ := h
  spend := by
    rintro fs w _ f cell ⟨held, host, rfl, same⟩ _
    exact ⟨held, host, rfl, same⟩
  left := by
    rintro fs w _ site slot o ⟨held, host, rfl, same⟩ _
    exact ⟨held, host, by simp only [Site.mapConfig_id, id, World.tell_with], by simpa using same⟩
  asked := by
    rintro fs w _ site slot ⟨held, host, rfl, _⟩ _
    simp [Site.mapConfig_id, World.tell_with]
  entered := by
    rintro fs w _ site slot ⟨held, host, rfl, same⟩ _ _
    exact ⟨held, host, by simp only [Site.mapConfig_id, id, World.tell_with], by simpa using same⟩
  refused := by
    rintro fs w _ site slot reason e ⟨held, host, rfl, same⟩ _ _
    exact ⟨held, host, by simp only [Site.mapConfig_id, id, World.tell_with], by simpa using same⟩

/-- An evaluation on the empty stack and the same evaluation above `k`. -/
def beside (known : Array Held → Array Held → Prop) (k : List Frame) (agenda : Agenda) : Bond η :=
  aside (fun a host b host' => host' = host ∧ known a b) [] k [] agenda

theorem shared_beside {known : Array Held → Array Held → Prop} {k : List Frame} {agenda : Agenda}
    (size : ∀ {a b}, known a b → b.size = a.size)
    (push : ∀ {a b} fs v f, known a b → known (a.push ⟨fs, v, f⟩) (b.push ⟨fs ++ k, v, f⟩)) :
    (beside known k agenda : Bond η).Shared where
  host_eq := by
    rintro fs w _ ⟨held, _, rfl, rfl, _⟩
    rfl
  held_size := by
    rintro fs w _ ⟨held, _, rfl, rfl, same⟩
    exact size same
  called := by
    rintro fs w _ store host log ⟨held, _, rfl, rfl, same⟩
    exact ⟨held, host, rfl, rfl, same⟩
  released := by
    rintro fs w _ valueOpen failureOpen ⟨held, _, rfl, rfl, same⟩
    refine ⟨_, w.host, rfl, rfl, ?_⟩
    simpa [beside, aside, Frame.mapConfig_id] using push fs valueOpen failureOpen same

end Bond

/-! ## A script to try things on -/

namespace Sample

def call (name : String) : Node :=
  .mk (.callExpression (.mk (.identifier name) none) []) none

private def block (statement : Shape Node) : Node :=
  .mk (.blockStatement [.mk statement none]) none

/-- `try { throw f() } catch (e) { e } finally { f() }` -/
def rescue (config : Config) : Site :=
  let name : Node := .mk (.identifier "e") none
  let handler := .mk (.catchClause (some name) (block (.expressionStatement name))) none
  let node := .mk (.tryStatement (block (.throwStatement (call "f"))) (some handler)
    (some (block (.expressionStatement (call "f"))))) none
  ⟨.root (.single 0) node, 0, config⟩

/-- Every call is held and answered with null at once. -/
def host : Host Unit := ⟨fun _ _ _ _ store kept => ⟨.hold [.value .null], store, ["f"], kept⟩⟩

def world (observers : List Observer) : World Unit :=
  let (f, store) := Store.empty.newFunction (.host "f" "f")
  let (_, store) := store.rootScope [("f", .function f)]
  { World.start () with store, observers := observers.toArray }

theorem host_prompt (calls : Prop) (s : State Unit) : s.Prompt host calls :=
  fun _ _ _ _ => trivial

theorem exists_hands {i : Nat} {l : Ledger} {s : State Unit}
    (h : ((l.after host i s).any fun r => r.2.stack.isEmpty && r.2.control.isOutcome) = true) :
    ∃ i l' s', l.after host i s = some (l', s') ∧ s'.Hands [] := by
  obtain ⟨r, reached, hands⟩ := (Option.any_eq_true _ _).1 h
  simp only [Bool.and_eq_true, List.isEmpty_iff] at hands
  exact ⟨i, r.1, r.2, reached, hands⟩

end Sample

end EcmaMachine
