import EcmaMachine.Proofs.Region.Step
import EcmaMachine.Proofs.Run

/-!
Whole evaluations in a region, together with those who take what is delivered, and with the answers
that come later from outside.
-/

namespace EcmaMachine

variable {η : Type}

/-- Ledger and machine on the way from a start. Wherever the machine is left, with work to do or
without, its world may be taken up again with an answer to a held call; which answers there are may
depend on the store of the time. -/
inductive Onward (host : Host η) (answers : Store → Nat → Outcome → Prop) (l : Ledger) (s : State η) :
    Ledger → State η → Prop
  | start : Onward host answers l s l s
  | step {l' l'' : Ledger} {s' s'' : State η} : Onward host answers l s l' s' →
    l'.step host s' = some (l'', s'') → Onward host answers l s l'' s''
  | answered {l' : Ledger} {s' : State η} {ticket : Nat} {o : Outcome} :
    Onward host answers l s l' s' → answers s'.store ticket o →
    Onward host answers l s l' ⟨.idle, [], [(ticket, o)], s'.world⟩

namespace Onward

variable {host : Host η} {answers : Store → Nat → Outcome → Prop} {l l' : Ledger} {s s' : State η}

theorem exists_settle (h : Onward host answers l s l' s') (fuel : Nat) :
    ∃ l'' s'', Onward host answers l s l'' s'' ∧ l'.settle host fuel s' = (l'', s''.world) := by
  induction fuel generalizing l' s' with
  | zero => exact ⟨l', s', h, rfl⟩
  | succ fuel ih =>
    cases stepped : l'.step host s' with
    | none => exact ⟨l', s', h, Ledger.settle_of_rest stepped _⟩
    | some next =>
      rw [Ledger.settle_of_step stepped]
      exact ih (h.step stepped)

theorem exists_evalNode (answers : Store → Nat → Outcome → Prop) (host : Host η) (fuel : Nat) (r : Realm η)
    (node : Node) (kept : Option TreeId) (scope : ScopeId) (config : Config)
    (recipient : Recipient) :
    ∃ l s, Onward host answers (r.begun node kept scope config recipient).1
        (r.begun node kept scope config recipient).2 l s ∧
      r.evalNode host fuel node kept scope config recipient = ⟨s.world, l⟩ := by
  generalize begins : r.begun node kept scope config recipient = begun
  have onward : Onward host answers begun.1 begun.2 begun.1 begun.2 := .start
  obtain ⟨l, s, onward, settled⟩ := onward.exists_settle fuel
  refine ⟨l, s, onward, ?_⟩
  rw [Realm.evalNode_eq]
  simp only [begins, settled]

end Onward

namespace Region

variable {R : Region} {host : Host η} {l l' : Ledger} {s s' : State η} {t₀ : Store}
  {leave : Leave} {o : Outcome} {store : Store}

/-! ## Those who take an outcome -/

theorem errorValue (k : R.keeps store) {e : Exception} (signals : R.Signals store e.signal) :
    R.Step store (Ledger.errorValue store e).2 := by
  unfold Ledger.errorValue
  split
  · next taken => exact (caught k signals taken).1
  · exact (newError k _ _).1

theorem replyTo (k : R.keeps store) (registry : Registry) (scopes : SavedScopes)
    (gives : R.Gives store o) : R.Step store (Ledger.replyTo store registry scopes o).2.2 := by
  cases o with
  | value v => exact .refl k
  | failure e => exact errorValue k gives

theorem receive {w : World η} (k : R.keeps w.store) (l : Ledger) (recipient : Recipient)
    (gives : R.Gives w.store o) : R.Step w.store (l.receive w recipient o).2.store := by
  unfold Ledger.receive
  split
  · exact .refl k
  · exact .refl k
  · split
    · exact .refl k
    · next c found =>
      have replied := replyTo k c.registry ‹SavedScopes› gives
      dsimp only
      split <;> exact replied
  · exact .refl k

/-- What has been delivered since, with the stores that it was delivered from. -/
def Delivers (R : Region) (l l' : Ledger) : Prop :=
  ∀ (i : Nat) d, l.deliveries.size ≤ i → l'.deliveries[i]? = some d →
    R.keeps d.store ∧ R.Gives d.store d.outcome

theorem delivers_refl (l : Ledger) : R.Delivers l l := by
  intro i d le found
  rw [Array.getElem?_eq_none le] at found
  cases found

theorem Delivers.receive (h : R.Delivers l l') {w : World η} (k : R.keeps w.store)
    (recipient : Recipient) (gives : R.Gives w.store o) :
    R.Delivers l (l'.receive w recipient o).1 := by
  have pushed : R.Delivers l { l' with
      deliveries := l'.deliveries.push ⟨recipient, o, w.store⟩ } := by
    intro i d le found
    rw [Array.getElem?_push] at found
    split at found
    · cases found
      exact ⟨k, gives⟩
    · exact h i d le found
  unfold Ledger.receive
  split
  · exact h
  · exact h
  · split
    · exact h
    · dsimp only
      split <;> exact h
  · exact pushed

/-! ## Steps and runs -/

/-- Only the store has changed, and the log. -/
theorem Stays.called (h : R.Stays s) (next : R.Next s.store store) (log : List String) :
    R.Stays (s.called store log) :=
  { h.toWithin.withStore next with
    store := rfl
    control := next.pursues h.control }

theorem Keeps.take (h : R.Keeps t₀ leave s) (delivers : R.Delivers l l') (id : Nat)
    (gives : R.Gives s.store o) :
    R.Keeps t₀ leave (l'.take id o s).2 ∧ R.Delivers l (l'.take id o s).1 := by
  unfold Ledger.take
  split
  · exact ⟨h, delivers⟩
  · next recipient _ =>
    refine ⟨?_, delivers.receive h.keeps recipient gives⟩
    have step := Region.receive h.keeps l' recipient gives
    obtain ⟨store, log, received, -⟩ := Ledger.exists_receives l' s.world recipient o
    rw [received] at step
    have same : ({ s with world := (l'.receive s.world recipient o).2 } : State η) =
        s.called store log := by rw [received]; rfl
    have called : R.Keeps t₀ leave (s.called store log) :=
      ⟨h.called step.toNext log, h.faithful.trans ⟨.inr step.loyal, .inr step.tended⟩⟩
    exact (same ▸ called :)

theorem Stays.step (h : R.Stays s) (leave : Leave) (admits : R.Admits host) (fits : R.Fits s)
    (abides : leave.rewires ∨ s.Abides host) (tends : leave.neglects ∨ s.Tends host)
    (delivers : R.Delivers l l') {l'' : Ledger} (stepped : l'.step host s = some (l'', s')) :
    R.Keeps s.store leave s' ∧ R.Delivers l l'' := by
  have makes := h.advance leave admits fits abides tends
  simp only [Ledger.step] at stepped
  split at stepped
  · next advanced =>
    rw [advanced] at makes
    cases stepped
    exact ⟨makes, delivers⟩
  · cases stepped
  · next id o after advanced =>
    rw [advanced] at makes
    have taken := makes.2.take delivers id makes.1
    rw [Option.some.inj stepped] at taken
    exact taken

/-- An evaluation does not leave the region, nor does what it delivers. -/
theorem stays_onward (admits : R.Admits host) (links : ∀ t id p, R.links t id p)
    {answers : Store → Nat → Outcome → Prop}
    (gives : ∀ t ticket o, answers t ticket o → R.since ≤ ticket ∧ R.Gives t o) (h : R.Stays s)
    (onward : Onward host answers l s l' s') : R.Stays s' ∧ R.Delivers l l' := by
  induction onward with
  | start => exact ⟨h, delivers_refl l⟩
  | step _ stepped ih =>
    obtain ⟨keeps, delivers⟩ := ih.1.step ⟨True, True⟩ admits (fits_of_links links _)
      (.inl trivial) (.inl trivial) ih.2 stepped
    exact ⟨keeps.toStays, delivers⟩
  | answered _ answer ih =>
    exact ⟨{ ih.1 with
      stack := List.forall_mem_nil _
      agenda := List.forall_mem_singleton.2 (gives _ _ _ answer)
      control := trivial }, ih.2⟩

theorem stays_begun (r : Realm η) (k : R.keeps r.world.store) (since : R.since = r.world.held.size)
    {node : Node} {scope : ScopeId} (allows : R.Allows r.world.store scope .run node)
    (kept : Option TreeId) (config : Config) (recipient : Recipient) :
    R.Stays (r.begun node kept scope config recipient).2 where
  store := rfl
  keeps := k
  stack := List.forall_mem_cons.2 ⟨trivial, List.forall_mem_singleton.2 trivial⟩
  agenda := List.forall_mem_nil _
  held ticket held le found := by
    have out : r.world.held[ticket]? = none := Array.getElem?_eq_none (since ▸ le)
    cases out.symm.trans found
  calls := Nat.le_of_eq since
  control := allows

end Region

end EcmaMachine
