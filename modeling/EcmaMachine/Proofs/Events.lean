import EcmaMachine.Proofs.Views

/-!
The events that an evaluation shows to the first of its observers are well nested, also where others
refuse some of them and where host functions answer late.
-/

namespace EcmaMachine

variable {η : Type}

/-- One evaluation above the frames `k`, from its first state to a later one, with the events that
it has shown to `spy`. A host call that is held is answered once: at any later time, when the
machine may have done anything else in between that leaves the call open. -/
inductive Course (host : Host η) (spy : Nat) (k : List Frame) (l₀ : Ledger) (s₀ : State η) :
    List Event → Ledger → State η → Prop
  | start : Course host spy k l₀ s₀ [] l₀ s₀
  | step {es new : List Event} {l l' : Ledger} {s s' : State η} :
    Course host spy k l₀ s₀ es l s → ¬ s.Hands k → l.step host s = some (l', s') →
    s'.control ≠ .idle → s'.noted spy = new ++ s.noted spy →
    Course host spy k l₀ s₀ (new ++ es) l' s'
  | answer {es : List Event} {l l' : Ledger} {s x : State η} {answers : List Outcome}
    (o : Outcome) : Course host spy k l₀ s₀ es l s → s.Holds host answers →
    x.world.held[s.world.held.size]? = some ⟨s.stack, true, true⟩ →
    x.world.observers[spy]?.map (·.watch) = s.world.observers[spy]?.map (·.watch) →
    Course host spy k l₀ s₀ es l' (x.answer s.world.held.size o)

def Seat.head (spy : Nat) (rest : List Nat) (single : spy ∉ rest) : Seat :=
  ⟨[], spy, rest, List.not_mem_nil, single⟩

theorem Course.viewing {host : Host η} {spy : Nat} {rest : List Nat} {k : List Frame}
    {l₀ l : Ledger} {s₀ s : State η} {es : List Event} (h : Course host spy k l₀ s₀ es l s)
    (single : spy ∉ rest) : Viewing host (.head spy rest single) k l₀ s₀ es l s := by
  induction h with
  | start => exact .start
  | step _ busy stepped active noted ih => exact ih.step busy stepped active noted
  | answer o _ holds held watch ih =>
    exact ih.answer o holds held (List.forall_mem_singleton.2 watch)

theorem Viewing.course {host : Host η} {p : Seat} {k : List Frame} {l₀ l : Ledger}
    {s₀ s : State η} {es : List Event} (h : Viewing host p k l₀ s₀ es l s) :
    Course host p.spy k l₀ s₀ es l s := by
  induction h with
  | start => exact .start
  | step _ busy stepped active noted ih => exact ih.step busy stepped active noted
  | answer o _ holds held ways ih => exact ih.answer o holds held (ways _ List.mem_cons_self)

/-- What an evaluation shows to its observers is well nested at any time, and all brackets are
closed when it hands over its outcome. -/
theorem events_well_nested (host : Host η) (spy : Nat) (rest : List Nat) (k : List Frame)
    (agenda : List (Nat × Outcome)) (l : Ledger) (w : World η) (site : Site) (o : Observer)
    (observers : site.config.observers = spy :: rest) (single : spy ∉ rest)
    (watching : w.observers[spy]? = some o) (records : o.Records)
    {es : List Event} {l' : Ledger} {s' : State η}
    (course : Course host spy k l ⟨.eval site, k, agenda, w⟩ es l' s') :
    ∃ opened, Nested es opened ∧ (s'.Hands k → opened = []) := by
  obtain ⟨opened, torn, closed⟩ := (course.viewing single).torn observers watching records
  exact ⟨opened, torn.nested (List.forall_mem_nil _), closed⟩

namespace Sample

/-- The catch clause is refused, the call in the block and the one in the finalizer are answered
late. -/
theorem rescue_events_well_nested : ∃ es l' s',
    Course host 0 [] .empty ⟨.eval (rescue ⟨[0, 1], false⟩), [], [],
      world [.recorder, .forbid ["CatchClause"]]⟩ es l' s' ∧
    s'.Hands [] ∧ ∃ opened, Nested es opened ∧ (s'.Hands [] → opened = []) := by
  have records : Observer.recorder.Records := fun _ _ _ => rfl
  have single : 0 ∉ [1] := by decide
  obtain ⟨n, l', s', reached, hands, busy⟩ := Ledger.exists_first_hands
    (exists_hands (i := 54) (l := .empty)
      (s := ⟨.eval (rescue ⟨[0, 1], false⟩), [], [],
        world [.recorder, .forbid ["CatchClause"]]⟩) (by rfl))
  obtain ⟨es, viewing, _⟩ := Beholds.viewing_after (p := .head 0 [1] single)
    (.start rfl rfl records) (fun _ _ _ _ => host_prompt _ _) busy reached hands
  exact ⟨es, l', s', viewing.course, hands,
    events_well_nested _ _ _ _ _ _ _ _ _ rfl single rfl records viewing.course⟩

end Sample

end EcmaMachine
