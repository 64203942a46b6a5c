import EcmaMachine.Proofs.Views

/-!
The members of a list of observers. What a member sees is well nested behind others that treat both
events of a bracket alike; behind a step budget, which counts enters only, it is not.
-/

namespace EcmaMachine

variable {η : Type}

theorem Observer.even_forbid (labels : List String) : (forbid labels).Even := by
  have refuses : ∀ e, (forbid labels).Refuses e → labels.contains e.label = true := by
    rintro e ⟨notes, store, reason, refused⟩
    by_contra lets
    cases (if_neg lets).symm.trans refused
  have lets : ∀ e, (forbid labels).Lets e → ¬ labels.contains e.label = true := by
    rintro e ⟨notes, store, passed⟩ refused
    cases (if_pos refused).symm.trans passed
  intro e outcome _
  exact ⟨fun both => lets _ both.2 (refuses _ both.1), fun both => lets _ both.2 (refuses _ both.1)⟩

/-- What a member of a list of observers sees of an evaluation. Its view has no other gaps than
those that the members in front of it make: an exit comes without its enter only where one of them
has refused the enter, and an exit is missing only where one of them has refused it. Behind members
that refuse both events of a bracket or neither, and so at the head of the list, the view is well
nested, and all is closed when the evaluation hands over its outcome. -/
theorem member_views (host : Host η) (p : Seat) (k : List Frame) (agenda : List (Nat × Outcome))
    (l : Ledger) (w : World η) (site : Site) (o : Observer)
    (observers : site.config.observers = p.row) (watching : w.observers[p.spy]? = some o)
    (records : o.Records) {es : List Event} {l' : Ledger} {s' : State η}
    (viewing : Viewing host p k l ⟨.eval site, k, agenda, w⟩ es l' s') :
    ∃ opened, Torn w.observers p.front es opened ∧ (s'.Hands k → opened = []) ∧
      ((∀ id ∈ p.front, ∀ o, w.observers[id]? = some o → o.Even) → Nested es opened) := by
  obtain ⟨opened, torn, closed⟩ := viewing.torn observers watching records
  exact ⟨opened, torn, closed, torn.nested⟩

namespace Sample

def second : Seat := ⟨[0], 1, [], by decide, List.not_mem_nil⟩

def watchedFrom (first : Observer) : State Unit :=
  ⟨.eval (rescue ⟨[0, 1], false⟩), [], [], world [first, .recorder]⟩

theorem viewing_rescue (first : Observer) {n : Nat} {p : State Unit → Bool}
    (busy : ∀ i < n, (Ledger.empty.after host i (watchedFrom first)).all (fun r =>
      !(r.2.stack.isEmpty && r.2.control.isOutcome)) = true)
    (ends : ((Ledger.empty.after host n (watchedFrom first)).any fun r =>
      r.2.stack.isEmpty && r.2.control.isOutcome && p r.2) = true) :
    ∃ l' s', Viewing host second [] .empty (watchedFrom first) (s'.noted 1) l' s' ∧ s'.Hands [] ∧
      p s' = true := by
  obtain ⟨⟨l', s'⟩, reached, final⟩ := (Option.any_eq_true _ _).1 ends
  simp only [Bool.and_eq_true, List.isEmpty_iff] at final
  have busy : ∀ i < n, ∀ l₁ s₁, Ledger.empty.after host i (watchedFrom first) = some (l₁, s₁) →
      ¬ s₁.Hands [] := by
    intro i lt l₁ s₁ here hands
    have none := busy i lt
    simp [here, hands.1, hands.2] at none
  obtain ⟨es, viewing, noted⟩ := Beholds.viewing_after (p := second)
    (.start rfl rfl fun _ _ _ => rfl) (fun _ _ _ _ => host_prompt _ _) busy reached final.1
  have all : s'.noted 1 = es := noted.trans (List.append_nil es)
  exact ⟨l', s', all ▸ viewing, final⟩

/-- A recorder behind an observer that forbids the catch clause sees well nested events, for both
events of the clause are refused. -/
theorem rescue_member_views : ∃ es l' s',
    Viewing host second [] .empty (watchedFrom (.forbid ["CatchClause"])) es l' s' ∧ s'.Hands [] ∧
    Nested es [] := by
  obtain ⟨l', s', viewing, hands, -⟩ := viewing_rescue (.forbid ["CatchClause"]) (n := 54)
    (p := fun _ => true) (by decide) (by rfl)
  obtain ⟨opened, -, closed, nested⟩ := member_views host second [] [] .empty _ _ .recorder rfl rfl
    (fun _ _ _ => rfl) viewing
  refine ⟨_, l', s', viewing, hands, ?_⟩
  rw [← closed hands]
  refine nested fun id mem o found => ?_
  obtain rfl := List.mem_singleton.1 mem
  cases found
  exact Observer.even_forbid _

end Sample

/-- Each exit of well nested events has an enter. -/
theorem Nested.count_exits_le {es opened : List Event} (h : Nested es opened) :
    es.countP (fun e => !e.isEnter) ≤ es.countP Event.isEnter := by
  suffices counts : es.countP (fun e => !e.isEnter) + opened.length = es.countP Event.isEnter by omega
  induction h with
  | nil => rfl
  | @enter es opened e _ stage ih =>
    have entering : e.isEnter = true := by rw [Event.isEnter, stage]
    rw [List.countP_cons_of_neg (by simp [entering]), List.countP_cons_of_pos entering,
      List.length_cons]
    omega
  | @exit es opened e o _ ih =>
    have leaving : ({ e with stage := .exit o } : Event).isEnter = false := rfl
    rw [List.length_cons] at ih
    rw [List.countP_cons_of_pos (by simp [leaving]), List.countP_cons_of_neg (by simp [leaving])]
    omega

/-- A recorder behind a step budget of four nodes sees one exit too many. -/
theorem Sample.budget_tears_view : ∃ es l' s',
    Viewing host second [] .empty (watchedFrom (.stepBudget 4)) es l' s' ∧ s'.Hands [] ∧
    ∀ opened, ¬ Nested es opened := by
  obtain ⟨l', s', viewing, hands, more⟩ := viewing_rescue (.stepBudget 4) (n := 25)
    (p := fun s => decide ((s.noted 1).countP Event.isEnter < (s.noted 1).countP fun e => !e.isEnter))
    (by decide) (by rfl)
  refine ⟨_, l', s', viewing, hands, fun opened nested => ?_⟩
  exact absurd nested.count_exits_le (Nat.not_le.2 (of_decide_eq_true more))

end EcmaMachine
