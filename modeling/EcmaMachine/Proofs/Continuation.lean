import EcmaMachine.Proofs.Run

/-!
An evaluation does not depend on what waits for it. Run on the empty stack it shows all that it
does; above any other frames it takes the same steps, hands the same outcome to them once, and
leaves the same world.
-/

namespace EcmaMachine

/-! ## Frames below an evaluation -/

namespace World

variable {η : Type}

/-- The calls that were held since the first `old` ones have the frames `k` below their own. -/
def under (old : Nat) (k : List Frame) (w : World η) : World η :=
  { w with
    held := w.held.mapIdx fun i h => if i < old then h else { h with stack := h.stack ++ k } }

@[simp] theorem size_held_under (old : Nat) (k : List Frame) (w : World η) :
    (w.under old k).held.size = w.held.size := by
  simp [under]

theorem under_self (k : List Frame) (w : World η) : w.under w.held.size k = w := by
  have same : (w.held.mapIdx fun i h =>
      if i < w.held.size then h else { h with stack := h.stack ++ k }) = w.held := by
    apply Array.ext
    · simp
    · intro i _ lt
      simp [lt]
  rw [under, same]

theorem under_push {old : Nat} {w : World η} (le : old ≤ w.held.size) (k : List Frame) (h : Held) :
    ({ w with held := w.held.push h } : World η).under old k =
      { w.under old k with
        held := (w.under old k).held.push { h with stack := h.stack ++ k } } := by
  simp [under, Array.mapIdx_push, Nat.not_lt.2 le]

end World

namespace Bond

variable {η : Type}

def above (old : Nat) (k : List Frame) (agenda : Agenda) : Bond η :=
  beside (fun a b => old ≤ a.size ∧
    b = a.mapIdx fun i h => if i < old then h else { h with stack := h.stack ++ k }) k agenda

variable {host : Host η} {s t : State η} {old : Nat} {k : List Frame} {agenda : Agenda}

theorem rel_above {fs : List Frame} {w x : World η} (h : (above old k agenda).Rel fs w x) :
    x = w.under old k ∧ old ≤ w.held.size := by
  obtain ⟨_, _, rfl, rfl, le, rfl⟩ := h
  exact ⟨rfl, le⟩

theorem rel_under (w : World η) (k : List Frame) (agenda : Agenda) (fs : List Frame) :
    (above w.held.size k agenda).Rel fs w w :=
  ⟨_, _, (w.under_self k).symm, rfl, Nat.le_refl _, rfl⟩

theorem runs_above : (above old k agenda : Bond η).Runs host where
  shared := shared_beside (fun h => by simp [h.2]) fun _ _ _ h =>
    ⟨by simpa using Nat.le_succ_of_le h.1, by simp [h.2, Array.mapIdx_push, Nat.not_lt.2 h.1]⟩
  fair _ _ _ _ _ _ := rfl
  quiet := rfl
  goesOn := id

end Bond

namespace State

variable {η : Type}

/-- The state of an evaluation, put above the frames `k`. While a call is held, all frames are put
by with it. -/
def under (old : Nat) (k : List Frame) (agenda : Agenda) (s : State η) :
    State η where
  control := s.control
  stack := match s.control with
    | .idle => s.stack
    | _ => s.stack ++ k
  agenda := s.agenda ++ agenda
  world := s.world.under old k

theorem Hands.of_under {old : Nat} {k : List Frame} {agenda : Agenda} {s : State η}
    (h : (s.under old k agenda).Hands k) : s.Hands [] := by
  obtain ⟨stack, outcome⟩ := h
  refine ⟨?_, outcome⟩
  simp only [under] at stack outcome
  split at stack
  · rename_i idle
    rw [idle] at outcome
    cases outcome
  · simpa using stack

end State

namespace Bond

variable {η : Type} {host : Host η} {s t : State η} {old : Nat} {k : List Frame}
  {agenda : Agenda}

theorem Done.eq_under {fs : List Frame} (h : (above old k agenda).Done fs s t) :
    t = s.under old k agenda := by
  have stack : s.stack = fs := by simpa [above, beside, aside] using h.stack
  have stack' : t.stack = fs ++ k := by simpa [above, beside, aside, Frame.mapConfig_id] using h.stack'
  have control : t.control = s.control := h.control.trans (Control.mapConfig_id _)
  have todo : s.agenda = [] := h.agenda
  have todo' : t.agenda = agenda := h.agenda'
  have fits := h.fits
  obtain ⟨_, _, _, _⟩ := t
  simp only at stack' control todo'
  simp only [State.under, State.mk.injEq, stack', stack, control, todo, todo', List.nil_append,
    true_and]
  refine ⟨?_, (rel_above h.rel).1⟩
  cases idle : s.control with
  | idle =>
    rw [idle] at fits
    exact fits.elim
  | _ => rfl

theorem Half.hold_eq_under {fs : List Frame} (h : (above old k agenda).Half fs s t) (o : Outcome) :
    t.hold o = (s.hold o).under old k agenda := by
  have stack : s.stack = fs := by simpa [above, beside, aside] using h.stack
  have stack' : t.stack = fs ++ k := by simpa [above, beside, aside, Frame.mapConfig_id] using h.stack'
  have todo : s.agenda = [] := h.agenda
  have todo' : t.agenda = agenda := h.agenda'
  obtain ⟨world, le⟩ := rel_above h.rel
  simp only [State.hold, State.under, stack, stack', todo, todo', world, World.size_held_under,
    World.under_push le, List.cons_append, List.nil_append]

theorem Linked.eq_under (h : (above old k agenda).Linked s t)
    (kept : ¬ (above old k agenda).Rested s t) : t = s.under old k agenda := by
  cases h with
  | next next =>
    rcases next with ⟨fs, done⟩ | ⟨fs, stopped⟩
    · exact done.eq_under
    · exact (stopped.done stopped.refused).eq_under
  | held o half => exact half.hold_eq_under o
  | rested rested => exact absurd rested kept

end Bond

variable {η : Type}

section Above

variable {host : Host η} {l : Ledger} {w : World η} {site : Site} {n : Nat}

theorem linked_above (w : World η) (site : Site) (k : List Frame)
    (agenda : Agenda) :
    (Bond.above w.held.size k agenda).Linked ⟨.eval site, [], [], w⟩ ⟨.eval site, k, agenda, w⟩ :=
  .next (.inl ⟨[], {
    stack := rfl
    stack' := rfl
    agenda := rfl
    agenda' := rfl
    built := trivial
    rel := Bond.rel_under w k agenda []
    control := rfl
    fits := trivial }⟩)

/-- Until the evaluation is over, the frames below have no part in it. -/
theorem after_under
    (prompt : ∀ i l' s', l.after host i ⟨.eval site, [], [], w⟩ = some (l', s') →
      s'.Prompt host True)
    (busy : ∀ i < n, ∀ l' s', l.after host i ⟨.eval site, [], [], w⟩ = some (l', s') →
      ¬ s'.Hands [])
    (reached : ∃ l' s', l.after host n ⟨.eval site, [], [], w⟩ = some (l', s') ∧ s'.Hands [])
    (k : List Frame) (agenda : Agenda) {i : Nat} (le : i ≤ n) :
    l.after host i ⟨.eval site, k, agenda, w⟩ =
      (l.after host i ⟨.eval site, [], [], w⟩).map
        (Prod.map id (State.under w.held.size k agenda)) := by
  obtain ⟨l', s', reached, hands⟩ := reached
  obtain ⟨l₁, s₁, here, later⟩ :=
    Ledger.exists_after_of_le le (Option.isSome_iff_exists.2 ⟨_, reached⟩)
  obtain ⟨t₁, there, linked⟩ := (linked_above w site k agenda).after Bond.runs_above
    (fun i l' s' h => (prompt i l' s' h).mono fun _ => ⟨trivial, rfl⟩)
    (fun j lt => busy j (Nat.lt_of_lt_of_le lt le)) here
  simp only [Bond.above, Bond.beside, Bond.aside, Ledger.view_false] at there
  rw [there, here, linked.eq_under ?_]
  · rfl
  intro rested
  rcases Nat.lt_or_eq_of_le le with lt | rfl
  · -- a machine at rest stays so, but this run goes on to `n`
    obtain ⟨m, hm⟩ := Nat.exists_eq_succ_of_ne_zero (Nat.sub_ne_zero_of_lt lt)
    rw [hm] at later
    simp [Ledger.after, Ledger.step, State.advance, rested.control, rested.agenda,
      Bond.above, Bond.beside, Bond.aside] at later
  · cases here.symm.trans reached
    have outcome := hands.2
    rw [rested.control] at outcome
    cases outcome

end Above

/-- No outcome is dropped: until one is handed over, the run goes on. -/
theorem Invariant.At.exists_after {host : Host η} {k fs : List Frame} {s : State η}
    (h : (intact [] k []).At fs s) (prompt : s.Prompt host True) (busy : ¬ s.Hands k) (l : Ledger) :
    ∃ n l' s' fs', l.after host (n + 1) s = some (l', s') ∧ (intact [] k []).At fs' s' := by
  have unspent := fun cell mem => h.holds.unspent cell (List.mem_append_left [] mem)
  cases h.goes prompt busy unspent l with
  | @next s' advance moved =>
    have stepped : l.step host s = some (l, s') := by rw [Ledger.step, advance]
    rcases moved with ⟨fs', at'⟩ | ⟨fs', stops⟩
    · exact ⟨0, l, s', fs', Ledger.after_succ stepped 0, at'⟩
    · obtain ⟨reason, node, control⟩ := stops.aborted
      refine ⟨0, l, s', fs', Ledger.after_succ stepped 0, stops.stack, stops.agenda, stops.built, ?_,
        stops.refused⟩
      rw [control]
      trivial
  | told _ _ _ _ _ stepped at' => exact ⟨0, _, _, _, Ledger.after_succ stepped 0, at'⟩
  | @held s' fs' o _ advance _ _ at' =>
    have stepped : l.step host s = some (l, s'.hold o) := by rw [Ledger.step, advance]
    have answered : l.step host (s'.hold o) = some (l, (s'.release o).finish o) := by
      rw [Ledger.step, State.advance_hold]
    exact ⟨1, l, _, fs', (Ledger.after_succ stepped 1).trans (Ledger.after_succ answered 0), at'⟩

/-- With host functions that answer at once, a run that stops has handed over an outcome. -/
theorem Ledger.exists_hands_of_stops {host : Host η} {k fs : List Frame} {l : Ledger} {s : State η}
    {n : Nat} (h : (Invariant.intact [] k []).At fs s)
    (prompt : ∀ i l' s', l.after host i s = some (l', s') → s'.Prompt host True)
    (stops : l.after host n s = none) :
    ∃ i l' s', l.after host i s = some (l', s') ∧ s'.Hands k := by
  induction n using Nat.strongRecOn generalizing l s fs with
  | ind n ih =>
  by_cases hands : s.Hands k
  · exact ⟨0, l, s, rfl, hands⟩
  obtain ⟨m, l₁, s₁, fs₁, reached, at₁⟩ := h.exists_after (prompt 0 l s rfl) hands l
  have later : ∀ i, l.after host (m + 1 + i) s = l₁.after host i s₁ := fun i => by
    rw [after_add, reached]
    rfl
  have le : m + 1 ≤ n := by
    refine Nat.not_lt.1 fun lt => ?_
    obtain ⟨_, _, here, -⟩ :=
      exists_after_of_le (Nat.le_of_lt lt) (Option.isSome_iff_exists.2 ⟨_, reached⟩)
    cases here.symm.trans stops
  rw [← Nat.add_sub_cancel' le, later] at stops
  obtain ⟨i, l', s', found, hands⟩ := ih (n - (m + 1)) (by omega) at₁
    (fun i l' s' here => prompt _ l' s' ((later i).trans here)) stops
  exact ⟨_, l', s', (later i).trans found, hands⟩

/-- Above the frames `k`, the evaluation of `site` hands the outcome `o` to them in its `n`-th step,
in the world `w'`. -/
structure Ledger.Evaluates (host : Host η) (l : Ledger) (w : World η) (site : Site) (n : Nat)
    (o : Outcome) (l' : Ledger) (w' : World η) (k : List Frame) (agenda : List (Nat × Outcome)) :
    Prop where
  handed : l.after host n ⟨.eval site, k, agenda, w⟩ =
    some (l', (⟨.idle, k, agenda, w'.under w.held.size k⟩ : State η).finish o)
  settled : ∀ fuel, l.settle host (n + fuel) ⟨.eval site, k, agenda, w⟩ =
    l'.settle host fuel ((⟨.idle, k, agenda, w'.under w.held.size k⟩ : State η).finish o)
  /-- The frames below have no part in what comes before. -/
  alike : ∀ i ≤ n, l.after host i ⟨.eval site, k, agenda, w⟩ =
    (l.after host i ⟨.eval site, [], [], w⟩).map (Prod.map id (State.under w.held.size k agenda))
  once : ∀ i < n, ∀ l₁ s₁, l.after host i ⟨.eval site, k, agenda, w⟩ = some (l₁, s₁) → ¬ s₁.Hands k

/-- With host functions that answer at once and exactly once, a node whose evaluation comes to rest
has one outcome and leaves one world, whatever waits for it. -/
theorem evaluation_continuation_independent (host : Host η) (l : Ledger) (w : World η)
    (site : Site)
    (prompt : ∀ i l' s', l.after host i ⟨.eval site, [], [], w⟩ = some (l', s') →
      s'.Prompt host True)
    (ends : ∃ n l' s', l.after host n ⟨.eval site, [], [], w⟩ = some (l', s') ∧
      l'.step host s' = none) :
    ∃ n o l' w', ∀ k agenda, l.Evaluates host w site n o l' w' k agenda := by
  have starts : (Invariant.intact [] [] []).At [] ⟨.eval site, [], [], w⟩ :=
    ⟨rfl, rfl, trivial, trivial, .nil, List.forall_mem_nil _⟩
  obtain ⟨m, l', s', reached, rests⟩ := ends
  have stops : l.after host (m + 1) ⟨.eval site, [], [], w⟩ = none := by
    rw [Ledger.after_add, reached]
    simp [Ledger.after, rests]
  obtain ⟨n, l', s', here, hands, busy⟩ :=
    Ledger.exists_first_hands (Ledger.exists_hands_of_stops starts prompt stops)
  have same := fun k agenda i (le : i ≤ n) =>
    after_under prompt busy ⟨l', s', here, hands⟩ k agenda le
  have runs : (Bond.above w.held.size [] []).Runs host := Bond.runs_above
  obtain ⟨t', there, linked⟩ := (linked_above w site [] []).after runs
    (fun i l' s' h => (prompt i l' s' h).mono fun _ => ⟨trivial, rfl⟩) busy here
  obtain ⟨o, final⟩ := (linked.done_of_hands runs hands).exists_finish hands.2
  refine ⟨n, o, l', s'.world, fun k agenda => ?_⟩
  have handed : l.after host n ⟨.eval site, k, agenda, w⟩ =
      some (l', (⟨.idle, k, agenda, s'.world.under w.held.size k⟩ : State η).finish o) := by
    rw [same k agenda n (Nat.le_refl n), here, final]
    cases o <;> rfl
  refine ⟨handed, Ledger.settle_of_after handed, same k agenda, fun i lt l₁ s₁ there hands => ?_⟩
  rw [same k agenda i (Nat.le_of_lt lt)] at there
  obtain ⟨⟨l₂, s₂⟩, here, eq⟩ := Option.map_eq_some_iff.1 there
  cases eq
  exact busy i lt l₂ s₂ here hands.of_under

namespace Sample

/-- The call in the block and the one in the finalizer are held and answered at once. -/
theorem rescue_continuation_independent :
    (∃ n l' s', Ledger.empty.after host n ⟨.eval (rescue .plain), [], [], world []⟩ =
      some (l', s') ∧ l'.step host s' = none) ∧
    ∃ n o l' w', ∀ k agenda, Ledger.empty.Evaluates host (world []) (rescue .plain) n o l' w' k
      agenda := by
  have ends : ∃ n l' s', Ledger.empty.after host n ⟨.eval (rescue .plain), [], [], world []⟩ =
      some (l', s') ∧ l'.step host s' = none := ⟨71, _, _, rfl, rfl⟩
  exact ⟨ends, evaluation_continuation_independent _ _ _ _ (fun _ _ _ _ => host_prompt _ _) ends⟩

end Sample

end EcmaMachine
