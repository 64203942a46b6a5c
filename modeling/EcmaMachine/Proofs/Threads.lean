import EcmaMachine.Proofs.Run

/-!
Threads: what becomes of one evaluation where host functions answer late. A call that is held is
answered once, at any later time; in between the machine may have done anything else that leaves the
call open and the cells of the waiting frames alone. With host functions that answer at once, a run of
the machine is a thread.

* `Scene.Completes.saves`: an evaluation leaves the cells of the frames below it alone.
* `Route.Passes.eval`: an evaluation that a thread comes to ends, or the thread stalls there.
* `Route.Passes.visit`, `Scene.Traverses.run`: the same for the visit of a part of a node.
* `Thread.of_after`: prompt runs are threads.
-/

namespace EcmaMachine

variable {η : Type}

/-! ## Outcomes that are handed on -/

def Outcome.failure? : Outcome → Option Exception
  | .value _ => none
  | .failure e => some e

def Outcome.located (n : Node) : Outcome → Outcome
  | .value v => .value v
  | .failure e => .failure (e.located n)

/-- What has failed knows where. -/
def Outcome.IsPlaced (o : Outcome) : Prop := ∀ n, o.located n = o

theorem Outcome.isPlaced_located (o : Outcome) (n : Node) : (o.located n).IsPlaced := by
  intro m
  cases o with
  | value => rfl
  | failure e =>
    obtain ⟨signal, place⟩ := e
    cases place <;> rfl

/-- The guard of a cell lets one failure through. -/
def World.guarded (w : World η) (cell : Cell) (o : Outcome) : World η :=
  if o.isFailure then w.spend cell else w

theorem World.store_guarded (w : World η) (cell : Cell) (o : Outcome) :
    (w.guarded cell o).store = w.store := by
  unfold guarded
  split <;> rfl

/-! ## Cells of the frames that wait -/

/-- No cell of the frames has been spent in the second world that was not in the first. -/
def World.Saves (fs : List Frame) (w w' : World η) : Prop :=
  ∀ cell ∈ Frame.cells fs, w.isSpent cell = false → w'.isSpent cell = false

namespace World.Saves

variable {fs gs : List Frame} {w w' w'' : World η}

theorem refl (fs : List Frame) (w : World η) : w.Saves fs w := fun _ _ => id

theorem trans (h : w.Saves fs w') (h' : w'.Saves fs w'') : w.Saves fs w'' :=
  fun cell mem unspent => h' cell mem (h cell mem unspent)

theorem of_spares (h : w.Spares w') (fs : List Frame) : w.Saves fs w' := fun _ _ => h.unspent

theorem below (h : w.Saves fs w') (above : gs <:+ fs) : w.Saves gs w' :=
  fun cell mem => h cell ((above.sublist.filterMap _).subset mem)

/-- A cell that has been made since may be spent. -/
theorem spend (h : w.newCell.2.Saves fs w') : w.Saves fs (w'.spend w.spent.size) := by
  intro cell mem unspent
  rw [isSpent_spend_of_ne w' (Nat.ne_of_lt (cell_lt unspent))]
  exact h cell mem ((Spares.newCell w).unspent unspent)

theorem guarded (h : w.newCell.2.Saves fs w') (o : Outcome) :
    w.Saves fs (w'.guarded w.spent.size o) := by
  unfold World.guarded
  split
  · exact h.spend
  · exact .trans (.of_spares (.newCell w) fs) h

/-- What comes after a new cell leaves it unspent, if a frame has it. -/
theorem fresh (h : w.newCell.2.Saves fs w') {f : Frame} (mem : f ∈ fs)
    (own : f.cell? = some w.spent.size) : w'.isSpent w.spent.size = false :=
  h _ (Frame.mem_cells mem own) w.isSpent_newCell

end World.Saves

/-! ## Threads -/

abbrev Point (η : Type) := Ledger × State η

/-- The host, and what others may do while a call is held, said of the points before and after. -/
structure Setup (η : Type) where
  host : Host η
  others : Point η → Point η → Prop

/-- Others do nothing while a call is held. -/
def Setup.still (host : Host η) : Setup η :=
  ⟨host, fun p q => q = (p.1, { p.2 with agenda := [] })⟩

/-- The steps that an evaluation takes until its outcome goes to the frames `k`. -/
inductive Thread (S : Setup η) (k : List Frame) :
    Point η → Point η → Prop
  | here (p : Point η) : Thread S k p p
  | step {l : Ledger} {s : State η} {p q : Point η} (busy : ¬ s.Hands k)
    (active : s.control ≠ .idle) (stepped : l.step S.host s = some p)
    (later : Thread S k p q) : Thread S k (l, s) q
  | answered {l l₁ l' : Ledger} {s s₁ x : State η} {q : Point η} {answers : List Outcome}
    (o : Outcome) (holds : s.Holds S.host answers) (given : ∀ a ∈ answers.head?, o = a)
    (stepped : l.step S.host s = some (l₁, s₁))
    (held : x.world.held[s.world.held.size]? = some ⟨s.stack, true, true⟩)
    (saved : s.world.Saves s.stack x.world) (meanwhile : S.others (l₁, s₁) (l', x))
    (later : Thread S k (l', x.answer s.world.held.size o) q) :
    Thread S k (l, s) q

namespace State.Holds

variable {host : Host η} {answers : List Outcome} {l l' : Ledger} {s s' : State η}

theorem control_ne (h : s.Holds host answers) :
    s.control ≠ .idle ∧ s.control.isOutcome = false := by
  obtain ⟨_, _, _, ⟨f, config, _, _, control, _⟩, _⟩ := h
  rw [control]
  exact ⟨Control.noConfusion, rfl⟩

theorem busy (h : s.Holds host answers) (k : List Frame) : ¬ s.Hands k := by
  intro hands
  cases h.control_ne.2.symm.trans hands.2

/-- What the step that holds a call does. -/
theorem exists_call (h : s.Holds host answers) (stepped : l.step host s = some (l', s')) :
    ∃ word this args, l' = l ∧
      let call := s.asked host word this args
      s' = ⟨.idle, [], answers.map (s.world.held.size, ·) ++ s.agenda, { s.world with
        store := call.store, host := call.host, log := s.world.log ++ call.log
        held := s.world.held.push ⟨s.stack, true, true⟩ }⟩ := by
  obtain ⟨word, this, args, ⟨f, config, name, properties, control, found⟩, reply⟩ := h
  simp only [asked] at reply
  simp only [Ledger.step, advance, control, applyFunction, found, applyHost, reply] at stepped
  cases stepped
  exact ⟨word, this, args, rfl, rfl⟩

theorem exists_answer (h : s.Holds host answers) (prompt : s.Prompt host True) :
    ∃ o, answers = [o] := by
  obtain ⟨word, this, args, made, reply⟩ := h
  have once := prompt made
  rw [reply] at once
  cases answers with
  | nil => exact False.elim once
  | cons o rest =>
    cases rest with
    | nil => exact ⟨o, rfl⟩
    | cons => exact False.elim once

/-- Where there is one answer, it comes next. -/
theorem step_answer {o : Outcome} (h : s.Holds host [o])
    (stepped : l.step host s = some (l', s')) (quiet : s.agenda = []) :
    l'.step host s' =
      some (l', ({ s' with agenda := [] } : State η).answer s.world.held.size o) := by
  obtain ⟨word, this, args, rfl, rfl⟩ := h.exists_call stepped
  simp only [Ledger.step, advance, quiet]
  rfl

end State.Holds

namespace Thread

variable {S : Setup η} {base k fs : List Frame}
  {p q r : Point η} {l l' : Ledger} {s s' : State η} {watched : List Cell}

theorem trans (h : Thread S k p q) (h' : Thread S k q r) : Thread S k p r := by
  induction h with
  | here => exact h'
  | step busy active stepped _ ih => exact .step busy active stepped (ih h')
  | answered o holds given stepped held saved meanwhile _ ih =>
    exact .answered o holds given stepped held saved meanwhile (ih h')

/-- Who is idle waits for others. -/
theorem of_idle (h : Thread S k p q) (idle : p.2.control = .idle) : q = p := by
  cases h with
  | here => rfl
  | step _ active => exact absurd idle active
  | answered _ holds => exact absurd idle holds.control_ne.1

/-- Who has handed over the outcome is at the end. -/
theorem of_hands (h : Thread S k p q) (hands : p.2.Hands k) : q = p := by
  cases h with
  | here => rfl
  | step busy => exact absurd hands busy
  | answered _ holds => exact absurd hands (holds.busy k)

/-! ### Invariants of threads -/

/-- The cells that matter are unspent where the thread is. -/
abbrev Stands (watched : List Cell) (k fs : List Frame) (s : State η) : Prop :=
  (Invariant.intact watched k s.agenda).At fs s

theorem Stands.step (h : Stands watched k fs s) (busy : ¬ s.Hands k)
    (stepped : l.step S.host s = some (l', s')) (active : s'.control ≠ .idle) :
    ∃ fs', Stands watched k fs' s' ∧ s'.agenda = s.agenda := by
  obtain ⟨fs', at'⟩ := Invariant.At.step h trivial (fun _ _ => id) busy stepped active
  exact ⟨fs', ⟨at'.stack, rfl, at'.built, at'.fits, at'.holds⟩, at'.agenda⟩

theorem Stands.not_hands {f : Frame} {gs : List Frame} (h : Stands watched (f :: gs ++ k) fs s)
    (above : base <:+ k) : ¬ s.Hands base := by
  rintro ⟨stack, -⟩
  have long := congrArg List.length (h.stack.symm.trans stack)
  have short := above.length_le
  simp only [Invariant.intact, List.length_append, List.length_cons] at long
  omega

theorem Stands.answer (h : Stands watched k fs s) (sub : watched ⊆ Frame.cells k) {x : State η}
    (held : x.world.held[s.world.held.size]? = some ⟨s.stack, true, true⟩)
    (saved : s.world.Saves s.stack x.world) (o : Outcome) :
    Stands watched k fs (x.answer s.world.held.size o) := by
  have known : ∀ cell ∈ Frame.cells fs ++ watched, cell ∈ Frame.cells s.stack := by
    intro cell mem
    rw [h.stack, Frame.cells, List.filterMap_append]
    exact (List.mem_append.1 mem).elim (List.mem_append_left _)
      fun mem => List.mem_append_right _ (sub mem)
  have intact : x.world.Intact (Frame.cells fs ++ watched) :=
    ⟨h.holds.apart, fun cell mem => saved cell (known cell mem) (h.holds.unspent cell mem)⟩
  exact Invariant.At.answer (J := .intact watched k (x.answer s.world.held.size o).agenda) h rfl rfl
    (x.agenda_answer _ o) held (intact.of_spent (x.spent_answer _ o))

theorem stands (h : Thread S k p q) (start : Stands watched k fs p.2)
    (sub : watched ⊆ Frame.cells k) :
    q.2.control = .idle ∨ ∃ fs', Stands watched k fs' q.2 := by
  induction h generalizing fs with
  | here => exact .inr ⟨fs, start⟩
  | @step _ _ p _ busy _ stepped later ih =>
    by_cases idle : p.2.control = .idle
    · exact .inl (later.of_idle idle ▸ idle)
    · obtain ⟨fs', next, -⟩ := Stands.step start busy stepped idle
      exact ih next
  | answered o _ _ _ held saved _ _ ih => exact ih (Stands.answer start sub held saved o)

/-- A thread above other frames goes on below them. -/
theorem widen (h : Thread S k p q) (start : Stands [] k fs p.2) (above : base <:+ k) :
    Thread S base p q := by
  induction h generalizing fs with
  | here => exact .here _
  | @step _ s p _ busy active stepped later ih =>
    have busy' : ¬ s.Hands base := by
      rintro ⟨stack, outcome⟩
      have inside : k <:+ base := ⟨fs, start.stack.symm.trans stack⟩
      exact busy ⟨stack.trans (above.eq_of_length_le inside.length_le), outcome⟩
    refine .step busy' active stepped ?_
    by_cases idle : p.2.control = .idle
    · rw [later.of_idle idle]
      exact .here _
    · obtain ⟨fs', next, -⟩ := Stands.step start busy stepped idle
      exact ih next
  | answered o holds given stepped held saved meanwhile _ ih =>
    exact .answered o holds given stepped held saved meanwhile
      (ih (Stands.answer start (List.nil_subset _) held saved o))

end Thread

/-! ## Scenes -/

/-- All there is but the control and the frames. -/
structure Scene (η : Type) where
  ledger : Ledger
  agenda : Agenda
  world : World η

namespace Scene

section

variable (c : Scene η)

def state (control : Control) (k : List Frame) : State η := ⟨control, k, c.agenda, c.world⟩

def put (control : Control) (k : List Frame) : Point η := (c.ledger, c.state control k)

def hand (k : List Frame) (o : Outcome) : Point η := (c.ledger, (c.state .idle k).finish o)

def store : Store := c.world.store

/-- The next cell to be made. -/
def cell : Cell := c.world.spent.size

def newCell : Scene η := { c with world := c.world.newCell.2 }

def withStore (store : Store) : Scene η := { c with world := { c.world with store } }

def tell (site : Site) (slot : Option Slot) (stage : Stage) : Scene η :=
  { c with world := (c.world.tell site slot stage).2 }

def spend (cell : Cell) : Scene η := { c with world := c.world.spend cell }

def guarded (cell : Cell) (o : Outcome) : Scene η :=
  { c with world := c.world.guarded cell o }

end

/-- Above the frames `k`, the evaluation of the site ends so. -/
def Completes (S : Setup η) (k : List Frame) (c : Scene η)
    (site : Site) (o : Outcome) (c' : Scene η) : Prop :=
  Thread S k (c.put (.eval site) k) (c'.hand k o)

variable {S : Setup η} {base k : List Frame} {c c' : Scene η}
  {site : Site} {o : Outcome}

theorem stands_eval (c : Scene η) (site : Site) {watched : List Cell}
    (intact : c.world.Intact watched) : Thread.Stands watched k [] (c.state (.eval site) k) :=
  ⟨rfl, rfl, trivial, trivial, intact⟩

section

variable (c : Scene η) (host : Host η) (site : Site) (slot : Slot) (k : List Frame) (o : Outcome)

/-- A node that is let in begins above the frames that wait. -/
theorem stands_start : ∃ fs, Thread.Stands [] k fs ((c.state (.eval site) k).start site) := by
  have half := (c.stands_eval (k := k) site ⟨.nil, List.forall_mem_nil _⟩).half
  obtain ⟨fs, begun⟩ := Invariant.exists_at_of_next (fun _ _ => id) (half.start trivial)
  exact ⟨fs, begun.stack, rfl, begun.built, begun.fits, begun.holds⟩

theorem hands_hand : (c.hand k o).2.Hands k := by
  cases o <;> exact ⟨rfl, rfl⟩

theorem active_hand : (c.hand k o).2.control ≠ .idle := by
  cases o <;> exact Control.noConfusion

theorem world_hand : (c.hand k o).2.world = c.world := by
  cases o <;> rfl

theorem step_eval : c.ledger.step host (c.state (.eval site) k) =
    some (c.ledger, (c.state (.eval site) k).enter site none fun s => s.start site) := rfl

/-- The end of a node tells its observers, and a failure is placed there if it was not before. -/
theorem step_exit : c.ledger.step host (c.hand (.exit site none :: k) o).2 =
    some ((c.tell site none (.exit (o.located site.node))).hand k (o.located site.node)) := by
  cases o <;> rfl

theorem step_exit_slot : c.ledger.step host (c.hand (.exit site (some slot) :: k) o).2 =
    some ((c.tell site (some slot) (.exit o)).hand k o) := by
  cases o <;> rfl

end

theorem hand_inj {o' : Outcome} (same : c.hand k o = c'.hand k o') : o = o' ∧ c = c' := by
  obtain ⟨l, agenda, w⟩ := c
  obtain ⟨l', agenda', w'⟩ := c'
  cases o <;> cases o' <;> cases same <;> exact ⟨rfl, rfl⟩

/-- A guard whose cell is not spent hands on the outcome. -/
theorem step_guard (host : Host η) {cell : Cell} (unspent : c.world.isSpent cell = false)
    (k : List Frame) (o : Outcome) :
    c.ledger.step host (c.hand (.guard cell :: k) o).2 = some ((c.guarded cell o).hand k o) := by
  cases o with
  | value v => rfl
  | failure e =>
    simp only [hand, state, Ledger.step, State.advance, State.finish, State.fail, State.become,
      State.unwind, State.failOnce, unspent]
    rfl

namespace Completes

variable (h : c.Completes S k site o c')
include h

theorem thread (above : base <:+ k) : Thread S base (c.put (.eval site) k) (c'.hand k o) :=
  Thread.widen h (c.stands_eval site ⟨.nil, List.forall_mem_nil _⟩) above

theorem saves : c.world.Saves k c'.world := by
  intro cell mem unspent
  have start : Thread.Stands [cell] k [] (c.state (.eval site) k) :=
    c.stands_eval site ⟨List.nodup_singleton cell, List.forall_mem_singleton.2 unspent⟩
  rcases Thread.stands h start (List.cons_subset.2 ⟨mem, List.nil_subset _⟩) with idle | ⟨fs, ends⟩
  · exact absurd idle (c'.active_hand k o)
  · have last := ends.holds.unspent cell (List.mem_append_right _ (List.mem_singleton_self cell))
    rwa [c'.world_hand] at last

end Completes

end Scene

namespace Thread

variable {S : Setup η} {base k fs : List Frame}
  {p q : Point η} {l l' : Ledger} {s s' : State η} {c : Scene η} {site : Site} {f : Frame} {o : Outcome}

/-- A thread stays above some frames, or it comes to hand an outcome to them first. -/
theorem cut (h : Thread S base p q) (start : Stands [] k fs p.2) :
    Thread S k p q ∨
      ∃ (o : Outcome) (c : Scene η), Thread S k p (c.hand k o) ∧
        Thread S base (c.hand k o) q := by
  induction h generalizing fs with
  | here => exact .inl (.here _)
  | @step l s p _ busy active stepped later ih =>
    by_cases hands : s.Hands k
    · obtain ⟨o, final⟩ := Invariant.At.exists_finish start hands
      let c : Scene η := ⟨l, s.agenda, s.world⟩
      have same : (l, s) = c.hand k o := congrArg (l, ·) final
      exact .inr ⟨o, c, same ▸ .here _, same ▸ .step busy active stepped later⟩
    · by_cases idle : p.2.control = .idle
      · rw [later.of_idle idle]
        exact .inl (.step hands active stepped (.here _))
      · obtain ⟨fs', next, -⟩ := Stands.step start hands stepped idle
        rcases ih next with inside | ⟨o, c, inside, after⟩
        · exact .inl (.step hands active stepped inside)
        · exact .inr ⟨o, c, .step hands active stepped inside, after⟩
  | answered o holds given stepped held saved meanwhile _ ih =>
    rcases ih (Stands.answer start (List.nil_subset _) held saved o) with inside | ⟨o', c, inside, after⟩
    · exact .inl (.answered o holds given stepped held saved meanwhile inside)
    · exact .inr ⟨o', c, .answered o holds given stepped held saved meanwhile inside, after⟩

theorem not_hands_hand (above : base <:+ k) (c : Scene η) (f : Frame) (o : Outcome) :
    ¬ (c.hand (f :: k) o).2.Hands base := by
  rintro ⟨stack, -⟩
  have long := congrArg List.length ((c.hands_hand (f :: k) o).1.symm.trans stack)
  have short := above.length_le
  rw [List.length_cons] at long
  omega

/-- A step that hands an outcome on. -/
theorem handed (above : base <:+ k) (stepped : c.ledger.step S.host (c.hand (f :: k) o).2 = some p)
    (later : Thread S base p q) : Thread S base (c.hand (f :: k) o) q :=
  .step (not_hands_hand above c f o) (c.active_hand _ o) stepped later

end Thread

/-! ## Following a thread -/

/-- A thread with the point that it is at. -/
structure Route (S : Setup η) (base : List Frame) (start : Point η) where
  goal : Point η
  thread : Thread S base start goal
  active : goal.2.control ≠ .idle

/-- The evaluation of the site does not end: from `q` the thread goes on to a point within it from
which it cannot come to an outcome. -/
def Scene.Endless (S : Setup η) (base : List Frame) (q : Point η) (k : List Frame) (c : Scene η)
    (site : Site) : Prop :=
  ∃ r, Thread S base q r ∧ Thread S k (c.put (.eval site) k) r ∧ r.2.control ≠ .idle ∧
    ∀ o (c' : Scene η), ¬ Thread S k r (c'.hand k o)

namespace Route

variable {S : Setup η} {base k : List Frame} {start p : Point η} {l : Ledger} {s : State η}
  {c : Scene η} {site : Site} {f : Frame} {o : Outcome} {r : Route S base start}

/-- The thread comes to one of the sites, above the frames `k`, and there is no end. -/
def Stalls (r : Route S base start) (k : List Frame) (parts : Site → Prop) : Prop :=
  ∃ (site : Site) (c : Scene η) (f : Frame) (fs : List Frame), parts site ∧
    Thread S base start (c.put (.eval site) (f :: fs ++ k)) ∧
    c.Endless S base r.goal (f :: fs ++ k) site

/-- A point on the way, before or after the one that the thread is at. -/
structure Passes (r : Route S base start) (p : Point η) : Prop where
  thread : Thread S base start p
  linked : Thread S base p r.goal ∨ Thread S base r.goal p

theorem Stalls.below {parts parts' : Site → Prop} (gs : List Frame) (h : r.Stalls (gs ++ k) parts)
    (sub : ∀ site, parts site → parts' site) : r.Stalls k parts' := by
  obtain ⟨site, c, f, fs, part, comes, endless⟩ := h
  rw [← List.append_assoc, List.cons_append] at comes endless
  exact ⟨site, c, f, fs ++ gs, sub site part, comes, endless⟩

/-- Nothing goes on within a part of what has ended. -/
theorem Stalls.not_hands {parts : Site → Prop} (h : r.Stalls k parts) (above : base <:+ k) :
    ¬ r.goal.2.Hands base := by
  intro hands
  obtain ⟨site, c, f, fs, -, -, q, further, inside, active, -⟩ := h
  rw [further.of_hands hands] at inside
  have begins : Thread.Stands [] (f :: fs ++ k) [] (c.state (.eval site) (f :: fs ++ k)) :=
    c.stands_eval site ⟨.nil, List.forall_mem_nil _⟩
  rcases inside.stands begins (List.nil_subset _) with idle | ⟨gs, stands⟩
  · exact r.active idle
  · exact stands.not_hands above hands

theorem passes_start (r : Route S base start) : r.Passes start := ⟨.here _, .inl r.thread⟩

namespace Passes

theorem since (h : r.Passes p) (hands : p.2.Hands base) : Thread S base r.goal p := by
  rcases h.linked with before | after
  · exact before.of_hands hands ▸ .here _
  · exact after

/-- A step that is no call. -/
theorem step (h : r.Passes (l, s)) (busy : ¬ s.Hands base) (active : s.control ≠ .idle)
    (calm : ∀ answers, ¬ s.Holds S.host answers) (stepped : l.step S.host s = some p) :
    r.Passes p := by
  have next : Thread S base (l, s) p := .step busy active stepped (.here p)
  refine ⟨h.thread.trans next, ?_⟩
  rcases h.linked with before | after
  · generalize r.goal = q at before ⊢
    cases before with
    | here => exact .inr next
    | step _ _ stepped' later =>
      cases stepped.symm.trans stepped'
      exact .inl later
    | answered _ holds => exact absurd holds (calm _)
  · exact .inr (after.trans next)

/-- The first step of an evaluation. -/
theorem enter (h : r.Passes (c.put (.eval site) k))
    (stepped : c.ledger.step S.host (c.state (.eval site) k) = some p) : r.Passes p := by
  refine h.step ?_ Control.noConfusion ?_ stepped
  · rintro ⟨-, outcome⟩
    cases outcome
  · rintro answers ⟨_, _, _, ⟨_, _, _, _, apply, _⟩, _⟩
    cases apply

theorem handed (h : r.Passes (c.hand (f :: k) o)) (above : base <:+ k)
    (stepped : c.ledger.step S.host (c.hand (f :: k) o).2 = some p) : r.Passes p := by
  refine h.step (Thread.not_hands_hand above c f o) (c.active_hand _ o) (fun answers holds => ?_) stepped
  have outcome := (c.hands_hand (f :: k) o).2
  cases holds.control_ne.2.symm.trans outcome

/-- An evaluation that a thread comes to ends, or the thread stalls there. -/
theorem eval (h : r.Passes (c.put (.eval site) (f :: k))) (above : base <:+ k) :
    (∃ o c', c.Completes S (f :: k) site o c' ∧ r.Passes (c'.hand (f :: k) o)) ∨
      r.Stalls k (· = site) := by
  have begins : Thread.Stands [] (f :: k) [] (c.state (.eval site) (f :: k)) :=
    c.stands_eval site ⟨.nil, List.forall_mem_nil _⟩
  have inside : base <:+ f :: k := above.trans (List.suffix_cons f k)
  rcases h.linked with before | after
  · rcases before.cut begins with within | ⟨o, c', ends, later⟩
    · by_cases ended : ∃ o, ∃ c' : Scene η, Thread S (f :: k) r.goal (c'.hand (f :: k) o)
      · obtain ⟨o, c', later⟩ := ended
        have ends : c.Completes S (f :: k) site o c' := within.trans later
        rcases within.stands begins (List.nil_subset _) with idle | ⟨fs, stands⟩
        · exact absurd idle r.active
        · exact .inl ⟨o, c', ends, h.thread.trans (ends.thread inside), .inr (later.widen stands inside)⟩
      · push Not at ended
        exact .inr ⟨site, c, f, [], rfl, h.thread, r.goal, .here _, within, r.active, ended⟩
    · have ends : c.Completes S (f :: k) site o c' := ends
      exact .inl ⟨o, c', ends, h.thread.trans (ends.thread inside), .inl later⟩
  · by_cases ended : ∃ o c', c.Completes S (f :: k) site o c'
    · obtain ⟨o, c', ends⟩ := ended
      have later := ends.thread inside
      exact .inl ⟨o, c', ends, h.thread.trans later, .inr (after.trans later)⟩
    · push Not at ended
      exact .inr ⟨site, c, f, [], rfl, h.thread, _, after, .here _, Control.noConfusion, ended⟩

end Passes

end Route

/-- A failure that comes out of an evaluation has a place. -/
theorem Scene.Completes.placed {S : Setup η} {k : List Frame} {c c' : Scene η} {site : Site}
    {o : Outcome} (h : c.Completes S k site o c') : o.IsPlaced := by
  have hands := c'.hands_hand k o
  let r : Route S k (c.put (.eval site) k) := ⟨_, h, hands.active⟩
  have first := c.step_eval S.host site k
  cases admitted : (c.world.tell site none .enter).1 with
  | some reason =>
    rw [state, State.enter_of_some _ admitted] at first
    have refused : Outcome.IsPlaced (.failure (.leaving (.aborted reason) site.node)) := fun _ => rfl
    let c₁ := (c.tell site none .enter).tell site none
      (.exit (.failure (.leaving (.aborted reason) site.node)))
    have last : r.Passes (c₁.hand k (.failure (.leaving (.aborted reason) site.node))) :=
      r.passes_start.enter first
    obtain ⟨rfl, -⟩ := hand_inj ((last.since (c₁.hands_hand ..)).of_hands hands)
    exact refused
  | none =>
    rw [state, State.enter_of_none _ admitted] at first
    obtain ⟨fs, begun⟩ := (c.tell site none .enter).stands_start site (.exit site none :: k)
    have passes := r.passes_start.enter first
    have before : Thread S k _ (c'.hand k o) := passes.linked.elim id
      fun after => after.of_hands hands ▸ .here _
    rcases before.cut begun with inside | ⟨o₁, c₁, inside, later⟩
    · rcases inside.stands begun (List.nil_subset _) with idle | ⟨gs, stands⟩
      · exact absurd idle r.active
      · have inner : Thread.Stands [] (.exit site none :: [] ++ k) gs (c'.hand k o).2 := stands
        exact absurd hands (inner.not_hands (List.suffix_refl k))
    · have ends : r.Passes (c₁.hand (.exit site none :: k) o₁) :=
        ⟨passes.thread.trans (inside.widen begun (List.suffix_cons ..)), .inl later⟩
      have last := ends.handed (List.suffix_refl k) (c₁.step_exit S.host site k o₁)
      obtain ⟨rfl, -⟩ := hand_inj ((last.since (hands_hand ..)).of_hands hands)
      exact o₁.isPlaced_located site.node

/-! ## Parts of nodes -/

theorem State.visit_of_none {w : World η} {site : Site} {slot : Slot}
    (admitted : (w.tell site (some slot) .enter).1 = none) (control : Control) (k : List Frame)
    (agenda : Agenda) (child : Node) :
    (⟨control, k, agenda, w⟩ : State η).visit site slot child =
      ⟨.eval (site.part (.slot slot) child), .exit site (some slot) :: k, agenda,
        (w.tell site (some slot) .enter).2⟩ := by
  rw [visit, enter_of_none _ admitted]
  rfl

namespace Scene

variable {S : Setup η} {base k : List Frame} {c c' : Scene η}
  {site : Site} {slot : Slot} {child : Node} {o : Outcome}

/-- Above the frames `k`, the child in the slot of the site is evaluated between its two events, or
left at once if it is refused. -/
inductive Traverses (S : Setup η) (k : List Frame) (c : Scene η)
    (site : Site) (slot : Slot) (child : Node) : Outcome → Scene η → Prop
  | entered {o : Outcome} {c' : Scene η} (admitted : (c.world.tell site (some slot) .enter).1 = none)
    (ends : (c.tell site (some slot) .enter).Completes S (.exit site (some slot) :: k)
      (site.part (.slot slot) child) o c') :
    Traverses S k c site slot child o (c'.tell site (some slot) (.exit o))
  | refused {reason : String} (refusal : (c.world.tell site (some slot) .enter).1 = some reason) :
    Traverses S k c site slot child (.failure (.leaving (.aborted reason) site.node))
      ((c.tell site (some slot) .enter).tell site (some slot)
        (.exit (.failure (.leaving (.aborted reason) site.node))))

theorem visit_state (c : Scene η) (control : Control) (k : List Frame) (site : Site) (slot : Slot)
    (child : Node) :
    (c.state control k).visit site slot child = (c.state .idle k).visit site slot child := by
  simp only [state]
  cases refusal : (c.world.tell site (some slot) .enter).1 with
  | none => rw [State.visit_of_none refusal, State.visit_of_none refusal]
  | some reason =>
    rw [State.visit, State.visit, State.enter_of_some _ refusal, State.enter_of_some _ refusal]
    rfl

section

variable (h : c.Traverses S k site slot child o c')
include h

theorem Traverses.run (above : base <:+ k) (control : Control) :
    Thread S base (c.ledger, (c.state control k).visit site slot child) (c'.hand k o) := by
  cases h with
  | @entered o c' admitted ends =>
    rw [state, State.visit_of_none admitted]
    exact (ends.thread (above.trans (List.suffix_cons _ k))).trans
      (.handed above (Scene.step_exit_slot ..) (.here _))
  | refused refusal =>
    rw [state, State.visit, State.enter_of_some _ refusal]
    exact .here _

theorem Traverses.saves : c.world.Saves k c'.world := by
  have told : ∀ (w : World η) stage, w.Saves k (w.tell site (some slot) stage).2 :=
    fun w stage => .of_spares (.of_spent (by simp)) k
  cases h with
  | entered _ ends => exact (told _ _).trans ((ends.saves.below (List.suffix_cons ..)).trans (told _ _))
  | refused => exact (told _ _).trans (told _ _)

theorem Traverses.placed : o.IsPlaced := by
  cases h with
  | entered _ ends => exact ends.placed
  | refused => exact fun _ => rfl

end

end Scene

/-- A part of a node that a thread comes to ends, or the thread stalls there. -/
theorem Route.Passes.visit {S : Setup η} {base k : List Frame} {start : Point η} {c : Scene η}
    {site : Site} {slot : Slot} {child : Node} {control : Control} {r : Route S base start}
    (h : r.Passes (c.ledger, (c.state control k).visit site slot child)) (above : base <:+ k) :
    (∃ o c', c.Traverses S k site slot child o c' ∧ r.Passes (c'.hand k o)) ∨
      r.Stalls k (· = site.part (.slot slot) child) := by
  cases refusal : (c.world.tell site (some slot) .enter).1 with
  | some reason =>
    rw [Scene.state, State.visit, State.enter_of_some _ refusal] at h
    exact .inl ⟨_, _, .refused refusal, h⟩
  | none =>
    rw [Scene.state, State.visit_of_none refusal] at h
    rcases eval (c := c.tell site (some slot) .enter) h above with ⟨o, c', ends, later⟩ | stalls
    · exact .inl ⟨o, _, .entered refusal ends, later.handed above (Scene.step_exit_slot ..)⟩
    · exact .inr stalls

namespace Thread

variable {S : Setup η} {base k fs : List Frame}
  {l l' : Ledger} {s s' : State η}

/-- With host functions that answer at once and exactly once, a run of the machine is a thread. -/
theorem of_after {n : Nat} (start : Stands [] k fs s) (quiet : s.agenda = [])
    (still : ∀ p, S.others p (p.1, { p.2 with agenda := [] }))
    (prompt : ∀ i l' s', l.after S.host i s = some (l', s') → s'.Prompt S.host True)
    (busy : ∀ i < n, ∀ l' s', l.after S.host i s = some (l', s') → ¬ s'.Hands k)
    (reached : l.after S.host n s = some (l', s')) (active : s'.control ≠ .idle) :
    Thread S k (l, s) (l', s') := by
  induction n using Nat.strongRecOn generalizing l s fs with
  | ind n ih =>
  cases n with
  | zero =>
    cases reached
    exact .here _
  | succ n =>
    have busy₀ := busy 0 (Nat.succ_pos n) l s rfl
    obtain ⟨l₁, s₁, stepped, reached⟩ := Ledger.exists_step_of_after reached
    have later := Ledger.after_succ stepped
    by_cases idle : s₁.control = .idle
    · cases n with
      | zero =>
        cases reached
        exact absurd idle active
      | succ n =>
      rcases Invariant.At.held_or_dropped start trivial (prompt 0 l s rfl) busy₀ stepped idle with
        ⟨o, holds⟩ | dropped
      · have answered := holds.step_answer stepped quiet
        let x : State η := { s₁ with agenda := [] }
        have later₂ := fun i => (later (i + 1)).trans (Ledger.after_succ answered i)
        have call := holds.exists_call stepped
        have held : x.world.held[s.world.held.size]? = some ⟨s.stack, true, true⟩ := by
          obtain ⟨_, _, _, -, rfl⟩ := call
          exact Array.getElem?_push_size
        have saved : s.world.Saves s.stack x.world := by
          obtain ⟨_, _, _, -, rfl⟩ := call
          exact .refl _ _
        refine .answered o holds (by simp) stepped held saved (still _) (ih n (by omega)
          (Stands.answer start (List.nil_subset _) held saved o) (x.agenda_answer _ o)
          (fun i l' s' h => prompt (i + 2) l' s' ((later₂ i).trans h))
          (fun i lt l' s' h => busy (i + 2) (by omega) l' s' ((later₂ i).trans h)) ?_)
        exact (Ledger.after_succ answered n).symm.trans reached
      · -- nothing comes after a dropped outcome
        simp [Ledger.after, Ledger.step, State.advance, idle, dropped, quiet] at reached
    · obtain ⟨fs₁, next, agenda⟩ := Stands.step start busy₀ stepped idle
      have own : s.control ≠ .idle := start.done.active
      exact .step busy₀ own stepped (ih n (Nat.lt_succ_self n) next (agenda.trans quiet)
        (fun i l' s' h => prompt (i + 1) l' s' ((later i).trans h))
        (fun i lt l' s' h => busy (i + 1) (Nat.succ_lt_succ lt) l' s' ((later i).trans h)) reached)

/-- Where nothing is done in between, a thread is a run of the machine. -/
theorem exists_after {host : Host η} {q : Point η} (h : Thread (.still host) k (l, s) q)
    (prompt : host.Prompt True) (start : Stands [] k fs s) (quiet : s.agenda = []) :
    ∃ n, l.after host n s = some q ∧
      ∀ i < n, ∀ l' s', l.after host i s = some (l', s') → ¬ s'.Hands k := by
  generalize point : (l, s) = p at h
  induction h generalizing l s fs with
  | here =>
    cases point
    exact ⟨0, rfl, fun _ lt => absurd lt (Nat.not_lt_zero _)⟩
  | @step _ _ p _ busy _ stepped later ih =>
    cases point
    have first := Ledger.after_succ stepped
    by_cases idle : p.2.control = .idle
    · rw [later.of_idle idle]
      refine ⟨1, first 0, fun i lt l' s' here => ?_⟩
      obtain rfl := Nat.lt_one_iff.1 lt
      cases here
      exact busy
    · obtain ⟨fs', next, agenda⟩ := Stands.step start busy stepped idle
      obtain ⟨n, reached, busy'⟩ := ih next (agenda.trans quiet) rfl
      refine ⟨n + 1, (first n).trans reached, fun i lt l' s' here => ?_⟩
      cases i with
      | zero =>
        cases here
        exact busy
      | succ i => exact busy' i (Nat.lt_of_succ_lt_succ lt) l' s' ((first i).symm.trans here)
  | @answered _ _ _ _ _ x _ _ o holds given stepped held saved meanwhile _ ih =>
    cases point
    obtain ⟨a, rfl⟩ := holds.exists_answer (prompt.state _)
    obtain rfl := given a rfl
    cases meanwhile
    have answered := holds.step_answer stepped quiet
    have first := Ledger.after_succ stepped
    have second := fun i => (first (i + 1)).trans (Ledger.after_succ answered i)
    obtain ⟨n, reached, busy⟩ := ih (Stands.answer start (List.nil_subset _) held saved o)
      (State.agenda_answer ..) rfl
    refine ⟨n + 2, (second n).trans reached, fun i lt l' s' here => ?_⟩
    match i with
    | 0 =>
      cases here
      exact holds.busy k
    | 1 =>
      obtain ⟨_, _, _, rfl, rfl⟩ := holds.exists_call stepped
      cases (first 0).symm.trans here
      exact fun hands => Bool.noConfusion hands.2
    | i + 2 => exact busy i (by omega) l' s' ((second i).symm.trans here)

/-- A run that hands over an outcome is a thread up to there. -/
theorem exists_route (start : Stands [] k fs s) (quiet : s.agenda = []) 
    (still : ∀ p, S.others p (p.1, { p.2 with agenda := [] })) (prompt : S.host.Prompt True)
    (halts : ∃ n l' s', l.after S.host n s = some (l', s') ∧ s'.Hands k) :
    ∃ r : Route S k (l, s), r.goal.2.Hands k := by
  obtain ⟨n, l', s', reached, hands, busy⟩ := Ledger.exists_first_hands halts
  have thread : Thread S k (l, s) (l', s') :=
    of_after start quiet still (fun _ _ s' _ => prompt.state s') busy reached hands.active
  exact ⟨⟨_, thread, hands.active⟩, hands⟩

end Thread

/-- The machine evaluates the site and hands the outcome to the frames `k`. -/
def Scene.Ends (host : Host η) (k : List Frame) (c : Scene η) (site : Site) (o : Outcome)
    (c' : Scene η) : Prop :=
  ∃ n, c.ledger.after host n (c.state (.eval site) k) = some (c'.hand k o) ∧
    ∀ i < n, ∀ l s, c.ledger.after host i (c.state (.eval site) k) = some (l, s) → ¬ s.Hands k

theorem Scene.completes_iff_ends {host : Host η} {k : List Frame} {c c' : Scene η} {site : Site}
    {o : Outcome} (prompt : host.Prompt True) (quiet : c.agenda = []) :
    c.Completes (.still host) k site o c' ↔ c.Ends host k site o c' := by
  have begins : Thread.Stands [] k [] (c.state (.eval site) k) :=
    c.stands_eval site ⟨.nil, List.forall_mem_nil _⟩
  constructor
  · exact fun completes => Thread.exists_after completes prompt begins quiet
  · rintro ⟨n, reached, busy⟩
    exact .of_after (S := .still host) begins quiet (fun _ => rfl) (fun _ _ s _ => prompt.state s) busy
      reached (c'.active_hand k o)

end EcmaMachine
