import EcmaMachine.Proofs.Lexicon.Step

/-!
Who may still deliver an outcome. The value or the failure of an evaluation is claimed by the
machine while it pursues it, by a held call that can still be answered so, or by a cell that is not
spent and lets it through. Steps pass claims on and never multiply them.
-/

namespace EcmaMachine

variable {η : Type} {c : Cell} {f : Frame} {fs : List Frame} {id : Nat}

section Ways

variable {way : Way}

/-! ## Frames and their goals -/

theorem Frame.cell_of_stop (h : f.stop way = some c) : f.cell? = some c := by
  cases f <;> cases way <;> first | exact h | cases h

theorem goal_cons (inner : f.isInner = true) :
    goal way (f :: fs) = .outside id ↔ f.stop way = none ∧ goal way fs = .outside id := by
  cases stop : f.stop way <;> cases f with
  | deliver => cases inner
  | _ => simp [goal, stop]

/-- Somewhere among the frames, this cell lets an outcome through to the outside. -/
def Leads (way : Way) (c : Cell) (id : Nat) : List Frame → Prop
  | [] => False
  | f :: rest => f.stop way = some c ∧ goal way rest = .outside id ∨ Leads way c id rest

theorem leads_of_plain (plain : f.cell? = none) (leads : Leads way c id (f :: fs)) :
    Leads way c id fs := by
  rcases leads with ⟨stop, -⟩ | leads
  · simp [Lexicon.stop_eq_none plain way] at stop
  · exact leads

theorem deliver_mem_of_goal (reaches : goal way fs = .outside id) : .deliver id ∈ fs := by
  induction fs with
  | nil => cases reaches
  | cons f fs ih =>
    cases inner : f.isInner with
    | true => exact List.mem_cons_of_mem _ (ih ((goal_cons inner).1 reaches).2)
    | false =>
      cases f with
      | deliver id' =>
        cases reaches
        exact List.mem_cons_self
      | _ => cases inner

theorem deliver_mem_of_leads (leads : Leads way c id fs) : .deliver id ∈ fs := by
  induction fs with
  | nil => exact leads.elim
  | cons f fs ih =>
    rcases leads with ⟨-, reaches⟩ | leads
    · exact List.mem_cons_of_mem _ (deliver_mem_of_goal reaches)
    · exact List.mem_cons_of_mem _ (ih leads)

def CellsBelow (count : Nat) (fs : List Frame) : Prop :=
  ∀ f ∈ fs, ∀ c, f.cell? = some c → c < count

theorem CellsBelow.of_leads {count : Nat} (h : CellsBelow count fs) (leads : Leads way c id fs) :
    c < count := by
  induction fs with
  | nil => exact leads.elim
  | cons f fs ih =>
    rcases leads with ⟨stop, -⟩ | later
    · exact h f List.mem_cons_self c (Frame.cell_of_stop stop)
    · exact ih (fun g mem => h g (List.mem_cons_of_mem _ mem)) later

end Ways

namespace Lexicon.Grown

variable {old count : Nat} {below fs : List Frame} {way : Way} {id : Nat} {c c' : Cell}

variable (h : Grown old below count fs)
include h

theorem le : old ≤ count := by
  induction h with
  | nothing => exact Nat.le_refl _
  | cell _ ih | both _ _ ih => exact Nat.le_succ_of_le ih
  | frame _ _ _ ih => exact ih

theorem cellsBelow (cells : CellsBelow old below) : CellsBelow count fs := by
  induction h with
  | nothing => exact cells
  | cell _ ih => exact fun f mem c own => Nat.lt_succ_of_lt (ih f mem c own)
  | frame plain _ _ ih => exact List.forall_mem_cons.2 ⟨fun c own => by simp [plain] at own, ih⟩
  | both fresh _ ih =>
    refine List.forall_mem_cons.2 ⟨fun c own => ?_, fun f mem c own => ?_⟩
    · rw [fresh] at own
      cases own
      exact Nat.lt_succ_self _
    · exact Nat.lt_succ_of_lt (ih f mem c own)

/-- What gets past all that was pushed gets past what is below. -/
theorem goal_below (reaches : goal way fs = .outside id) : goal way below = .outside id := by
  induction h with
  | nothing => exact reaches
  | cell _ ih => exact ih reaches
  | frame _ inner _ ih => exact ih ((goal_cons inner).1 reaches).2
  | both fresh _ ih => exact ih ((goal_cons (Frame.isInner_of_cell fresh)).1 reaches).2

/-- Nothing gets past a cell that was pushed. -/
theorem not_leads (cells : CellsBelow old below)
    (reaches : goal way fs = .outside id) (new : old ≤ c) : ¬ Leads way c id fs := by
  induction h with
  | nothing => exact fun leads => Nat.not_lt_of_le new (cells.of_leads leads)
  | cell _ ih => exact ih reaches
  | frame plain inner _ ih =>
    exact fun leads => ih ((goal_cons inner).1 reaches).2 (leads_of_plain plain leads)
  | both fresh _ ih =>
    obtain ⟨free, reaches⟩ := (goal_cons (Frame.isInner_of_cell fresh)).1 reaches
    rintro (⟨stop, -⟩ | leads)
    · simp [free] at stop
    · exact ih reaches leads

/-- A cell that was pushed leads where the frames below do. -/
theorem goal_of_leads (cells : CellsBelow old below)
    (new : old ≤ c) (leads : Leads way c id fs) : goal way below = .outside id := by
  induction h with
  | nothing => exact absurd (cells.of_leads leads) (Nat.not_lt_of_le new)
  | cell _ ih => exact ih leads
  | frame plain _ _ ih => exact ih (leads_of_plain plain leads)
  | both _ grown ih =>
    rcases leads with ⟨-, reaches⟩ | leads
    · exact grown.goal_below reaches
    · exact ih leads

/-- One cell at most of those that were pushed leads outside. -/
theorem leads_unique (cells : CellsBelow old below) (new : old ≤ c)
    (new' : old ≤ c') (leads : Leads way c id fs) (leads' : Leads way c' id fs) : c = c' := by
  induction h with
  | nothing => exact absurd (cells.of_leads leads) (Nat.not_lt_of_le new)
  | cell _ ih => exact ih leads leads'
  | frame plain _ _ ih => exact ih (leads_of_plain plain leads) (leads_of_plain plain leads')
  | both _ grown ih =>
    rcases leads with ⟨stop, reaches⟩ | leads <;> rcases leads' with ⟨stop', reaches'⟩ | leads'
    · exact Option.some.inj (stop.symm.trans stop')
    · exact absurd leads' (grown.not_leads cells reaches new')
    · exact absurd leads (grown.not_leads cells reaches' new)
    · exact ih leads leads'

/-- What was there before leads where it did. -/
theorem leads_below (known : c < old) (leads : Leads way c id fs) : Leads way c id below := by
  induction h with
  | nothing => exact leads
  | cell _ ih => exact ih leads
  | frame plain _ _ ih => exact ih (leads_of_plain plain leads)
  | both fresh grown ih =>
    rcases leads with ⟨stop, -⟩ | leads
    · have own := Frame.cell_of_stop stop
      rw [fresh] at own
      cases own
      exact absurd known (Nat.not_lt_of_le grown.le)
    · exact ih leads

end Lexicon.Grown

/-! ## Claims -/

def Held.isOpen (h : Held) : Way → Bool
  | .value => h.valueOpen
  | .failure => h.failureOpen

def Outcome.way : Outcome → Way
  | .value _ => .value
  | .failure _ => .failure

theorem Held.isOpen_close {h : Held} {o : Outcome} {way : Way} :
    (h.close o).isOpen way = true ↔ h.isOpen way = true ∧ way ≠ o.way := by
  cases o <;> cases way <;> simp [close, isOpen, Outcome.way]

theorem Held.stack_close (h : Held) (o : Outcome) : (h.close o).stack = h.stack := by
  cases o <;> rfl

theorem State.world_finish (s : State η) (o : Outcome) : (s.finish o).world = s.world := by
  cases o <;> rfl

theorem State.stack_finish (s : State η) (o : Outcome) : (s.finish o).stack = s.stack := by
  cases o <;> rfl

theorem State.pursues_finish (s : State η) (o : Outcome) {way : Way} :
    (s.finish o).control.pursues way = true ↔ way = o.way := by
  cases o <;> cases way <;> simp [finish, give, fail, become, Control.pursues, Outcome.way]

/-- Where the outcome of an evaluation may come from. -/
inductive Claimant
  | machine
  | held (ticket : Nat)
  | cell (c : Cell)

namespace State

variable {η : Type} {way : Way}

def allStacks (s : State η) : List (List Frame) := s.stack :: s.world.held.toList.map (·.stack)

def Contains (s : State η) (f : Frame) : Prop := ∃ fs ∈ s.allStacks, f ∈ fs

theorem contains_of_stack {s : State η} (here : f ∈ s.stack) : s.Contains f :=
  ⟨s.stack, List.mem_cons_self, here⟩

/-- All cells of frames have been made. -/
def Bounded (s : State η) : Prop := ∀ f, s.Contains f → ∀ c, f.cell? = some c → c < s.world.spent.size

theorem Bounded.cells {s : State η} (h : s.Bounded) (mem : fs ∈ s.allStacks) :
    CellsBelow s.world.spent.size fs :=
  fun f here => h f ⟨fs, mem, here⟩

def Claims (s : State η) (way : Way) (id : Nat) : Claimant → Prop
  | .machine => s.control.pursues way = true ∧ goal way s.stack = .outside id
  | .held ticket => ∃ h, s.world.held[ticket]? = some h ∧ h.isOpen way = true ∧
    goal way h.stack = .outside id
  | .cell c => s.world.isSpent c = false ∧ ∃ fs ∈ s.allStacks, Leads way c id fs

/-- Whoever waits for a claimed outcome waits below some frames. -/
theorem Claims.exists_deliver {s : State η} {id : Nat} {p : Claimant} (h : s.Claims way id p) :
    s.Contains (.deliver id) := by
  cases p with
  | machine => exact contains_of_stack (deliver_mem_of_goal h.2)
  | held ticket =>
    obtain ⟨call, found, -, reaches⟩ := h
    have known := Array.mem_toList_iff.2 (Array.mem_of_getElem? found)
    exact ⟨call.stack, List.mem_cons_of_mem _ (List.mem_map_of_mem known),
      deliver_mem_of_goal reaches⟩
  | cell c =>
    obtain ⟨-, fs, mem, leads⟩ := h
    exact ⟨fs, mem, deliver_mem_of_leads leads⟩

/-- Every claim in the second state was handed down by one in the first, none to two heirs. -/
def Inherits (way : Way) (s t : State η) : Prop :=
  ∃ (source : Claimant) (new : Claimant → Prop),
    (∀ id p, t.Claims way id p → ¬ new p → s.Claims way id p ∧ p ≠ source) ∧
    (∀ id p, t.Claims way id p → new p → s.Claims way id source) ∧
    ∀ id p q, t.Claims way id p → t.Claims way id q → new p → new q → p = q

namespace Inherits

variable {way : Way} {s t : State η} {id : Nat}

theorem single (h : Inherits way s t)
    (single : ∀ p q, s.Claims way id p → s.Claims way id q → p = q) {p q : Claimant}
    (left : t.Claims way id p) (right : t.Claims way id q) : p = q := by
  obtain ⟨source, new, kept, passed, one⟩ := h
  by_cases newLeft : new p <;> by_cases newRight : new q
  · exact one id p q left right newLeft newRight
  · have old := kept id q right newRight
    exact absurd (single q source old.1 (passed id p left newLeft)) old.2
  · have old := kept id p left newLeft
    exact absurd (single p source old.1 (passed id q right newRight)) old.2
  · exact single p q (kept id p left newLeft).1 (kept id q right newRight).1

theorem ended (h : Inherits way s t) (ended : ∀ p, ¬ s.Claims way id p) (p : Claimant) :
    ¬ t.Claims way id p := by
  obtain ⟨source, new, kept, passed, -⟩ := h
  intro claims
  by_cases isNew : new p
  · exact ended source (passed id p claims isNew)
  · exact ended p (kept id p claims isNew).1

end Inherits

/-- Nothing is claimed that was not claimed before, and the machine claims nothing. -/
theorem Inherits.of_idle {s t : State η}
    (kept : ∀ id p, t.Claims way id p → s.Claims way id p ∧ p ≠ .machine) : Inherits way s t :=
  ⟨.machine, fun _ => False, fun id p claims _ => kept id p claims, fun _ _ _ new => new.elim,
    fun _ _ _ _ _ new => new.elim⟩

/-! ## Steps -/

/-- How the frames and cells of a state come from those of another: some frames are left, others
are pushed onto them. -/
structure Growth (s t : State η) (below : List Frame) : Prop where
  held : t.world.held = s.world.held
  grown : Lexicon.Grown s.world.spent.size below t.world.spent.size t.stack
  spent : ∀ c, c < s.world.spent.size → s.world.isSpent c = true → t.world.isSpent c = true
  frames : ∀ f ∈ below, f ∈ s.stack ∨ ∃ g ∈ s.stack, Lexicon.Succeeds g f
  leads : ∀ way c id, Leads way c id below → Leads way c id s.stack

variable {s t : State η} {below : List Frame}

theorem Growth.cells (h : Growth s t below) (bounded : CellsBelow s.world.spent.size s.stack) :
    CellsBelow s.world.spent.size below := by
  intro f mem c own
  rcases h.frames f mem with mem | ⟨g, mem, succeeds⟩
  · exact bounded f mem c own
  · refine bounded g mem c ?_
    cases succeeds <;> exact own

/-- What was claimed by the source is claimed by the machine, or by one of the new cells. -/
theorem Growth.inherits (h : Growth s t below)
    (bounded : s.Bounded) (source : Claimant)
    (passes : ∀ id, goal way below = .outside id →
      t.control.pursues way = true ∨ t.stack ≠ below → s.Claims way id source)
    (gone : source = .machine ∨ ∃ c, source = .cell c ∧ t.world.isSpent c = true) :
    Inherits way s t := by
  have cells := h.cells (bounded.cells List.mem_cons_self)
  let new : Claimant → Prop := fun p => p = .machine ∨ ∃ c, p = .cell c ∧ s.world.spent.size ≤ c
  -- A cell that was made in this step is found among the frames that were pushed.
  have leads_of_new : ∀ {c id}, s.world.spent.size ≤ c → t.Claims way id (.cell c) →
      Leads way c id t.stack := by
    rintro c id fresh ⟨-, fs, mem, leads⟩
    rcases List.mem_cons.1 mem with rfl | mem
    · exact leads
    · have known : fs ∈ s.allStacks := List.mem_cons_of_mem _ (h.held ▸ mem)
      exact absurd ((bounded.cells known).of_leads leads) (Nat.not_lt_of_le fresh)
  refine ⟨source, new, ?_, ?_, ?_⟩
  · intro id p claims old
    cases p with
    | machine => exact (old (.inl rfl)).elim
    | held ticket =>
      refine ⟨?_, ?_⟩
      · obtain ⟨call, found, rest⟩ := claims
        exact ⟨call, h.held ▸ found, rest⟩
      · rintro rfl
        rcases gone with gone | ⟨c, gone, -⟩ <;> cases gone
    | cell c =>
      have known : c < s.world.spent.size :=
        Nat.lt_of_not_le fun fresh => old (.inr ⟨c, rfl, fresh⟩)
      obtain ⟨unspent, fs, mem, leads⟩ := claims
      refine ⟨⟨?_, ?_⟩, ?_⟩
      · cases before : s.world.isSpent c with
        | false => rfl
        | true => simp [h.spent c known before] at unspent
      · rcases List.mem_cons.1 mem with rfl | mem
        · have below := h.grown.leads_below known leads
          exact ⟨s.stack, List.mem_cons_self, h.leads way c id below⟩
        · exact ⟨fs, List.mem_cons_of_mem _ (h.held ▸ mem), leads⟩
      · rintro rfl
        rcases gone with gone | ⟨c', gone, spent⟩
        · cases gone
        · cases gone
          simp [spent] at unspent
  · rintro id p claims (rfl | ⟨c, rfl, fresh⟩)
    · exact passes id (h.grown.goal_below claims.2) (.inl claims.1)
    · have leads := leads_of_new fresh claims
      refine passes id (h.grown.goal_of_leads cells fresh leads) (.inr fun same => ?_)
      rw [same] at leads
      exact Nat.not_lt_of_le fresh (cells.of_leads leads)
  · rintro id p q left right (rfl | ⟨c, rfl, fresh⟩) (rfl | ⟨c', rfl, fresh'⟩)
    · rfl
    · exact absurd (leads_of_new fresh' right) (h.grown.not_leads cells left.2 fresh')
    · exact absurd (leads_of_new fresh left) (h.grown.not_leads cells right.2 fresh)
    · rw [h.grown.leads_unique cells fresh fresh' (leads_of_new fresh left)
        (leads_of_new fresh' right)]

/-- The machine drops an outcome, or has delivered it. -/
theorem claims_rest {id : Nat} {p : Claimant} (claims : s.pop.rest.Claims way id p) :
    s.Claims way id p ∧ p ≠ .machine := by
  cases p with
  | machine => simp [Claims, rest, become, Control.pursues] at claims
  | held ticket => exact ⟨claims, by rintro ⟨⟩⟩
  | cell c =>
    obtain ⟨unspent, fs, mem, leads⟩ := claims
    refine ⟨⟨unspent, ?_⟩, by rintro ⟨⟩⟩
    rcases List.mem_cons.1 mem with rfl | mem
    · refine ⟨s.stack, List.mem_cons_self, ?_⟩
      change Leads way c id s.stack.tail at leads
      cases stack : s.stack with
      | nil => rw [stack] at leads; exact leads
      | cons f below => rw [stack] at leads; exact .inr leads
    · exact ⟨fs, List.mem_cons_of_mem _ mem, leads⟩

theorem inherits_rest (s : State η) (way : Way) : Inherits way s s.pop.rest :=
  .of_idle fun _ _ => claims_rest

theorem pop_of_nil (stack : s.stack = []) : s.pop = s := by
  rw [pop, stack, List.tail_nil, ← stack]

/-- A call is held: what the machine has claimed can be given by an answer. -/
theorem inherits_hold {w : World η} {agenda : Agenda}
    (pursues : s.control.pursues way = true) (spent : w.spent = s.world.spent)
    (held : w.held = s.world.held.push ⟨s.stack, true, true⟩) :
    Inherits way s ⟨.idle, [], agenda, w⟩ := by
  refine ⟨.machine, fun p => p = .held s.world.held.size, ?_, ?_, ?_⟩
  · intro id p claims old
    cases p with
    | machine => cases way <;> cases claims.1
    | held ticket =>
      refine ⟨?_, nofun⟩
      obtain ⟨call, found, claimed⟩ := claims
      have other : ticket ≠ s.world.held.size := fun same => old (congrArg _ same)
      simp only [held, Array.getElem?_push, if_neg other] at found
      exact ⟨call, found, claimed⟩
    | cell c =>
      refine ⟨?_, nofun⟩
      obtain ⟨unspent, fs, mem, leads⟩ := claims
      refine ⟨by simpa [World.isSpent, spent] using unspent, fs, ?_, leads⟩
      simp only [allStacks, held, Array.toList_push, List.map_append, List.map_cons, List.map_nil,
        List.mem_cons, List.mem_append, List.not_mem_nil, or_false] at mem ⊢
      rcases mem with rfl | mem | rfl
      · exact leads.elim
      · exact .inr mem
      · exact .inl rfl
  · rintro id p claims rfl
    obtain ⟨call, found, -, reaches⟩ := claims
    simp only [held, Array.getElem?_push_size, Option.some.injEq] at found
    rw [← found] at reaches
    exact ⟨pursues, reaches⟩
  · rintro id p q - - rfl rfl
    rfl

/-- The frames of a held call are taken up; no others come in. -/
theorem stacks_answer {ticket : Nat} {o : Outcome} {fs : List Frame}
    (mem : fs ∈ (s.answer ticket o).allStacks) : fs ∈ s.allStacks := by
  cases accepts : s.accepts ticket o with
  | false => rwa [answer_of_not_accepts accepts] at mem
  | true =>
    obtain ⟨call, found⟩ := exists_held_of_accepts accepts
    rw [answer_of_accepts accepts found, allStacks, stack_finish, world_finish, ← Array.toList_map,
      map_modify_of_same (fun h => h.stack_close o), Array.toList_map] at mem
    rcases List.mem_cons.1 mem with rfl | mem
    · have known := Array.mem_toList_iff.2 (Array.mem_of_getElem? found)
      exact List.mem_cons_of_mem _ (List.mem_map_of_mem known)
    · exact List.mem_cons_of_mem _ mem

/-- A held call is answered: what could be claimed by answering it so is now up to the machine. -/
theorem inherits_answer (idle : s.control = .idle) (ticket : Nat) (o : Outcome) (way : Way) :
    Inherits way s (s.answer ticket o) := by
  cases accepts : s.accepts ticket o with
  | false =>
    rw [answer_of_not_accepts accepts]
    refine .of_idle fun id p claims => ⟨claims, ?_⟩
    rintro rfl
    simp [Claims, idle, Control.pursues] at claims
  | true =>
    obtain ⟨call, found⟩ := exists_held_of_accepts accepts
    have isOpen : call.isOpen o.way = true := by
      cases o <;> simpa [State.accepts, found, Outcome.way, Held.isOpen] using accepts
    have answered := answer_of_accepts accepts found
    have stack : (s.answer ticket o).stack = call.stack := by rw [answered, stack_finish]
    -- Held calls stay what they are, but for the way that was used.
    have kept : ∀ {id p}, (s.answer ticket o).Claims way id p → p ≠ .machine →
        s.Claims way id p ∧ (way = o.way → p ≠ .held ticket) := by
      intro id p claims other
      cases p with
      | machine => exact (other rfl).elim
      | held i =>
        obtain ⟨h, known, opened, reaches⟩ := claims
        rw [answered, world_finish, Array.getElem?_modify] at known
        split at known
        · obtain ⟨h', before, rfl⟩ := Option.map_eq_some_iff.1 known
          rw [Held.isOpen_close] at opened
          rw [h'.stack_close] at reaches
          exact ⟨⟨h', before, opened.1, reaches⟩, fun same => absurd same opened.2⟩
        · next other =>
          refine ⟨⟨h, known, opened, reaches⟩, ?_⟩
          rintro - ⟨⟩
          exact other rfl
      | cell c =>
        obtain ⟨unspent, fs, mem, leads⟩ := claims
        rw [World.isSpent, spent_answer] at unspent
        exact ⟨⟨unspent, fs, stacks_answer mem, leads⟩, by rintro - ⟨⟩⟩
    by_cases same : way = o.way
    · refine ⟨.held ticket, (· = .machine), fun id p claims old =>
        (kept claims old).imp_right (· same), ?_, ?_⟩
      · rintro id p claims rfl
        exact ⟨call, found, same ▸ isOpen, stack ▸ claims.2⟩
      · rintro id p q - - rfl rfl
        rfl
    · refine .of_idle fun id p claims => ?_
      have other : p ≠ .machine := by
        rintro rfl
        have pursues := claims.1
        rw [answered, pursues_finish] at pursues
        exact same pursues
      exact ⟨(kept claims other).1, other⟩

end State

/-! ## Cells -/

theorem World.isSpent_spend (w : World η) (c : Cell) : (w.spend c).isSpent c = true := by
  simp only [isSpent, spend, Array.getD_eq_getD_getElem?, Array.getElem?_setIfInBounds]
  split
  · split <;> rfl
  · contradiction

theorem World.isSpent_spend_of_isSpent {w : World η} (c' : Cell) (h : w.isSpent c = true) :
    (w.spend c').isSpent c = true := by
  by_cases same : c' = c
  · rw [same]
    exact w.isSpent_spend c
  · rwa [w.isSpent_spend_of_ne (Ne.symm same)]

namespace Lexicon

variable {η : Type} {L : Lexicon} {s s₀ t : State η} {f : Frame} {below : List Frame} {way : Way}

/-- A step leaves the cells as they were, but for those it makes. -/
theorem Ends.isSpent (h : L.Ends s₀ below t) {c : Cell} (known : c < s₀.world.spent.size) :
    t.world.isSpent c = s₀.world.isSpent c := by
  obtain ⟨n, spent⟩ := h.work.spent
  have later : c < s₀.world.spent.size + n := Nat.lt_add_right n known
  simp [World.isSpent, spent, Array.getD, known, later]

theorem Ends.isSpent_spent {c : Cell} (h : L.Ends { s.pop with world := s.world.spend c } below t)
    (unspent : s.world.isSpent c = false) : t.world.isSpent c = true := by
  have size : (s.world.spend c).spent.size = s.world.spent.size := Array.size_setIfInBounds ..
  exact (h.isSpent (size ▸ World.cell_lt unspent)).trans (s.world.isSpent_spend c)

theorem Ends.growth (h : L.Ends s s.stack t) : s.Growth t s.stack where
  held := h.work.held
  grown := h.work.grown
  spent _ known spent := (h.isSpent known).trans spent
  frames _ mem := .inl mem
  leads _ _ _ leads := leads

section Handing

variable (stack : s.stack = f :: below)

include stack

theorem leads_of_stack {other : Way} {c : Cell} {id : Nat} (leads : Leads other c id below) :
    Leads other c id s.stack :=
  stack ▸ .inr leads

theorem growth_on (ends : L.Ends s.pop below t) : s.Growth t below where
  held := ends.work.held
  grown := ends.work.grown
  spent _ known spent := (ends.isSpent known).trans spent
  frames _ mem := .inl (stack ▸ List.mem_cons_of_mem _ mem)
  leads _ _ _ leads := leads_of_stack stack leads

theorem growth_spent {cell : Cell}
    (ends : L.Ends { s.pop with world := s.world.spend cell } below t) : s.Growth t below := by
  have size : (s.world.spend cell).spent.size = s.world.spent.size := Array.size_setIfInBounds ..
  exact {
    held := ends.work.held
    grown := size ▸ ends.work.grown
    spent := fun c known spent =>
      (ends.isSpent (size ▸ known)).trans (World.isSpent_spend_of_isSpent cell spent)
    frames := fun g mem => .inl (stack ▸ List.mem_cons_of_mem _ mem)
    leads := fun _ _ _ leads => leads_of_stack stack leads }

theorem growth_swapped {f' : Frame} (succeeds : Succeeds f f')
    (ends : L.Ends (s.pop.push f') (f' :: below) t) : s.Growth t (f' :: below) where
  held := ends.work.held
  grown := ends.work.grown
  spent _ known spent := (ends.isSpent known).trans spent
  frames g mem := by
    rcases List.mem_cons.1 mem with rfl | mem
    · exact .inr ⟨f, stack ▸ List.mem_cons_self, succeeds⟩
    · exact .inl (stack ▸ List.mem_cons_of_mem _ mem)
  leads way c id := by
    rintro (⟨stop, reaches⟩ | later)
    · rw [stack]
      refine .inl ⟨?_, reaches⟩
      cases succeeds <;> cases way <;> exact stop
    · exact leads_of_stack stack later

theorem Handed.inherits (h : L.Handed way f below s.pop t) (inner : f.isInner = true)
    (pursues : s.control.pursues way = true)
    (bounded : s.Bounded) (other : Way) :
    State.Inherits other s t := by
  -- Where an outcome is barred or not pursued, nothing is handed down.
  have none_of_quiet : ∀ {id claimant}, Quiet other below t → goal other below = .outside id →
      t.control.pursues other = true ∨ t.stack ≠ below → s.Claims other id claimant := by
    rintro id claimant (⟨c, barred⟩ | ⟨idle, still⟩) reaches (pursued | pushed)
    · simp [barred] at reaches
    · simp [barred] at reaches
    · simp [idle] at pursued
    · exact absurd still pushed
  cases h with
  | on free ends quiet still =>
    refine (growth_on stack ends).inherits bounded .machine (fun id reaches goes => ?_) (.inl rfl)
    by_cases same : other = way
    · rw [same] at reaches ⊢
      refine ⟨pursues, ?_⟩
      rw [stack, goal_cons inner]
      exact ⟨free, reaches⟩
    · exact none_of_quiet (quiet other same) reaches goes
  | dropped => exact s.inherits_rest other
  | @spent cell _ own unspent ends quiet =>
    refine (growth_spent stack ends).inherits bounded (.cell cell) (fun id reaches goes => ?_)
      (.inr ⟨cell, rfl, ends.isSpent_spent unspent⟩)
    rcases quiet other with stop | quiet
    · exact ⟨unspent, s.stack, List.mem_cons_self, stack ▸ .inl ⟨stop, reaches⟩⟩
    · exact none_of_quiet quiet reaches goes
  | swapped succeeds ends barred top =>
    refine (growth_swapped stack succeeds ends).inherits bounded .machine (fun id reaches _ => ?_)
      (.inl rfl)
    obtain ⟨c, barred⟩ := barred other
    simp [barred] at reaches

end Handing

/-- Claims are handed down by every step. -/
theorem Turns.inherits {p : Progress η} (h : L.Turns s p)
    (bounded : s.Bounded) (way : Way) :
    State.Inherits way s p.state := by
  have pursues : s.control.isWork = true → s.control.pursues way = true := by
    cases s.control <;> cases way <;> simp [Control.isWork, Control.pursues]
  have worked : ∀ {t : State η}, s.control.isWork = true → L.Ends s s.stack t →
      State.Inherits way s t := fun work ends =>
    ends.growth.inherits bounded .machine (fun id reaches _ => ⟨pursues work, reaches⟩) (.inl rfl)
  cases h with
  | works work ends | tells work ends => exact worked work ends
  | resumes control stack inner handed | unwinds control stack inner handed =>
    exact handed.inherits stack inner (by rw [control]; rfl) bounded way
  | delivers outcome stack => exact s.inherits_rest way
  | ends stack =>
    have inherits := s.inherits_rest way
    rwa [State.pop_of_nil stack] at inherits
  | holds closed work sound reply => exact State.inherits_hold (pursues work) rfl rfl
  | @answers ticket o agenda idle next =>
    exact State.inherits_answer (s := { s with agenda }) idle ticket o way
  | rests idle =>
    refine .of_idle fun id p claims => ⟨claims, ?_⟩
    rintro rfl
    simp [State.Claims, Progress.state, idle, Control.pursues] at claims

end Lexicon

end EcmaMachine
