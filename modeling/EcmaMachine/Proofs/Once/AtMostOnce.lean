import EcmaMachine.Proofs.History
import EcmaMachine.Proofs.Once.Claims

/-!
What happens at most once, however host functions answer the calls that they hold. Each evaluation
delivers one value and one failure at most; each evaluation of a try statement runs its finalizer
once at most; each round of a loop starts the next one once at most.
-/

namespace EcmaMachine

/-! ## What happens in a step -/

/-- Parts of a run that have an end of their own: an evaluation of a try statement, or a round of a
loop. -/
inductive Episode
  | attempt
  | round
  deriving DecidableEq

inductive Happening
  /-- An evaluation delivers an outcome. -/
  | delivered (way : Way) (id : Nat)
  /-- An episode begins; its cell is its own. -/
  | begun (e : Episode) (c : Cell)
  /-- The finalizer of the statement is run, or the round after this one is started. -/
  | concluded (e : Episode) (c : Cell)
  deriving DecidableEq

namespace Frame

def episode? : Frame → Option (Episode × Cell)
  | .tryBlock _ c _ _ | .tryHandler _ c _ => some (.attempt, c)
  | .roundBody _ c _ _ _ | .round _ c _ => some (.round, c)
  | _ => none

def isFinalizer : Frame → Bool
  | .finalizer _ => true
  | _ => false

/-- The episode that begins with this frame; those below `old` have begun before. -/
def begins? (old : Nat) (f : Frame) : Option Happening :=
  f.episode?.bind fun (e, c) => if old ≤ c then some (.begun e c) else none

end Frame

namespace State

variable {η : Type}

def pushed (s t : State η) : List Frame :=
  let left := if s.control.isOutcome then s.stack.length - 1 else s.stack.length
  t.stack.take (t.stack.length - left)

def deliveries (s : State η) : List Happening :=
  match s.control, s.stack with
  | .ret .., .deliver id :: _ => [.delivered .value id]
  | .fail _, .deliver id :: _ => [.delivered .failure id]
  | _, _ => []

def beginnings (s t : State η) : List Happening :=
  (s.pushed t).filterMap (Frame.begins? s.world.spent.size)

/-- What a step makes of the episode of the topmost frame. -/
def conclusions (s t : State η) : List Happening :=
  if s.control.isOutcome then
    match s.stack with
    | .tryBlock _ c _ _ :: _ | .tryHandler _ c _ :: _ =>
      if (s.pushed t).any Frame.isFinalizer then [.concluded .attempt c] else []
    | .round _ c _ :: _ => if (s.pushed t).isEmpty then [] else [.concluded .round c]
    | _ => []
  else []

def happenings (s t : State η) : List Happening :=
  match s.control with
  | .idle => []
  | _ => s.deliveries ++ (s.conclusions t ++ s.beginnings t)

end State

/-- All that has happened along a history, the last first. -/
def happenings {η : Type} : List (State η) → List Happening
  | t :: s :: past => s.happenings t ++ happenings (s :: past)
  | _ => []

/-! ## Anything goes -/

theorem Lexicon.free_scripts (s : Store) : Lexicon.free.Scripts s :=
  fun _ _ => ⟨fun _ _ => trivial, trivial⟩

theorem Lexicon.free_obeys {η : Type} (host : Host η) : Lexicon.free.Obeys host :=
  fun _ _ _ _ _ _ _ => ⟨Lexicon.free_scripts _, fun _ _ => trivial, fun _ _ _ _ => trivial⟩

/-! ## Frames that a step pushes -/

theorem Frame.cell_of_episode {f : Frame} {e : Episode} {c : Cell} (h : f.episode? = some (e, c)) :
    f.cell? = some c := by
  cases f <;> cases h <;> rfl

theorem Frame.begins_eq_some {old : Nat} {f : Frame} {x : Happening} :
    f.begins? old = some x ↔ ∃ e c, f.episode? = some (e, c) ∧ old ≤ c ∧ x = .begun e c := by
  unfold begins?
  cases episode : f.episode? with
  | none => simp
  | some found =>
    obtain ⟨e, c⟩ := found
    simp only [Option.bind_some, Option.some.injEq, Prod.mk.injEq]
    constructor
    · intro h
      split at h
      · next le => exact ⟨e, c, ⟨rfl, rfl⟩, le, (Option.some.inj h).symm⟩
      · cases h
    · rintro ⟨_, _, ⟨rfl, rfl⟩, le, rfl⟩
      rw [if_pos le]

/-- The frames that a step pushes, and the episodes that begin with them. -/
theorem Lexicon.Grown.exists_pushed {old count : Nat} {below fs : List Frame}
    (h : Grown old below count fs) : ∃ new, fs = new ++ below ∧
      (∀ f ∈ new, f.isInner = true ∧ ∀ c, f.cell? = some c → old ≤ c) ∧
      (new.filterMap (Frame.begins? old)).Nodup ∧
      ∀ e c, .begun e c ∈ new.filterMap (Frame.begins? old) → c < count := by
  induction h with
  | nothing => exact ⟨[], rfl, by simp, by simp, by simp⟩
  | cell _ ih =>
    obtain ⟨new, eq, frames, nodup, bound⟩ := ih
    exact ⟨new, eq, frames, nodup, fun e c mem => Nat.lt_succ_of_lt (bound e c mem)⟩
  | @frame _ _ f plain inner _ ih =>
    obtain ⟨new, rfl, frames, nodup, bound⟩ := ih
    have none : f.begins? old = none := by
      rw [Option.eq_none_iff_forall_ne_some]
      intro x begins
      obtain ⟨e, c, episode, -⟩ := Frame.begins_eq_some.1 begins
      simp [Frame.cell_of_episode episode] at plain
    have own : f.isInner = true ∧ ∀ c, f.cell? = some c → old ≤ c :=
      ⟨inner, fun c own => by simp [plain] at own⟩
    refine ⟨f :: new, rfl, List.forall_mem_cons.2 ⟨own, frames⟩, ?_⟩
    rw [List.filterMap_cons_none none]
    exact ⟨nodup, bound⟩
  | @both count _ f fresh grown ih =>
    obtain ⟨new, rfl, frames, nodup, bound⟩ := ih
    have own : f.isInner = true ∧ ∀ c, f.cell? = some c → old ≤ c := by
      refine ⟨Frame.isInner_of_cell fresh, fun c own => ?_⟩
      rw [fresh] at own
      cases own
      exact grown.le
    refine ⟨f :: new, rfl, List.forall_mem_cons.2 ⟨own, frames⟩, ?_⟩
    cases begins : f.begins? old with
    | none =>
      rw [List.filterMap_cons_none begins]
      exact ⟨nodup, fun e c mem => Nat.lt_succ_of_lt (bound e c mem)⟩
    | some x =>
      rw [List.filterMap_cons_some begins]
      obtain ⟨e, c, episode, -, rfl⟩ := Frame.begins_eq_some.1 begins
      have same := Frame.cell_of_episode episode
      rw [fresh] at same
      cases same
      refine ⟨List.nodup_cons.2 ⟨fun mem => Nat.lt_irrefl _ (bound e count mem), nodup⟩, ?_⟩
      intro e' c' mem
      rcases List.mem_cons.1 mem with eq | mem
      · cases eq
        exact Nat.lt_succ_self _
      · exact Nat.lt_succ_of_lt (bound e' c' mem)

namespace State

variable {η : Type} {s t : State η} {f : Frame} {below new : List Frame}

theorem pushed_of_work (work : s.control.isWork = true) (stack : t.stack = new ++ s.stack) :
    s.pushed t = new := by
  have notOutcome : s.control.isOutcome = false := by
    cases control : s.control <;> simp_all [Control.isWork, Control.isOutcome]
  simp [pushed, notOutcome, stack]

theorem pushed_of_outcome (outcome : s.control.isOutcome = true) (top : s.stack = f :: below)
    (stack : t.stack = new ++ below) : s.pushed t = new := by
  simp [pushed, outcome, top, stack]

theorem conclusions_cases (outcome : s.control.isOutcome = true) (top : s.stack = f :: below)
    {e : Episode} {c : Cell} (mem : .concluded e c ∈ s.conclusions t) :
    f.episode? = some (e, c) ∧ s.pushed t ≠ [] ∧
      ((∃ site next, f = .round site c next) ∨ (s.pushed t).any Frame.isFinalizer = true) := by
  simp only [conclusions, outcome, if_true, top] at mem
  split at mem
  case h_1 stack | h_2 stack =>
    cases stack
    split at mem
    · next final =>
      cases List.mem_singleton.1 mem
      exact ⟨rfl, by rintro eq; simp [eq] at final, .inr final⟩
    · cases mem
  · next stack =>
    cases stack
    split at mem
    · cases mem
    · next pushed =>
      cases List.mem_singleton.1 mem
      exact ⟨rfl, by simpa using pushed, .inl ⟨_, _, rfl⟩⟩
  · cases mem

theorem of_mem_deliveries {x : Happening} (mem : x ∈ s.deliveries) :
    ∃ way id below, x = .delivered way id ∧ s.stack = .deliver id :: below ∧
      s.control.isOutcome = true ∧ s.control.pursues way = true := by
  unfold deliveries at mem
  split at mem
  case h_1 control stack | h_2 control stack =>
    rw [control]
    exact ⟨_, _, _, List.mem_singleton.1 mem, stack, rfl, rfl⟩
  · cases mem

structure Descends (s t : State η) : Prop where
  size : s.world.spent.size ≤ t.world.spent.size
  spent : ∀ c, c < s.world.spent.size → s.world.isSpent c = true → t.world.isSpent c = true
  frames : ∀ f, t.Contains f → (∃ g, s.Contains g ∧ (f = g ∨ Lexicon.Succeeds g f)) ∨
    s.control ≠ .idle ∧ f.isInner = true ∧ f ∈ s.pushed t ∧
      ∀ c, f.cell? = some c → s.world.spent.size ≤ c ∧ c < t.world.spent.size

structure BeginsFresh (s t : State η) : Prop where
  nodup : (s.beginnings t).Nodup
  fresh : ∀ e c, .begun e c ∈ s.beginnings t → s.world.spent.size ≤ c ∧ c < t.world.spent.size

theorem BeginsFresh.of_nil (h : s.pushed t = []) : BeginsFresh s t :=
  ⟨by simp [beginnings, h], by simp [beginnings, h]⟩

/-- All frames were there before. -/
theorem Descends.of_mem (size : s.world.spent.size ≤ t.world.spent.size)
    (spent : ∀ c, c < s.world.spent.size → s.world.isSpent c = true → t.world.isSpent c = true)
    (frames : ∀ f, t.Contains f → s.Contains f) : Descends s t where
  size := size
  spent := spent
  frames f here := .inl ⟨f, frames f here, .inl rfl⟩

theorem descends_rest (s : State η) : Descends s s.pop.rest := by
  refine .of_mem (Nat.le_refl _) (fun _ _ spent => spent) ?_
  rintro f ⟨fs, mem, here⟩
  rcases List.mem_cons.1 mem with rfl | mem
  · exact contains_of_stack (List.mem_of_mem_tail here)
  · exact ⟨fs, List.mem_cons_of_mem _ mem, here⟩

theorem pushed_rest (outcome : s.control.isOutcome = true) (top : s.stack = f :: below) :
    s.pushed s.pop.rest = [] := by
  refine pushed_of_outcome outcome top ?_
  rw [rest, become, pop, top]
  rfl

theorem Growth.descends (h : Growth s t below) (busy : s.control ≠ .idle)
    (pushed : ∀ new, t.stack = new ++ below →
      ∃ old, s.pushed t = new ++ old ∧ ∀ f ∈ old, f.begins? s.world.spent.size = none)
    (bounded : CellsBelow s.world.spent.size s.stack) : Descends s t ∧ BeginsFresh s t := by
  have cells := h.grown.cellsBelow (h.cells bounded)
  obtain ⟨new, eq, frames, nodup, bound⟩ := h.grown.exists_pushed
  obtain ⟨old, pushed, silent⟩ := pushed new eq
  have begins : s.beginnings t = new.filterMap (Frame.begins? s.world.spent.size) := by
    rw [beginnings, pushed, List.filterMap_append, List.filterMap_eq_nil_iff.2 silent,
      List.append_nil]
  refine ⟨⟨h.grown.le, h.spent, ?_⟩, ⟨begins ▸ nodup, ?_⟩⟩
  · rintro f ⟨fs, mem, here⟩
    rcases List.mem_cons.1 mem with rfl | mem
    · have here' := here
      rw [eq] at here'
      rcases List.mem_append.1 here' with isNew | isOld
      · refine .inr ⟨busy, (frames f isNew).1, pushed ▸ List.mem_append_left _ isNew, ?_⟩
        exact fun c own => ⟨(frames f isNew).2 c own, cells f here c own⟩
      · rcases h.frames f isOld with known | ⟨g, known, succeeds⟩
        · exact .inl ⟨f, contains_of_stack known, .inl rfl⟩
        · exact .inl ⟨g, contains_of_stack known, .inr succeeds⟩
    · exact .inl ⟨f, ⟨fs, List.mem_cons_of_mem _ (h.held ▸ mem), here⟩, .inl rfl⟩
  · intro e c mem
    rw [begins] at mem
    refine ⟨?_, bound e c mem⟩
    obtain ⟨f, -, begins⟩ := List.mem_filterMap.1 mem
    obtain ⟨e', c', -, le, eq⟩ := Frame.begins_eq_some.1 begins
    cases eq
    exact le

end State

namespace Lexicon

variable {η : Type} {L : Lexicon} {s t : State η} {f : Frame} {below : List Frame} {way : Way}

section Handing

variable (stack : s.stack = f :: below) (outcome : s.control.isOutcome = true)
  (bounded : CellsBelow s.world.spent.size s.stack)

include stack outcome bounded

theorem Handed.descends (h : L.Handed way f below s.pop t) :
    s.Descends t ∧ s.BeginsFresh t := by
  have whole : ∀ new, t.stack = new ++ below →
      ∃ old, s.pushed t = new ++ old ∧ ∀ f ∈ old, f.begins? s.world.spent.size = none :=
    fun new eq => ⟨[], by rw [State.pushed_of_outcome outcome stack eq, List.append_nil], by simp⟩
  have busy : s.control ≠ .idle := fun idle => by simp [idle, Control.isOutcome] at outcome
  cases h with
  | on free ends quiet still => exact (growth_on stack ends).descends busy whole bounded
  | dropped own spent => exact ⟨s.descends_rest, .of_nil (State.pushed_rest outcome stack)⟩
  | spent own unspent ends quiet => exact (growth_spent stack ends).descends busy whole bounded
  | @swapped f' _ succeeds ends barred top =>
    refine (growth_swapped stack succeeds ends).descends busy (fun new eq => ⟨[f'], ?_, ?_⟩) bounded
    · exact State.pushed_of_outcome outcome stack (by rw [eq, List.append_assoc]; rfl)
    · -- The frame has taken over the cell of the one before.
      have known := bounded f (stack ▸ List.mem_cons_self)
      intro g mem
      cases List.mem_singleton.1 mem
      cases succeeds with
      | body _ _ c | handler _ c =>
        have old : ¬ s.world.spent.size ≤ c := Nat.not_le_of_lt (known c rfl)
        simp [Frame.begins?, Frame.episode?, old]

omit bounded

/-- What concludes an episode spends its cell. -/
theorem Handed.concluded (h : L.Handed way f below s.pop t) {e : Episode} {c : Cell}
    (mem : .concluded e c ∈ s.conclusions t) : f.episode? = some (e, c) ∧
      s.world.isSpent c = false ∧ t.world.isSpent c = true := by
  obtain ⟨episode, pushed, kind⟩ := State.conclusions_cases outcome stack mem
  have own := Frame.cell_of_episode episode
  cases h with
  | on free ends quiet still =>
    rcases still with plain | still
    · simp [own] at plain
    · exact absurd (State.pushed_of_outcome outcome stack still) pushed
  | dropped => exact absurd (State.pushed_rest outcome stack) pushed
  | @spent cell _ owns unspent ends quiet =>
    rw [own] at owns
    cases owns
    exact ⟨episode, unspent, ends.isSpent_spent unspent⟩
  | @swapped f' _ succeeds ends barred top =>
    have none : (s.pushed t).any Frame.isFinalizer = false := by
      rcases top with top | ⟨site, slot, top⟩
      · have pushed : s.pushed t = [f'] := State.pushed_of_outcome outcome stack top
        rw [pushed]
        cases succeeds <;> rfl
      · have pushed : s.pushed t = [.exit site slot, f'] :=
          State.pushed_of_outcome outcome stack top
        rw [pushed]
        cases succeeds <;> rfl
    rcases kind with ⟨site, next, rfl⟩ | final
    · cases succeeds
    · simp [none] at final

end Handing

variable {p : Progress η}

theorem Turns.descends (h : L.Turns s p) (bounded : s.Bounded) :
    s.Descends p.state ∧ (s.control ≠ .idle → s.BeginsFresh p.state) := by
  have own := bounded.cells List.mem_cons_self
  have worked : ∀ {t : State η}, s.control.isWork = true → L.Ends s s.stack t →
      s.Descends t ∧ s.BeginsFresh t := fun work ends =>
    ends.growth.descends (fun idle => by simp [idle, Control.isWork] at work)
      (fun new eq => ⟨[], by rw [State.pushed_of_work work eq, List.append_nil], by simp⟩) own
  cases h with
  | works work ends | tells work ends => exact ⟨(worked work ends).1, fun _ => (worked work ends).2⟩
  | resumes control stack inner handed | unwinds control stack inner handed =>
    have step := handed.descends stack (by rw [control]; rfl) own
    exact ⟨step.1, fun _ => step.2⟩
  | delivers outcome stack =>
    exact ⟨s.descends_rest, fun _ => .of_nil (State.pushed_rest outcome stack)⟩
  | ends stack =>
    have descends := s.descends_rest
    rw [State.pop_of_nil stack] at descends
    refine ⟨descends, fun _ => .of_nil ?_⟩
    simp [State.pushed, Progress.state, State.rest, State.become, stack]
  | holds closed work sound reply =>
    refine ⟨.of_mem (Nat.le_refl _) (fun _ _ spent => spent) ?_, fun _ => .of_nil ?_⟩
    · rintro f ⟨fs, mem, here⟩
      simp only [Progress.state, State.allStacks, Array.toList_push, List.map_append, List.map_cons,
        List.map_nil, List.mem_cons, List.mem_append, List.not_mem_nil, or_false] at mem
      rcases mem with rfl | mem | rfl
      · cases here
      · exact ⟨fs, List.mem_cons_of_mem _ mem, here⟩
      · exact State.contains_of_stack here
    · simp [State.pushed, Progress.state]
  | @answers ticket o agenda idle next =>
    have spent := State.spent_answer { s with agenda } ticket o
    refine ⟨.of_mem (Nat.le_of_eq (by rw [Progress.state, spent])) ?_ ?_, fun busy => (busy idle).elim⟩
    · intro c _ before
      rwa [Progress.state, World.isSpent, spent]
    · rintro f ⟨fs, mem, here⟩
      exact ⟨fs, State.stacks_answer (s := { s with agenda }) mem, here⟩
  | rests idle =>
    exact ⟨.of_mem (Nat.le_refl _) (fun _ _ spent => spent) fun _ => id,
      fun busy => (busy idle).elim⟩

theorem not_isWork {c : Control} (outcome : c.isOutcome = true) : ¬ c.isWork = true := by
  cases c <;> simp_all [Control.isWork, Control.isOutcome]

/-- Nobody else handles an outcome that waits for the outside. -/
theorem Turns.state_of_deliver (h : L.Turns s p) (outcome : s.control.isOutcome = true) {id : Nat}
    (stack : s.stack = .deliver id :: below) : p.state = s.pop.rest := by
  cases h with
  | works work | tells work | holds _ work => exact absurd work (not_isWork outcome)
  | resumes control top inner | unwinds control top inner =>
    rw [stack] at top
    cases top
    cases inner
  | delivers => rfl
  | ends top => simp [stack] at top
  | answers idle | rests idle => simp [idle, Control.isOutcome] at outcome

/-- Whoever delivers an outcome has claimed it, and nobody else has. -/
theorem Turns.delivered (h : L.Turns s p) {id : Nat} (mem : .delivered way id ∈ s.deliveries) :
    s.Claims way id .machine ∧ .deliver id ∈ s.stack ∧
      ∀ q, p.state.Claims way id q → s.Claims way id q ∧ q ≠ .machine := by
  obtain ⟨_, _, below, eq, stack, outcome, pursues⟩ := State.of_mem_deliveries mem
  cases eq
  refine ⟨⟨pursues, by rw [stack]; rfl⟩, stack ▸ List.mem_cons_self, fun q claims => ?_⟩
  rw [h.state_of_deliver outcome stack] at claims
  exact State.claims_rest claims

theorem Turns.concluded (h : L.Turns s p) {e : Episode} {c : Cell}
    (mem : .concluded e c ∈ s.conclusions p.state) : ∃ f ∈ s.stack, f.episode? = some (e, c) ∧
      s.world.isSpent c = false ∧ p.state.world.isSpent c = true := by
  have outcome : s.control.isOutcome = true := by
    cases outcome : s.control.isOutcome with
    | true => rfl
    | false => simp [State.conclusions, outcome] at mem
  cases h with
  | works work | tells work | holds _ work => exact absurd work (not_isWork outcome)
  | resumes control stack inner handed | unwinds control stack inner handed =>
    exact ⟨_, stack ▸ List.mem_cons_self, handed.concluded stack outcome mem⟩
  | delivers _ stack | ends stack => simp [State.conclusions, outcome, stack] at mem
  | answers idle | rests idle => simp [idle, Control.isOutcome] at outcome

end Lexicon

namespace State

variable {η : Type} {s t : State η} {x : Happening}

theorem nodup_deliveries (s : State η) : s.deliveries.Nodup := by
  unfold deliveries
  split <;> simp

theorem nodup_conclusions (s t : State η) : (s.conclusions t).Nodup := by
  unfold conclusions
  repeat' split
  all_goals simp

theorem exists_of_mem_conclusions (mem : x ∈ s.conclusions t) : ∃ e c, x = .concluded e c := by
  unfold conclusions at mem
  repeat' split at mem
  all_goals first
    | exact ⟨_, _, List.mem_singleton.1 mem⟩
    | cases mem

theorem exists_of_mem_beginnings (mem : x ∈ s.beginnings t) :
    ∃ e c, s.world.spent.size ≤ c ∧ x = .begun e c := by
  obtain ⟨f, -, begins⟩ := List.mem_filterMap.1 mem
  obtain ⟨e, c, -, fresh, eq⟩ := Frame.begins_eq_some.1 begins
  exact ⟨e, c, fresh, eq⟩

def Happens (s t : State η) : Happening → Prop
  | .delivered way id => .delivered way id ∈ s.deliveries
  | .begun e c => .begun e c ∈ s.beginnings t
  | .concluded e c => .concluded e c ∈ s.conclusions t

theorem happens_of_mem (mem : x ∈ s.happenings t) : s.control ≠ .idle ∧ s.Happens t x := by
  unfold happenings at mem
  split at mem
  · cases mem
  next busy =>
  refine ⟨busy, ?_⟩
  rcases List.mem_append.1 mem with delivery | mem
  · obtain ⟨way, id, -, rfl, -⟩ := of_mem_deliveries delivery
    exact delivery
  rcases List.mem_append.1 mem with conclusion | beginning
  · obtain ⟨e, c, rfl⟩ := exists_of_mem_conclusions conclusion
    exact conclusion
  · obtain ⟨e, c, -, rfl⟩ := exists_of_mem_beginnings beginning
    exact beginning

end State

/-! ## Once at most -/

variable {η : Type} {s t : State η} {l : Ledger} {hs : List Happening}

structure Once (hs : List Happening) (l : Ledger) (s : State η) : Prop where
  lawful : Lexicon.free.Lawful s
  cells : s.Bounded
  ids : ∀ id, s.Contains (.deliver id) → id < l.recipients.size
  single : ∀ way id p q, s.Claims way id p → s.Claims way id q → p = q
  delivered : ∀ way id, .delivered way id ∈ hs →
    id < l.recipients.size ∧ ∀ p, ¬ s.Claims way id p
  begun : ∀ e c, .begun e c ∈ hs → c < s.world.spent.size
  concluded : ∀ e c, .concluded e c ∈ hs → .begun e c ∈ hs ∧ s.world.isSpent c = true
  known : ∀ f, s.Contains f → ∀ e c, f.episode? = some (e, c) → .begun e c ∈ hs
  nodup : hs.Nodup

namespace Once

variable {p : Progress η}

section

variable (h : Once hs l s) (turns : Lexicon.free.Turns s p)
include h turns

/-- Nothing happens that has happened before. -/
theorem not_mem {x : Happening} (mem : x ∈ s.happenings p.state) : x ∉ hs := by
  intro before
  obtain ⟨busy, happens⟩ := State.happens_of_mem mem
  cases x with
  | delivered way id => exact (h.delivered way id before).2 _ (turns.delivered happens).1
  | begun e c =>
    exact Nat.not_lt_of_le (((turns.descends h.cells).2 busy).fresh e c happens).1
      (h.begun e c before)
  | concluded e c =>
    obtain ⟨f, -, -, unspent, -⟩ := turns.concluded happens
    simp [(h.concluded e c before).2] at unspent

theorem nodup_happenings : (s.happenings p.state).Nodup := by
  unfold State.happenings
  split
  · exact List.nodup_nil
  · next busy =>
    have begins := (turns.descends h.cells).2 busy
    -- The three kinds of happenings differ in their constructors.
    refine List.nodup_append.2 ⟨s.nodup_deliveries, List.nodup_append.2
      ⟨s.nodup_conclusions _, begins.nodup, ?_⟩, ?_⟩
    · rintro x conclusion y beginning rfl
      obtain ⟨e, c, rfl⟩ := State.exists_of_mem_conclusions conclusion
      obtain ⟨e', c', -, eq⟩ := State.exists_of_mem_beginnings beginning
      cases eq
    · rintro x delivery y others rfl
      obtain ⟨way, id, -, rfl, -⟩ := State.of_mem_deliveries delivery
      rcases List.mem_append.1 others with conclusion | beginning
      · obtain ⟨e, c, eq⟩ := State.exists_of_mem_conclusions conclusion
        cases eq
      · obtain ⟨e, c, -, eq⟩ := State.exists_of_mem_beginnings beginning
        cases eq

theorem turn : Once (s.happenings p.state ++ hs) l p.state := by
  obtain ⟨descends, begins⟩ := turns.descends h.cells
  have inherits := turns.inherits h.cells
  have episode_of_succeeds : ∀ {f g}, Lexicon.Succeeds g f →
      f.episode? = g.episode? ∧ f.cell? = g.cell? ∧ f.isInner = true := by
    rintro f g (_ | _) <;> exact ⟨rfl, rfl, rfl⟩
  refine {
    lawful := h.lawful.turn turns
    cells := ?_
    ids := ?_
    single := fun way id p q => (inherits way).single (h.single way id)
    delivered := ?_
    begun := ?_
    concluded := ?_
    known := ?_
    nodup := List.nodup_append.2 ⟨h.nodup_happenings turns, h.nodup, ?_⟩ }
  · intro f here c own
    rcases descends.frames f here with ⟨g, known, rfl | succeeds⟩ | ⟨-, -, -, new⟩
    · exact Nat.lt_of_lt_of_le (h.cells f known c own) descends.size
    · rw [(episode_of_succeeds succeeds).2.1] at own
      exact Nat.lt_of_lt_of_le (h.cells g known c own) descends.size
    · exact (new c own).2
  · intro id here
    rcases descends.frames _ here with ⟨g, known, rfl | succeeds⟩ | ⟨-, inner, -⟩
    · exact h.ids id known
    · cases (episode_of_succeeds succeeds).2.2
    · cases inner
  · intro way id mem
    rcases List.mem_append.1 mem with now | before
    · obtain ⟨claims, waits, later⟩ := turns.delivered (State.happens_of_mem now).2
      refine ⟨h.ids id (State.contains_of_stack waits), fun q claims' => ?_⟩
      obtain ⟨earlier, other⟩ := later q claims'
      exact other (h.single way id q .machine earlier claims)
    · have ended := h.delivered way id before
      exact ⟨ended.1, (inherits way).ended ended.2⟩
  · intro e c mem
    rcases List.mem_append.1 mem with now | before
    · obtain ⟨busy, beginning⟩ := State.happens_of_mem now
      exact ((begins busy).fresh e c beginning).2
    · exact Nat.lt_of_lt_of_le (h.begun e c before) descends.size
  · intro e c mem
    rcases List.mem_append.1 mem with now | before
    · obtain ⟨f, there, episode, -, spent⟩ := turns.concluded (State.happens_of_mem now).2
      have begun := h.known f (State.contains_of_stack there) e c episode
      exact ⟨List.mem_append_right _ begun, spent⟩
    · obtain ⟨begun, spent⟩ := h.concluded e c before
      exact ⟨List.mem_append_right _ begun, descends.spent c (h.begun e c begun) spent⟩
  · intro f here e c episode
    rcases descends.frames f here with ⟨g, known, rfl | succeeds⟩ | ⟨busy, -, pushed, new⟩
    · exact List.mem_append_right _ (h.known f known e c episode)
    · rw [(episode_of_succeeds succeeds).1] at episode
      exact List.mem_append_right _ (h.known g known e c episode)
    · have fresh := (new c (Frame.cell_of_episode episode)).1
      have begun : .begun e c ∈ s.beginnings p.state :=
        List.mem_filterMap.2 ⟨f, pushed, Frame.begins_eq_some.2 ⟨e, c, episode, fresh, rfl⟩⟩
      refine List.mem_append_left _ ?_
      unfold State.happenings
      split
      · next idle => exact (busy idle).elim
      · exact List.mem_append_right _ (List.mem_append_right _ begun)
  · exact fun x now y before eq => h.not_mem turns now (eq ▸ before)

end

theorem called (h : Once hs l s) (store : Store) (log : List String) {l' : Ledger}
    (recipients : l'.recipients = l.recipients) : Once hs l' (s.called store log) where
  lawful := { h.lawful with scripts := Lexicon.free_scripts store }
  cells := h.cells
  ids := recipients ▸ h.ids
  single := h.single
  delivered := recipients ▸ h.delivered
  begun := h.begun
  concluded := h.concluded
  known := h.known
  nodup := h.nodup

theorem start {w : World η} (fresh : w.held = #[]) (l : Ledger) :
    Once [] l ⟨.idle, [], [], w⟩ := by
  have none : ∀ f, ¬ (⟨.idle, [], [], w⟩ : State η).Contains f := by
    rintro f ⟨fs, mem, here⟩
    simp only [State.allStacks, fresh, List.map_nil, List.mem_singleton] at mem
    rw [mem] at here
    cases here
  refine ⟨⟨Lexicon.free_scripts _, trivial, fun busy => (busy rfl).elim, ?_, by simp⟩,
    fun f here => (none f here).elim, fun id here => (none _ here).elim,
    fun way id p q claims => (none _ claims.exists_deliver).elim, by simp, by simp, by simp,
    fun f here => (none f here).elim, by simp⟩
  simp [fresh]

variable {l' : Ledger} (h : Once hs l s)
include h

/-- Something is done from outside. Whoever begins something gets a number of their own, so that
nobody else can claim the outcome. -/
theorem outside (heir : Way → Claimant)
    (lawful : Lexicon.free.Lawful t) (recipients : l.recipients.size ≤ l'.recipients.size)
    (spares : s.world.Spares t.world) (held : t.world.held = s.world.held)
    (frames : ∀ f ∈ t.stack, f.episode? = none ∧
      (∀ c, f.cell? = some c → c < t.world.spent.size) ∧
      ∀ id, f = .deliver id → id < l'.recipients.size)
    (machine : ∀ way id, t.Claims way id .machine → l.recipients.size ≤ id ∧ heir way = .machine)
    (cell : ∀ way id c, Leads way c id t.stack → l.recipients.size ≤ id ∧ heir way = .cell c) :
    Once hs l' t := by
  have cases_frame : ∀ f, t.Contains f → s.Contains f ∨ f ∈ t.stack := by
    rintro f ⟨fs, mem, here⟩
    rcases List.mem_cons.1 mem with rfl | mem
    · exact .inr here
    · exact .inl ⟨fs, List.mem_cons_of_mem _ (held ▸ mem), here⟩
  have cases_claim : ∀ way id p, t.Claims way id p →
      s.Claims way id p ∨ l.recipients.size ≤ id ∧ heir way = p := by
    intro way id p claims
    cases p with
    | machine => exact .inr (machine way id claims)
    | held ticket =>
      obtain ⟨call, found, rest⟩ := claims
      exact .inl ⟨call, held ▸ found, rest⟩
    | cell c =>
      obtain ⟨unspent, fs, mem, leads⟩ := claims
      rcases List.mem_cons.1 mem with rfl | mem
      · exact .inr (cell way id c leads)
      · have known : fs ∈ s.allStacks := List.mem_cons_of_mem _ (held ▸ mem)
        have same := spares.same c ((h.cells.cells known).of_leads leads)
        exact .inl ⟨same.symm.trans unspent, fs, known, leads⟩
  have claims_lt : ∀ {way id p}, s.Claims way id p → id < l.recipients.size :=
    fun claims => h.ids _ claims.exists_deliver
  refine {
    lawful, nodup := h.nodup
    cells := ?_, ids := ?_, single := ?_, delivered := ?_, begun := ?_, concluded := ?_
    known := ?_ }
  · intro f here c own
    rcases cases_frame f here with known | top
    · exact Nat.lt_of_lt_of_le (h.cells f known c own) spares.more
    · exact (frames f top).2.1 c own
  · intro id here
    rcases cases_frame _ here with known | top
    · exact Nat.lt_of_lt_of_le (h.ids id known) recipients
    · exact (frames _ top).2.2 id rfl
  · intro way id p q left right
    rcases cases_claim way id p left with left | ⟨new, left⟩ <;>
      rcases cases_claim way id q right with right | ⟨new', right⟩
    · exact h.single way id p q left right
    · exact absurd (claims_lt left) (Nat.not_lt_of_le new')
    · exact absurd (claims_lt right) (Nat.not_lt_of_le new)
    · rw [← left, ← right]
  · intro way id mem
    obtain ⟨known, ended⟩ := h.delivered way id mem
    refine ⟨Nat.lt_of_lt_of_le known recipients, fun p claimed => ?_⟩
    rcases cases_claim way id p claimed with claimed | ⟨new, -⟩
    · exact ended p claimed
    · exact Nat.not_lt_of_le new known
  · exact fun e c mem => Nat.lt_of_lt_of_le (h.begun e c mem) spares.more
  · intro e c mem
    obtain ⟨begun, before⟩ := h.concluded e c mem
    exact ⟨begun, (spares.same c (h.begun e c begun)).trans before⟩
  · intro f here e c episode
    rcases cases_frame f here with known | top
    · exact h.known f known e c episode
    · simp [(frames f top).1] at episode

theorem change {w : World η} (spent : w.spent = s.world.spent)
    (held : w.held = s.world.held) (agenda : Agenda)
    (recipients : l.recipients.size ≤ l'.recipients.size) :
    Once hs l' ⟨.idle, [], agenda, w⟩ := by
  refine h.outside (fun _ => .machine) ?_ recipients (.of_spent spent) held (List.forall_mem_nil _)
    (fun way id claims => ?_) fun _ _ _ => False.elim
  · exact ⟨Lexicon.free_scripts _, trivial, fun busy => (busy rfl).elim, held ▸ h.lawful.held,
      fun _ _ _ _ => trivial⟩
  · simp [State.Claims, Control.pursues] at claims

theorem evaluate (site : Site) (recipients : l'.recipients.size = l.recipients.size + 1) :
    Once hs l' { State.program site l.recipients.size s.world with agenda := s.agenda } := by
  -- The program's frame takes its value, and failures go past it.
  let heir (way : Way) : Claimant := Way.casesOn way (.cell s.world.spent.size) .machine
  refine h.outside heir ?_ (by omega) (.newCell s.world) rfl ?_ ?_ ?_
  · exact ⟨h.lawful.scripts, Lexicon.legal_program _ _ _, fun _ => trivial, h.lawful.held, h.lawful.agenda⟩
  · intro f here
    rcases List.mem_cons.1 here with rfl | here
    · refine ⟨rfl, ?_, by rintro _ ⟨⟩⟩
      rintro c ⟨⟩
      simp [State.program, State.pushCell, World.newCell]
    · cases List.mem_singleton.1 here
      refine ⟨rfl, by simp [Frame.cell?], ?_⟩
      rintro id ⟨⟩
      omega
  · rintro way id ⟨-, reaches⟩
    cases way <;> cases reaches
    exact ⟨Nat.le_refl _, rfl⟩
  · rintro way id c (⟨stop, reaches⟩ | ⟨stop, -⟩ | leads)
    · cases way <;> cases stop
      cases reaches
      exact ⟨Nat.le_refl _, rfl⟩
    · cases way <;> cases stop
    · exact leads.elim

theorem call (f : FunctionId) (this : Value) (args : List Value)
    (config : Config) (recipients : l'.recipients.size = l.recipients.size + 1) :
    Once hs l' ⟨.apply f this args config, [.deliver l.recipients.size], s.agenda, s.world⟩ := by
  refine h.outside (fun _ => .machine) ?_ (by omega) (.refl _) rfl ?_ ?_ ?_
  · exact ⟨h.lawful.scripts, Lexicon.legal_call _ _, fun _ => rfl, h.lawful.held, h.lawful.agenda⟩
  · intro g here
    cases List.mem_singleton.1 here
    refine ⟨rfl, by simp [Frame.cell?], ?_⟩
    rintro id ⟨⟩
    omega
  · rintro way id ⟨-, reaches⟩
    cases reaches
    exact ⟨Nat.le_refl _, rfl⟩
  · rintro way id c (⟨stop, -⟩ | leads)
    · cases way <;> cases stop
    · exact leads.elim

end Once

/-! ## Along a history -/

theorem Once.of_history {η : Type} {O : Outside η} {host : Host η} {s : State η}
    {past : List (State η)} {l : Ledger} (h : History O host (s :: past) l) :
    Once (happenings (s :: past)) l s := by
  have resting : ∀ {s t : State η} {past : List (State η)}, s.control = .idle →
      happenings (t :: s :: past) = happenings (s :: past) := by
    intro s t past idle
    simp [happenings, State.happenings, idle]
  generalize states : s :: past = all at h
  induction h generalizing s past with
  | start l left fresh =>
    cases states
    exact Once.start fresh l
  | step h stepped ih =>
    cases states
    obtain ⟨store, log, rfl, -, recipients⟩ := Ledger.exists_advance_of_step stepped
    have once := ih rfl
    exact (once.turn (once.lawful.turns (Lexicon.free_obeys host))).called store log recipients
  | change h idle left spent held answers recipients ih =>
    cases states
    rw [resting idle]
    exact (ih rfl).change spent held _ recipients
  | evaluate h idle evaluates recipient ih =>
    cases states
    rw [resting idle]
    exact (ih rfl).evaluate _ (Array.size_push _)
  | call h idle f this args config recipient ih =>
    cases states
    rw [resting idle]
    exact (ih rfl).call f this args config (Array.size_push _)

/-- However held calls are answered, nothing happens twice: no evaluation delivers two values or two
failures, no evaluation of a try statement runs its finalizer twice, no round of a loop starts two
others. And nothing is concluded that has not begun. -/
theorem outcomes_at_most_once {η : Type} {O : Outside η} {host : Host η} {states : List (State η)}
    {l : Ledger} (h : History O host states l) :
    (happenings states).Nodup ∧
      ∀ e c, .concluded e c ∈ happenings states → .begun e c ∈ happenings states := by
  cases states with
  | nil => exact ⟨List.nodup_nil, nofun⟩
  | cons s past =>
    have once := Once.of_history h
    exact ⟨once.nodup, fun e c concluded => (once.concluded e c concluded).1⟩

namespace Sample

/-- Every call is held and answered three times, with a failure between two values. -/
def fickle : Host Unit := ⟨fun _ _ _ _ store kept =>
  ⟨.hold [.value .null, .failure (.plain (.thrown .null)), .value .null], store, ["f"], kept⟩⟩

def fickleRun : Ledger × List (State Unit) :=
  (Ledger.empty.addRecipient (.caller 0)).2.record fickle 100 (.program (rescue .plain) 0 (world []))
    [⟨.idle, [], [], world []⟩]

/-- The script delivers a value and a failure; its finalizer runs once. -/
theorem rescue_outcomes_at_most_once :
    History ⟨fun _ => True, fun _ _ => True, fun _ => True⟩ fickle fickleRun.2 fickleRun.1 ∧
      happenings fickleRun.2 = [.delivered .failure 0, .delivered .value 0, .concluded .attempt 1,
        .begun .attempt 1] ∧
      (happenings fickleRun.2).Nodup := by
  have begun : History ⟨fun _ => True, fun _ _ => True, fun _ => True⟩ fickle
      [.program (rescue .plain) 0 (world []), ⟨.idle, [], [], world []⟩]
      (Ledger.empty.addRecipient (.caller 0)).2 :=
    .evaluate (.start .empty trivial rfl) rfl trivial (.caller 0)
  exact ⟨begun.record 100, by decide +kernel, (outcomes_at_most_once (begun.record 100)).1⟩

end Sample

end EcmaMachine
