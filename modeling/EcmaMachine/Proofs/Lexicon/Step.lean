import EcmaMachine.Proofs.Bond.Step

/-!
What one step of the machine can do. `Turns` lists the cases; that the machine keeps to a lexicon
and whatever else is true of all its steps is read off them.
-/

namespace EcmaMachine

/-- Whether the machine is in the middle of something that may end either way. -/
def Control.isWork : Control → Bool
  | .eval _ | .bind .. | .apply .. => true
  | _ => false

def Progress.state {η : Type} : Progress η → State η
  | .next s => s
  | .delivered _ _ s => s
  | .rest s => s

def World.afterCall {η : Type} (w : World η) (step : HostStep η) : World η :=
  { w with store := step.store, host := step.host, log := w.log ++ step.log }

def Held.close (h : Held) : Outcome → Held
  | .value _ => { h with valueOpen := false }
  | .failure _ => { h with failureOpen := false }

/-- Whoever is answered, all held calls wait above the frames that they were made above. -/
theorem Held.forall_close {P : List Frame → Prop} {held : Array Held}
    (all : ∀ h ∈ held, P h.stack) (ticket : Nat) (o : Outcome) :
    ∀ h ∈ held.modify ticket (·.close o), P h.stack := by
  intro h mem
  obtain ⟨i, found⟩ := Array.mem_iff_getElem?.1 mem
  rw [Array.getElem?_modify] at found
  split at found
  · obtain ⟨before, known, rfl⟩ := Option.map_eq_some_iff.1 found
    have same := all before (Array.mem_of_getElem? known)
    cases o <;> exact same
  · exact all h (Array.mem_of_getElem? found)

namespace State

variable {η : Type} {s : State η} {ticket : Nat} {o : Outcome}

theorem advance_agenda (host : Host η) {agenda : Agenda}
    (idle : s.control = .idle) (next : s.agenda = (ticket, o) :: agenda) :
    s.advance host = .next (({ s with agenda }).answer ticket o) := by
  simp only [advance, idle, next]

theorem exists_held_of_accepts (h : s.accepts ticket o = true) :
    ∃ call, s.world.held[ticket]? = some call := by
  cases found : s.world.held[ticket]? with
  | some call => exact ⟨call, rfl⟩
  | none => cases o <;> simp [accepts, found] at h

theorem answer_of_accepts (h : s.accepts ticket o = true) {call : Held}
    (found : s.world.held[ticket]? = some call) :
    s.answer ticket o =
      ({ s with
        stack := call.stack
        world := { s.world with held := s.world.held.modify ticket (·.close o) } }).finish o := by
  simp only [answer, if_pos h, found]
  rfl

theorem answer_of_not_accepts (h : s.accepts ticket o = false) : s.answer ticket o = s := by
  simp [answer, h]

end State

namespace Lexicon

variable {η : Type} {L : Lexicon} {host : Host η} {s t : State η} {below : List Frame}

/-- A state that keeps to the lexicon. A held call was made where no jump is taken up, so none may
come out of it. -/
structure Lawful (L : Lexicon) (s : State η) : Prop where
  scripts : L.Scripts s.store
  legal : L.Legal s.stack
  suits : s.control ≠ .idle → L.Suits s.stack s.control
  held : ∀ h ∈ s.world.held, L.Legal h.stack ∧ L.role h.stack = .closed
  agenda : ∀ a ∈ s.agenda, ∀ e, a.2 = .failure e → L.takes .closed e.signal

theorem Lawful.suits_of (h : L.Lawful s) {control : Control} (now : s.control = control)
    (busy : control ≠ .idle) : L.Suits s.stack control := by
  subst now
  exact h.suits busy

structure Sound (L : Lexicon) (step : HostStep η) : Prop where
  scripts : L.Scripts step.store
  failure : ∀ e, step.reply = .failure e → L.takes .closed e.signal
  answers : ∀ os, step.reply = .hold os → ∀ e, .failure e ∈ os → L.takes .closed e.signal

/-- Host functions make no function that is outside of the lexicon, and fail for no reason that is
outside of it. -/
def Obeys (L : Lexicon) (host : Host η) : Prop :=
  ∀ word this args ticket store kept, L.Scripts store →
    L.Sound (host.call word this args ticket store kept)

/-- What comes of an outcome that is handed to a frame: it goes on over the frames below, or its
way is barred by the cell of the frame, or it spends that cell; or the frame makes place for
another. -/
inductive Handed (L : Lexicon) (way : Way) (f : Frame) (below : List Frame) (s : State η) :
    State η → Prop
  | on {t : State η} (free : f.stop way = none) (ends : L.Ends s below t)
    (quiet : ∀ other, other ≠ way → Quiet other below t)
    (still : f.cell? = none ∨ t.stack = below) : L.Handed way f below s t
  | dropped {cell : Cell} (own : f.cell? = some cell) (spent : s.world.isSpent cell = true) :
    L.Handed way f below s s.rest
  | spent {cell : Cell} {t : State η} (own : f.cell? = some cell)
    (unspent : s.world.isSpent cell = false)
    (ends : L.Ends { s with world := s.world.spend cell } below t)
    (quiet : ∀ other, f.stop other = some cell ∨ Quiet other below t) : L.Handed way f below s t
  | swapped {f' : Frame} {t : State η} (succeeds : Succeeds f f')
    (ends : L.Ends (s.push f') (f' :: below) t)
    (barred : ∀ other, ∃ c, goal other (f' :: below) = .cell c)
    (top : t.stack = f' :: below ∨ ∃ site slot, t.stack = .exit site slot :: f' :: below) :
    L.Handed way f below s t

inductive Turns (L : Lexicon) (s : State η) : Progress η → Prop
  /-- The work goes on. -/
  | works {t : State η} (work : s.control.isWork = true) (ends : L.Ends s s.stack t) :
    L.Turns s (.next t)
  /-- An answer function tells its argument. -/
  | tells {t : State η} {id : Nat} {o : Outcome} (work : s.control.isWork = true)
    (ends : L.Ends s s.stack t) : L.Turns s (.delivered id o t)
  | resumes {v receiver : Value} {f : Frame} {below : List Frame}
    (control : s.control = .ret v receiver) (stack : s.stack = f :: below)
    (inner : f.isInner = true)
    (handed : L.Handed .value f below s.pop (s.pop.resume v receiver f)) :
    L.Turns s (.next (s.pop.resume v receiver f))
  | unwinds {e : Exception} {f : Frame} {below : List Frame} (control : s.control = .fail e)
    (stack : s.stack = f :: below) (inner : f.isInner = true)
    (handed : L.Handed .failure f below s.pop (s.pop.unwind e f)) :
    L.Turns s (.next (s.pop.unwind e f))
  /-- The outcome of an evaluation is delivered. -/
  | delivers {id : Nat} {below : List Frame} {o : Outcome} (outcome : s.control.isOutcome = true)
    (stack : s.stack = .deliver id :: below) : L.Turns s (.delivered id o s.pop.rest)
  /-- Nobody waits for the outcome. -/
  | ends (stack : s.stack = []) : L.Turns s (.next s.rest)
  | holds {step : HostStep η} {os : List Outcome} (closed : L.role s.stack = .closed)
    (work : s.control.isWork = true) (sound : L.Sound step) (reply : step.reply = .hold os) :
    L.Turns s (.next
      { control := .idle
        stack := []
        agenda := os.map (s.world.held.size, ·) ++ s.agenda
        world := { s.world.afterCall step with held := s.world.held.push ⟨s.stack, true, true⟩ } })
  | answers {ticket : Nat} {o : Outcome} {agenda : Agenda}
    (idle : s.control = .idle) (next : s.agenda = (ticket, o) :: agenda) :
    L.Turns s (.next (({ s with agenda }).answer ticket o))
  | rests (idle : s.control = .idle) : L.Turns s (.rest s)

/-! ## Every step is one of these -/

theorem Lawful.work (h : L.Lawful s) : L.Work s s.stack s.stack s := .start h.legal h.scripts

/-- The topmost frame is taken off. -/
theorem Lawful.pop (h : L.Lawful s) {f : Frame} (stack : s.stack = f :: below) :
    L.Work s.pop below below s.pop ∧ L.Fits below f := by
  have legal := h.legal
  rw [stack] at legal
  refine ⟨?_, legal.1⟩
  have popped : s.pop.stack = below := by rw [State.pop, stack]; rfl
  have work : L.Work s.pop s.pop.stack s.pop.stack s.pop := .start (popped ▸ legal.2) h.scripts
  rwa [popped] at work

def conduct (L : Lexicon) : Conduct η where
  region := .whole
  lens := ⟨id, false⟩
  config := id
  admits _ := True
  tracks := False
  may _ := True
  crafts := True
  rewires := True
  lexicon := L
  lawful := True
  references _ := Config.references_id
  plain _ := trivial
  crafty _ := trivial
  Mid p fs σ s t := s.store = σ ∧ t.store = σ ∧ L.Work p p.stack fs s
  Next p s _ := L.Ends p p.stack s
  Top f fs σ s t := s.store = σ ∧ t.store = σ ∧ s.stack = f :: fs ∧ L.Work s.pop fs fs s.pop
  Given way f s s' _ := L.Handed way f s.pop.stack s.pop s'
  keeps _ := trivial
  store_eq h := h.1
  look_eq h := h.2.1.trans (Store.look_id false _).symm
  stack_eq h _ := h.2.2.stack
  top_eq h := ⟨trivial, h.1, h.2.1.trans (Store.look_id false _).symm⟩
  write h later := ⟨rfl, Store.look_id false _,
    h.2.2.withStore _ (later.scripts trivial (h.1 ▸ h.2.2.scripts))⟩
  push h plain bears := ⟨h.1, h.2.1, h.2.2.push _ (Frame.cell_of_isPlain plain)
    (Frame.isInner_of_isPlain plain) (bears.fits trivial)⟩
  pushCell h cell bears := ⟨h.1, h.2.1, h.2.2.pushCell _ cell ((bears _).fits trivial)⟩
  newCell h := ⟨h.1, h.2.1, h.2.2.newCell⟩
  become control h pursues := h.2.2.become <| by
    cases control with
    | eval => exact pursues.suits trivial
    | bind => exact pursues.1.suits trivial
    | ret => trivial
    | fail => exact pursues.takes trivial
    | apply => exact pursues.2.2.2.2 trivial
    | idle => exact pursues
  enter h _ inside := h.2.2.enter _ fun work same => inside ⟨same.trans h.1, h.2.1, work⟩
  pop {fs σ s t f} h _ := by
    have stack : s.pop.stack = fs := h.2.2.2.stack
    exact ⟨h.1, h.2.1, stack.symm ▸ h.2.2.2⟩
  leave {fs σ s t site slot} o h _ := by
    have stack : s.pop.stack = fs := h.2.2.2.stack
    refine ⟨(World.tell_store _ _ _ _).trans h.1, (World.tell_store _ _ _ _).trans h.2.1, ?_⟩
    rw [stack, State.leave_eq]
    exact h.2.2.2.tell site slot _
  swap {fs σ s t f f'} h _ bears := by
    refine ⟨h.1, h.2.1, ?_⟩
    have stack : (s.pop.push f').stack = f' :: fs := congrArg (f' :: ·) h.2.2.2.stack
    rw [stack]
    exact { h.2.2.2 with
      stack
      legal := ⟨bears.fits trivial, h.2.2.2.legal⟩
      agenda := rfl
      held := rfl
      spent := ⟨0, by simp⟩
      grown := .nothing }
  given {way fs σ s t s' t' f} h free quiet next := by
    have stack : s.pop.stack = fs := h.2.2.2.stack
    exact stack ▸ .on free (stack ▸ next) (quiet trivial).1 (quiet trivial).2
  swapped {way fs σ s t s' t' f f'} h succeeds barred next := by
    have stack : s.pop.stack = fs := h.2.2.2.stack
    have stack' : (s.pop.push f').stack = f' :: fs := congrArg (f' :: ·) stack
    exact stack ▸ .swapped succeeds (stack' ▸ next) (barred trivial).1 (barred trivial).2
  once {way fs σ s t f cell work work'} h own inside quiet := by
    have stack : s.pop.stack = fs := h.2.2.2.stack
    split
    · next spent => exact .dropped own spent
    · next unspent =>
      let s' : State η := { s.pop with world := s.world.spend cell }
      have fresh : L.Work s' fs fs s' :=
        { h.2.2.2 with agenda := rfl, held := rfl, spent := ⟨0, by simp⟩, grown := .nothing }
      have ends := inside (s := s') (t := s') ⟨h.1, h.1, stack.symm ▸ fresh⟩
      exact .spent own (Bool.not_eq_true _ ▸ unspent) ends
        (stack.symm ▸ quiet trivial stack)

theorem Lawful.mid (h : L.Lawful s) : (L.conduct (η := η)).Mid s s.stack s.store s s :=
  ⟨rfl, rfl, h.work⟩

theorem Lawful.top (h : L.Lawful s) {f : Frame} (stack : s.stack = f :: below) :
    (L.conduct (η := η)).Top f below s.store s s ∧
      (L.conduct (η := η)).Bears s.store below f := by
  obtain ⟨work, fits⟩ := h.pop stack
  exact ⟨⟨rfl, rfl, stack, work⟩, Region.whole_carries f, fun _ _ => trivial, nofun,
    Terms.calm_of_crafts trivial f, fun _ => fits⟩

theorem Lawful.applyHost (h : L.Lawful s) (obeys : L.Obeys host) (work : s.control.isWork = true)
    (closed : L.role s.stack = .closed) (word : String) (this : Value) (args : List Value) :
    L.Turns s (.next (s.applyHost host word this args)) := by
  have sound := obeys word this args s.world.held.size s.store s.world.host h.scripts
  simp only [State.applyHost]
  generalize host.call word this args s.world.held.size s.store s.world.host = step at sound
  have called : L.Work s s.stack s.stack { s with world := s.world.afterCall step } :=
    { h.work with scripts := sound.scripts }
  cases reply : step.reply with
  | value v =>
    exact .works work (called.give v)
  | failure e =>
    exact .works work (called.fail (L.widened (sound.failure e reply)))
  | call f this args =>
    have suits : L.Suits s.stack (.apply f this args .plain) := closed
    exact .works work (called.become suits)
  | hold os =>
    exact .holds closed work sound reply

theorem Lawful.applyFunction (h : L.Lawful s) (obeys : L.Obeys host) {f : FunctionId}
    {this : Value} {args : List Value} {config : Config}
    (control : s.control = .apply f this args config) :
    L.Turns s (s.applyFunction host f this args config) := by
  have work : s.control.isWork = true := by rw [control]; rfl
  have closed : L.role s.stack = .closed := h.suits_of control (by rintro ⟨⟩)
  unfold State.applyFunction
  split
  · exact .works work (h.work.give _)
  · next closure properties found =>
    have mem : .closure closure ∈ s.store.callables := by
      simp only [Store.callables, Array.mem_map]
      exact ⟨_, Array.mem_of_getElem? found, rfl⟩
    exact .works work (h.mid.applyClosure closure trivial Region.whole_has
      (fun _ _ => Region.whole_has) config trivial (fun _ => closed) fun _ => h.scripts closure mem)
  · exact h.applyHost obeys work closed _ this args
  · simp only
    split
    · exact .works work (h.work.give _)
    · have told := h.work.give .undefined
      exact .tells work ⟨{ told.work with }, trivial⟩

/-- The cases of a step. -/
theorem Lawful.turns (h : L.Lawful s) (obeys : L.Obeys host) : L.Turns s (s.advance host) := by
  have delivers : ∀ {f below}, s.control.isOutcome = true → s.stack = f :: below →
      f.isInner = false → L.Turns s (s.advance host) := by
    intro f below outcome stack outer
    cases f with
    | deliver id =>
      obtain ⟨o, delivered⟩ := State.exists_delivered outcome
      exact delivered host rfl stack ▸ .delivers outcome stack
    | _ => cases outer
  cases control : s.control with
  | eval site =>
    have part : L.part (L.role s.stack) site.node := h.suits_of control (by rintro ⟨⟩)
    simp only [State.advance, control]
    refine .works (by rw [control]; rfl) (h.work.enter none fun work same => ?_)
    exact Conduct.Mid.start (C := L.conduct) (t := s) ⟨same, rfl, work⟩
      ⟨Region.whole_allows, trivial, fun _ => part⟩ (fun _ => begins_of_part part)
      (fun _ _ _ _ _ _ _ _ _ => rfl) fun _ => trivial
  | bind target v =>
    have pattern : L.pattern target.node := h.suits_of control (by rintro ⟨⟩)
    simp only [State.advance, control]
    exact .works (by rw [control]; rfl)
      (h.mid.bindPattern ⟨Region.whole_allows, trivial, fun _ => pattern⟩ Region.whole_has)
  | apply f this args config =>
    simp only [State.advance, control]
    exact h.applyFunction obeys control
  | ret v receiver =>
    cases stack : s.stack with
    | nil =>
      simp only [State.advance, control, stack]
      exact .ends stack
    | cons f below =>
      obtain ⟨top, bears⟩ := h.top stack
      cases inner : f.isInner with
      | true =>
        rw [State.advance_ret host control stack inner]
        have handed : L.Handed .value f s.pop.stack s.pop (s.pop.resume v receiver f) :=
          top.resume inner bears Region.whole_has Region.whole_has False.elim
            (fun _ _ _ _ => ⟨trivial, Region.whole_crafted⟩) fun _ _ _ _ _ => .inl trivial
        exact .resumes control stack inner (top.2.2.2.stack ▸ handed)
      | false => exact delivers (by rw [control]; rfl) stack inner
  | fail e =>
    have takes : L.takes (L.role s.stack) e.signal := h.suits_of control (by rintro ⟨⟩)
    cases stack : s.stack with
    | nil =>
      simp only [State.advance, control, stack]
      exact .ends stack
    | cons f below =>
      obtain ⟨top, bears⟩ := h.top stack
      cases inner : f.isInner with
      | true =>
        rw [State.advance_fail host control stack inner]
        have handed : L.Handed .failure f s.pop.stack s.pop (s.pop.unwind e f) :=
          top.unwind inner bears ⟨Region.whole_signals, trivial, fun _ => stack ▸ takes⟩
        exact .unwinds control stack inner (top.2.2.2.stack ▸ handed)
      | false => exact delivers (by rw [control]; rfl) stack inner
  | idle =>
    cases agenda : s.agenda with
    | nil =>
      simp only [State.advance, control, agenda]
      exact .rests control
    | cons a agenda' =>
      rw [State.advance_agenda host control agenda]
      exact .answers control agenda

/-! ## The machine keeps to the lexicon -/

theorem Ends.lawful {s₀ : State η} (h : L.Ends s₀ below t)
    (held : ∀ h ∈ s₀.world.held, L.Legal h.stack ∧ L.role h.stack = .closed)
    (agenda : ∀ a ∈ s₀.agenda, ∀ e, a.2 = .failure e → L.takes .closed e.signal) : L.Lawful t where
  scripts := h.work.scripts
  legal := h.work.legal
  suits _ := h.suits
  held := h.work.held ▸ held
  agenda := h.work.agenda ▸ agenda

theorem Handed.lawful {way : Way} {f : Frame} (h : L.Lawful s) (stack : s.stack = f :: below)
    (handed : L.Handed way f below s.pop t) : L.Lawful t := by
  cases handed with
  | on free ends quiet still | spent own unspent ends quiet | swapped succeeds ends barred top =>
    exact ends.lawful h.held h.agenda
  | dropped own spent =>
    have work := (h.pop stack).1
    exact { h with
      legal := work.stack ▸ work.legal
      suits := fun busy => (busy rfl).elim }

theorem Lawful.answer (h : L.Lawful s) {ticket : Nat} {o : Outcome}
    {agenda : Agenda} (next : s.agenda = (ticket, o) :: agenda) :
    L.Lawful (({ s with agenda }).answer ticket o) := by
  have later : ∀ a ∈ agenda, ∀ e, a.2 = .failure e → L.takes .closed e.signal := fun a mem =>
    h.agenda a (next ▸ List.mem_cons_of_mem _ mem)
  have held := Held.forall_close (P := fun fs => L.Legal fs ∧ L.role fs = .closed) h.held ticket o
  cases accepts : ({ s with agenda } : State η).accepts ticket o with
  | false =>
    rw [State.answer_of_not_accepts accepts]
    exact { h with agenda := later }
  | true =>
    obtain ⟨call, found⟩ := State.exists_held_of_accepts accepts
    obtain ⟨legal, closed⟩ := h.held call (Array.mem_of_getElem? found)
    rw [State.answer_of_accepts accepts found]
    cases o with
    | value v =>
      exact { scripts := h.scripts, legal, suits := fun _ => trivial, held, agenda := later }
    | failure e =>
      have takes : L.takes .closed e.signal := h.agenda _ (next ▸ List.mem_cons_self) e rfl
      exact { scripts := h.scripts, legal, suits := fun _ => L.widened takes, held, agenda := later }

/-- A step leads from a state that keeps to the lexicon to another. -/
theorem Lawful.turn (h : L.Lawful s) {p : Progress η} (turns : L.Turns s p) :
    L.Lawful p.state := by
  cases turns with
  | works work ends | tells work ends => exact ends.lawful h.held h.agenda
  | resumes control stack inner handed | unwinds control stack inner handed =>
    exact handed.lawful h stack
  | delivers outcome stack =>
    have work := (h.pop stack).1
    exact { h with
      legal := work.stack ▸ work.legal
      suits := fun busy => (busy rfl).elim }
  | ends stack => exact { h with suits := fun busy => (busy rfl).elim }
  | holds closed work sound reply =>
    rename_i os
    refine ⟨sound.scripts, trivial, fun busy => (busy rfl).elim, ?_, ?_⟩
    · intro c mem
      rcases Array.mem_push.1 mem with mem | rfl
      · exact h.held c mem
      · exact ⟨h.legal, closed⟩
    · intro a mem e failed
      rcases List.mem_append.1 mem with mem | mem
      · obtain ⟨o, given, rfl⟩ := List.mem_map.1 mem
        cases failed
        exact sound.answers os reply e given
      · exact h.agenda a mem e failed
  | answers idle next => exact h.answer next
  | rests idle => exact h

end Lexicon

end EcmaMachine
