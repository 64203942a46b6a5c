import EcmaMachine.Proofs.Grammar.Expressions
import EcmaMachine.Proofs.History

/-!
Jumps stay where they belong. In every history of texts that are evaluated, a `return` ends in its
function or program, and a `break` or `continue` in its function or in a loop of it; only those of
the program itself, with no loop around them, get outside.
-/

namespace EcmaMachine

variable {η : Type}

/-! ## Scripts that come from texts -/

def Closure.IsOf (c : Closure) (n : Node) : Prop :=
  ∃ parts, n.functionParts? = some parts ∧ c.params = parts.params ∧ c.body = parts.body ∧
    c.isArrow = parts.isArrow

/-- The function stands in a text, or is the constructor of a class there that has no other. -/
def Closure.FromText (c : Closure) : Prop :=
  ∃ text tree n, parse text = .ok tree ∧ tree.Within n ∧
    (c.IsOf n ∨ c.IsOf (Store.emptyConstructor n))

def Store.Scripted (before after : Store) : Prop :=
  ∀ c, .closure c ∈ after.callables → .closure c ∈ before.callables ∨ c.FromText

def Outcome.Lacks (bars : Signal → Bool) (o : Outcome) : Prop :=
  ∀ e, o = .failure e → bars e.signal = false

/-- Those outside evaluate texts, make functions of texts only and answer with none of the failures
that are barred. -/
def Outside.scripted (bars : Signal → Bool) : Outside η where
  evaluates site := ∃ text, parse text = .ok site.node
  leaves before w := before.Scripted w.store
  answers := Outcome.Lacks bars

/-- Functions of the host make functions of texts only and end with no failure that is barred. -/
structure Host.Scripted (bars : Signal → Bool) (host : Host η) : Prop where
  store : ∀ word this args ticket (store : Store) kept,
    store.Scripted (host.call word this args ticket store kept).store
  failure : ∀ word this args ticket store kept e,
    (host.call word this args ticket store kept).reply = .failure e → bars e.signal = false
  answers : ∀ word this args ticket store kept os,
    (host.call word this args ticket store kept).reply = .hold os → ∀ o ∈ os, o.Lacks bars

section Texts

variable {L : Lexicon} {c : Closure}

theorem Closure.IsOf.script {n : Node} (h : c.IsOf n) (defines : L.Defines n) : L.Script c := by
  obtain ⟨parts, found, params, body, arrow⟩ := h
  have both := defines parts found
  rw [← params, ← body, ← arrow] at both
  exact both

/-- All functions of texts are in the lexicon. -/
def Lexicon.HasTexts (L : Lexicon) : Prop :=
  ∀ text tree n, parse text = .ok tree → tree.Within n → L.Defines n

variable (texts : L.HasTexts)
include texts

theorem Closure.FromText.script (h : c.FromText) : L.Script c := by
  obtain ⟨text, tree, n, parsed, within, ofNode | ofClass⟩ := h
  · exact ofNode.script (texts text tree n parsed within)
  · exact ofClass.script (Lexicon.defines_emptyConstructor n)

theorem Store.Scripted.scripts {before after : Store} (h : before.Scripted after)
    (scripts : L.Scripts before) : L.Scripts after := by
  intro c mem
  rcases h c mem with known | made
  · exact scripts c known
  · exact made.script texts

theorem Host.Scripted.obeys {host : Host η} {bars : Signal → Bool} (h : host.Scripted bars)
    (takes : ∀ {r s}, bars s = false → L.takes r s) : L.Obeys host := by
  intro word this args ticket store kept scripts
  refine ⟨(h.store word this args ticket store kept).scripts texts scripts, ?_, ?_⟩
  · intro e reply
    exact takes (h.failure word this args ticket store kept e reply)
  · intro os reply e mem
    exact takes (h.answers word this args ticket store kept os reply _ mem e rfl)

omit texts in
theorem Lexicon.scripts_empty : L.Scripts .empty := fun c mem => by
  simp [Store.callables, Store.empty] at mem

end Texts

def Lexicon.ofTexts (outer : Nat → Role) : Lexicon := .text outer fun s => s.isControl = false

theorem Lexicon.hasTexts_ofTexts (outer : Nat → Role) : (ofTexts outer).HasTexts :=
  fun _ _ n parsed within => ((statement_of_parse parsed).2 n within).1

/-! ## What was begun from outside -/

def State.opened (s t : State η) : Option (Nat × Option Site) :=
  match s.control, t.control, t.stack with
  | .idle, .eval site, [.program _, .deliver id] => some (id, some site)
  | .idle, .apply .., [.deliver id] => some (id, none)
  | _, _, _ => none

/-- All evaluations and calls that were begun from outside, the last first. -/
def openings : List (State η) → List (Nat × Option Site)
  | t :: s :: past => (s.opened t).toList ++ openings (s :: past)
  | _ => []

section Openings

variable {O : Outside η} {host : Host η} {s t : State η} {past states : List (State η)}
  {l l' : Ledger}

theorem mem_openings_cons {o : Nat × Option Site} :
    o ∈ openings (t :: s :: past) ↔ s.opened t = some o ∨ o ∈ openings (s :: past) := by
  simp [openings]

theorem State.opened_program (s : State η) (idle : s.control = .idle) (site : Site) (id : Nat) :
    s.opened { State.program site id s.world with agenda := s.agenda } = some (id, some site) := by
  simp only [opened, idle]
  rfl

theorem State.opened_call (s : State η) (idle : s.control = .idle) (f : FunctionId) (this : Value)
    (args : List Value) (config : Config) (id : Nat) :
    s.opened ⟨.apply f this args config, [.deliver id], s.agenda, s.world⟩ = some (id, none) := by
  simp only [opened, idle]

theorem State.opened_of_step (stepped : l.step host s = some (l', t)) : s.opened t = none := by
  obtain ⟨store, log, rfl, -, -⟩ := Ledger.exists_advance_of_step stepped
  cases control : s.control with
  | idle =>
    cases next : s.agenda with
    | nil => simp [advance, opened, control, next, Progress.state, called]
    | cons a agenda =>
      obtain ⟨ticket, o⟩ := a
      rw [advance_agenda host control next]
      cases accepts : ({ s with agenda } : State η).accepts ticket o with
      | false =>
        rw [answer_of_not_accepts accepts]
        simp [opened, control, Progress.state, called]
      | true =>
        obtain ⟨call, found⟩ := exists_held_of_accepts accepts
        rw [answer_of_accepts accepts found]
        cases o <;> simp [opened, Progress.state, called, finish, give, fail, become]
  | _ => simp [opened, control]

structure Numbered (l : Ledger) (states : List (State η)) : Prop where
  below : ∀ id a, (id, a) ∈ openings states → id < l.recipients.size
  unique : ∀ id a b, (id, a) ∈ openings states → (id, b) ∈ openings states → a = b

namespace Numbered

theorem next (h : Numbered l (s :: past)) (recipient : Recipient) {opening : Option Site}
    (opened : s.opened t = some (l.recipients.size, opening)) :
    Numbered (l.addRecipient recipient).2 (t :: s :: past) := by
  have size : (l.addRecipient recipient).2.recipients.size = l.recipients.size + 1 := by
    simp [Ledger.addRecipient]
  refine ⟨?_, ?_⟩
  all_goals simp only [mem_openings_cons, opened, Option.some.injEq, Prod.mk.injEq, size]
  · rintro id a (⟨rfl, rfl⟩ | mem)
    · omega
    · have := h.below id a mem
      omega
  · rintro id a b (⟨rfl, rfl⟩ | memA) (⟨same, rfl⟩ | memB)
    · rfl
    · exact absurd (h.below _ b memB) (Nat.lt_irrefl _)
    · exact absurd (same ▸ h.below id a memA) (Nat.lt_irrefl _)
    · exact h.unique id a b memA memB

/-- Nothing was begun. -/
theorem still (h : Numbered l (s :: past)) (opened : s.opened t = none)
    (recipients : l.recipients.size ≤ l'.recipients.size) : Numbered l' (t :: s :: past) := by
  refine ⟨?_, ?_⟩
  all_goals simp only [mem_openings_cons, opened, reduceCtorEq, false_or]
  · exact fun id a mem => Nat.lt_of_lt_of_le (h.below id a mem) recipients
  · exact h.unique

theorem of_history (h : History O host states l) : Numbered l states := by
  induction h with
  | start => exact ⟨nofun, nofun⟩
  | step h stepped ih =>
    obtain ⟨store, log, -, -, recipients⟩ := Ledger.exists_advance_of_step stepped
    exact ih.still (State.opened_of_step stepped) (Nat.le_of_eq (by rw [recipients]))
  | change h idle left spent held answers recipients ih =>
    exact ih.still (by simp [State.opened]) recipients
  | @evaluate s past l h idle site evaluates recipient ih =>
    exact ih.next recipient (s.opened_program idle site _)
  | @call s past l h idle f this args config recipient ih =>
    exact ih.next recipient (s.opened_call idle f this args config _)

end Numbered

end Openings

/-! ## All states keep to the lexicon -/

structure Expects (outer : Nat → Role) (states : List (State η)) : Prop where
  evaluated : ∀ id site, (id, some site) ∈ openings states → site.node.Strays →
    (outer id).breaks = true
  called : ∀ id, (id, none) ∈ openings states → outer id = .closed

theorem Expects.past {outer : Nat → Role} {s t : State η} {past : List (State η)}
    (h : Expects outer (t :: s :: past)) : Expects outer (s :: past) where
  evaluated id site mem := h.evaluated id site (mem_openings_cons.2 (.inr mem))
  called id mem := h.called id (mem_openings_cons.2 (.inr mem))

/-- Frames that end in a recipient outside, and have no other in between. -/
inductive Grounded : List Frame → Prop
  | ground (id : Nat) : Grounded [.deliver id]
  | above {f : Frame} {fs : List Frame} (inner : f.isInner = true) (h : Grounded fs) :
    Grounded (f :: fs)

namespace Grounded

variable {f : Frame} {fs below : List Frame}

theorem pop (h : Grounded (f :: below)) (inner : f.isInner = true) : Grounded below := by
  cases h with
  | ground => cases inner
  | above _ h => exact h

theorem grown {old count : Nat} (h : Lexicon.Grown old below count fs) (grounded : Grounded below) :
    Grounded fs := by
  induction h with
  | nothing => exact grounded
  | cell h ih => exact ih
  | frame plain inner h ih => exact .above inner ih
  | @both count fs f fresh h ih =>
    refine .above ?_ ih
    cases f with
    | deliver => cases fresh
    | _ => rfl

theorem inner_of_append {inner : List Frame} (h : Grounded (inner ++ fs)) (grounded : Grounded fs) :
    ∀ f ∈ inner, f.isInner = true := by
  induction inner with
  | nil =>
    intro f mem
    cases mem
  | cons f rest ih =>
    generalize eq : (f :: rest) ++ fs = all at h
    cases h with
    | ground =>
      have none : fs = [] := (List.append_eq_nil_iff.1 (List.cons.inj eq).2).2
      rw [none] at grounded
      cases grounded
    | above top h =>
      cases eq
      simp only [List.mem_cons, forall_eq_or_imp]
      exact ⟨top, ih h⟩

end Grounded

structure Confined (L : Lexicon) (s : State η) : Prop where
  lawful : L.Lawful s
  grounded : s.control ≠ .idle → Grounded s.stack
  held : ∀ h ∈ s.world.held, Grounded h.stack

namespace Confined

variable {L : Lexicon} {host : Host η} {s t : State η} {outer : Nat → Role}

section

variable (h : Confined L s) {below : List Frame}
include h

theorem ends {s₀ : State η} (ends : L.Ends s₀ below t)
    (lawful : L.Lawful t) (grounded : Grounded below) (held : s₀.world.held = s.world.held) :
    Confined L t where
  lawful := lawful
  grounded _ := .grown ends.work.grown grounded
  held := by
    rw [ends.work.held, held]
    exact h.held

theorem handed {way : Way} {f : Frame}
    (busy : s.control ≠ .idle) (stack : s.stack = f :: below) (inner : f.isInner = true)
    (handed : L.Handed way f below s.pop t) : Confined L t := by
  have lawful : L.Lawful t := handed.lawful h.lawful stack
  have grounded : Grounded below := (stack ▸ h.grounded busy).pop inner
  cases handed with
  | on free ends quiet still | spent own unspent ends quiet => exact h.ends ends lawful grounded rfl
  | dropped own spent => exact ⟨lawful, fun busy => (busy rfl).elim, h.held⟩
  | swapped succeeds ends barred top =>
    refine h.ends ends lawful (.above ?_ grounded) rfl
    cases succeeds <;> rfl

theorem answer {ticket : Nat} {o : Outcome} {agenda : Agenda}
    (idle : s.control = .idle) (lawful : L.Lawful (({ s with agenda }).answer ticket o)) :
    Confined L (({ s with agenda }).answer ticket o) := by
  cases accepts : ({ s with agenda } : State η).accepts ticket o with
  | false =>
    rw [State.answer_of_not_accepts accepts] at lawful ⊢
    exact ⟨lawful, fun busy => (busy idle).elim, h.held⟩
  | true =>
    obtain ⟨call, found⟩ := State.exists_held_of_accepts accepts
    have grounded : Grounded call.stack := h.held call (Array.mem_of_getElem? found)
    rw [State.answer_of_accepts accepts found] at lawful ⊢
    have held := Held.forall_close (P := Grounded) h.held ticket o
    cases o <;> exact ⟨lawful, fun _ => grounded, held⟩

theorem turn {p : Progress η} (turns : L.Turns s p) : Confined L p.state := by
  have lawful := h.lawful.turn turns
  have busy : s.control.isWork = true → s.control ≠ .idle := by
    intro work idle
    rw [idle] at work
    cases work
  cases turns with
  | works work ends | tells work ends => exact h.ends ends lawful (h.grounded (busy work)) rfl
  | resumes control stack inner handed | unwinds control stack inner handed =>
    exact h.handed (by rw [control]; nofun) stack inner handed
  | delivers outcome stack | ends stack => exact ⟨lawful, fun busy => (busy rfl).elim, h.held⟩
  | holds closed work sound reply =>
    refine ⟨lawful, fun busy => (busy rfl).elim, ?_⟩
    intro c mem
    rcases Array.mem_push.1 mem with mem | rfl
    · exact h.held c mem
    · exact h.grounded (busy work)
  | answers idle next => exact h.answer idle lawful
  | rests idle => exact h

/-- Something is begun from outside. -/
theorem opens {control : Control} {fs : List Frame} {w : World η}
    (legal : L.Legal fs) (suits : L.Suits fs control) (grounded : Grounded fs)
    (store : w.store = s.store) (held : w.held = s.world.held) :
    Confined L ⟨control, fs, s.agenda, w⟩ where
  lawful := ⟨by rw [State.store, store]; exact h.lawful.scripts, legal, fun _ => suits, held ▸ h.lawful.held, h.lawful.agenda⟩
  grounded _ := grounded
  held := held ▸ h.held

end

/-- In a history of texts, all states are confined, whichever jumps those outside expect. -/
theorem of_history (scripted : host.Scripted Signal.isControl) {states : List (State η)} {l : Ledger}
    (h : History (.scripted Signal.isControl) host states l) (expects : Expects outer states) :
    ∀ s ∈ states, Confined (Lexicon.ofTexts outer) s := by
  induction h with
  | @start l w left fresh =>
    rw [List.forall_mem_singleton]
    exact ⟨⟨left.scripts (Lexicon.hasTexts_ofTexts outer) Lexicon.scripts_empty, trivial, fun busy => (busy rfl).elim, by simp [fresh], by simp⟩,
      fun busy => (busy rfl).elim, by simp [fresh]⟩
  | @step s s' past l l' h stepped ih =>
    have before := ih expects.past
    have now := before s List.mem_cons_self
    refine List.forall_mem_cons.2 ⟨?_, before⟩
    have obeys := scripted.obeys (Lexicon.hasTexts_ofTexts outer) .inr
    have lawful := now.lawful.step obeys stepped
    obtain ⟨store, log, rfl, -, -⟩ := Ledger.exists_advance_of_step stepped
    have next := now.turn (now.lawful.turns obeys)
    exact ⟨lawful, next.grounded, next.held⟩
  | @change s past l h idle w left spent held agenda answers l' recipients ih =>
    have before := ih expects.past
    have now := before s List.mem_cons_self
    refine List.forall_mem_cons.2 ⟨?_, before⟩
    refine ⟨⟨left.scripts (Lexicon.hasTexts_ofTexts outer) now.lawful.scripts, trivial, fun busy => (busy rfl).elim, ?_, ?_⟩,
      fun busy => (busy rfl).elim, ?_⟩
    · exact held ▸ now.lawful.held
    · exact fun a mem e failed => .inr (answers a mem e failed)
    · exact held ▸ now.held
  | @evaluate s past l h idle site evaluates recipient ih =>
    have before := ih expects.past
    have now := before s List.mem_cons_self
    refine List.forall_mem_cons.2 ⟨?_, before⟩
    obtain ⟨text, parsed⟩ := evaluates
    have breaks := expects.evaluated _ site (mem_openings_cons.2 (.inl (s.opened_program idle site _)))
    have part := (statement_of_parse parsed).1 (outer l.recipients.size).breaks breaks
    exact now.opens (Lexicon.legal_program _ _ _) part (.above rfl (.ground _)) rfl rfl
  | @call s past l h idle f this args config recipient ih =>
    have before := ih expects.past
    have now := before s List.mem_cons_self
    refine List.forall_mem_cons.2 ⟨?_, before⟩
    have closed : outer l.recipients.size = .closed := expects.called _
      (mem_openings_cons.2 (.inl (s.opened_call idle f this args config _)))
    exact now.opens (Lexicon.legal_call _ _) closed (.ground _) rfl rfl

end Confined

/-! ## Where jumps end -/

/-- The frames at which a jump ends: those of the body of a function, of a program and of a round
of a loop. -/
def Frame.takesUp : Frame → Signal → Bool
  | .body _, signal => signal.isControl
  | .program _, .returned _ => true
  | .round .., .broken none | .round .., .continued none => true
  | _, _ => false

/-- What comes out above some frames is taken up there, or comes out below them. -/
theorem Lexicon.takes_append {L : Lexicon} {signal : Signal} {inner fs : List Frame}
    (within : ∀ f ∈ inner, f.isInner = true) (takes : L.takes (L.role (inner ++ fs)) signal) :
    (∃ f ∈ inner, f.takesUp signal = true) ∨ L.takes (L.role fs) signal := by
  induction inner with
  | nil => exact .inr takes
  | cons f rest ih =>
    cases up : f.takesUp signal with
    | true => exact .inl ⟨f, List.mem_cons_self, up⟩
    | false =>
      have later : L.takes (L.role (rest ++ fs)) signal →
          (∃ g ∈ f :: rest, g.takesUp signal = true) ∨ L.takes (L.role fs) signal := by
        intro takes
        refine (ih (fun g mem => within g (List.mem_cons_of_mem _ mem)) takes).imp_left ?_
        rintro ⟨g, mem, up⟩
        exact ⟨g, List.mem_cons_of_mem _ mem, up⟩
      cases f with
      | deliver => exact absurd (within _ List.mem_cons_self) nofun
      | body cell =>
        refine .inr (L.widened (takes_closed takes ?_ ?_ ?_))
        all_goals
          rintro _ rfl
          cases up
      | program cell =>
        refine later (L.unreturned takes ?_)
        rintro v rfl
        cases up
      | round site cell next =>
        refine later (L.unbroken takes ?_ ?_)
        · rintro rfl
          cases up
        · rintro rfl
          cases up
      | bindTo target => exact later (L.widened takes)
      | exit site slot => exact later (takes_exit takes)
      | _ => exact later takes

def State.Calls (s : State η) : Prop :=
  ∃ f this args config, s.control = .apply f this args config

/-- A failure that leaves the machine has come down to the one outside, or was thrown there by an
answer function. -/
theorem State.fails_of_delivered {host : Host η} {s t : State η} {id : Nat} {e : Exception}
    (h : s.advance host = .delivered id (.failure e) t) :
    (s.control = .fail e ∧ ∃ below, s.stack = .deliver id :: below) ∨ ∃ v, e.signal = .thrown v := by
  unfold advance at h
  split at h
  · cases h
  · cases h
  · refine .inr ?_
    unfold applyFunction at h
    split at h
    · cases h
    · cases h
    · cases h
    · next cell throws properties found =>
      simp only at h
      split at h
      · cases h
      · cases throws with
        | true =>
          cases h
          exact ⟨_, rfl⟩
        | false => cases h
  · split at h <;> cases h
  · next e' failed =>
    split at h
    · cases h
    · next below stack =>
      cases h
      exact .inl ⟨failed, below, stack⟩
    · cases h
  · split at h <;> cases h

theorem Lexicon.isControl_of_takes_closed {outer : Nat → Role} {signal : Signal}
    (h : (Lexicon.ofTexts outer).takes .closed signal) : signal.isControl = false := by
  rcases h with takes | plain
  · cases signal with
    | returned v => cases takes
    | broken label | continued label => cases label <;> cases takes
    | _ => rfl
  · exact plain

namespace Confined

variable {L : Lexicon} {outer : Nat → Role} {s call : State η} {e : Exception}

theorem takes (h : Confined L s) (failed : s.control = .fail e) :
    L.takes (L.role s.stack) e.signal := by
  have suits := h.lawful.suits (by rw [failed]; nofun)
  rwa [failed] at suits

/-- What comes up within a call is taken up there, or is no jump. -/
theorem takesUp (h : Confined (Lexicon.ofTexts outer) s)
    (known : Confined (Lexicon.ofTexts outer) call) (calls : call.Calls) (inner : List Frame)
    (stack : s.stack = inner ++ call.stack) (failed : s.control = .fail e) :
    (∃ f ∈ inner, f.takesUp e.signal = true) ∨ e.signal.isControl = false := by
  obtain ⟨f, this, args, config, calls⟩ := calls
  have closed : (Lexicon.ofTexts outer).role call.stack = .closed := by
    have suits := known.lawful.suits (by rw [calls]; nofun)
    rwa [calls] at suits
  have below : Grounded call.stack := known.grounded (by rw [calls]; nofun)
  have above : Grounded (inner ++ call.stack) := stack ▸ h.grounded (by rw [failed]; nofun)
  have takes := h.takes failed
  rw [stack] at takes
  refine (Lexicon.takes_append (above.inner_of_append below) takes).imp_right ?_
  intro takes
  rw [closed] at takes
  exact Lexicon.isControl_of_takes_closed takes

/-- What is reported outside is expected there, or is no jump. -/
theorem reported (h : Confined (Lexicon.ofTexts outer) s) {host : Host η} {t : State η} {id : Nat}
    (delivered : s.advance host = .delivered id (.failure e) t) :
    (outer id).takes e.signal ∨ e.signal.isControl = false := by
  rcases State.fails_of_delivered delivered with ⟨failed, below, stack⟩ | ⟨v, thrown⟩
  · have takes := h.takes failed
    rwa [stack] at takes
  · exact .inr (by rw [thrown]; rfl)

end Confined

/-- The jumps that get outside, of each evaluation. -/
noncomputable def strays (states : List (State η)) (id : Nat) : Role :=
  open Classical in
  ⟨false, decide (∃ site, (id, some site) ∈ openings states ∧ site.node.Strays)⟩

theorem expects_strays {O : Outside η} {host : Host η} {states : List (State η)} {l : Ledger}
    (h : History O host states l) : Expects (strays states) states where
  evaluated id site mem stray := by
    simp only [strays, decide_eq_true_eq]
    exact ⟨site, mem, stray⟩
  called id mem := by
    have none : ¬ ∃ site, (id, some site) ∈ openings states ∧ site.node.Strays := by
      rintro ⟨site, other, -⟩
      cases (Numbered.of_history h).unique id _ _ mem other
    simp only [strays, none, decide_false, Role.closed]

/-- In every history of texts, with functions that come from texts too: no call ends with a jump; a
`return` is never reported outside, and a `break` or `continue` only for a text that has one with no
loop and no function around it; and a jump that comes up within a call is taken up within the call,
so that no loop of a caller is ended or continued by it. -/
theorem jumps_stay_within_calls {host : Host η} (scripted : host.Scripted Signal.isControl)
    {states : List (State η)} {l : Ledger} (h : History (.scripted Signal.isControl) host states l) :
    (∀ call ∈ states, call.Calls → ∀ s ∈ states, s.stack = call.stack →
      ∀ e, s.control = .fail e → e.signal.isControl = false) ∧
    (∀ s ∈ states, ∀ id e t, s.advance host = .delivered id (.failure e) t →
      ∀ v, e.signal ≠ .returned v) ∧
    (∀ s ∈ states, ∀ id e t, s.advance host = .delivered id (.failure e) t →
      ∀ label, e.signal = .broken label ∨ e.signal = .continued label →
        ∃ site, (id, some site) ∈ openings states ∧ site.node.Strays ∧
          ∀ o, (id, o) ∈ openings states → o = some site) ∧
    ∀ call ∈ states, call.Calls → ∀ s ∈ states, ∀ inner, s.stack = inner ++ call.stack →
      ∀ e, s.control = .fail e → e.signal.isControl = true →
        ∃ f ∈ inner, f.takesUp e.signal = true := by
  have confined := Confined.of_history scripted h (expects_strays h)
  refine ⟨?_, ?_, ?_, ?_⟩
  · intro call memCall calls s mem stack e failed
    rcases (confined s mem).takesUp (confined call memCall) calls [] stack failed with
      ⟨f, none, -⟩ | plain
    · cases none
    · exact plain
  · intro s mem id e t delivered v returned
    have takes := (confined s mem).reported delivered
    rw [returned] at takes
    rcases takes with takes | plain
    · cases takes
    · cases plain
  · intro s mem id e t delivered label jump
    have takes := (confined s mem).reported delivered
    have stray : (strays states id).breaks = true := by
      rcases jump with jump | jump
      all_goals
        rw [jump] at takes
        rcases takes with takes | plain
        · cases label with
          | none => exact takes
          | some label => cases takes
        · cases plain
    simp only [strays, decide_eq_true_eq] at stray
    obtain ⟨site, opened, strays⟩ := stray
    exact ⟨site, opened, strays, fun o other =>
      (Numbered.of_history h).unique id o (some site) other opened⟩
  · intro call memCall calls s mem inner stack e failed jump
    refine ((confined s mem).takesUp (confined call memCall) calls inner stack failed).resolve_right ?_
    simp [jump]

namespace Sample

/-- A function that leaves a loop of its own is called in a loop; the last jump leaves the text. -/
def strayText : String := "function g() { while (f()) break } while (1) { g(); break } continue"

@[irreducible] def strayTree : Node := (parse strayText).toOption.getD (.mk (.program []) none)

theorem parse_strayText : parse strayText = .ok strayTree := by
  unfold strayTree
  exact parse_eq_ok (by decide +kernel) _

theorem host_scripted (bars : Signal → Bool) : host.Scripted bars where
  store _ _ _ _ _ _ _ mem := .inl mem
  failure _ _ _ _ _ _ _ reply := by cases reply
  answers _ _ _ _ _ _ os reply o mem e failed := by
    cases reply
    cases mem with
    | head => cases failed
    | tail _ mem => cases mem

theorem history_start (bars : Signal → Bool) :
    History (.scripted bars) host [⟨.idle, [], [], world []⟩] .empty := by
  refine .start .empty (fun c mem => ?_) rfl
  simp [world, Store.callables, Store.newFunction, Store.rootScope, Store.newScope,
    Store.empty] at mem

def straySite : Site := ⟨.root (.single 0) strayTree, 0, .plain⟩

def strayRun : Ledger × List (State Unit) :=
  (Ledger.empty.addRecipient (.caller 0)).2.record host 100 (.program straySite 0 (world []))
    [⟨.idle, [], [], world []⟩]

/-- Whether the first caller is told of a jump that found no loop. -/
def tellsJump : Progress Unit → Bool
  | .delivered 0 (.failure ⟨.continued none, _⟩) _ => true
  | _ => false

/-- Of the three jumps, the one that is reported has no loop around it. -/
theorem strayRun_jumps_stay_within_calls :
    host.Scripted Signal.isControl ∧ History (.scripted Signal.isControl) host strayRun.2 strayRun.1 ∧
      ∃ s ∈ strayRun.2, ∃ e t, s.advance host = .delivered 0 (.failure e) t ∧
        e.signal = .continued none ∧
        ∃ site, (0, some site) ∈ openings strayRun.2 ∧ site.node.Strays := by
  have parsed : ∃ text, parse text = .ok straySite.node := ⟨strayText, parse_strayText⟩
  have history : History (.scripted Signal.isControl) host strayRun.2 strayRun.1 :=
    ((history_start _).evaluate rfl parsed (.caller 0)).record 100
  have reports : (strayRun.2.any fun s => tellsJump (s.advance host)) = true := by decide +kernel
  obtain ⟨s, mem, test⟩ := List.any_eq_true.1 reports
  refine ⟨host_scripted _, history, s, mem, ?_⟩
  unfold tellsJump at test
  split at test
  · next delivered =>
    obtain ⟨-, -, reported, -⟩ := jumps_stay_within_calls (host_scripted _) history
    obtain ⟨site, opened, strays, -⟩ := reported s mem 0 _ _ delivered none (.inr rfl)
    exact ⟨_, _, delivered, rfl, site, opened, strays⟩
  · cases test

end Sample

end EcmaMachine
