import EcmaMachine.Proofs.Observers
import EcmaMachine.Proofs.Threads

/-!
What a member of a list of observers sees of an evaluation, also where members refuse events and
where host functions answer late. The open brackets are the `exit` frames on the stack: whatever
takes such a frame off closes its bracket, and nothing else does. An event goes to the members in
turn until one of them refuses it, so a member misses what those in front of it refuse. The enter
that somebody in front refuses it does not see, but the exit of the same bracket comes on its own
way; so its view is well nested only if those in front treat both events of a bracket alike.
-/

namespace EcmaMachine

/-- Of these events, the newest first, each exit closes the enter that was opened last, by the same
node, slot and scope. The second list holds those still open, the innermost first. -/
inductive Nested : List Event → List Event → Prop
  | nil : Nested [] []
  | enter {es opened : List Event} {e : Event} : Nested es opened → e.stage = .enter →
    Nested (e :: es) (e :: opened)
  | exit {es opened : List Event} {e : Event} (o : Outcome) : Nested es (e :: opened) →
    Nested ({ e with stage := .exit o } :: es) opened

def Event.opening (site : Site) (slot : Option Slot) : Event :=
  ⟨site.node, slot, site.scope, .enter⟩

def Event.closing (e : Event) (o : Outcome) : Event := { e with stage := .exit o }

def opened (spy : Nat) : List Frame → List Event
  | [] => []
  | .exit site slot :: rest =>
    if spy ∈ site.config.observers then .opening site slot :: opened spy rest else opened spy rest
  | _ :: rest => opened spy rest

theorem opened_cons {spy : Nat} {f : Frame} (exit : f.isExit = false) (fs : List Frame) :
    opened spy (f :: fs) = opened spy fs := by
  cases f with
  | exit => cases exit
  | _ => rfl

variable {η : Type}

/-! ## Members in front -/

namespace Observer

/-- Lets the event through, at least once. -/
def Lets (o : Observer) (e : Event) : Prop :=
  ∃ notes store, (o.watch notes store e).refusal = none

/-- Refuses the event, at least once. -/
def Refuses (o : Observer) (e : Event) : Prop :=
  ∃ notes store reason, (o.watch notes store e).refusal = some reason

/-- Refuses both events of a bracket or neither. -/
def Even (o : Observer) : Prop :=
  ∀ e outcome, e.stage = .enter →
    ¬ (o.Refuses e ∧ o.Lets (e.closing outcome)) ∧ ¬ (o.Refuses (e.closing outcome) ∧ o.Lets e)

variable (cast : Array Observer) (ids : List Nat) (e : Event)

def AllLet : Prop := ∀ id ∈ ids, ∀ o, cast[id]? = some o → o.Lets e

def SomeRefuses : Prop := ∃ id ∈ ids, ∃ o, cast[id]? = some o ∧ o.Refuses e

/-- Where all are even, nobody refuses one event of a bracket if all let the other one through. -/
theorem not_someRefuses {cast : Array Observer} {ids : List Nat} {e e' : Event}
    (apart : ∀ id ∈ ids, ∀ o, cast[id]? = some o → ¬ (o.Refuses e ∧ o.Lets e'))
    (lets : AllLet cast ids e') : ¬ SomeRefuses cast ids e := by
  rintro ⟨id, mem, o, found, refuses⟩
  exact apart id mem o found ⟨refuses, lets id mem o found⟩

end Observer

namespace World

/-- These observers are as in the cast, whatever they remember. -/
def Casts (w : World η) (cast : Array Observer) (ids : List Nat) : Prop :=
  ∀ id ∈ ids, w.observers[id]?.map (·.watch) = cast[id]?.map (·.watch)

variable {w : World η} {cast : Array Observer} {front rest : List Nat} {spy : Nat} {o : Observer}

/-- A member sees the event just if all in front of it let it through. -/
theorem Casts.notify_behind (h : w.Casts cast front) (e : Event) (ahead : spy ∉ front)
    (single : spy ∉ rest) (watching : w.observers[spy]? = some o) :
    (Observer.AllLet cast front e ∧ (w.notify e (front ++ spy :: rest)).2.observers[spy]? =
      some { o with notes := (o.watch o.notes w.store e).notes }) ∨
    (Observer.SomeRefuses cast front e ∧ (w.notify e (front ++ spy :: rest)).1 ≠ none ∧
      (w.notify e (front ++ spy :: rest)).2.observers[spy]? = some o) := by
  induction front generalizing w with
  | nil => exact .inl ⟨List.forall_mem_nil _, notify_first w e single watching⟩
  | cons id front ih =>
    have ne : id ≠ spy := fun eq => ahead (eq ▸ List.mem_cons_self)
    have later : spy ∉ front := fun mem => ahead (List.mem_cons_of_mem id mem)
    obtain ⟨same, h⟩ := List.forall_mem_cons.1 h
    have further : Observer.SomeRefuses cast front e →
        Observer.SomeRefuses cast (id :: front) e := by
      rintro ⟨other, mem, rest⟩
      exact ⟨other, List.mem_cons_of_mem id mem, rest⟩
    cases found : w.observers[id]? with
    | none =>
      rw [found] at same
      have missing : cast[id]? = none := Option.map_eq_none_iff.1 same.symm
      simp only [List.cons_append, notify, found]
      refine (ih h later watching).imp (And.imp_left fun lets => ?_) (And.imp_left further)
      refine List.forall_mem_cons.2 ⟨fun o here => ?_, lets⟩
      cases missing.symm.trans here
    | some first =>
      rw [found] at same
      obtain ⟨first', found', watch⟩ := Option.map_eq_some_iff.1 same.symm
      have watching' : (w.observers.setIfInBounds id
          { first with notes := (first.see w.store e).notes })[spy]? = some o := by
        rw [Array.getElem?_setIfInBounds_ne ne, watching]
      simp only [List.cons_append, notify, found]
      cases refusal : (first.see w.store e).refusal with
      | some reason =>
        refine .inr ⟨⟨id, List.mem_cons_self, first', found', ?_⟩, by rintro ⟨⟩, watching'⟩
        exact ⟨first.notes, w.store, reason, by rw [watch]; exact refusal⟩
      | none =>
        refine (ih (fun id mem => (watch_noted found _ _ _ id).trans (h id mem)) later
          watching').imp (And.imp_left fun lets => ?_) (And.imp_left further)
        refine List.forall_mem_cons.2 ⟨fun o here => ?_, lets⟩
        cases found'.symm.trans here
        exact ⟨first.notes, w.store, by rw [watch]; exact refusal⟩

end World

/-! ## Views with gaps -/

/-- Of these events, the newest first, each exit closes the enter that was opened last, but for two
gaps: the exit of a bracket whose enter somebody in front refused comes alone, and an exit that
somebody in front refuses does not come at all. The second list holds the enters still open. -/
inductive Torn (cast : Array Observer) (front : List Nat) : List Event → List Event → Prop
  | nil : Torn cast front [] []
  | enter {es opened : List Event} {e : Event} : Torn cast front es opened → e.stage = .enter →
    Observer.AllLet cast front e → Torn cast front (e :: es) (e :: opened)
  | exit {es opened : List Event} {e : Event} (o : Outcome) : Torn cast front es (e :: opened) →
    Observer.AllLet cast front (e.closing o) → Torn cast front (e.closing o :: es) opened
  | missed {es opened : List Event} {e : Event} (o : Outcome) : Torn cast front es (e :: opened) →
    Observer.SomeRefuses cast front (e.closing o) → Torn cast front es opened
  | alone {es opened : List Event} {e : Event} (x : Exception) : Torn cast front es opened →
    e.stage = .enter → Observer.SomeRefuses cast front e →
    Observer.AllLet cast front (e.closing (.failure x)) →
    Torn cast front (e.closing (.failure x) :: es) opened

namespace Torn

variable {cast : Array Observer} {front : List Nat} {es opened : List Event}

theorem of_opened (h : Torn cast front es opened) :
    ∀ e ∈ opened, e.stage = .enter ∧ Observer.AllLet cast front e := by
  induction h with
  | nil => exact fun _ mem => nomatch mem
  | enter _ stage lets ih => exact List.forall_mem_cons.2 ⟨⟨stage, lets⟩, ih⟩
  | exit _ _ _ ih | missed _ _ _ ih => exact (List.forall_mem_cons.1 ih).2
  | alone _ _ _ _ _ ih => exact ih

/-- Behind even members there are no gaps. -/
theorem nested (h : Torn cast front es opened)
    (even : ∀ id ∈ front, ∀ o, cast[id]? = some o → o.Even) : Nested es opened := by
  induction h with
  | nil => exact .nil
  | enter _ stage _ ih => exact ih.enter stage
  | exit o _ _ ih => exact ih.exit o
  | @missed es opened e o before refuses ih =>
    obtain ⟨stage, lets⟩ := before.of_opened e List.mem_cons_self
    refine absurd refuses (Observer.not_someRefuses (fun id mem m found => ?_) lets)
    exact (even id mem m found e o stage).2
  | @alone es opened e x before stage refuses lets ih =>
    refine absurd refuses (Observer.not_someRefuses (fun id mem m found => ?_) lets)
    exact (even id mem m found e (.failure x) stage).1

end Torn

/-! ## One step -/

structure Seat where
  front : List Nat
  spy : Nat
  rest : List Nat
  ahead : spy ∉ front
  single : spy ∉ rest

def Seat.row (p : Seat) : List Nat := p.front ++ p.spy :: p.rest

theorem Seat.spy_mem_row (p : Seat) : p.spy ∈ p.row := by simp [row]

/-- The member has noted events since it had noted `before`; with `earlier` they are well nested, but
for gaps, up to those in the last list. -/
def World.Tears (w : World η) (cast : Array Observer) (p : Seat)
    (before earlier opened : List Event) : Prop :=
  w.Casts cast p.front ∧ ∃ o new, w.observers[p.spy]? = some o ∧ o.Records ∧
    o.notes.events = new ++ before ∧ Torn cast p.front (new ++ earlier) opened

namespace World.Tears

variable {w : World η} {cast : Array Observer} {p : Seat}
  {before earlier opened opened' : List Event} {site : Site} {slot : Option Slot}

theorem imp (h : w.Tears cast p before earlier opened)
    (torn : ∀ es, Torn cast p.front es opened → Torn cast p.front es opened') :
    w.Tears cast p before earlier opened' := by
  obtain ⟨casts, o, new, watching, records, noted, before⟩ := h
  exact ⟨casts, o, new, watching, records, noted, torn _ before⟩

theorem apart (h : w.Tears cast p before earlier opened) (apart : p.spy ∉ site.config.observers)
    (slot : Option Slot) (stage : Stage) :
    (w.tell site slot stage).2.Tears cast p before earlier opened := by
  obtain ⟨casts, o, new, watching, kept⟩ := h
  exact ⟨fun id mem => (watch_notify w _ _ id).trans (casts id mem), o, new,
    (notify_apart w _ apart).trans watching, kept⟩

variable (observers : site.config.observers = p.row)
include observers

theorem tell (h : w.Tears cast p before earlier opened) (slot : Option Slot) (stage : Stage) :
    (Observer.AllLet cast p.front ⟨site.node, slot, site.scope, stage⟩ ∧
      ∀ opened', (∀ es, Torn cast p.front es opened →
        Torn cast p.front (⟨site.node, slot, site.scope, stage⟩ :: es) opened') →
      (w.tell site slot stage).2.Tears cast p before earlier opened') ∨
    (Observer.SomeRefuses cast p.front ⟨site.node, slot, site.scope, stage⟩ ∧
      (w.tell site slot stage).1 ≠ none ∧
      (w.tell site slot stage).2.Tears cast p before earlier opened) := by
  obtain ⟨casts, o, new, watching, records, noted, torn⟩ := h
  have after : (w.tell site slot stage).2.Casts cast p.front :=
    fun id mem => (watch_notify w _ _ id).trans (casts id mem)
  have seen := casts.notify_behind ⟨site.node, slot, site.scope, stage⟩ p.ahead p.single watching
  rw [show p.front ++ p.spy :: p.rest = site.config.observers from observers.symm] at seen
  rcases seen with ⟨lets, sees⟩ | ⟨refuses, refusal, sees⟩
  · exact .inl ⟨lets, fun opened' next => ⟨after, _, _ :: new, sees, records,
      (records _ _ _).trans (congrArg _ noted), next _ torn⟩⟩
  · exact .inr ⟨refuses, refusal, after, o, new, sees, records, noted, torn⟩

theorem enter (h : w.Tears cast p before earlier opened)
    (admitted : (w.tell site slot .enter).1 = none) :
    (w.tell site slot .enter).2.Tears cast p before earlier (.opening site slot :: opened) := by
  rcases h.tell observers slot .enter with ⟨lets, next⟩ | ⟨_, refusal, _⟩
  · exact next _ fun _ torn => torn.enter rfl lets
  · exact absurd admitted refusal

theorem exit (h : w.Tears cast p before earlier (.opening site slot :: opened)) (o : Outcome) :
    (w.tell site slot (.exit o)).2.Tears cast p before earlier opened := by
  rcases h.tell observers slot (.exit o) with ⟨lets, next⟩ | ⟨refuses, _, same⟩
  · exact next _ fun _ torn => torn.exit o lets
  · exact same.imp fun _ torn => torn.missed o refuses

/-- A refused enter is closed at once: if a member in front has refused it, its exit is alone. -/
theorem refused (h : w.Tears cast p before earlier opened) (x : Exception) :
    ((w.tell site slot .enter).2.tell site slot (.exit (.failure x))).2.Tears cast p before earlier
      opened := by
  rcases h.tell observers slot .enter with ⟨lets, next⟩ | ⟨refuses, _, same⟩
  · exact (next _ fun _ torn => torn.enter rfl lets).exit observers (.failure x)
  · rcases same.tell observers slot (.exit (.failure x)) with ⟨lets, next⟩ | ⟨_, _, same⟩
    · exact next _ fun _ torn => torn.alone x rfl refuses lets
    · exact same

end World.Tears

namespace Invariant

def behind (cast : Array Observer) (p : Seat) (before earlier : List Event) (k : List Frame)
    (agenda : Agenda) : Invariant η where
  allowed c := c.observers = p.row ∨ p.spy ∉ c.observers
  base := k
  agenda := agenda
  Holds fs w := w.Tears cast p before earlier (opened p.spy fs)
  Refused fs w := w.Tears cast p before earlier (opened p.spy fs)
  called _ _ _ h := h
  marked _ h := h
  released _ h := h
  newCell h := h
  push h plain := by rwa [opened_cons (Frame.isExit_of_isPlain plain)]
  pushCell h cell := by
    rw [opened_cons (Frame.isExit_of_cell cell)]
    exact h
  pop h exit := by rwa [opened_cons exit] at h
  swap h cell same := by
    obtain ⟨c, own⟩ := Option.isSome_iff_exists.1 cell
    rw [opened_cons (Frame.isExit_of_cell own)] at h
    rwa [opened_cons (Frame.isExit_of_cell (same.trans own))]
  spend h own := by
    rw [opened_cons (Frame.isExit_of_cell own)] at h
    exact h
  left o h allowed := by
    rcases allowed with observers | apart
    · simp only [opened, observers, p.spy_mem_row, if_true] at h
      exact h.exit observers o
    · simp only [opened, apart, if_false] at h
      exact h.apart apart _ _
  entered h allowed admitted := by
    rcases allowed with observers | apart
    · simp only [opened, observers, p.spy_mem_row, if_true]
      exact h.enter observers admitted
    · simp only [opened, apart, if_false]
      exact h.apart apart _ _
  refused x h allowed _ := by
    rcases allowed with observers | apart
    · exact h.refused observers x
    · exact (h.apart apart _ _).apart apart _ _

end Invariant

/-! ## The whole evaluation -/

namespace State

def noted (s : State η) (spy : Nat) : List Event :=
  (s.world.observers[spy]?.map (·.notes.events)).getD []

theorem observers_answer (s : State η) (ticket : Nat) (o : Outcome) :
    (s.answer ticket o).world.observers = s.world.observers := by
  simp only [answer]
  split
  · cases o <;> rfl
  · rfl

end State

/-- One evaluation above the frames `k`, from its first state to a later one, with the events that it
has shown to the member. A host call that is held is answered once: at any later time, when the
machine may have done anything else in between that leaves the call open and the ways of the member
and those in front as they were. -/
inductive Viewing (host : Host η) (p : Seat) (k : List Frame) (l₀ : Ledger) (s₀ : State η) :
    List Event → Ledger → State η → Prop
  | start : Viewing host p k l₀ s₀ [] l₀ s₀
  | step {es new : List Event} {l l' : Ledger} {s s' : State η} :
    Viewing host p k l₀ s₀ es l s → ¬ s.Hands k → l.step host s = some (l', s') →
    s'.control ≠ .idle → s'.noted p.spy = new ++ s.noted p.spy →
    Viewing host p k l₀ s₀ (new ++ es) l' s'
  | answer {es : List Event} {l l' : Ledger} {s x : State η} {answers : List Outcome}
    (o : Outcome) : Viewing host p k l₀ s₀ es l s → s.Holds host answers →
    x.world.held[s.world.held.size]? = some ⟨s.stack, true, true⟩ →
    x.world.Casts s.world.observers (p.spy :: p.front) →
    Viewing host p k l₀ s₀ es l' (x.answer s.world.held.size o)

/-- The brackets that the member has seen open, and has not seen closed, are those of the frames. -/
def Beholds (cast : Array Observer) (p : Seat) (k : List Frame) (es : List Event) (s : State η)
    (fs : List Frame) : Prop :=
  (Invariant.behind cast p (s.noted p.spy) es k s.agenda).At fs s

namespace Beholds

variable {host : Host η} {cast : Array Observer} {p : Seat} {k : List Frame} {es : List Event}
  {l l' : Ledger} {s s' : State η} {fs : List Frame}

theorem start {site : Site} {agenda : Agenda} {w : World η} {o : Observer}
    (observers : site.config.observers = p.row) (watching : w.observers[p.spy]? = some o)
    (records : o.Records) : Beholds w.observers p k [] ⟨.eval site, k, agenda, w⟩ [] := by
  have noted : o.notes.events = [] ++ State.noted ⟨.eval site, k, agenda, w⟩ p.spy := by
    simp [State.noted, watching]
  exact ⟨rfl, rfl, trivial, .inl observers, fun _ _ => rfl, o, [], watching, records, noted, .nil⟩

section

variable (h : Beholds cast p k es s fs)
include h

theorem torn : Torn cast p.front es (opened p.spy fs) := by
  obtain ⟨-, o, new, watching, -, noted, torn⟩ := h.holds
  have kept : s.noted p.spy = o.notes.events := by simp [State.noted, watching]
  obtain rfl : new = [] := List.append_left_eq_self.1 (noted.symm.trans kept.symm)
  exact torn

theorem step (busy : ¬ s.Hands k)
    (stepped : l.step host s = some (l', s')) (active : s'.control ≠ .idle) :
    ∃ fs' new, s'.noted p.spy = new ++ s.noted p.spy ∧ s'.agenda = s.agenda ∧
      Beholds cast p k (new ++ es) s' fs' := by
  obtain ⟨fs', at'⟩ := Invariant.At.step h (.inr List.not_mem_nil) (fun _ _ => id) busy stepped active
  obtain ⟨casts, o, new, watching, records, noted, torn⟩ := at'.holds
  have kept : s'.noted p.spy = o.notes.events := by simp [State.noted, watching]
  refine ⟨fs', new, kept.trans noted, at'.agenda, at'.stack, rfl, at'.built, at'.fits, ?_⟩
  exact ⟨casts, o, [], watching, records, kept.symm, torn⟩

/-- The frames that waited for a held call are as they were, and so are their brackets. -/
theorem answer {x : State η} (held : x.world.held[s.world.held.size]? = some ⟨s.stack, true, true⟩)
    (ways : x.world.Casts s.world.observers (p.spy :: p.front)) (outcome : Outcome) :
    Beholds cast p k es (x.answer s.world.held.size outcome) fs := by
  obtain ⟨casts, o, -, watching, records, -, -⟩ := h.holds
  obtain ⟨watch, front⟩ := List.forall_mem_cons.1 ways
  rw [watching, Option.map_some] at watch
  obtain ⟨o', watching', same⟩ := Option.map_eq_some_iff.1 watch
  have records' : o'.Records := fun notes store e => same ▸ records notes store e
  have observers := x.observers_answer s.world.held.size outcome
  have tears : (x.answer s.world.held.size outcome).world.Tears cast p
      ((x.answer s.world.held.size outcome).noted p.spy) es (opened p.spy fs) := by
    refine ⟨fun id mem => ?_, o', [], ?_, records', ?_, h.torn⟩
    · rw [observers, front id mem, casts id mem]
    · rw [observers, watching']
    · simp [State.noted, observers, watching']
  let agenda := (x.answer s.world.held.size outcome).agenda
  let noted := (x.answer s.world.held.size outcome).noted p.spy
  exact Invariant.At.answer (J := .behind cast p noted es k agenda) h rfl rfl
    (x.agenda_answer _ outcome) held tears

end

/-- What the member sees of a thread in which nobody else is seen by it. -/
theorem viewing_of_thread {q : Point η} {l₀ : Ledger} {s₀ : State η}
    (thread : Thread ⟨host, fun a b => b.2.world.observers = a.2.world.observers⟩ k (l, s) q)
    (viewing : Viewing host p k l₀ s₀ es l s) (h : Beholds cast p k es s fs)
    (active : q.2.control ≠ .idle) :
    ∃ new, Viewing host p k l₀ s₀ (new ++ es) q.1 q.2 ∧
      q.2.noted p.spy = new ++ s.noted p.spy := by
  generalize start : (l, s) = o at thread
  induction thread generalizing es l s fs with
  | here =>
    cases start
    exact ⟨[], viewing, rfl⟩
  | @step l s next q busy _ stepped later ih =>
    cases start
    have own : next.2.control ≠ .idle := by
      intro idle
      rw [later.of_idle idle] at active
      exact active idle
    obtain ⟨fs₁, new₁, noted₁, -, beholds⟩ := h.step busy stepped own
    obtain ⟨new, viewing', noted'⟩ :=
      ih (viewing.step busy stepped own noted₁) beholds active rfl
    refine ⟨new ++ new₁, by rwa [List.append_assoc], ?_⟩
    rw [noted', noted₁, List.append_assoc]
  | @answered _ _ _ s _ x _ _ outcome holds _ stepped held _ meanwhile _ ih =>
    cases start
    have observers : x.world.observers = s.world.observers := by
      obtain ⟨_, _, _, -, rfl⟩ := holds.exists_call stepped
      exact meanwhile
    have ways : x.world.Casts s.world.observers (p.spy :: p.front) := fun _ _ => by rw [observers]
    obtain ⟨new, viewing', noted'⟩ :=
      ih (viewing.answer outcome holds held ways) (h.answer held ways outcome) active rfl
    refine ⟨new, viewing', noted'.trans ?_⟩
    simp only [State.noted, State.observers_answer, observers]

/-- With host functions that answer at once and exactly once, a run of the machine is viewed. -/
theorem viewing_after {site : Site} {w : World η} {n : Nat}
    (h : Beholds w.observers p k [] ⟨.eval site, k, [], w⟩ [])
    (prompt : ∀ i l' s', l.after host i ⟨.eval site, k, [], w⟩ = some (l', s') →
      s'.Prompt host True)
    (busy : ∀ i < n, ∀ l' s', l.after host i ⟨.eval site, k, [], w⟩ = some (l', s') →
      ¬ s'.Hands k)
    (reached : l.after host n ⟨.eval site, k, [], w⟩ = some (l', s')) (hands : s'.Hands k) :
    ∃ es, Viewing host p k l ⟨.eval site, k, [], w⟩ es l' s' ∧
      s'.noted p.spy = es ++ State.noted ⟨.eval site, k, [], w⟩ p.spy := by
  have start : Thread.Stands [] k [] ⟨.eval site, k, [], w⟩ :=
    Scene.stands_eval ⟨l, [], w⟩ site ⟨.nil, List.forall_mem_nil _⟩
  have thread : Thread ⟨host, fun a b => b.2.world.observers = a.2.world.observers⟩ k (l, ⟨.eval site, k, [], w⟩)
      (l', s') := .of_after start rfl (fun _ => rfl) prompt busy reached hands.active
  obtain ⟨es, viewing, noted⟩ := viewing_of_thread thread .start h hands.active
  rw [List.append_nil] at viewing
  exact ⟨es, viewing, noted⟩

end Beholds

/-- The view has no other gaps than those that the members in front make, and all is closed when the
evaluation hands over its outcome. -/
theorem Viewing.torn {host : Host η} {p : Seat} {k : List Frame} {agenda : Agenda}
    {l l' : Ledger} {w : World η} {site : Site} {o : Observer} {es : List Event} {s' : State η}
    (viewing : Viewing host p k l ⟨.eval site, k, agenda, w⟩ es l' s')
    (observers : site.config.observers = p.row) (watching : w.observers[p.spy]? = some o)
    (records : o.Records) :
    ∃ opened, Torn w.observers p.front es opened ∧ (s'.Hands k → opened = []) := by
  have beholds : ∃ fs, Beholds w.observers p k es s' fs := by
    induction viewing with
    | start => exact ⟨[], .start observers watching records⟩
    | step _ busy stepped active noted ih =>
      obtain ⟨fs, beholds⟩ := ih
      obtain ⟨fs', new', noted', -, beholds'⟩ := beholds.step busy stepped active
      obtain rfl := List.append_cancel_right (noted.symm.trans noted')
      exact ⟨fs', beholds'⟩
    | answer outcome _ _ held ways ih =>
      obtain ⟨fs, beholds⟩ := ih
      exact ⟨fs, beholds.answer held ways outcome⟩
  obtain ⟨fs, beholds⟩ := beholds
  refine ⟨opened p.spy fs, beholds.torn, fun hands => ?_⟩
  have empty : fs = [] := by simpa [hands.1, Invariant.behind] using beholds.stack
  rw [empty]
  rfl

end EcmaMachine
