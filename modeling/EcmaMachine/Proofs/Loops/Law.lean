import EcmaMachine.Proofs.Binding.Law

/-!
The law of loops over the keys or the elements of a value. What there is to go through is listed
when the loop begins, and each item of the list gets one round, in order: the target takes the item,
in a scope of its own if it is declared there, and the body is run. The rounds go on until the list
is exhausted, the target cannot take its item, or a body breaks or fails. `Scene.Sweeps.run` and
`Route.sweep` say that loops obey the law.
-/

namespace EcmaMachine

variable {η : Type}

/-! ## The parts of the statement -/

/-- The two kinds of loops: over the keys of a value or over the elements of an array. -/
inductive Sweep
  | keys
  | elements

namespace Sweep

def statement (left right body : Node) : Sweep → Shape Node
  | keys => .forInStatement left right body
  | elements => .forOfStatement left right body

/-- What there is to go through, as the store has it now. -/
def items (s : Store) (right : Node) : Sweep → Outcome → Except Exception (List Value)
  | _, .failure e => .error e
  | keys, .value v => .ok ((s.enumerableKeys v).map .string)
  | elements, .value (.array id) => .ok (s.elements id).toList
  | elements, _ => .error (.leaving (.unsupported .forOfStatement .forOfCollection) right)

end Sweep

/-- A round whose body was run: the item, the scope and the store that the body began with, and how
it ended. -/
structure Round where
  item : Value
  scope : ScopeId
  store : Store
  outcome : Outcome

namespace Outcome

/-- After such a body there is another round. -/
def goesOn : Outcome → Bool
  | .value _ => true
  | .failure e =>
    match e.signal with
    | .continued none => true
    | _ => false

/-- What a loop ends with when its body has ended so and there is no other round. -/
def endOfLoop : Outcome → Outcome
  | .value v => .value v
  | .failure e =>
    match e.signal with
    | .broken none => .value .undefined
    | _ => .failure e

end Outcome

/-- Where the body of a round is run if the loop declares its variable. -/
def Site.anew (site : Site) (s : Store) : Site :=
  { site with scope := (s.childScope site.scope []).1 }

/-- How far a loop has come: these items are left, or it has ended. -/
inductive Extent
  | more (rest : List Value)
  | ended (o : Outcome)

/-- A loop over a list, without the list. -/
structure Loop where
  site : Site
  target : LoopTarget
  body : Node

namespace Loop

variable (loop : Loop)

def next (items : List Value) : Rounds := .each loop.target loop.body items

/-- What waits while the target takes its item, and while the body is run. -/
def taking (inner : Site) (cell : Cell) (items : List Value) (k : List Frame) : List Frame :=
  .roundBody inner cell loop.body loop.site (loop.next items) :: k

def running (cell : Cell) (items : List Value) (k : List Frame) : List Frame :=
  .round loop.site cell (loop.next items) :: k

/-- What waits for the list, and for the rounds. -/
def listing (right : Node) (cell : Cell) (k : List Frame) : Sweep → List Frame
  | .keys => .forIn loop.site loop.target loop.body :: .guard cell :: .exit loop.site none :: k
  | .elements =>
    .forOf loop.site loop.target right loop.body :: .guard cell :: .exit loop.site none :: k

def looping (once guard : Cell) (k : List Frame) : List Frame :=
  .once once :: .guard guard :: .exit loop.site none :: k

/-- The parts of a round that are evaluated when it begins in such a store. -/
def Within (s : Store) (part : Site) : Prop :=
  match loop.target with
  | .assign _ => part = loop.site.part (.slot .body) loop.body
  | .declare pattern => part = (loop.site.anew s).part (.slot .body) loop.body ∨
    .default part ∈ ((loop.site.anew s).part .target pattern).turns

end Loop

namespace Scene

/-- The target takes the item, or it cannot; the body is run at the site. -/
inductive Readies (S : Setup η) (loop : Loop) (k : List Frame) (item : Value) (items : List Value)
    (c : Scene η) : Option Exception → Site → Scene η → Prop
  | assigned {name store} (target : loop.target = .assign name)
    (found : c.store.assign? loop.site.scope name item = some store) :
    Readies S loop k item items c none loop.site (c.newCell.withStore store)
  | unbound {name} (target : loop.target = .assign name)
    (missing : c.store.assign? loop.site.scope name item = none) :
    Readies S loop k item items c (some (.leaving (.unbound name) loop.site.node)) loop.site c.newCell
  | declared {pattern acts c'} {o : Outcome} (target : loop.target = .declare pattern)
    (unpacks : (c.newCell.withStore (c.store.childScope loop.site.scope []).2).Unpacks S
      (loop.taking (loop.site.anew c.store) c.cell items k)
      (.pattern ((loop.site.anew c.store).part .target pattern) item) acts o c') :
    Readies S loop k item items c o.failure? (loop.site.anew c.store) c'

/-- Rounds of a loop over a list. It ends when its items are exhausted, the target cannot take the
next one, or the body of the last round breaks or fails. -/
inductive Iterates (S : Setup η) (loop : Loop) (k : List Frame) :
    List Value → Scene η → List Round → Extent → Scene η → Prop
  | here {items c} : Iterates S loop k items c [] (.more items) c
  | exhausted {c} : Iterates S loop k [] c [] (.ended (.value .undefined)) c
  | unready {item items inner e c'} {c : Scene η}
    (readies : c.Readies S loop k item items (some e) inner c') :
    Iterates S loop k (item :: items) c [] (.ended (.failure e)) c'
  | left {item items o c₂} {inner : Site} {c c₁ : Scene η}
    (readies : c.Readies S loop k item items none inner c₁)
    (visits : c₁.Traverses S (loop.running c.cell items k) inner .body loop.body o c₂)
    (ends : o.goesOn = false) :
    Iterates S loop k (item :: items) c [⟨item, inner.scope, c₁.store, o⟩] (.ended o.endOfLoop) c₂
  | round {item items o rounds extent c'} {inner : Site} {c c₁ c₂ : Scene η}
    (readies : c.Readies S loop k item items none inner c₁)
    (visits : c₁.Traverses S (loop.running c.cell items k) inner .body loop.body o c₂)
    (goesOn : o.goesOn = true)
    (later : Iterates S loop k items (c₂.spend c.cell) rounds extent c') :
    Iterates S loop k (item :: items) c (⟨item, inner.scope, c₁.store, o⟩ :: rounds) extent c'

/-- The loop: what it goes through is evaluated and listed, then come the rounds. -/
inductive Sweeps (S : Setup η) (kind : Sweep) (loop : Loop) (right : Node) (k : List Frame)
    (c : Scene η) : List Round → Outcome → Scene η → Prop
  | unlisted {o e c'}
    (visits : (c.tell loop.site none .enter).newCell.Traverses S (loop.listing right c.cell k kind)
      loop.site .right right o c')
    (refused : kind.items c'.store right o = .error e) :
    Sweeps S kind loop right k c [] (.failure (e.located loop.site.node))
      ((c'.spend c.cell).tell loop.site none (.exit (.failure (e.located loop.site.node))))
  | swept {o₁ items rounds c'} {o : Outcome} {c₁ : Scene η}
    (visits : (c.tell loop.site none .enter).newCell.Traverses S (loop.listing right c.cell k kind)
      loop.site .right right o₁ c₁)
    (listed : kind.items c₁.store right o₁ = .ok items)
    (iterates : c₁.newCell.Iterates S loop (loop.looping c₁.cell c.cell k) items rounds (.ended o) c') :
    Sweeps S kind loop right k c rounds (o.located loop.site.node)
      ((c'.spend (if o.isFailure then c.cell else c₁.cell)).tell loop.site none
        (.exit (o.located loop.site.node)))

/-! ## Single steps -/

def rounds (c : Scene η) (k : List Frame) (loop : Loop) (items : List Value) : Point η :=
  (c.ledger, (c.state .idle k).nextRound loop.site (loop.next items))

def pursue (c : Scene η) (k : List Frame) (loop : Loop) : Extent → Point η
  | .more rest => c.rounds k loop rest
  | .ended o => c.hand k o

/-- What becomes of a round when the target has taken its item, or cannot take it. -/
def enterRound (c : Scene η) (k : List Frame) (loop : Loop) (inner : Site) (cell : Cell)
    (items : List Value) : Option Exception → Point η
  | none => (c.ledger, (c.state .idle (loop.running cell items k)).visit inner .body loop.body)
  | some e => c.hand k (.failure e)

section Rounds

variable {k : List Frame} {c : Scene η} {loop : Loop} {item : Value} {items : List Value}

theorem nextRound_state (control : Control) :
    (c.ledger, (c.state control k).nextRound loop.site (loop.next items)) = c.rounds k loop items := by
  simp only [rounds, Loop.next]
  cases items with
  | nil => rfl
  | cons item items =>
    cases loop.target with
    | declare => rfl
    | assign name =>
      simp only [State.nextRound, State.store, state]
      cases c.world.newCell.2.store.assign? loop.site.scope name item with
      | none => rfl
      | some store =>
        exact congrArg _ ((c.newCell.withStore store).visit_state control ..)

theorem rounds_assigned {name : String} {store : Store} (target : loop.target = .assign name)
    (found : c.store.assign? loop.site.scope name item = some store) :
    c.rounds k loop (item :: items) =
      (c.newCell.withStore store).enterRound k loop loop.site c.cell items none := by
  have found' : c.world.newCell.2.store.assign? loop.site.scope name item = some store := found
  simp only [rounds, enterRound, Loop.running, Loop.next, State.nextRound, State.store, state, target,
    found']
  rfl

theorem rounds_unbound {name : String} (target : loop.target = .assign name)
    (missing : c.store.assign? loop.site.scope name item = none) :
    c.rounds k loop (item :: items) = c.newCell.enterRound k loop loop.site c.cell items
      (some (.leaving (.unbound name) loop.site.node)) := by
  have missing' : c.world.newCell.2.store.assign? loop.site.scope name item = none := missing
  simp only [rounds, Loop.next, State.nextRound, State.store, state, target, missing']
  rfl

theorem rounds_declare {pattern : Node} (target : loop.target = .declare pattern) :
    c.rounds k loop (item :: items) =
      (c.newCell.withStore (c.store.childScope loop.site.scope []).2).unpack .idle
        (loop.taking (loop.site.anew c.store) c.cell items k)
        (.pattern ((loop.site.anew c.store).part .target pattern) item) := by
  simp only [rounds, Loop.taking, Loop.next, State.nextRound, target]
  rfl

end Rounds

section Frames

variable (host : Host η) (k : List Frame) {c : Scene η} {o : Outcome}

theorem step_taking (loop : Loop) (inner : Site) (cell : Cell) (items : List Value) :
    c.ledger.step host (c.hand (loop.taking inner cell items k) o).2 =
      some (c.enterRound k loop inner cell items o.failure?) := by
  cases o with
  | value v => exact congrArg (fun s => some (c.ledger, s)) (c.visit_state (.ret v .undefined) ..)
  | failure e => rfl

theorem step_running {cell : Cell} (unspent : c.world.isSpent cell = false) (goesOn : o.goesOn = true)
    (loop : Loop) (items : List Value) :
    c.ledger.step host (c.hand (loop.running cell items k) o).2 =
      some ((c.spend cell).rounds k loop items) := by
  cases o with
  | value v =>
    rw [← nextRound_state (.ret v .undefined)]
    simp only [Ledger.step, hand, state, State.advance, State.finish, State.give, State.become,
      Loop.running, State.resume, State.again, unspent]
    rfl
  | failure e =>
    have signal : e.signal = .continued none := by
      simp only [Outcome.goesOn] at goesOn
      split at goesOn
      · assumption
      · cases goesOn
    rw [← nextRound_state (.fail e)]
    simp only [Ledger.step, hand, state, State.advance, State.finish, State.fail, State.become,
      Loop.running, State.unwind, signal, State.again, unspent]
    rfl

theorem step_running_end (cell : Cell) (ends : o.goesOn = false) (loop : Loop) (items : List Value) :
    c.ledger.step host (c.hand (loop.running cell items k) o).2 = some (c.hand k o.endOfLoop) := by
  cases o with
  | value v => cases ends
  | failure e =>
    have stepped : c.ledger.step host (c.hand (loop.running cell items k) (.failure e)).2 =
      some (c.ledger, (c.state (.fail e) k).unwind e (.round loop.site cell (loop.next items))) := rfl
    rw [stepped]
    simp only [State.unwind]
    split
    · next signal =>
      simp only [Outcome.endOfLoop, signal]
      rfl
    · next signal => simp [Outcome.goesOn, signal] at ends
    · have same : (Outcome.failure e).endOfLoop = .failure e := by simp only [Outcome.endOfLoop]
      rw [same]
      rfl

theorem step_once {cell : Cell} (unspent : c.world.isSpent cell = false) (v : Value) :
    c.ledger.step host (c.hand (.once cell :: k) (.value v)).2 =
      some ((c.spend cell).hand k (.value v)) := by
  simp only [Ledger.step, hand, state, State.advance, State.finish, State.give, State.become,
    State.resume, State.giveOnce, unspent]
  rfl

end Frames

/-! ## Rounds -/

variable {S : Setup η} {loop : Loop} {inner : Site} {base k : List Frame} {item : Value}
  {items : List Value} {c c₁ c' : Scene η} {failed : Option Exception} {o : Outcome}
  {rounds : List Round} {extent : Extent}

section

variable (h : c.Readies S loop k item items failed inner c')
include h

theorem Readies.run (above : base <:+ k) :
    Thread S base (c.rounds k loop (item :: items))
      (c'.enterRound k loop inner c.cell items failed) := by
  cases h with
  | assigned target found => exact rounds_assigned target found ▸ .here _
  | unbound target missing => exact rounds_unbound target missing ▸ .here _
  | declared target unpacks =>
    rw [rounds_declare target]
    exact (unpacks.run (above.trans (List.suffix_cons ..)) .idle).trans
      (.handed above (step_taking ..) (.here _))

theorem Readies.saves : c.newCell.world.Saves k c'.world := by
  cases h with
  | assigned | unbound => exact .of_spares (.of_spent rfl) k
  | declared _ unpacks =>
    exact .trans (.of_spares (.store ..) k) (unpacks.saves.below (List.suffix_cons ..))

theorem Readies.unspent : c'.world.isSpent c.cell = false := by
  cases h with
  | assigned | unbound => exact c.world.isSpent_newCell
  | declared _ unpacks =>
    exact unpacks.saves _ (Frame.mem_cells List.mem_cons_self rfl) c.world.isSpent_newCell

/-- The body is a part of the round. -/
theorem Readies.within : loop.Within c.store (inner.part (.slot .body) loop.body) := by
  cases h with
  | assigned target | unbound target | declared target => simp only [Loop.Within, target, true_or]

end

/-- The cell of a round is unspent when its body has ended. -/
theorem Traverses.unspent_round (h : c₁.Traverses S (loop.running c.cell items k) inner .body loop.body o c')
    (readies : c.Readies S loop k item items failed inner c₁) : c'.world.isSpent c.cell = false :=
  h.saves _ (Frame.mem_cells List.mem_cons_self rfl) readies.unspent

theorem Iterates.run (h : c.Iterates S loop k items rounds extent c') (above : base <:+ k) :
    Thread S base (c.rounds k loop items) (c'.pursue k loop extent) := by
  have inside : ∀ f : Frame, base <:+ f :: k := fun f => above.trans (List.suffix_cons f k)
  induction h with
  | here | exhausted => exact .here _
  | unready readies => exact readies.run above
  | left readies visits ends =>
    exact (readies.run above).trans ((visits.run (inside _) .idle).trans
      (.handed above (step_running_end _ k _ ends loop _) (.here _)))
  | round readies visits goesOn _ ih =>
    have unspent := visits.unspent_round readies
    exact (readies.run above).trans ((visits.run (inside _) .idle).trans
      (.handed above (step_running _ k unspent goesOn ..) ih))

theorem Iterates.saves (h : c.Iterates S loop k items rounds extent c') : c.world.Saves k c'.world := by
  induction h with
  | here | exhausted => exact .refl _ _
  | unready readies => exact .trans (.of_spares (.newCell _) k) readies.saves
  | left readies visits =>
    exact .trans (.of_spares (.newCell _) k)
      (readies.saves.trans (visits.saves.below (List.suffix_cons ..)))
  | round readies visits _ _ ih =>
    exact (readies.saves.trans (visits.saves.below (List.suffix_cons ..))).spend.trans ih

end Scene

namespace Route.Passes

variable {S : Setup η} {loop : Loop} {base k : List Frame} {item : Value} {items : List Value}
  {c : Scene η} {start : Point η} {r : Route S base start}

theorem readies (h : r.Passes (c.rounds k loop (item :: items))) (above : base <:+ k) :
    (∃ failed inner c', c.Readies S loop k item items failed inner c' ∧
      r.Passes (c'.enterRound k loop inner c.cell items failed)) ∨
    r.Stalls k (loop.Within c.store) := by
  cases target : loop.target with
  | assign name =>
    cases found : c.store.assign? loop.site.scope name item with
    | some store =>
      rw [Scene.rounds_assigned target found] at h
      exact .inl ⟨_, _, _, .assigned target found, h⟩
    | none =>
      rw [Scene.rounds_unbound target found] at h
      exact .inl ⟨_, _, _, .unbound target found, h⟩
  | declare pattern =>
    rw [Scene.rounds_declare target] at h
    rcases h.unpack (above.trans (List.suffix_cons ..)) with ⟨acts, o, c', unpacks, there⟩ | stalls
    · have there : r.Passes (c'.hand (loop.taking ..) o) := there
      exact .inl ⟨_, _, _, .declared target unpacks, there.handed above (Scene.step_taking ..)⟩
    · refine .inr (stalls.below [_] fun part mem => ?_)
      simp only [Loop.Within, target]
      exact .inr mem

/-- The rounds of a loop that a thread comes to end as the law says, or the thread stalls in one of
them. -/
theorem iterates (h : r.Passes (c.rounds k loop items)) (above : base <:+ k) :
    (∃ rounds o c', c.Iterates S loop k items rounds (.ended o) c' ∧ r.Passes (c'.hand k o)) ∨
    ∃ rounds item rest c', c.Iterates S loop k items rounds (.more (item :: rest)) c' ∧
      r.Passes (c'.rounds k loop (item :: rest)) ∧ r.Stalls k (loop.Within c'.store) := by
  have inside : ∀ f : Frame, base <:+ f :: k := fun f => above.trans (List.suffix_cons f k)
  -- whatever a round does, it leaves one item less
  induction items generalizing c with
  | nil => exact .inl ⟨[], _, c, .exhausted, h⟩
  | cons item items ih =>
    rcases h.readies above with ⟨failed, inner, c₁, readies, there⟩ | stalls
    · cases failed with
      | some e => exact .inl ⟨_, _, _, .unready readies, there⟩
      | none =>
        rcases there.visit (inside _) with ⟨o, c₂, visits, there⟩ | stalls
        · cases goesOn : o.goesOn with
          | false =>
            exact .inl ⟨_, _, _, .left readies visits goesOn,
              there.handed above (Scene.step_running_end _ k _ goesOn loop _)⟩
          | true =>
            have unspent := visits.unspent_round readies
            rcases ih (there.handed above (Scene.step_running _ k unspent goesOn ..)) with
              ⟨_, _, _, later, there⟩ | ⟨_, _, _, _, later, there, stalls⟩
            · exact .inl ⟨_, _, _, .round readies visits goesOn later, there⟩
            · exact .inr ⟨_, _, _, _, .round readies visits goesOn later, there, stalls⟩
        · refine .inr ⟨_, _, _, _, .here, h, stalls.below [_] ?_⟩
          rintro part rfl
          exact readies.within
    · exact .inr ⟨_, _, _, _, .here, h, stalls⟩

end Route.Passes

/-! ## The whole statement -/

section

variable {S : Setup η} {loop : Loop} {kind : Sweep} {right left : Node} {base k : List Frame}
  {items : List Value} {c c' : Scene η} {o : Outcome} {rounds : List Round}

namespace Scene

theorem step_sweep (host : Host η) (shape : loop.site.node.shape = kind.statement left right loop.body)
    (head : loopTarget left = .ok loop.target)
    (admitted : (c.world.tell loop.site none .enter).1 = none) :
    c.ledger.step host (c.state (.eval loop.site) k) =
      some (c.ledger, ((c.tell loop.site none .enter).newCell.state (.eval loop.site)
        (loop.listing right c.cell k kind)).visit loop.site .right right) := by
  rw [step_eval, state, State.enter_of_none _ admitted]
  cases kind <;>
  · simp only [Sweep.statement] at shape
    simp only [State.start, shape, State.visitFor, head, State.pushCell, World.newCell, State.push,
      World.tell_spent, Loop.listing, cell, newCell, tell, state]

theorem step_unlisted (host : Host η) {e : Exception} (refused : kind.items c.store right o = .error e)
    (loop : Loop) (cell : Cell) (k : List Frame) :
    c.ledger.step host (c.hand (loop.listing right cell k kind) o).2 =
      some (c.hand (.guard cell :: .exit loop.site none :: k) (.failure e)) := by
  cases o with
  | failure =>
    cases refused
    cases kind <;> rfl
  | value v =>
    cases kind with
    | keys => cases refused
    | elements => cases v <;> cases refused <;> rfl

theorem step_listed (host : Host η) (listed : kind.items c.store right o = .ok items) (loop : Loop)
    (cell : Cell) (k : List Frame) :
    c.ledger.step host (c.hand (loop.listing right cell k kind) o).2 =
      some (c.newCell.rounds (loop.looping c.cell cell k) loop items) := by
  cases o with
  | failure => cases listed
  | value v =>
    rw [← nextRound_state (.ret v .undefined)]
    cases kind with
    | keys =>
      cases listed
      rfl
    | elements =>
      cases v <;> cases listed
      rfl

/-- The guard of the statement is unspent when its right side has been evaluated. -/
theorem Traverses.unspent_guard
    (h : (c.tell loop.site none .enter).newCell.Traverses S (loop.listing right c.cell k kind) loop.site
      .right right o c') : c'.world.isSpent c.cell = false := by
  have mem : Frame.guard c.cell ∈ loop.listing right c.cell k kind := by
    cases kind <;> exact List.mem_cons_of_mem _ List.mem_cons_self
  refine h.saves _ (Frame.mem_cells mem rfl) ?_
  have fresh := (c.tell loop.site none .enter).world.isSpent_newCell
  simp only [tell, World.tell_spent] at fresh
  exact fresh

/-- Both cells of the statement are unspent when its rounds have ended. -/
theorem Iterates.unspent_cells {c₁ : Scene η} {guard : Cell} {extent : Extent}
    (h : c₁.newCell.Iterates S loop (loop.looping c₁.cell guard k) items rounds extent c')
    (unspent : c₁.world.isSpent guard = false) :
    c'.world.isSpent c₁.cell = false ∧ c'.world.isSpent guard = false := by
  have mem : Frame.guard guard ∈ loop.looping c₁.cell guard k :=
    List.mem_cons_of_mem _ List.mem_cons_self
  exact ⟨h.saves.fresh List.mem_cons_self rfl, h.saves _ (Frame.mem_cells mem rfl)
    ((World.Spares.newCell c₁.world).unspent unspent)⟩

end Scene

theorem Loop.suffix_listing (loop : Loop) (right : Node) (cell : Cell) (k : List Frame) (kind : Sweep) :
    k <:+ loop.listing right cell k kind := by
  cases kind <;> exact List.suffix_append [_, _, _] k

namespace Route.Passes

variable {start : Point η} {r : Route S base start}

/-- How the outcome of the rounds leaves the statement. -/
theorem leave {once guard : Cell} (h : r.Passes (c.hand (loop.looping once guard k) o))
    (above : base <:+ k) (unspent : c.world.isSpent once = false ∧ c.world.isSpent guard = false) :
    r.Passes (((c.spend (if o.isFailure then guard else once)).tell loop.site none
      (.exit (o.located loop.site.node))).hand k (o.located loop.site.node)) := by
  have inner : base <:+ .exit loop.site none :: k := above.trans (List.suffix_cons ..)
  have outer : base <:+ .guard guard :: .exit loop.site none :: k := inner.trans (List.suffix_cons ..)
  cases o with
  | failure e =>
    have first : c.ledger.step S.host (c.hand (loop.looping once guard k) (.failure e)).2 =
      some (c.hand (.guard guard :: .exit loop.site none :: k) (.failure e)) := rfl
    exact ((h.handed outer first).handed inner (Scene.step_guard _ unspent.2 ..)).handed above
      (Scene.step_exit ..)
  | value v =>
    have next : c.ledger.step S.host ((c.spend once).hand (.guard guard :: .exit loop.site none :: k)
      (.value v)).2 = some ((c.spend once).hand (.exit loop.site none :: k) (.value v)) := rfl
    have first : r.Passes
        ((c.spend once).hand (.guard guard :: .exit loop.site none :: k) (.value v)) :=
      h.handed outer (Scene.step_once _ _ unspent.1 v)
    exact (first.handed inner next).handed above (Scene.step_exit ..)

/-- A list that is refused leaves the statement too. -/
theorem refuse {e : Exception} {cell : Cell} (h : r.Passes (c.hand (loop.listing right cell k kind) o))
    (above : base <:+ k) (unspent : c.world.isSpent cell = false)
    (refused : kind.items c.store right o = .error e) :
    r.Passes (((c.spend cell).tell loop.site none (.exit (.failure (e.located loop.site.node)))).hand k
      (.failure (e.located loop.site.node))) := by
  have inner : base <:+ .exit loop.site none :: k := above.trans (List.suffix_cons ..)
  have first : r.Passes (c.hand (.guard cell :: .exit loop.site none :: k) (.failure e)) := by
    have stepped := Scene.step_unlisted S.host refused loop cell k
    cases kind <;> exact h.handed (inner.trans (List.suffix_cons ..)) stepped
  exact (first.handed inner (Scene.step_guard _ unspent ..)).handed above (Scene.step_exit ..)

theorem list {cell : Cell} (h : r.Passes (c.hand (loop.listing right cell k kind) o))
    (above : base <:+ k) (listed : kind.items c.store right o = .ok items) :
    r.Passes (c.newCell.rounds (loop.looping c.cell cell k) loop items) := by
  have stepped := Scene.step_listed S.host listed loop cell k
  cases kind <;> exact h.handed (above.trans (List.suffix_append [_, _] k)) stepped

end Route.Passes

section

variable (shape : loop.site.node.shape = kind.statement left right loop.body)
  (head : loopTarget left = .ok loop.target)
  (admitted : (c.world.tell loop.site none .enter).1 = none)
include shape head admitted

theorem Route.passes_right (r : Route S k (c.put (.eval loop.site) k)) :
    r.Passes (c.ledger, ((c.tell loop.site none .enter).newCell.state (.eval loop.site)
      (loop.listing right c.cell k kind)).visit loop.site .right right) := by
  exact r.passes_start.enter (Scene.step_sweep S.host shape head admitted)

/-- Loops run as the law says. -/
theorem Scene.Sweeps.run (h : c.Sweeps S kind loop right k rounds o c') :
    c.Completes S k loop.site o c' := by
  let r : Route S k (c.put (.eval loop.site) k) := ⟨_, .here _, Control.noConfusion⟩
  have above := List.suffix_refl k
  have begins := r.passes_right shape head admitted
  have later : ∀ {p q : Point η}, r.Passes p → Thread S k p q → r.Passes q :=
    fun passes thread => ⟨passes.thread.trans thread, .inr (passes.thread.trans thread)⟩
  cases h with
  | unlisted visits refused =>
    have there := later begins (visits.run (loop.suffix_listing ..) _)
    exact (there.refuse above visits.unspent_guard refused).thread
  | @swept _ _ _ c' o c₁ visits listed iterates =>
    have there := (later begins (visits.run (loop.suffix_listing ..) _)).list above listed
    have ends : r.Passes (c'.hand (loop.looping c₁.cell c.cell k) o) :=
      later there (iterates.run (List.suffix_append [_, _, _] k))
    exact (ends.leave above (iterates.unspent_cells visits.unspent_guard)).thread

omit shape head admitted in
/-- The loop does not end: the evaluation of its right side does not, or after some rounds the next
one does not. -/
inductive Route.Hangs (kind : Sweep) (loop : Loop) (right : Node) (c : Scene η)
    (r : Route S k (c.put (.eval loop.site) k)) : Prop
  | unlisted (stalls : r.Stalls k (· = loop.site.part (.slot .right) right))
  | round {o items rounds item rest c₁} {c' : Scene η}
    (visits : (c.tell loop.site none .enter).newCell.Traverses S (loop.listing right c.cell k kind)
      loop.site .right right o c₁)
    (listed : kind.items c₁.store right o = .ok items)
    (iterates : c₁.newCell.Iterates S loop (loop.looping c₁.cell c.cell k) items rounds
      (.more (item :: rest)) c')
    (comes : Thread S k (c.put (.eval loop.site) k)
      (c'.rounds (loop.looping c₁.cell c.cell k) loop (item :: rest)))
    (stalls : r.Stalls k (loop.Within c'.store))

/-- From wherever a loop is, it goes on to an end as the law says, or it has none. -/
theorem Route.sweep (r : Route S k (c.put (.eval loop.site) k)) :
    (∃ rounds o c', c.Sweeps S kind loop right k rounds o c' ∧ Thread S k r.goal (c'.hand k o)) ∨
    ¬ r.goal.2.Hands k ∧ r.Hangs kind loop right c := by
  have above := List.suffix_refl k
  rcases Passes.visit (c := (c.tell loop.site none .enter).newCell)
    (r.passes_right shape head admitted) (loop.suffix_listing ..) with ⟨o₁, c₁, visits, there⟩ | stalls
  · cases listed : kind.items c₁.store right o₁ with
    | error e =>
      exact .inl ⟨_, _, _, .unlisted visits listed,
        (there.refuse above visits.unspent_guard listed).since (Scene.hands_hand ..)⟩
    | ok items =>
      rcases (there.list above listed).iterates (List.suffix_append [_, _, _] k) with
        ⟨rounds, o, c', iterates, there⟩ | ⟨rounds, item, rest, c', iterates, there, stalls⟩
      · have last := there.leave above (iterates.unspent_cells visits.unspent_guard)
        exact .inl ⟨_, _, _, .swept visits listed iterates, last.since (Scene.hands_hand ..)⟩
      · have stalls := stalls.below [_, _, _] fun _ => id
        exact .inr ⟨stalls.not_hands above, .round visits listed iterates there.thread stalls⟩
  · have stalls : r.Stalls k (· = loop.site.part (.slot .right) right) := by
      cases kind <;> exact stalls.below [_, _, _] fun _ => id
    exact .inr ⟨stalls.not_hands above, .unlisted stalls⟩

end

end

end EcmaMachine
