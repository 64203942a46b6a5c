import EcmaMachine.Proofs.Growth
import EcmaMachine.Proofs.Observers
import EcmaMachine.Proofs.Run

/-!
Small scripts, step by step: what the machine goes through while it reads names, calls a function
by its name and ends a statement. Observers may watch as long as they refuse no Enter.
-/

namespace EcmaMachine

variable {η : Type}

/-! ## Worlds that follow from others -/

namespace World

/-- What work on a script leaves alone, if it ends in a value and calls nothing. -/
structure Keeps (ids : List Nat) (w w' : World η) : Prop extends w.Spares w' where
  answered : w'.answered = w.answered
  held : w'.held = w.held
  host : w'.host = w.host
  admits : w'.Admits ids

/-- The second world comes of the first by work that shows events, gives out references and makes
lists and cells. -/
structure Follows (ids : List Nat) (w w' : World η) : Prop extends w.Keeps ids w' where
  store : w.store.Grows w'.store

variable {ids : List Nat} {w w' w'' : World η}

theorem Keeps.trans (h : w.Keeps ids w') (h' : w'.Keeps ids w'') : w.Keeps ids w'' where
  toSpares := h.toSpares.trans h'.toSpares
  answered := h'.answered.trans h.answered
  held := h'.held.trans h.held
  host := h'.host.trans h.host
  admits := h'.admits

theorem Keeps.withStore (h : w.Keeps ids w') (store : Store) : w.Keeps ids { w' with store } :=
  { h with }

namespace Follows

theorem refl (admits : w.Admits ids) : w.Follows ids w where
  toSpares := .refl w
  store := .refl _
  answered := rfl
  held := rfl
  host := rfl
  admits := admits

theorem tell (h : w.Follows ids w') (site : Site) (slot : Option Slot) (stage : Stage) :
    w.Follows ids (w'.tell site slot stage).2 where
  toSpares := h.toSpares.trans (.of_spent (by simp))
  store := by simpa using h.store
  answered := by simpa using h.answered
  held := by simpa using h.held
  host := by simpa using h.host
  admits := h.admits.notify _ _

theorem withStore (h : w.Follows ids w') {store : Store} (grows : w'.store.Grows store) :
    w.Follows ids { w' with store } :=
  { h with store := h.store.trans grows }

theorem newCell (h : w.Follows ids w') : w.Follows ids w'.newCell.2 :=
  { h with toSpares := h.toSpares.trans (.newCell w') }

end Follows

end World

/-! ## Runs -/

namespace Ledger

/-- With so much fuel, the run from the state on ends with such a ledger and world. The rules below
say this of a state where it is true of those that the machine comes to next. -/
def Settles (host : Host η) (Q : Ledger × World η → Prop) (l : Ledger) (n : Nat) (s : State η) :
    Prop :=
  Q (l.settle host n s)

variable {host : Host η} {Q : Ledger × World η → Prop} {l l' : Ledger} {n : Nat} {s s' : State η}

theorem Settles.step (stepped : l.step host s = some (l', s')) (later : l'.Settles host Q n s') :
    l.Settles host Q (n + 1) s := by
  rw [Settles, settle_of_step stepped]
  exact later

theorem Settles.next (advance : s.advance host = .next s') (later : l.Settles host Q n s') :
    l.Settles host Q (n + 1) s :=
  .step (by simp only [Ledger.step, advance]) later

end Ledger

section Rules

variable {host : Host η} {Q : Ledger × World η → Prop} {l : Ledger} {n : Nat} {ids : List Nat}
  {control : Control} {k : List Frame} {agenda : Agenda} {w₀ w : World η} {site : Site}
  {v receiver : Value} {vs : List Value}

/-- Nobody refuses to enter a node or slot, so the work inside is done with its end on top. -/
theorem settles_enter (h : w₀.Follows ids w) (watched : site.config.observers ⊆ ids)
    {slot : Option Slot} {work : State η → State η}
    (later : ∀ w', w₀.Follows ids w' →
      l.Settles host Q n (work ⟨control, .exit site slot :: k, agenda, w'⟩)) :
    l.Settles host Q n ((⟨control, k, agenda, w⟩ : State η).enter site slot work) := by
  rw [State.enter_of_none work (h.admits.tell_enter watched slot)]
  exact later _ (h.tell site slot .enter)

theorem settles_eval (h : w₀.Follows ids w) (watched : site.config.observers ⊆ ids)
    (later : ∀ w', w₀.Follows ids w' →
      l.Settles host Q n ((⟨.eval site, .exit site none :: k, agenda, w'⟩ : State η).start site)) :
    l.Settles host Q (n + 1) ⟨.eval site, k, agenda, w⟩ :=
  .next rfl (settles_enter h watched later)

/-- The end of a node or slot hands the value on. -/
theorem settles_exit (h : w₀.Follows ids w) {slot : Option Slot}
    (later : ∀ w', w₀.Follows ids w' → l.Settles host Q n ⟨.ret v receiver, k, agenda, w'⟩) :
    l.Settles host Q (n + 1) ⟨.ret v receiver, .exit site slot :: k, agenda, w⟩ :=
  .next rfl (later _ (h.tell site slot (.exit (.value v))))

/-! ## Names and lists -/

/-- A name that is bound gives its value. -/
theorem settles_name {name : String} (shape : site.node.shape = .identifier name)
    (found : w₀.store.find? site.scope name = some v) (h : w₀.Follows ids w)
    (watched : site.config.observers ⊆ ids)
    (later : ∀ w', w₀.Follows ids w' → l.Settles host Q n ⟨.ret v .undefined, k, agenda, w'⟩) :
    l.Settles host Q (n + 2) ⟨.eval site, k, agenda, w⟩ := by
  refine settles_eval h watched fun w₁ entered => ?_
  have found₁ := (entered.store.names site.scope name).trans found
  simp only [State.start, shape, State.readName, State.store, found₁]
  -- Reading may give the name a reference, which nobody but the table of the scope knows.
  split
  · have resolved : (w₁.store.reference? site.scope name).isSome = true := by
      rw [Store.isSome_reference?, ← Store.isSome_find?_iff, found₁]
      rfl
    obtain ⟨⟨r, store⟩, given⟩ := Option.isSome_iff_exists.1 resolved
    rw [given]
    exact settles_exit (entered.withStore (.reference? given)) later
  · exact settles_exit entered later

def Site.Reads (ids : List Nat) (s : Store) (item : Option Site) (v : Value) : Prop :=
  ∃ site name, item = some site ∧ site.node.shape = .identifier name ∧
    s.find? site.scope name = some v ∧ site.config.observers ⊆ ids

/-- A list of names gives the list of their values. -/
theorem settles_items {items : List (Option Site)} (h : w₀.Follows ids w)
    (reads : List.Forall₂ (Site.Reads ids w₀.store) items vs) (done : List Value)
    (later : ∀ id w', w₀.Follows ids w' → (w'.store.elements id).toList = done.reverse ++ vs →
      l.Settles host Q n ⟨.ret (.array id) .undefined, k, agenda, w'⟩) :
    l.Settles host Q (n + 3 * vs.length)
      ((⟨control, k, agenda, w⟩ : State η).nextItem items done) := by
  induction vs generalizing control w items done with
  | nil =>
    cases reads
    refine later w.store.arrays.size { w with store := (w.store.newList done.reverse).2 }
      (h.withStore (.newList _ done.reverse)) ?_
    simp [Store.newList, Store.newArray, Store.elements]
  | cons v vs ih =>
    obtain ⟨item, items, head, tail, rfl⟩ := List.forall₂_cons_right_iff.1 reads
    obtain ⟨site, name, rfl, shape, found, watched⟩ := head
    have count : n + 3 * (v :: vs).length = n + 3 * vs.length + 1 + 2 := by
      rw [List.length_cons]
      omega
    rw [count]
    refine settles_name shape found h watched fun w₁ read => .next rfl ?_
    refine ih read tail (v :: done) fun id w' follows elements => ?_
    exact later id w' follows (by simpa using elements)

def Site.ReadsAll (site : Site) (s : Store) (children : List Node) (vs : List Value) : Prop :=
  List.Forall₂ (fun n v => ∃ x, n.shape = .identifier x ∧ s.find? site.scope x = some v) children vs

theorem Site.ReadsAll.items {s : Store} {children : List Node} (reads : site.ReadsAll s children vs)
    (watched : site.config.observers ⊆ ids) :
    List.Forall₂ (Site.Reads ids s)
      ((children.map some).mapIdx fun i child => child.map (site.part (.item i))) vs := by
  unfold ReadsAll at reads
  rw [List.forall₂_iff_get] at reads ⊢
  obtain ⟨length, reads⟩ := reads
  refine ⟨by simpa using length, fun i lt lt' => ?_⟩
  obtain ⟨x, shape, found⟩ := reads i (by simpa using lt) lt'
  exact ⟨site.part (.item i) (children.get ⟨i, by simpa using lt⟩), x, by simp, shape, found,
    watched⟩

/-- The list that has been made under the events of a slot is handed on as it is. -/
theorem settles_listed {id : ArrayId} {c : Cell} {slot : Slot} (h : w₀.Follows ids w)
    (elements : (w.store.elements id).toList = vs)
    (later : ∀ w', w₀.Follows ids w' → (w'.store.elements id).toList = vs →
      l.Settles host Q n ⟨.ret (.array id) .undefined, k, agenda, w'⟩) :
    l.Settles host Q (n + 2)
      ⟨.ret (.array id) .undefined, .guard c :: .exit site (some slot) :: k, agenda, w⟩ := by
  let left := w.tell site (some slot) (.exit (.value (.array id)))
  exact .next rfl (.next rfl (later left.2 (h.tell ..) (by simpa [left] using elements)))

/-- The parts of a node, all of them names, are evaluated under the events of a slot. -/
theorem settles_visitAll {children : List Node} (h : w₀.Follows ids w)
    (watched : site.config.observers ⊆ ids) (reads : site.ReadsAll w₀.store children vs)
    (slot : Slot) (later : ∀ id w', w₀.Follows ids w' → (w'.store.elements id).toList = vs →
      l.Settles host Q n ⟨.ret (.array id) .undefined, k, agenda, w'⟩) :
    l.Settles host Q (n + 2 + 3 * vs.length)
      ((⟨control, k, agenda, w⟩ : State η).visitAll site slot children) := by
  simp only [State.visitAll, State.visitItems]
  refine settles_enter h watched fun w₁ entered => ?_
  refine settles_items entered.newCell (reads.items watched) [] fun id w₂ listed elements => ?_
  exact settles_listed listed elements (later id)

/-! ## Calls -/

def Site.CallsNames (site : Site) (s : Store) (f : FunctionId) (vs : List Value) : Prop :=
  ∃ callee arguments name, site.node.shape = .callExpression callee arguments ∧
    callee.shape = .identifier name ∧ s.find? site.scope name = some (.function f) ∧
    site.ReadsAll s arguments vs

/-- A call by names gets to the function with the values of the arguments. -/
theorem settles_call {f : FunctionId} (calls : site.CallsNames w₀.store f vs)
    (h : w₀.Follows ids w) (watched : site.config.observers ⊆ ids)
    (later : ∀ c w', w₀.Follows ids w' → l.Settles host Q n
      ⟨.apply f .undefined vs site.config, .guard c :: .exit site none :: k, agenda, w'⟩) :
    l.Settles host Q (n + 3 + 3 * vs.length + 5) ⟨.eval site, k, agenda, w⟩ := by
  obtain ⟨callee, arguments, name, shape, named, found, reads⟩ := calls
  refine settles_eval h watched fun w₁ opened => ?_
  simp only [State.start, shape, State.visitCallee, named]
  -- The callee is read first, then the arguments.
  refine settles_enter opened.newCell watched fun w₂ entered => ?_
  refine settles_name named found entered watched fun w₃ read => ?_
  refine settles_exit read fun w₄ left => .next rfl ?_
  refine settles_visitAll left watched reads .arguments fun id w₅ follows elements => ?_
  exact .next (by
    simp only [State.advance, State.resume, State.listed, State.store, elements]
    rfl) (later _ w₅ follows)

/-! ## Programs of one statement -/

/-- What waits while the expression of a program with a single statement is evaluated. -/
def Site.around (site : Site) (statement : Node) (c : Cell) : List Frame :=
  let inner := site.part (.item 0) statement
  [.exit inner (some .expression), .exit inner none, .items [] [], .guard c,
    .exit site (some .body), .last, .exit site none]

theorem settles_program {statement expression : Node}
    (shape : site.node.shape = .program [statement])
    (inner : statement.shape = .expressionStatement expression) (h : w₀.Follows ids w)
    (watched : site.config.observers ⊆ ids)
    (later : ∀ c w', w₀.Follows ids w' → l.Settles host Q n
      ⟨.eval ((site.part (.item 0) statement).part (.slot .expression) expression),
        site.around statement c ++ k, agenda, w'⟩) :
    l.Settles host Q (n + 2) ⟨.eval site, k, agenda, w⟩ := by
  have hoisted : ∀ store : Store, store.hoist site.scope (site.toSpot.items [statement]) =
      (none, store) := by
    intro store
    simp only [Spot.items, List.mapIdx_cons, List.mapIdx_nil, Store.hoist, Spot.part, inner]
  refine settles_eval h watched fun w₁ opened => ?_
  simp only [State.start, shape, State.evalBody, hoisted, State.visitAll, State.visitItems]
  refine settles_enter opened watched fun w₂ entered => ?_
  refine settles_eval entered.newCell watched fun w₃ begun => ?_
  simp only [State.start, Site.part, Spot.part, inner]
  refine settles_enter begun ?_ (later _)
  exact watched

/-- The value of the expression is the value of the program. -/
theorem settles_around {statement : Node} {c : Cell} (h : w₀.Follows ids w)
    (later : ∀ w', w₀.Follows ids w' → l.Settles host Q n ⟨.ret v .undefined, k, agenda, w'⟩) :
    l.Settles host Q (n + 7) ⟨.ret v receiver, site.around statement c ++ k, agenda, w⟩ := by
  refine settles_exit h fun w₁ left => settles_exit left fun w₂ left => ?_
  -- The value goes into a list of one item, of which it is the last.
  have none : List.Forall₂ (Site.Reads ids w₀.store) [] [] := .nil
  refine .next rfl (settles_items left none [v] fun id w₃ made elements => ?_)
  refine settles_listed made elements fun w₄ closed elements => ?_
  exact .next (by
    simp only [State.advance, State.resume, State.listed, State.store, elements]
    rfl) (settles_exit closed later)

/-- What the program has come to gets through to the one who waits, if nothing has come that way
before. -/
theorem settles_deliver {cell : Cell} {own : Nat} {back : Recipient}
    (found : l.recipients[own]? = some back) (unspent : w.isSpent cell = false)
    (later : Q (l.receive (w.spend cell) back (.value v))) :
    l.Settles host Q (n + 2) ⟨.ret v .undefined, [.program cell, .deliver own], [], w⟩ := by
  have ended : (⟨.ret v .undefined, [.program cell, .deliver own], [], w⟩ : State η).advance host =
      .next ((⟨.idle, [.deliver own], [], w.spend cell⟩ : State η).finish (.value v)) := by
    simp only [State.advance, State.resume, State.giveOnce, unspent]
    rfl
  refine .next ended ?_
  rw [Ledger.Settles, Ledger.settle_finish found]
  exact later

end Rules

end EcmaMachine
