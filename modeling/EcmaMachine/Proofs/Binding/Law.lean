import EcmaMachine.Proofs.Budget.Cost
import EcmaMachine.Proofs.Threads

/-!
How a value is bound to a pattern. Names take the value, an object pattern hands on its properties
from left to right, each read when its turn comes, and a default is evaluated where the value is
undefined, before the pattern that it is for is bound. The first failure ends the binding. A call
binds its parameters in the same way, each to its argument.
-/

namespace EcmaMachine

variable {η : Type}

/-- What a property of an object pattern binds, by its key; or why it is not supported. -/
def Node.boundProperty (p : Node) : Except Exception (String × Node) :=
  match p.shape with
  | .property key target _ computed _ _ =>
    match key.staticKey?, computed with
    | some name, false => .ok (name, target)
    | _, _ => .error (.leaving (.unsupported key.type (.patternKey key.type)) key)
  | _ => .error (.leaving (.unsupported p.type .patternProperty) p)

theorem Node.bindingCost_bound {n pattern : Node} {key : String}
    (bound : n.boundProperty = .ok (key, pattern)) : pattern.bindingCost ≤ n.bindingCost := by
  unfold boundProperty at bound
  split at bound
  · next shape =>
    split at bound <;> cases bound
    exact Nat.le_of_succ_le (bindingCost_property shape)
  · cases bound

/-- Where a list of patterns gets its values: properties from an object, parameters from the
arguments of a call. -/
inductive Supply
  | object (source : Value)
  | call (site : Site) (closure : Closure) (args : List Value)

namespace Supply

/-- The pattern at the first place with its value. An argument that is missing is undefined. -/
def next (s : Store) (p : Site) : Supply → Except Exception (Site × Value × Store)
  | object source =>
    match p.node.boundProperty with
    | .error e => .error e
    | .ok (key, pattern) =>
      match s.getProperty source key with
      | .error fault => .error (.leaving (.type fault) p.node)
      | .ok (item, s') => .ok (p.part .target pattern, item, s')
  | call _ _ args => .ok (p, args.head?.getD .undefined, s)

def tail : Supply → Supply
  | object source => object source
  | call site closure args => call site closure args.tail

def frame (rest : List Site) : Supply → Frame
  | object source => .bindRest rest source
  | call site closure args => .bindParams site closure rest args

def whole : Supply → Value
  | object source => source
  | call .. => .undefined

theorem bindingCost_next {s s' : Store} {p target : Site} {item : Value} {supply : Supply}
    (read : supply.next s p = .ok (target, item, s')) :
    target.node.bindingCost ≤ p.node.bindingCost := by
  unfold next at read
  split at read
  · split at read
    · cases read
    · next bound =>
      split at read <;> cases read
      exact Node.bindingCost_bound bound
  · cases read
    exact Nat.le_refl _

end Supply

/-- A pattern with the value to bind, or the remaining patterns of a list. -/
inductive Binding
  | pattern (target : Site) (v : Value)
  | parts (rest : List Site) (supply : Supply)

noncomputable def Binding.cost : Binding → Nat
  | pattern target _ => target.node.bindingCost
  | parts rest _ => bindingCosts rest

/-- What a binding does at a position of the pattern: a name takes a value, a default is evaluated,
or an object pattern meets the value whose properties it is to hand on. -/
inductive Act
  | names (name : String) (v : Value)
  | defaults (site : Site) (o : Outcome)
  | opens (target : Site) (v : Value)

/-! ## Turns -/

/-- The positions of a pattern, as they stand from left to right, a default before the pattern that it
is for. -/
inductive Turn
  | name (name : String)
  | default (site : Site)
  | object (target : Site)

mutual

def Site.turns (target : Site) : List Turn :=
  match _shape : target.node.shape with
  | .identifier name => [.name name]
  | .assignmentPattern left right =>
    .default (target.part (.slot .right) right) :: (target.part .target left).turns
  | .objectPattern properties => .object target :: propertyTurns (target.items properties)
  | _ => []
termination_by target.node.bindingCost
decreasing_by
  · exact bindingCost_default ‹_›
  · exact Nat.lt_of_succ_le (Nat.le_of_succ_le (bindingCosts_object target ‹_›))

def propertyTurns : List Site → List Turn
  | [] => []
  | p :: rest =>
    match _bound : p.node.boundProperty with
    | .ok (_, pattern) => (p.part .target pattern).turns ++ propertyTurns rest
    | .error _ => propertyTurns rest
termination_by sites => bindingCosts sites
decreasing_by
  · have smaller := Node.bindingCost_bound ‹_›
    rw [Site.part_node, bindingCosts_cons]
    omega
  all_goals
    rw [bindingCosts_cons]
    omega

end

section Equations

variable {target p : Site} {rest : List Site}

theorem Site.turns_name {name : String} (shape : target.node.shape = .identifier name) :
    target.turns = [.name name] := by
  rw [Site.turns]
  split <;> simp_all

theorem Site.turns_default {left right : Node}
    (shape : target.node.shape = .assignmentPattern left right) :
    target.turns =
      .default (target.part (.slot .right) right) :: (target.part .target left).turns := by
  rw [Site.turns]
  split <;> simp_all

theorem Site.turns_object {properties : List Node}
    (shape : target.node.shape = .objectPattern properties) :
    target.turns = .object target :: propertyTurns (target.items properties) := by
  rw [Site.turns]
  split <;> simp_all

theorem propertyTurns_cons {key : String} {pattern : Node}
    (bound : p.node.boundProperty = .ok (key, pattern)) :
    propertyTurns (p :: rest) = (p.part .target pattern).turns ++ propertyTurns rest := by
  rw [propertyTurns]
  split <;> simp_all

end Equations

namespace Binding

variable {p target : Site} {supply : Supply}

def turns : Binding → List Turn
  | .pattern target _ => target.turns
  | .parts rest (.object _) => propertyTurns rest
  | .parts rest (.call ..) => rest.flatMap Site.turns

theorem turns_cons (rest : List Site) {s s' : Store} {item : Value}
    (read : supply.next s p = .ok (target, item, s')) :
    (parts (p :: rest) supply).turns = target.turns ++ (parts rest supply.tail).turns := by
  cases supply with
  | call site closure args =>
    cases read
    rfl
  | object source =>
    simp only [Supply.next] at read
    split at read
    · cases read
    · next bound =>
      split at read <;> cases read
      exact propertyTurns_cons bound

theorem turns_nil (supply : Supply) : (parts [] supply).turns = [] := by
  cases supply with
  | object => rw [turns, propertyTurns]
  | call => rfl

end Binding

def Shape.isPattern (shape : Shape Node) : Bool :=
  match shape with
  | .identifier _ | .assignmentPattern .. | .objectPattern _ => true
  | _ => false

/-- Above the frames `k`, the binding does `acts`, one after the other, and ends so. -/
inductive Scene.Unpacks (S : Setup η) :
    List Frame → Binding → Scene η → List Act → Outcome → Scene η → Prop
  | name {k v name} {target : Site} {c : Scene η} (shape : target.node.shape = .identifier name) :
    Unpacks S k (.pattern target v) c [.names name v] (.value v)
      (c.withStore (c.store.declare target.scope name v))
  | given {k v left right c acts o c'} {target : Site}
    (shape : target.node.shape = .assignmentPattern left right) (present : v ≠ .undefined)
    (inner : Unpacks S k (.pattern (target.part .target left) v) c acts o c') :
    Unpacks S k (.pattern target v) c acts o c'
  | absent {k left right u acts o c'} {target : Site} {c c₁ : Scene η}
    (shape : target.node.shape = .assignmentPattern left right)
    (ends : c.newCell.Completes S
      (.bindTo (target.part .target left) :: .guard c.cell :: k) (target.part (.slot .right) right)
      (.value u) c₁)
    (inner : Unpacks S (.guard c.cell :: k) (.pattern (target.part .target left) u) c₁ acts
      o c') :
    Unpacks S k (.pattern target .undefined) c
      (.defaults (target.part (.slot .right) right) (.value u) :: acts) o (c'.guarded c.cell o)
  | defaultFails {k left right e c'} {target : Site} {c : Scene η}
    (shape : target.node.shape = .assignmentPattern left right)
    (ends : c.newCell.Completes S
      (.bindTo (target.part .target left) :: .guard c.cell :: k) (target.part (.slot .right) right)
      (.failure e) c') :
    Unpacks S k (.pattern target .undefined) c
      [.defaults (target.part (.slot .right) right) (.failure e)] (.failure e)
      (c'.guarded c.cell (.failure e))
  | nullish {k properties} {target : Site} {v : Value} {c : Scene η}
    (shape : target.node.shape = .objectPattern properties) (nullish : v.isNullish = true) :
    Unpacks S k (.pattern target v) c [.opens target v]
      (.failure (.leaving (.type (.destructure (c.store.text v))) target.node)) c
  | object {k properties acts o c'} {target : Site} {v : Value} {c : Scene η}
    (shape : target.node.shape = .objectPattern properties) (present : v.isNullish = false)
    (inner : Unpacks S (.guard c.cell :: k) (.parts (target.items properties) (.object v))
      c.newCell acts o c') :
    Unpacks S k (.pattern target v) c (.opens target v :: acts) o (c'.guarded c.cell o)
  | unsupported {k v c} {target : Site} (other : target.node.shape.isPattern = false) :
    Unpacks S k (.pattern target v) c []
      (.failure (.leaving (.unsupported target.node.type .bindingTarget) target.node)) c
  | done {k c} {supply : Supply} :
    Unpacks S k (.parts [] supply) c [] (.value supply.whole) c
  | next {k p rest target item store u acts c₁ acts' o c'} {supply : Supply} {c : Scene η}
    (read : supply.next c.store p = .ok (target, item, store))
    (first : Unpacks S (supply.tail.frame rest :: k) (.pattern target item)
      (c.withStore store) acts (.value u) c₁)
    (later : Unpacks S k (.parts rest supply.tail) c₁ acts' o c') :
    Unpacks S k (.parts (p :: rest) supply) c (acts ++ acts') o c'
  | stops {k p rest target item store e acts c'} {supply : Supply} {c : Scene η}
    (read : supply.next c.store p = .ok (target, item, store))
    (first : Unpacks S (supply.tail.frame rest :: k) (.pattern target item)
      (c.withStore store) acts (.failure e) c') :
    Unpacks S k (.parts (p :: rest) supply) c acts (.failure e) c'
  | refused {k p rest e} {supply : Supply} {c : Scene η}
    (failed : supply.next c.store p = .error e) :
    Unpacks S k (.parts (p :: rest) supply) c [] (.failure e) c

/-! ## Single steps -/

namespace State

/-- The state that a binding begins in. -/
def unpack (s : State η) : Binding → State η
  | .pattern target v => s.become (.bind target v)
  | .parts rest (.object source) => s.bindProperties source rest
  | .parts rest (.call site closure args) => s.nextParam site closure rest args

/-- What comes after a binding: the body of the call whose parameters are bound, or whoever waits
for the outcome. -/
def conclude (s : State η) : Binding → Outcome → State η
  | .parts _ (.call site closure _), .value _ => s.runBody site closure
  | _, o => s.finish o

theorem unpack_cons (s : State η) (p : Site) (rest : List Site) (supply : Supply) :
    s.unpack (.parts (p :: rest) supply) =
      match supply.next s.store p with
      | .error e => s.fail e
      | .ok (target, item, store) =>
        ((s.withStore store).push (supply.tail.frame rest)).unpack (.pattern target item) := by
  cases supply with
  | call site closure args => rfl
  | object source =>
    rw [unpack, bindProperties, Supply.next, Node.boundProperty]
    cases p.node.shape with
    | property key target kind computed =>
      dsimp only
      cases key.staticKey? with
      | none => rfl
      | some name =>
        cases computed with
        | true => rfl
        | false =>
          dsimp only
          cases s.store.getProperty source name <;> rfl
    | _ => rfl

end State

namespace Scene

def unpack (c : Scene η) (control : Control) (k : List Frame) (b : Binding) : Point η :=
  (c.ledger, (c.state control k).unpack b)

def conclude (c : Scene η) (k : List Frame) (b : Binding) (o : Outcome) : Point η :=
  (c.ledger, (c.state .idle k).conclude b o)

def bind (c : Scene η) (k : List Frame) (target : Site) (v : Value) : Point η :=
  (c.ledger, (c.state (.bind target v) k).bind target v)

variable {k : List Frame} {c : Scene η} {control : Control} {target p : Site} {v item : Value}
  {left right : Node} {properties : List Node} {store : Store} {supply : Supply}

theorem conclude_failure (rest : List Site) (supply : Supply) (e : Exception) :
    c.conclude k (.parts rest supply) (.failure e) = c.hand k (.failure e) := by
  cases supply <;> rfl

theorem conclude_tail (p : Site) (rest : List Site) (supply : Supply) (o : Outcome) :
    c.conclude k (.parts rest supply.tail) o = c.conclude k (.parts (p :: rest) supply) o := by
  cases o <;> cases supply <;> rfl

theorem unpack_nil (supply : Supply) :
    c.unpack control k (.parts [] supply) = c.conclude k (.parts [] supply) (.value supply.whole) := by
  cases supply <;> rfl

theorem unpack_next (read : supply.next c.store p = .ok (target, item, store)) (rest : List Site) :
    c.unpack control k (.parts (p :: rest) supply) =
      (c.withStore store).unpack control (supply.tail.frame rest :: k) (.pattern target item) := by
  rw [unpack, State.unpack_cons, show (c.state control k).store = c.store from rfl, read]
  rfl

theorem unpack_refused {e : Exception} (failed : supply.next c.store p = .error e)
    (rest : List Site) :
    c.unpack control k (.parts (p :: rest) supply) = c.hand k (.failure e) := by
  rw [unpack, State.unpack_cons, show (c.state control k).store = c.store from rfl, failed]
  rfl

theorem bind_name {name : String} (shape : target.node.shape = .identifier name) :
    c.bind k target v =
      (c.withStore (c.store.declare target.scope name v)).hand k (.value v) := by
  simp only [bind, State.bind, shape]
  rfl

theorem bind_given (shape : target.node.shape = .assignmentPattern left right)
    (present : v ≠ .undefined) :
    c.bind k target v = c.unpack (.bind target v) k (.pattern (target.part .target left) v) := by
  simp only [bind, State.bind, shape]
  cases v with
  | undefined => exact absurd rfl present
  | _ => rfl

theorem bind_absent (shape : target.node.shape = .assignmentPattern left right) :
    c.bind k target .undefined = c.newCell.put (.eval (target.part (.slot .right) right))
      (.bindTo (target.part .target left) :: .guard c.cell :: k) := by
  simp only [bind, State.bind, shape]
  rfl

theorem bind_nullish (shape : target.node.shape = .objectPattern properties)
    (nullish : v.isNullish = true) :
    c.bind k target v =
      c.hand k (.failure (.leaving (.type (.destructure (c.store.text v))) target.node)) := by
  simp only [bind, State.bind, shape, nullish, if_true]
  rfl

theorem bind_object (shape : target.node.shape = .objectPattern properties)
    (present : v.isNullish = false) :
    c.bind k target v = c.newCell.unpack (.bind target v) (.guard c.cell :: k)
      (.parts (target.items properties) (.object v)) := by
  simp only [bind, State.bind, shape, present, Bool.false_eq_true, if_false]
  rfl

theorem bind_unsupported (other : target.node.shape.isPattern = false) :
    c.bind k target v =
      c.hand k (.failure (.leaving (.unsupported target.node.type .bindingTarget) target.node)) := by
  rw [bind, State.bind]
  cases shape : target.node.shape <;> first
    | rfl
    | (rw [shape] at other; cases other)

variable (host : Host η) (c)

theorem step_bindTo (control : Control) (target : Site) (v : Value) :
    c.ledger.step host (c.hand (.bindTo target :: k) (.value v)).2 =
      some (c.unpack control k (.pattern target v)) := rfl

theorem step_bindTo_failure (target : Site) (e : Exception) :
    c.ledger.step host (c.hand (.bindTo target :: k) (.failure e)).2 =
      some (c.hand k (.failure e)) := rfl

theorem step_supply (rest : List Site) (supply : Supply) (v : Value) :
    c.ledger.step host (c.hand (supply.frame rest :: k) (.value v)).2 =
      some (c.unpack (.ret v .undefined) k (.parts rest supply)) := by
  cases supply <;> rfl

theorem step_supply_failure (rest : List Site) (supply : Supply) (e : Exception) :
    c.ledger.step host (c.hand (supply.frame rest :: k) (.failure e)).2 =
      some (c.hand k (.failure e)) := by
  cases supply <;> rfl

end Scene

section

variable {S : Setup η} {base k : List Frame} {start q : Point η} {c : Scene η} {control : Control}
  {target : Site} {v : Value}

theorem Scene.not_hands_bind : ¬ (c.unpack control k (.pattern target v)).2.Hands base := by
  rintro ⟨-, outcome⟩
  cases outcome

theorem Thread.bind (later : Thread S base (c.bind k target v) q) :
    Thread S base (c.unpack control k (.pattern target v)) q :=
  .step Scene.not_hands_bind Control.noConfusion rfl later

theorem Route.Passes.bind {r : Route S base start}
    (h : r.Passes (c.unpack control k (.pattern target v))) : r.Passes (c.bind k target v) := by
  refine h.step Scene.not_hands_bind Control.noConfusion ?_ rfl
  rintro answers ⟨_, _, _, ⟨_, _, _, _, apply, _⟩, _⟩
  cases apply

end

/-! ## Whole bindings -/

namespace Scene.Unpacks

variable {S : Setup η} {base k : List Frame} {b : Binding}
  {c c' : Scene η} {acts : List Act} {o : Outcome} (h : c.Unpacks S k b acts o c')
include h

theorem saves : c.world.Saves k c'.world := by
  induction h with
  | name => exact .of_spares (.of_spent rfl) _
  | given _ _ _ ih => exact ih
  | absent _ ends _ ih =>
    have first := ends.saves.below (List.suffix_append [_, _] _)
    exact (first.trans (ih.below (List.suffix_cons ..))).guarded _
  | defaultFails _ ends => exact (ends.saves.below (List.suffix_append [_, _] _)).guarded _
  | object _ _ _ ih => exact (ih.below (List.suffix_cons ..)).guarded _
  | next _ _ _ ih ih' =>
    exact .trans (.of_spares (.store ..) _) ((ih.below (List.suffix_cons ..)).trans ih')
  | stops _ _ ih => exact .trans (.of_spares (.store ..) _) (ih.below (List.suffix_cons ..))
  | nullish | unsupported | done | refused => exact .refl _ _

/-- A binding runs as the law says. -/
theorem run (above : base <:+ k) (control : Control) :
    Thread S base (c.unpack control k b) (c'.conclude k b o) := by
  induction h generalizing control with
  | name shape => exact .bind (bind_name shape ▸ .here _)
  | given shape present _ ih => exact .bind (bind_given shape present ▸ ih above _)
  | @absent _ _ _ _ _ _ _ _ c _ shape ends inner ih =>
    have inside := above.trans (List.suffix_cons (.guard c.cell) _)
    have first := ends.saves.below (List.suffix_cons ..)
    have unspent := (first.trans inner.saves).fresh List.mem_cons_self rfl
    have default := ends.thread (inside.trans (List.suffix_cons ..))
    rw [← bind_absent shape] at default
    exact .bind (default.trans (.handed inside (step_bindTo _ S.host .idle ..)
      ((ih inside .idle).trans (.handed above (step_guard S.host unspent ..) (.here _)))))
  | @defaultFails _ _ _ _ _ _ c shape ends =>
    have inside := above.trans (List.suffix_cons (.guard c.cell) _)
    have unspent := ends.saves.fresh (List.mem_cons_of_mem _ List.mem_cons_self) rfl
    have default := ends.thread (inside.trans (List.suffix_cons ..))
    rw [← bind_absent shape] at default
    exact .bind (default.trans (.handed inside (step_bindTo_failure ..)
      (.handed above (step_guard S.host unspent ..) (.here _))))
  | nullish shape nullish => exact .bind (bind_nullish shape nullish ▸ .here _)
  | @object _ _ _ _ _ target v _ shape present inner ih =>
    have unspent := inner.saves.fresh List.mem_cons_self rfl
    have parts := ih (above.trans (List.suffix_cons ..)) (.bind target v)
    rw [← bind_object shape present] at parts
    exact .bind (parts.trans (.handed above (step_guard S.host unspent ..) (.here _)))
  | unsupported other => exact .bind (bind_unsupported other ▸ .here _)
  | done => exact unpack_nil _ ▸ .here _
  | @next _ p _ _ _ _ u _ _ _ _ _ _ _ read _ _ ih ih' =>
    have rest := ih' above (.ret u .undefined)
    rw [conclude_tail p] at rest
    rw [unpack_next read]
    exact (ih (above.trans (List.suffix_cons ..)) control).trans (.handed above (step_supply ..) rest)
  | stops read _ ih =>
    rw [unpack_next read, conclude_failure]
    exact (ih (above.trans (List.suffix_cons ..)) control).trans
      (.handed above (step_supply_failure ..) (.here _))
  | refused failed =>
    rw [unpack_refused failed, conclude_failure]
    exact .here _

end Scene.Unpacks

/-! ## Following a binding -/

/-- A binding that a thread comes to ends as the law says, or the thread stalls in one of its
defaults. -/
theorem Route.Passes.unpack {S : Setup η} {base k : List Frame} {start : Point η} {b : Binding}
    {c : Scene η} {control : Control} {r : Route S base start} (h : r.Passes (c.unpack control k b))
    (above : base <:+ k) :
    (∃ acts o c', c.Unpacks S k b acts o c' ∧ r.Passes (c'.conclude k b o)) ∨
      r.Stalls k (.default · ∈ b.turns) := by
  -- binding goes down the pattern
  induction cost : b.cost using Nat.strong_induction_on generalizing control k b c with
  | _ n ih =>
  have deeper : ∀ f : Frame, base <:+ f :: k := fun f => above.trans (List.suffix_cons f k)
  cases b with
  | pattern target v =>
    have h := h.bind
    cases isPattern : target.node.shape.isPattern with
    | false =>
      rw [Scene.bind_unsupported isPattern] at h
      exact .inl ⟨_, _, _, .unsupported isPattern, h⟩
    | true =>
    cases shape : target.node.shape with
    | identifier name =>
      rw [Scene.bind_name shape] at h
      exact .inl ⟨_, _, _, .name shape, h⟩
    | assignmentPattern left right =>
      have smaller : left.bindingCost < n := cost ▸ bindingCost_default shape
      have turns := Site.turns_default shape
      have part : ∀ v', ∀ turn ∈ (Binding.pattern (target.part .target left) v').turns,
          turn ∈ (Binding.pattern target v).turns := by
        intro v' turn mem
        rw [Binding.turns, turns]
        exact List.mem_cons_of_mem _ mem
      by_cases absent : v = .undefined
      · subst absent
        rw [Scene.bind_absent shape] at h
        rcases h.eval (deeper _) with ⟨o, c₁, completes, there⟩ | stalls
        · cases o with
          | failure e =>
            have unspent := completes.saves.fresh (List.mem_cons_of_mem _ List.mem_cons_self) rfl
            have there := there.handed (deeper _) (Scene.step_bindTo_failure ..)
            exact .inl ⟨_, _, _, .defaultFails shape completes,
              there.handed above (Scene.step_guard S.host unspent ..)⟩
          | value u =>
            have there := there.handed (deeper _) (Scene.step_bindTo _ _ .idle ..)
            rcases ih _ smaller there (deeper _) rfl with ⟨acts, o, c₂, inner, there⟩ | stalls
            · have first := completes.saves.below (List.suffix_cons ..)
              have unspent := (first.trans inner.saves).fresh List.mem_cons_self rfl
              exact .inl ⟨_, _, _, .absent shape completes inner,
                there.handed above (Scene.step_guard S.host unspent ..)⟩
            · exact .inr (stalls.below [_] fun _ => part u _)
        · refine .inr (stalls.below [_] ?_)
          rintro site rfl
          rw [Binding.turns, turns]
          exact List.mem_cons_self
      · rw [Scene.bind_given shape absent] at h
        rcases ih _ smaller h above rfl with ⟨acts, o, c₁, inner, there⟩ | stalls
        · exact .inl ⟨_, _, _, .given shape absent inner, there⟩
        · exact .inr (stalls.below [] fun _ => part v _)
    | objectPattern properties =>
      cases nullish : v.isNullish with
      | true =>
        rw [Scene.bind_nullish shape nullish] at h
        exact .inl ⟨_, _, _, .nullish shape nullish, h⟩
      | false =>
        rw [Scene.bind_object shape nullish] at h
        have smaller : bindingCosts (target.items properties) < n :=
          cost ▸ Nat.lt_of_succ_le (Nat.le_of_succ_le (bindingCosts_object target shape))
        rcases ih _ smaller h (deeper _) rfl with ⟨acts, o, c₁, inner, there⟩ | stalls
        · have unspent := inner.saves.fresh List.mem_cons_self rfl
          exact .inl ⟨_, _, _, .object shape nullish inner,
            there.handed above (Scene.step_guard S.host unspent ..)⟩
        · refine .inr (stalls.below [_] fun site mem => ?_)
          rw [Binding.turns, Site.turns_object shape]
          exact List.mem_cons_of_mem _ mem
    | _ =>
      rw [shape] at isPattern
      cases isPattern
  | parts rest supply =>
  cases rest with
  | nil =>
    rw [Scene.unpack_nil] at h
    exact .inl ⟨_, _, _, .done, h⟩
  | cons p rest =>
    cases read : supply.next c.store p with
    | error e =>
      rw [Scene.unpack_refused read] at h
      exact .inl ⟨_, _, _, .refused read, Scene.conclude_failure .. ▸ h⟩
    | ok found =>
      obtain ⟨target, item, store⟩ := found
      rw [Scene.unpack_next read] at h
      have smaller := Supply.bindingCost_next read
      have turns := Binding.turns_cons rest read
      rw [Binding.cost, bindingCosts_cons] at cost
      rcases ih _ (show target.node.bindingCost < n by omega) h (deeper _) rfl with
        ⟨acts, o, c₁, first, there⟩ | stalls
      · cases o with
        | failure e =>
          have there := there.handed above (Scene.step_supply_failure ..)
          exact .inl ⟨_, _, _, .stops read first, Scene.conclude_failure .. ▸ there⟩
        | value u =>
          have there := there.handed above (Scene.step_supply ..)
          rcases ih _ (show bindingCosts rest < n by omega) there above rfl with
            ⟨acts', o, c₂, later, there⟩ | stalls
          · exact .inl ⟨_, _, _, .next read first later, Scene.conclude_tail .. ▸ there⟩
          · exact .inr (stalls.below [] fun _ mem => turns ▸ List.mem_append_right _ mem)
      · exact .inr (stalls.below [_] fun _ mem => turns ▸ List.mem_append_left _ mem)

end EcmaMachine
