import EcmaMachine.Proofs.Binding.Turns
import EcmaMachine.Proofs.Loops.Law

/-!
What the rounds of a loop amount to: which items they take, which scopes they have, and how the loop
comes to its end. The main result is `loops_follow_snapshots`.
-/

namespace EcmaMachine

variable {η : Type}

/-! ## Items and scopes -/

/-- The target has the item when the body begins. -/
def Loop.HasItem (loop : Loop) (r : Round) : Prop :=
  match loop.target with
  | .assign name => r.scope = loop.site.scope ∧ r.store.find? loop.site.scope name = some r.item
  | .declare pattern => ∀ name, pattern.shape = .identifier name →
    r.store.ownValue? r.scope name = some r.item ∧ r.store.find? r.scope name = some r.item

namespace Store

/-- Scopes and names stay. -/
def KeepsNames (s s' : Store) : Prop := s.Declared (fun _ _ => True) s'

variable {s s' s'' : Store} {id : ScopeId} {name : String} {v : Value} {rounds : List Round}
  {r : Round}

theorem KeepsNames.trans (h : s.KeepsNames s') (h' : s'.KeepsNames s'') : s.KeepsNames s'' :=
  Declared.trans h (fun _ _ => id) h'

theorem find?_of_ownValue? (own : s.ownValue? id name = some v) : s.find? id name = some v := by
  simp [find?, chain, chain.walk, own]

theorem resolve?_of_binds (own : s.binds id name = true) : s.resolve? id name = some id := by
  simp [resolve?, chain, chain.walk, own]

/-- Every round has had a scope of its own, made when it began; the scopes and names of its store
are still there, whatever came later. -/
structure Separate (s : Store) (rounds : List Round) (s' : Store) : Prop where
  keeps : s.KeepsNames s'
  fresh : ∀ r ∈ rounds, s.scopes.size ≤ r.scope ∧ r.scope < r.store.scopes.size
  apart : rounds.Pairwise fun r r' => r.store.scopes.size ≤ r'.scope
  kept : ∀ r ∈ rounds, r.store.KeepsNames s'

theorem Separate.resolves (h : s.Separate rounds s') (mem : r ∈ rounds)
    (bound : r.store.binds r.scope name = true) : s'.resolve? r.scope name = some r.scope :=
  resolve?_of_binds ((h.kept r mem).bound r.scope name bound)

theorem Separate.nil (h : s.KeepsNames s') : s.Separate [] s' where
  keeps := h
  fresh := List.forall_mem_nil _
  apart := .nil
  kept := List.forall_mem_nil _

theorem Separate.cons (first : s.KeepsNames r.store) (fresh : r.scope = s.scopes.size)
    (known : r.scope < r.store.scopes.size) (between : r.store.KeepsNames s')
    (later : s'.Separate rounds s'') : s.Separate (r :: rounds) s'' where
  keeps := (first.trans between).trans later.keeps
  fresh := by
    refine List.forall_mem_cons.2 ⟨⟨Nat.le_of_eq fresh.symm, known⟩, fun r' mem => ?_⟩
    obtain ⟨le, lt⟩ := later.fresh r' mem
    exact ⟨Nat.le_trans (first.trans between).larger le, lt⟩
  apart := by
    refine .cons (fun r' mem => ?_) later.apart
    exact Nat.le_trans between.larger (later.fresh r' mem).1
  kept := List.forall_mem_cons.2 ⟨between.trans later.keeps, later.kept⟩

end Store

namespace Scene

variable {S : Setup η} {loop : Loop} {site inner : Site} {body : Node} {k : List Frame}
  {item : Value} {items : List Value} {c c' : Scene η} {failed : Option Exception} {o : Outcome}
  {rounds : List Round} {extent : Extent}

/-! ### Scopes -/

section

variable (plainHost : S.host.DeclaresNothing)
  (meanwhile : ∀ p q, S.others p q → p.2.store.KeepsNames q.2.store)
include plainHost meanwhile

theorem Completes.keepsNames (h : c.Completes S k site o c') : c.store.KeepsNames c'.store :=
  h.declared plainHost meanwhile fun _ _ _ _ _ => trivial

theorem Traverses.keepsNames {slot : Slot} (h : c.Traverses S k site slot body o c') :
    c.store.KeepsNames c'.store := by
  have told : ∀ (c : Scene η) stage, (c.tell site (some slot) stage).store = c.store :=
    fun c stage => World.tell_store ..
  cases h with
  | entered _ ends =>
    have inside := ends.keepsNames plainHost meanwhile
    rw [told] at inside ⊢
    exact inside
  | refused =>
    rw [told, told]
    exact Store.declared_refl _ _

theorem Unpacks.keepsNames {b : Binding} {acts : List Act} (h : c.Unpacks S k b acts o c') :
    c.store.KeepsNames c'.store := by
  have guarded : ∀ (c : Scene η) cell o, (c.guarded cell o).store = c.store :=
    fun c cell o => c.world.store_guarded cell o
  induction h with
  | @name _ v _ _ c => exact c.store.declared_declare trivial v
  | given _ _ _ ih => exact ih
  | absent _ ends _ ih =>
    rw [guarded]
    exact (ends.keepsNames plainHost meanwhile).trans ih
  | defaultFails _ ends =>
    have default := ends.keepsNames plainHost meanwhile
    rw [guarded]
    exact default
  | object _ _ _ ih =>
    rw [guarded]
    exact ih
  | next read _ _ ih ih' => exact Store.KeepsNames.trans (Supply.declared_next read) (ih.trans ih')
  | stops read _ ih => exact Store.KeepsNames.trans (Supply.declared_next read) ih
  | nullish | unsupported | done | refused => exact Store.declared_refl _ _

/-- A target that is declared takes its item in a new scope. -/
theorem Readies.separate {pattern : Node} (h : c.Readies S loop k item items failed inner c')
    (target : loop.target = .declare pattern) :
    c.store.KeepsNames c'.store ∧ inner.scope = c.store.scopes.size ∧
      inner.scope < c'.store.scopes.size := by
  cases h with
  | assigned other | unbound other => cases target.symm.trans other
  | declared _ unpacks =>
    have first : c.store.KeepsNames (c.store.childScope loop.site.scope []).2 :=
      (Region.emptyScope (R := .named (fun _ _ => True) c.store 0) (Store.declared_refl _ _)
        trivial).1.keeps
    have size : c.store.scopes.size < (c.store.childScope loop.site.scope []).2.scopes.size := by
      simp [Store.childScope, Store.newScope]
    have later := unpacks.keepsNames plainHost meanwhile
    exact ⟨first.trans later, rfl, Nat.lt_of_lt_of_le size later.larger⟩

theorem Iterates.separate {pattern : Node} (h : c.Iterates S loop k items rounds extent c')
    (target : loop.target = .declare pattern) : c.store.Separate rounds c'.store := by
  induction h with
  | here | exhausted => exact .nil (Store.declared_refl _ _)
  | unready readies => exact .nil (readies.separate plainHost meanwhile target).1
  | left readies visits =>
    obtain ⟨first, fresh, known⟩ := readies.separate plainHost meanwhile target
    exact .cons first fresh known (visits.keepsNames plainHost meanwhile)
      (.nil (Store.declared_refl _ _))
  | round readies visits _ _ ih =>
    obtain ⟨first, fresh, known⟩ := readies.separate plainHost meanwhile target
    exact .cons first fresh known (visits.keepsNames plainHost meanwhile) ih

end

/-! ### Items -/

theorem Readies.hasItem (h : c.Readies S loop k item items failed inner c') (ready : failed = none)
    (o : Outcome) : loop.HasItem ⟨item, inner.scope, c'.store, o⟩ := by
  cases h with
  | assigned target found =>
    obtain ⟨owner, resolved, rfl⟩ := Option.map_eq_some_iff.1 found
    simp only [Loop.HasItem, target]
    exact ⟨trivial, Store.find?_declare_self resolved item⟩
  | unbound => cases ready
  | declared target unpacks =>
    simp only [Loop.HasItem, target]
    intro name shape
    cases unpacks with
    | name own =>
      cases own.symm.trans shape
      have lt : (loop.site.anew c.store).scope <
          (c.store.childScope loop.site.scope []).2.scopes.size := by
        simp [Site.anew, Store.childScope, Store.newScope]
      have own := (Store.ownValue?_declare lt _ name name item).trans (if_pos ⟨rfl, rfl⟩)
      exact ⟨own, Store.find?_of_ownValue? own⟩
    | given other | absent other | object other => cases other.symm.trans shape
    | defaultFails | nullish | unsupported => cases ready

theorem Iterates.hasItem (h : c.Iterates S loop k items rounds extent c') :
    ∀ r ∈ rounds, loop.HasItem r := by
  induction h with
  | here | exhausted | unready => exact List.forall_mem_nil _
  | left readies => exact List.forall_mem_singleton.2 (readies.hasItem rfl _)
  | round readies _ _ _ ih => exact List.forall_mem_cons.2 ⟨readies.hasItem rfl _, ih⟩

theorem Iterates.items_prefix (h : c.Iterates S loop k items rounds extent c') :
    rounds.map (·.item) <+: items := by
  induction h with
  | here | exhausted | unready => exact List.nil_prefix
  | left => exact (List.prefix_cons_inj _).2 List.nil_prefix
  | round _ _ _ _ ih => exact (List.prefix_cons_inj _).2 ih

end Scene

/-- Loops over the keys or the elements of a value, in which calls may be answered later while others
run. Where the statement is let in, it ends with an outcome if and only if it does so by its rounds,
above whatever frames; the rounds go through the list that was made of the value before the first of
them. From wherever it is, it goes on to such an end, unless its right side or its next round has
none. Each body is run with its item in the target; if the target is declared, each round has its
own variable, which is still the one to be found from the scope of the round when the loop is over. -/
theorem loops_follow_snapshots (S : Setup η) (c : Scene η) (loop : Loop) (kind : Sweep)
    {left right : Node} (shape : loop.site.node.shape = kind.statement left right loop.body)
    (head : loopTarget left = .ok loop.target)
    (admitted : (c.world.tell loop.site none .enter).1 = none) (k : List Frame) :
    (∀ o c', c.Completes S k loop.site o c' ↔
      ∃ rounds, c.Sweeps S kind loop right k rounds o c') ∧
    (∀ r : Route S k (c.put (.eval loop.site) k),
      (∃ rounds o c', c.Sweeps S kind loop right k rounds o c' ∧ Thread S k r.goal (c'.hand k o)) ∨
      ¬ r.goal.2.Hands k ∧ r.Hangs kind loop right c) ∧
    ∀ (fs : List Frame) (items : List Value) (c₁ : Scene η) (rounds : List Round) (extent : Extent)
      (c' : Scene η), c₁.Iterates S loop fs items rounds extent c' →
      rounds.map (·.item) <+: items ∧ (∀ r ∈ rounds, loop.HasItem r) ∧
      (S.host.DeclaresNothing → (∀ p q, S.others p q → p.2.store.KeepsNames q.2.store) →
        ∀ pattern, loop.target = .declare pattern →
          c₁.store.Separate rounds c'.store ∧ ∀ r ∈ rounds, ∀ name,
            r.store.binds r.scope name = true → c'.store.resolve? r.scope name = some r.scope) := by
  refine ⟨fun o c' => ⟨fun completes => ?_, ?_⟩, fun r => r.sweep shape head admitted,
    fun fs items c₁ rounds extent c' iterates => ⟨iterates.items_prefix, iterates.hasItem, ?_⟩⟩
  · have hands := c'.hands_hand k o
    rcases Route.sweep shape head admitted ⟨_, completes, hands.active⟩ with
      ⟨rounds, o₁, c₁, sweeps, later⟩ | ⟨busy, -⟩
    · obtain ⟨rfl, rfl⟩ := Scene.hand_inj (later.of_hands hands)
      exact ⟨rounds, sweeps⟩
    · exact absurd hands busy
  · rintro ⟨rounds, sweeps⟩
    exact sweeps.run shape head admitted
  · intro plainHost meanwhile pattern target
    have separate := iterates.separate plainHost meanwhile target
    exact ⟨separate, fun r mem name bound => separate.resolves mem bound⟩

namespace Sample

/-- `for (const x in o) delete o.b` -/
def clearing : Loop :=
  let o := .mk (.identifier "o") none
  let x := .mk (.identifier "x") none
  let b := .mk (.memberExpression o (.mk (.identifier "b") none) false) none
  let body := .mk (.expressionStatement (.mk (.unaryExpression .delete b true) none)) none
  let left := .mk (.variableDeclaration [.mk (.variableDeclarator x none) none] .const) none
  ⟨⟨.root (.single 0) (.mk (.forInStatement left o body) none), 0, .plain⟩, .declare x, body⟩

def clearingWorld : World Unit :=
  let (o, store) := Store.empty.newObject (.ofEntries [("a", .null), ("b", .null)]) none
  let (_, store) := store.rootScope [("o", .object o)]
  { World.start () with store }

/-- The first round takes away the key of the second. -/
theorem clearing_follows_snapshot :
    let c : Scene Unit := ⟨.empty, [], clearingWorld⟩
    (clearingWorld.tell clearing.site none .enter).1 = none ∧
    ∃ left right, clearing.site.node.shape = Sweep.keys.statement left right clearing.body ∧
      loopTarget left = .ok clearing.target ∧
      ∃ rounds o c', c.Sweeps (.still host) .keys clearing right [] rounds o c' := by
  intro c
  have prompt : host.Prompt True := fun _ _ _ _ _ _ => trivial
  have halts : ∃ i l' s', Ledger.empty.after host i ⟨.eval clearing.site, [], [], clearingWorld⟩ =
      some (l', s') ∧ s'.Hands [] := exists_hands (i := 46) (by rfl)
  have start : Thread.Stands [] [] [] (c.state (.eval clearing.site) []) :=
    c.stands_eval clearing.site ⟨.nil, List.forall_mem_nil _⟩
  obtain ⟨r, hands⟩ : ∃ r : Route (.still host) [] (c.put (.eval clearing.site) []), r.goal.2.Hands [] :=
    Thread.exists_route start rfl (fun _ => rfl) prompt halts
  rcases (loops_follow_snapshots (.still host) c clearing .keys rfl rfl rfl []).2.1 r with
    ⟨rounds, o, c', sweeps, -⟩ | ⟨busy, -⟩
  · exact ⟨rfl, _, _, rfl, rfl, rounds, o, c', sweeps⟩
  · exact absurd hands busy

end Sample

end EcmaMachine
