import Mathlib.Data.List.Nodup
import Mathlib.Logic.Relation
import Mathlib.Tactic.IntervalCases
import EcmaMachine.Proofs.Dict
import EcmaMachine.Proofs.Growth

/-!
Names in scopes. A name means the binding in the nearest scope that has one, along the parents. What
is assigned to a name goes to that one binding, and shows from the scopes that see it and from no
others.
-/

namespace EcmaMachine

namespace Store

variable {s : Store} {id parent owner e : ScopeId} {name m : String} {v : Value}

/-! ## Parents -/

def IsChild (s : Store) (id parent : ScopeId) : Prop := (s.scope id).parent = some parent

/-- The second scope is the first, or one around it. -/
def Sees (s : Store) : ScopeId → ScopeId → Prop := Relation.ReflTransGen s.IsChild

/-- No scope is around itself. -/
def IsForest (s : Store) : Prop := ∀ id, ¬ Relation.TransGen s.IsChild id id

/-- On the way up from a scope, this one comes before all others that bind the name. -/
inductive Meets (s : Store) (name : String) (e : ScopeId) : ScopeId → Prop
  | here : Meets s name e e
  | above {id parent : ScopeId} (other : id ≠ e) (free : s.binds id name = false)
    (child : s.IsChild id parent) (meets : Meets s name e parent) : Meets s name e id

theorem isForest_of_lt (h : ∀ id parent, s.IsChild id parent → parent < id) : s.IsForest := by
  have further : ∀ id above, Relation.TransGen s.IsChild id above → above < id := by
    intro id above path
    induction path with
    | single child => exact h _ _ child
    | tail _ child ih => exact Nat.lt_trans (h _ _ child) ih
  exact fun id around => Nat.lt_irrefl id (further id id around)

theorem scope_of_le (le : s.scopes.size ≤ id) : s.scope id = default := by
  simp [scope, Array.getD_eq_getD_getElem?, Array.getElem?_eq_none le]

theorem lt_of_isChild (child : s.IsChild id parent) : id < s.scopes.size := by
  refine Nat.lt_of_not_le fun le => ?_
  rw [IsChild, scope_of_le le] at child
  cases child

theorem lt_of_binds (h : s.binds id name = true) : id < s.scopes.size := by
  refine Nat.lt_of_not_le fun le => ?_
  rw [binds, scope_of_le le] at h
  cases h

theorem lt_of_resolve (found : s.resolve? id name = some owner) : owner < s.scopes.size :=
  lt_of_binds (List.find?_some (p := (s.binds · name)) found)

/-! ## Chains -/

theorem walk_none (s : Store) (fuel : Nat) : chain.walk s fuel none = [] := by
  cases fuel <;> rfl

theorem find?_eq_resolve? (s : Store) (id : ScopeId) (name : String) :
    s.find? id name = (s.resolve? id name).bind (s.ownValue? · name) := by
  simp only [find?, resolve?]
  induction s.chain id with
  | nil => rfl
  | cons id rest ih =>
    have binds : s.binds id name = (s.ownValue? id name).isSome := rfl
    rw [List.findSome?_cons, List.find?_cons, binds]
    cases own : s.ownValue? id name with
    | none => exact ih
    | some v => exact own.symm

/-- The scopes that were passed are all below, so there is an end to them before the fuel is
spent. -/
theorem walk_of_enough (forest : s.IsForest) {fuel : Nat} {passed : List ScopeId}
    (nodup : passed.Nodup) (known : ∀ x ∈ passed, x < s.scopes.size)
    (below : ∀ x ∈ passed, Relation.TransGen s.IsChild x id)
    (enough : s.scopes.size < fuel + passed.length) :
    chain.walk s (fuel + 1) (some id) = chain.walk s fuel (some id) := by
  induction fuel generalizing id passed with
  | zero =>
    have := length_le_of_nodup nodup known
    omega
  | succ fuel ih =>
    rw [chain.walk, chain.walk]
    cases up : (s.scope id).parent with
    | none => rw [walk_none, walk_none]
    | some parent =>
      have fresh : id ∉ passed := fun mem => forest id (below id mem)
      rw [ih (List.nodup_cons.2 ⟨fresh, nodup⟩) (List.forall_mem_cons.2 ⟨lt_of_isChild up, known⟩)
        (List.forall_mem_cons.2 ⟨.single up, fun x mem => (below x mem).tail up⟩)]
      simp only [List.length_cons]
      omega

theorem chain_root (root : (s.scope id).parent = none) : s.chain id = [id] := by
  rw [chain, chain.walk, root, walk_none]

theorem chain_child (forest : s.IsForest) (child : s.IsChild id parent) :
    s.chain id = id :: s.chain parent := by
  have enough : s.scopes.size < s.scopes.size + [id].length := Nat.lt_succ_self _
  rw [chain, chain.walk, show (s.scope id).parent = some parent from child, chain,
    walk_of_enough forest (List.nodup_singleton id) (by simpa using lt_of_isChild child)
      (by simpa using Relation.TransGen.single child) enough]

/-- Whatever passes from parents to children holds of all scopes of a forest. -/
theorem IsForest.induction (forest : s.IsForest) {P : ScopeId → Prop}
    (root : ∀ id, (s.scope id).parent = none → P id)
    (child : ∀ id parent, s.IsChild id parent → P parent → P id) (id : ScopeId) : P id := by
  induction length : (s.chain id).length generalizing id with
  | zero => simp [chain, chain.walk] at length
  | succ n ih =>
    cases up : (s.scope id).parent with
    | none => exact root id up
    | some parent =>
      rw [chain_child forest up, List.length_cons] at length
      exact child id parent up (ih parent (Nat.succ.inj length))

theorem mem_chain (forest : s.IsForest) : owner ∈ s.chain id ↔ s.Sees id owner := by
  refine forest.induction (P := fun id => owner ∈ s.chain id ↔ s.Sees id owner)
    (fun id root => ?_) (fun id parent child ih => ?_) id
  · rw [chain_root root, List.mem_singleton]
    refine ⟨fun same => same ▸ .refl, fun sees => ?_⟩
    rcases sees.cases_head with same | ⟨parent, child, -⟩
    · exact same.symm
    · cases root.symm.trans child
  · rw [chain_child forest child, List.mem_cons, ih]
    refine ⟨fun mem => ?_, fun sees => ?_⟩
    · rcases mem with same | sees
      · exact same ▸ .refl
      · exact .head child sees
    · rcases sees.cases_head with same | ⟨parent', child', sees⟩
      · exact .inl same.symm
      · cases child.symm.trans child'
        exact .inr sees

/-- The first scope of the chain that is `e` or binds the name. -/
theorem meets_iff (forest : s.IsForest) : s.Meets name e id ↔
    (s.chain id).find? (fun x => x == e || s.binds x name) = some e := by
  refine forest.induction (P := fun id => s.Meets name e id ↔
    (s.chain id).find? (fun x => x == e || s.binds x name) = some e)
    (fun id root => ?_) (fun id parent child ih => ?_) id
  · by_cases same : id = e
    · subst same
      exact iff_of_true .here (by simp [chain_root root])
    · refine iff_of_false (fun meets => ?_) ?_
      · cases meets with
        | here => exact same rfl
        | above _ _ child => cases root.symm.trans child
      · simp [chain_root root, List.find?_singleton, same]
  · rw [chain_child forest child, List.find?_cons]
    by_cases same : id = e
    · subst same
      exact iff_of_true .here (by simp)
    · cases bound : s.binds id name with
      | true =>
        refine iff_of_false (fun meets => ?_) (by simpa using same)
        cases meets with
        | here => exact same rfl
        | above _ free => cases bound.symm.trans free
      | false =>
        simp only [beq_eq_false_iff_ne.2 same, Bool.or_false]
        refine Iff.trans ⟨fun meets => ?_, .above same bound child⟩ ih
        cases meets with
        | here => exact (same rfl).elim
        | above _ _ child' meets =>
          cases child.symm.trans child'
          exact meets

theorem or_binds (bound : s.binds owner name = true) :
    (fun x => x == owner || s.binds x name) = (s.binds · name) := by
  funext x
  by_cases same : x = owner
  · simp [same, bound]
  · simp [same]

theorem resolve?_eq_some_iff (forest : s.IsForest) : s.resolve? id name = some owner ↔
    s.binds owner name = true ∧ s.Meets name owner id := by
  rw [meets_iff forest, resolve?]
  refine ⟨fun found => ?_, fun met => by rw [← or_binds met.1]; exact met.2⟩
  have bound : s.binds owner name = true := List.find?_some (p := (s.binds · name)) found
  exact ⟨bound, by rwa [or_binds bound]⟩

/-! ## Declaring -/

theorem scope_modifyScope (known : owner < s.scopes.size) (f : Scope → Scope) (id : ScopeId) :
    (s.modifyScope owner f).scope id = if id = owner then f (s.scope owner) else s.scope id := by
  simp only [modifyScope, scope, Array.getD_eq_getD_getElem?, Array.getElem?_modify, eq_comm]
  split
  · next same => simp [← same, Array.getElem?_eq_getElem known]
  · rfl

theorem parent_declare (s : Store) (owner id : ScopeId) (name : String) (v : Value) :
    ((s.declare owner name v).scope id).parent = (s.scope id).parent := by
  simp only [declare, modifyScope, scope, Array.getD_eq_getD_getElem?, Array.getElem?_modify]
  split
  · cases s.scopes[id]? <;> rfl
  · rfl

theorem chain_declare (s : Store) (owner id : ScopeId) (name : String) (v : Value) :
    (s.declare owner name v).chain id = s.chain id := by
  have size : (s.declare owner name v).scopes.size = s.scopes.size := by
    simp [declare, modifyScope]
  simp only [chain, size, chain_walk_eq, parent_declare]

theorem ownValue?_declare (known : owner < s.scopes.size) (id : ScopeId) (m name : String)
    (v : Value) : (s.declare owner name v).ownValue? id m =
      if id = owner ∧ m = name then some v else s.ownValue? id m := by
  rw [ownValue?, declare, scope_modifyScope known]
  by_cases same : id = owner
  · simp [same, Dict.get?_set_eq, ownValue?]
  · simp [same, ownValue?]

theorem findSome?_update {ids : List ScopeId} {f : ScopeId → Option Value} :
    ids.findSome? (fun x => if x = owner then some v else f x) =
      if ids.find? (fun x => x == owner || (f x).isSome) = some owner then some v
      else ids.findSome? f := by
  induction ids with
  | nil => rfl
  | cons x ids ih =>
    by_cases same : x = owner
    · simp [same]
    · cases found : f x with
      | none => simp [same, found, ih]
      | some w => simp [same, found]

/-- What is declared shows where the scope is met before any that binds the name. -/
theorem find?_declare (known : owner < s.scopes.size) (id : ScopeId) (m name : String) (v : Value) :
    (s.declare owner name v).find? id m =
      if m = name ∧ (s.chain id).find? (fun x => x == owner || s.binds x name) = some owner
      then some v else s.find? id m := by
  rw [find?, chain_declare, find?]
  simp only [ownValue?_declare known]
  by_cases named : m = name
  · subst named
    simp only [and_true, true_and]
    exact findSome?_update
  · simp [named]

/-- Where a name was found, it is found again after it has got another value. -/
theorem find?_declare_self (found : s.resolve? id name = some owner) (v : Value) :
    (s.declare owner name v).find? id name = some v := by
  have bound : s.binds owner name = true := List.find?_some (p := (s.binds · name)) found
  rw [find?_declare (lt_of_binds bound), or_binds bound, if_pos ⟨rfl, found⟩]

theorem binds_declare (known : owner < s.scopes.size) (id : ScopeId) (m name : String) (v : Value) :
    (s.declare owner name v).binds id m = (s.binds id m || (id == owner && m == name)) := by
  have own : ∀ s : Store, s.binds id m = (s.ownValue? id m).isSome := fun _ => rfl
  rw [own, own, ownValue?_declare known]
  by_cases both : id = owner ∧ m = name
  · simp [both]
  · rw [if_neg both]
    simp only [not_and] at both
    by_cases same : id = owner
    · simp [same, both same]
    · simp [same]

/-- The name has the value wherever the scope is met first, and nothing else is found otherwise. -/
def Shows (s : Store) (owner : ScopeId) (name : String) (v : Value) (s' : Store) : Prop :=
  ∀ id m, (m = name ∧ s.Meets name owner id → s'.find? id m = some v) ∧
    (¬ (m = name ∧ s.Meets name owner id) → s'.find? id m = s.find? id m)

theorem shows_declare (forest : s.IsForest) (known : owner < s.scopes.size) (name : String)
    (v : Value) : s.Shows owner name v (s.declare owner name v) := by
  intro id m
  rw [find?_declare known, meets_iff forest]
  exact ⟨fun both => if_pos both, fun other => if_neg other⟩

end Store

/-- An assignment goes well if and only if a scope that is seen binds the name. Then the name has
the value wherever it means that binding; nothing else changes, and no scope gets a name. An
assignment that fails leaves the store as it was. What is declared shows where its scope is met
first. -/
theorem assignment_touches_one_binding {η : Type} {s : Store} (forest : s.IsForest) (e : ScopeId)
    (name : String) (v : Value) :
    ((s.assign? e name v).isSome = true ↔ ∃ owner, s.Sees e owner ∧ s.binds owner name = true) ∧
      (∀ s', s.assign? e name v = some s' →
        ∃ owner, s.binds owner name = true ∧ s.Meets name owner e ∧ s.Shows owner name v s' ∧
          ∀ id m, s'.binds id m = s.binds id m) ∧
      (∀ (state : State η) (result : Value), state.store = s →
        (state.assign e name v result).store = (s.assign? e name v).getD s) ∧
      (e < s.scopes.size → s.Shows e name v (s.declare e name v) ∧
        ∀ id m, (s.declare e name v).binds id m = (s.binds id m || (id == e && m == name))) := by
  refine ⟨?_, fun s' assigned => ?_, fun state result same => ?_, fun known => ?_⟩
  · rw [Store.assign?, Option.isSome_map, Store.resolve?, List.find?_isSome]
    simp only [Store.mem_chain forest]
  · obtain ⟨owner, found, rfl⟩ := Option.map_eq_some_iff.1 assigned
    obtain ⟨bound, met⟩ := (Store.resolve?_eq_some_iff forest).1 found
    have known := Store.lt_of_binds bound
    refine ⟨owner, bound, met, Store.shows_declare forest known name v, fun id m => ?_⟩
    rw [Store.binds_declare known]
    by_cases own : id = owner
    · by_cases named : m = name
      · rw [own, named, bound, Bool.true_or]
      · simp [named]
    · simp [own]
  · subst same
    rw [State.assign, Store.assign?]
    cases state.store.resolve? e name <;> rfl
  · exact ⟨Store.shows_declare forest known name v,
      fun id m => Store.binds_declare known id m name v⟩

namespace Sample

/-- A scope with two inside it, one of which has a name of its own. -/
def grove : Store where
  objects := #[]
  arrays := #[]
  functions := #[]
  scopes := #[{ (default : Scope) with values := ⟨[("x", .null)]⟩ },
    { (default : Scope) with values := ⟨[("x", .bool true)]⟩, parent := some 0 },
    { (default : Scope) with values := ⟨[("y", .null)]⟩, parent := some 0 }]
  references := #[]

theorem grove_isForest : grove.IsForest := by
  refine Store.isForest_of_lt fun id parent child => ?_
  have lt : id < 3 := Store.lt_of_isChild child
  interval_cases id
  · cases child
  · cases child
    decide
  · cases child
    decide

/-- The name is the outer one from the third scope, and stays another one from the second. -/
theorem grove_touches_one_binding : grove.IsForest ∧
    ∃ s', grove.assign? 2 "x" .undefined = some s' ∧ s'.find? 0 "x" = some .undefined ∧
      s'.find? 1 "x" = some (.bool true) ∧ s'.find? 2 "y" = some .null ∧
      (grove.declare 2 "x" .undefined).find? 0 "x" = some .null := by
  obtain ⟨goes, shows, -, declared⟩ :=
    assignment_touches_one_binding (η := Unit) grove_isForest 2 "x" .undefined
  have outer : grove.IsChild 2 0 := rfl
  obtain ⟨s', assigned⟩ := Option.isSome_iff_exists.1 (goes.2 ⟨0, .single outer, by decide⟩)
  obtain ⟨owner, bound, met, shown, -⟩ := shows s' assigned
  have own : owner = 0 := by
    cases met with
    | here => cases bound
    | above _ _ child met =>
      cases child
      cases met with
      | here => rfl
      | above _ _ child => cases child
  subst own
  refine ⟨grove_isForest, s', assigned, (shown 0 "x").1 ⟨rfl, .here⟩, (shown 1 "x").2 ?_,
    (shown 2 "y").2 (by simp), ((declared (by decide)).1 0 "x").2 ?_⟩
  · rintro ⟨-, _ | ⟨_, free⟩⟩
    cases free
  · rintro ⟨-, _ | ⟨_, _, child⟩⟩
    cases child

end Sample

end EcmaMachine
