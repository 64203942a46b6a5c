import Mathlib.Data.List.Chain
import Mathlib.Logic.Relation
import EcmaMachine.Proofs.Classes.Assembly
import EcmaMachine.Proofs.Growth
import EcmaMachine.Proofs.Region.Step

/-!
Prototype chains in the store. No object gets onto its own chain: new objects have prototypes that
were there before them, and an object that gets another prototype is one that nobody inherits from.
So every walk along a chain ends.
-/

namespace EcmaMachine

variable {s : Store}

/-- The place is in the store. Scopes are not asked about. -/
def Address.LivesIn (s : Store) : Address → Prop
  | .scope _ => True
  | .object id => id < s.objects.size
  | .array id => id < s.arrays.size
  | .function id => id < s.functions.size

theorem Address.livesIn_of_not_lacks {p : Address} (h : ¬ s.Lacks p) : p.LivesIn s := by
  cases p with
  | scope id => trivial
  | _ => exact Nat.lt_of_not_le h

theorem Address.LivesIn.grows {s' : Store} {p : Address} (h : p.LivesIn s)
    (larger : ∀ q, s'.Lacks q → s.Lacks q) : p.LivesIn s' := by
  cases p with
  | scope id => trivial
  | object id => exact Nat.lt_of_not_le fun lacks => Nat.not_le_of_lt h (larger (.object id) lacks)
  | array id => exact Nat.lt_of_not_le fun lacks => Nat.not_le_of_lt h (larger (.array id) lacks)
  | function id =>
    exact Nat.lt_of_not_le fun lacks => Nat.not_le_of_lt h (larger (.function id) lacks)

theorem Value.livesIn_iff {v : Value} : v.LivesIn s ↔ ∀ p, v.address? = some p → p.LivesIn s := by
  cases v <;> simp [LivesIn, address?, Address.LivesIn]

/-! ## Chains -/

section Relation

variable {α : Type} {r r' : α → α → Prop} {good : α → Prop}

/-- Every step of `r'` leads to a good place, and from good places it is a step of `r`. -/
theorem transGen_of_good (step : ∀ a b, r' a b → good b ∧ (good a → r a b)) {a b : α}
    (path : Relation.TransGen r' a b) : good b ∧ (good a → Relation.TransGen r a b) := by
  induction path with
  | single last => exact ⟨(step _ _ last).1, fun start => .single ((step _ _ last).2 start)⟩
  | tail _ last ih =>
    exact ⟨(step _ _ last).1, fun start => (ih.2 start).tail ((step _ _ last).2 ih.1)⟩

/-- So a circle of `r'` is one of `r`. -/
theorem not_transGen_of_good (step : ∀ a b, r' a b → good b ∧ (good a → r a b))
    (acyclic : ∀ a, ¬ Relation.TransGen r a a) (a : α) : ¬ Relation.TransGen r' a a := by
  intro path
  obtain ⟨start, before⟩ := transGen_of_good step path
  exact acyclic a (before start)

end Relation

namespace Store

variable {s s' : Store}

/-- The second object is the prototype of the first. -/
def Inherits (s : Store) (o p : ObjectId) : Prop := (s.object o).prototype = some p

instance (s : Store) (o p : ObjectId) : Decidable (s.Inherits o p) :=
  inferInstanceAs (Decidable (_ = _))

/-- What has a handle is in the store, and no object is on its own prototype chain. -/
structure Rooted (s : Store) : Prop where
  live : ∀ p v, (s.content p).Has v → v.LivesIn s
  linked : ∀ o p, s.Inherits o p → p < s.objects.size
  acyclic : ∀ o, ¬ Relation.TransGen s.Inherits o o

namespace Rooted

theorem closed (h : s.Rooted) {p q : Address} (leads : (s.content p).Leads q) : q.LivesIn s := by
  generalize same : s.content p = c at leads
  cases leads with
  | value has address => exact Value.livesIn_iff.1 (h.live p _ (same ▸ has)) q address
  | parent found => trivial
  | prototype found =>
    cases p with
    | object o =>
      cases same
      exact h.linked o _ found
    | _ => cases same
  | captured => trivial

/-- Objects that were there keep their prototypes, and all prototypes were there. -/
theorem of_kept (h : s.Rooted) (live : ∀ p v, (s'.content p).Has v → v.LivesIn s')
    (larger : s.objects.size ≤ s'.objects.size)
    (linked : ∀ o p, s'.Inherits o p → p < s.objects.size ∧ (o < s.objects.size → s.Inherits o p)) :
    s'.Rooted where
  live := live
  linked o p inherits := Nat.lt_of_lt_of_le (linked o p inherits).1 larger
  acyclic := not_transGen_of_good linked h.acyclic

/-- An object that nobody inherits from gets another prototype. -/
theorem setPrototype (h : s.Rooted) {id p : ObjectId} (known : p < s.objects.size) (other : id ≠ p)
    (unused : ∀ o, ¬ s.Inherits o id) : (s.setPrototype id (some p)).Rooted := by
  have writes := s.writes_modifyObject id fun o => { o with prototype := some p }
  have step : ∀ a b, (s.setPrototype id (some p)).Inherits a b →
      b ≠ id ∧ (a ≠ id → s.Inherits a b) ∧ b < s.objects.size := by
    intro a b inherits
    rcases getD_modify s.objects id a (fun o => { o with prototype := some p }) default with
      same | ⟨there, written⟩
    · have before : s.Inherits a b := (congrArg Object.prototype same).symm.trans inherits
      exact ⟨fun own => unused a (own ▸ before), fun _ => before, h.linked a b before⟩
    · have now : some p = some b := (congrArg Object.prototype written).symm.trans inherits
      cases now
      exact ⟨other.symm, fun away => absurd there away, known⟩
  have grows : ∀ q : Address, q.LivesIn s → q.LivesIn (s.setPrototype id (some p)) :=
    fun q lives => lives.grows writes.larger
  refine ⟨fun q v has => ?_, fun a b inherits => grows (.object b) (step a b inherits).2.2, ?_⟩
  · have lives : v.LivesIn s := by
      rcases writes.content q with same | ⟨rfl, there⟩
      · exact h.live q v (same ▸ has)
      · rw [Store.setPrototype, there] at has
        cases has with
        | property found => exact h.live (.object id) v (.property found)
    exact Value.livesIn_iff.2 fun q address => grows q (Value.livesIn_iff.1 lives q address)
  · exact not_transGen_of_good (fun a b inherits => ⟨(step a b inherits).1, (step a b inherits).2.1⟩)
      h.acyclic

theorem edit (h : s.Rooted) {declares : ScopeId → String → Prop}
    (edit : s.Edit (Address.LivesIn s) declares
      (fun id p => id ≠ p ∧ p < s.objects.size ∧ ∀ o, ¬ s.Inherits o id) s') : s'.Rooted := by
  rcases edit.linked with kept | ⟨id, p, ⟨other, known, unused⟩, rfl⟩
  · have leads : ∀ p q, (s'.content p).Leads q → q.LivesIn s := by
      intro p q leads
      rcases edit.leads p with same | held
      · exact h.closed (same ▸ leads)
      · exact held q leads
    refine h.of_kept (fun p v has => ?_) ?_ fun o p inherits => ?_
    · exact Value.livesIn_iff.2 fun q address => (leads p q (.value has address)).grows edit.larger
    · exact edit.larger (.object s'.objects.size) (Nat.le_refl s'.objects.size)
    · refine ⟨leads (.object o) _ (.prototype inherits), fun known => ?_⟩
      exact (kept o (Nat.not_le_of_lt known)).symm.trans inherits
  · exact h.setPrototype known other unused

end Rooted

/-! ## Walks -/

/-- A walk along the prototypes ends where there are none, or it is cut after so many. -/
theorem lineage_walk_cases (s : Store) (fuel : Nat) (id : ObjectId) :
    (∃ last, (lineage.walk s (fuel + 1) (some id)).getLast? = some last ∧
      (s.object last).prototype = none) ∨
    ∃ chain, chain.length = fuel + 1 ∧ (id :: chain).IsChain s.Inherits := by
  induction fuel generalizing id with
  | zero =>
    cases next : (s.object id).prototype with
    | none => exact .inl ⟨id, rfl, next⟩
    | some p => exact .inr ⟨[p], rfl, .cons_cons next (.singleton p)⟩
  | succ fuel ih =>
    cases next : (s.object id).prototype with
    | none => exact .inl ⟨id, by simp [lineage.walk, next], next⟩
    | some p =>
      rcases ih p with ⟨last, ends, none⟩ | ⟨chain, length, links⟩
      · refine .inl ⟨last, ?_, none⟩
        rw [lineage.walk, next, List.getLast?_cons, ends]
        rfl
      · exact .inr ⟨p :: chain, by simp [length], .cons_cons next links⟩

/-- In a store of so many objects no chain has more links. -/
theorem Rooted.length_le (h : s.Rooted) {id : ObjectId} {chain : List ObjectId}
    (links : (id :: chain).IsChain s.Inherits) : chain.length ≤ s.objects.size := by
  have further : (id :: chain).Pairwise (Relation.TransGen s.Inherits) :=
    (links.imp fun _ _ => .single).pairwise
  have nodup : chain.Nodup := by
    refine further.of_cons.imp ?_
    rintro o _ path rfl
    exact h.acyclic o path
  have known : ∀ p ∈ chain, p < s.objects.size := by
    intro p mem
    obtain ⟨o, -, inherits⟩ := Relation.TransGen.tail'_iff.1 ((List.pairwise_cons.1 further).1 p mem)
    exact h.linked o p inherits
  exact length_le_of_nodup nodup known

/-- The walk is never cut: it ends at an object that has no prototype. -/
theorem Rooted.lineage_ends (h : s.Rooted) (id : ObjectId) :
    ∃ last, (s.lineage id).getLast? = some last ∧ (s.object last).prototype = none := by
  refine (s.lineage_walk_cases s.objects.size id).resolve_right ?_
  rintro ⟨chain, length, links⟩
  have := h.length_le links
  omega

end Store

/-! ## Regions -/

/-- All that is in the store, as long as no object is on its own prototype chain. -/
def Region.live : Region where
  holds := Address.LivesIn
  declares _ _ := True
  links s id p := id ≠ p ∧ p < s.objects.size ∧ ∀ o, ¬ s.Inherits o id
  keeps := Store.Rooted
  since := 0
  grows larger lives := lives.grows larger
  fresh _ _ made := Address.livesIn_of_not_lacks made
  anew _ _ := trivial
  closed k _ leads := k.closed leads
  edit k edit := k.edit edit

theorem Region.live_has {v : Value} : Region.live.Has s v ↔ v.LivesIn s :=
  Value.livesIn_iff.symm

/-! ## Classes -/

namespace Store

variable {s s' : Store} {f g : FunctionId}

theorem exists_push_of_createFunction {spot : Spot} {scope : ScopeId}
    (made : s.createFunction spot scope = .ok (f, s')) :
    f = s.functions.size ∧ ∃ c, s'.functions = s.functions.push ⟨.closure c, .empty⟩ := by
  unfold createFunction at made
  simp only at made
  split at made
  · cases made
  · split at made
    · cases made
    · split at made
      · cases made
      · split at made
        · cases made
          exact ⟨rfl, _, rfl⟩
        · cases made
          exact ⟨rfl, _, rfl⟩

theorem inherits_of_push {properties : Dict Value} {o p : ObjectId}
    (made : s'.objects = s.objects.push ⟨properties, none⟩) (inherits : s'.Inherits o p) :
    s.Inherits o p := by
  unfold Inherits object at inherits ⊢
  rw [made] at inherits
  rcases getD_push s.objects ⟨properties, none⟩ default o with same | ⟨-, new⟩
  · rwa [same] at inherits
  · rw [new] at inherits
    cases inherits

end Store

/-- The constructors of a class are new functions, that have no prototype yet. -/
def Craft.ofNew : Craft where
  may _ := True
  plain _ := trivial
  ready s superclass := ∀ g, superclass = some g → g < s.functions.size
  good s superclass v := ∃ f callable, v = .function f ∧ superclass ≠ some f ∧
    s.function? f = some ⟨callable, .empty⟩
  isFunction := fun ⟨f, _, same, _⟩ => ⟨f, same⟩
  made := by
    intro s s' superclass spot scope f ready made
    obtain ⟨rfl, c, pushed⟩ := Store.exists_push_of_createFunction made
    refine ⟨_, .closure c, rfl, fun own => Nat.lt_irrefl _ (ready _ own), ?_⟩
    simp [Store.function?, pushed]
  created := by
    rintro s s' superclass spot scope f v made ⟨g, callable, rfl, other, found⟩
    obtain ⟨rfl, c, pushed⟩ := Store.exists_push_of_createFunction made
    refine ⟨g, callable, rfl, other, ?_⟩
    have known : g < s.functions.size := (Array.getElem?_eq_some_iff.1 found).1
    rw [Store.function?, pushed, Array.getElem?_push, if_neg (Nat.ne_of_lt known)]
    exact found
  listed _ good := good

/-- The prototype of a new function may be linked to the one of any other. -/
theorem Region.crafts_of_new (k : s.Rooted) {superclass : Option FunctionId}
    (ready : Craft.ofNew.ready s superclass) {f : FunctionId}
    (good : Craft.ofNew.good s superclass (.function f)) : Region.live.Crafts s superclass f := by
  intro g super
  obtain ⟨_, callable, ⟨⟩, away, found⟩ := good
  have none : (s.functionProperties f).get? "prototype" = none := by
    rw [Store.functionProperties, found]
    rfl
  obtain ⟨p, known, -⟩ | ⟨new, ⟨properties, made⟩, -, -, same⟩ := s.prototypeOf_cases f
  · cases none.symm.trans known
  have unused : ∀ o, ¬ (s.prototypeOf f).2.Inherits o s.objects.size := fun o inherits =>
    Nat.lt_irrefl _ (k.linked o _ (Store.inherits_of_push made inherits))
  have size : (s.prototypeOf f).2.objects.size = s.objects.size + 1 := by simp [made]
  have apart : g ≠ f := fun own => away (own ▸ super)
  simp only [new]
  obtain ⟨q, known, other⟩ | ⟨last, ⟨properties', made'⟩, -⟩ :=
    (s.prototypeOf f).2.prototypeOf_cases g
  · rw [Store.Wired, same g apart] at known
    have lives : q < s.objects.size :=
      Region.has_object.1 (Region.has_functionProperty (R := Region.live) k (ready g super) known)
    rw [other]
    exact ⟨Nat.ne_of_gt lives, size ▸ Nat.lt_succ_of_lt lives, unused⟩
  · rw [last, size]
    refine ⟨Nat.ne_of_lt (Nat.lt_succ_self _), by simp [made', size], fun o inherits => ?_⟩
    exact unused o (Store.inherits_of_push made' inherits)

end EcmaMachine
