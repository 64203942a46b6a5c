import EcmaMachine.Proofs.Grammar.Expressions
import EcmaMachine.Proofs.Region.Reach

/-!
Declarations. A text declares its names in the scope that it is evaluated in, or in scopes that are
made meanwhile. No other scope gets a new name, and none loses one.
-/

namespace EcmaMachine

variable {η : Type}

namespace Node

variable {use use' : Use} {n m tree : Node} {name : String}

/-- The name that a declaration stands for: a name in the pattern of a variable, a function or a
class. -/
def declared? (use : Use) (n : Node) : Option String :=
  match use, n.shape with
  | .bind, .identifier name => some name
  | .run, .functionDeclaration (some id) _ _ _ _ => id.identifierName?
  | .run, .classDeclaration (some id) _ _ => id.identifierName?
  | _, _ => none

/-- Names that are declared in a tree outside of its blocks, functions and catch clauses, and outside
of loops that declare their variable. -/
def Declares (tree : Node) (name : String) : Prop :=
  ∃ use n, Uses (.run, tree) (use, n) ∧ n.declared? use = some name

/-! ## Trees of texts -/

def Fits (use : Use) (n : Node) : Prop :=
  match use with
  | .run => ∃ r, Runs r n
  | .bind => Binds n
  | .entry => n.shape.EntryParts Runs Role.takes
  | .field => n.shape.BoundParts Binds Role.takes

theorem Fits.part (h : n.Fits use) (mem : (use', m) ∈ n.shape.uses use) : m.Fits use' := by
  have run : ∀ {r m}, Runs r m → m.Fits .run := fun runs => ⟨_, runs⟩
  have bind : ∀ {m}, Binds m → m.Fits .bind := id
  have entry : ∀ {m : Node}, m.shape.EntryParts Runs Role.takes → m.Fits .entry := id
  have field : ∀ {m : Node}, m.shape.BoundParts Binds Role.takes → m.Fits .field := id
  cases use with
  | run =>
    obtain ⟨r, runs⟩ := h
    have parts := orderly.parts runs
    generalize n.shape = shape at mem parts
    cases shape <;> simp only [Shape.uses, Shape.Parts, Option.mem_def] at mem parts <;>
      grind [Shape.KeyParts]
  | bind =>
    have parts := orderly.patterns h
    generalize n.shape = shape at mem parts
    cases shape <;> simp only [Shape.uses, Shape.PatternParts] at mem parts <;> grind
  | entry =>
    have parts : n.shape.EntryParts Runs Role.takes := h
    generalize n.shape = shape at mem parts
    cases shape with
    | property key value kind computed =>
      cases kind with
      | init =>
        simp only [Shape.uses, Shape.EntryParts] at mem parts
        grind
      | _ => cases parts
    | _ => cases mem
  | field =>
    have parts : n.shape.BoundParts Binds Role.takes := h
    generalize n.shape = shape at mem parts
    cases shape <;> simp only [Shape.uses, Shape.BoundParts] at mem parts <;> grind

theorem Fits.uses {a b : Use × Node} (h : a.2.Fits a.1) (uses : Uses a b) : b.2.Fits b.1 := by
  induction uses with
  | refl => exact h
  | tail _ mem ih => exact ih.part mem

/-- In the tree of a text a default is only ever bound, so that all names come from declarations. -/
theorem Fits.declared (h : n.Fits use) : n.ownName? use = n.declared? use := by
  cases use with
  | run =>
    obtain ⟨r, runs⟩ := h
    have parts := orderly.parts runs
    unfold ownName? declared?
    generalize n.shape = shape at parts
    cases shape with
    | assignmentPattern => exact nomatch parts.1
    | functionDeclaration id | classDeclaration id => cases id <;> rfl
    | _ => rfl
  | _ =>
    unfold ownName? declared?
    cases n.shape <;> rfl

theorem declares_of_uses {text : String} (parsed : parse text = .ok tree)
    (uses : Uses (.run, tree) (use, n)) (own : n.ownName? use = some name) : tree.Declares name := by
  have runs : tree.Fits .run := ⟨_, (statement_of_parse parsed).1 true fun _ => rfl⟩
  have fits : n.Fits use := Fits.uses (a := (.run, tree)) runs uses
  exact ⟨use, n, uses, fits.declared ▸ own⟩

end Node

/-! ## Names -/

namespace Store

/-- Names stay bound, and the scopes that were there get no others but those that they may. -/
structure Declared (may : ScopeId → String → Prop) (s s' : Store) : Prop where
  larger : s.scopes.size ≤ s'.scopes.size
  bound : ∀ id name, s.binds id name = true → s'.binds id name = true
  named : ∀ id name, id < s.scopes.size → s'.binds id name = true →
    s.binds id name = true ∨ may id name

variable {s s' s'' : Store} {may may' : ScopeId → String → Prop}

theorem declared_refl (may : ScopeId → String → Prop) (s : Store) : s.Declared may s where
  larger := Nat.le_refl _
  bound _ _ h := h
  named _ _ _ h := .inl h

theorem Declared.trans (h : s.Declared may s') (le : ∀ id name, may' id name → may id name)
    (h' : s'.Declared may' s'') : s.Declared may s'' where
  larger := Nat.le_trans h.larger h'.larger
  bound id name was := h'.bound id name (h.bound id name was)
  named id name lt now := by
    rcases h'.named id name (Nat.lt_of_lt_of_le lt h.larger) now with before | allowed
    · exact h.named id name lt before
    · exact .inr (le id name allowed)

theorem Declared.edit (h : s.Declared may s') {holds : Address → Prop}
    {links : ObjectId → ObjectId → Prop}
    (edit : s'.Edit holds (fun id name => s.scopes.size ≤ id ∨ may id name) links s'') :
    s.Declared may s'' where
  larger := by
    have lacks : s'.Lacks (.scope s''.scopes.size) := edit.larger _ (Nat.le_refl s''.scopes.size)
    exact Nat.le_trans h.larger lacks
  bound id name was := edit.bound id name (h.bound id name was)
  named id name lt now := by
    rcases edit.named id name now with before | out | allowed
    · exact h.named id name lt before
    · exact absurd lt (Nat.not_lt_of_le out)
    · exact .inr allowed

end Store

/-- Host functions that declare no names. -/
def Host.DeclaresNothing (host : Host η) : Prop :=
  ∀ word this args ticket (store : Store) kept,
    store.Declared (fun _ _ => False) (host.call word this args ticket store kept).store

namespace Region

/-- The whole store, but a scope that was there gets no other names than it may. -/
def named (may : ScopeId → String → Prop) (s : Store) (since : Nat) : Region where
  holds _ _ := True
  declares id name := s.scopes.size ≤ id ∨ may id name
  links _ _ _ := True
  keeps := s.Declared may
  since := since
  grows _ _ := trivial
  fresh _ _ _ := trivial
  anew _ k := .inl k.larger
  closed _ _ _ := trivial
  edit k edit := k.edit edit

theorem admits_of_declaresNothing {host : Host η} (plain : host.DeclaresNothing)
    (may : ScopeId → String → Prop) (s : Store) (since : Nat) : (named may s since).Admits host := by
  intro word this args ticket store kept k _ _
  exact ⟨⟨k.trans (fun _ _ => False.elim) (plain word this args ticket store kept), id⟩,
    replies_iff.2 fun _ _ _ _ => trivial⟩

end Region

/-- The functions of the bench declare nothing. -/
theorem Bench.host_declaresNothing : Bench.host.DeclaresNothing := by
  intro word this args ticket store kept
  let R := Region.named (fun _ _ => False) store 0
  have all : ∀ v, R.Has store v := fun _ _ _ => trivial
  exact (R.admits_bench word this args ticket store kept (Store.declared_refl _ store) (all this)
    fun v _ => all v).1.keeps

/-! ## Evaluations -/

/-- A text that is evaluated declares at most its own names, and only in the scope that it is
evaluated in. Each other scope that was there before binds the same names throughout, whatever
happens in the evaluation and after it with answers from outside. -/
theorem declarations_stay_in_scope {host : Host η} (plain : host.DeclaresNothing) {text : String}
    {tree : Node} (parsed : parse text = .ok tree) (r : Realm η) (kept : Option TreeId)
    (scope : ScopeId) (config : Config) (recipient : Recipient) :
    let base := r.world.store
    let may := fun (id : ScopeId) (name : String) => id = scope ∧ tree.Declares name
    let begun := r.begun tree kept scope config recipient
    let answers := fun (_ : Store) (ticket : Nat) (_ : Outcome) => r.world.held.size ≤ ticket
    (∀ l s, Onward host answers begun.1 begun.2 l s → base.Declared may s.store) ∧
    ∀ fuel, base.Declared may
      (r.evalNode host fuel tree kept scope config recipient).world.store := by
  intro base may begun answers
  let R := Region.named may base r.world.held.size
  have admits : R.Admits host := Region.admits_of_declaresNothing plain may base _
  have allows : R.Allows base scope .run tree :=
    ⟨trivial, fun _ _ _ uses own => .inr ⟨rfl, Node.declares_of_uses parsed uses own⟩⟩
  have starts : R.Stays begun.2 := Region.stays_begun r (Store.declared_refl may base) rfl allows
    kept config recipient
  have gives : ∀ t ticket o, answers t ticket o → R.since ≤ ticket ∧ R.Gives t o :=
    fun _ _ _ answer => ⟨answer, Region.gives_iff.2 fun _ _ _ _ => trivial⟩
  have stays : ∀ {l s}, Onward host answers begun.1 begun.2 l s → base.Declared may s.store :=
    fun onward => (Region.stays_onward admits (fun _ _ _ => trivial) gives starts onward).1.keeps
  refine ⟨fun l s => stays, fun fuel => ?_⟩
  obtain ⟨l, s, onward, ends⟩ :=
    Onward.exists_evalNode answers host fuel r tree kept scope config recipient
  rw [ends]
  exact stays onward

namespace Sample

/-- A name and a function for the scope itself, and names in a block, in a function and in a loop,
which it does not get. -/
def nestedText : String := "var x; { let y } function f(z) { a = z } for (let k of [3]) f(k)"

@[irreducible] def nestedTree : Node := (parse nestedText).toOption.getD (.mk (.program []) none)

theorem parse_nestedText : parse nestedText = .ok nestedTree := by
  unfold nestedTree
  exact parse_eq_ok (by decide +kernel) _

def nest : Realm Bench :=
  let (outer, store) := Store.empty.rootScope [("a", .null)]
  let (_, store) := store.childScope outer []
  ⟨{ World.start Bench.empty with store }, .empty⟩

theorem nested_declarations_stay :
    Bench.host.DeclaresNothing ∧ parse nestedText = .ok nestedTree ∧
    let after := (nest.evalNode Bench.host 200 nestedTree none 1 .plain (.caller 0)).world.store
    (∀ name, after.binds 0 name = true → nest.world.store.binds 0 name = true) ∧
    (∀ name, after.binds 1 name = true → nestedTree.Declares name) ∧
    after.find? 0 "a" = some (.number 3) ∧
    ["x", "f", "y", "z", "k", "a"].map (after.binds 1) = [true, true, false, false, false, false] := by
  obtain ⟨-, stays⟩ := declarations_stay_in_scope Bench.host_declaresNothing parse_nestedText nest
    none 1 .plain (.caller 0)
  refine ⟨Bench.host_declaresNothing, parse_nestedText, fun name now => ?_, fun name now => ?_, ?_⟩
  · rcases (stays 200).named 0 name (by decide) now with before | allowed
    · exact before
    · cases allowed.1
  · rcases (stays 200).named 1 name (by decide) now with before | allowed
    · cases before
    · exact allowed.2
  · unfold nestedTree
    decide +kernel

end Sample

end EcmaMachine
