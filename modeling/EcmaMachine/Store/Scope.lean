import EcmaMachine.Store.Basic
import EcmaMachine.Text.Quoted

/-!
Names in scopes. Every question about a name is answered by the first scope of the chain that
binds it. References and tags belong to the binding, not to its value.
-/

namespace EcmaMachine.Store

/-- A scope and its parents, innermost first. The chain is cut after as many scopes as there
are. -/
def chain (s : Store) (id : ScopeId) : List ScopeId :=
  walk (s.scopes.size + 1) (some id)
where
  walk : Nat → Option ScopeId → List ScopeId
  | fuel + 1, some id => id :: walk fuel (s.scope id).parent
  | _, _ => []

def depth (s : Store) (id : ScopeId) : Nat := (s.chain id).length

def binds (s : Store) (id : ScopeId) (name : String) : Bool := (s.scope id).values.contains name

def ownValue? (s : Store) (id : ScopeId) (name : String) : Option Value :=
  (s.scope id).values.get? name

/-- The scope of the chain that binds the name. -/
def resolve? (s : Store) (id : ScopeId) (name : String) : Option ScopeId :=
  (s.chain id).find? (s.binds · name)

def find? (s : Store) (id : ScopeId) (name : String) : Option Value :=
  (s.chain id).findSome? (s.ownValue? · name)

/-- Binds a name in this very scope. -/
def declare (s : Store) (id : ScopeId) (name : String) (v : Value) : Store :=
  s.modifyScope id fun scope => { scope with values := scope.values.set name v }

def declareAll (s : Store) (id : ScopeId) (values : List (String × Value)) : Store :=
  s.modifyScope id fun scope => { scope with values := scope.values.setAll values }

/-- Gives a new value to the binding that the name resolves to, if there is one. -/
def assign? (s : Store) (id : ScopeId) (name : String) (v : Value) : Option Store :=
  (s.resolve? id name).map (s.declare · name v)

def rootScope (s : Store) (values : List (String × Value)) : ScopeId × Store :=
  s.newScope { (default : Scope) with values := .ofEntries values }

def childScope (s : Store) (parent : ScopeId) (values : List (String × Value)) :
    ScopeId × Store :=
  s.newScope { (default : Scope) with values := .ofEntries values, parent := some parent }

/-- The scope that a catch clause runs in. -/
def catchScope (s : Store) (parent : ScopeId) (caught : Value) : ScopeId × Store :=
  s.newScope { (default : Scope) with parent := some parent, caught := some caught }

/-- What the nearest catch clause around the scope has caught. -/
def caught? (s : Store) (id : ScopeId) : Option Value :=
  (s.chain id).findSome? fun id => (s.scope id).caught

def setParent (s : Store) (id : ScopeId) (parent : Option ScopeId) : Store :=
  s.modifyScope id fun scope => { scope with parent }

def ownValues (s : Store) (id : ScopeId) : List (String × Value) :=
  (s.scope id).values.sortedEntries

/-- The reference of the binding that the name resolves to, the same one each time. -/
def reference? (s : Store) (id : ScopeId) (name : String) : Option (ReferenceId × Store) :=
  (s.resolve? id name).map fun owner =>
    match (s.scope owner).references.get? name with
    | some r => (r, s)
    | none =>
      let r := s.references.size
      let s := { s with references := s.references.push ⟨name, owner⟩ }
      (r, s.modifyScope owner fun scope =>
        { scope with references := scope.references.set name r })

def referenceValue? (s : Store) (r : Reference) : Option Value := s.ownValue? r.scope r.name

def isNativeFunction (s : Store) : Value → Bool
  | .function f => (s.function? f).any (·.callable.isNative)
  | _ => false

def setTag? (s : Store) (id : ScopeId) (name key : String) (v : Value) : Option Store :=
  (s.resolve? id name).map fun owner =>
    s.modifyScope owner fun scope =>
      { scope with tags := scope.tags.set name (((scope.tags.get? name).getD .empty).set key v) }

def tag? (s : Store) (id : ScopeId) (name key : String) : Option Value := do
  let owner ← s.resolve? id name
  let tags ← (s.scope owner).tags.get? name
  tags.get? key

def deleteTag (s : Store) (id : ScopeId) (name key : String) : Store :=
  match s.resolve? id name with
  | none => s
  | some owner =>
    s.modifyScope owner fun scope =>
      match scope.tags.get? name with
      | some tags => { scope with tags := scope.tags.set name (tags.erase key) }
      | none => scope

/-- Forgets all that a scope holds; its parent stays. -/
def teardown (s : Store) (id : ScopeId) : Store :=
  s.modifyScope id fun scope => { (default : Scope) with parent := scope.parent }

/-- A scope for a diagnostic: its names and whether it has a parent. -/
def scopeDebug (s : Store) (id : ScopeId) : String :=
  let names := (s.ownValues id).map fun (name, _) => Text.quoted name
  let hasParent := if (s.scope id).parent.isSome then "true" else "false"
  "Environment \x7b names: [" ++ ", ".intercalate names ++ "], has_parent: " ++ hasParent ++
    " \x7d"

end EcmaMachine.Store
