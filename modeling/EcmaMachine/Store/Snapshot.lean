import EcmaMachine.Store.Basic
import EcmaMachine.Store.Thread

/-!
A value with all that hangs on it, as it is at one moment. Objects, arrays and functions are
numbered in the order of the first visit; a second visit is only named.
-/

namespace EcmaMachine

/-- What shows of a closure besides its name. -/
structure ClosureFacts where
  isArrow : Bool
  isExpression : Bool
  params : Nat

inductive Snapshot
  | undefined
  | null
  | bool (b : Bool)
  | number (x : Float)
  | string (s : String)
  | array (id : Nat) (items : List Snapshot)
  | object (id : Nat) (entries : List (String × Snapshot)) (prototype : Option Snapshot)
  | function (id : Nat) (name : Option String) (closure : Option ClosureFacts)
      (properties : List (String × Snapshot))
  | seen (id : Nat)

namespace Snapshot

def facts? : Callable → Option ClosureFacts
  | .closure c => some ⟨c.isArrow, c.isExpression, c.params.length⟩
  | _ => none

/-- `visited` holds what was met before, so `fuel` need only count the handles there are. Own
properties come before the prototype. -/
def takeWithin (s : Store) : (fuel : Nat) → Value → (visited : List Value) → Snapshot × List Value
  | 0, _, visited => (.undefined, visited)
  | fuel + 1, v, visited =>
    let id := visited.length + 1
    let entry := fun (e : String × Value) (visited : List Value) =>
      let (item, visited) := takeWithin s fuel e.2 visited
      ((e.1, item), visited)
    match visited.findIdx? (fun w => decide (w = v)), v with
    | some i, _ => (.seen (i + 1), visited)
    | none, .undefined => (.undefined, visited)
    | none, .null => (.null, visited)
    | none, .bool b => (.bool b, visited)
    | none, .number x => (.number x, visited)
    | none, .string t => (.string t, visited)
    | none, .array a =>
      let (items, visited) :=
        mapWith (takeWithin s fuel) (s.elements a).toList (visited ++ [v])
      (.array id items, visited)
    | none, .object o =>
      let (entries, visited) := mapWith entry (s.object o).properties.entries (visited ++ [v])
      match (s.object o).prototype with
      | none => (.object id entries none, visited)
      | some p =>
        let (prototype, visited) := takeWithin s fuel (.object p) visited
        (.object id entries (some prototype), visited)
    | none, .function f =>
      let closure := (s.function? f).bind (facts? ·.callable)
      let (entries, visited) := mapWith entry (s.functionProperties f).entries (visited ++ [v])
      (.function id (s.functionName f) closure entries, visited)

end Snapshot

namespace Store

def handleCount (s : Store) : Nat := s.objects.size + s.arrays.size + s.functions.size

def snapshot (s : Store) (v : Value) : Snapshot :=
  (Snapshot.takeWithin s (s.handleCount + 1) v []).1

end Store

end EcmaMachine
