import EcmaMachine.Proofs.Lexicon.Basic

/-!
Why a step may fail. Only the making of a class fails for want of a function or a constructor.
-/

namespace EcmaMachine

/-- There is no function where one has to be made, or no constructor for a class. -/
def Signal.isCraft : Signal → Bool
  | .type .constructorValue | .type (.noFunction _) => true
  | _ => false

/-- Has no value, and nothing to do with the making of a class. -/
def Signal.isBare : Signal → Bool
  | .thrown _ | .returned _ | .host _ => false
  | signal => !signal.isCraft

theorem Signal.isCraft_of_isBare {signal : Signal} (h : signal.isBare = true) :
    signal.isCraft = false := by
  cases signal with
  | thrown | returned | host => cases h
  | _ => exact (Bool.not_eq_true' _).mp h

namespace Store

variable {s s' : Store} {v w : Value} {key : String} {fault : TypeFault} {scope : ScopeId}
  {signal : Signal} {spot : Spot}

theorem isCraft_of_createFunction (defines : spot.node.functionParts?.isSome = true)
    (failed : s.createFunction spot scope = .error signal) : signal.isCraft = false := by
  unfold createFunction at failed
  simp only at failed
  split at failed
  · next none => simp [none] at defines
  · split at failed
    · cases failed
      rfl
    · split at failed
      · cases failed
        rfl
      · split at failed <;> cases failed

/-- A function that cannot be made fails for a reason that may come from anywhere. -/
theorem ordinary_of_createFunction (failed : s.createFunction spot scope = .error signal) :
    signal.isOrdinary = true := by
  unfold createFunction at failed
  simp only at failed
  split at failed
  · cases failed; rfl
  · split at failed
    · cases failed; rfl
    split at failed
    · cases failed; rfl
    split at failed <;> cases failed

theorem ordinary_of_createClass {name : String} {superclass : Option FunctionId}
    {constructors : List Value}
    (failed : s.createClass spot scope name superclass constructors = .error signal) :
    signal.isOrdinary = true := by
  rcases constructors with _ | ⟨v, _ | ⟨w, rest⟩⟩
  · simp only [createClass, Bind.bind, Except.bind] at failed
    split at failed
    · next found => cases failed; exact ordinary_of_createFunction found
    · cases failed
  · cases v with
    | function f => cases failed
    | _ => cases failed; rfl
  · simp only [createClass, Bind.bind, Except.bind] at failed
    cases failed
    rfl

/-- Hoisting fails where a declared function cannot be made. -/
theorem exists_createFunction_of_hoist {statements : List Spot} {e : Exception}
    (failed : (s.hoist scope statements).1 = some e) :
    ∃ (t : Store) (spot : Spot) (scope : ScopeId),
      spot.node.functionParts?.isSome = true ∧ t.createFunction spot scope = .error e.signal := by
  induction statements generalizing s with
  | nil => cases failed
  | cons statement rest ih =>
    unfold hoist at failed
    split at failed
    · next shape =>
      split at failed
      · exact ih failed
      · split at failed
        · exact ih failed
        · next error =>
          cases failed
          exact ⟨_, _, _, by simp [Node.functionParts?, shape], error⟩
    · exact ih failed

theorem isCraft_of_getProperty (failed : s.getProperty v key = .error fault) :
    (Signal.type fault).isCraft = false := by
  unfold getProperty at failed
  cases v with
  | undefined | null =>
    cases failed
    rfl
  | bool | number | object => cases failed
  | array =>
    simp only at failed
    split at failed <;> cases failed
  | string =>
    simp only at failed
    split at failed
    · cases failed
    · split at failed <;> cases failed
  | function =>
    simp only at failed
    split at failed
    · cases failed
    · split at failed
      · cases failed
      · split at failed <;> cases failed

theorem isCraft_of_arrayLength {length : Float} (failed : arrayLength? length = .error fault) :
    (Signal.type fault).isCraft = false := by
  unfold arrayLength? at failed
  split at failed
  · split at failed
    · cases failed
      rfl
    · split at failed <;> cases failed
      rfl
  · cases failed
    rfl

theorem isCraft_of_setProperty (failed : s.setProperty v key w = .error fault) :
    (Signal.type fault).isCraft = false := by
  unfold setProperty at failed
  cases v with
  | undefined | null =>
    cases failed
    rfl
  | bool | number | string | object | function => cases failed
  | array =>
    simp only at failed
    split at failed
    · split at failed
      · simp only [Bind.bind, Except.bind] at failed
        split at failed
        · next refused =>
          cases failed
          exact isCraft_of_arrayLength refused
        · cases failed
      · cases failed
    · split at failed
      · simp only [Bind.bind, Except.bind] at failed
        split at failed
        · next refused =>
          cases failed
          exact isCraft_of_arrayLength refused
        · cases failed
      · cases failed
        rfl

theorem isCraft_of_deleteProperty (failed : s.deleteProperty v key = .error fault) :
    (Signal.type fault).isCraft = false := by
  unfold deleteProperty at failed
  cases v with
  | undefined | null =>
    cases failed
    rfl
  | array =>
    simp only at failed
    split at failed <;> cases failed
  | _ => cases failed

theorem isCraft_of_binary {operator : BinaryOp} (failed : s.binary operator v w = .error fault) :
    (Signal.type fault).isCraft = false := by
  cases operator with
  | mem =>
    simp only [binary, Bind.bind, Except.bind] at failed
    split at failed
    · next refused =>
      cases failed
      unfold hasProperty at refused
      split at refused <;> cases refused
      rfl
    · cases failed
  | instanceOf =>
    simp only [binary, Bind.bind, Except.bind] at failed
    split at failed
    · next refused =>
      cases failed
      unfold instanceOf at refused
      split at refused
      · split at refused <;> cases refused
      · cases refused
        rfl
    · cases failed
  | _ => cases failed

end Store

/-- Neither a name nor a member. -/
theorem Shape.isTarget_eq_false {x : Shape Node} (name : ∀ n, x = .identifier n → False)
    (member : ∀ object key computed, x = .memberExpression object key computed → False) :
    x.isTarget = false := by
  cases x with
  | identifier => exact (name _ rfl).elim
  | memberExpression => exact (member _ _ _ rfl).elim
  | _ => rfl

theorem isBare_of_loopTarget {left : Node} {signal : Signal}
    (failed : loopTarget left = .error signal) : signal.isBare = true := by
  unfold loopTarget at failed
  split at failed
  · cases failed
  · split at failed <;> cases failed
    rfl
  · cases failed
    rfl
  · cases failed
    rfl

end EcmaMachine
