import EcmaMachine.Host.Bench
import EcmaMachine.Realm.Basic

/-!
A realm whose host functions are those of the bench: their late answers.
-/

namespace EcmaMachine.Realm

/-- Gives the queued answers, the oldest first, until none is left. -/
def drain (fuel : Nat) : (count : Nat) → Realm Bench → Realm Bench
  | 0, r => r
  | count + 1, r =>
    match r.world.host.queue with
    | [] => r
    | (ticket, outcome) :: queue =>
      let host := { r.world.host with queue }
      let r := { r with world := { r.world with host } }
      match r.answer? Bench.host fuel ticket outcome with
      | some r => drain fuel count r
      | none => drain fuel count r

/-- Answers the call that was parked at the index. -/
def answerParked? (fuel : Nat) (r : Realm Bench) (index : Nat) (outcome : Outcome) :
    Option (Realm Bench) :=
  (r.world.host.parked[index]?).bind fun ticket => r.answer? Bench.host fuel ticket outcome

/-- Forgets the parked calls. -/
def forget (r : Realm Bench) : Realm Bench :=
  { r with world := { r.world with host := { r.world.host with parked := #[] } } }

end EcmaMachine.Realm
