import EcmaMachine.Host.Globals
import EcmaMachine.Store.Snapshot

/-!
Host functions to try scripts on: some keep what they are called with, some fail, and some answer
late, twice or never.
-/

namespace EcmaMachine

/-- A call that was noted, with its values as they were. -/
inductive BenchCall
  | recorded (this : Snapshot) (args : List Snapshot)
  | parked (index : Nat) (arg : Snapshot)

/-- `parked` holds the numbers of the calls that wait for someone outside, `queue` the answers that
are to be given when the machine has come to rest. -/
structure Bench where
  calls : Array BenchCall
  parked : Array Nat
  queue : List (Nat × Outcome)

namespace Bench

def empty : Bench := ⟨#[], #[], []⟩

def names : List String :=
  ["record", "fail", "failWith", "park", "later", "laterFail", "never", "both", "bothErr",
    "invoke"]

/-- Declares the functions of the bench. -/
def install (s : Store) (scope : ScopeId) : Store :=
  names.foldl (fun s name =>
    let (f, s) := s.newFunction (.host name ("bench." ++ name))
    s.declare scope name (.function f)) s

/-- A function that does nothing. -/
def newSilent (s : Store) (name : String) : Value × Store :=
  let (f, s) := s.newFunction (.host name "bench.silent")
  (.function f, s)

def note (b : Bench) (call : BenchCall) : Bench := { b with calls := b.calls.push call }

def thrown (v : Value) : Outcome := .failure (.plain (.thrown v))

/-- Calls its first argument with the second as `this` and the elements of the third. -/
def invoke (s : Store) (args : List Value) : Reply :=
  match args.head?.getD .undefined with
  | .function f =>
    let inner := match args[2]?.getD .undefined with
      | .array id => (s.elements id).toList
      | _ => []
    .call f (args[1]?.getD .undefined) inner
  | _ => .failure (.plain (.type (.stated "invoke needs a function")))

def call (word : String) (this : Value) (args : List Value) (ticket : Nat) (s : Store)
    (b : Bench) : HostStep Bench :=
  let x := args.head?.getD .undefined
  let reply := fun (r : Reply) (b : Bench) => (⟨r, s, [], b⟩ : HostStep Bench)
  match word with
  | "bench.record" =>
    let call := BenchCall.recorded (s.snapshot this) (args.map s.snapshot)
    reply (.value (.number (Float.ofNat args.length))) (b.note call)
  | "bench.fail" => reply (.failure (.plain (.host ⟨s.text x, none⟩))) b
  | "bench.failWith" => reply (.failure (.plain (.host ⟨s.text x, some x⟩))) b
  | "bench.park" =>
    let call := BenchCall.parked b.parked.size (s.snapshot x)
    reply (.hold []) { (b.note call) with parked := b.parked.push ticket }
  | "bench.later" => reply (.hold []) { b with queue := b.queue ++ [(ticket, .value x)] }
  | "bench.laterFail" => reply (.hold []) { b with queue := b.queue ++ [(ticket, thrown x)] }
  | "bench.never" => reply (.hold []) b
  | "bench.both" => reply (.hold [.value x, thrown x]) b
  | "bench.bothErr" => reply (.hold [thrown x, .value x]) b
  | "bench.invoke" => reply (invoke s args) b
  | _ =>
    match Globals.call? word args s with
    | some (result, log) => Globals.finish result log s b
    | none => reply (.value .undefined) b

def host : Host Bench := ⟨call⟩

end Bench

end EcmaMachine
