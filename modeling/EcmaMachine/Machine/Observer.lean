import EcmaMachine.Machine.Signal
import EcmaMachine.Store.Scope

/-!
Events and those who watch them. Each node and each slot of a node that is run gives a pair of
events, `enter` and `exit`. An observer keeps notes and may refuse an event: a refused `enter`
aborts the node, a refused `exit` has no effect on the run.
-/

namespace EcmaMachine

inductive Stage
  | enter
  | exit (outcome : Outcome)

/-- An event of a node, or of one of its slots. -/
structure Event where
  node : Node
  slot : Option Slot
  scope : ScopeId
  stage : Stage

namespace Event

/-- The slot if there is one, else the type of the node. -/
def label (e : Event) : String :=
  match e.slot with
  | some slot => slot.name
  | none => e.node.type.name

def isEnter (e : Event) : Bool :=
  match e.stage with
  | .enter => true
  | .exit _ => false

/-- One line: direction, depth of the scope, node and slot, and how it ended. -/
def line (s : Store) (e : Event) : String :=
  let slot := (e.slot.map fun slot => "." ++ slot.name).getD ""
  let subject := Number.natText (s.depth e.scope) ++ " " ++ e.node.type.name ++ slot
  match e.stage with
  | .enter => ">" ++ subject
  | .exit (.value v) => "<" ++ subject ++ " = " ++ s.text v
  | .exit (.failure x) => "<" ++ subject ++ " ! " ++ x.text s

/-- The line for the log. -/
def logLine (s : Store) (e : Event) : String :=
  match e.stage with
  | .enter => "TRACE enter label=" ++ e.label
  | .exit (.value v) => "TRACE exit label=" ++ e.label ++ " value=" ++ s.text v
  | .exit (.failure x) => "TRACE exit label=" ++ e.label ++ " error=" ++ x.text s

def debug (s : Store) (e : Event) : String :=
  let option := fun text : Option String => (text.map fun t => "Some(" ++ t ++ ")").getD "None"
  let (phase, value, error) := match e.stage with
    | .enter => ("Enter", none, none)
    | .exit (.value v) => ("Exit", some (s.debug v), none)
    | .exit (.failure x) => ("Exit", none, some (Text.quoted (x.text s)))
  "Evaluation \x7b label: " ++ Text.quoted e.label ++ ", phase: " ++ phase ++ ", value: " ++
    option value ++ ", error: " ++ option error ++ " \x7d"

end Event

/-- What an observer remembers: events, the newest first, and a count of steps. -/
structure Notes where
  events : List Event
  steps : Nat

def Notes.blank : Notes := ⟨[], 0⟩

/-- What an observer makes of an event: its notes afterwards, lines for the trace and for the log,
and a reason if it refuses. -/
structure Verdict where
  notes : Notes
  trace : List String
  log : List String
  refusal : Option String

/-- An observer may judge by all that it has seen so far, and by the store. -/
structure Observer where
  notes : Notes
  watch : Notes → Store → Event → Verdict

namespace Observer

def see (o : Observer) (s : Store) (e : Event) : Verdict := o.watch o.notes s e

/-- Keeps every event. -/
def recorder : Observer :=
  ⟨.blank, fun notes _ e => ⟨{ notes with events := e :: notes.events }, [], [], none⟩⟩

/-- Writes every event to the trace. -/
def tracer : Observer :=
  ⟨.blank, fun notes s e => ⟨notes, [e.line s], [], none⟩⟩

/-- Writes every event to the log. -/
def logger : Observer :=
  ⟨.blank, fun notes s e => ⟨notes, [], [e.logLine s], none⟩⟩

/-- Refuses the nodes after the first `limit`. The count is a number without bound; in a machine word
it would run over only after more nodes than any evaluation enters. -/
def stepBudget (limit : Nat) : Observer :=
  ⟨.blank, fun notes _ e =>
    if e.isEnter && e.slot.isNone then
      let steps := notes.steps + 1
      let reason := "step budget of " ++ Number.natText limit ++ " exceeded"
      ⟨{ notes with steps }, [], [], if steps > limit then some reason else none⟩
    else ⟨notes, [], [], none⟩⟩

/-- Refuses the events with these labels. -/
def forbid (labels : List String) : Observer :=
  ⟨.blank, fun notes _ e =>
    ⟨notes, [], [], if labels.contains e.label then some (e.label ++ " is forbidden") else none⟩⟩

end Observer

end EcmaMachine
