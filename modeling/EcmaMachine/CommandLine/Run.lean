import EcmaMachine.CommandLine.Arguments
import EcmaMachine.Host.Globals
import EcmaMachine.Json.Printer
import EcmaMachine.Realm.Basic
import EcmaMachine.Settings.Basic
import EcmaMachine.Tree.Encode

/-!
What the commands do: `run` and `eval` evaluate a script in a scope of its own with the global
functions, `parse` prints its tree as JSON.
-/

namespace EcmaMachine.CommandLine

/-- What a command leaves behind: the text it printed, log lines, and why it failed. -/
structure Report where
  stdout : String
  log : List String
  failure : Option String

def Report.failed (message : String) : Report := ⟨"", [], some message⟩

/-- Which log lines are shown; a traced run shows all steps. -/
def logFilter (settings : Settings) : Command → String
  | .run _ true => settings.filter ++ ",metaes_core=trace"
  | _ => settings.filter

def observers (settings : Settings) (trace : Bool) : List Observer :=
  settings.budget?.toList ++ (if trace then [.logger] else [])

/-- The evaluation of one script. -/
def evaluate (fuel : Nat) (settings : Settings) (source : String) (trace : Bool) : Report :=
  let (scope, store) := Globals.newScope .empty
  let start : World Unit := { World.start () with store }
  let (ids, world) := (observers settings trace).foldl (fun (ids, w) o =>
    let (id, w) := w.addObserver o
    (ids ++ [id], w)) ([], start)
  let cache := if settings.cacheParses then some ParseCache.empty else none
  let context : Context :=
    ⟨scope, ⟨ids, settings.useReferences⟩, .log, .empty (.source 0), cache, false⟩
  let (id, realm) := Realm.addContext ⟨world, .empty⟩ context
  let realm := realm.evaluate Globals.host fuel id (.text source) (.caller 0) .none none
  let log := realm.world.log.toList
  match realm.awaited 0 with
  | .value v => ⟨realm.world.store.text v ++ "\n", log, none⟩
  | .failure e => ⟨"", log, some (e.text realm.world.store)⟩

/-- The failure of a file that has no text. -/
def unread (file : String) (content : FileContent) : String :=
  "Failed to read " ++ file ++ ": " ++ content.fault

def printTree (file source : String) (compact : Bool) : Report :=
  match EcmaMachine.parse source with
  | .error e => .failed ("Failed to parse " ++ file ++ ": " ++ e.message)
  | .ok tree =>
    let json := tree.encode
    ⟨(if compact then json.compact else json.pretty 0) ++ "\n", [], none⟩

/-- Carries out a command; `read` gives what is found at a path. -/
def run (fuel : Nat) (read : String → FileContent) (settings : Settings) : Command → Report
  | .run file trace =>
    match read file with
    | .text source => evaluate fuel settings source trace
    | content => .failed (unread file content)
  | .eval source => evaluate fuel settings source false
  | .parse file compact =>
    match read file with
    | .text source => printTree file source compact
    | content => .failed (unread file content)

/-- The settings of an invocation. -/
def settings (read : String → FileContent) (env : Variables.Environment) (i : Invocation) :
    Except SettingsFault Settings :=
  Settings.load read i.config (some env) []

/-- The failure of an invocation whose settings cannot be had. -/
def settingsMessage : SettingsFault → String
  | .unreadable => "Failed to load settings"
  | fault => "Failed to load settings: " ++ fault.message

end EcmaMachine.CommandLine
