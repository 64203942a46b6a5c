import EcmaMachine.Files
import EcmaMachine.Json.Parser
import EcmaMachine.Machine.State
import EcmaMachine.Settings.Toml
import EcmaMachine.Settings.VariableFile

/-!
The settings of a run. They are layered, and later layers win: defaults, a file, environment
variables, and what is set by name.
-/

namespace EcmaMachine

structure Settings where
  /-- Whether each identifier that is read gets a lasting reference. -/
  useReferences : Bool
  /-- How many nodes may be run; 0 is no bound. -/
  stepBudget : Nat
  /-- Whether the tree of a text is kept for its next use. -/
  cacheParses : Bool
  /-- Which log lines are shown. -/
  filter : String

inductive SettingsFault
  | notFound (path : String)
  | unreadable
  | invalid (key reason : String)

namespace SettingsFault

def message : SettingsFault → String
  | .notFound path => "Config file not found: " ++ path
  | .unreadable => "Failed to load settings"
  | .invalid key reason => "Invalid setting \x60" ++ key ++ "\x60: " ++ reason

end SettingsFault

namespace Settings

def defaults : Setting :=
  .table [
    ("evaluation", .table [
      ("use_references", .bool false),
      ("step_budget", .int 0),
      ("cache_parses", .bool true)]),
    ("logging", .table [("filter", .text "metaes=info,console=info")])]

def defaultFile : String := "metaes.toml"

def variableFile : String := ".env"

/-- The values of a group of settings, by name or, in a list, by position. Other entries and
further items do not count. -/
def group? (names : List String) : Setting → Option (List Setting)
  | .table es => names.mapM fun name => es.lookup name
  | .list vs => if vs.length < names.length then none else some (vs.take names.length)
  | _ => none

def ofSetting? (root : Setting) : Option Settings := do
  let evaluation ← root.entries.lookup "evaluation"
  let logging ← root.entries.lookup "logging"
  match ← group? ["use_references", "step_budget", "cache_parses"] evaluation,
      ← group? ["filter"] logging with
  | [useReferences, stepBudget, cacheParses], [filter] =>
    some {
      useReferences := ← useReferences.flag?
      stepBudget := ← stepBudget.count?
      cacheParses := ← cacheParses.flag?
      filter := ← filter.text? }
  | _, _ => none

def validate (s : Settings) : Except SettingsFault Settings :=
  if (Text.trim s.filter.toList).isEmpty then
    .error (.invalid "logging.filter" "must not be empty")
  else .ok s

/-- A name at the top of a file may be a path itself. -/
def putEntry (root : Setting) (entry : String × Setting) : Setting :=
  ((SettingPath.ofText? entry.1).getD [.name entry.1]).put entry.2 (some root)

/-- What the name of a file ends in, behind its last point. A name that only starts with a point
has no ending. -/
def ending (path : String) : Option String :=
  let name := (path.toList.reverse.takeWhile (· != '/')).reverse
  let tail := (name.reverse.takeWhile (· != '.')).reverse
  if tail.length + 1 < name.length then some (String.ofList tail) else none

/-- The entries of a file, in the format that its name ends in. -/
def fileEntries? (path text : String) : Option (List (String × Setting)) :=
  match ending path with
  | some "toml" => Toml.read? text
  | some "json" =>
    match Json.parse text with
    | .ok (.object fields) => some (Setting.ofJson (.object fields)).entries
    | _ => none
  | _ => none

def override? (root : Setting) (entry : String × String) : Option Setting :=
  (SettingPath.ofText? entry.1).map fun path => path.put (.text entry.2) (some root)

/-- All layers, one over the other. -/
def layers? (file : Option (String × String)) (env : Variables.Environment)
    (overrides : List (String × String)) : Option Setting := do
  let entries ← match file with
    | some (path, text) => fileEntries? path text
    | none => some []
  overrides.foldlM override? (Variables.apply env (entries.foldl putEntry defaults))

/-- The settings with a file given by its path and text. -/
def build (file : Option (String × String)) (env : Variables.Environment)
    (overrides : List (String × String)) : Except SettingsFault Settings :=
  match (layers? file env overrides).bind ofSetting? with
  | some s => s.validate
  | none => .error .unreadable

/-- Loads the settings from the files that `read` finds. A file that is asked for must be there
and be in a known format; without an environment no variables count. -/
def load (read : String → FileContent) (path : Option String)
    (env : Option Variables.Environment) (overrides : List (String × String)) :
    Except SettingsFault Settings :=
  let env := env.elim [] fun env =>
    (read variableFile).text?.elim env (VariableFile.add env)
  match path with
  | none => build ((read defaultFile).text?.map (defaultFile, ·)) env overrides
  | some path =>
    match read path with
    | .text text => build (some (path, text)) env overrides
    | .directory => .error .unreadable
    | .absent => .error (.notFound path)
    | .blocked => .error (.notFound path)

/-- The observer that keeps a run within its budget, if there is a budget. -/
def budget? (s : Settings) : Option Observer :=
  if s.stepBudget == 0 then none else some (.stepBudget s.stepBudget)

end Settings

/-- The way to run, in one line. -/
def Config.debug (c : Config) : String :=
  let flag := fun b => if b then "true" else "false"
  "EvaluationConfig \x7b interceptor: " ++ flag (!c.observers.isEmpty) ++ ", use_references: " ++
    flag c.references ++ " \x7d"

end EcmaMachine
