import EcmaMachine.Settings.Value
import EcmaMachine.Text.Blank

/-!
Settings from environment variables. Behind the stem that all of them share, the name of a
variable is that of its setting, with two underscores for each point.
-/

namespace EcmaMachine.Variables

abbrev Environment := List (String × String)

/-- Two underscores divide the names. -/
def divided : List Char → List Char
  | '_' :: '_' :: cs => '.' :: divided cs
  | c :: cs => c :: divided cs
  | [] => []

/-- The path that a variable sets; `none` if it is no setting. -/
def path? (name : String) : Option SettingPath :=
  let cs := name.toList.map Char.toLower
  let stem := "metaes__".toList
  if stem.isPrefixOf cs then
    SettingPath.ofText? (String.ofList (divided (cs.drop stem.length)))
  else none

def put (root : Setting) (entry : String × String) : Setting :=
  match path? entry.1 with
  | some path => path.put (Setting.ofText entry.2) (some root)
  | none => root

def apply (env : Environment) (root : Setting) : Setting := env.foldl put root

end EcmaMachine.Variables
