import EcmaMachine.Store.Scope
import EcmaMachine.Tree.Decode
import EcmaMachine.Tree.Encode
import EcmaMachine.Wire.Value

/-!
Messages between two sides: a script, as text or as a tree, with the scopes it is to run in.
-/

namespace EcmaMachine

/-- A chain of scopes as JSON, the innermost first. It hangs below the scope of a context, which
is not sent. -/
structure SavedScopes where
  values : List (String × Json)
  outer : List (List (String × Json))

inductive MessageSource
  | text (s : String)
  | node (n : Node)

structure Message where
  source : MessageSource
  scopes : SavedScopes

/-- Why JSON is no message. -/
inductive MessageFault
  | notObject
  | badSource
  | noSource
  | badScopes
  | malformed (misfit : Json.Misfit)

def MessageFault.message : MessageFault → String
  | .notObject => "Invalid message: message must be an object"
  | .badSource => "Invalid message: `source` must be script text or an ESTree node"
  | .noSource => "Invalid message: missing `source`"
  | .badScopes => "Invalid message: `env` must be an object"
  | .malformed misfit => "Malformed message: " ++ misfit.message

namespace SavedScopes

def empty : SavedScopes := ⟨[], []⟩

/-- Each scope holds its own values and, under `prev`, the scope around it. -/
def encode (saved : SavedScopes) : Json := level saved.values saved.outer
where
  level (values : List (String × Json)) : List (List (String × Json)) → Json
  | [] => .object [("values", .object values)]
  | next :: rest => .object [("prev", level next rest), ("values", .object values)]

def misfitScopes (j : Json) : Except Json.Misfit SavedScopes :=
  j.misfit "struct SerializedEnvironment"

def decodeBindings : Json → Except Json.Misfit (List (String × Json))
  | .object fields => .ok fields
  | j => j.misfit "a map"

def assemble (values : Option (List (String × Json))) (prev : Option SavedScopes) :
    SavedScopes :=
  ⟨values.getD [], (prev.map fun p => p.values :: p.outer).getD []⟩

mutual

def decode : Json → Except Json.Misfit SavedScopes
  | .object fields => do
    let (values, prev) ← decodeParts fields
    .ok (assemble values prev)
  | .array items => decodeList items
  | .null => misfitScopes .null
  | .bool b => misfitScopes (.bool b)
  | .int n => misfitScopes (.int n)
  | .float x => misfitScopes (.float x)
  | .string s => misfitScopes (.string s)

/-- The fields in the order they stand in; unknown ones do not count. -/
def decodeParts : List (String × Json) →
    Except Json.Misfit (Option (List (String × Json)) × Option SavedScopes)
  | [] => .ok (none, none)
  | (key, j) :: rest =>
    if key == "values" then do
      let values ← decodeBindings j
      let (_, prev) ← decodeParts rest
      .ok (some values, prev)
    else if key == "prev" then do
      let prev ←
        match j with
        | .null => .ok none
        | j => (decode j).map some
      let (values, _) ← decodeParts rest
      .ok (values, prev)
    else decodeParts rest

/-- The fields by position, values first; both may be left out. -/
def decodeList : List Json → Except Json.Misfit SavedScopes
  | [] => .ok empty
  | [values] => do .ok (assemble (some (← decodeBindings values)) none)
  | values :: prev :: rest => do
    let values ← decodeBindings values
    let prev ←
      match prev with
      | .null => .ok none
      | j => (decode j).map some
    if rest.isEmpty then .ok (assemble (some values) prev)
    else .error (.wrongLength (rest.length + 2) "fewer elements in array")

end

/-- Saves a scope and those around it up to `base`, which stays here. -/
def save (s : Store) (r : Registry) (base scope : ScopeId) : SavedScopes × Registry :=
  let level := fun id r =>
    mapWith (fun (entry : String × Value) r =>
      let (j, r) := Wire.encodeValue s r entry.2
      ((entry.1, j), r)) (s.ownValues id) r
  match mapWith level ((s.chain scope).takeWhile (· != base)) r with
  | ([], r) => (empty, r)
  | (values :: outer, r) => (⟨values, outer⟩, r)

/-- Makes the saved scopes again, the outermost below `base`. -/
def restore (s : Store) (r : Registry) (base : ScopeId) (saved : SavedScopes) :
    ScopeId × Store :=
  (saved.values :: saved.outer).foldr (fun fields (parent, s) =>
    let (values, s) := Wire.decodeFields r s fields
    s.childScope parent values) (base, s)

/-- Adds a value to the innermost scope. -/
def insert (saved : SavedScopes) (name : String) (j : Json) : SavedScopes :=
  { saved with values := Json.insertField name j saved.values }

end SavedScopes

namespace Message

def encodeSource : MessageSource → Json
  | .text s => .string s
  | .node n => n.encode

def encode (m : Message) : Json :=
  .object [("env", m.scopes.encode), ("source", encodeSource m.source)]

/-- Whether JSON may be a source at all: text, or an object with a type. -/
def looksLikeSource : Json → Bool
  | .string _ => true
  | .object fields =>
    match Json.lookup "type" fields with
    | some (.string _) => true
    | _ => false
  | _ => false

def decodeSource : Json → Except Json.Misfit MessageSource
  | .string s => .ok (.text s)
  | j =>
    match Node.decode j with
    | .ok n => .ok (.node n)
    | .error _ => .error (.noVariant "MessageSource")

/-- Reads a message. Its outline is checked first, then the scopes, then the source. -/
def decode (j : Json) : Except MessageFault Message := do
  let fields ← match j with
    | .object fields => .ok fields
    | _ => .error .notObject
  let source ← match Json.lookup "source" fields with
    | some source => if looksLikeSource source then .ok source else .error .badSource
    | none => .error .noSource
  let scopes ← match Json.lookup "env" fields with
    | none => .ok .empty
    | some (.object parts) => (SavedScopes.decode (.object parts)).mapError .malformed
    | some _ => .error .badScopes
  let source ← (decodeSource source).mapError .malformed
  .ok ⟨source, scopes⟩

end Message

end EcmaMachine
