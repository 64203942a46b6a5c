import EcmaMachine.Json.View
import EcmaMachine.Proofs.Grammar.Trees
import EcmaMachine.Proofs.Wire.Fields
import EcmaMachine.Tree.Decode
import EcmaMachine.Tree.Encode

/-!
Trees as fields. A node is read from the fields that it is written with, in whatever order they
arrive: every field is read on its own, by the type that it has in nodes of this kind, and the
node is built of what was read. So it is enough to look at each type of field once, and to see
that each kind of node is written with its own fields.
-/

namespace EcmaMachine

open Json (Misfit)

/-! ## Values on their way -/

namespace Json

/-- What a value is once it is text: JSON knows no infinities, and no number that is none. -/
def written : Json → Json :=
  mapLeaves fun
    | .float x => if x.isFinite then .float x else .null
    | j => j

/-- A value as readers have it: all numbers are finite, and the fields of objects are sorted. -/
structure Canonical (j : Json) : Prop where
  written : j.written = j
  sorted : j.sorted = j

/-- A way that values take to a reader. Leaves and lists arrive as they are, fields perhaps in
another order. -/
structure Passes (view : Json → Json) : Prop where
  canonical {j : Json} (canonical : j.Canonical) : view j = j
  null : view .null = .null
  bool (b : Bool) : view (.bool b) = .bool b
  int (n : Int) : view (.int n) = .int n
  float {x : Float} (finite : x.isFinite = true) : view (.float x) = .float x
  string (s : String) : view (.string s) = .string s
  array (items : List Json) : view (.array items) = .array (items.map view)
  object {fields : List (String × Json)} (distinct : (fields.map (·.1)).Nodup) :
    ∃ fields', view (.object fields) = .object fields' ∧
      ∀ f, f ∈ fields' ↔ ∃ g ∈ fields, f = (g.1, view g.2)

theorem mapLeavesItems_eq (f : Json → Json) (items : List Json) :
    mapLeavesItems f items = items.map (mapLeaves f) := by
  induction items with
  | nil => rfl
  | cons j rest ih => rw [mapLeavesItems, ih, List.map_cons]

theorem mapLeavesFields_eq (f : Json → Json) (fields : List (String × Json)) :
    mapLeavesFields f fields = fields.map fun g => (g.1, mapLeaves f g.2) := by
  induction fields with
  | nil => rfl
  | cons g rest ih => rw [mapLeavesFields, ih, List.map_cons]

theorem sortedItems_eq (items : List Json) : sortedItems items = items.map sorted := by
  induction items with
  | nil => rfl
  | cons j rest ih => rw [sortedItems, ih, List.map_cons]

theorem sortedFields_eq (fields : List (String × Json)) :
    sortedFields fields = fields.map fun g => (g.1, sorted g.2) := by
  induction fields with
  | nil => rfl
  | cons g rest ih => rw [sortedFields, ih, List.map_cons]

theorem passes_written : Passes written where
  canonical h := h.written
  null := by rw [written, mapLeaves]
  bool b := by rw [written, mapLeaves]
  int n := by rw [written, mapLeaves]
  float finite := by simp only [written, mapLeaves, finite, if_true]
  string s := by rw [written, mapLeaves]
  array items := by rw [written, mapLeaves, mapLeavesItems_eq]
  object {fields} _ := by
    refine ⟨fields.map fun g => (g.1, written g.2), ?_, by simp [eq_comm]⟩
    rw [written, mapLeaves, mapLeavesFields_eq]

/-- A value that is kept in a map of its own before it is read has its fields sorted. -/
theorem passes_sorted : Passes (sorted ∘ written) where
  canonical h := (congrArg sorted h.written).trans h.sorted
  null := by simp only [Function.comp, passes_written.null, sorted]
  bool b := by simp only [Function.comp, passes_written.bool, sorted]
  int n := by simp only [Function.comp, passes_written.int, sorted]
  float finite := by simp only [Function.comp, passes_written.float finite, sorted]
  string s := by simp only [Function.comp, passes_written.string, sorted]
  array items := by
    simp only [Function.comp, passes_written.array, sorted, sortedItems_eq, List.map_map]
  object {fields} distinct := by
    have all : written (.object fields) = .object (fields.map fun g => (g.1, written g.2)) := by
      rw [written, mapLeaves, mapLeavesFields_eq]
    let sent : List (String × Json) := fields.map fun g => (g.1, sorted (written g.2))
    have keys : (([] ++ sent).map Prod.fst).Nodup := by simpa [sent, Function.comp_def] using distinct
    refine ⟨insertAll [] sent, ?_, fun f => ?_⟩
    · simp only [Function.comp, all, sorted, sortedFields_eq, List.map_map]
      rfl
    · rw [(perm_insertAll keys).mem_iff]
      simp [sent, eq_comm]

/-! ## Fields by name -/

variable {key : String} {j : Json} {fields : List (String × Json)}

theorem lookup_of_mem (mem : (key, j) ∈ fields) (only : ∀ j', (key, j') ∈ fields → j' = j) :
    lookup key fields = some j := by
  unfold lookup
  cases found : fields.find? fun f => f.1 == key with
  | none => exact absurd (List.find?_eq_none.1 found _ mem) (by simp)
  | some f =>
    have same : f.1 = key := by simpa using List.find?_some found
    have last := only f.2 (same ▸ List.mem_of_find?_eq_some found)
    simp [last]

theorem lookup_eq_none (absent : ∀ j, (key, j) ∉ fields) : lookup key fields = none := by
  unfold lookup
  cases found : fields.find? fun f => f.1 == key with
  | none => rfl
  | some f =>
    have same : f.1 = key := by simpa using List.find?_some found
    exact absurd (same ▸ List.mem_of_find?_eq_some found) (absent f.2)

theorem required_of_mem (mem : (key, j) ∈ fields) (only : ∀ j', (key, j') ∈ fields → j' = j) :
    required fields key = .ok j := by
  rw [required, lookup_of_mem mem only]

theorem asSize_natCast (n : Nat) : asSize (.int n) = .ok n := by
  rw [asSize, if_neg (Int.not_lt.2 (Int.natCast_nonneg n)), Int.toNat_natCast]

end Json

theorem find?_key {α : Type} {entries : List (String × α)} (distinct : (entries.map (·.1)).Nodup)
    {e : String × α} (mem : e ∈ entries) : entries.find? (·.1 == e.1) = some e := by
  cases found : entries.find? (·.1 == e.1) with
  | none => exact absurd (List.find?_eq_none.1 found e mem) (by simp)
  | some other =>
    have same : other.1 = e.1 := by simpa using List.find?_some found
    exact congrArg some (List.inj_on_of_nodup_map distinct (List.mem_of_find?_eq_some found) mem same)

/-! ## Records -/

/-- A record is read by name if every field fits on its own. -/
theorem decodeRecord_object {α : Type} {place : RecordPlace} {name : String}
    {keys optional : List String} {check : String → Json → Except Misfit Unit}
    {build : List (String × Json) → Except Misfit α} {fields : List (String × Json)}
    (fits : ∀ f ∈ fields, check f.1 f.2 = .ok ()) :
    decodeRecord place name keys optional check build (.object fields) = build fields := by
  have each : ∀ {visit : String × Json → Except Misfit Unit} {fields : List (String × Json)},
      (∀ f ∈ fields, visit f = .ok ()) → fields.forM visit = .ok () := by
    intro visit fields passes
    induction fields with
    | nil => rfl
    | cons f rest ih =>
      rw [List.forall_mem_cons] at passes
      rw [List.forM, passes.1]
      exact ih passes.2
  rw [decodeRecord, each fun f mem => by simp only [fits f mem, ite_self]]
  rfl

section Records

variable {view : Json → Json} (passes : Json.Passes view)
include passes

/-- The fields of a record with two fields, as they arrive. -/
theorem exists_pair {a b : String} (ne : a ≠ b) (x y : Json) :
    ∃ fields, view (.object [(a, x), (b, y)]) = .object fields ∧
      (∀ f ∈ fields, f = (a, view x) ∨ f = (b, view y)) ∧
      Json.lookup a fields = some (view x) ∧ Json.lookup b fields = some (view y) := by
  have distinct : ([(a, x), (b, y)].map Prod.fst).Nodup := by simpa using ne
  obtain ⟨fields, sent, mem⟩ := passes.object distinct
  have mem : ∀ f, f ∈ fields ↔ f = (a, view x) ∨ f = (b, view y) := by simpa using mem
  refine ⟨fields, sent, fun f => (mem f).1, Json.lookup_of_mem ((mem _).2 (.inl rfl)) ?_,
    Json.lookup_of_mem ((mem _).2 (.inr rfl)) ?_⟩
  · intro j found
    rcases (mem _).1 found with same | same
    · exact congrArg Prod.snd same
    · exact absurd (congrArg Prod.fst same) ne
  · intro j found
    rcases (mem _).1 found with same | same
    · exact absurd (congrArg Prod.fst same).symm ne
    · exact congrArg Prod.snd same

theorem decode_position (place : RecordPlace) (p : Position) :
    Position.decode place (view p.encode) = .ok p := by
  obtain ⟨fields, sent, all, line, column⟩ :=
    exists_pair passes (a := "line") (b := "column") (by decide) (.int p.line) (.int p.column)
  rw [Position.encode, sent, Position.decode, decodeRecord_object]
  · simp [Json.required, line, column, passes.int, Json.asSize_natCast, bind, Except.bind]
  · intro f mem
    rcases all f mem with rfl | rfl <;> simp [passes.int, Json.asSize_natCast, Except.map]

theorem decode_span (place : RecordPlace) (s : Span) :
    Span.decode place (view s.encode) = .ok s := by
  obtain ⟨fields, sent, all, start, stop⟩ :=
    exists_pair passes (a := "start") (b := "end") (by decide) s.start.encode s.stop.encode
  rw [Span.encode, sent, Span.decode, decodeRecord_object]
  · simp [Json.required, start, stop, decode_position passes, bind, Except.bind]
  · intro f mem
    rcases all f mem with rfl | rfl <;> simp [decode_position passes, Except.map]

theorem decode_regex (r : Regex) : Regex.decode (view r.encode) = .ok r := by
  obtain ⟨fields, sent, all, pattern, flags⟩ :=
    exists_pair passes (a := "pattern") (b := "flags") (by decide) (.string r.pattern)
      (.string r.flags)
  rw [Regex.encode, sent, Regex.decode, decodeRecord_object]
  · simp [Json.required, pattern, flags, passes.string, Json.asString, bind, Except.bind]
  · intro f mem
    rcases all f mem with rfl | rfl <;> simp [passes.string, Json.asString, Except.map]

theorem decode_strand (s : Strand) : Strand.decode (view s.encode) = .ok s := by
  have cooked : cookedText (view (s.cooked.elim .null .string)) = .ok s.cooked := by
    cases s.cooked <;> simp [passes.null, passes.string, cookedText, Json.asString, Except.map]
  obtain ⟨fields, sent, all, first, second⟩ :=
    exists_pair passes (a := "cooked") (b := "raw") (by decide) (s.cooked.elim .null .string)
      (.string s.raw)
  rw [Strand.encode, sent, Strand.decode, decodeRecord_object]
  · simp [Json.required, first, second, cooked, passes.string, Json.asString, bind, Except.bind]
  · intro f mem
    rcases all f mem with rfl | rfl <;> simp [cooked, passes.string, Json.asString, Except.map]

end Records

/-! ## Fields of nodes -/

namespace FieldValue

def type : FieldValue → FieldType
  | node _ => .node
  | maybeNode _ => .maybeNode
  | nodes _ => .nodes
  | maybeNodes _ => .maybeNodes
  | flag _ => .flag
  | text _ => .text
  | variableKind _ => .variableKind
  | methodKind _ => .methodKind
  | propertyKind _ => .propertyKind
  | binaryOp _ => .binaryOp
  | logicalOp _ => .logicalOp
  | unaryOp _ => .unaryOp
  | updateOp _ => .updateOp
  | assignOp _ => .assignOp
  | literalValue _ => .literalValue
  | rawText _ => .rawText
  | regex _ => .regex
  | strand _ => .strand

/-- How a field is written; raw texts and regular expressions are left out when absent. -/
def encode : FieldValue → Option Json
  | node n => some n.encode
  | maybeNode n => some (Node.encodeOption n)
  | nodes ns => some (.array (Node.encodeList ns))
  | maybeNodes ns => some (.array (Node.encodeOptions ns))
  | flag b => some (.bool b)
  | text s => some (.string s)
  | variableKind k => some (.string k.symbol)
  | methodKind k => some (.string k.symbol)
  | propertyKind k => some (.string k.symbol)
  | binaryOp o => some (.string o.symbol)
  | logicalOp o => some (.string o.symbol)
  | unaryOp o => some (.string o.symbol)
  | updateOp o => some (.string o.symbol)
  | assignOp o => some (.string o.symbol)
  | literalValue v => some (v.elim .null LiteralValue.encode)
  | rawText s => s.map .string
  | regex r => r.map Regex.encode
  | strand s => some s.encode

def children : FieldValue → List Node
  | node n => [n]
  | maybeNode n => n.toList
  | nodes ns => ns
  | maybeNodes ns => ns.filterMap id
  | _ => []

end FieldValue

def Shape.values : Shape Node → FieldValues
  | .program body | .blockStatement body | .classBody body => [("body", .nodes body)]
  | .expressionStatement expression => [("expression", .node expression)]
  | .emptyStatement | .debuggerStatement | .thisExpression => []
  | .variableDeclaration declarations kind =>
    [("declarations", .nodes declarations), ("kind", .variableKind kind)]
  | .variableDeclarator id init => [("id", .node id), ("init", .maybeNode init)]
  | .ifStatement test consequent alternate =>
    [("test", .node test), ("consequent", .node consequent), ("alternate", .maybeNode alternate)]
  | .whileStatement test body => [("test", .node test), ("body", .node body)]
  | .forStatement init test update body =>
    [("init", .maybeNode init), ("test", .maybeNode test), ("update", .maybeNode update),
      ("body", .node body)]
  | .forInStatement left right body | .forOfStatement left right body =>
    [("left", .node left), ("right", .node right), ("body", .node body)]
  | .functionDeclaration id params body generator isAsync
  | .functionExpression id params body generator isAsync =>
    [("id", .maybeNode id), ("params", .nodes params), ("body", .node body),
      ("generator", .flag generator), ("async", .flag isAsync)]
  | .returnStatement argument => [("argument", .maybeNode argument)]
  | .throwStatement argument => [("argument", .node argument)]
  | .tryStatement block handler finalizer =>
    [("block", .node block), ("handler", .maybeNode handler), ("finalizer", .maybeNode finalizer)]
  | .catchClause param body => [("param", .maybeNode param), ("body", .node body)]
  | .breakStatement label | .continueStatement label => [("label", .maybeNode label)]
  | .classDeclaration id superClass body =>
    [("id", .maybeNode id), ("superClass", .maybeNode superClass), ("body", .node body)]
  | .methodDefinition key value kind computed isStatic =>
    [("key", .node key), ("value", .node value), ("kind", .methodKind kind),
      ("computed", .flag computed), ("static", .flag isStatic)]
  | .identifier name => [("name", .text name)]
  | .literal value raw regex =>
    [("value", .literalValue value), ("raw", .rawText raw), ("regex", .regex regex)]
  | .arrayExpression elements => [("elements", .maybeNodes elements)]
  | .objectExpression properties | .objectPattern properties => [("properties", .nodes properties)]
  | .property key value kind computed shorthand method =>
    [("key", .node key), ("value", .node value), ("kind", .propertyKind kind),
      ("computed", .flag computed), ("shorthand", .flag shorthand), ("method", .flag method)]
  | .arrowFunctionExpression params body expression isAsync =>
    [("params", .nodes params), ("body", .node body), ("expression", .flag expression),
      ("async", .flag isAsync)]
  | .memberExpression object key computed =>
    [("object", .node object), ("property", .node key), ("computed", .flag computed)]
  | .callExpression callee arguments | .newExpression callee arguments =>
    [("callee", .node callee), ("arguments", .nodes arguments)]
  | .assignmentExpression operator left right =>
    [("operator", .assignOp operator), ("left", .node left), ("right", .node right)]
  | .updateExpression operator argument before =>
    [("operator", .updateOp operator), ("argument", .node argument), ("prefix", .flag before)]
  | .unaryExpression operator argument before =>
    [("operator", .unaryOp operator), ("argument", .node argument), ("prefix", .flag before)]
  | .binaryExpression operator left right =>
    [("operator", .binaryOp operator), ("left", .node left), ("right", .node right)]
  | .logicalExpression operator left right =>
    [("operator", .logicalOp operator), ("left", .node left), ("right", .node right)]
  | .conditionalExpression test consequent alternate =>
    [("test", .node test), ("consequent", .node consequent), ("alternate", .node alternate)]
  | .sequenceExpression expressions => [("expressions", .nodes expressions)]
  | .templateLiteral quasis expressions =>
    [("quasis", .nodes quasis), ("expressions", .nodes expressions)]
  | .templateElement value tail => [("value", .strand value), ("tail", .flag tail)]
  | .assignmentPattern left right => [("left", .node left), ("right", .node right)]

namespace Shape

variable {f : String × FieldValue} {shape : Shape Node}

section

variable (shape : Shape Node)

theorem fields_type : shape.type.fields = shape.values.map fun f => (f.1, f.2.type) := by
  cases shape <;> rfl

theorem children_values : shape.children = shape.values.flatMap fun f => f.2.children := by
  cases shape <;> simp [children, values, FieldValue.children]

theorem encodeShape_values :
    Node.encodeShape shape =
      shape.values.filterMap fun f => f.2.encode.map fun j => (f.1, j) := by
  cases shape with
  | literal value raw regex =>
    cases raw <;> cases regex <;> simp [Node.encodeShape, values, FieldValue.encode]
  | _ => simp [Node.encodeShape, values, FieldValue.encode]

/-- Each field has a name of its own, and no field is called like the type or the place. -/
theorem distinct_values : ("type" :: (shape.values.map (·.1) ++ ["loc"])).Nodup := by
  cases shape <;> simp [values]

theorem nodup_values : (shape.values.map Prod.fst).Nodup :=
  (List.nodup_append.1 (List.nodup_cons.1 shape.distinct_values).2).1

end

theorem ne_type_of_mem (mem : f ∈ shape.values) : f.1 ≠ "type" := by
  rintro same
  refine (List.nodup_cons.1 shape.distinct_values).1 (List.mem_append_left _ ?_)
  exact same ▸ List.mem_map_of_mem mem

theorem ne_loc_of_mem (mem : f ∈ shape.values) : f.1 ≠ "loc" :=
  (List.nodup_append.1 (List.nodup_cons.1 shape.distinct_values).2).2.2 _
    (List.mem_map_of_mem mem) _ List.mem_cons_self

theorem literal_of_mem (mem : f ∈ shape.values) {w : LiteralValue}
    (same : f.2 = .literalValue (some w)) : ∃ raw regex, shape = .literal (some w) raw regex := by
  cases shape with
  | literal value raw regex =>
    simp only [values, List.mem_cons, List.not_mem_nil, or_false] at mem
    rcases mem with rfl | rfl | rfl <;> cases same
    exact ⟨raw, regex, rfl⟩
  | _ => simp only [values, List.mem_cons, List.not_mem_nil, or_false] at mem <;> grind

theorem ofName?_name (type : NodeType) : NodeType.ofName? type.name = some type := by
  cases type <;> rfl

/-- A node is built of the fields that were written. -/
theorem build_values {fs : FieldValues}
    (read : ∀ f ∈ shape.values, fs.get? f.1 = if f.2.encode.isSome then some f.2 else none) :
    shape.type.build fs = .ok shape := by
  cases shape with
  | literal value raw regex =>
    cases raw <;> cases regex <;> simp_all [values, FieldValue.encode, type, NodeType.build]
  | _ =>
    simp only [values, List.forall_mem_cons, FieldValue.encode, Option.isSome_some, if_true] at read
    simp [type, NodeType.build, FieldValues.node, FieldValues.nodes, FieldValues.maybeNodes,
      FieldValues.maybeNode, FieldValues.flag, FieldValues.need, read, bind, Except.bind]

end Shape

end EcmaMachine
