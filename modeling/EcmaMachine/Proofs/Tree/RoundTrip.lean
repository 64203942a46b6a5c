import EcmaMachine.Proofs.Grammar.Expressions
import EcmaMachine.Proofs.Tree.Fields
import EcmaMachine.Wire.Message

/-!
Trees and messages on their way. What is read from the JSON of a tree is the tree, and what is read
from the JSON of a message is the message, if the literals can be told apart there: numbers are
finite, and what is no literal of its own is an array or an object. Trees that are parsed have
nothing but finite numbers to care for.
-/

namespace EcmaMachine

open Json (Misfit)

/-! ## Fields -/

/-- Arrays and objects; all other JSON stands for a literal or for none. -/
def Json.isComposite : Json → Bool
  | .array _ | .object _ => true
  | _ => false

def LiteralValue.Portable : LiteralValue → Prop
  | .number x => x.isFinite = true
  | .unsupported j => j.isComposite = true ∧ j.Canonical
  | _ => True

namespace Node

variable {types : List (String × FieldType)}

/-- All literals in the tree can be told from its JSON. -/
def Portable (tree : Node) : Prop :=
  ∀ n, tree.Within n → ∀ v raw regex, n.shape = .literal (some v) raw regex → v.Portable

theorem Portable.child {n m : Node} (h : n.Portable) (mem : m ∈ n.children) : m.Portable :=
  fun k within => h k (within.of_child mem)

theorem portable_of_children {n : Node}
    (own : ∀ v raw regex, n.shape = .literal (some v) raw regex → v.Portable)
    (h : ∀ m ∈ n.children, m.Portable) : n.Portable := by
  intro m within
  rcases within.cases_root with rfl | ⟨child, mem, within⟩
  · exact own
  · exact h child mem m within

/-- No number literal in the tree is infinite, or no number. -/
def Finite (tree : Node) : Prop :=
  ∀ n, tree.Within n → ∀ x raw regex, n.shape = .literal (some (.number x)) raw regex →
    x.isFinite = true

theorem portable_of_parse {text : String} {tree : Node} (parsed : parse text = .ok tree)
    (finite : tree.Finite) : tree.Portable := by
  intro n within v raw regex shape
  have formed := ((statement_of_parse parsed).2 n within).2
  simp only [Formed, shape] at formed
  cases v with
  | bool b => trivial
  | number x => exact finite n within x raw regex shape
  | string s => trivial
  | unsupported json => exact formed.2.elim

theorem sizeOf_child {n m : Node} (mem : m ∈ n.children) : sizeOf m < sizeOf n := by
  have list : ∀ {ns : List Node}, m ∈ ns → sizeOf m < sizeOf ns := List.sizeOf_lt_of_mem
  have option : ∀ {o : Option Node}, m ∈ o.toList → sizeOf m < sizeOf o := by
    intro o mem
    obtain rfl := Option.mem_toList.1 mem
    simp
  have options : ∀ {ns : List (Option Node)}, m ∈ ns.filterMap id → sizeOf m < sizeOf ns := by
    intro ns mem
    obtain ⟨o, there, found⟩ := List.mem_filterMap.1 mem
    obtain rfl : o = some m := found
    have smaller := List.sizeOf_lt_of_mem there
    rw [Option.some.sizeOf_spec] at smaller
    omega
  obtain ⟨shape, loc⟩ := n
  cases shape <;> simp only [children, Node.shape, Shape.children, List.mem_append, List.mem_cons,
    List.not_mem_nil, or_false] at mem <;> grind

def decodeField (type : FieldType) (j : Json) : Except Misfit FieldValue :=
  match type with
  | .node => (decodeAt .inner j).map .node
  | .maybeNode =>
    match j with
    | .null => .ok (.maybeNode none)
    | j => (decodeAt .inner j).map fun n => .maybeNode (some n)
  | .nodes =>
    match j with
    | .array items => (decodeItems items).map .nodes
    | j => j.misfit "a sequence"
  | .maybeNodes =>
    match j with
    | .array items => (decodeOptions items).map .maybeNodes
    | j => j.misfit "a sequence"
  | type => decodeLeaf type j

theorem decodeFields_of_unknown {f : String × Json} (unknown : types.find? (·.1 == f.1) = none)
    (rest : List (String × Json)) : decodeFields types (f :: rest) = decodeFields types rest := by
  obtain ⟨key, j⟩ := f
  rw [decodeFields, unknown]

theorem decodeFields_of_known {f : String × Json} {t : String × FieldType}
    (known : types.find? (·.1 == f.1) = some t) {v : FieldValue}
    (read : decodeField t.2 f.2 = .ok v) {rest : List (String × Json)} {values : FieldValues}
    (others : decodeFields types rest = .ok values) :
    decodeFields types (f :: rest) = .ok ((f.1, v) :: values) := by
  obtain ⟨key, j⟩ := f
  obtain ⟨_, type⟩ := t
  have read : (decodeField type j >>= fun value => decodeFields types rest >>= fun values =>
      .ok ((key, value) :: values)) = .ok ((key, v) :: values) := by
    rw [read, others]
    rfl
  rw [decodeFields, known]
  cases type with
  | maybeNode | nodes | maybeNodes => cases j <;> exact read
  | _ => exact read

/-- Fields that are read one by one are read together, each once. -/
theorem exists_decodeFields {fields : List (String × Json)} {known : FieldValues}
    (each : ∀ f ∈ fields, ∀ t, types.find? (·.1 == f.1) = some t →
      ∃ v, decodeField t.2 f.2 = .ok v ∧ (f.1, v) ∈ known) :
    ∃ values, decodeFields types fields = .ok values ∧
      (∀ p ∈ values, p ∈ known ∧ p.1 ∈ fields.map (·.1)) ∧
      ∀ f ∈ fields, (types.find? (·.1 == f.1)).isSome = true → f.1 ∈ values.map (·.1) := by
  induction fields with
  | nil => exact ⟨[], by rw [decodeFields], by simp, by simp⟩
  | cons f rest ih =>
    rw [List.forall_mem_cons] at each
    obtain ⟨values, read, of, all⟩ := ih each.2
    cases found : types.find? (·.1 == f.1) with
    | none =>
      refine ⟨values, (decodeFields_of_unknown found rest).trans read, fun p mem => ?_, ?_⟩
      · exact ⟨(of p mem).1, List.mem_cons_of_mem _ (of p mem).2⟩
      · rw [List.forall_mem_cons]
        exact ⟨fun some => by simp [found] at some, all⟩
    | some t =>
      obtain ⟨v, own, mem⟩ := each.1 t found
      refine ⟨(f.1, v) :: values, decodeFields_of_known found own read, ?_, ?_⟩
      · rw [List.forall_mem_cons]
        refine ⟨⟨mem, by simp⟩, fun p mem => ?_⟩
        exact ⟨(of p mem).1, List.mem_cons_of_mem _ (of p mem).2⟩
      · rw [List.forall_mem_cons]
        refine ⟨fun _ => by simp, fun g mem known => ?_⟩
        exact List.mem_cons_of_mem _ (all g mem known)

def Arrives (view : Json → Json) (n : Node) (fields : List (String × Json)) : Prop :=
  ∀ f, f ∈ fields ↔ f = ("type", .string n.type.name) ∨
    (∃ v ∈ n.shape.values, ∃ j, v.2.encode = some j ∧ f = (v.1, view j)) ∨
    ∃ span, n.loc = some span ∧ f = ("loc", view span.encode)

end Node

section Fields

variable {view : Json → Json} (passes : Json.Passes view)
include passes

omit passes in
theorem keys_encode (values : FieldValues) :
    ((values.filterMap fun f => f.2.encode.map fun j => (f.1, j)).map Prod.fst).Sublist
      (values.map Prod.fst) := by
  induction values with
  | nil => exact .slnil
  | cons f rest ih =>
    cases written : f.2.encode with
    | none =>
      rw [List.filterMap_cons, written]
      exact ih.cons _
    | some j =>
      rw [List.filterMap_cons, written]
      exact ih.cons_cons _

theorem exists_arrives (n : Node) :
    ∃ fields, view n.encode = .object fields ∧ n.Arrives view fields := by
  obtain ⟨shape, loc⟩ := n
  let place : List (String × Json) := (loc.map fun span => ("loc", span.encode)).toList
  have keys : ((("type", .string shape.type.name) :: (Node.encodeShape shape ++ place)).map
      Prod.fst).Sublist ("type" :: (shape.values.map Prod.fst ++ ["loc"])) := by
    rw [List.map_cons, List.map_append, Shape.encodeShape_values]
    refine .cons_cons _ (.append (keys_encode shape.values) ?_)
    cases loc <;> simp [place]
  obtain ⟨fields, sent, mem⟩ := passes.object (keys.nodup shape.distinct_values)
  refine ⟨fields, by rw [Node.encode, sent], fun f => ?_⟩
  rw [mem, Shape.encodeShape_values]
  simp only [List.mem_cons, List.mem_append, List.mem_filterMap, Option.map_eq_some_iff, place,
    Option.mem_toList]
  constructor
  · rintro ⟨g, rfl | ⟨v, mem, j, written, rfl⟩ | ⟨span, rfl, rfl⟩, rfl⟩
    · exact .inl (by rw [passes.string]; rfl)
    · exact .inr (.inl ⟨v, mem, j, written, rfl⟩)
    · exact .inr (.inr ⟨span, rfl, rfl⟩)
  · rintro (rfl | ⟨v, mem, j, written, rfl⟩ | ⟨span, same, rfl⟩)
    · exact ⟨_, .inl rfl, by rw [passes.string]; rfl⟩
    · exact ⟨_, .inr (.inl ⟨v, mem, j, written, rfl⟩), rfl⟩
    · exact ⟨_, .inr (.inr ⟨span, same, rfl⟩), rfl⟩

omit passes in
theorem decodeItems_encode {ns : List Node}
    (each : ∀ n ∈ ns, Node.decodeAt .inner (view n.encode) = .ok n) :
    Node.decodeItems ((Node.encodeList ns).map view) = .ok ns := by
  induction ns with
  | nil => simp [Node.encodeList, Node.decodeItems]
  | cons n rest ih =>
    rw [List.forall_mem_cons] at each
    simp [Node.encodeList, Node.decodeItems, each.1, ih each.2, bind, Except.bind]

theorem decodeOptions_encode {ns : List (Option Node)}
    (each : ∀ n ∈ ns.filterMap id, Node.decodeAt .inner (view n.encode) = .ok n) :
    Node.decodeOptions ((Node.encodeOptions ns).map view) = .ok ns := by
  induction ns with
  | nil => simp [Node.encodeOptions, Node.decodeOptions]
  | cons n rest ih =>
    cases n with
    | none =>
      have rest := ih (by simpa using each)
      simp [Node.encodeOptions, Node.encodeOption, Node.decodeOptions, passes.null, rest, bind,
        Except.bind]
    | some n =>
      simp only [List.filterMap_cons, id, List.forall_mem_cons] at each
      obtain ⟨fields, sent, -⟩ := exists_arrives passes n
      have first := each.1
      rw [sent] at first
      simp [Node.encodeOptions, Node.encodeOption, Node.decodeOptions, sent, first, ih each.2, bind,
        Except.bind, Except.map]

theorem decode_literal {v : Option LiteralValue} (portable : ∀ w, v = some w → w.Portable) :
    LiteralValue.decode (view (v.elim .null LiteralValue.encode)) = v := by
  cases v with
  | none => simp [passes.null, LiteralValue.decode]
  | some w =>
    have portable := portable w rfl
    cases w with
    | bool b => simp [LiteralValue.encode, passes.bool, LiteralValue.decode]
    | number x => simp [LiteralValue.encode, passes.float portable, LiteralValue.decode]
    | string s => simp [LiteralValue.encode, passes.string, LiteralValue.decode]
    | unsupported j =>
      simp only [Option.elim, LiteralValue.encode, passes.canonical portable.2]
      cases j <;> first | rfl | cases portable.1

/-- Every field is read as it was written, whatever its type. -/
theorem decodeField_encode {v : FieldValue} {j : Json} (written : v.encode = some j)
    (children : ∀ n ∈ v.children, Node.decodeAt .inner (view n.encode) = .ok n)
    (portable : ∀ w, v = .literalValue (some w) → w.Portable) :
    Node.decodeField v.type (view j) = .ok v := by
  cases v with
  | node n =>
    cases written
    simp [FieldValue.type, Node.decodeField, children n (by simp [FieldValue.children]), Except.map]
  | maybeNode n =>
    cases written
    cases n with
    | none => simp [FieldValue.type, Node.decodeField, Node.encodeOption, passes.null]
    | some n =>
      obtain ⟨fields, sent, -⟩ := exists_arrives passes n
      have first := children n (by simp [FieldValue.children])
      rw [sent] at first
      simp [FieldValue.type, Node.decodeField, Node.encodeOption, sent, first, Except.map]
  | nodes ns =>
    cases written
    have read : Node.decodeItems ((Node.encodeList ns).map view) = .ok ns := decodeItems_encode children
    simp [FieldValue.type, Node.decodeField, passes.array, read, Except.map]
  | maybeNodes ns =>
    cases written
    have read : Node.decodeOptions ((Node.encodeOptions ns).map view) = .ok ns :=
      decodeOptions_encode passes children
    simp [FieldValue.type, Node.decodeField, passes.array, read, Except.map]
  | flag b =>
    cases written
    simp [FieldValue.type, Node.decodeField, decodeLeaf, passes.bool, Json.asBool, Except.map]
  | text s =>
    cases written
    simp [FieldValue.type, Node.decodeField, decodeLeaf, passes.string, Json.asString, Except.map]
  | literalValue w =>
    cases written
    have read := decode_literal passes (v := w) fun x same => portable x (same ▸ rfl)
    simp [FieldValue.type, Node.decodeField, decodeLeaf, read]
  | rawText s =>
    obtain ⟨s, rfl, rfl⟩ := Option.map_eq_some_iff.1 written
    simp [FieldValue.type, Node.decodeField, decodeLeaf, passes.string, Json.asString, Except.map]
  | regex r =>
    obtain ⟨r, rfl, rfl⟩ := Option.map_eq_some_iff.1 written
    have read := decode_regex passes r
    obtain ⟨fields, sent, -⟩ : ∃ fields, view r.encode = .object fields ∧ _ :=
      exists_pair passes (a := "pattern") (b := "flags") (by decide) _ _
    rw [sent] at read
    simp [FieldValue.type, Node.decodeField, decodeLeaf, sent, read, Except.map]
  | strand s =>
    cases written
    simp [FieldValue.type, Node.decodeField, decodeLeaf, decode_strand passes, Except.map]
  | variableKind k | methodKind k | propertyKind k | logicalOp k | updateOp k | unaryOp k
  | binaryOp k | assignOp k =>
    cases written
    rw [passes.string]
    cases k <;> rfl

/-! ## Trees -/

end Fields

namespace Node.Arrives

variable {view : Json → Json} {n : Node} {fields : List (String × Json)} (h : n.Arrives view fields)
  {j : Json}
include h

theorem type (mem : ("type", j) ∈ fields) : j = .string n.type.name := by
  rcases (h _).1 mem with same | ⟨v, own, _, -, same⟩ | ⟨span, -, same⟩
  · exact congrArg Prod.snd same
  · exact absurd (congrArg Prod.fst same).symm (Shape.ne_type_of_mem own)
  · simp at same

theorem place (mem : ("loc", j) ∈ fields) : ∃ span, n.loc = some span ∧ j = view span.encode := by
  rcases (h _).1 mem with same | ⟨v, own, _, -, same⟩ | ⟨span, known, same⟩
  · simp at same
  · exact absurd (congrArg Prod.fst same).symm (Shape.ne_loc_of_mem own)
  · exact ⟨span, known, congrArg Prod.snd same⟩

theorem value {v : String × FieldValue} (own : v ∈ n.shape.values) (mem : (v.1, j) ∈ fields) :
    ∃ j', v.2.encode = some j' ∧ j = view j' := by
  rcases (h _).1 mem with same | ⟨w, other, j', written, same⟩ | ⟨span, -, same⟩
  · exact absurd (congrArg Prod.fst same) (Shape.ne_type_of_mem own)
  · have key : v.1 = w.1 := (Prod.mk.inj same).1
    obtain rfl := List.inj_on_of_nodup_map n.shape.nodup_values own other key
    exact ⟨j', written, (Prod.mk.inj same).2⟩
  · exact absurd (congrArg Prod.fst same) (Shape.ne_loc_of_mem own)

theorem decodeLoc (passes : Json.Passes view) (place : RecordPlace) :
    EcmaMachine.decodeLoc place fields = .ok n.loc := by
  unfold EcmaMachine.decodeLoc
  cases known : n.loc with
  | none =>
    have absent : Json.lookup "loc" fields = none := by
      refine Json.lookup_eq_none fun j mem => ?_
      obtain ⟨span, found, -⟩ := h.place mem
      cases known.symm.trans found
    rw [absent]
  | some span =>
    have found : Json.lookup "loc" fields = some (view span.encode) := by
      refine Json.lookup_of_mem ((h _).2 (.inr (.inr ⟨span, known, rfl⟩))) fun j mem => ?_
      obtain ⟨other, found, rfl⟩ := h.place mem
      cases known.symm.trans found
      rfl
    obtain ⟨parts, sent, -⟩ : ∃ parts, view span.encode = .object parts ∧ _ :=
      exists_pair passes (a := "start") (b := "end") (by decide) _ _
    have read := decode_span passes place span
    rw [sent] at found read
    simp [found, read, Except.map]

theorem decodeType : EcmaMachine.decodeType fields = .ok n.type := by
  have found : Json.required fields "type" = .ok (.string n.type.name) :=
    Json.required_of_mem ((h _).2 (.inl rfl)) fun _ => h.type
  simp [EcmaMachine.decodeType, found, Shape.ofName?_name, bind, Except.bind]

/-- If each field is read on its own, the node is built of them. -/
theorem build (each : ∀ v ∈ n.shape.values, ∀ j, v.2.encode = some j →
    decodeField v.2.type (view j) = .ok v.2) :
    (decodeFields n.type.fields fields).bind n.type.build = .ok n.shape := by
  have types : n.type.fields = n.shape.values.map fun f => (f.1, f.2.type) := n.shape.fields_type
  have find : ∀ {v}, v ∈ n.shape.values →
      n.type.fields.find? (·.1 == v.1) = some (v.1, v.2.type) := by
    intro v own
    have distinct : (n.type.fields.map Prod.fst).Nodup := by
      simpa [types, Function.comp_def] using n.shape.nodup_values
    exact find?_key distinct (e := (v.1, v.2.type)) (types ▸ List.mem_map_of_mem own)
  have known : ∀ f ∈ fields, ∀ t, n.type.fields.find? (·.1 == f.1) = some t →
      ∃ v, decodeField t.2 f.2 = .ok v ∧ (f.1, v) ∈ n.shape.values := by
    intro f mem t found
    have known := List.mem_of_find?_eq_some found
    have same : t.1 = f.1 := by simpa using List.find?_some found
    rw [types] at known
    obtain ⟨v, own, rfl⟩ := List.mem_map.1 known
    obtain ⟨key, j⟩ := f
    cases same
    obtain ⟨j', written, rfl⟩ := h.value own mem
    exact ⟨v.2, each v own j' written, own⟩
  obtain ⟨values, read, of, all⟩ := exists_decodeFields known
  rw [read]
  refine Shape.build_values fun v own => ?_
  unfold FieldValues.get?
  cases found : values.find? (·.1 == v.1) with
  | none =>
    have absent := List.find?_eq_none.1 found
    have none : v.2.encode.isSome = false := by
      rw [Option.isSome_eq_false_iff, Option.isNone_iff_eq_none]
      by_contra written
      obtain ⟨j, written⟩ := Option.ne_none_iff_exists'.1 written
      have there := all _ ((h (v.1, view j)).2 (.inr (.inl ⟨v, own, j, written, rfl⟩)))
        (by simp [find own])
      obtain ⟨p, mem, same⟩ := List.mem_map.1 there
      exact absent p mem (by simpa using same)
    simp [none]
  | some p =>
    have mem := List.mem_of_find?_eq_some found
    have same : p.1 = v.1 := by simpa using List.find?_some found
    obtain ⟨known, arrived⟩ := of p mem
    obtain rfl := List.inj_on_of_nodup_map n.shape.nodup_values known own same
    obtain ⟨⟨key, j⟩, arrived, same⟩ := List.mem_map.1 arrived
    cases same
    obtain ⟨j', written, -⟩ := h.value own arrived
    simp [written]

end Node.Arrives

section Fields

variable {view : Json → Json} (passes : Json.Passes view)
include passes

theorem decodeAt_encode (n : Node) (portable : n.Portable) (place : RecordPlace) :
    Node.decodeAt place (view n.encode) = .ok n := by
  have parts : ∀ v ∈ n.shape.values, ∀ j, v.2.encode = some j →
      Node.decodeField v.2.type (view j) = .ok v.2 := by
    intro v own j written
    refine decodeField_encode passes written (fun m mem => ?_) fun w same => ?_
    · have child : m ∈ n.children := by
        rw [Node.children, Shape.children_values]
        exact List.mem_flatMap.2 ⟨v, own, mem⟩
      have smaller := Node.sizeOf_child child
      exact decodeAt_encode m (portable.child child) .inner
    · obtain ⟨raw, regex, shape⟩ := Shape.literal_of_mem own same
      exact portable n .here w raw regex shape
  obtain ⟨fields, sent, arrives⟩ := exists_arrives passes n
  have built := arrives.build parts
  obtain ⟨shape, loc⟩ := n
  rw [sent, Node.decodeAt, arrives.decodeLoc passes place, arrives.decodeType]
  simp only [bind, Except.bind] at built ⊢
  cases read : Node.decodeFields (Node.mk shape loc).type.fields fields with
  | error e => simp [read] at built
  | ok values =>
    rw [read] at built
    simp only at built ⊢
    rw [built]
    rfl
termination_by sizeOf n

/-! ## Messages -/

def SavedScopes.Canonical (saved : SavedScopes) : Prop :=
  ∀ values ∈ saved.values :: saved.outer, (Json.object values).Canonical

omit passes in
/-- The two fields of a scope, in any order. -/
theorem decodeParts_of_each {fields values parts : List (String × Json)} {prev : SavedScopes}
    (around : SavedScopes.decode (.object parts) = .ok prev)
    (each : ∀ f ∈ fields, f = ("values", .object values) ∨ f = ("prev", .object parts)) :
    SavedScopes.decodeParts fields = .ok ((Json.lookup "values" fields).map fun _ => values,
      (Json.lookup "prev" fields).map fun _ => prev) := by
  induction fields with
  | nil =>
    rw [SavedScopes.decodeParts]
    rfl
  | cons f rest ih =>
    rw [List.forall_mem_cons] at each
    have rest := ih each.2
    rcases each.1 with rfl | rfl
    · simp [SavedScopes.decodeParts, SavedScopes.decodeBindings, rest, Json.lookup, bind, Except.bind]
    · simp [SavedScopes.decodeParts, around, rest, Json.lookup, bind, Except.bind, Except.map]

theorem exists_level (values : List (String × Json)) (outer : List (List (String × Json))) :
    ∃ parts, view (SavedScopes.encode.level values outer) = .object parts := by
  cases outer with
  | nil =>
    have distinct : ([("values", Json.object values)].map Prod.fst).Nodup := by simp
    obtain ⟨parts, sent, -⟩ := passes.object distinct
    exact ⟨parts, sent⟩
  | cons next rest =>
    obtain ⟨parts, sent, -⟩ := exists_pair passes (a := "prev") (b := "values") (by decide)
      (SavedScopes.encode.level next rest) (.object values)
    exact ⟨parts, sent⟩

theorem decode_level {values : List (String × Json)} {outer : List (List (String × Json))}
    (canonical : ∀ level ∈ values :: outer, (Json.object level).Canonical) :
    SavedScopes.decode (view (SavedScopes.encode.level values outer)) = .ok ⟨values, outer⟩ := by
  induction outer generalizing values with
  | nil =>
    have same := passes.canonical (canonical values List.mem_cons_self)
    have distinct : ([("values", Json.object values)].map Prod.fst).Nodup := by simp
    obtain ⟨fields, sent, mem⟩ := passes.object distinct
    simp only [List.mem_singleton, exists_eq_left, same] at mem
    have own : Json.lookup "values" fields = some (.object values) :=
      Json.lookup_of_mem ((mem _).2 rfl) fun j found => (Prod.mk.inj ((mem _).1 found)).2
    have prev : Json.lookup "prev" fields = none :=
      Json.lookup_eq_none fun j found => by simpa using (mem _).1 found
    have nothing : SavedScopes.decode (.object []) = .ok .empty := by
      rw [SavedScopes.decode, SavedScopes.decodeParts]
      rfl
    have read := decodeParts_of_each nothing fun f found => .inl ((mem f).1 found)
    rw [SavedScopes.encode.level, sent, SavedScopes.decode, read, own, prev]
    rfl
  | cons next rest ih =>
    rw [List.forall_mem_cons] at canonical
    have around := ih canonical.2
    obtain ⟨parts, object⟩ := exists_level passes next rest
    obtain ⟨fields, sent, all, prev, own⟩ := exists_pair passes (a := "prev") (b := "values")
      (by decide) (SavedScopes.encode.level next rest) (.object values)
    rw [object] at around prev
    simp only [passes.canonical canonical.1, object] at all
    have read := decodeParts_of_each around fun f mem => (all f mem).symm
    rw [SavedScopes.encode.level, sent, SavedScopes.decode, read, own, prev]
    rfl

/-- What is sent as a source: text, or a tree whose literals can be told from its JSON. -/
def MessageSource.Portable : MessageSource → Prop
  | .text _ => True
  | .node n => n.Portable

theorem decode_source {source : MessageSource} (portable : source.Portable) :
    Message.looksLikeSource (view (Message.encodeSource source)) = true ∧
      Message.decodeSource (view (Message.encodeSource source)) = .ok source := by
  cases source with
  | text s => simp [Message.encodeSource, passes.string, Message.looksLikeSource, Message.decodeSource]
  | node n =>
    obtain ⟨fields, sent, arrives⟩ := exists_arrives passes n
    have type : Json.lookup "type" fields = some (.string n.type.name) :=
      Json.lookup_of_mem ((arrives _).2 (.inl rfl)) fun _ => arrives.type
    have read : Node.decode (view n.encode) = .ok n := decodeAt_encode passes n portable .outer
    rw [sent] at read
    simp [Message.encodeSource, sent, Message.looksLikeSource, type, Message.decodeSource, read]

theorem decode_message {m : Message} (source : m.source.Portable) (scopes : m.scopes.Canonical) :
    Message.decode (view m.encode) = .ok m := by
  obtain ⟨fields, sent, -, env, found⟩ := exists_pair passes (a := "env") (b := "source") (by decide)
    m.scopes.encode (Message.encodeSource m.source)
  obtain ⟨parts, object⟩ := exists_level passes m.scopes.values m.scopes.outer
  obtain ⟨looks, read⟩ := decode_source passes source
  have saved : SavedScopes.decode (.object parts) = .ok m.scopes := by
    rw [← object]
    exact decode_level passes scopes
  have env : Json.lookup "env" fields = some (.object parts) := env.trans (congrArg some object)
  rw [Message.encode, sent]
  simp [Message.decode, found, looks, env, saved, read, bind, Except.bind, Except.mapError]

end Fields

/-- Trees and messages are read as they were written, from the text itself or from a map with sorted
keys. Trees that are parsed are among them. -/
theorem trees_and_messages_survive :
    (∀ n : Node, n.Portable →
      Node.decode n.encode.written = .ok n ∧ Node.decode n.encode.written.sorted = .ok n) ∧
    (∀ (text : String) (tree : Node), parse text = .ok tree → tree.Finite → tree.Portable) ∧
    ∀ m : Message, m.source.Portable → m.scopes.Canonical →
      Message.decode m.encode.written = .ok m ∧ Message.decode m.encode.written.sorted = .ok m :=
  ⟨fun n portable => ⟨decodeAt_encode Json.passes_written n portable .outer,
    decodeAt_encode Json.passes_sorted n portable .outer⟩,
   fun _ _ => Node.portable_of_parse,
   fun _ source scopes => ⟨decode_message Json.passes_written source scopes,
    decode_message Json.passes_sorted source scopes⟩⟩

namespace Sample

/-- A list with a number, a hole, and a literal that is none. -/
def mixedList : Node :=
  ⟨.arrayExpression [some ⟨.literal (some (.number 1.5)) (some "1.5") none, some ⟨⟨1, 1⟩, ⟨1, 4⟩⟩⟩,
    none, some ⟨.literal (some (.unsupported (.object [("a", .array [.null])]))) none
      (some ⟨"a+", "g"⟩), none⟩], none⟩

def mixedLetter : Message := ⟨.node mixedList, ⟨[("f", .object [("id", .int 7)])], [[("x", .null)]]⟩⟩

theorem portable_mixedList : mixedList.Portable := by
  have literal : ∀ {v : LiteralValue} {raw : Option String} {regex : Option Regex}
      {loc : Option Span}, v.Portable → (Node.mk (.literal (some v) raw regex) loc).Portable := by
    intro v raw regex loc portable
    refine Node.portable_of_children ?_ nofun
    rintro _ _ _ ⟨⟩
    exact portable
  refine Node.portable_of_children nofun (List.forall_mem_cons.2 ⟨literal ?_, ?_⟩)
  · show (1.5 : Float).isFinite = true
    decide +kernel
  · exact List.forall_mem_singleton.2 (literal ⟨rfl, by cbv, by cbv⟩)

theorem mixedLetter_survives :
    Message.decode mixedLetter.encode.written = .ok mixedLetter ∧
      Message.decode mixedLetter.encode.written.sorted = .ok mixedLetter := by
  refine trees_and_messages_survive.2.2 mixedLetter portable_mixedList ?_
  have own : (Json.object [("f", .object [("id", .int 7)])]).Canonical := ⟨by cbv, by cbv⟩
  have outer : (Json.object [("x", .null)]).Canonical := ⟨by cbv, by cbv⟩
  exact List.forall_mem_cons.2 ⟨own, List.forall_mem_singleton.2 outer⟩

end Sample

end EcmaMachine
