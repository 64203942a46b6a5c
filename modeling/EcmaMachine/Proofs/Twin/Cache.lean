import EcmaMachine.Proofs.ParseCache
import EcmaMachine.Proofs.Twin.Step

/-!
Texts that are evaluated one after another, with a cache of their trees and without. Without a cache
each evaluation has a tree of its own; with one, all evaluations of a text share a tree. So the run
with a cache is the other one under other names, as long as no declaration meets a function that it
made itself in an earlier evaluation: with a cache it takes that function for its own.
-/

namespace EcmaMachine

variable {η : Type} {context : Nat}

/-! ## Texts one after another -/

/-- A text to evaluate, with the one who gets the outcome, its bindings, and its config if that is
not the one of the context. -/
structure Script where
  text : String
  recipient : Recipient
  bindings : Bindings
  config : Option Config

def Script.parses (x : Script) : Bool := (parse x.text).isOk

instance Ledger.decidableThroughout (host : Host η) (P : State η → Prop) [DecidablePred P] :
    (n : Nat) → (l : Ledger) → (s : State η) → Decidable (l.Throughout host P n s)
  | 0, _, _ => .isFalse id
  | n + 1, l, s =>
    haveI : Decidable (match l.step host s with
        | none => True
        | some (l, s) => l.Throughout host P n s) :=
      match l.step host s with
      | none => .isTrue trivial
      | some (l, s) => decidableThroughout host P n l s
    inferInstanceAs (Decidable (_ ∧ _))

namespace Realm

def evaluateScript (host : Host η) (fuel context : Nat) (r : Realm η) (x : Script) : Realm η :=
  r.evaluate host fuel context (.text x.text) x.recipient x.bindings x.config

def evaluateAll (host : Host η) (fuel context : Nat) (r : Realm η) (scripts : List Script) :
    Realm η :=
  scripts.foldl (evaluateScript host fuel context) r

def withCache (r : Realm η) (context : Nat) (cache : Option ParseCache) : Realm η :=
  { r with ledger := r.ledger.setCache context cache }

def opening (r : Realm η) (context : Nat) (x : Script) : Option (Ledger × State η) :=
  (r.ledger.context? context).bind fun c =>
    let (resolved, cache) := (Source.text x.text).resolve c.cache
    resolved.toOption.map fun found =>
      let (scope, store) := bindScope r.world.store c.scope x.bindings
      begun ⟨{ r.world with store }, r.ledger.setCache context cache⟩ found.tree
        (found.number.map (TreeId.cached context)) scope (x.config.getD c.config) x.recipient

/-- The states that the machine goes through when the scripts are evaluated. -/
inductive Passes (host : Host η) (fuel context : Nat) : Realm η → List Script → State η → Prop
  | here {r : Realm η} {x : Script} {rest : List Script} {l l' : Ledger} {s s' : State η} {n : Nat}
    (opens : r.opening context x = some (l, s)) (lt : n < fuel)
    (reached : l.after host n s = some (l', s')) : Passes host fuel context r (x :: rest) s'
  | later {r : Realm η} {x : Script} {rest : List Script} {s : State η} :
    Passes host fuel context (r.evaluateScript host fuel context x) rest s →
    Passes host fuel context r (x :: rest) s

/-- The machine comes to rest within `n` steps for each of the scripts, and `P` is true of all states
that it goes through. -/
def Throughout (host : Host η) (fuel context : Nat) (P : State η → Prop) (n : Nat) :
    Realm η → List Script → Prop
  | _, [] => True
  | r, x :: rest => (∀ begun ∈ r.opening context x, begun.1.Throughout host P n begun.2) ∧
    Throughout host fuel context P n (r.evaluateScript host fuel context x) rest

theorem Throughout.passes {host : Host η} {fuel context n : Nat} {P : State η → Prop} {r : Realm η}
    {scripts : List Script} {s : State η} (h : r.Throughout host fuel context P n scripts)
    (passes : r.Passes host fuel context scripts s) : P s := by
  induction passes with
  | here opens _ reached => exact (h.1 _ opens).after reached
  | later _ ih => exact ih h.2

instance decidableThroughout (host : Host η) (fuel context : Nat) (P : State η → Prop)
    [DecidablePred P] (n : Nat) : (r : Realm η) → (scripts : List Script) →
    Decidable (r.Throughout host fuel context P n scripts)
  | _, [] => .isTrue trivial
  | r, x :: rest =>
    haveI := decidableThroughout host fuel context P n (r.evaluateScript host fuel context x) rest
    inferInstanceAs (Decidable (_ ∧ _))

def keeping (g : TreeId → TreeId) (context : Nat) (cache : Option ParseCache) (r : Realm η) :
    Realm η :=
  ⟨r.world.mapTree g, r.ledger.keeping g context cache⟩

end Realm

/-! ## One text -/

theorem Ledger.exists_of_caches {l : Ledger} (uncached : l.caches[context]? = some none) :
    ∃ c, l.context? context = some c ∧ c.cache = none := by
  simp only [caches, Array.getElem?_map, Option.map_eq_some_iff] at uncached
  exact uncached

theorem Ledger.caches_setCache {l : Ledger} {c : Context} (found : l.context? context = some c)
    (cache : Option ParseCache) : (l.setCache context cache).caches[context]? = some cache := by
  have found : l.contexts[context]? = some c := found
  simp only [caches, Array.getElem?_map, getElem?_contexts_setCache, found]
  simp

theorem Realm.bindScope_mapTree (g : TreeId → TreeId) (s : Store) (base : ScopeId)
    (bindings : Bindings) :
    bindScope (s.mapTree g) base bindings = Store.seen ⟨g, false⟩ (bindScope s base bindings) := by
  cases bindings <;> rfl

namespace Realm

variable {g : TreeId → TreeId} {host : Host η} {fuel context : Nat} {r : Realm η} {x : Script}
  {c : Context} {k : ParseCache}

theorem evaluateScript_of_opening {l : Ledger} {s : State η}
    (opens : r.opening context x = some (l, s)) :
    r.evaluateScript host fuel context x =
      ⟨(l.settle host fuel s).2, (l.settle host fuel s).1⟩ := by
  unfold opening at opens
  unfold evaluateScript evaluate
  cases found : r.ledger.context? context with
  | none => simp [found] at opens
  | some c =>
    simp only [found, Option.bind_some] at opens ⊢
    generalize (Source.text x.text).resolve c.cache = result at opens ⊢
    rcases result with ⟨_ | resolved, cache⟩
    · cases opens
    · cases opens
      rfl

theorem evaluateScript_of_error (found : r.ledger.context? context = some c) {e : SyntaxError}
    {cache : Option ParseCache} (failed : (Source.text x.text).resolve c.cache = (.error e, cache)) :
    r.evaluateScript host fuel context x =
      let received := (r.ledger.setCache context cache).receive r.world x.recipient
        (.failure (.plain (.parse e)))
      ⟨received.2, received.1⟩ := by
  simp only [evaluateScript, evaluate, found, failed]

/-- The context with the cache, under other names. -/
theorem context?_keeping (found : r.ledger.context? context = some c) :
    (r.keeping g context (some k)).ledger.context? context = some { c with cache := some k } := by
  have found : r.ledger.contexts[context]? = some c := found
  have same : (r.ledger.mapTree g).contexts = r.ledger.contexts := rfl
  simp only [keeping, Ledger.keeping, Ledger.context?, Ledger.getElem?_contexts_setCache, same, found]
  simp

theorem setCache_keeping (l : Ledger) (cache : Option ParseCache) (k' : ParseCache) :
    (l.keeping g context cache).setCache context (some k') =
      (l.setCache context none).keeping g context (some k') := by
  have mapped : (l.setCache context none).mapTree g = (l.mapTree g).setCache context none := rfl
  simp only [Ledger.keeping, mapped, Ledger.setCache_setCache]

/-- The evaluation of a text begins alike with a tree of its own and with the one that the cache has
for it. -/
theorem opening_keeping (found : r.ledger.context? context = some c) (plain : c.cache = none)
    (watched : r.world.IgnoresTrees) {entry : CacheEntry}
    (parsed : parse x.text = .ok entry.tree) (kept : (k.lookup x.text).1 = .ok entry)
    (named : g (.single r.ledger.recipients.size) = .cached context entry.number) :
    ∃ l s t, r.opening context x = some (l, s) ∧
      (r.keeping g context (some k)).opening context x =
        some (l.keeping g context (some (k.lookup x.text).2), t) ∧ Twin g s t ∧
      l.recipients.size = r.ledger.recipients.size + 1 ∧ l.caches[context]? = some none := by
  let bound := bindScope r.world.store c.scope x.bindings
  let l := ((r.ledger.setCache context none).addRecipient x.recipient).2
  let id := r.ledger.recipients.size
  let config := x.config.getD c.config
  let s : State η := .program ⟨.root (.single id) entry.tree, bound.1, config⟩ id
    { r.world with store := bound.2 }
  have opens : r.opening context x = some (l, s) := by
    simp only [opening, found, Option.bind_some, plain, Source.resolve, parsed]
    rfl
  have bound' : bindScope (r.keeping g context (some k)).world.store c.scope x.bindings =
      Store.seen ⟨g, false⟩ bound := bindScope_mapTree g r.world.store c.scope x.bindings
  have opens' : (r.keeping g context (some k)).opening context x =
      some (l.keeping g context (some (k.lookup x.text).2), s.mapTree g) := by
    have ledger : (r.keeping g context (some k)).ledger.setCache context (some (k.lookup x.text).2) =
        (r.ledger.setCache context none).keeping g context (some (k.lookup x.text).2) :=
      setCache_keeping r.ledger _ _
    simp only [opening, context?_keeping found, Option.bind_some, Source.resolve, bound', kept,
      ledger, Except.map, Except.toOption, Option.map_some, Option.some.injEq]
    rw [← named]
    rfl
  refine ⟨l, s, s.mapTree g, opens, opens', ⟨rfl, watched⟩, ?_, ?_⟩
  · exact Array.size_push _
  · exact Ledger.caches_setCache found none

/-- One text is evaluated alike with the cache and without. -/
theorem evaluateScript_keeping (blind : host.IgnoresTrees) (watched : r.world.IgnoresTrees)
    (uncached : r.ledger.caches[context]? = some none) (sound : k.Sound)
    (named : ∀ entry, (k.lookup x.text).1 = .ok entry →
      g (.single r.ledger.recipients.size) = .cached context entry.number)
    (distinct : ∀ {l s}, r.opening context x = some (l, s) → ∀ n < fuel, ∀ l' s',
      l.after host n s = some (l', s') → s'.Distinct g) :
    let after := r.evaluateScript host fuel context x
    (r.keeping g context (some k)).evaluateScript host fuel context x =
      after.keeping g context (some (k.lookup x.text).2) ∧ after.world.IgnoresTrees ∧
    after.ledger.caches[context]? = some none ∧
    after.ledger.recipients.size = r.ledger.recipients.size + if x.parses then 1 else 0 := by
  intro after
  obtain ⟨c, found, plain⟩ := Ledger.exists_of_caches uncached
  cases parsed : parse x.text with
  | ok tree =>
    have parses : x.parses = true := by rw [Script.parses, parsed]; rfl
    obtain ⟨number, k', kept, -⟩ := sound.lookup parsed
    have answer : (k.lookup x.text).1 = .ok ⟨x.text, number, tree⟩ := by rw [kept]
    obtain ⟨l, s, t, opens, opens', twin, size, caches⟩ :=
      opening_keeping found plain watched parsed answer (named _ answer)
    obtain ⟨settled, blind'⟩ := Ledger.settle_keeping blind context (some (k.lookup x.text).2)
      twin (distinct opens)
    have after_eq : after = ⟨(l.settle host fuel s).2, (l.settle host fuel s).1⟩ :=
      evaluateScript_of_opening opens
    rw [after_eq, evaluateScript_of_opening opens', settled, parses]
    refine ⟨rfl, blind', ?_, ?_⟩
    · rw [Ledger.settle_same Ledger.caches_receive, caches]
    · rw [Ledger.settle_same (f := Ledger.recipients) Ledger.recipients_receive, size]
      rfl
  | error e =>
    have refused : x.parses = false := by rw [Script.parses, parsed]; rfl
    have failed : (Source.text x.text).resolve c.cache = (.error e, none) := by
      simp only [Source.resolve, plain, parsed]
      rfl
    have failed' : (Source.text x.text).resolve (some k) = (.error e, some k) := by
      simp only [Source.resolve, sound.lookup_error parsed]
      rfl
    have after_eq : after = _ := evaluateScript_of_error found failed
    have ledger : (r.keeping g context (some k)).ledger.setCache context (some k) =
        (r.ledger.setCache context none).keeping g context (some k) := setCache_keeping r.ledger _ _
    rw [after_eq, evaluateScript_of_error (context?_keeping found) failed', ledger, refused,
      sound.lookup_error parsed]
    have received := Ledger.receive_keeping g context (some k) (r.ledger.setCache context none)
      r.world x.recipient (.failure (.plain (.parse e)))
    refine ⟨?_, ?_, ?_, ?_⟩
    · simp only [keeping, received]
    · intro o mem
      rw [Ledger.observers_receive] at mem
      exact watched o mem
    · rw [Ledger.caches_receive]
      exact Ledger.caches_setCache found none
    · rw [Ledger.recipients_receive]
      rfl

/-! ## All texts -/

theorem evaluateAll_keeping (blind : host.IgnoresTrees) {scripts : List Script}
    {known : List String} (watched : r.world.IgnoresTrees)
    (uncached : r.ledger.caches[context]? = some none) (keeps : k.Keeps known)
    (named : ∀ i x, (scripts.filter Script.parses)[i]? = some x → ∀ entry,
      (k.lookupAll (scripts.map Script.text)).find? x.text = some entry →
      g (.single (r.ledger.recipients.size + i)) = .cached context entry.number)
    (distinct : ∀ s, r.Passes host fuel context scripts s → s.Distinct g) :
    (r.keeping g context (some k)).evaluateAll host fuel context scripts =
      (r.evaluateAll host fuel context scripts).keeping g context
        (some (k.lookupAll (scripts.map Script.text))) := by
  induction scripts generalizing r k known with
  | nil => rfl
  | cons x rest ih =>
    have named' : ∀ entry, (k.lookup x.text).1 = .ok entry →
        g (.single r.ledger.recipients.size) = .cached context entry.number := by
      intro entry answer
      have parses : x.parses = true := by
        cases parsed : parse x.text with
        | ok tree => rw [Script.parses, parsed]; rfl
        | error e =>
          rw [keeps.sound.lookup_error parsed] at answer
          cases answer
      refine named 0 x ?_ entry ?_
      · rw [List.filter_cons, if_pos parses]
        rfl
      · exact ParseCache.find?_lookupAll (ParseCache.find?_of_lookup answer) _
    obtain ⟨first, watched', uncached', size⟩ := evaluateScript_keeping (x := x) blind watched
      uncached keeps.sound named' fun opens n lt l' s' reached =>
        distinct s' (.here opens lt reached)
    refine Eq.trans (congrArg (evaluateAll host fuel context · rest) first) ?_
    refine ih watched' uncached' (keeps.lookup x.text) ?_ fun s passes => distinct s (.later passes)
    intro i y listed entry found
    rw [size]
    cases parses : x.parses with
    | true =>
      have here := named (i + 1) y (by rw [List.filter_cons, if_pos parses]; exact listed) entry found
      rwa [Nat.add_comm i 1, ← Nat.add_assoc] at here
    | false =>
      have refused : ¬ x.parses = true := by rw [parses]; exact Bool.false_ne_true
      exact named i y (by rw [List.filter_cons, if_neg refused]; exact listed) entry found

end Realm

/-! ## Which trees fall together -/

namespace TreeId

/-- The text of a tree that one of these evaluations has made for itself; the first of them is known
by the number `start`. -/
def origin (start : Nat) (scripts : List Script) : TreeId → Option String
  | .single n => if start ≤ n then (scripts.filter Script.parses)[n - start]?.map Script.text else none
  | .cached _ _ => none

def aside (context kept : Nat) : TreeId → TreeId
  | .single n => .single n
  | .cached c n => if c = context then .cached c (n + kept) else .cached c n

/-- The tree of an evaluation becomes the one that the cache keeps for its text. -/
def shared (start context : Nat) (scripts : List Script) (cache : ParseCache) (t : TreeId) : TreeId :=
  match (t.origin start scripts).bind cache.find? with
  | some entry => .cached context entry.number
  | none => t.aside context cache.kept

variable {start context : Nat} {scripts : List Script} {cache : ParseCache}

theorem aside_injective (context kept : Nat) : Function.Injective (aside context kept) := by
  rintro (n | ⟨c, n⟩) (m | ⟨c', m⟩) same
  · exact same
  · simp only [aside] at same
    split at same <;> cases same
  · simp only [aside] at same
    split at same <;> cases same
  · simp only [aside] at same
    grind

theorem aside_ne {kept number : Nat} (below : number < kept) (t : TreeId) :
    t.aside context kept ≠ .cached context number := by
  cases t with
  | single n => exact nofun
  | cached c n =>
    simp only [aside]
    grind

theorem shared_cases (start context : Nat) (scripts : List Script) (cache : ParseCache)
    (t : TreeId) :
    (∃ entry ∈ cache.entries, t.origin start scripts = some entry.text ∧
      t.shared start context scripts cache = .cached context entry.number) ∨
    t.shared start context scripts cache = t.aside context cache.kept := by
  unfold shared
  split
  · next entry found =>
    obtain ⟨text, made, found⟩ := Option.bind_eq_some_iff.1 found
    have same : entry.text = text := by simpa using List.find?_some found
    exact .inl ⟨entry, List.mem_of_find?_eq_some found, by rw [made, same], rfl⟩
  · exact .inr rfl

/-- Trees fall together only if they were made for the same text. -/
theorem origin_eq_of_shared {known : List String} (keeps : cache.Keeps known) {a b : TreeId}
    (same : a.shared start context scripts cache = b.shared start context scripts cache) :
    a = b ∨ (b.origin start scripts).isSome ∧ a.origin start scripts = b.origin start scripts := by
  rcases shared_cases start context scripts cache a with ⟨entry, mem, made, eq⟩ | eq <;>
    rcases shared_cases start context scripts cache b with ⟨entry', mem', made', eq'⟩ | eq' <;>
    rw [eq, eq'] at same
  · have one : entry = entry' := List.inj_on_of_nodup_map keeps.apart mem mem' (cached.inj same).2
    exact .inr ⟨by rw [made']; rfl, by rw [made, made', one]⟩
  · exact (aside_ne (keeps.below entry mem) b same.symm).elim
  · exact (aside_ne (keeps.below entry' mem') a same).elim
  · exact .inl (aside_injective context cache.kept same)

end TreeId

/-! ## Declarations and the functions they find -/

def State.met? (s : State η) : Option (Spot × Spot) :=
  match s.control with
  | .eval site =>
    match site.node.shape with
    | .functionDeclaration id _ _ _ _ =>
      (s.store.namesake? site.scope id).map fun found => (found.2.spot, site.toSpot)
    | _ => none
  | _ => none

/-- If the declaration that is to be run has made the function that it finds, then it did so in this
evaluation, and not in another one of the same text. -/
def State.MeetsOwn (origin : TreeId → Option String) (s : State η) : Prop :=
  ∀ met ∈ s.met?, met.1.way = met.2.way → (origin met.2.tree).isSome →
    origin met.1.tree = origin met.2.tree → met.1.tree = met.2.tree

instance (origin : TreeId → Option String) (s : State η) : Decidable (s.MeetsOwn origin) :=
  inferInstanceAs (Decidable (∀ _ ∈ s.met?, _))

theorem State.MeetsOwn.distinct {s : State η} {start : Nat} {scripts : List Script}
    {cache : ParseCache} {known : List String} (h : s.MeetsOwn (TreeId.origin start scripts))
    (keeps : cache.Keeps known) : s.Distinct (TreeId.shared start context scripts cache) := by
  intro site control id params body generator isAsync f c shape found
  have met : (c.spot, site.toSpot) ∈ s.met? := by
    simp only [State.met?, control, shape, found]
    rfl
  rw [Bool.eq_iff_iff]
  refine ⟨fun same => ?_, Spot.isSame_mapTree _⟩
  simp only [Spot.isSame, Spot.mapTree, Bool.and_eq_true, beq_iff_eq] at same ⊢
  refine ⟨?_, same.2⟩
  rcases TreeId.origin_eq_of_shared keeps same.1 with eq | ⟨made, eq⟩
  · exact eq
  · exact h _ met same.2 made eq

namespace Realm

/-- All trees that are known in the realm come from evaluations that have begun, and none is kept in
a cache of the context. -/
def KnowsPast (r : Realm η) (context : Nat) : Prop :=
  ∀ g : TreeId → TreeId, (∀ n < r.ledger.recipients.size, g (.single n) = .single n) →
    (∀ c n, c ≠ context → g (.cached c n) = .cached c n) →
    r.world.mapTree g = r.world ∧ r.ledger.mapTree g = r.ledger

theorem KnowsPast.keeping {r : Realm η} {context : Nat} (past : r.KnowsPast context)
    (scripts : List Script) (k cache : ParseCache) :
    r.keeping (TreeId.shared r.ledger.recipients.size context scripts k) context (some cache) =
      r.withCache context (some cache) := by
  obtain ⟨world, ledger⟩ := past (TreeId.shared r.ledger.recipients.size context scripts k)
    (fun n lt => by simp [TreeId.shared, TreeId.origin, Nat.not_le.2 lt, TreeId.aside])
    (fun c n other => by simp [TreeId.shared, TreeId.origin, TreeId.aside, other])
  simp only [Realm.keeping, withCache, Ledger.keeping, world, ledger]

end Realm

/-- Texts that are evaluated one after another in a context give the same outcomes with a cache of
parsed texts and without, and they leave the same bindings and the same heap: the functions come
from other trees and nothing else is changed. For this, a declaration must not find a function that
it made in an earlier evaluation of its text. The cache itself answers as the parser does, and it
keeps the texts that were parsed since it was cleared last, each once. -/
theorem evaluations_unchanged_by_cache {host : Host η} (blind : host.IgnoresTrees) {r : Realm η}
    (watched : r.world.IgnoresTrees) {context : Nat} (past : r.KnowsPast context)
    (uncached : r.ledger.caches[context]? = some none) (fuel : Nat) (scripts : List Script)
    (own : ∀ s, r.Passes host fuel context scripts s →
      s.MeetsOwn (TreeId.origin r.ledger.recipients.size scripts)) :
    let plain := r.evaluateAll host fuel context scripts
    let cached := (r.withCache context (some .empty)).evaluateAll host fuel context scripts
    cached.ledger.deliveries.map (fun d => (d.recipient, d.outcome)) =
      plain.ledger.deliveries.map (fun d => (d.recipient, d.outcome)) ∧
    cached.ledger.replies = plain.ledger.replies ∧
    (∃ g, cached.world = plain.world.mapTree g) ∧
    ∀ calls text,
      ((ParseCache.after calls).parse text).1 = parse text ∧
      ((parse text).isOk = false →
        ((ParseCache.after calls).parse text).2 = ParseCache.after calls) ∧
      (ParseCache.after calls).size = (ParseCache.parsedSince calls).toFinset.card := by
  intro plain cached
  have keeps : ParseCache.empty.Keeps [] := ParseCache.keeps_clear .empty
  obtain ⟨known, kept⟩ := keeps.lookupAll (scripts.map Script.text)
  let k := ParseCache.empty.lookupAll (scripts.map Script.text)
  let g := TreeId.shared r.ledger.recipients.size context scripts k
  have same : cached = plain.keeping g context (some k) := by
    rw [← Realm.evaluateAll_keeping blind watched uncached keeps ?_ fun s passes =>
      (own s passes).distinct kept, past.keeping]
    intro i x listed entry found
    simp [TreeId.shared, TreeId.origin, listed, found]
  refine ⟨?_, ?_, ⟨g, by rw [same]; rfl⟩, fun calls text => ?_⟩
  · rw [same]
    simp [Realm.keeping, Ledger.keeping, Ledger.setCache, Ledger.mapTree, Delivery.mapTree,
      Function.comp_def]
  · rw [same]
    rfl
  · have now := ParseCache.keeps_after calls
    refine ⟨now.sound.parse text, fun refused => ?_, now.size⟩
    cases parsed : parse text with
    | ok tree =>
      rw [parsed] at refused
      cases refused
    | error e => simp only [ParseCache.parse, now.sound.lookup_error parsed]

namespace Sample

/-- A context over one scope, in which `g` is null. -/
def loneRealm : Realm Unit :=
  let (_, store) := Store.empty.rootScope [("g", .null)]
  ⟨{ World.start () with store },
    { Ledger.empty with contexts := #[⟨0, .plain, .report, .empty (.source 0), none, false⟩] }⟩

theorem loneRealm_knowsPast : loneRealm.KnowsPast 0 := by
  intro g _ _
  simp [loneRealm, World.mapTree, Ledger.mapTree, Store.mapTree, World.start, Store.rootScope,
    Store.newScope, Store.empty, Ledger.empty]

theorem loneRealm_ignoresTrees : loneRealm.world.IgnoresTrees := by
  intro o mem
  simp [loneRealm, World.start] at mem

theorem loneRealm_uncached : loneRealm.ledger.caches[0]? = some none := by
  simp [loneRealm, Ledger.caches, Ledger.empty]

theorem host_ignoresTrees : host.IgnoresTrees := fun _ _ _ _ _ _ _ => rfl

def twice (text : String) : List Script :=
  [⟨text, .caller 0, .none, none⟩, ⟨text, .caller 1, .none, none⟩]

def told (r : Realm Unit) : List Value :=
  r.ledger.deliveries.toList.filterMap fun d =>
    match d.outcome with
    | .value v => some v
    | .failure _ => none

def keepsake : String := "f = g || f; g = f; f.x = 1; function f() {}"

/-- In its second evaluation, the declaration finds the function of the first one under its name.
With a cache it gives that function once more, and without it gives another one. -/
theorem keepsake_shows_cache :
    host.IgnoresTrees ∧ loneRealm.world.IgnoresTrees ∧ loneRealm.KnowsPast 0 ∧
      loneRealm.ledger.caches[0]? = some none ∧
      let plain := loneRealm.evaluateAll host 200 0 (twice keepsake)
      let cached := (loneRealm.withCache 0 (some .empty)).evaluateAll host 200 0 (twice keepsake)
      ¬ ∃ rename : Value → Value, Function.Injective rename ∧
        told cached = (told plain).map rename := by
  have plain : told (loneRealm.evaluateAll host 200 0 (twice keepsake)) =
      [.function 0, .function 2] := by decide +kernel
  have cached : told ((loneRealm.withCache 0 (some .empty)).evaluateAll host 200 0
      (twice keepsake)) = [.function 0, .function 0] := by decide +kernel
  refine ⟨host_ignoresTrees, loneRealm_ignoresTrees, loneRealm_knowsPast, loneRealm_uncached, ?_⟩
  simp only [plain, cached]
  rintro ⟨rename, injective, same⟩
  simp only [List.map_cons, List.cons.injEq] at same
  cases injective (same.1.symm.trans same.2.1)

/-- A text whose declaration is run twice, while the first of its functions is still known. -/
def heirloom : String := "function f() {} g = g || f; f"

/-- The first function is kept in `g` and the second one in `f`, with a cache or without. -/
theorem heirloom_unchanged_by_cache :
    host.IgnoresTrees ∧ loneRealm.world.IgnoresTrees ∧ loneRealm.KnowsPast 0 ∧
      loneRealm.ledger.caches[0]? = some none ∧
      (∀ s, loneRealm.Passes host 200 0 (twice heirloom) s →
        s.MeetsOwn (TreeId.origin 0 (twice heirloom))) ∧
      let plain := loneRealm.evaluateAll host 200 0 (twice heirloom)
      let cached := (loneRealm.withCache 0 (some .empty)).evaluateAll host 200 0 (twice heirloom)
      told plain = [.function 0, .function 1] ∧
        cached.ledger.deliveries.map (fun d => (d.recipient, d.outcome)) =
          plain.ledger.deliveries.map (fun d => (d.recipient, d.outcome)) := by
  have own : ∀ s, loneRealm.Passes host 200 0 (twice heirloom) s →
      s.MeetsOwn (TreeId.origin 0 (twice heirloom)) := by
    have all : loneRealm.Throughout host 200 0
        (State.MeetsOwn (TreeId.origin 0 (twice heirloom))) 200 (twice heirloom) := by
      decide +kernel
    exact fun s => all.passes
  refine ⟨host_ignoresTrees, loneRealm_ignoresTrees, loneRealm_knowsPast, loneRealm_uncached, own,
    by decide +kernel, ?_⟩
  exact (evaluations_unchanged_by_cache host_ignoresTrees loneRealm_ignoresTrees
    loneRealm_knowsPast loneRealm_uncached 200 (twice heirloom) own).1

end Sample

end EcmaMachine
