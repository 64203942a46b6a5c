import EcmaMachine.Proofs.Names
import EcmaMachine.Proofs.Wire.Copies
import EcmaMachine.Wire.Message

/-!
Chains of scopes that come back. The scopes below the base are sent and made anew, one for one; the
base and what is around it stays. So a name that one of the sent scopes binds has a copy of its
value in the scope at the same place, and any other name is still the binding it was.
-/

namespace EcmaMachine

/-! ## Chains -/

/-- Scopes hang below scopes of the store, bind no name twice, and bind values of the store. -/
structure Store.Scoped (s : Store) : Prop where
  parents : ∀ id parent, (s.scope id).parent = some parent → parent < s.scopes.size
  names : ∀ id, (s.scope id).values.keys.Nodup
  values : ∀ id, ∀ e ∈ (s.scope id).values.entries, e.2.LivesIn s

namespace Store

variable {s t : Store} {base id : ScopeId}

/-- A walk that comes back to where it was goes round among the scopes it has met. -/
theorem find?_walk_of_met {p : ScopeId → Bool} {seen : List ScopeId}
    (missed : ∀ x ∈ seen, p x = false)
    (around : ∀ x ∈ seen, ∀ parent, (s.scope x).parent = some parent → parent ∈ id :: seen)
    (met : id ∈ seen) (fuel : Nat) : (chain.walk s fuel (some id)).find? p = none := by
  have inside : ∀ x ∈ chain.walk s fuel (some id), x ∈ seen := by
    rw [chain_walk_eq]
    refine forall_mem_ascend (P := (· ∈ seen)) (fun i j mem link => ?_) fuel met
    exact List.cons_subset.2 ⟨met, List.Subset.refl _⟩ (around i mem j link)
  exact List.find?_eq_none.2 fun x mem => by simp [missed x (inside x mem)]

/-- A search along a chain ends before any scope is met again, so more fuel than there are scopes
finds nothing else. -/
theorem find?_walk_of_le (formed : s.Scoped) {p : ScopeId → Bool} {fuel more : Nat}
    {seen : List ScopeId} (nodup : seen.Nodup) (known : ∀ x ∈ id :: seen, x < s.scopes.size)
    (missed : ∀ x ∈ seen, p x = false)
    (around : ∀ x ∈ seen, ∀ parent, (s.scope x).parent = some parent → parent ∈ id :: seen)
    (enough : s.scopes.size ≤ fuel + seen.length) (le : fuel ≤ more) :
    (chain.walk s more (some id)).find? p = (chain.walk s fuel (some id)).find? p := by
  induction fuel generalizing more id seen with
  | zero =>
    have met : id ∈ seen := by
      by_contra fresh
      have short := length_le_of_nodup (List.nodup_cons.2 ⟨fresh, nodup⟩) known
      simp only [List.length_cons] at short
      omega
    exact find?_walk_of_met missed around met more
  | succ fuel ih =>
    by_cases met : id ∈ seen
    · rw [find?_walk_of_met missed around met, find?_walk_of_met missed around met]
    · obtain ⟨more, rfl⟩ := Nat.exists_eq_add_of_lt le
      rw [show fuel + more + 1 = (fuel + more) + 1 from rfl, chain.walk, chain.walk,
        List.find?_cons, List.find?_cons]
      cases hit : p id with
      | true => rfl
      | false =>
        cases link : (s.scope id).parent with
        | none => rw [walk_none, walk_none]
        | some parent =>
          refine ih (List.nodup_cons.2 ⟨met, nodup⟩) ?_ ?_ ?_ ?_ (Nat.le_add_right _ _)
          · exact List.forall_mem_cons.2 ⟨formed.parents id parent link, known⟩
          · exact List.forall_mem_cons.2 ⟨hit, missed⟩
          · refine List.forall_mem_cons.2 ⟨fun other link' => ?_, fun x mem other link' => ?_⟩
            · obtain rfl : parent = other := by simpa [link] using link'
              exact List.mem_cons_self
            · exact List.mem_cons_of_mem _ (around x mem other link')
          · simp only [List.length_cons]
            omega

/-- Above the base, the walk from a scope is the walk from the base. -/
theorem walk_append_of_mem {fuel : Nat} {start : Option ScopeId}
    (mem : base ∈ chain.walk s fuel start) (rest : Nat) :
    chain.walk s (((chain.walk s fuel start).takeWhile (· != base)).length + rest) start =
      (chain.walk s fuel start).takeWhile (· != base) ++ chain.walk s rest (some base) := by
  induction fuel generalizing start with
  | zero => simp [chain.walk] at mem
  | succ fuel ih =>
    cases start with
    | none => simp [walk_none] at mem
    | some id =>
      rw [chain.walk] at mem ⊢
      by_cases same : id = base
      · simp [same]
      · have later := (List.mem_cons.1 mem).resolve_left (Ne.symm same)
        rw [List.takeWhile_cons_of_pos (by simpa using same), List.length_cons,
          Nat.add_right_comm, chain.walk, ih later, List.cons_append]

def below (s : Store) (base scope : ScopeId) : List ScopeId :=
  (s.chain scope).takeWhile (· != base)

theorem below_prefix (s : Store) (base scope : ScopeId) : s.below base scope <+: s.chain scope :=
  List.takeWhile_prefix _

theorem resolve?_of_mem_chain (formed : s.Scoped) {scope : ScopeId} (known : scope < s.scopes.size)
    (mem : base ∈ s.chain scope) (name : String) :
    s.resolve? scope name =
      ((s.below base scope).find? (s.binds · name)).or (s.resolve? base name) := by
  have whole : chain.walk s ((s.below base scope).length + (s.scopes.size + 1)) (some scope) =
      s.below base scope ++ s.chain base := walk_append_of_mem mem _
  rw [resolve?, resolve?, ← List.find?_append, ← whole]
  exact (find?_walk_of_le formed List.nodup_nil (by simpa using known) (by simp) (by simp)
    (by simp) (Nat.le_add_left _ _)).symm

/-- All that the first store has is unchanged in the second, which may have more. -/
structure Nests (s t : Store) : Prop extends s.Carries t where
  moreScopes : s.scopes.size ≤ t.scopes.size
  scopes : ∀ id < s.scopes.size, t.scope id = s.scope id

theorem Nests.refl (s : Store) : s.Nests s := ⟨.refl s, Nat.le_refl _, fun _ _ => rfl⟩

theorem Nests.trans {u : Store} (h : s.Nests t) (h' : t.Nests u) : s.Nests u where
  toCarries := h.toCarries.trans h'.toCarries
  moreScopes := Nat.le_trans h.moreScopes h'.moreScopes
  scopes id lt := (h'.scopes id (Nat.lt_of_lt_of_le lt h.moreScopes)).trans (h.scopes id lt)

theorem Adds.nests (h : s.Adds t) : s.Nests t where
  toCarries := h.toCarries
  moreScopes := Nat.le_of_eq (by rw [h.scopes])
  scopes id _ := by rw [scope, h.scopes, scope]

theorem nests_childScope (s : Store) (parent : ScopeId) (values : List (String × Value)) :
    s.Nests (s.childScope parent values).2 where
  toCarries := { Carries.refl s with }
  moreScopes := by simp [childScope, newScope]
  scopes id lt := by
    simp only [scope, childScope, newScope, Array.getD_eq_getD_getElem?, Array.getElem?_push,
      if_neg (Nat.ne_of_lt lt)]

theorem scope_childScope (s : Store) (parent : ScopeId) (values : List (String × Value)) :
    (s.childScope parent values).2.scope s.scopes.size =
      { (default : Scope) with values := .ofEntries values, parent := some parent } := by
  simp [scope, childScope, newScope]

theorem Nests.walk (h : s.Nests t) (formed : s.Scoped) (fuel : Nat) (known : id < s.scopes.size) :
    chain.walk t fuel (some id) = chain.walk s fuel (some id) := by
  induction fuel generalizing id with
  | zero => rfl
  | succ fuel ih =>
    rw [chain.walk, chain.walk, h.scopes id known]
    cases link : (s.scope id).parent with
    | none => rw [walk_none, walk_none]
    | some parent => rw [ih (formed.parents id parent link)]

theorem mem_walk_lt (formed : s.Scoped) (fuel : Nat) (known : id < s.scopes.size) :
    ∀ x ∈ chain.walk s fuel (some id), x < s.scopes.size := by
  rw [chain_walk_eq]
  exact forall_mem_ascend (P := (· < s.scopes.size)) (fun i j _ => formed.parents i j) fuel known

theorem Nests.find?_walk (h : s.Nests t) (formed : s.Scoped) (fuel : Nat)
    (known : base < s.scopes.size) (name : String) :
    (chain.walk s fuel (some base)).find? (t.binds · name) =
      (chain.walk s fuel (some base)).find? (s.binds · name) := by
  have old := mem_walk_lt formed fuel known
  generalize chain.walk s fuel (some base) = ids at old
  induction ids with
  | nil => rfl
  | cons id rest ih =>
    obtain ⟨first, later⟩ := List.forall_mem_cons.1 old
    have binds : t.binds id name = s.binds id name := by
      rw [Store.binds, h.scopes id first, Store.binds]
    rw [List.find?_cons, List.find?_cons, binds, ih later]

/-- New scopes do not come between an old scope and the bindings it sees. -/
theorem Nests.resolve? (h : s.Nests t) (formed : s.Scoped) (known : base < s.scopes.size)
    (name : String) : t.resolve? base name = s.resolve? base name := by
  have more := h.moreScopes
  rw [Store.resolve?, Store.chain, h.walk formed _ known, h.find?_walk formed _ known]
  exact find?_walk_of_le formed List.nodup_nil (by simpa using known) (by simp) (by simp) (by simp)
    (Nat.succ_le_succ more)

theorem Nests.find? (h : s.Nests t) (formed : s.Scoped) (known : base < s.scopes.size)
    (name : String) : t.find? base name = s.find? base name := by
  rw [find?_eq_resolve?, find?_eq_resolve?, h.resolve? formed known]
  cases found : s.resolve? base name with
  | none => rfl
  | some owner =>
    have old := mem_walk_lt formed _ known owner (List.mem_of_find?_eq_some found)
    rw [Option.bind_some, Option.bind_some, ownValue?, h.scopes owner old, ownValue?]

end Store

/-! ## Scopes made anew -/

section Relation

variable {α β : Type} {R Q : α → β → Prop} {a : Option α} {b : Option β}

theorem rel_imp (h : Option.Rel R a b) (imp : ∀ a b, R a b → Q a b) : Option.Rel Q a b := by
  cases h with
  | none => exact .none
  | some related => exact .some (imp _ _ related)

theorem isSome_eq_of_rel (h : Option.Rel R a b) : b.isSome = a.isSome := by
  cases h <;> rfl

theorem exists_of_rel_some {x : α} (h : Option.Rel R (some x) b) : ∃ y, b = some y ∧ R x y := by
  cases h with
  | some related => exact ⟨_, rfl, related⟩

end Relation

namespace Dict

variable {α β : Type}

theorem rel_lookup {R : α → β → Prop} {as : List (String × α)} {bs : List (String × β)}
    (h : List.Forall₂ (fun a b => a.1 = b.1 ∧ R a.2 b.2) as bs) (key : String) :
    Option.Rel R (lookup key as) (lookup key bs) := by
  induction h with
  | nil => exact .none
  | cons head _ ih =>
    simp only [lookup, head.1]
    split
    · exact .some head.2
    · exact ih

theorem lookup_sortedEntries {d : Dict α} (distinct : d.keys.Nodup) (key : String) :
    lookup key d.sortedEntries = d.get? key := by
  have perm : d.sortedEntries.Perm d.entries := List.mergeSort_perm _ _
  have distinct' : (d.sortedEntries.map (·.1)).Nodup := (perm.map _).nodup_iff.2 distinct
  refine Option.ext fun v => ⟨fun found => ?_, fun found => ?_⟩
  · exact lookup_of_mem distinct (perm.mem_iff.1 (mem_of_lookup found))
  · exact lookup_of_mem distinct' (perm.mem_iff.2 (mem_of_lookup found))

end Dict

/-- Rows of entries that are there as scopes: the values are copies, each scope is below the next,
and the last is below the base. -/
inductive Mirrors (s t : Store) (base : ScopeId) :
    List (List (String × Value)) → List ScopeId → ScopeId → Prop
  | nil : Mirrors s t base [] [] base
  | cons {row : List (String × Value)} {rows : List (List (String × Value))} {id next : ScopeId}
    {ids : List ScopeId} (fresh : s.scopes.size ≤ id) (known : id < t.scopes.size)
    (parent : (t.scope id).parent = some next)
    (copies : ∀ name, Option.Rel (Copies s t []) (Dict.lookup name row) (t.ownValue? id name))
    (rest : Mirrors s t base rows ids next) : Mirrors s t base (row :: rows) (id :: ids) id

namespace Mirrors

variable {s t : Store} {base top : ScopeId} {rows : List (List (String × Value))}
  {ids : List ScopeId}

variable (h : Mirrors s t base rows ids top)
include h

theorem mono {t' : Store} (nests : t.Nests t') : Mirrors s t' base rows ids top := by
  induction h with
  | nil => exact .nil
  | @cons row _ id _ _ fresh known parent copies _ ih =>
    have same := nests.scopes id known
    refine .cons fresh (Nat.lt_of_lt_of_le known nests.moreScopes) (same ▸ parent)
      (fun name => ?_) ih
    have own : t'.ownValue? id name = t.ownValue? id name := by
      rw [Store.ownValue?, same, Store.ownValue?]
    rw [own]
    exact rel_imp (copies name) fun _ _ copies => copies.mono nests.toCarries

theorem walk (fuel : Nat) : Store.chain.walk t (ids.length + fuel) (some top) =
      ids ++ Store.chain.walk t fuel (some base) := by
  induction h with
  | nil => simp
  | cons _ _ parent _ _ ih =>
    rw [List.length_cons, Nat.add_right_comm, Store.chain.walk, parent, ih, List.cons_append]

section

variable (nests : s.Nests t) (formed : s.Scoped) (known : base < s.scopes.size)
  (size : t.scopes.size = s.scopes.size + ids.length)
include nests formed known size

theorem chain : t.chain top = ids ++ s.chain base := by
  have fuel : t.scopes.size + 1 = ids.length + (s.scopes.size + 1) := by omega
  rw [Store.chain, fuel, h.walk, nests.walk formed _ known, Store.chain]

/-- Where no copy binds the name, the chain of the base answers as before. -/
theorem resolve? (name : String) :
    t.resolve? top name = (ids.find? (t.binds · name)).or (s.resolve? base name) := by
  rw [Store.resolve?, h.chain nests formed known size, List.find?_append, Store.chain,
    nests.find?_walk formed _ known]
  rfl

end

theorem missing {name : String} (absent : ∀ row ∈ rows, Dict.lookup name row = none) :
    ids.find? (t.binds · name) = none := by
  induction h with
  | nil => rfl
  | @cons row _ id _ _ _ _ _ copies _ ih =>
    obtain ⟨first, later⟩ := List.forall_mem_cons.1 absent
    have free : t.binds id name = (Dict.lookup name row).isSome := isSome_eq_of_rel (copies name)
    rw [List.find?_cons_of_neg (by simp [free, first]), ih later]

theorem found {name : String} {i : Nat}
    (first : rows.findIdx? (fun row => (Dict.lookup name row).isSome) = some i) :
    ∃ row id v v', rows[i]? = some row ∧ ids[i]? = some id ∧ s.scopes.size ≤ id ∧
      ids.find? (t.binds · name) = some id ∧ Dict.lookup name row = some v ∧
      t.ownValue? id name = some v' ∧ Copies s t [] v v' := by
  induction h generalizing i with
  | nil => simp at first
  | @cons row rows id _ ids fresh _ _ copies _ ih =>
    have copy := copies name
    have binds : t.binds id name = (Dict.lookup name row).isSome := isSome_eq_of_rel copy
    rw [List.findIdx?_cons] at first
    cases own : Dict.lookup name row with
    | some v =>
      obtain rfl : 0 = i := by simpa [own] using first
      rw [own] at copy binds
      obtain ⟨v', own', copies⟩ := exists_of_rel_some copy
      exact ⟨row, id, v, v', rfl, rfl, fresh, List.find?_cons_of_pos binds, own, own', copies⟩
    | none =>
      obtain ⟨i, later, rfl⟩ : ∃ k, rows.findIdx? _ = some k ∧ k + 1 = i := by
        simpa [own] using first
      rw [own] at binds
      obtain ⟨row', id', v, v', here, there, fresh', hit, rest⟩ := ih later
      refine ⟨row', id', v, v', here, there, fresh', ?_, rest⟩
      rw [List.find?_cons_of_neg (by simp [binds]), hit]

end Mirrors

/-! ## Saving and restoring -/

namespace SavedScopes

open Wire

variable {s : Store} {R : Registry} {ids : List ScopeId}

/-- The fields are the entries as they are sent, with tokens of the registry. -/
def Written (s : Store) (R : Registry) : List (String × Value) → List (String × Json) → Prop :=
  List.Forall₂ fun e f => e.1 = f.1 ∧ ∃ r, f.2 = (encodeValue s r e.2).1 ∧
    (encodeValue s r e.2).2.Within R

/-- The entries of the scopes that are sent; the base alone is sent as an empty scope. -/
def rows (s : Store) : List ScopeId → List (List (String × Value))
  | [] => [[]]
  | ids => ids.map s.ownValues

def saveLevel (s : Store) (id : ScopeId) : Registry → List (String × Json) × Registry :=
  mapWith (saveField s) (s.ownValues id)

theorem save_eq (s : Store) (r : Registry) (base scope : ScopeId) :
    save s r base scope = match mapWith (saveLevel s) (s.below base scope) r with
      | ([], r) => (empty, r)
      | (values :: outer, r) => (⟨values, outer⟩, r) := rfl

theorem written_save (s : Store) (r : Registry) (base scope : ScopeId) :
    let saved := save s r base scope
    List.Forall₂ (Written s saved.2) (rows s (s.below base scope))
      (saved.1.values :: saved.1.outer) := by
  have each := mapWith_each (f := saveLevel s) Registry.Within.refl .trans
    (fun id r => (saved_each s (s.ownValues id) r).1) (s.below base scope) r
  simp only [save_eq]
  generalize mapWith (saveLevel s) (s.below base scope) r = sent at each
  obtain ⟨levels, R⟩ := sent
  have written : List.Forall₂ (fun id fields => Written s R (s.ownValues id) fields)
      (s.below base scope) levels := by
    refine each.2.imp ?_
    rintro id fields ⟨r₁, -, rfl, later⟩
    refine (saved_each s (s.ownValues id) r₁).2.imp ?_
    rintro e f ⟨key, r', value, later'⟩
    exact ⟨key, r', value, later'.trans later⟩
  generalize s.below base scope = ids at written
  cases written with
  | nil => exact .cons .nil .nil
  | cons head tail => exact .cons head (List.forall₂_map_left_iff.2 tail)

def Row (s : Store) (R : Registry) (row : List (String × Value)) : Prop :=
  (row.map (·.1)).Nodup ∧ ∀ e ∈ row, e.2.Ready s R

theorem copies_of_written (closed : s.Closed) (keyed : s.Keyed) (sound : R.Sound)
    {row : List (String × Value)} {fields : List (String × Json)} (ready : Row s R row)
    (written : Written s R row fields) {t : Store} (carries : s.Carries t) (name : String) :
    Option.Rel (Copies s (decodeFields R t fields).2 []) (Dict.lookup name row)
      ((Dict.ofEntries (decodeFields R t fields).1).get? name) := by
  have both : List.Forall₂ (fun e e' => e.1 = e'.1 ∧ Copies s (decodeFields R t fields).2 [] e.2 e'.2)
      row (decodeFields R t fields).1 := by
    refine (forall₂_through written (decodeFields_each R t fields)).imp ?_
    rintro e e' ⟨mem, f, ⟨key, r, value, within⟩, key', t', from', value', to'⟩
    obtain ⟨lives, sendable⟩ := ready.2 e mem
    have copies := restores closed keyed sound (.nil s) (by simp) e.2 r t' lives sendable within
      (carries.trans from'.toCarries)
    refine ⟨key.trans key', ?_⟩
    rw [value', value]
    exact copies.mono (value ▸ to').toCarries
  have distinct : ((decodeFields R t fields).1.map (·.1)).Nodup := by
    rw [← keys_of_forall₂ (both.imp fun _ _ h => h.1)]
    exact ready.1
  rw [Dict.get?, Dict.entries_ofEntries distinct]
  exact Dict.rel_lookup both name

def restoreLevel (R : Registry) (fields : List (String × Json)) (below : ScopeId × Store) :
    ScopeId × Store :=
  (decodeFields R below.2 fields).2.childScope below.1 (decodeFields R below.2 fields).1

section

variable {rows : List (List (String × Value))} (closed : s.Closed) (keyed : s.Keyed)
  (sound : R.Sound)
include closed keyed sound

theorem mirrors_restoreLevel {base : ScopeId} {row : List (String × Value)}
    {fields : List (String × Json)} {made : ScopeId × Store} (ready : Row s R row)
    (written : Written s R row fields) (nests : s.Nests made.2)
    (mirrors : Mirrors s made.2 base rows ids made.1) :
    let next := restoreLevel R fields made
    made.2.Nests next.2 ∧ next.2.scopes.size = made.2.scopes.size + 1 ∧
      Mirrors s next.2 base (row :: rows) (made.2.scopes.size :: ids) next.1 := by
  have adds := adds_decodeFields R made.2 fields
  have copies := copies_of_written closed keyed sound ready written nests.toCarries
  simp only [restoreLevel]
  generalize decodeFields R made.2 fields = read at adds copies
  obtain ⟨values, t⟩ := read
  have later := Store.nests_childScope t made.1 values
  have grown : made.2.Nests (t.childScope made.1 values).2 := adds.nests.trans later
  have size : t.scopes.size = made.2.scopes.size := by rw [adds.scopes]
  have more : (t.childScope made.1 values).2.scopes.size = made.2.scopes.size + 1 := by
    simp [Store.childScope, Store.newScope, size]
  have new := t.scope_childScope made.1 values
  rw [size] at new
  refine ⟨grown, more, ?_⟩
  have top : (t.childScope made.1 values).1 = made.2.scopes.size := size
  rw [top]
  refine .cons nests.moreScopes (more ▸ Nat.lt_succ_self _) (by rw [new]) (fun name => ?_) (mirrors.mono grown)
  rw [Store.ownValue?, new]
  exact rel_imp (copies name) fun _ _ copies => copies.mono later.toCarries

theorem mirrors_levels (base : ScopeId) {levels : List (List (String × Json))}
    (written : List.Forall₂ (Written s R) rows levels) (ready : ∀ row ∈ rows, Row s R row) :
    let made := levels.foldr (restoreLevel R) (base, s)
    s.Nests made.2 ∧ ∃ ids, made.2.scopes.size = s.scopes.size + ids.length ∧
      Mirrors s made.2 base rows ids made.1 := by
  induction written with
  | nil => exact ⟨.refl s, [], rfl, .nil⟩
  | cons head _ ih =>
    obtain ⟨first, later⟩ := List.forall_mem_cons.1 ready
    obtain ⟨nests, ids, size, mirrors⟩ := ih later
    obtain ⟨grown, more, mirrors'⟩ :=
      mirrors_restoreLevel closed keyed sound first head nests mirrors
    refine ⟨nests.trans grown, _, ?_, mirrors'⟩
    rw [List.foldr_cons, more, size, List.length_cons, Nat.add_assoc]

end

theorem row_of_scoped (formed : s.Scoped)
    (sendable : ∀ id ∈ ids, ∀ e ∈ (s.scope id).values.entries, e.2.Sendable s R) :
    ∀ row ∈ rows s ids, Row s R row := by
  cases ids with
  | nil => simp [rows, Row]
  | cons first rest =>
    intro row mem
    obtain ⟨id, inside, rfl⟩ := List.mem_map.1 mem
    have perm : (s.ownValues id).Perm (s.scope id).values.entries := List.mergeSort_perm _ _
    refine ⟨(perm.map _).nodup_iff.2 (formed.names id), fun e entry => ?_⟩
    have entry' := perm.mem_iff.1 entry
    exact ⟨formed.values id e entry', sendable id inside e entry'⟩

theorem lookup_ownValues (formed : s.Scoped) (id : ScopeId) (name : String) :
    Dict.lookup name (s.ownValues id) = s.ownValue? id name :=
  Dict.lookup_sortedEntries (formed.names id) name

theorem rows_of_first (formed : s.Scoped) {name : String} {i : Nat}
    (first : ids.findIdx? (s.binds · name) = some i) :
    (rows s ids).findIdx? (fun row => (Dict.lookup name row).isSome) = some i ∧
      (rows s ids)[i]? = ids[i]?.map s.ownValues := by
  have listed : rows s ids = ids.map s.ownValues := by
    cases ids with
    | nil => simp at first
    | cons => rfl
  rw [listed, List.findIdx?_map, List.getElem?_map]
  simp only [Function.comp_def, lookup_ownValues formed, and_true]
  exact first

theorem rows_of_none (formed : s.Scoped) {name : String}
    (free : ids.findIdx? (s.binds · name) = none) :
    ∀ row ∈ rows s ids, Dict.lookup name row = none := by
  cases ids with
  | nil => simp [rows, Dict.lookup]
  | cons head rest =>
    intro row mem
    obtain ⟨id, inside, rfl⟩ := List.mem_map.1 mem
    rw [lookup_ownValues formed]
    simpa [Store.binds, Dict.contains, Store.ownValue?] using
      List.findIdx?_eq_none_iff.1 free id inside

end SavedScopes

/-- Names survive the wire. The scopes from `scope` up to `base` are saved and made again below
`base`. A name is bound there if it was bound before. If the `i`-th of these scopes is the first to
bind it, the `i`-th scope of the new chain does, with a value that cannot be told from the old one.
Any other name is the binding that it is for `base`, which sees what is assigned to it. -/
theorem SavedScopes.names_survive (s : Store) (r : Registry) (base scope : ScopeId)
    (closed : s.Closed) (keyed : s.Keyed) (formed : s.Scoped) (known : scope < s.scopes.size)
    (mem : base ∈ s.chain scope) :
    let saved := save s r base scope
    let back := restore s saved.2 base saved.1
    saved.2.Sound →
    (∀ id ∈ s.below base scope, ∀ e ∈ (s.scope id).values.entries, e.2.Sendable s saved.2) →
    ∀ name, (back.2.find? back.1 name).isSome = (s.find? scope name).isSome ∧
      match (s.below base scope).findIdx? (s.binds · name) with
      | some i => ∃ id id' v v', (s.chain scope)[i]? = some id ∧
        s.resolve? scope name = some id ∧ (back.2.chain back.1)[i]? = some id' ∧
        back.2.resolve? back.1 name = some id' ∧ s.scopes.size ≤ id' ∧
        s.find? scope name = some v ∧ back.2.find? back.1 name = some v' ∧ s.Bisimilar back.2 v v'
      | none => s.resolve? scope name = s.resolve? base name ∧
        back.2.resolve? back.1 name = s.resolve? base name ∧
        back.2.find? back.1 name = s.find? base name ∧
        ∀ v, back.2.assign? back.1 name v = (s.resolve? base name).map (back.2.declare · name v) ∧
          ∀ t, back.2.assign? back.1 name v = some t → t.find? base name = some v := by
  intro saved back sound sendable name
  have inside : base < s.scopes.size := Store.mem_walk_lt formed _ known base mem
  obtain ⟨nests, ids, size, mirrors⟩ : s.Nests back.2 ∧ ∃ ids, back.2.scopes.size = _ ∧
      Mirrors s back.2 base _ ids back.1 :=
    mirrors_levels closed keyed sound base (written_save s r base scope)
      (row_of_scoped formed sendable)
  have before := Store.resolve?_of_mem_chain formed known mem name
  have after := mirrors.resolve? nests formed inside size name
  have chain := mirrors.chain nests formed inside size
  cases first : (s.below base scope).findIdx? (s.binds · name) with
  | some i =>
    obtain ⟨sameFirst, row⟩ := rows_of_first formed first
    obtain ⟨_, id', v, v', here, there, fresh, hit, own, own', copies⟩ := mirrors.found sameFirst
    rw [row] at here
    obtain ⟨id, at_, rfl⟩ := Option.map_eq_some_iff.1 here
    rw [lookup_ownValues formed] at own
    rw [List.find?_eq_bind_findIdx?_getElem?, first, Option.bind_some, at_, Option.some_or] at before
    rw [hit, Option.some_or] at after
    have value : s.find? scope name = some v := by rw [s.find?_eq_resolve?, before]; exact own
    have value' : back.2.find? back.1 name = some v' := by
      rw [back.2.find?_eq_resolve?, after]
      exact own'
    have place : (s.chain scope)[i]? = some id := by
      obtain ⟨rest, whole⟩ := s.below_prefix base scope
      rw [← whole, List.getElem?_append_left (List.getElem?_eq_some_iff.1 at_).1]
      exact at_
    have sendable' := sendable id (List.mem_of_getElem? at_) (name, v) (Dict.mem_of_lookup own)
    have lives := formed.values id (name, v) (Dict.mem_of_lookup own)
    refine ⟨by rw [value, value']; rfl, id, id', v, v', place, before, ?_, after, fresh, value, value',
      bisimilar_of_carried closed nests.toCarries ⟨lives, sendable'⟩ copies⟩
    rw [chain, List.getElem?_append_left (List.getElem?_eq_some_iff.1 there).1]
    exact there
  | none =>
    rw [mirrors.missing (rows_of_none formed first), Option.none_or] at after
    rw [List.find?_eq_bind_findIdx?_getElem?, first, Option.bind_none, Option.none_or] at before
    have value : back.2.find? back.1 name = s.find? base name := by
      rw [back.2.find?_eq_resolve?, after, ← nests.resolve? formed inside name,
        ← back.2.find?_eq_resolve?, nests.find? formed inside]
    have value' : s.find? scope name = s.find? base name := by
      rw [s.find?_eq_resolve? scope, before, ← s.find?_eq_resolve?]
    refine ⟨by rw [value, value'], before, after, value, fun v => ⟨by rw [Store.assign?, after], ?_⟩⟩
    intro t assigned
    rw [Store.assign?, after] at assigned
    obtain ⟨owner, found, rfl⟩ := Option.map_eq_some_iff.1 assigned
    exact Store.find?_declare_self ((nests.resolve? formed inside name).trans found) v

namespace Sample

/-- A base that binds `x` and `log`, and three scopes below it: one that shadows `x` by what
contains itself, one without names, and one that shadows `log`. -/
def stair : Store where
  objects := knot.objects
  arrays := knot.arrays
  functions := knot.functions
  scopes := #[
    { (default : Scope) with values := ⟨[("log", .function 0), ("x", .undefined)]⟩ },
    { (default : Scope) with values := ⟨[("x", .object 0), ("y", .array 0)]⟩, parent := some 0 },
    { (default : Scope) with parent := some 1 },
    { (default : Scope) with values := ⟨[("log", .string "none")]⟩, parent := some 2 }]
  references := #[]

theorem stair_closed : stair.Closed := ⟨knot_closed.elements, knot_closed.properties⟩

theorem stair_scoped : stair.Scoped where
  parents
    | 0 => fun _ link => by cases link
    | 1 | 2 | 3 => by simp [stair, Store.scope]
    | _ + 4 => fun _ link => by cases link
  names
    | 0 | 1 | 2 | 3 => by decide
    | _ + 4 => List.nodup_nil
  values
    | 0 | 1 | 2 | 3 => by decide
    | _ + 4 => fun _ mem => absurd (show _ ∈ [] from mem) List.not_mem_nil

theorem below_stair : stair.below 0 3 = [3, 2, 1] := by decide

theorem stair_sendable (r : Registry) :
    ∀ id ∈ stair.below 0 3, ∀ e ∈ (stair.scope id).values.entries, e.2.Sendable stair r := by
  have parts : ∀ u w, stair.Part u w → knot.Part u w := fun u w part => by
    cases part with
    | element mem => exact .element mem
    | property plain mem => exact .property plain mem
  have knotted : (Value.object 0).Sendable stair r := fun u reaches => by
    have portable := knot_sendable r u (Relation.ReflTransGen.mono parts _ _ reaches)
    cases u <;> exact portable
  have array : (Value.array 0).Sendable stair r :=
    knotted.part (@Store.Part.property stair 0 ("list", .array 0) rfl (by decide))
  have text : (Value.string "none").Sendable stair r := fun u reaches => by
    rcases reaches.cases_head with rfl | ⟨w, part, -⟩
    · trivial
    · cases part
  have rows : ∀ id ∈ [3, 2, 1], (stair.scope id).values.entries =
      if id = 3 then [("log", .string "none")] else if id = 2 then []
      else [("x", .object 0), ("y", .array 0)] := by decide
  rw [below_stair]
  intro id mem
  rw [rows id mem]
  split
  · simpa using text
  · split
    · simp
    · simpa using ⟨knotted, array⟩

theorem stair_sound : (SavedScopes.save stair (.empty (.source 1)) 0 3).2.Sound := by
  have sorted : ∀ id ∈ [3, 2, 1], stair.ownValues id = (stair.scope id).values.entries := by
    intro id mem
    refine List.mergeSort_of_pairwise ?_
    revert id
    decide
  have own : ∀ id ∈ [3, 2, 1], SavedScopes.saveLevel stair id =
      mapWith (SavedScopes.saveField stair) (stair.scope id).values.entries := fun id mem => by
    rw [SavedScopes.saveLevel, sorted id mem]
  rw [SavedScopes.save_eq, below_stair]
  simp only [mapWith, own 3 (by simp), own 2 (by simp), own 1 (by simp)]
  exact ⟨by decide +kernel, by decide +kernel⟩

theorem stair_survives :
    let saved := SavedScopes.save stair (.empty (.source 1)) 0 3
    let back := SavedScopes.restore stair saved.2 0 saved.1
    (stair.Closed ∧ stair.Keyed ∧ stair.Scoped ∧ 3 < stair.scopes.size ∧ 0 ∈ stair.chain 3) ∧
    saved.2.Sound ∧ ∃ id id' v v', (stair.chain 3)[2]? = some id ∧
      stair.resolve? 3 "x" = some id ∧ (back.2.chain back.1)[2]? = some id' ∧
      back.2.resolve? back.1 "x" = some id' ∧ stair.scopes.size ≤ id' ∧
      stair.find? 3 "x" = some v ∧ back.2.find? back.1 "x" = some v' ∧
      stair.Bisimilar back.2 v v' := by
  have keyed : stair.Keyed := knot_keyed
  have survives := SavedScopes.names_survive stair (.empty (.source 1)) 0 3 stair_closed keyed stair_scoped
    (by decide) (by decide) stair_sound (stair_sendable _) "x"
  have first : (stair.below 0 3).findIdx? (stair.binds · "x") = some 2 := by decide
  rw [first] at survives
  exact ⟨⟨stair_closed, keyed, stair_scoped, by decide, by decide⟩, stair_sound, survives.2⟩

end Sample

end EcmaMachine
