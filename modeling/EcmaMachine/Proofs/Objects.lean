import Mathlib.Data.List.Induction
import EcmaMachine.Proofs.Dict
import EcmaMachine.Proofs.Properties

/-!
Objects as dictionaries. Whatever is set, removed and cleared, an object holds under each key what
was last set there, and its keys stand in the order in which they came: a key that is set again
keeps its place, and one that was removed in between comes last.
-/

namespace EcmaMachine

namespace Object

/-! ## Deeds -/

/-- What can be done to the properties of an object. -/
inductive Deed
  | set (key : String) (v : Value)
  | remove (key : String)
  | clear

namespace Deed

/-- Whether it is this deed that decides what is under the key. -/
def Touches (key : String) : Deed → Prop
  | set k _ | remove k => k = key
  | clear => True

def perform (id : ObjectId) (s : Store) : Deed → Store
  | set key v => s.setOwn id key v
  | remove key => (s.remove id key).2
  | clear => s.clearObject id

end Deed

/-- The value was set under the key, and no later deed touched the key. -/
def LastSet (deeds : List Deed) (key : String) (v : Value) : Prop :=
  ∃ before after, deeds = before ++ .set key v :: after ∧ ∀ d ∈ after, ¬ d.Touches key

def Present (deeds : List Deed) (key : String) : Prop := ∃ v, LastSet deeds key v

/-- The key was absent before the deed of this number and has been there ever since. -/
def PresentSince (deeds : List Deed) (key : String) (time : Nat) : Prop :=
  time < deeds.length ∧ ¬ Present (deeds.take time) key ∧
    ∀ n, time < n → n ≤ deeds.length → Present (deeds.take n) key

def CameBefore (deeds : List Deed) (key key' : String) : Prop :=
  ∃ t t', PresentSince deeds key t ∧ PresentSince deeds key' t' ∧ t < t'

variable {deeds : List Deed} {d : Deed} {key key' : String} {v : Value} {time : Nat}

theorem not_lastSet_nil : ¬ LastSet [] key v := by
  rintro ⟨before, after, eq, -⟩
  cases before <;> cases eq

/-- The last deed decides, or else what came before it. -/
theorem lastSet_concat :
    LastSet (deeds ++ [d]) key v ↔ d = .set key v ∨ ¬ d.Touches key ∧ LastSet deeds key v := by
  constructor
  · rintro ⟨before, after, eq, calm⟩
    rcases List.eq_nil_or_concat after with rfl | ⟨after, last, rfl⟩
    · have same := (List.append_inj' eq rfl).2
      exact .inl (List.singleton_inj.1 same)
    · have eq : deeds ++ [d] = (before ++ .set key v :: after) ++ [last] := by simpa using eq
      obtain ⟨same, same'⟩ := List.append_inj' eq rfl
      cases List.singleton_inj.1 same'
      exact .inr ⟨calm d (by simp), before, after, same, fun e mem => calm e (by simp [mem])⟩
  · rintro (rfl | ⟨calm, before, after, rfl, calm'⟩)
    · exact ⟨deeds, [], rfl, nofun⟩
    · refine ⟨before, after ++ [d], by simp, fun e mem => ?_⟩
      rcases List.mem_append.1 mem with mem | mem
      · exact calm' e mem
      · exact List.mem_singleton.1 mem ▸ calm

/-- A key that is still there keeps its time. -/
theorem PresentSince.concat (h : PresentSince deeds key time) (present : Present (deeds ++ [d]) key) :
    PresentSince (deeds ++ [d]) key time := by
  obtain ⟨lt, absent, since⟩ := h
  refine ⟨?_, ?_, fun n after le => ?_⟩
  · simp only [List.length_append, List.length_singleton]
    omega
  · rwa [List.take_append_of_le_length (Nat.le_of_lt lt)]
  · rw [List.length_append, List.length_singleton] at le
    by_cases last : n ≤ deeds.length
    · rw [List.take_append_of_le_length last]
      exact since n after last
    · rwa [List.take_of_length_le (by simp; omega)]

/-- A key that has just come has come with the last deed. -/
theorem presentSince_last (absent : ¬ Present deeds key) (present : Present (deeds ++ [d]) key) :
    PresentSince (deeds ++ [d]) key deeds.length := by
  refine ⟨by simp, by simpa using absent, fun n after le => ?_⟩
  rwa [List.take_of_length_le (by simp; omega)]

theorem exists_presentSince (present : Present deeds key) : ∃ time, PresentSince deeds key time := by
  induction deeds using List.reverseRecOn with
  | nil =>
    obtain ⟨v, last⟩ := present
    exact (not_lastSet_nil last).elim
  | append_singleton deeds d ih =>
    by_cases before : Present deeds key
    · obtain ⟨time, since⟩ := ih before
      exact ⟨time, since.concat present⟩
    · exact ⟨deeds.length, presentSince_last before present⟩

/-! ## What an object holds -/

/-- The dictionary that the deeds leave. -/
structure Records (dict : Dict Value) (deeds : List Deed) : Prop where
  distinct : dict.keys.Nodup
  values : ∀ key v, dict.get? key = some v ↔ LastSet deeds key v
  order : dict.keys.Pairwise (CameBefore deeds)

namespace Records

variable {dict : Dict Value} (h : Records dict deeds)

include h

theorem mem_keys : key ∈ dict.keys ↔ Present deeds key := by
  rw [Dict.keys, ← Dict.isSome_lookup, Option.isSome_iff_exists]
  exact exists_congr fun v => h.values key v

theorem mem_entries : (key, v) ∈ dict.entries ↔ LastSet deeds key v := by
  rw [← h.values]
  exact ⟨Dict.lookup_of_mem h.distinct, Dict.mem_of_lookup⟩

/-- Keys that are still there stand as they did. -/
theorem order_of_sublist {keys : List String} (sublist : keys.Sublist dict.keys)
    (still : ∀ key ∈ keys, Present (deeds ++ [d]) key) :
    keys.Pairwise (CameBefore (deeds ++ [d])) := by
  refine (h.order.sublist sublist).imp_of_mem fun mem mem' ⟨t, t', since, since', lt⟩ => ?_
  exact ⟨t, t', since.concat (still _ mem), since'.concat (still _ mem'), lt⟩

theorem set (key : String) (v : Value) : Records (dict.set key v) (deeds ++ [.set key v]) := by
  have values : ∀ other w, (dict.set key v).get? other = some w ↔
      LastSet (deeds ++ [.set key v]) other w := by
    intro other w
    rw [lastSet_concat, ← h.values]
    by_cases same : other = key
    · subst same
      simp [Dict.get?_set, Deed.Touches]
    · simp [Dict.get?_set_of_ne same, Deed.Touches, Ne.symm same]
  have still : ∀ other ∈ dict.keys, Present (deeds ++ [.set key v]) other := by
    intro other mem
    by_cases same : other = key
    · exact ⟨v, lastSet_concat.2 (.inl (by rw [same]))⟩
    · obtain ⟨w, last⟩ := h.mem_keys.1 mem
      exact ⟨w, lastSet_concat.2 (.inr ⟨Ne.symm same, last⟩)⟩
  refine ⟨Dict.nodup_set h.distinct key v, values, ?_⟩
  have keys : (dict.set key v).keys = if key ∈ dict.keys then dict.keys else dict.keys ++ [key] :=
    Dict.keys_write key v dict.entries
  rw [keys]
  split
  · exact h.order_of_sublist (List.Sublist.refl _) still
  · next fresh =>
    refine List.pairwise_append.2 ⟨h.order_of_sublist (List.Sublist.refl _) still,
      List.pairwise_singleton _ _, fun other mem last mem' => ?_⟩
    cases List.mem_singleton.1 mem'
    obtain ⟨t, since⟩ := exists_presentSince (h.mem_keys.1 mem)
    have present : Present (deeds ++ [.set key v]) key := ⟨v, lastSet_concat.2 (.inl rfl)⟩
    exact ⟨t, deeds.length, since.concat (still other mem),
      presentSince_last (mt h.mem_keys.2 fresh) present, since.1⟩

theorem remove (key : String) : Records (dict.erase key) (deeds ++ [.remove key]) := by
  have keys : (dict.erase key).keys.Sublist dict.keys := List.filter_sublist.map _
  have values : ∀ other w, (dict.erase key).get? other = some w ↔
      LastSet (deeds ++ [.remove key]) other w := by
    intro other w
    rw [lastSet_concat, ← h.values]
    by_cases same : other = key
    · subst same
      simp [Dict.get?_erase, Deed.Touches]
    · simp [Dict.get?_erase_of_ne same, Deed.Touches, Ne.symm same]
  refine ⟨h.distinct.sublist keys, values, h.order_of_sublist keys fun other mem => ?_⟩
  rw [Dict.keys, ← Dict.isSome_lookup, Option.isSome_iff_exists] at mem
  exact mem.imp fun w found => (values other w).1 found

/-- Something goes exactly if the key is there. -/
theorem length_erase :
    (dict.erase key).entries.length ≠ dict.entries.length ↔ Present deeds key := by
  rw [← h.mem_keys, Dict.erase, Dict.keys, ne_eq, List.length_filter_eq_length_iff]
  simp

end Records

theorem records_empty : Records .empty [] where
  distinct := List.nodup_nil
  values _ _ := ⟨nofun, fun last => (not_lastSet_nil last).elim⟩
  order := .nil

theorem records_clear : Records .empty (deeds ++ [.clear]) where
  distinct := List.nodup_nil
  values key v := by
    rw [lastSet_concat]
    simp [Dict.get?, Dict.empty, Dict.lookup, Deed.Touches]
  order := .nil

variable {s : Store} {id : ObjectId}

theorem size_perform (d : Deed) : (d.perform id s).objects.size = s.objects.size := by
  cases d <;> exact Array.size_modify ..

/-- One deed more on an object. -/
theorem Records.perform (known : id < s.objects.size) (h : Records (s.object id).properties deeds)
    (d : Deed) : Records ((d.perform id s).object id).properties (deeds ++ [d]) := by
  cases d with
  | set key v =>
    rw [Deed.perform, Store.setOwn, Store.object_modifyObject known]
    exact h.set key v
  | remove key =>
    rw [Deed.perform, Store.remove, Store.removeOwn, Store.object_modifyObject known]
    exact h.remove key
  | clear =>
    rw [Deed.perform, Store.clearObject, Store.object_modifyObject known]
    exact records_clear

theorem records_performed (known : id < s.objects.size)
    (fresh : (s.object id).properties = .empty) (deeds : List Deed) :
    id < (deeds.foldl (Deed.perform id) s).objects.size ∧
      Records ((deeds.foldl (Deed.perform id) s).object id).properties deeds := by
  induction deeds using List.reverseRecOn with
  | nil => exact ⟨known, fresh ▸ records_empty⟩
  | append_singleton deeds d ih =>
    rw [List.foldl_append]
    exact ⟨(size_perform d).symm ▸ ih.1, ih.2.perform ih.1 d⟩

end Object

open Object

/-- An object that began empty is the dictionary of the last writes, its keys in the order in which
they came. Whether a key goes when it is removed says whether it was there. -/
theorem objects_are_dictionaries (s : Store) (id : ObjectId) (known : id < s.objects.size)
    (fresh : (s.object id).properties = .empty) (deeds : List Deed) (s' : Store)
    (done : s' = deeds.foldl (Deed.perform id) s) :
    (s'.enumerableKeys (.object id)).Nodup ∧
      (∀ key v, s'.getOwn? id key = some v ↔ LastSet deeds key v) ∧
      (∀ key, (s'.object id).properties.contains key = true ↔ Present deeds key) ∧
      (∀ key, key ∈ s'.enumerableKeys (.object id) ↔ Present deeds key) ∧
      (∀ key v, (key, v) ∈ (s'.object id).properties.entries ↔ LastSet deeds key v) ∧
      (s'.enumerableKeys (.object id)).Pairwise (CameBefore deeds) ∧
      (s'.object id).properties.entries.map (·.1) = s'.enumerableKeys (.object id) ∧
      ∀ key, (s'.remove id key).1 = true ↔ Present deeds key := by
  subst done
  obtain ⟨known, records⟩ := records_performed known fresh deeds
  refine ⟨records.distinct, records.values, fun key => ?_, fun key => records.mem_keys,
    fun key v => records.mem_entries, records.order, rfl, fun key => ?_⟩
  · rw [Dict.contains, Option.isSome_iff_exists]
    exact exists_congr fun v => records.values key v
  · rw [← records.length_erase, Store.remove, Store.removeOwn, Store.object_modifyObject known,
      bne_iff_ne]

namespace Sample

/-- A key that is set twice, and one that is removed and set again. -/
def drawerDeeds : List Deed :=
  [.set "a" .null, .set "b" .undefined, .set "a" (.bool true), .remove "b", .set "c" .null,
    .set "b" (.bool false)]

theorem drawer_is_dictionary :
    (Store.empty.newObject .empty none).2.object 0 = ⟨.empty, none⟩ ∧
      ∀ s', s' = drawerDeeds.foldl (Deed.perform 0) (Store.empty.newObject .empty none).2 →
        s'.enumerableKeys (.object 0) = ["a", "c", "b"] ∧ LastSet drawerDeeds "a" (.bool true) ∧
        CameBefore drawerDeeds "c" "b" ∧ ¬ Present drawerDeeds "d" ∧
        (s'.remove 0 "b").1 = true := by
  refine ⟨rfl, fun s' done => ?_⟩
  obtain ⟨-, values, -, keys, -, order, -, removed⟩ := objects_are_dictionaries
    (Store.empty.newObject .empty none).2 0 (by decide) rfl drawerDeeds s' done
  have listed : s'.enumerableKeys (.object 0) = ["a", "c", "b"] := by
    rw [done]
    rfl
  rw [listed] at keys order
  refine ⟨listed, (values "a" _).1 (by rw [done]; rfl), ?_, mt (keys "d").2 (by decide),
    (removed "b").2 ((keys "b").1 (by decide))⟩
  exact (List.pairwise_cons.1 (List.pairwise_cons.1 order).2).1 "b" (by decide)

end Sample

end EcmaMachine
