import Mathlib.Data.List.Nodup
import EcmaMachine.Store.Dict

/-!
Dictionaries: what is read after something was written, and what the entries are after many were
set.
-/

namespace EcmaMachine.Dict

variable {α : Type} {d : Dict α} {entries : List (String × α)} {key other : String} {v : α}

/-! ## Reading -/

theorem isSome_lookup (key : String) (entries : List (String × α)) :
    (lookup key entries).isSome = true ↔ key ∈ entries.map (·.1) := by
  induction entries with
  | nil => simp [lookup]
  | cons entry rest ih =>
    simp only [lookup, List.map_cons, List.mem_cons, ← ih]
    split
    · next same => simp [beq_iff_eq.1 same]
    · next other =>
      have ne : key ≠ entry.1 := fun eq => other (by simp [eq])
      simp [ne]

theorem mem_of_lookup (found : lookup key entries = some v) : (key, v) ∈ entries := by
  induction entries with
  | nil => cases found
  | cons entry rest ih =>
    simp only [lookup] at found
    split at found
    · next same =>
      cases found
      rw [← beq_iff_eq.1 same]
      exact List.mem_cons_self
    · exact List.mem_cons_of_mem _ (ih found)

theorem lookup_of_mem (distinct : (entries.map (·.1)).Nodup) (mem : (key, v) ∈ entries) :
    lookup key entries = some v := by
  have found : (lookup key entries).isSome = true :=
    (isSome_lookup key entries).2 (List.mem_map_of_mem mem)
  obtain ⟨w, found⟩ := Option.isSome_iff_exists.1 found
  have same := List.inj_on_of_nodup_map distinct (mem_of_lookup found) mem rfl
  rw [found, (Prod.mk.inj same).2]

theorem lookup_write (key : String) (v : α) (entries : List (String × α)) :
    lookup key (write key v entries) = some v := by
  induction entries with
  | nil => simp [write, lookup]
  | cons entry rest ih =>
    simp only [write]
    split
    · simp [lookup]
    · next other => simp only [lookup, if_neg other, ih]

theorem lookup_write_of_ne (ne : other ≠ key) (v : α) (entries : List (String × α)) :
    lookup other (write key v entries) = lookup other entries := by
  have apart : ¬ (key == other) = true := by simpa using ne.symm
  induction entries with
  | nil => simp only [write, lookup, if_neg apart]
  | cons entry rest ih =>
    simp only [write]
    split
    · next same =>
      have apart' : ¬ (entry.1 == other) = true := by rwa [beq_iff_eq.1 same]
      simp only [lookup, if_neg apart, if_neg apart']
    · simp only [lookup, ih]

theorem get?_empty (key : String) : (empty : Dict α).get? key = none := rfl

theorem get?_set (d : Dict α) (key : String) (v : α) : (d.set key v).get? key = some v :=
  lookup_write key v d.entries

theorem get?_set_of_ne (ne : other ≠ key) (d : Dict α) (v : α) :
    (d.set key v).get? other = d.get? other :=
  lookup_write_of_ne ne v d.entries

theorem get?_set_eq (d : Dict α) (key other : String) (v : α) :
    (d.set key v).get? other = if other = key then some v else d.get? other := by
  split
  · next same => rw [same, get?_set]
  · next apart => exact get?_set_of_ne apart d v

theorem get?_set_cases {w : α} (found : (d.set key v).get? other = some w) :
    w = v ∨ d.get? other = some w := by
  rw [get?_set_eq] at found
  split at found
  · exact .inl (Option.some.inj found).symm
  · exact .inr found

theorem get?_setAll_cases (found : (d.setAll entries).get? key = some v) :
    (∃ e ∈ entries, e.2 = v) ∨ d.get? key = some v := by
  induction entries generalizing d with
  | nil => exact .inr found
  | cons entry rest ih =>
    rcases ih found with ⟨e, mem, same⟩ | before
    · exact .inl ⟨e, List.mem_cons_of_mem _ mem, same⟩
    · refine (get?_set_cases before).imp_left fun same => ?_
      exact ⟨entry, List.mem_cons_self, same.symm⟩

theorem contains_setAll (known : d.contains key = true) (entries : List (String × α)) :
    (d.setAll entries).contains key = true := by
  induction entries generalizing d with
  | nil => exact known
  | cons entry rest ih =>
    refine ih (d := d.set entry.1 entry.2) ?_
    rw [contains, get?_set_eq]
    split
    · rfl
    · exact known

theorem get?_ofEntries_mem (found : (ofEntries entries).get? key = some v) :
    ∃ e ∈ entries, e.2 = v :=
  (get?_setAll_cases found).resolve_right nofun

theorem get?_erase_of_ne (ne : other ≠ key) (d : Dict α) :
    (d.erase key).get? other = d.get? other := by
  obtain ⟨entries⟩ := d
  simp only [get?, erase]
  induction entries with
  | nil => rfl
  | cons entry rest ih =>
    rw [List.filter_cons]
    split
    · simp only [lookup, ih]
    · next dropped =>
      have same : entry.1 = key := by simpa using dropped
      have apart : ¬ (entry.1 == other) = true := by simpa [same] using ne.symm
      simp only [lookup, if_neg apart, ih]

theorem get?_erase (d : Dict α) (key : String) : (d.erase key).get? key = none := by
  refine Option.eq_none_iff_forall_ne_some.2 fun v found => ?_
  simpa using (List.mem_filter.1 (mem_of_lookup found)).2

theorem get?_of_erase (found : (d.erase key).get? other = some v) : d.get? other = some v := by
  have ne : other ≠ key := by simpa using (List.mem_filter.1 (mem_of_lookup found)).2
  rwa [get?_erase_of_ne ne] at found

/-! ## Keys -/

theorem keys_write (key : String) (v : α) (entries : List (String × α)) :
    (write key v entries).map (·.1) =
      if key ∈ entries.map (·.1) then entries.map (·.1) else entries.map (·.1) ++ [key] := by
  induction entries with
  | nil => rfl
  | cons entry rest ih =>
    simp only [write]
    split
    · next same => simp [beq_iff_eq.1 same]
    · next other =>
      have ne : key ≠ entry.1 := fun eq => other (by simp [eq])
      simp only [List.map_cons, ih, List.mem_cons, ne, false_or]
      split <;> rfl

theorem nodup_set (distinct : d.keys.Nodup) (key : String) (v : α) : (d.set key v).keys.Nodup := by
  rw [keys, set, keys_write]
  split
  · exact distinct
  · next fresh =>
    refine List.nodup_append.2 ⟨distinct, List.nodup_singleton _, fun k mem k' last same => ?_⟩
    rw [same, List.mem_singleton.1 last] at mem
    exact fresh mem

theorem nodup_setAll (distinct : d.keys.Nodup) (entries : List (String × α)) :
    (d.setAll entries).keys.Nodup := by
  induction entries generalizing d with
  | nil => exact distinct
  | cons entry rest ih => exact ih (nodup_set distinct entry.1 entry.2)

theorem nodup_ofEntries (entries : List (String × α)) : (ofEntries entries).keys.Nodup :=
  nodup_setAll (show (keys empty).Nodup from List.nodup_nil) entries

/-! ## Entries -/

theorem write_last (fresh : key ∉ entries.map (·.1)) (v : α) :
    write key v entries = entries ++ [(key, v)] := by
  induction entries with
  | nil => rfl
  | cons first rest ih =>
    simp only [List.map_cons, List.mem_cons, not_or] at fresh
    have ne : ¬ (first.1 == key) = true := by simpa using Ne.symm fresh.1
    simp only [write, if_neg ne, ih fresh.2, List.cons_append]

theorem entries_setAll (distinct : ((d.entries ++ entries).map (·.1)).Nodup) :
    (d.setAll entries).entries = d.entries ++ entries := by
  induction entries generalizing d with
  | nil => simp [setAll]
  | cons entry rest ih =>
    have fresh : entry.1 ∉ d.entries.map (·.1) := by
      simp only [List.map_append, List.map_cons, List.nodup_append] at distinct
      intro mem
      exact distinct.2.2 _ mem _ List.mem_cons_self rfl
    have set : (d.set entry.1 entry.2).entries = d.entries ++ [entry] := write_last fresh entry.2
    have step : d.setAll (entry :: rest) = (d.set entry.1 entry.2).setAll rest := rfl
    rw [step, ih (by simpa [set] using distinct), set]
    simp

theorem entries_ofEntries (distinct : (entries.map (·.1)).Nodup) :
    (ofEntries entries).entries = entries :=
  entries_setAll distinct

end EcmaMachine.Dict
