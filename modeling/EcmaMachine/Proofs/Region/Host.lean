import EcmaMachine.Host.Bench
import EcmaMachine.Proofs.Region.Step

/-!
The functions of the bench, and the global ones, stay in every region: they write nothing but what
they make, and give back nothing else but what they were called with.
-/

namespace EcmaMachine.Region

variable {η : Type} {R : Region} {s : Store} {args : List Value}

/-! ## Values from JSON -/

def Knows (R : Region) (s : Store) (r : Registry) : Prop :=
  ∀ token v, r.resolve? token = some v → R.Has s v

variable {r : Registry}

theorem Knows.resolveFields (known : R.Knows s r) {fields : List (String × Json)} {v : Value}
    (found : Wire.resolveFields? r fields = some v) : R.Has s v := by
  unfold Wire.resolveFields? at found
  split at found
  · obtain ⟨token, -, found⟩ := Option.bind_eq_some_iff.1 found
    exact known token v found
  · cases found

theorem Next.knows {s' : Store} (h : R.Next s s') (known : R.Knows s r) : R.Knows s' r :=
  fun token v found => h.has (known token v found)

mutual

theorem decodeValue {s : Store} (known : R.Knows s r) (k : R.keeps s) : (j : Json) →
    R.Step s (Wire.decodeValue r s j).2 ∧
      R.Has (Wire.decodeValue r s j).2 (Wire.decodeValue r s j).1
  | .null | .bool _ | .int _ | .float _ | .string _ => by
    rw [Wire.decodeValue]
    exact ⟨.refl k, by rintro p ⟨⟩⟩
  | .array items => by
    rw [Wire.decodeValue]
    obtain ⟨next, has⟩ := decodeItems known k items
    obtain ⟨made, list⟩ := newList next.keeps has
    exact ⟨next.trans made, list⟩
  | .object fields => by
    rw [Wire.decodeValue]
    split
    · next found => exact ⟨.refl k, known.resolveFields found⟩
    · obtain ⟨next, has⟩ := decodeFields known k fields
      obtain ⟨made, record⟩ := newRecord next.keeps has
      exact ⟨next.trans made, record⟩

theorem decodeItems {s : Store} (known : R.Knows s r) (k : R.keeps s) : (items : List Json) →
    R.Step s (Wire.decodeItems r s items).2 ∧
      ∀ v ∈ (Wire.decodeItems r s items).1, R.Has (Wire.decodeItems r s items).2 v
  | [] => by
    rw [Wire.decodeItems]
    exact ⟨.refl k, List.forall_mem_nil _⟩
  | j :: rest => by
    rw [Wire.decodeItems]
    obtain ⟨first, has⟩ := decodeValue known k j
    obtain ⟨others, all⟩ := decodeItems (first.knows known) first.keeps rest
    exact ⟨first.trans others, List.forall_mem_cons.2 ⟨others.has has, all⟩⟩

theorem decodeFields {s : Store} (known : R.Knows s r) (k : R.keeps s) :
    (fields : List (String × Json)) → R.Step s (Wire.decodeFields r s fields).2 ∧
      ∀ e ∈ (Wire.decodeFields r s fields).1, R.Has (Wire.decodeFields r s fields).2 e.2
  | [] => by
    rw [Wire.decodeFields]
    exact ⟨.refl k, List.forall_mem_nil _⟩
  | (key, j) :: rest => by
    rw [Wire.decodeFields]
    obtain ⟨first, has⟩ := decodeValue known k j
    obtain ⟨others, all⟩ := decodeFields (first.knows known) first.keeps rest
    exact ⟨first.trans others, List.forall_mem_cons.2 ⟨others.has has, all⟩⟩

end

/-! ## Host functions -/

def Finishes (R : Region) (s : Store) : Except HostError (Value × Store) → Prop
  | .ok (v, s') => R.Step s s' ∧ R.Has s' v
  | .error e => ∀ v, e.value = some v → R.Has s v

theorem finishes_parseJson (k : R.keeps s) (text : String) :
    R.Finishes s (Globals.parseJson s text) := by
  unfold Globals.parseJson
  split
  · exact decodeValue (by simp [Knows, Registry.resolve?, Registry.empty]) k _
  · exact nofun

theorem finishes_stringify (k : R.keeps s) (v : Value) :
    R.Finishes s ((Globals.stringify s v).map (·, s)) := by
  have given : (∃ w : Value, Globals.stringify s v = .ok w ∧ w.address? = none) ∨
      ∃ message, Globals.stringify s v = .error ⟨message, none⟩ := by
    unfold Globals.stringify
    split
    · exact .inl ⟨_, rfl, rfl⟩
    · exact .inl ⟨_, rfl, rfl⟩
    · dsimp only
      split
      · exact .inl ⟨_, rfl, rfl⟩
      · exact .inr ⟨_, rfl⟩
  rcases given with ⟨w, given, plain⟩ | ⟨message, given⟩
  · rw [given]
    exact ⟨.refl k, has_plain plain⟩
  · rw [given]
    exact nofun

theorem finishes_call {word : String} (k : R.keeps s) {result : Except HostError (Value × Store)}
    {log : List String} (called : Globals.call? word args s = some (result, log)) :
    R.Finishes s result := by
  have plain : ∀ {v : Value} {lines : List String}, v.address? = none →
      some (Except.ok (v, s), lines) = some (result, log) → R.Finishes s result := by
    rintro v lines plain ⟨⟩
    exact ⟨.refl k, has_plain plain⟩
  unfold Globals.call? at called
  split at called
  case h_10 =>
    cases called
    exact finishes_stringify k _
  case h_11 =>
    cases called
    exact finishes_parseJson k _
  case h_12 =>
    dsimp only at called
    split at called
    · cases called
      exact nofun
    · cases called
      exact newList k (by simp [Has, Value.address?])
  case h_13 =>
    dsimp only at called
    split at called <;> exact plain rfl called
  case h_14 => cases called
  all_goals exact plain rfl called

theorem Finishes.replies {result : Except HostError (Value × Store)} (h : R.Finishes s result)
    (k : R.keeps s) (log : List String) (kept : η) :
    let step := Globals.finish result log s kept
    R.Step s step.store ∧ R.Replies step.store step.reply := by
  cases result with
  | ok found => exact h
  | error e => exact ⟨.refl k, h⟩

theorem replies_invoke (k : R.keeps s) (has : ∀ v ∈ args, R.Has s v) :
    R.Replies s (Bench.invoke s args) := by
  have nth : ∀ i : Nat, R.Has s (args[i]?.getD .undefined) :=
    fun i => has_getD fun v found => has v (List.mem_of_getElem? found)
  have first : R.Has s (args.head?.getD .undefined) := by
    simpa [List.head?_eq_getElem?] using nth 0
  unfold Bench.invoke
  split
  · next called =>
    rw [called] at first
    refine ⟨has_function.1 first, nth 1, ?_⟩
    split
    · next listed =>
      have list := nth 2
      rw [listed] at list
      exact fun v mem => has_elements k (has_array.1 list) (Array.mem_toList_iff.1 mem)
    · exact List.forall_mem_nil _
  · trivial

theorem step_bench (k : R.keeps s) (word : String) (this : Value) (has : ∀ v ∈ args, R.Has s v)
    (ticket : Nat) (kept : Bench) :
    let step := Bench.host.call word this args ticket s kept
    R.Step s step.store ∧ R.Replies step.store step.reply := by
  have first : R.Has s (args.head?.getD .undefined) :=
    has_getD fun v found => has v (List.mem_of_mem_head? found)
  have silent : R.Step s s ∧ R.Replies s (.hold []) := ⟨.refl k, List.forall_mem_nil _⟩
  simp only [Bench.host, Bench.call]
  split
  case h_1 => exact ⟨.refl k, nofun⟩
  case h_2 => exact ⟨.refl k, nofun⟩
  case h_3 =>
    refine ⟨.refl k, ?_⟩
    rintro v ⟨⟩
    exact first
  case h_8 | h_9 =>
    exact ⟨.refl k, List.forall_mem_cons.2 ⟨first, List.forall_mem_singleton.2 first⟩⟩
  case h_10 => exact ⟨.refl k, replies_invoke k has⟩
  case h_11 =>
    split
    · next called => exact (finishes_call k called).replies k _ _
    · exact ⟨.refl k, nofun⟩
  all_goals exact silent

theorem admits_bench (R : Region) : R.Admits Bench.host :=
  fun word this _ ticket _ kept k _ has =>
    (step_bench k word this has ticket kept).imp_left (·.toNext)

end EcmaMachine.Region
