import Mathlib.Logic.Relation
import EcmaMachine.Proofs.Growth

/-!
Arrays as text. The elements are joined with commas, and an array that stands within itself is left
out there. So the text has an end on every graph of arrays, and where there is no cycle nothing is
left out.
-/

namespace EcmaMachine

namespace Store

variable {s : Store} {cuts : Bool} {path : List ArrayId} {id : ArrayId} {v : Value} {t t' : String}

def HasArray (s : Store) (id inner : ArrayId) : Prop := Value.array inner ∈ s.elements id

/-- From this array one comes to none that stands within itself. -/
def Unlooped (s : Store) (id : ArrayId) : Prop :=
  ∀ inner, Relation.ReflTransGen s.HasArray id inner → ¬ Relation.TransGen s.HasArray inner inner

/-- The text of an element, given the arrays it stands in. With `cuts`, it is left out if it is one
of them. -/
inductive Joined (s : Store) (cuts : Bool) : List ArrayId → Value → String → Prop
  | leaf {path : List ArrayId} {v : Value} (leaf : ∀ id, v ≠ .array id) :
    Joined s cuts path v (if v.isNullish then "" else s.text v)
  | cut {path : List ArrayId} {id : ArrayId} (cut : cuts = true) (within : id ∈ path) :
    Joined s cuts path (.array id) ""
  | array {path : List ArrayId} {id : ArrayId} {texts : Value → String}
    (whole : cuts = true → id ∉ path)
    (each : ∀ v ∈ s.elements id, Joined s cuts (id :: path) v (texts v)) :
    Joined s cuts path (.array id) (",".intercalate ((s.elements id).toList.map texts))

theorem Joined.unique (h : s.Joined cuts path v t) (h' : s.Joined cuts path v t') : t = t' := by
  induction h generalizing t' with
  | leaf leaf =>
    cases h' with
    | leaf => rfl
    | cut | array => exact absurd rfl (leaf _)
  | cut cut within =>
    cases h' with
    | leaf leaf => exact absurd rfl (leaf _)
    | cut => rfl
    | array whole => exact absurd within (whole cut)
  | array whole _ ih =>
    cases h' with
    | leaf leaf => exact absurd rfl (leaf _)
    | cut cut within => exact absurd within (whole cut)
    | array _ each' =>
      refine congrArg _ (List.map_congr_left fun v mem => ?_)
      have mem := Array.mem_toList_iff.1 mem
      exact ih v mem (each' v mem)

def itemText (s : Store) (fuel : Nat) (path : List ArrayId) : Value → String
  | .array inner => s.join fuel path inner
  | v => if v.isNullish then "" else s.text v

theorem join_succ (s : Store) (fuel : Nat) (path : List ArrayId) (id : ArrayId) :
    s.join (fuel + 1) path id = if id ∈ path then ""
      else ",".intercalate ((s.elements id).toList.map (s.itemText fuel (id :: path))) := by
  rw [join]
  simp only [List.contains_iff_mem]
  congr 3
  funext v
  cases v <;> rfl

theorem lt_of_mem_elements (mem : v ∈ s.elements id) : id < s.arrays.size := by
  refine Nat.lt_of_not_le fun le => ?_
  simp [elements, Array.getD_eq_getD_getElem?, Array.getElem?_eq_none le] at mem

/-- The arrays on the way down are all different, so the fuel is not spent before they are. -/
theorem joined_join {fuel : Nat} (nodup : path.Nodup) (known : ∀ p ∈ path, p < s.arrays.size)
    (enough : s.arrays.size < fuel + path.length) :
    s.Joined true path (.array id) (s.join fuel path id) := by
  induction fuel generalizing path id with
  | zero =>
    have := length_le_of_nodup nodup known
    omega
  | succ fuel ih =>
    rw [join_succ]
    split
    case isTrue within => exact .cut rfl within
    case isFalse fresh =>
      refine .array (fun _ => fresh) fun v mem => ?_
      cases v with
      | array inner =>
        refine ih (List.nodup_cons.2 ⟨fresh, nodup⟩)
          (List.forall_mem_cons.2 ⟨lt_of_mem_elements mem, known⟩) ?_
        simp only [List.length_cons]
        omega
      | _ => exact .leaf nofun

/-- Where no array is left out, it does not matter that it could have been. -/
theorem Joined.uncut (h : s.Joined true path v t)
    (apart : ∀ id, v = .array id → s.Unlooped id ∧
      ∀ p ∈ path, Relation.TransGen s.HasArray p id) : s.Joined false path v t := by
  induction h with
  | leaf leaf => exact .leaf leaf
  | cut _ within =>
    obtain ⟨unlooped, inside⟩ := apart _ rfl
    exact absurd (inside _ within) (unlooped _ .refl)
  | @array path id texts _ each ih =>
    obtain ⟨unlooped, inside⟩ := apart _ rfl
    refine .array nofun fun v mem => ih v mem fun inner same => ?_
    subst same
    have here : s.HasArray id inner := mem
    exact ⟨fun a reached => unlooped a (.head here reached), List.forall_mem_cons.2
      ⟨.single here, fun p around => (inside p around).tail here⟩⟩

theorem joined_text (s : Store) (id : ArrayId) :
    s.Joined true [] (.array id) (s.text (.array id)) :=
  joined_join List.nodup_nil (by simp) (by simp)

end Store

/-- Every array has a text: its elements joined with commas, nothing for undefined and null and
nothing for an array within itself. Where there is no cycle, it is that of the plain recursion. The
number of an array is that of its text. -/
theorem array_text_only_cuts_cycles (s : Store) (id : ArrayId) :
    (∀ t, s.Joined true [] (.array id) t ↔ t = s.text (.array id)) ∧
      (s.Unlooped id → ∀ t, s.Joined false [] (.array id) t ↔ t = s.text (.array id)) ∧
      s.toNumber (.array id) = Number.ofText (s.text (.array id)) := by
  have joined := s.joined_text id
  refine ⟨fun t => ⟨fun h => h.unique joined, fun same => same ▸ joined⟩, fun unlooped t => ?_, rfl⟩
  have uncut : s.Joined false [] (.array id) (s.text (.array id)) :=
    joined.uncut fun id' same => by
      cases same
      exact ⟨unlooped, fun _ mem => nomatch mem⟩
  exact ⟨fun h => h.unique uncut, fun same => same ▸ uncut⟩

namespace Sample

/-- An array that has another one twice, and itself. -/
def whorl : Store where
  objects := #[]
  arrays := #[#[.array 1, .array 1, .array 0], #[.string "x", .undefined]]
  functions := #[]
  scopes := #[]
  references := #[]

theorem whorl_unlooped : whorl.Unlooped 1 := by
  have ends : ∀ inner, ¬ whorl.HasArray 1 inner := by
    simp [Store.HasArray, whorl, Store.elements]
  intro inner reached cycle
  rcases reached.cases_head with rfl | ⟨next, has, -⟩
  · obtain ⟨next, has, -⟩ := Relation.TransGen.head'_iff.1 cycle
    exact ends next has
  · exact ends next has

theorem whorl_text_cut : whorl.Joined true [] (.array 0) "x,,x,," ∧
    whorl.Unlooped 1 ∧ whorl.Joined false [] (.array 1) "x," :=
  ⟨((array_text_only_cuts_cycles whorl 0).1 _).2 (by decide), whorl_unlooped,
    ((array_text_only_cuts_cycles whorl 1).2.1 whorl_unlooped _).2 (by decide)⟩

end Sample

end EcmaMachine
