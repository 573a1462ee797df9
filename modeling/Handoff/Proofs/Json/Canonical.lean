import Mathlib.Data.List.Perm.Basic
import Handoff.Proofs.Json.Alike

set_option autoImplicit false
set_option relaxedAutoImplicit false

/-!
Values with sorted keys stand for all values that differ from them in the order of their keys alone.

Sorting reorders a value, and among the values that are reorderings of each other it leaves one, the only one whose
keys ascend. No number is changed: a whole one stays whole, and the two zeros stay apart.
-/

namespace Handoff
namespace Json

/-- The same value, but for the order in which its objects have their members, at any depth. -/
inductive Reordered : Json → Json → Prop
  | null : Reordered .null .null
  | bool (b : Bool) : Reordered (.bool b) (.bool b)
  | int (n : Int) : Reordered (.int n) (.int n)
  | float (x : Float) : Reordered (.float x) (.float x)
  | string (s : String) : Reordered (.string s) (.string s)
  | array {items others : List Json} : List.Forall₂ Reordered items others → Reordered (.array items) (.array others)
  | object {members between others : List (String × Json)} : members.map Prod.fst = between.map Prod.fst →
      List.Forall₂ Reordered (members.map Prod.snd) (between.map Prod.snd) → between.Perm others →
      Reordered (.object members) (.object others)

/-- A value in which every object has its keys in strictly ascending order. -/
inductive Ascending : Json → Prop
  | null : Ascending .null
  | bool (b : Bool) : Ascending (.bool b)
  | int (n : Int) : Ascending (.int n)
  | float (x : Float) : Ascending (.float x)
  | string (s : String) : Ascending (.string s)
  | array {items : List Json} : (∀ v ∈ items, Ascending v) → Ascending (.array items)
  | object {members : List (String × Json)} : (members.map Prod.fst).Pairwise (· < ·) →
      (∀ entry ∈ members, Ascending entry.2) → Ascending (.object members)

section Images

variable {α β : Type} {f : α → β}

private theorem map_eq_map_iff {xs ys : List α} :
    xs.map f = ys.map f ↔ List.Forall₂ (fun x y => f x = f y) xs ys := by
  rw [← List.forall₂_eq_eq_eq, List.forall₂_map_left_iff, List.forall₂_map_right_iff]

private theorem exists_perm_of_map {images : List β} {xs : List α} (moved : images.Perm (xs.map f)) :
    ∃ ys : List α, ys.map f = images ∧ ys.Perm xs := by
  have each : List.Forall₂ (fun b a => b = f a) (xs.map f) xs :=
    List.forall₂_map_left_iff.mpr (List.forall₂_same.mpr fun _ _ => rfl)
  obtain ⟨ys, related, same⟩ := List.perm_comp_forall₂ moved each
  rw [← List.forall₂_map_right_iff (R := Eq), List.forall₂_eq_eq_eq] at related
  exact ⟨ys, related.symm, same⟩

end Images

section Reorderings

/-- Members have the same sorted values in place when they have the same keys, and values with the same sorted form. -/
private theorem sortMembers_eq_iff {members others : Members} :
    sortMembers members = sortMembers others ↔ members.map Prod.fst = others.map Prod.fst ∧
      (members.map Prod.snd).map sortKeys = (others.map Prod.snd).map sortKeys := by
  have parts (ms : Members) : sortMembers ms = (ms.map Prod.fst).zip ((ms.map Prod.snd).map sortKeys) := by
    rw [sortMembers_eq, List.map_map, List.zip_map']
    rfl
  constructor
  · intro same
    have values := congrArg (List.map Prod.snd) same
    refine ⟨by rw [← keys_sortMembers, same, keys_sortMembers], ?_⟩
    simpa [sortMembers_eq, Function.comp_def] using values
  · rintro ⟨keys, values⟩
    rw [parts, parts, keys, values]

theorem reordered_of_sortKeys {v w : Json} (h : v.sortKeys = w.sortKeys) : v.Reordered w := by
  induction v using parts_induction generalizing w with
  | null =>
    cases w with
    | null => exact .null
    | bool _ | int _ | float _ | string _ | array _ | object _ => cases h
  | bool b =>
    cases w with
    | bool _ => cases h; exact .bool b
    | null | int _ | float _ | string _ | array _ | object _ => cases h
  | int n =>
    cases w with
    | int _ => cases h; exact .int n
    | null | bool _ | float _ | string _ | array _ | object _ => cases h
  | float x =>
    cases w with
    | float _ => cases h; exact .float x
    | null | bool _ | int _ | string _ | array _ | object _ => cases h
  | string s =>
    cases w with
    | string _ => cases h; exact .string s
    | null | bool _ | int _ | float _ | array _ | object _ => cases h
  | array items ih =>
    cases w with
    | null | bool _ | int _ | float _ | string _ | object _ => cases h
    | array others =>
      rw [sortKeys_array, sortKeys_array, Json.array.injEq, map_eq_map_iff] at h
      exact .array (forall₂_of_mem (fun v member w _ same => ih v member same) h)
  | object members ih =>
    cases w with
    | null | bool _ | int _ | float _ | string _ | array _ => cases h
    | object others =>
      rw [sortKeys_object, sortKeys_object, Json.object.injEq] at h
      have moved : (sortMembers members).Perm (sortMembers others) :=
        (sorted_perm members).symm.trans (h ▸ sorted_perm others)
      rw [sortMembers_eq others] at moved
      -- The other members, put in the order of the first, have the same keys and the same values up to order.
      obtain ⟨between, same, moved⟩ := exists_perm_of_map moved
      rw [← sortMembers_eq, eq_comm] at same
      obtain ⟨keys, values⟩ := sortMembers_eq_iff.mp same
      refine .object keys (forall₂_of_mem (fun v member w _ same => ?_) (map_eq_map_iff.mp values)) moved
      obtain ⟨entry, held, rfl⟩ := List.mem_map.mp member
      exact ih entry held same

theorem reordered_sortKeys (v : Json) : v.Reordered v.sortKeys :=
  reordered_of_sortKeys (sortKeys_sortKeys v).symm

theorem sortKeys_eq_of_reordered {v w : Json} (sound : v.Sound) (h : v.Reordered w) : v.sortKeys = w.sortKeys := by
  induction v using parts_induction generalizing w with
  | null | bool | int | float | string =>
    cases h
    rfl
  | array items ih =>
    cases h with
    | array each =>
      rw [sortKeys_array, sortKeys_array, Json.array.injEq, map_eq_map_iff]
      exact forall₂_of_mem (fun v member w _ moved => ih v member (soundItems_iff.mp sound v member) moved) each
  | object members ih =>
    cases h with
    | @object _ between others keys values moved =>
      have sorted : List.Forall₂ (fun v w => v.sortKeys = w.sortKeys) (members.map Prod.snd)
          (between.map Prod.snd) := by
        refine forall₂_of_mem (fun v member w _ moved => ?_) values
        obtain ⟨entry, held, rfl⟩ := List.mem_map.mp member
        exact ih entry held (sound.of_mem held) moved
      have same := sortMembers_eq_iff.mpr ⟨keys, map_eq_map_iff.mpr sorted⟩
      rw [sortKeys_object, sortKeys_object, Json.object.injEq]
      refine sorted_eq_of_perm ?_ sound.distinct
      rw [same, sortMembers_eq, sortMembers_eq]
      exact moved.map _

end Reorderings

section Ascent

private theorem ascending_sorted {members : Members} (distinct : (members.map Prod.fst).Nodup) :
    ((sorted members).map Prod.fst).Pairwise (· < ·) := by
  have ordered : ((sorted members).map Prod.fst).Pairwise (· ≤ ·) :=
    List.pairwise_map.mpr ((pairwise_sorted members).imp fun le => decide_eq_true_eq.mp le)
  refine (ordered.and (nodup_sorted distinct)).imp ?_
  rintro a b ⟨le, ne⟩
  exact Std.lt_of_le_of_ne le ne

theorem ascending_sortKeys {v : Json} (sound : v.Sound) : v.sortKeys.Ascending := by
  induction v using parts_induction with
  | null => exact .null
  | bool b => exact .bool b
  | int n => exact .int n
  | float x => exact .float x
  | string s => exact .string s
  | array items ih =>
    rw [sortKeys_array]
    exact .array (List.forall_mem_map.mpr fun v member => ih v member (soundItems_iff.mp sound v member))
  | object members ih =>
    refine .object (ascending_sorted sound.distinct) fun entry member => ?_
    obtain ⟨v, held, same⟩ := mem_sorted.mp member
    exact same ▸ ih _ held (sound.of_mem held)

theorem sortKeys_of_ascending {v : Json} (h : v.Ascending) : v.sortKeys = v := by
  induction v using parts_induction with
  | null | bool | int | float | string => rfl
  | array items ih =>
    cases h with
    | array each =>
      have fixed : items.map sortKeys = items.map id := List.map_congr_left fun v member => ih v member (each v member)
      rw [sortKeys_array, fixed, List.map_id]
  | object members ih =>
    cases h with
    | object keys each =>
      have fixed : sortMembers members = members.map id := by
        rw [sortMembers_eq]
        exact List.map_congr_left fun entry member => Prod.ext rfl (ih entry member (each entry member))
      have ordered : members.Pairwise fun first second => memberLe first second = true :=
        (List.pairwise_map.mp keys).imp fun less => decide_eq_true (Std.le_of_lt less)
      rw [List.map_id] at fixed
      rw [sortKeys_object, sorted, fixed, List.mergeSort_of_pairwise ordered]

end Ascent

/-- Sorting keys tells values apart exactly when they differ in more than the order of keys. The sorted form is a
reordering of the value, the only one whose keys ascend, and is not changed when its keys are sorted again. -/
theorem sortKeys_eq_iff {v w : Json} (sound : v.Sound) :
    (v.sortKeys = w.sortKeys ↔ v.Reordered w) ∧ v.Reordered v.sortKeys ∧ v.sortKeys.Ascending ∧
      (∀ u, v.Reordered u → u.Ascending → u = v.sortKeys) ∧ v.sortKeys.sortKeys = v.sortKeys := by
  refine ⟨⟨reordered_of_sortKeys, sortKeys_eq_of_reordered sound⟩, reordered_sortKeys v,
    ascending_sortKeys sound, fun u moved ascending => ?_, sortKeys_sortKeys v⟩
  calc
    u = u.sortKeys := (sortKeys_of_ascending ascending).symm
    _ = v.sortKeys := (sortKeys_eq_of_reordered sound moved).symm

/-- An object in an array in an object, both with their keys out of order. -/
theorem sortKeys_eq_iff_nested :
    let inner : Json := .object [("z", .int 1), ("a", .float 1)]
    let inner' : Json := .object [("a", .float 1), ("z", .int 1)]
    let v : Json := .object [("b", .array [inner, .null]), ("B", .string "s")]
    let w : Json := .object [("B", .string "s"), ("b", .array [inner', .null])]
    v.Sound ∧ v.Reordered w ∧ w.Ascending ∧ v.sortKeys = w.sortKeys ∧ v.sortKeys = w := by
  intro inner inner' v w
  have sound : v.Sound := by decide
  have innerMoved : inner.Reordered inner' :=
    .object rfl (.cons (.int 1) (.cons (.float 1) .nil)) (.swap ..)
  have moved : v.Reordered w :=
    @Reordered.object _ [("b", .array [inner', .null]), ("B", .string "s")] _ rfl
      (.cons (.array (.cons innerMoved (.cons .null .nil))) (.cons (.string "s") .nil)) (.swap ..)
  have innerAscends : inner'.Ascending := .object (by decide) (by simp [Ascending.int, Ascending.float])
  have ascends : w.Ascending := by
    refine .object (by decide) (List.forall_mem_cons.mpr ⟨.string "s", List.forall_mem_singleton.mpr ?_⟩)
    exact .array (List.forall_mem_cons.mpr ⟨innerAscends, List.forall_mem_singleton.mpr .null⟩)
  obtain ⟨same, -, -, unique, -⟩ := sortKeys_eq_iff (w := w) sound
  exact ⟨sound, moved, ascends, same.mpr moved, (unique w moved ascends).symm⟩

end Json
end Handoff
