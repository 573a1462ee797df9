import Handoff.Json.Difference
import Handoff.Proofs.Json.Alike

set_option autoImplicit false
set_option relaxedAutoImplicit false

/-!
The places at which two values differ.

They are counted by comparing the values part by part, without regard to how differences are listed. There is one
difference for each of them, and none exactly between values that are equal up to the order of their keys.
-/

namespace Handoff
namespace Json

/-- The number of keys of some members that others do not have. -/
def keysBeside (members others : Members) : Nat :=
  (members.map Prod.fst).countP fun key => key ∉ others.map Prod.fst

mutual

/-- The number of places at which two values differ. Objects differ at each key that only one of them has and below the
keys that both have, arrays in their length and below the indices that both have. Values of different kinds differ once,
and so do different values of one kind. -/
def places : Json → Json → Nat
  | .object ms, .object ns => keysBeside ms ns + keysBeside ns ms + memberPlaces ns ms
  | .array xs, .array ys => (if xs.length = ys.length then 0 else 1) + itemPlaces xs ys
  | .null, .null => 0
  | .bool a, .bool b => if a = b then 0 else 1
  | .int m, .int n => if m = n then 0 else 1
  | .float x, .float y => if x == y then 0 else 1
  | .string s, .string t => if s = t then 0 else 1
  | _, _ => 1

/-- The places below the keys that members have in common with others. -/
def memberPlaces (others : List (String × Json)) : List (String × Json) → Nat
  | [] => 0
  | (key, v) :: ms =>
    (match others.lookup key with
      | some w => places v w
      | none => 0) + memberPlaces others ms

/-- The places below the indices that arrays have in common. -/
def itemPlaces : List Json → List Json → Nat
  | x :: xs, y :: ys => places x y + itemPlaces xs ys
  | _, _ => 0

end

section Count

private theorem keysBeside_cons (key : String) (v : Json) (ms ns : Members) :
    keysBeside ((key, v) :: ms) ns = keysBeside ms ns + if (ns.lookup key).isNone then 1 else 0 := by
  rw [keysBeside, List.map_cons, List.countP_cons, keysBeside]
  congr 1
  simp only [decide_eq_true_eq, Option.isNone_iff_eq_none, Entries.lookup_eq_none_iff]

private theorem length_beside (ms ns : Members) :
    (ns.filter fun n => (ms.lookup n.1).isNone).length = keysBeside ns ms := by
  induction ns with
  | nil => rfl
  | cons entry rest ih =>
    obtain ⟨key, v⟩ := entry
    rw [keysBeside_cons, ← ih, List.filter_cons]
    split <;> rfl

mutual

theorem length_differences (path : Path) (a b : Json) : (differences path a b).length = places a b :=
  match a with
  | .null => by cases b <;> simp [differences, places, same, kind]
  | .bool p => by
    cases b with
    | bool q => by_cases equal : p = q <;> simp [differences, places, same, equal, kind]
    | null | int _ | float _ | string _ | array _ | object _ => simp [differences, places, kind]
  | .int m => by
    cases b with
    | int n => by_cases equal : m = n <;> simp [differences, places, same, equal, kind]
    | null | bool _ | float _ | string _ | array _ | object _ => simp [differences, places, same, kind]
  | .float x => by
    cases b with
    | float y => cases equal : x == y <;> simp [differences, places, same, equal, kind]
    | null | bool _ | int _ | string _ | array _ | object _ => simp [differences, places, same, kind]
  | .string s => by
    cases b with
    | string t => by_cases equal : s = t <;> simp [differences, places, same, equal, kind]
    | null | bool _ | int _ | float _ | array _ | object _ => simp [differences, places, kind]
  | .array xs => by
    cases b with
    | array ys =>
      rw [differences, places, List.length_append, length_itemDifferences path 0 xs ys]
      split <;> rfl
    | null | bool _ | int _ | float _ | string _ | object _ => simp [differences, places, kind]
  | .object ms => by
    cases b with
    | object ns =>
      rw [differences, places, List.length_append, length_memberDifferences path ns ms, List.length_map,
        length_beside]
      omega
    | null | bool _ | int _ | float _ | string _ | array _ => simp [differences, places, kind]

private theorem length_memberDifferences (path : Path) (others members : List (String × Json)) :
    (memberDifferences path others members).length = keysBeside members others + memberPlaces others members :=
  match members with
  | [] => rfl
  | (key, v) :: ms => by
    rw [memberDifferences, memberPlaces, List.length_append, length_memberDifferences path others ms, keysBeside_cons]
    cases found : others.lookup key with
    | none => simp; omega
    | some w =>
      simp only [length_differences (path ++ [.key key]) v w, Option.isNone_some, Bool.false_eq_true, if_false]
      omega

private theorem length_itemDifferences (path : Path) (i : Nat) (items others : List Json) :
    (itemDifferences path i items others).length = itemPlaces items others :=
  match items with
  | [] => by simp [itemDifferences, itemPlaces]
  | v :: vs => by
    cases others with
    | nil => rfl
    | cons w ws =>
      rw [itemDifferences, itemPlaces, List.length_append, length_differences (path ++ [Step.index i]) v w,
        length_itemDifferences path (i + 1) vs ws]

end

end Count

section Equality

private theorem one_unless {p : Prop} [Decidable p] : (if p then 0 else 1) = 0 ↔ p := by
  simp

private theorem keysBeside_eq_zero_iff {ms ns : Members} :
    keysBeside ms ns = 0 ↔ ∀ key ∈ ms.map Prod.fst, key ∈ ns.map Prod.fst := by
  simp only [keysBeside, List.countP_eq_zero, decide_eq_true_eq, not_not]

private theorem memberPlaces_eq_zero_iff {ms ns : Members} :
    memberPlaces ns ms = 0 ↔ ∀ entry ∈ ms, ∀ w, ns.lookup entry.1 = some w → places entry.2 w = 0 := by
  induction ms with
  | nil => simp [memberPlaces]
  | cons entry rest ih =>
    obtain ⟨key, v⟩ := entry
    rw [memberPlaces, Nat.add_eq_zero_iff, ih, List.forall_mem_cons]
    refine and_congr_left fun _ => ?_
    cases ns.lookup key <;> simp

private theorem itemPlaces_eq_zero_iff {xs ys : List Json} (length : xs.length = ys.length) :
    itemPlaces xs ys = 0 ↔ List.Forall₂ (fun x y => places x y = 0) xs ys := by
  induction xs generalizing ys with
  | nil =>
    obtain rfl := List.eq_nil_of_length_eq_zero length.symm
    exact iff_of_true rfl .nil
  | cons x xs ih =>
    cases ys with
    | nil => cases length
    | cons y ys => rw [itemPlaces, Nat.add_eq_zero_iff, ih (Nat.succ.inj length), List.forall₂_cons]

theorem places_eq_zero_iff (a b : Json) (sound : a.Sound) (other : b.Sound) : places a b = 0 ↔ a.Alike b := by
  -- Values of different kinds differ at one place, which is their own.
  induction a using parts_induction generalizing b with
  | null =>
    cases b with
    | null => exact iff_of_true rfl .null
    | bool _ | int _ | float _ | string _ | array _ | object _ => exact iff_of_false (Nat.succ_ne_zero 0) nofun
  | bool p =>
    cases b with
    | bool q =>
      rw [places, one_unless]
      exact ⟨fun | rfl => .bool p, fun | .bool _ => rfl⟩
    | null | int _ | float _ | string _ | array _ | object _ => exact iff_of_false (Nat.succ_ne_zero 0) nofun
  | int m =>
    cases b with
    | int n =>
      rw [places, one_unless]
      exact ⟨fun | rfl => .int m, fun | .int _ => rfl⟩
    | null | bool _ | float _ | string _ | array _ | object _ => exact iff_of_false (Nat.succ_ne_zero 0) nofun
  | float x =>
    cases b with
    | float y =>
      rw [places, one_unless]
      exact ⟨.float, fun | .float equal => equal⟩
    | null | bool _ | int _ | string _ | array _ | object _ => exact iff_of_false (Nat.succ_ne_zero 0) nofun
  | string s =>
    cases b with
    | string t =>
      rw [places, one_unless]
      exact ⟨fun | rfl => .string s, fun | .string _ => rfl⟩
    | null | bool _ | int _ | float _ | array _ | object _ => exact iff_of_false (Nat.succ_ne_zero 0) nofun
  | array xs ih =>
    cases b with
    | null | bool _ | int _ | float _ | string _ | object _ => exact iff_of_false (Nat.succ_ne_zero 0) nofun
    | array ys =>
      rw [places, Nat.add_eq_zero_iff, one_unless, alike_array_iff]
      have each (v : Json) (member : v ∈ xs) (w : Json) (held : w ∈ ys) : places v w = 0 ↔ v.Alike w :=
        ih v member w (soundItems_iff.mp sound v member) (soundItems_iff.mp other w held)
      constructor
      · rintro ⟨length, below⟩
        have paired := (itemPlaces_eq_zero_iff length).mp below
        exact forall₂_of_mem (fun v member w held => (each v member w held).mp) paired
      · intro alike
        refine ⟨alike.length_eq, (itemPlaces_eq_zero_iff alike.length_eq).mpr ?_⟩
        exact forall₂_of_mem (fun v member w held => (each v member w held).mpr) alike
  | object ms ih =>
    cases b with
    | null | bool _ | int _ | float _ | string _ | array _ => exact iff_of_false (Nat.succ_ne_zero 0) nofun
    | object ns =>
      have each (entry : String × Json) (member : entry ∈ ms) (w : Json) (found : ns.lookup entry.1 = some w) :
          places entry.2 w = 0 ↔ entry.2.Alike w :=
        ih entry member w (sound.of_mem member) (other.of_lookup found)
      rw [places, Nat.add_eq_zero_iff, Nat.add_eq_zero_iff, keysBeside_eq_zero_iff, keysBeside_eq_zero_iff,
        memberPlaces_eq_zero_iff, alike_object_iff sound.distinct other.distinct]
      constructor
      · rintro ⟨⟨forth, back⟩, below⟩
        refine ⟨fun key => ⟨forth key, back key⟩, fun key v w here found => ?_⟩
        have member := Entries.mem_of_lookup here
        exact (each _ member w found).mp (below _ member w found)
      · rintro ⟨keys, below⟩
        refine ⟨⟨fun key => (keys key).mp, fun key => (keys key).mpr⟩, fun entry member w found => ?_⟩
        exact (each _ member w found).mpr (below _ _ w (Entries.lookup_of_mem sound.distinct member) found)

end Equality

/-- The differences between two values are as many as the places at which they differ, and there are none exactly when
the values are equal up to the order of their keys. -/
theorem diff_places {a b : Json} (sound : a.Sound) (other : b.Sound) :
    (diff a b = [] ↔ a.Alike b) ∧ (diff a b).length = places a b := by
  have length := length_differences [] a b
  refine ⟨?_, length⟩
  rw [← places_eq_zero_iff a b sound other, ← length, List.length_eq_zero_iff]
  rfl

/-- Two objects in another order that differ in the length and an item of an array, in a key below, and in a key of
each. -/
theorem diff_places_objects :
    let a : Json := .object [("x", .array [.int 1, .float 2, .string "s"]), ("y", .null),
      ("z", .object [("p", .float 0)])]
    let b : Json := .object [("z", .object [("q", .bool true), ("p", .float (-0))]),
      ("x", .array [.float 1, .float 2]), ("w", .int 3)]
    a.Sound ∧ b.Sound ∧ (diff a b).length = 5 ∧ ¬a.Alike b := by
  intro a b
  have sound : a.Sound := by decide
  have other : b.Sound := by decide
  obtain ⟨none, length⟩ := diff_places sound other
  have five : places a b = 5 := by decide
  refine ⟨sound, other, length.trans five, fun alike => ?_⟩
  rw [five, none.mpr alike] at length
  cases length

end Json
end Handoff
