import Mathlib.Data.List.Forall2
import Handoff.Proofs.Json.KeyOrder

set_option autoImplicit false
set_option relaxedAutoImplicit false

/-!
Equality of values up to the order of their keys.

Objects are alike when one is the other with its members in another order and values that are alike; of values without
repeated keys this can be told key by key, and it does not change when their keys are sorted.
-/

namespace Handoff
namespace Json

/-- Equal values, but for the order of members at any depth. A whole number is equal to no binary one; two of these are
equal when they compare so, as the two zeros do. -/
inductive Alike : Json → Json → Prop
  | null : Alike .null .null
  | bool (b : Bool) : Alike (.bool b) (.bool b)
  | int (n : Int) : Alike (.int n) (.int n)
  | float {x y : Float} : (x == y) = true → Alike (.float x) (.float y)
  | string (s : String) : Alike (.string s) (.string s)
  | array {items others : List Json} : List.Forall₂ Alike items others → Alike (.array items) (.array others)
  | object {members between others : List (String × Json)} : members.map Prod.fst = between.map Prod.fst →
      List.Forall₂ Alike (members.map Prod.snd) (between.map Prod.snd) → between.Perm others →
      Alike (.object members) (.object others)

private theorem lookup_of_forall₂ {R : Json → Json → Prop} {members others : Members}
    (keys : members.map Prod.fst = others.map Prod.fst)
    (values : List.Forall₂ R (members.map Prod.snd) (others.map Prod.snd)) {key : String} {v : Json}
    (found : members.lookup key = some v) : ∃ w, others.lookup key = some w ∧ R v w := by
  induction members generalizing others with
  | nil => cases found
  | cons entry rest ih =>
    obtain ⟨name, u⟩ := entry
    cases others with
    | nil => cases keys
    | cons other more =>
      obtain ⟨name', u'⟩ := other
      obtain ⟨rfl, later⟩ := List.cons.inj keys
      obtain ⟨first, values⟩ := List.forall₂_cons.mp values
      rw [List.lookup_cons] at found ⊢
      by_cases here : key = name
      · rw [beq_iff_eq.mpr here] at found ⊢
        obtain rfl := Option.some.inj found
        exact ⟨u', rfl, first⟩
      · rw [beq_false_of_ne here] at found ⊢
        exact ih later values found

/-- Objects without repeated keys are alike when they have the same keys, and under each of them values that are. -/
theorem alike_object_iff {members others : Members} (distinct : (members.map Prod.fst).Nodup)
    (distinct' : (others.map Prod.fst).Nodup) :
    Alike (.object members) (.object others) ↔
      (∀ key, key ∈ members.map Prod.fst ↔ key ∈ others.map Prod.fst) ∧
        ∀ key v w, members.lookup key = some v → others.lookup key = some w → v.Alike w := by
  constructor
  · rintro (_ | _ | _ | _ | _ | _ | ⟨keys, values, moved⟩)
    have again := (moved.map Prod.fst).nodup_iff.mpr distinct'
    refine ⟨fun key => keys ▸ (moved.map Prod.fst).mem_iff, fun key v w found here => ?_⟩
    obtain ⟨u, between, alike⟩ := lookup_of_forall₂ keys values found
    rw [Entries.lookup_perm moved again, here] at between
    obtain rfl := Option.some.inj between
    exact alike
  · rintro ⟨keys, values⟩
    -- the members of the second object in the order of the first
    let between : Members := members.map fun entry => (entry.1, (others.lookup entry.1).getD .null)
    have there : ∀ entry ∈ members, ∃ w, others.lookup entry.1 = some w := fun entry held =>
      Entries.mem_keys_iff.mp ((keys entry.1).mp (List.mem_map_of_mem held))
    have same : members.map Prod.fst = between.map Prod.fst := by simp [between]
    refine .object same ?_ ?_
    · rw [List.map_map, List.forall₂_map_left_iff, List.forall₂_map_right_iff, List.forall₂_same]
      rintro ⟨key, v⟩ held
      obtain ⟨w, found⟩ := there _ held
      have alike := values key v w (Entries.lookup_of_mem distinct held) found
      simpa [found] using alike
    · have nodup : between.Nodup := List.Nodup.of_map Prod.fst (same ▸ distinct)
      refine (List.perm_ext_iff_of_nodup nodup (List.Nodup.of_map _ distinct')).mpr ?_
      rintro ⟨key, w⟩
      constructor
      · intro held
        obtain ⟨entry, member, made⟩ := List.mem_map.mp held
        obtain ⟨u, found⟩ := there entry member
        obtain ⟨rfl, rfl⟩ := Prod.mk.inj made
        rw [found]
        exact Entries.mem_of_lookup found
      · intro held
        have member := (keys key).mpr (List.mem_map_of_mem held)
        obtain ⟨⟨name, v⟩, here, rfl⟩ := List.mem_map.mp member
        refine List.mem_map.mpr ⟨_, here, ?_⟩
        rw [Entries.lookup_of_mem distinct' held]
        rfl

theorem alike_array_iff {items others : List Json} :
    Alike (.array items) (.array others) ↔ List.Forall₂ Alike items others :=
  ⟨fun | .array alike => alike, .array⟩

theorem forall₂_of_mem {α β : Type} {R S : α → β → Prop} {xs : List α} {ys : List β}
    (imp : ∀ x ∈ xs, ∀ y ∈ ys, R x y → S x y) (h : List.Forall₂ R xs ys) : List.Forall₂ S xs ys := by
  rw [List.forall₂_iff_zip] at h ⊢
  refine ⟨h.1, fun {x y} paired => ?_⟩
  obtain ⟨first, second⟩ := List.of_mem_zip paired
  exact imp x first y second (h.2 paired)

theorem alike_of_sortKeys (v w : Json) (sound : v.Sound) (other : w.Sound) (h : Alike v.sortKeys w.sortKeys) :
    v.Alike w := by
  induction v using parts_induction generalizing w with
  | null | bool | int | float | string =>
    cases w with
    | null | bool _ | int _ | float _ | string _ => exact h
    | array items | object members => cases h
  | array items ih =>
    cases w with
    | null | bool _ | int _ | float _ | string _ | object _ => cases h
    | array others =>
      rw [sortKeys_array, sortKeys_array, alike_array_iff, List.forall₂_map_left_iff, List.forall₂_map_right_iff] at h
      refine .array (forall₂_of_mem (fun v member w held => ?_) h)
      exact ih v member w (soundItems_iff.mp sound v member) (soundItems_iff.mp other w held)
  | object members ih =>
    cases w with
    | null | bool _ | int _ | float _ | string _ | array _ => cases h
    | object others =>
      rw [sortKeys_object, sortKeys_object,
        alike_object_iff (nodup_sorted sound.distinct) (nodup_sorted other.distinct)] at h
      refine (alike_object_iff sound.distinct other.distinct).mpr ⟨fun key => ?_, fun key v w found here => ?_⟩
      · rw [← (keys_sorted_perm members).mem_iff, ← (keys_sorted_perm others).mem_iff]
        exact h.1 key
      · refine ih _ (Entries.mem_of_lookup found) w (sound.of_lookup found) (other.of_lookup here) ?_
        refine h.2 key _ _ ?_ ?_
        · rw [lookup_sorted sound.distinct, found, Option.map_some]
        · rw [lookup_sorted other.distinct, here, Option.map_some]

end Json
end Handoff
