import Handoff.Json.KeyOrder
import Handoff.Proofs.Json.Sound
import Mathlib.Data.List.Nodup

set_option autoImplicit false
set_option relaxedAutoImplicit false

/-!
Values that differ in the order of their keys alone are the same once their keys are sorted.
-/

namespace Handoff
namespace Json

theorem sortItems_eq (items : List Json) : sortItems items = items.map sortKeys := by
  induction items with
  | nil => rfl
  | cons v vs ih => rw [sortItems, ih, List.map_cons]

theorem sortMembers_eq (members : Members) :
    sortMembers members = members.map fun entry => (entry.1, entry.2.sortKeys) := by
  induction members with
  | nil => rfl
  | cons entry rest ih =>
    obtain ⟨key, v⟩ := entry
    rw [sortMembers, ih, List.map_cons]

/-- Members in the order of their keys, as they are at every depth. -/
def sorted (members : Members) : Members :=
  (sortMembers members).mergeSort memberLe

theorem sortKeys_object (members : Members) : (Json.object members).sortKeys = .object (sorted members) := rfl

theorem sortKeys_array (items : List Json) : (Json.array items).sortKeys = .array (items.map sortKeys) := by
  rw [sortKeys, sortItems_eq]

theorem sorted_perm (members : Members) : (sorted members).Perm (sortMembers members) :=
  List.mergeSort_perm ..

theorem keys_sortMembers (members : Members) : (sortMembers members).map Prod.fst = members.map Prod.fst := by
  rw [sortMembers_eq, List.map_map]
  rfl

theorem keys_sorted_perm (members : Members) : ((sorted members).map Prod.fst).Perm (members.map Prod.fst) :=
  keys_sortMembers members ▸ (sorted_perm members).map Prod.fst

theorem nodup_sorted {members : Members} (distinct : (members.map Prod.fst).Nodup) :
    ((sorted members).map Prod.fst).Nodup :=
  (keys_sorted_perm members).nodup_iff.mpr distinct

theorem length_sorted (members : Members) : (sorted members).length = members.length := by
  rw [(sorted_perm members).length_eq, sortMembers_eq, List.length_map]

private theorem memberLe_trans (a b c : String × Json) (ab : memberLe a b = true) (bc : memberLe b c = true) :
    memberLe a c = true := by
  rw [memberLe, decide_eq_true_eq] at *
  exact String.le_trans ab bc

private theorem memberLe_total (a b : String × Json) : (memberLe a b || memberLe b a) = true := by
  rw [Bool.or_eq_true, memberLe, memberLe, decide_eq_true_eq, decide_eq_true_eq]
  exact String.le_total ..

theorem pairwise_sorted (members : Members) :
    (sorted members).Pairwise fun first second => memberLe first second = true :=
  List.pairwise_mergeSort memberLe_trans memberLe_total (sortMembers members)

private theorem mergeSort_eq_of_perm {ms ns : Members} (same : ms.Perm ns) (distinct : (ms.map Prod.fst).Nodup) :
    ms.mergeSort memberLe = ns.mergeSort memberLe := by
  have moved : (ms.mergeSort memberLe).Perm (ns.mergeSort memberLe) :=
    (List.mergeSort_perm ..).trans (same.trans (List.mergeSort_perm ..).symm)
  refine moved.eq_of_pairwise ?_ (List.pairwise_mergeSort memberLe_trans memberLe_total ms)
    (List.pairwise_mergeSort memberLe_trans memberLe_total ns)
  intro a b inFirst inSecond below above
  have keys : a.1 = b.1 := String.le_antisymm (decide_eq_true_eq.mp below) (decide_eq_true_eq.mp above)
  exact List.inj_on_of_nodup_map distinct (List.mem_mergeSort.mp inFirst)
    (same.mem_iff.mpr (List.mem_mergeSort.mp inSecond)) keys

theorem sorted_eq_of_perm {ms ns : Members} (same : (sortMembers ms).Perm (sortMembers ns))
    (distinct : (ms.map Prod.fst).Nodup) : sorted ms = sorted ns :=
  mergeSort_eq_of_perm same ((keys_sortMembers ms).symm ▸ distinct)

theorem lookup_sortMembers (members : Members) (key : String) :
    List.lookup key (sortMembers members) = (members.lookup key).map sortKeys := by
  induction members with
  | nil => rfl
  | cons entry rest ih =>
    obtain ⟨name, v⟩ := entry
    rw [sortMembers, List.lookup_cons, List.lookup_cons, ih]
    cases key == name <;> rfl

theorem lookup_sorted {members : Members} (distinct : (members.map Prod.fst).Nodup) (key : String) :
    List.lookup key (sorted members) = (members.lookup key).map sortKeys := by
  rw [Entries.lookup_perm (sorted_perm members) (nodup_sorted distinct), lookup_sortMembers]

theorem sorted_eq_of_lookup {ms ns : Members} (hm : (ms.map Prod.fst).Nodup) (hn : (ns.map Prod.fst).Nodup)
    (same : ∀ key, (ms.lookup key).map sortKeys = (ns.lookup key).map sortKeys) : sorted ms = sorted ns := by
  have dm : ((sortMembers ms).map Prod.fst).Nodup := (keys_sortMembers ms).symm ▸ hm
  have dn : ((sortMembers ns).map Prod.fst).Nodup := (keys_sortMembers ns).symm ▸ hn
  refine sorted_eq_of_perm ((List.perm_ext_iff_of_nodup (List.Nodup.of_map _ dm) (List.Nodup.of_map _ dn)).mpr ?_) hm
  rintro ⟨key, v⟩
  have looked : List.lookup key (sortMembers ms) = List.lookup key (sortMembers ns) := by
    rw [lookup_sortMembers, lookup_sortMembers, same]
  constructor
  · intro member
    exact Entries.mem_of_lookup (looked ▸ Entries.lookup_of_mem dm member)
  · intro member
    exact Entries.mem_of_lookup (looked ▸ Entries.lookup_of_mem dn member)

theorem mem_sorted {members : Members} {entry : String × Json} :
    entry ∈ sorted members ↔ ∃ v, (entry.1, v) ∈ members ∧ v.sortKeys = entry.2 := by
  rw [(sorted_perm members).mem_iff, sortMembers_eq, List.mem_map]
  constructor
  · rintro ⟨⟨key, v⟩, member, rfl⟩
    exact ⟨v, member, rfl⟩
  · rintro ⟨v, member, same⟩
    exact ⟨(entry.1, v), member, Prod.ext rfl same⟩

section Idempotence

private theorem sortMembers_sorted {members : Members}
    (fixed : ∀ entry ∈ members, entry.2.sortKeys.sortKeys = entry.2.sortKeys) :
    sortMembers (sorted members) = sorted members := by
  rw [sortMembers_eq]
  refine (List.map_congr_left ?_).trans (List.map_id _)
  intro entry member
  obtain ⟨v, old, same⟩ := mem_sorted.mp member
  exact Prod.ext rfl (same ▸ fixed _ old)

theorem sortKeys_sortKeys (v : Json) : v.sortKeys.sortKeys = v.sortKeys := by
  induction v using parts_induction with
  | null | bool | int | float | string => rfl
  | array items ih =>
    rw [sortKeys_array, sortKeys_array, List.map_map, Json.array.injEq]
    exact List.map_congr_left ih
  | object members ih =>
    rw [sortKeys_object, sortKeys_object, Json.object.injEq, sorted, sortMembers_sorted ih]
    exact List.mergeSort_of_pairwise (pairwise_sorted members)

theorem sorted_sorted (members : Members) : sorted (sorted members) = sorted members :=
  Json.object.inj (sortKeys_sortKeys (.object members))

/-- Members whose values have been sorted, in any order, are the members once they are sorted. -/
theorem sorted_eq_of_perm_sortMembers {ms ns : Members} (same : ms.Perm (sortMembers ns))
    (distinct : (ms.map Prod.fst).Nodup) : sorted ms = sorted ns := by
  have again : sortMembers (sortMembers ns) = sortMembers ns := by
    rw [sortMembers_eq, sortMembers_eq, List.map_map]
    refine List.map_congr_left ?_
    intro entry _
    exact Prod.ext rfl (sortKeys_sortKeys entry.2)
  refine sorted_eq_of_perm ?_ distinct
  rw [← again, sortMembers_eq ms, sortMembers_eq (sortMembers ns)]
  exact same.map _

end Idempotence

theorem without_sorted (members : Members) (names : List String) :
    (Entries.without (sorted members) names).Perm (sortMembers (Entries.without members names)) := by
  refine (Entries.perm_without (sorted_perm members) names).trans (.of_eq ?_)
  rw [sortMembers_eq, sortMembers_eq, Entries.without, Entries.without, List.filter_map]
  rfl

theorem sorted_without {members : Members} (distinct : (members.map Prod.fst).Nodup) (names : List String) :
    sorted (Entries.without (sorted members) names) = sorted (Entries.without members names) :=
  sorted_eq_of_perm_sortMembers (without_sorted members names) (Entries.nodup_without (nodup_sorted distinct) names)

theorem Sound.sortKeys (v : Json) (h : v.Sound) : v.sortKeys.Sound := by
  induction v using parts_induction with
  | null | bool | int | float | string => exact h
  | array items ih =>
    rw [sortKeys_array]
    exact soundItems_iff.mpr (List.forall_mem_map.mpr fun v member => ih v member (soundItems_iff.mp h v member))
  | object members ih =>
    refine sound_object (nodup_sorted h.distinct) fun entry member => ?_
    obtain ⟨v, old, same⟩ := mem_sorted.mp member
    exact same ▸ ih _ old (h.of_mem old)

theorem Sound.sorted {members : Members} (h : (Json.object members).Sound) :
    (Json.object (Json.sorted members)).Sound :=
  Sound.sortKeys _ h

end Json
end Handoff
