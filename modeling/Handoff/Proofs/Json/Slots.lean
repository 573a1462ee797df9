import Handoff.Json.Slots
import Handoff.Proofs.Json.Text
import Handoff.Proofs.Json.KeyOrder

set_option autoImplicit false
set_option relaxedAutoImplicit false

/-!
The slots of a written object are what its names look up.
-/

namespace Handoff
namespace Written

theorem keyed_writtenMembers (members : Members) :
    keyed (Json.writtenMembers members) = some (members.map fun entry => (entry.1, entry.2.written)) := by
  induction members with
  | nil => rfl
  | cons entry rest ih =>
    obtain ⟨key, v⟩ := entry
    rw [Json.writtenMembers, keyed, textOf_codesOf, ih]
    rfl

private theorem lookup_written (members : Members) (name : String) :
    List.lookup name (members.map fun entry => (entry.1, entry.2.written)) =
      (members.lookup name).map Json.written := by
  induction members with
  | nil => rfl
  | cons entry rest ih =>
    obtain ⟨key, v⟩ := entry
    rw [List.map_cons, List.lookup_cons, List.lookup_cons, ih]
    cases name == key <;> rfl

private theorem length_filter_le {α : Type} {entries : Entries α} (distinct : (entries.map Prod.fst).Nodup)
    (name : String) : (entries.filter (·.1 == name)).length ≤ 1 := by
  have same : (entries.filter (·.1 == name)).map Prod.fst =
      List.replicate (entries.filter (·.1 == name)).length name := by
    refine List.eq_replicate_iff.mpr ⟨List.length_map _, ?_⟩
    intro key member
    obtain ⟨entry, kept, rfl⟩ := List.mem_map.mp member
    exact eq_of_beq (List.mem_filter.mp kept).2
  have nodup : ((entries.filter (·.1 == name)).map Prod.fst).Nodup :=
    distinct.sublist (List.filter_sublist.map Prod.fst)
  rw [same] at nodup
  exact List.nodup_replicate.mp nodup

/-- A written object without repeated names has in each slot what the slot's name looks up. -/
theorem slots_written {members : Members} (distinct : (members.map Prod.fst).Nodup) (names : List String) :
    (Json.object members).written.slots names =
      some (names.map fun name => (members.lookup name).map Json.written) := by
  have keys : ((members.map fun entry => (entry.1, entry.2.written)).map Prod.fst).Nodup := by
    rw [List.map_map]
    exact distinct
  have once : (names.all fun name =>
      ((members.map fun entry => (entry.1, entry.2.written)).filter (·.1 == name)).length ≤ 1) = true := by
    rw [List.all_eq_true]
    intro name _
    exact decide_eq_true (length_filter_le keys name)
  rw [Json.written, slots, keyed_writtenMembers]
  simp only [once, if_true, lookup_written]

end Written
end Handoff
