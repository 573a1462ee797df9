import Handoff.Json.Difference
import Handoff.Proofs.Decimal.Binary
import Handoff.Proofs.Json.Sound

set_option autoImplicit false
set_option relaxedAutoImplicit false

/-!
A sound value does not differ from itself. One with a number that is not a number would.
-/

namespace Handoff
namespace Json

mutual

private theorem differences_self (path : Path) (v : Json) (sound : v.Sound) : differences path v v = [] :=
  match v with
  | .null => rfl
  | .bool b => by simp [differences, same]
  | .int n => by simp [differences, same]
  | .float x => by simp [differences, same, beq_self_of_isFinite sound]
  | .string s => by simp [differences, same]
  | .array items => by
    rw [differences, itemDifferences_self path 0 items sound, if_pos rfl]
    rfl
  | .object members => by
    have looked : ∀ entry ∈ members, members.lookup entry.1 = some entry.2 :=
      fun _ member => Entries.lookup_of_mem sound.distinct member
    rw [differences, memberDifferences_self path members members sound.2 looked, List.nil_append, List.map_eq_nil_iff,
      List.filter_eq_nil_iff]
    intro entry member
    rw [looked entry member]
    exact Bool.false_ne_true

private theorem memberDifferences_self (path : Path) (others members : List (String × Json))
    (sound : SoundMembers members) (looked : ∀ entry ∈ members, others.lookup entry.1 = some entry.2) :
    memberDifferences path others members = [] :=
  match members with
  | [] => rfl
  | (key, v) :: ms => by
    rw [List.forall_mem_cons] at looked
    rw [memberDifferences, looked.1, memberDifferences_self path others ms sound.2 looked.2]
    simp only [differences_self _ v sound.1, List.append_nil]

private theorem itemDifferences_self (path : Path) (i : Nat) (items : List Json) (sound : SoundItems items) :
    itemDifferences path i items items = [] :=
  match items with
  | [] => rfl
  | v :: vs => by
    rw [itemDifferences, differences_self _ v sound.1, itemDifferences_self path (i + 1) vs sound.2]
    rfl

end

theorem diff_self {v : Json} (sound : v.Sound) : diff v v = [] :=
  differences_self [] v sound

end Json
end Handoff
