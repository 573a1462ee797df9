import Handoff.Json.Written
import Handoff.Proofs.Entries

set_option autoImplicit false
set_option relaxedAutoImplicit false

/-!
The values that a text can write: their numbers are in range, and their objects have no key twice.
-/

namespace Handoff
namespace Json

mutual

/-- A whole number of 64 bits, with a sign or without, a finite one, and different keys at every depth. -/
def Sound : Json → Prop
  | .int n => -((UInt64.size / 2 : Nat) : Int) ≤ n ∧ n < (UInt64.size : Nat)
  | .float x => x.isFinite = true
  | .array items => SoundItems items
  | .object members => (members.map Prod.fst).Nodup ∧ SoundMembers members
  | _ => True

def SoundItems : List Json → Prop
  | [] => True
  | v :: vs => v.Sound ∧ SoundItems vs

def SoundMembers : List (String × Json) → Prop
  | [] => True
  | (_, v) :: ms => v.Sound ∧ SoundMembers ms

end

mutual

instance decideSound : (v : Json) → Decidable v.Sound
  | .null | .bool _ | .string _ => .isTrue trivial
  | .int n => inferInstanceAs (Decidable (-((UInt64.size / 2 : Nat) : Int) ≤ n ∧ n < (UInt64.size : Nat)))
  | .float x => inferInstanceAs (Decidable (x.isFinite = true))
  | .array items => decideSoundItems items
  | .object members => @instDecidableAnd (members.map Prod.fst).Nodup (SoundMembers members) inferInstance
      (decideSoundMembers members)

instance decideSoundItems : (items : List Json) → Decidable (SoundItems items)
  | [] => .isTrue trivial
  | v :: vs => @instDecidableAnd v.Sound (SoundItems vs) (decideSound v) (decideSoundItems vs)

instance decideSoundMembers : (members : List (String × Json)) → Decidable (SoundMembers members)
  | [] => .isTrue trivial
  | (_, v) :: ms => @instDecidableAnd v.Sound (SoundMembers ms) (decideSound v) (decideSoundMembers ms)

end

theorem soundItems_iff {items : List Json} : SoundItems items ↔ ∀ v ∈ items, v.Sound := by
  induction items with
  | nil => simp [SoundItems]
  | cons v vs ih => simp [SoundItems, ih]

theorem soundMembers_iff {members : Members} : SoundMembers members ↔ ∀ entry ∈ members, entry.2.Sound := by
  induction members with
  | nil => simp [SoundMembers]
  | cons entry rest ih =>
    obtain ⟨key, v⟩ := entry
    simp only [SoundMembers, ih, List.forall_mem_cons]

theorem Sound.distinct {members : Members} (h : (Json.object members).Sound) : (members.map Prod.fst).Nodup :=
  h.1

theorem Sound.of_mem {members : Members} (h : (Json.object members).Sound) {entry : String × Json}
    (member : entry ∈ members) : entry.2.Sound :=
  soundMembers_iff.mp h.2 entry member

theorem Sound.of_lookup {members : Members} (h : (Json.object members).Sound) {key : String} {v : Json}
    (found : members.lookup key = some v) : v.Sound :=
  h.of_mem (Entries.mem_of_lookup found)

theorem sound_object {members : Members} (distinct : (members.map Prod.fst).Nodup)
    (all : ∀ entry ∈ members, entry.2.Sound) : (Json.object members).Sound :=
  ⟨distinct, soundMembers_iff.mpr all⟩

theorem Sound.without {members : Members} (h : (Json.object members).Sound) (names : List String) :
    (Json.object (Entries.without members names)).Sound :=
  sound_object (Entries.nodup_without h.distinct names) fun _ member => h.of_mem (List.mem_filter.mp member).1

theorem Sound.perm {members others : Members} (h : (Json.object members).Sound) (same : others.Perm members) :
    (Json.object others).Sound :=
  sound_object ((same.map Prod.fst).nodup_iff.mpr h.distinct) fun _ member => h.of_mem (same.mem_iff.mp member)

theorem Sound.tail {entry : String × Json} {members : Members} (h : (Json.object (entry :: members)).Sound) :
    (Json.object members).Sound :=
  sound_object (List.nodup_cons.mp h.distinct).2 fun _ member => h.of_mem (List.mem_cons_of_mem _ member)

theorem sound_putAll {entries more : Members} (distinct : (entries.map Prod.fst).Nodup)
    (old : ∀ entry ∈ entries, entry.2.Sound) (new : ∀ entry ∈ more, entry.2.Sound) :
    (Json.object (Entries.putAll entries more)).Sound := by
  refine sound_object (Entries.nodup_putAll distinct more) ?_
  intro entry member
  rcases Entries.mem_of_mem_putAll member with member | member
  · exact old entry member
  · exact new entry member

end Json

namespace Written

private theorem sound_numberValue {n : Numeral} {v : Json} (h : numberValue n = some v) : v.Sound := by
  unfold numberValue at h
  simp only at h
  split at h
  · rename_i whole
    obtain rfl := Option.some.inj h
    simp only [Bool.and_eq_true, decide_eq_true_eq] at whole
    constructor <;> omega
  · split at h
    · rename_i whole
      obtain rfl := Option.some.inj h
      simp only [Bool.and_eq_true, decide_eq_true_eq] at whole
      constructor <;> omega
    · split at h
      · rename_i finite
        obtain rfl := Option.some.inj h
        exact finite
      · cases h

mutual

theorem sound_value (depth : Nat) (w : Written) (v : Json) (h : value depth w = some v) : v.Sound :=
  match w with
  | .null => by
    obtain rfl := Option.some.inj h
    trivial
  | .bool b => by
    obtain rfl := Option.some.inj h
    trivial
  | .number n => sound_numberValue h
  | .text codes => by
    obtain ⟨s, -, rfl⟩ := Option.map_eq_some_iff.mp h
    trivial
  | .array items => by
    cases depth with
    | zero => cases h
    | succ depth =>
      obtain ⟨vs, read, rfl⟩ := Option.map_eq_some_iff.mp h
      exact Json.soundItems_iff.mpr (sound_itemValues depth items vs read)
  | .object members => by
    cases depth with
    | zero => cases h
    | succ depth =>
      obtain ⟨ms, read, rfl⟩ := Option.map_eq_some_iff.mp h
      exact Json.sound_putAll List.nodup_nil nofun (sound_memberValues depth members ms read)

theorem sound_itemValues (depth : Nat) (items : List Written) (vs : List Json)
    (h : itemValues depth items = some vs) : ∀ v ∈ vs, v.Sound :=
  match items with
  | [] => by
    obtain rfl := Option.some.inj h
    exact nofun
  | w :: ws => by
    rw [itemValues] at h
    split at h
    · rename_i v rest first others
      obtain rfl := Option.some.inj h
      exact List.forall_mem_cons.mpr ⟨sound_value depth w v first, sound_itemValues depth ws rest others⟩
    · cases h

theorem sound_memberValues (depth : Nat) (members : List (List Nat × Written)) (ms : Members)
    (h : memberValues depth members = some ms) : ∀ entry ∈ ms, entry.2.Sound :=
  match members with
  | [] => by
    obtain rfl := Option.some.inj h
    exact nofun
  | (codes, w) :: ws => by
    rw [memberValues] at h
    split at h
    · rename_i key v rest text first others
      obtain rfl := Option.some.inj h
      exact List.forall_mem_cons.mpr ⟨sound_value depth w v first, sound_memberValues depth ws rest others⟩
    · cases h

end

end Written
end Handoff
