import Handoff.Proofs.Json.Text

set_option autoImplicit false
set_option relaxedAutoImplicit false

/-!
A sound value that does not nest too deep is what its text means.
-/

namespace Handoff
namespace Json

mutual

/-- How deep a value nests. -/
def depth : Json → Nat
  | .array items => depthItems items + 1
  | .object members => depthMembers members + 1
  | _ => 0

def depthItems : List Json → Nat
  | [] => 0
  | v :: vs => max v.depth (depthItems vs)

def depthMembers : List (String × Json) → Nat
  | [] => 0
  | (_, v) :: ms => max v.depth (depthMembers ms)

end

theorem depthItems_le {items : List Json} {d : Nat} : depthItems items ≤ d ↔ ∀ v ∈ items, v.depth ≤ d := by
  induction items with
  | nil => simp [depthItems]
  | cons v vs ih => simp [depthItems, ih]

theorem depthMembers_le {members : Members} {d : Nat} :
    depthMembers members ≤ d ↔ ∀ entry ∈ members, entry.2.depth ≤ d := by
  induction members with
  | nil => simp [depthMembers]
  | cons entry rest ih =>
    obtain ⟨key, v⟩ := entry
    simp only [depthMembers, Nat.max_le, ih, List.forall_mem_cons]

private theorem depthMembers_le_of_perm {members others : Members} (same : members.Perm others) :
    depthMembers members ≤ depthMembers others :=
  depthMembers_le.mpr fun entry member => depthMembers_le.mp (Nat.le_refl _) entry (same.mem_iff.mp member)

mutual

theorem depth_sortKeys (v : Json) : v.sortKeys.depth = v.depth :=
  match v with
  | .null | .bool _ | .int _ | .float _ | .string _ => rfl
  | .array items => congrArg (· + 1) (depthItems_sortItems items)
  | .object members => by
    have moved := sorted_perm members
    have same := Nat.le_antisymm (depthMembers_le_of_perm moved) (depthMembers_le_of_perm moved.symm)
    exact congrArg (· + 1) (same.trans (depthMembers_sortMembers members))

private theorem depthItems_sortItems (items : List Json) : depthItems (sortItems items) = depthItems items :=
  match items with
  | [] => rfl
  | v :: vs => by rw [sortItems, depthItems, depthItems, depth_sortKeys v, depthItems_sortItems vs]

private theorem depthMembers_sortMembers (members : List (String × Json)) :
    depthMembers (sortMembers members) = depthMembers members :=
  match members with
  | [] => rfl
  | (_, v) :: ms => by rw [sortMembers, depthMembers, depthMembers, depth_sortKeys v, depthMembers_sortMembers ms]

end

section Numbers

private theorem strict_wholeNumeral (n : Int) : (wholeNumeral n).Strict := by
  refine ⟨⟨Nat.toDigits_ne_nil, fun _ member => Numeral.isDigit_of_mem_toDigits member⟩, ?_, nofun, nofun⟩
  intro lead
  change Nat.toDigits 10 n.natAbs = ['0']
  by_cases zero : n.natAbs = 0
  · rw [zero]
    rfl
  · exact absurd lead (Numeral.head_toDigits_ne_zero (by omega))

private theorem numberValue_wholeNumeral {n : Int} (sound : (Json.int n).Sound) :
    Written.numberValue (wholeNumeral n) = some (.int n) := by
  obtain ⟨low, high⟩ := sound
  have digits : Numeral.digitsValue (wholeNumeral n).whole = n.natAbs := Numeral.digitsValue_toDigits n.natAbs
  have whole : (wholeNumeral n).isWhole = true := rfl
  unfold Written.numberValue
  simp only [digits, whole]
  by_cases below : n < 0
  · have negative : (wholeNumeral n).negative = true := decide_eq_true below
    have bound : 0 < n.natAbs ∧ n.natAbs ≤ UInt64.size / 2 := by omega
    have back : -(n.natAbs : Int) = n := by omega
    simp only [negative, bound, and_self, decide_true, Bool.not_true, Bool.and_true, Bool.and_false,
      Bool.false_and, Bool.false_eq_true, if_false, if_true, back]
  · have negative : (wholeNumeral n).negative = false := decide_eq_false below
    have bound : n.natAbs < UInt64.size := by omega
    have back : (n.natAbs : Int) = n := by omega
    simp only [negative, bound, decide_true, Bool.not_false, Bool.and_true, if_true, back]

private theorem isWhole_archive {x : Float} {n : Numeral} (h : Layout.archive.numeral x = some n) :
    n.isWhole = false := by
  unfold Layout.numeral at h
  split at h
  · cases h
  · cases h
  · obtain rfl := Option.some.inj h
    rfl
  · obtain rfl := Option.some.inj h
    unfold Layout.place
    simp only
    split
    · unfold Layout.spelled
      simp only
      split
      · rfl
      · split <;> rfl
    · simp [Layout.scientific, Numeral.isWhole]

private theorem numberValue_archive {x : Float} {n : Numeral} (h : Layout.archive.numeral x = some n)
    (finite : x.isFinite = true) : Written.numberValue n = some (.float x) := by
  have back := Layout.toFloat_numeral h
  unfold Written.numberValue
  simp [isWhole_archive h, back, finite]

end Numbers

mutual

theorem spelled_written (v : Json) (sound : v.Sound) : v.written.Spelled :=
  match v with
  | .null | .bool _ => trivial
  | .int n => strict_wholeNumeral n
  | .float x => by
    obtain ⟨n, form⟩ := Layout.archive.numeral_of_isFinite sound
    rw [written, form]
    exact Layout.strict_numeral form
  | .string s => ⟨s, rfl⟩
  | .array items => spelled_writtenItems items sound
  | .object members => spelled_writtenMembers members sound.2

private theorem spelled_writtenItems (items : List Json) (sound : SoundItems items) :
    Written.SpelledItems (writtenItems items) :=
  match items with
  | [] => trivial
  | v :: vs => ⟨spelled_written v sound.1, spelled_writtenItems vs sound.2⟩

private theorem spelled_writtenMembers (members : List (String × Json)) (sound : SoundMembers members) :
    Written.SpelledMembers (writtenMembers members) :=
  match members with
  | [] => trivial
  | (key, v) :: ms => ⟨⟨key, rfl⟩, spelled_written v sound.1, spelled_writtenMembers ms sound.2⟩

end

mutual

theorem value_written (v : Json) (sound : v.Sound) (limit : Nat) (shallow : v.depth ≤ limit) :
    Written.value limit v.written = some v :=
  match v with
  | .null | .bool _ => rfl
  | .int n => numberValue_wholeNumeral sound
  | .float x => by
    obtain ⟨n, form⟩ := Layout.archive.numeral_of_isFinite sound
    rw [written, form]
    exact numberValue_archive form sound
  | .string s => by
    rw [written, Written.value, Written.textOf_codesOf]
    rfl
  | .array items => by
    rw [depth] at shallow
    obtain ⟨rest, rfl⟩ : ∃ rest, limit = rest + 1 := ⟨limit - 1, by omega⟩
    rw [written, Written.value, values_writtenItems items sound rest (by omega)]
    rfl
  | .object members => by
    rw [depth] at shallow
    obtain ⟨rest, rfl⟩ : ∃ rest, limit = rest + 1 := ⟨limit - 1, by omega⟩
    rw [written, Written.value, values_writtenMembers members sound.2 rest (by omega), Option.map_some,
      Entries.putAll_new [] members sound.distinct]
    rfl

private theorem values_writtenItems (items : List Json) (sound : SoundItems items) (limit : Nat)
    (shallow : depthItems items ≤ limit) : Written.itemValues limit (writtenItems items) = some items :=
  match items with
  | [] => rfl
  | v :: vs => by
    rw [depthItems, Nat.max_le] at shallow
    rw [writtenItems, Written.itemValues, value_written v sound.1 limit shallow.1,
      values_writtenItems vs sound.2 limit shallow.2]

private theorem values_writtenMembers (members : List (String × Json)) (sound : SoundMembers members) (limit : Nat)
    (shallow : depthMembers members ≤ limit) :
    Written.memberValues limit (writtenMembers members) = some members :=
  match members with
  | [] => rfl
  | (key, v) :: ms => by
    rw [depthMembers, Nat.max_le] at shallow
    rw [writtenMembers, Written.memberValues, Written.textOf_codesOf, value_written v sound.1 limit shallow.1,
      values_writtenMembers ms sound.2 limit shallow.2]

end

/-- A sound value that does not nest too deep is what its text is parsed as. -/
theorem parse_print {spacing : Written.Spacing} (fine : spacing.Fine) {v : Json} (sound : v.Sound)
    (shallow : v.depth ≤ Written.depthLimit) : parse (v.print spacing) = some v := by
  unfold parse print
  rw [Written.read_chars fine (spelled_written v sound), Option.bind_some]
  exact value_written v sound _ shallow

theorem parse_print_append {spacing : Written.Spacing} (fine : spacing.Fine) {v : Json} (sound : v.Sound)
    (shallow : v.depth ≤ Written.depthLimit) {after : String} (blank : Written.Blank after.toList) :
    parse (v.print spacing ++ after) = some v := by
  have text : v.print spacing ++ after = String.ofList (v.written.chars spacing 0 ++ after.toList) := by
    rw [print, String.ofList_append, String.ofList_toList]
  rw [parse, text, Written.read_chars_append fine (spelled_written v sound) blank, Option.bind_some]
  exact value_written v sound _ shallow

mutual

private theorem value_written_deep (v : Json) (limit : Nat) (deep : limit < v.depth) :
    Written.value limit v.written = none :=
  match v with
  | .null | .bool _ | .int _ | .float _ | .string _ => absurd deep (Nat.not_lt_zero limit)
  | .array items => by
    cases limit with
    | zero => rfl
    | succ rest =>
      rw [written, Written.value, values_writtenItems_deep items rest (Nat.lt_of_succ_lt_succ deep)]
      rfl
  | .object members => by
    cases limit with
    | zero => rfl
    | succ rest =>
      rw [written, Written.value, values_writtenMembers_deep members rest (Nat.lt_of_succ_lt_succ deep)]
      rfl

private theorem values_writtenItems_deep (items : List Json) (limit : Nat) (deep : limit < depthItems items) :
    Written.itemValues limit (writtenItems items) = none :=
  match items with
  | [] => absurd deep (Nat.not_lt_zero limit)
  | v :: vs => by
    rw [depthItems] at deep
    rw [writtenItems, Written.itemValues]
    rcases (show limit < v.depth ∨ limit < depthItems vs by omega) with deep | deep
    · rw [value_written_deep v limit deep]
    · rw [values_writtenItems_deep vs limit deep]
      cases Written.value limit v.written <;> rfl

private theorem values_writtenMembers_deep (members : List (String × Json)) (limit : Nat)
    (deep : limit < depthMembers members) : Written.memberValues limit (writtenMembers members) = none :=
  match members with
  | [] => absurd deep (Nat.not_lt_zero limit)
  | (key, v) :: ms => by
    rw [depthMembers] at deep
    rw [writtenMembers, Written.memberValues, Written.textOf_codesOf]
    rcases (show limit < v.depth ∨ limit < depthMembers ms by omega) with deep | deep
    · rw [value_written_deep v limit deep]
    · rw [values_writtenMembers_deep ms limit deep]
      cases Written.value limit v.written <;> rfl

end

theorem parse_print_deep {spacing : Written.Spacing} (fine : spacing.Fine) {v : Json} (sound : v.Sound)
    (deep : Written.depthLimit < v.depth) : parse (v.print spacing) = none := by
  unfold parse print
  rw [Written.read_chars fine (spelled_written v sound), Option.bind_some]
  exact value_written_deep v _ deep

end Json
end Handoff
