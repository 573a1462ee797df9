import Handoff.Design.Decode
import Handoff.Proofs.Json.KeyOrder

set_option autoImplicit false
set_option relaxedAutoImplicit false

/-!
What is read from an object does not depend on the order of its keys. Only the fault does that is found first.
-/

namespace Handoff.Design

section Readings

variable {α β : Type} {ε : Type}

theorem toOption_map (f : α → β) (x : Except ε α) : (x.map f).toOption = x.toOption.map f := by
  cases x <;> rfl

/-- Readings that come to the same under a function are both good or both bad. -/
theorem cases_of_map_toOption_eq {f : α → β} {x y : Except ε α} (same : x.toOption.map f = y.toOption.map f) :
    (∃ a b, x = .ok a ∧ y = .ok b ∧ f a = f b) ∨ ∃ e e', x = .error e ∧ y = .error e' := by
  cases x with
  | error e =>
    cases y with
    | error e' => exact .inr ⟨e, e', rfl, rfl⟩
    | ok b => cases same
  | ok a =>
    cases y with
    | error e => cases same
    | ok b => exact .inl ⟨a, b, rfl, rfl, Option.some.inj same⟩

theorem cases_of_toOption_eq {x y : Except ε α} (same : x.toOption = y.toOption) :
    (∃ a, x = .ok a ∧ y = .ok a) ∨ ∃ e e', x = .error e ∧ y = .error e' := by
  rcases cases_of_map_toOption_eq (congrArg (Option.map id) same) with ⟨a, b, first, second, rfl⟩ | bad
  · exact .inl ⟨a, first, second⟩
  · exact .inr bad

theorem toOption_eq_some {x : Except ε α} {a : α} : x.toOption = some a ↔ x = .ok a := by
  cases x with
  | error e => exact iff_of_false nofun nofun
  | ok b => exact ⟨fun h => congrArg _ (Option.some.inj h), fun h => congrArg _ (Except.ok.inj h)⟩

end Readings

/-- Reads the same from values that differ in the order of their keys. -/
def Orderless {α : Type} (read : Reader α) : Prop :=
  ∀ v, v.Sound → (read v.sortKeys).toOption = (read v).toOption

namespace Check

/-- Two checks of one key, the first of which finds a fault in the sorted value where the second does in the
value. -/
structure Agrees (a b : Check) : Prop where
  key : a.1 = b.1
  fault : ∀ v, v.Sound → (a.2 v.sortKeys).isNone = (b.2 v).isNone

end Check

namespace Field

variable {α : Type}

theorem faultOf_eq_none {read : Reader α} {v : Json} : faultOf read v = none ↔ ∃ a, read v = .ok a := by
  unfold faultOf
  cases read v <;> simp

@[simp]
theorem agrees_check {field : Field α} (h : Orderless field.read) : Check.Agrees field.check field.check := by
  refine ⟨rfl, ?_⟩
  intro v sound
  change (faultOf field.read v.sortKeys).isNone = (faultOf field.read v).isNone
  unfold faultOf
  rcases cases_of_toOption_eq (h v sound) with ⟨a, sorted, plain⟩ | ⟨e, f, sorted, plain⟩
  · rw [sorted, plain]
  · rw [sorted, plain]
    rfl

@[simp]
theorem getD_sorted {field : Field α} (h : Orderless field.read) {members : Members}
    (sound : (Json.object members).Sound) (default : α) :
    field.getD (Json.sorted members) default = field.getD members default := by
  unfold getD
  rw [Json.lookup_sorted sound.distinct]
  cases found : members.lookup field.key with
  | none => rfl
  | some v =>
    simp only [Option.map_some]
    rcases cases_of_toOption_eq (h v (sound.of_lookup found)) with ⟨a, sorted, plain⟩ | ⟨e, f, sorted, plain⟩
    · rw [sorted, plain]
    · rw [sorted, plain]

end Field

theorem firstFault_eq_none {checks : List Check} {members : Members} :
    firstFault checks members = none ↔
      ∀ entry ∈ members, ((checks.lookup entry.1).bind fun check => check entry.2) = none :=
  List.findSome?_eq_none_iff

theorem firstMissing_eq_none {required : List String} {members : Members} :
    firstMissing required members = none ↔ ∀ key ∈ required, ∃ v, members.lookup key = some v := by
  rw [firstMissing, Option.map_eq_none_iff, List.find?_eq_none]
  simp only [Option.isNone_iff_eq_none, Option.ne_none_iff_exists', ← ne_eq]

private theorem lookup_agrees {checks others : List Check} (all : List.Forall₂ Check.Agrees checks others)
    (key : String) {v : Json} (sound : v.Sound) :
    ((checks.lookup key).bind fun check => check v.sortKeys) = none ↔
      ((others.lookup key).bind fun check => check v) = none := by
  induction all with
  | nil => exact Iff.rfl
  | cons first _ ih =>
    rw [List.lookup_cons, List.lookup_cons, first.key]
    cases key == _ with
    | false => exact ih
    | true =>
      have fault := first.fault v sound
      rw [Bool.eq_iff_iff, Option.isNone_iff_eq_none, Option.isNone_iff_eq_none] at fault
      exact fault

private theorem firstFault_sorted {checks others : List Check} (all : List.Forall₂ Check.Agrees checks others)
    {members : Members} (sound : (Json.object members).Sound) :
    firstFault checks (Json.sorted members) = none ↔ firstFault others members = none := by
  rw [firstFault_eq_none, firstFault_eq_none]
  constructor
  · intro none entry member
    have here := none (entry.1, entry.2.sortKeys) (Json.mem_sorted.mpr ⟨entry.2, member, rfl⟩)
    exact (lookup_agrees all entry.1 (sound.of_mem member)).mp here
  · intro none entry member
    obtain ⟨v, old, same⟩ := Json.mem_sorted.mp member
    rw [← same]
    exact (lookup_agrees all entry.1 (sound.of_mem old)).mpr (none _ old)

private theorem firstMissing_sorted (required : List String) {members : Members}
    (distinct : (members.map Prod.fst).Nodup) :
    firstMissing required (Json.sorted members) = none ↔ firstMissing required members = none := by
  rw [firstMissing_eq_none, firstMissing_eq_none]
  refine forall₂_congr fun key _ => ?_
  rw [Json.lookup_sorted distinct]
  cases members.lookup key <;> simp

namespace Record

variable {α β : Type}

theorem decode_eq_ok {record : Record α} {members : Members} {a : α} :
    record.decode members = .ok a ↔
      firstFault record.checks members = none ∧ firstMissing record.required members = none ∧
        record.build members = a := by
  unfold decode
  cases firstFault record.checks members with
  | some fault => simp
  | none =>
    cases firstMissing record.required members with
    | some fault => simp
    | none => simp

theorem decode_sorted {record other : Record α} {members : Members} (f : α → β)
    (sound : (Json.object members).Sound) (required : record.required = other.required)
    (checks : List.Forall₂ Check.Agrees record.checks other.checks)
    (build : firstFault other.checks members = none →
      f (record.build (Json.sorted members)) = f (other.build members)) :
    (record.decode (Json.sorted members)).toOption.map f = (other.decode members).toOption.map f := by
  have faults := firstFault_sorted checks sound
  have missing := firstMissing_sorted other.required sound.distinct
  unfold decode
  rw [required]
  cases fault : firstFault other.checks members with
  | some first =>
    cases sorted : firstFault record.checks (Json.sorted members) with
    | some _ => rfl
    | none =>
      rw [faults.mp sorted] at fault
      cases fault
  | none =>
    rw [faults.mpr fault]
    cases lacks : firstMissing other.required members with
    | some first =>
      cases sorted : firstMissing other.required (Json.sorted members) with
      | some _ => rfl
      | none =>
        rw [missing.mp sorted] at lacks
        cases lacks
    | none =>
      rw [missing.mpr lacks]
      exact congrArg some (build fault)

theorem decode_sorted_eq {record : Record α} {members : Members} (sound : (Json.object members).Sound)
    (checks : ∀ check ∈ record.checks, Check.Agrees check check)
    (build : record.build (Json.sorted members) = record.build members) :
    (record.decode (Json.sorted members)).toOption = (record.decode members).toOption := by
  have same := decode_sorted id sound rfl (List.forall₂_same.mpr checks) fun _ => build
  rwa [Option.map_id_fun, id_eq, id_eq] at same

end Record

section Readers

variable {α : Type}

@[simp]
theorem orderless_text : Orderless readText := by
  intro v _
  cases v <;> rfl

@[simp]
theorem orderless_number : Orderless readNumber := by
  intro v _
  cases v <;> rfl

@[simp]
theorem orderless_flag : Orderless readFlag := by
  intro v _
  cases v <;> rfl

@[simp]
theorem orderless_word : Orderless readWord := by
  intro v _
  cases v <;> rfl

@[simp]
theorem orderless_fontWeight : Orderless readFontWeight := by
  intro v _
  cases v <;> rfl

@[simp]
theorem orderless_optional {read : Reader α} (h : Orderless read) : Orderless (readOptional read) := by
  intro v sound
  have same := congrArg (Option.map some) (h v sound)
  rw [← toOption_map, ← toOption_map] at same
  cases v with
  | null => rfl
  | bool _ | int _ | float _ | string _ | array _ | object _ => exact same

private theorem sorted_singleton (word : String) (v : Json) : Json.sorted [(word, v)] = [(word, v.sortKeys)] := by
  rw [Json.sorted, Json.sortMembers_eq, List.map_singleton, List.mergeSort_singleton]

@[simp]
theorem orderless_choice (words : List (String × α)) : Orderless (readChoice words) := by
  intro v _
  cases v with
  | null | bool _ | int _ | float _ | string _ | array _ => rfl
  | object members =>
    have length := Json.length_sorted members
    rw [Json.sortKeys_object]
    match members with
    | [] => rw [List.length_eq_zero_iff.mp length]
    | [(word, v)] =>
      rw [sorted_singleton]
      cases known : readWordOf words word with
      | error fault => simp only [readChoice, known]
      | ok a => cases v <;> simp only [readChoice, known, Json.sortKeys] <;> rfl
    | first :: second :: rest =>
      cases shape : Json.sorted (first :: second :: rest) with
      | nil => simp [shape] at length
      | cons a tail =>
        cases tail with
        | nil => simp [shape] at length
        | cons b tail => rfl

private theorem toOption_readEach {read : Reader α} (h : Orderless read) {items : List Json}
    (sound : ∀ v ∈ items, v.Sound) :
    (readEach read (items.map Json.sortKeys)).toOption = (readEach read items).toOption := by
  induction items with
  | nil => rfl
  | cons v vs ih =>
    rw [List.forall_mem_cons] at sound
    rw [List.map_cons, readEach, readEach]
    rcases cases_of_toOption_eq (h v sound.1) with ⟨a, sorted, plain⟩ | ⟨e, f, sorted, plain⟩
    · rw [sorted, plain]
      rcases cases_of_toOption_eq (ih sound.2) with ⟨as, sorted, plain⟩ | ⟨e, f, sorted, plain⟩
      · simp only [sorted, plain]
      · simp only [sorted, plain]
        rfl
    · rw [sorted, plain]
      rfl

@[simp]
theorem orderless_numbers : Orderless readNumbers := by
  intro v sound
  cases v with
  | array items =>
    rw [Json.sortKeys_array]
    exact toOption_readEach orderless_number (Json.soundItems_iff.mp sound)
  | null | bool _ | int _ | float _ | string _ | object _ => rfl

private theorem toOption_readTuple (count : Nat) (expected : Expected) {items : List Json}
    (sound : ∀ v ∈ items, v.Sound) :
    (readTuple count expected (items.map Json.sortKeys)).toOption = (readTuple count expected items).toOption := by
  have each := toOption_readEach orderless_number fun v (member : v ∈ items.take count) =>
    sound v (List.mem_of_mem_take member)
  rw [readTuple, readTuple, ← List.map_take, List.length_map]
  rcases cases_of_toOption_eq each with ⟨xs, sorted, plain⟩ | ⟨e, f, sorted, plain⟩
  · simp only [sorted, plain]
  · simp only [sorted, plain]
    rfl

theorem orderless_pair (first second : String) (expected : Expected) (build : Float → Float → α) :
    Orderless (readPair first second expected build) := by
  intro v sound
  cases v with
  | null | bool _ | int _ | float _ | string _ => rfl
  | array items =>
    rw [Json.sortKeys_array, readPair, readPair, List.length_map]
    rcases cases_of_toOption_eq (toOption_readTuple 2 expected (Json.soundItems_iff.mp sound)) with
      ⟨xs, sorted, plain⟩ | ⟨e, f, sorted, plain⟩
    · simp only [sorted, plain]
    · simp only [sorted, plain]
      rfl
  | object members =>
    rw [Json.sortKeys_object, readPair, readPair]
    refine Record.decode_sorted_eq sound ?_ ?_
    · intro check member
      simp only [List.mem_cons, List.not_mem_nil, or_false] at member
      rcases member with rfl | rfl
      · exact Field.agrees_check orderless_number
      · exact Field.agrees_check orderless_number
    · have side (key : String) := @Field.getD_sorted _ ⟨key, readNumber⟩ orderless_number members sound 0
      simp only [side]

@[simp]
theorem orderless_point : Orderless readPoint := orderless_pair "x" "y" .point Point.mk

@[simp]
theorem orderless_size : Orderless readSize := orderless_pair "width" "height" .size Size.mk

@[simp]
theorem orderless_segment : Orderless readSegment := by
  intro v sound
  cases v with
  | array items =>
    rw [Json.sortKeys_array, readSegment, readSegment, List.length_map]
    rcases cases_of_toOption_eq (toOption_readTuple 4 .fourNumbers (Json.soundItems_iff.mp sound)) with
      ⟨xs, sorted, plain⟩ | ⟨e, f, sorted, plain⟩
    · simp only [sorted, plain]
    · simp only [sorted, plain]
      rfl
  | null | bool _ | int _ | float _ | string _ | object _ => rfl

@[simp]
theorem orderless_padding : Orderless readPadding := by
  intro v sound
  cases v with
  | null | bool _ | int _ | float _ | string _ | array _ => rfl
  | object members =>
    have sides : (paddingRecord.decode (Json.sorted members)).toOption = (paddingRecord.decode members).toOption := by
      refine Record.decode_sorted_eq sound ?_ ?_
      · intro check member
        obtain ⟨key, -, rfl⟩ := List.mem_map.mp member
        exact Field.agrees_check orderless_number
      · have side (key : String) := @Field.getD_sorted _ (sideField key) orderless_number members sound 0
        simp only [paddingRecord, side]
    rw [Json.sortKeys_object, readPadding, readPadding]
    rcases cases_of_toOption_eq sides with ⟨padding, sorted, plain⟩ | ⟨e, f, sorted, plain⟩
    · rw [sorted, plain]
    · rw [sorted, plain]

end Readers

end Handoff.Design
