import Handoff.Json.Reader
import Handoff.Proofs.Json.KeyOrder

set_option autoImplicit false
set_option relaxedAutoImplicit false

/-!
Texts that differ in the order of their keys alone.
-/

namespace Handoff
namespace Written

mutual

/-- The same written value, but for the order in which its objects have their members, at any depth. -/
inductive Reordered : Written → Written → Prop
  | null : Reordered .null .null
  | bool (b : Bool) : Reordered (.bool b) (.bool b)
  | number (n : Numeral) : Reordered (.number n) (.number n)
  | text (codes : List Nat) : Reordered (.text codes) (.text codes)
  | array {items others : List Written} : ReorderedItems items others → Reordered (.array items) (.array others)
  | object {members between others : List (List Nat × Written)} : ReorderedMembers members between →
      between.Perm others → Reordered (.object members) (.object others)

inductive ReorderedItems : List Written → List Written → Prop
  | nil : ReorderedItems [] []
  | cons {w u : Written} {ws us : List Written} : Reordered w u → ReorderedItems ws us →
      ReorderedItems (w :: ws) (u :: us)

/-- Members with the same keys in the same order. -/
inductive ReorderedMembers : List (List Nat × Written) → List (List Nat × Written) → Prop
  | nil : ReorderedMembers [] []
  | cons {codes : List Nat} {w u : Written} {ws us : List (List Nat × Written)} : Reordered w u →
      ReorderedMembers ws us → ReorderedMembers ((codes, w) :: ws) ((codes, u) :: us)

end

/-- The keys of written members that are texts. -/
def keys (members : List (List Nat × Written)) : List String :=
  members.filterMap fun entry => textOf entry.1

mutual

/-- No key stands twice in an object, at any depth. -/
def Distinct : Written → Prop
  | .array items => DistinctItems items
  | .object members => (keys members).Nodup ∧ DistinctMembers members
  | _ => True

def DistinctItems : List Written → Prop
  | [] => True
  | w :: ws => w.Distinct ∧ DistinctItems ws

def DistinctMembers : List (List Nat × Written) → Prop
  | [] => True
  | (_, w) :: ws => w.Distinct ∧ DistinctMembers ws

end

private theorem itemValues_cons {depth : Nat} {w : Written} {ws : List Written} {vs : List Json} :
    itemValues depth (w :: ws) = some vs ↔
      ∃ v rest, value depth w = some v ∧ itemValues depth ws = some rest ∧ v :: rest = vs := by
  rw [itemValues]
  cases value depth w <;> cases itemValues depth ws <;> simp

private theorem memberValues_cons {depth : Nat} {codes : List Nat} {w : Written} {ws : List (List Nat × Written)}
    {ms : Members} :
    memberValues depth ((codes, w) :: ws) = some ms ↔ ∃ key v rest, textOf codes = some key ∧
      value depth w = some v ∧ memberValues depth ws = some rest ∧ (key, v) :: rest = ms := by
  rw [memberValues]
  cases textOf codes <;> cases value depth w <;> cases memberValues depth ws <;> simp

private theorem keys_memberValues {depth : Nat} {members : List (List Nat × Written)} {ms : Members}
    (h : memberValues depth members = some ms) : ms.map Prod.fst = keys members := by
  induction members generalizing ms with
  | nil =>
    obtain rfl := Option.some.inj h
    rfl
  | cons entry rest ih =>
    obtain ⟨codes, w⟩ := entry
    obtain ⟨key, v, more, text, -, others, rfl⟩ := memberValues_cons.mp h
    have tail := ih others
    unfold keys at tail ⊢
    rw [List.filterMap_cons_some (f := fun entry : List Nat × Written => textOf entry.1) text, List.map_cons, tail]

private theorem memberValues_perm {depth : Nat} {members others : List (List Nat × Written)}
    (same : members.Perm others) {ms : Members} (h : memberValues depth members = some ms) :
    ∃ ns, memberValues depth others = some ns ∧ ms.Perm ns := by
  induction same generalizing ms with
  | nil => exact ⟨ms, h, .refl _⟩
  | cons entry _ ih =>
    obtain ⟨codes, w⟩ := entry
    obtain ⟨key, v, rest, text, first, later, rfl⟩ := memberValues_cons.mp h
    obtain ⟨ns, found, same⟩ := ih later
    exact ⟨(key, v) :: ns, memberValues_cons.mpr ⟨key, v, ns, text, first, found, rfl⟩, same.cons _⟩
  | swap second first rest =>
    obtain ⟨codes, w⟩ := first
    obtain ⟨codes', w'⟩ := second
    obtain ⟨key, v, _, text, value, after, rfl⟩ := memberValues_cons.mp h
    obtain ⟨key', v', ms, text', value', last, rfl⟩ := memberValues_cons.mp after
    have tail := memberValues_cons.mpr ⟨key, v, ms, text, value, last, rfl⟩
    exact ⟨_, memberValues_cons.mpr ⟨key', v', _, text', value', tail, rfl⟩, .swap ..⟩
  | trans _ _ first second =>
    obtain ⟨ns, found, same⟩ := first h
    obtain ⟨us, found, same'⟩ := second found
    exact ⟨us, found, same.trans same'⟩

private theorem keys_of_reordered {members others : List (List Nat × Written)} (h : ReorderedMembers members others) :
    keys members = keys others := by
  induction members generalizing others with
  | nil =>
    cases h
    rfl
  | cons entry rest ih =>
    cases h with
    | cons _ later => rw [keys, keys, List.filterMap_cons, List.filterMap_cons, ← keys, ← keys, ih later]

private theorem map_eq_of_iff {α β : Type} {f : α → β} {x y : Option α}
    (forth : ∀ a, x = some a → ∃ b, y = some b ∧ f a = f b) (back : ∀ b, y = some b → ∃ a, x = some a) :
    x.map f = y.map f := by
  cases x with
  | none =>
    cases y with
    | none => rfl
    | some b =>
      obtain ⟨a, none⟩ := back b rfl
      cases none
  | some a =>
    obtain ⟨b, rfl, same⟩ := forth a rfl
    exact congrArg some same

private theorem exists_of_map_eq {α β : Type} {f : α → β} {x y : Option α} (same : x.map f = y.map f) {a : α}
    (h : x = some a) : ∃ b, y = some b ∧ f a = f b := by
  subst h
  obtain ⟨b, found, same⟩ := Option.map_eq_some_iff.mp same.symm
  exact ⟨b, found, same.symm⟩

mutual

theorem sortKeys_of_reordered (depth : Nat) (w u : Written) (h : w.Reordered u) (distinct : w.Distinct) :
    (value depth w).map Json.sortKeys = (value depth u).map Json.sortKeys :=
  match w with
  | .null | .bool _ | .number _ | .text _ => by
    cases h
    rfl
  | .array items => by
    cases h with
    | array same =>
      cases depth with
      | zero => rfl
      | succ depth =>
        have read := congrArg (Option.map Json.array) (sortKeys_of_items depth items _ same distinct)
        simpa only [value, Option.map_map, Function.comp_def, Json.sortKeys_array] using read
  | .object members => by
    cases h with
    | object same moved =>
      cases depth with
      | zero => rfl
      | succ depth =>
        -- Between the two stand the members in their first order, with their values reordered.
        rename_i between others
        have read := sortKeys_of_members depth members between same distinct.2
        have keep : (keys between).Nodup := keys_of_reordered same ▸ distinct.1
        simp only [value, Option.map_map, Function.comp_def, Json.sortKeys_object]
        refine map_eq_of_iff ?_ ?_
        · intro ms found
          obtain ⟨bs, between, same⟩ := exists_of_map_eq read found
          obtain ⟨ns, other, moved⟩ := memberValues_perm moved between
          have first : (ms.map Prod.fst).Nodup := keys_memberValues found ▸ distinct.1
          have second : (bs.map Prod.fst).Nodup := keys_memberValues between ▸ keep
          refine ⟨ns, other, congrArg Json.object ?_⟩
          rw [Entries.putAll_new [] ms first, Entries.putAll_new [] ns ((moved.map Prod.fst).nodup_iff.mp second)]
          refine Json.sorted_eq_of_perm ?_ first
          change (Json.sortMembers ms).Perm (Json.sortMembers ns)
          rw [same, Json.sortMembers_eq, Json.sortMembers_eq]
          exact moved.map _
        · intro ns found
          obtain ⟨bs, between, -⟩ := memberValues_perm moved.symm found
          obtain ⟨ms, first, -⟩ := exists_of_map_eq read.symm between
          exact ⟨ms, first⟩

private theorem sortKeys_of_items (depth : Nat) (items others : List Written) (h : ReorderedItems items others)
    (distinct : DistinctItems items) :
    (itemValues depth items).map (List.map Json.sortKeys) = (itemValues depth others).map (List.map Json.sortKeys) :=
  match items with
  | [] => by
    cases h
    rfl
  | w :: ws => by
    cases h with
    | cons first rest =>
      have here := sortKeys_of_reordered depth w _ first distinct.1
      have later := sortKeys_of_items depth ws _ rest distinct.2
      refine map_eq_of_iff ?_ ?_
      · intro vs found
        obtain ⟨v, tail, value, items, rfl⟩ := itemValues_cons.mp found
        obtain ⟨v', value', same⟩ := exists_of_map_eq here value
        obtain ⟨tail', items', same'⟩ := exists_of_map_eq later items
        refine ⟨v' :: tail', itemValues_cons.mpr ⟨v', tail', value', items', rfl⟩, ?_⟩
        rw [List.map_cons, List.map_cons, same, same']
      · intro vs found
        obtain ⟨v', tail', value', items', rfl⟩ := itemValues_cons.mp found
        obtain ⟨v, value, -⟩ := exists_of_map_eq here.symm value'
        obtain ⟨tail, items, -⟩ := exists_of_map_eq later.symm items'
        exact ⟨v :: tail, itemValues_cons.mpr ⟨v, tail, value, items, rfl⟩⟩

private theorem sortKeys_of_members (depth : Nat) (members others : List (List Nat × Written))
    (h : ReorderedMembers members others) (distinct : DistinctMembers members) :
    (memberValues depth members).map Json.sortMembers = (memberValues depth others).map Json.sortMembers :=
  match members with
  | [] => by
    cases h
    rfl
  | (codes, w) :: ws => by
    cases h with
    | cons first rest =>
      have here := sortKeys_of_reordered depth w _ first distinct.1
      have later := sortKeys_of_members depth ws _ rest distinct.2
      refine map_eq_of_iff ?_ ?_
      · intro ms found
        obtain ⟨key, v, tail, text, value, members, rfl⟩ := memberValues_cons.mp found
        obtain ⟨v', value', same⟩ := exists_of_map_eq here value
        obtain ⟨tail', members', same'⟩ := exists_of_map_eq later members
        refine ⟨(key, v') :: tail', memberValues_cons.mpr ⟨key, v', tail', text, value', members', rfl⟩, ?_⟩
        rw [Json.sortMembers, Json.sortMembers, same, same']
      · intro ms found
        obtain ⟨key, v', tail', text, value', members', rfl⟩ := memberValues_cons.mp found
        obtain ⟨v, value, -⟩ := exists_of_map_eq here.symm value'
        obtain ⟨tail, members, -⟩ := exists_of_map_eq later.symm members'
        exact ⟨(key, v) :: tail, memberValues_cons.mpr ⟨key, v, tail, text, value, members, rfl⟩⟩

end

end Written
end Handoff
