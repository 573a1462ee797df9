import Handoff.Json.Difference
import Handoff.Proofs.Decimal.Digits
import Handoff.Proofs.Json.Sound
import Handoff.Proofs.Text.Scan
import Mathlib.Data.List.Nodup

set_option autoImplicit false
set_option relaxedAutoImplicit false

/-!
The labels of differences as names of places.

No place has two differences. A label is the text of a path, and the path is read back from it exactly when no key of
the path has a point or an opening bracket and the first key is not empty: so far, different places have different
labels. Other keys can share a label, and one that is empty can take the name of the document.
-/

namespace Handoff
namespace Json

/-- True of a key that only one of two objects has. -/
def Change.ofKey : Change → Bool
  | .missing | .unexpected => true
  | .length .. | .kind .. | .value .. => false

section Places

private theorem ne_of_below (path : Path) {place : Path} {step : Step} (below : path ++ [step] <+: place) :
    place ≠ path := by
  rintro rfl
  have length := below.length_le
  rw [List.length_append, List.length_singleton] at length
  omega

/-- Differences at a path or below it, no two of them at one place. -/
private structure Sited (path : Path) (ds : List Difference) : Prop where
  below : ∀ d ∈ ds, path <+: d.path
  nodup : (ds.map Difference.path).Nodup

private theorem Sited.nil (path : Path) : Sited path [] :=
  ⟨nofun, List.nodup_nil⟩

private theorem Sited.single (path : Path) (change : Change) : Sited path [⟨path, change⟩] :=
  ⟨List.forall_mem_singleton.mpr List.prefix_rfl, List.nodup_singleton _⟩

private theorem step_unique (path : Path) {place : Path} {first second : Step}
    (h : path ++ [first] <+: place) (other : path ++ [second] <+: place) : first = second := by
  have length : (path ++ [first]).length = (path ++ [second]).length := by
    rw [List.length_append, List.length_append]
    rfl
  have same := (List.prefix_of_prefix_length_le h other length.le).eq_of_length length
  exact List.singleton_inj.mp (List.append_cancel_left same)

private theorem below_parts {path : Path} {parts : List (Step × List Difference)}
    (each : ∀ part ∈ parts, Sited (path ++ [part.1]) part.2) :
    ∀ d ∈ parts.flatMap Prod.snd, ∃ part ∈ parts, path ++ [part.1] <+: d.path := by
  intro d member
  obtain ⟨part, known, member⟩ := List.mem_flatMap.mp member
  exact ⟨part, known, (each part known).below d member⟩

private theorem Sited.parts {path : Path} {parts : List (Step × List Difference)}
    (distinct : (parts.map Prod.fst).Nodup) (each : ∀ part ∈ parts, Sited (path ++ [part.1]) part.2) :
    Sited path (parts.flatMap Prod.snd) := by
  constructor
  · intro d member
    obtain ⟨part, -, below⟩ := below_parts each d member
    exact (List.prefix_append path [part.1]).trans below
  · rw [List.map_flatMap, List.nodup_flatMap]
    refine ⟨fun part known => (each part known).nodup, ?_⟩
    have apart : parts.Pairwise fun first second => first.1 ≠ second.1 := List.pairwise_map.mp distinct
    refine apart.imp_of_mem ?_
    intro first second known other steps
    refine List.disjoint_left.mpr ?_
    intro place here there
    obtain ⟨d, member, rfl⟩ := List.mem_map.mp here
    obtain ⟨e, member', same⟩ := List.mem_map.mp there
    have below := (each second other).below e member'
    rw [same] at below
    exact steps (step_unique path ((each first known).below d member) below)

private def memberParts (path : Path) (others members : Members) : List (Step × List Difference) :=
  members.map fun entry => (.key entry.1,
    match others.lookup entry.1 with
    | some w => differences (path ++ [.key entry.1]) entry.2 w
    | none => [⟨path ++ [.key entry.1], .missing⟩])

private theorem memberDifferences_eq (path : Path) (others members : Members) :
    memberDifferences path others members = (memberParts path others members).flatMap Prod.snd := by
  induction members with
  | nil => rfl
  | cons entry rest ih =>
    rw [memberDifferences, ih]
    rfl

private def addedParts (path : Path) (members others : Members) : List (Step × List Difference) :=
  (others.filter fun entry => (members.lookup entry.1).isNone).map fun entry =>
    (.key entry.1, [⟨path ++ [.key entry.1], .unexpected⟩])

/-- The differences under the indices that two arrays have in common. -/
private def itemParts (path : Path) (i : Nat) (items others : List Json) : List (Step × List Difference) :=
  ((items.zip others).zipIdx i).map fun pair =>
    (.index pair.2, differences (path ++ [.index pair.2]) pair.1.1 pair.1.2)

private theorem itemDifferences_eq (path : Path) (i : Nat) (items others : List Json) :
    itemDifferences path i items others = (itemParts path i items others).flatMap Prod.snd := by
  induction items generalizing i others with
  | nil => cases others <;> rfl
  | cons v items ih =>
    cases others with
    | nil => rfl
    | cons w others =>
      rw [itemDifferences, ih]
      rfl

private theorem differences_object (path : Path) (ms ns : Members) :
    differences path (.object ms) (.object ns) =
      (memberParts path ns ms ++ addedParts path ms ns).flatMap Prod.snd := by
  rw [differences, memberDifferences_eq, List.flatMap_append, addedParts, List.flatMap_map]
  congr 1
  exact List.map_eq_flatMap ..

private theorem differences_array (path : Path) (xs ys : List Json) :
    differences path (.array xs) (.array ys) =
      (if xs.length = ys.length then [] else [⟨path, .length xs.length ys.length⟩])
        ++ (itemParts path 0 xs ys).flatMap Prod.snd := by
  rw [differences, itemDifferences_eq]

private theorem differences_flat (path : Path) {a b : Json} (objects : ∀ ms ns, a = .object ms → b ≠ .object ns)
    (arrays : ∀ xs ys, a = .array xs → b ≠ .array ys) :
    differences path a b = [] ∨ ∃ change : Change, change.ofKey = false ∧ differences path a b = [⟨path, change⟩] := by
  rw [differences.eq_def]
  split
  · exact absurd rfl (objects _ _ rfl)
  · exact absurd rfl (arrays _ _ rfl)
  · split
    · exact .inr ⟨.kind a.kind b.kind, rfl, rfl⟩
    · split
      · exact .inl rfl
      · exact .inr ⟨.value a b, rfl, rfl⟩

private theorem sited_flat (path : Path) {a b : Json} (objects : ∀ ms ns, a = .object ms → b ≠ .object ns)
    (arrays : ∀ xs ys, a = .array xs → b ≠ .array ys) : Sited path (differences path a b) := by
  rcases differences_flat path objects arrays with none | ⟨change, -, one⟩
  · rw [none]
    exact .nil path
  · rw [one]
    exact .single path change

private theorem distinct_keys {members : Members} (distinct : (members.map Prod.fst).Nodup) :
    (members.map fun entry => Step.key entry.1).Nodup := by
  have keys : members.map (fun entry => Step.key entry.1) = (members.map Prod.fst).map Step.key := by
    rw [List.map_map]
    rfl
  rw [keys]
  exact distinct.map fun _ _ same => Step.key.inj same

private theorem distinct_members {path : Path} {ms ns : Members} (sound : (Json.object ms).Sound)
    (other : (Json.object ns).Sound) : ((memberParts path ns ms ++ addedParts path ms ns).map Prod.fst).Nodup := by
  have first : (memberParts path ns ms).map Prod.fst = ms.map fun entry => Step.key entry.1 := by
    rw [memberParts, List.map_map]
    rfl
  have second : (addedParts path ms ns).map Prod.fst =
      (ns.filter fun entry => (ms.lookup entry.1).isNone).map fun entry => Step.key entry.1 := by
    rw [addedParts, List.map_map]
    rfl
  have added : ((ns.filter fun entry => (ms.lookup entry.1).isNone).map Prod.fst).Nodup :=
    other.distinct.sublist (List.filter_sublist.map Prod.fst)
  rw [List.map_append, first, second]
  refine (distinct_keys sound.distinct).append (distinct_keys added) ?_
  rw [List.disjoint_left]
  intro step here there
  obtain ⟨entry, member, rfl⟩ := List.mem_map.mp here
  obtain ⟨new, member', same⟩ := List.mem_map.mp there
  obtain ⟨-, none⟩ := List.mem_filter.mp member'
  rw [Step.key.inj same, Entries.lookup_of_mem sound.distinct member] at none
  cases none

private theorem distinct_items (path : Path) (xs ys : List Json) : ((itemParts path 0 xs ys).map Prod.fst).Nodup := by
  have indices : (itemParts path 0 xs ys).map Prod.fst = (List.range' 0 (xs.zip ys).length).map Step.index := by
    rw [itemParts, List.map_map, ← List.zipIdx_map_snd 0 (xs.zip ys), List.map_map]
    rfl
  rw [indices]
  exact (List.nodup_range' ..).map fun _ _ same => Step.index.inj same

private theorem sited_itemParts {path : Path} {xs ys : List Json}
    (each : ∀ v ∈ xs, ∀ w ∈ ys, ∀ step, Sited (path ++ [step]) (differences (path ++ [step]) v w)) :
    ∀ part ∈ itemParts path 0 xs ys, Sited (path ++ [part.1]) part.2 := by
  intro part known
  obtain ⟨⟨⟨v, w⟩, i⟩, pair, rfl⟩ := List.mem_map.mp known
  obtain ⟨first, second⟩ := List.of_mem_zip (List.fst_mem_of_mem_zipIdx pair)
  exact each v first w second _

private theorem sited_memberParts {path : Path} {ms ns : Members}
    (each : ∀ entry ∈ ms, ∀ w, ns.lookup entry.1 = some w → ∀ step,
      Sited (path ++ [step]) (differences (path ++ [step]) entry.2 w)) :
    ∀ part ∈ memberParts path ns ms ++ addedParts path ms ns, Sited (path ++ [part.1]) part.2 := by
  intro part known
  rcases List.mem_append.mp known with known | known
  · obtain ⟨entry, member, rfl⟩ := List.mem_map.mp known
    cases found : ns.lookup entry.1 with
    | some w => exact each entry member w found _
    | none => exact .single _ _
  · obtain ⟨entry, -, rfl⟩ := List.mem_map.mp known
    exact .single _ _

private theorem sited_differences (path : Path) {a b : Json} (sound : a.Sound) (other : b.Sound) :
    Sited path (differences path a b) := by
  induction a using parts_induction generalizing path b with
  | null | bool | int | float | string => exact sited_flat path nofun nofun
  | array xs ih =>
    cases b with
    | null | bool | int | float | string | object => exact sited_flat path nofun nofun
    | array ys =>
      have each := sited_itemParts fun v first w second step =>
        ih v first (path ++ [step]) (soundItems_iff.mp sound v first) (soundItems_iff.mp other w second)
      have parts := Sited.parts (distinct_items path xs ys) each
      rw [differences_array]
      split
      · exact parts
      · -- the lengths differ at the path itself, and all else is below it
        refine ⟨List.forall_mem_cons.mpr ⟨List.prefix_rfl, parts.below⟩, List.nodup_cons.mpr ⟨?_, parts.nodup⟩⟩
        intro member
        obtain ⟨d, member, here⟩ := List.mem_map.mp member
        obtain ⟨part, -, below⟩ := below_parts each d member
        exact ne_of_below path below here
  | object ms ih =>
    cases b with
    | null | bool | int | float | string | array => exact sited_flat path nofun nofun
    | object ns =>
      rw [differences_object]
      exact .parts (distinct_members sound other) (sited_memberParts fun entry member w found step =>
        ih entry member (path ++ [step]) (sound.of_mem member) (other.of_lookup found))

private theorem heads_diff {a b : Json} (sound : a.Sound) (other : b.Sound) :
    (∀ d ∈ diff a b, ∃ name, [.key name] <+: d.path) ∨
      ∀ d ∈ diff a b, d.path = [] ∧ d.change.ofKey = false ∨ ∃ i, [.index i] <+: d.path := by
  by_cases objects : ∃ ms ns, a = .object ms ∧ b = .object ns
  · obtain ⟨ms, ns, rfl, rfl⟩ := objects
    refine .inl fun d member => ?_
    rw [diff, differences_object] at member
    obtain ⟨part, known, below⟩ := below_parts (sited_memberParts fun entry member w found step =>
      sited_differences _ (sound.of_mem member) (other.of_lookup found)) d member
    rcases List.mem_append.mp known with known | known
    · obtain ⟨entry, -, rfl⟩ := List.mem_map.mp known
      exact ⟨entry.1, below⟩
    · obtain ⟨entry, -, rfl⟩ := List.mem_map.mp known
      exact ⟨entry.1, below⟩
  refine .inr fun d member => ?_
  by_cases arrays : ∃ xs ys, a = .array xs ∧ b = .array ys
  · obtain ⟨xs, ys, rfl, rfl⟩ := arrays
    rw [diff, differences_array, List.mem_append] at member
    rcases member with member | member
    · split at member
      · cases member
      · rw [List.mem_singleton.mp member]
        exact .inl ⟨rfl, rfl⟩
    · obtain ⟨part, known, below⟩ := below_parts (sited_itemParts fun v first w second step =>
        sited_differences _ (soundItems_iff.mp sound v first) (soundItems_iff.mp other w second)) d member
      obtain ⟨pair, -, rfl⟩ := List.mem_map.mp known
      exact .inr ⟨pair.2, below⟩
  · rcases differences_flat [] (fun ms ns first second => objects ⟨ms, ns, first, second⟩)
      (fun xs ys first second => arrays ⟨xs, ys, first, second⟩) with none | ⟨change, flat, one⟩
    · rw [diff, none] at member
      cases member
    · rw [diff, one] at member
      rw [List.mem_singleton.mp member]
      exact .inl ⟨rfl, flat⟩

end Places

section Reading

private def Step.chars : Step → List Char
  | .key name => '.' :: name.toList
  | .index i => '[' :: Nat.toDigits 10 i ++ [']']

private def extend (written : String) : Step → String
  | .key name => if written = "" then name else written ++ "." ++ name
  | .index i => written ++ "[" ++ toString i ++ "]"

private theorem text_eq (path : Path) : path.text = path.foldl extend "" := rfl

private theorem toList_extend {written : String} (some : written ≠ "") (step : Step) :
    (extend written step).toList = written.toList ++ step.chars := by
  cases step with
  | key name =>
    rw [extend, if_neg some, String.toList_append, String.toList_append, List.append_assoc]
    rfl
  | index i =>
    simp only [extend, String.toList_append, Nat.toString_eq_ofList_toDigits, String.toList_ofList, List.append_assoc]
    rfl

private theorem toList_foldl_extend {written : String} (some : written ≠ "") (path : Path) :
    (path.foldl extend written).toList = written.toList ++ path.flatMap Step.chars := by
  induction path generalizing written with
  | nil => simp
  | cons step rest ih =>
    have more : extend written step ≠ "" := by
      intro none
      have chars := toList_extend some step
      rw [none] at chars
      exact some (String.toList_eq_nil_iff.mp (List.append_eq_nil_iff.mp chars.symm).1)
    rw [List.foldl_cons, ih more, toList_extend some, List.flatMap_cons, List.append_assoc]

private theorem text_empty (rest : Path) : Path.text (.key "" :: rest) = rest.text := rfl

private theorem text_key {name : String} (some : name ≠ "") (rest : Path) :
    (Path.text (.key name :: rest)).toList = name.toList ++ rest.flatMap Step.chars :=
  toList_foldl_extend some rest

private theorem text_index (i : Nat) (rest : Path) :
    (Path.text (.index i :: rest)).toList = '[' :: (Nat.toDigits 10 i ++ ']' :: rest.flatMap Step.chars) := by
  have chars : (extend "" (.index i)).toList = '[' :: Nat.toDigits 10 i ++ [']'] := by
    simp only [extend, String.toList_append, Nat.toString_eq_ofList_toDigits, String.toList_ofList]
    rfl
  have some : extend "" (.index i) ≠ "" := by
    intro none
    rw [none] at chars
    cases chars
  rw [text_eq, List.foldl_cons, toList_foldl_extend some, chars]
  simp

/-- True of a character that stands between steps in no text of a path. -/
def isUnmarked (c : Char) : Bool :=
  c != '.' && c != '['

/-- The steps that a text shows, each behind its mark. -/
def Path.ofMarked : List Char → Path
  | [] => []
  | c :: cs =>
    if c = '.' then .key (Text.takeRun isUnmarked cs).1 :: ofMarked (Text.takeRun isUnmarked cs).2
    else if c = '[' then
      .index (Numeral.digitsValue (Text.takeRun Char.isDigit cs).1.toList)
        :: ofMarked ((Text.takeRun Char.isDigit cs).2.drop 1)
    else []
termination_by cs => cs.length
decreasing_by
  · have shorter := (List.dropWhile_suffix isUnmarked (l := cs)).length_le
    simp only [Text.takeRun, List.length_cons]
    omega
  · have shorter := (List.dropWhile_suffix Char.isDigit (l := cs)).length_le
    simp only [Text.takeRun, List.length_cons, List.length_drop]
    omega

/-- The path that a text shows: a key at its head, unless it begins with an index, and the steps behind it. -/
def Path.ofText (text : String) : Path :=
  match text.toList with
  | [] => []
  | c :: cs =>
    if c = '[' then ofMarked (c :: cs)
    else .key (Text.takeRun isUnmarked (c :: cs)).1 :: ofMarked (Text.takeRun isUnmarked (c :: cs)).2

/-- True of an index, and of a key that has no mark of a step. -/
def Step.isPlain : Step → Bool
  | .key name => name.toList.all isUnmarked
  | .index _ => true

/-- A path whose keys have no marks of steps, and whose first key is not empty. -/
def Path.Plain (path : Path) : Prop :=
  path.all Step.isPlain = true ∧ path.head? ≠ some (.key "")

instance (path : Path) : Decidable path.Plain :=
  inferInstanceAs (Decidable (_ ∧ _))

private theorem head_chars (path : Path) : ∀ c ∈ (path.flatMap Step.chars).head?, isUnmarked c = false := by
  intro c head
  cases path with
  | nil => cases head
  | cons step rest => cases step <;> cases head <;> rfl

private theorem ofMarked_chars {path : Path} (plain : path.all Step.isPlain = true) :
    Path.ofMarked (path.flatMap Step.chars) = path := by
  induction path with
  | nil => rw [List.flatMap_nil, Path.ofMarked]
  | cons step rest ih =>
    rw [List.all_cons, Bool.and_eq_true] at plain
    cases step with
    | key name =>
      have taken := Text.takeRun_append (List.all_eq_true.mp plain.1) (head_chars rest)
      rw [List.flatMap_cons, Step.chars, List.cons_append, Path.ofMarked, if_pos rfl, taken, ih plain.2,
        String.ofList_toList]
    | index i =>
      have stop : ∀ c ∈ (']' :: rest.flatMap Step.chars).head?, c.isDigit = false := by
        rintro c ⟨⟩
        rfl
      have taken := Text.takeRun_append (fun c => Numeral.isDigit_of_mem_toDigits (n := i)) stop
      rw [List.flatMap_cons, Step.chars, List.cons_append, List.cons_append, List.append_assoc, List.singleton_append,
        Path.ofMarked, if_neg (by decide), if_pos rfl, taken, List.drop_one, List.tail_cons, ih plain.2,
        String.toList_ofList, Numeral.digitsValue_toDigits]

private theorem ofText_index {text : String} {cs : List Char} (form : text.toList = '[' :: cs) :
    Path.ofText text = Path.ofMarked text.toList := by
  rw [Path.ofText, form]
  exact if_pos rfl

private theorem ofText_key {text name : String} {rest : List Char} (form : text.toList = name.toList ++ rest)
    (some : name ≠ "") (plain : ∀ c ∈ name.toList, isUnmarked c = true)
    (stop : ∀ c ∈ rest.head?, isUnmarked c = false) :
    Path.ofText text = .key name :: Path.ofMarked rest := by
  have taken := Text.takeRun_append plain stop
  obtain ⟨c, cs, letters⟩ := List.exists_cons_of_ne_nil (String.toList_eq_nil_iff.not.mpr some)
  have first : c ≠ '[' := by
    rintro rfl
    have unmarked := plain '[' (letters ▸ List.mem_cons_self)
    cases unmarked
  rw [letters, List.cons_append] at form taken
  rw [Path.ofText, form]
  simp only [if_neg first, taken]
  rw [← letters, String.ofList_toList]

/-- A path that does not begin with an empty key begins with an index or another key, if it has steps. -/
private theorem cases_of_head {path : Path} (first : path.head? ≠ some (.key "")) :
    path = [] ∨ (∃ i rest, path = .index i :: rest) ∨ ∃ name rest, name ≠ "" ∧ path = .key name :: rest := by
  match path with
  | [] => exact .inl rfl
  | .index i :: rest => exact .inr (.inl ⟨i, rest, rfl⟩)
  | .key name :: rest =>
    refine .inr (.inr ⟨name, rest, ?_, rfl⟩)
    rintro rfl
    exact first rfl

private theorem ofText_text {path : Path} (plain : path.Plain) : Path.ofText path.text = path := by
  obtain ⟨steps, first⟩ := plain
  rcases cases_of_head first with rfl | ⟨i, rest, rfl⟩ | ⟨name, rest, some, rfl⟩
  · rfl
  · have marked := ofMarked_chars steps
    rw [List.flatMap_cons, Step.chars, List.cons_append, List.cons_append, List.append_assoc, List.singleton_append]
      at marked
    rw [ofText_index (text_index i rest), text_index, marked]
  · rw [List.all_cons, Bool.and_eq_true] at steps
    rw [ofText_key (text_key some rest) some (List.all_eq_true.mp steps.1) (head_chars rest), ofMarked_chars steps.2]

private theorem isPlain_takeRun (cs : List Char) : (Step.key (Text.takeRun isUnmarked cs).1).isPlain = true := by
  rw [Step.isPlain, Text.takeRun, String.toList_ofList]
  exact List.all_takeWhile

private theorem isPlain_ofMarked (cs : List Char) : (Path.ofMarked cs).all Step.isPlain = true := by
  fun_induction Path.ofMarked cs with
  | case1 => rfl
  | case2 cs ih =>
    rw [List.all_cons, isPlain_takeRun, ih]
    rfl
  | case3 cs _ ih =>
    rw [List.all_cons, ih]
    rfl
  | case4 => rfl

private theorem isPlain_ofText (text : String) : (Path.ofText text).all Step.isPlain = true := by
  rw [Path.ofText]
  split
  · rfl
  · split
    · exact isPlain_ofMarked _
    · rw [List.all_cons, isPlain_takeRun, isPlain_ofMarked]
      rfl

/-- The steps from the first one that is not the empty key. -/
def Path.named (path : Path) : Path :=
  path.dropWhile (· = .key "")

private theorem text_named (path : Path) : path.named.text = path.text := by
  induction path with
  | nil => rfl
  | cons step rest ih =>
    rw [Path.named, List.dropWhile_cons]
    split
    · rename_i empty
      rw [of_decide_eq_true empty, text_empty]
      exact ih
    · rfl

private theorem head_named (path : Path) : path.named.head? ≠ some (.key "") := by
  intro head
  have stop := List.head?_dropWhile_not (fun step : Step => decide (step = .key "")) path
  rw [Path.named] at head
  rw [head] at stop
  cases stop

private theorem ofText_text_iff (path : Path) : Path.ofText path.text = path ↔ path.Plain := by
  refine ⟨fun read => ?_, ofText_text⟩
  have steps : path.all Step.isPlain = true := by
    rw [← read]
    exact isPlain_ofText _
  have plain : path.named.Plain := by
    refine ⟨?_, head_named path⟩
    rw [List.all_eq_true] at steps ⊢
    exact fun step member => steps step ((List.dropWhile_suffix _).subset member)
  have same : path.named = path := by
    rw [← ofText_text plain, text_named, read]
  rwa [same] at plain

private theorem text_eq_empty_iff (path : Path) : path.text = "" ↔ path.named = [] := by
  rw [← text_named]
  refine ⟨fun none => ?_, fun same => same ▸ rfl⟩
  rcases cases_of_head (head_named path) with nil | ⟨i, rest, form⟩ | ⟨name, rest, some, form⟩
  · exact nil
  · have chars := text_index i rest
    rw [← form, none] at chars
    cases chars
  · have chars := text_key some rest
    rw [← form, none] at chars
    exact absurd (String.toList_eq_nil_iff.mp (List.append_eq_nil_iff.mp chars.symm).1) some

/-- The text of a path is a word without marks when that is its last key and all before it are empty. -/
private theorem text_eq_word_iff (word : String) (some : word ≠ "") (plain : ∀ c ∈ word.toList, isUnmarked c = true)
    (path : Path) : path.text = word ↔ path.named = [.key word] := by
  rw [← text_named]
  refine ⟨fun same => ?_, fun same => same ▸ rfl⟩
  have unmarked {c : Char} (mark : isUnmarked c = false) : c ∉ word.toList := by
    intro member
    rw [plain c member] at mark
    cases mark
  rcases cases_of_head (head_named path) with nil | ⟨i, rest, form⟩ | ⟨name, rest, letters, form⟩
  · rw [nil] at same
    exact absurd same.symm some
  · have chars := text_index i rest
    rw [← form, same] at chars
    refine absurd ?_ (unmarked (c := '[') rfl)
    rw [chars]
    exact List.mem_cons_self
  · have chars := text_key letters rest
    rw [← form, same] at chars
    cases rest with
    | nil =>
      rw [List.flatMap_nil, List.append_nil] at chars
      rw [form, String.toList_injective chars]
    | cons step rest =>
      obtain ⟨c, mark, head⟩ : ∃ c, isUnmarked c = false ∧ c ∈ ((step :: rest).flatMap Step.chars) := by
        cases step with
        | key _ => exact ⟨'.', rfl, List.mem_cons_self⟩
        | index _ => exact ⟨'[', rfl, List.mem_cons_self⟩
      refine absurd ?_ (unmarked mark)
      rw [chars]
      exact List.mem_append_right _ head

end Reading

/-- The name of a difference: the text of its path, or a name for the document. A key that only one object has is named
by the text alone. -/
def Difference.label (d : Difference) : String :=
  if d.change.ofKey then d.path.text else d.path.label

/-- What a difference says behind its label. -/
def Change.text : Change → String
  | .missing => "missing after round trip"
  | .unexpected => "unexpected key after round trip"
  | .length before after => "array length " ++ toString before ++ " became " ++ toString after
  | .kind before after => "type " ++ before.name ++ " became " ++ after.name
  | .value before after => "value " ++ before.compact ++ " became " ++ after.compact

private theorem message_eq (d : Difference) : d.message = d.label ++ ": " ++ d.change.text := by
  obtain ⟨path, change⟩ := d
  apply String.toList_injective
  cases change <;> simp [Difference.message, Difference.label, Change.ofKey, Change.text]

/-- The path that a label shows. -/
def Path.ofLabel (label : String) : Path :=
  if label = "<document>" then [] else ofText label

section Labels

variable {a b : Json} {d : Difference}

private theorem ofKey_of_nil (sound : a.Sound) (other : b.Sound) (member : d ∈ diff a b) (here : d.path = []) :
    d.change.ofKey = false := by
  rcases heads_diff sound other with keys | indices
  · obtain ⟨name, below⟩ := keys d member
    exact absurd here (ne_of_below [] below)
  · rcases indices d member with ⟨-, flat⟩ | ⟨i, below⟩
    · exact flat
    · exact absurd here (ne_of_below [] below)

private theorem ne_key_of_nil (sound : a.Sound) (other : b.Sound) {e : Difference} (member : d ∈ diff a b)
    (member' : e ∈ diff a b) (here : d.path = []) (name : String) : e.path ≠ [.key name] := by
  intro key
  rcases heads_diff sound other with keys | indices
  · obtain ⟨_, below⟩ := keys d member
    exact ne_of_below [] below here
  · rcases indices e member' with ⟨nil, -⟩ | ⟨i, below⟩
    · rw [nil] at key
      cases key
    · rw [key] at below
      cases step_unique [] below List.prefix_rfl

/-- The name of the document is the label of a difference below empty keys alone, if any, and of one at a key of that
name below empty keys. -/
private theorem label_eq_document_iff (d : Difference) : d.label = "<document>" ↔
    d.path.named = [] ∧ d.change.ofKey = false ∨ d.path.named = [.key "<document>"] := by
  have word := text_eq_word_iff "<document>" (by decide) (List.all_eq_true.mp (by decide)) d.path
  rw [← text_eq_empty_iff, ← word, Difference.label, Path.label]
  by_cases none : d.path.text = ""
  · cases d.change.ofKey <;> simp [none]
  · cases d.change.ofKey <;> simp [none]

private theorem named_of_plain {path : Path} (plain : path.Plain) : path.named = path := by
  rcases cases_of_head plain.2 with rfl | ⟨i, rest, rfl⟩ | ⟨name, rest, some, rfl⟩
  · rfl
  · rfl
  · exact List.dropWhile_cons_of_neg (by simpa using some)

private theorem label_eq_text (h : d.label ≠ "<document>") : d.label = d.path.text := by
  rw [Difference.label] at h ⊢
  split
  · rfl
  · rename_i own
    rw [if_neg own, Path.label] at h
    rw [Path.label]
    split
    · rename_i none
      exact absurd (if_pos none) h
    · rfl

/-- A label shows the place of its difference exactly when the path is plain and is no key with the document's name. -/
private theorem ofLabel_label_iff (d : Difference) :
    Path.ofLabel d.label = d.path ↔ d.path.Plain ∧ d.path ≠ [.key "<document>"] := by
  by_cases document : d.label = "<document>"
  · rw [Path.ofLabel, if_pos document]
    constructor
    · intro here
      rw [← here]
      exact ⟨⟨rfl, nofun⟩, nofun⟩
    · rintro ⟨plain, apart⟩
      rcases (label_eq_document_iff d).mp document with ⟨here, -⟩ | key
      · exact (named_of_plain plain ▸ here).symm
      · exact absurd (named_of_plain plain ▸ key) apart
  · have apart : d.path ≠ [.key "<document>"] := by
      intro key
      refine document ((label_eq_document_iff d).mpr (.inr ?_))
      rw [key]
      rfl
    rw [Path.ofLabel, if_neg document, label_eq_text document, ofText_text_iff]
    exact (and_iff_left apart).symm

private theorem path_eq_of_label_eq (sound : a.Sound) (other : b.Sound) {e : Difference} (member : d ∈ diff a b)
    (member' : e ∈ diff a b) (plain : d.path.Plain) (plain' : e.path.Plain) (same : d.label = e.label) :
    d.path = e.path := by
  by_cases document : d.label = "<document>"
  · have named {d : Difference} (plain : d.path.Plain) (document : d.label = "<document>") :
        d.path = [] ∨ d.path = [.key "<document>"] := by
      have names := (label_eq_document_iff d).mp document
      rw [named_of_plain plain] at names
      exact names.imp_left And.left
    rcases named plain document with nil | key <;> rcases named plain' (same ▸ document) with nil' | key'
    · rw [nil, nil']
    · exact absurd key' (ne_key_of_nil sound other member member' nil _)
    · exact absurd key (ne_key_of_nil sound other member' member nil' _)
    · rw [key, key']
  · have apart : e.label ≠ "<document>" := same ▸ document
    rw [← ofText_text plain, ← ofText_text plain', ← label_eq_text document, ← label_eq_text apart, same]

end Labels

/-- No place has two differences, and each label shows the place of its difference exactly when the path is plain and is
no key with the document's name; so labels of plain places are different. The document's name is the label of the
documents themselves, and else just of what is below empty keys alone and of a key of that name below empty keys. -/
theorem diff_labels {a b : Json} (sound : a.Sound) (other : b.Sound) :
    ((diff a b).map Difference.path).Nodup ∧
      (∀ d ∈ diff a b, d.message = d.label ++ ": " ++ d.change.text ∧
        (Path.ofLabel d.label = d.path ↔ d.path.Plain ∧ d.path ≠ [.key "<document>"]) ∧
        (d.label = "<document>" ↔ d.path = [] ∨ d.path.named = [] ∧ d.change.ofKey = false ∨
          d.path.named = [.key "<document>"])) ∧
      (((diff a b).filter (·.path.Plain)).map Difference.label).Nodup := by
  have places := (sited_differences [] sound other).nodup
  refine ⟨places, fun d member => ⟨message_eq d, ofLabel_label_iff d, ?_⟩, ?_⟩
  · rw [label_eq_document_iff]
    refine ⟨.inr, ?_⟩
    rintro (here | document)
    · rw [here]
      exact .inl ⟨rfl, ofKey_of_nil sound other member here⟩
    · exact document
  · have apart := (List.pairwise_map.mp places).filter (·.path.Plain)
    refine List.pairwise_map.mpr (apart.imp_of_mem ?_)
    intro d e known known' distinct same
    obtain ⟨member, plain⟩ := List.mem_filter.mp known
    obtain ⟨member', plain'⟩ := List.mem_filter.mp known'
    exact distinct
      (path_eq_of_label_eq sound other member member' (of_decide_eq_true plain) (of_decide_eq_true plain') same)

/-- A design and what became of it: a length, a value, a kind and two keys. -/
theorem diff_labels_design :
    let a : Json := .object [("root", .object [("children", .array [.object [("fill", .string "#fff")], .null]),
      ("size", .object [("width", .int 10)]), ("note", .null)])]
    let b : Json := .object [("root", .object [("size", .array [.int 10]),
      ("children", .array [.object [("fill", .string "#000")]]), ("", .bool true)])]
    a.Sound ∧ b.Sound ∧ (∀ d ∈ diff a b, d.path.Plain) ∧ ((diff a b).map Difference.label).Nodup ∧
      (diff a b).map Difference.label =
        ["root.children", "root.children[0].fill", "root.size", "root.note", "root."] := by
  intro a b
  have sound : a.Sound := by decide
  have other : b.Sound := by decide
  have plain : ∀ d ∈ diff a b, d.path.Plain := by decide
  obtain ⟨-, -, apart⟩ := diff_labels sound other
  have all : (diff a b).filter (·.path.Plain) = diff a b :=
    List.filter_eq_self.mpr fun d member => decide_eq_true (plain d member)
  rw [all] at apart
  exact ⟨sound, other, plain, apart, by decide⟩

/-- Two places below keys with a point have one label, and a difference at an empty key has the label of the
documents. -/
theorem not_nodup_labels :
    let a : Json := .object [("a.b", .int 1), ("a", .object [("b", .int 1)])]
    let b : Json := .object [("a.b", .int 2), ("a", .object [("b", .int 2)])]
    a.Sound ∧ b.Sound ∧ ¬((diff a b).map Difference.label).Nodup ∧
      ∃ d ∈ diff (.object [("", .int 1)]) (.object [("", .int 2)]), d.label = "<document>" ∧ d.path ≠ [] := by
  intro a b
  have labels : (diff a b).map Difference.label = ["a.b", "a.b"] := by decide
  have one : diff (.object [("", .int 1)]) (.object [("", .int 2)]) =
      [⟨[.key ""], .value (.int 1) (.int 2)⟩] := rfl
  refine ⟨by decide, by decide, ?_, ?_⟩
  · rw [labels]
    decide
  · rw [one]
    exact ⟨_, List.mem_singleton_self _, by decide, List.cons_ne_nil _ _⟩

end Json
end Handoff
