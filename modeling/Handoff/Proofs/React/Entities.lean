import Handoff.Proofs.React.Jsx
import Handoff.React.Literal

set_option autoImplicit false
set_option relaxedAutoImplicit false

/-!
Texts in markup. The characters that mean something there stand as entities, and no text but the one that was written
has what it was written as.
-/

namespace Handoff.React
namespace Jsx

/-- The characters that end a text in markup, or the quotes around one. -/
def marks : List Char :=
  ['<', '>', '"', '\'', '\x7b', '\x7d']

/-- An entity as it stands in markup. -/
def entity (name : List Char) : List Char :=
  '&' :: (name ++ [';'])

private theorem mem_entities_iff (c : Char) : (∃ name, (name, c) ∈ entities) ↔ c = '&' ∨ c ∈ marks := by
  simp [entities, marks, exists_or]

private theorem markupChar_coded {name : List Char} {c : Char} (coded : (name, c) ∈ entities) :
    markupChar c = entity name := by
  have all : ∀ entry ∈ entities, markupChar entry.2 = entity entry.1 := by decide
  exact all _ coded

private theorem markupChar_plain {c : Char} (sign : c ≠ '&') (plain : c ∉ marks) : markupChar c = [c] := by
  simp only [marks, List.mem_cons, List.not_mem_nil, or_false, not_or] at plain
  simp only [markupChar, sign, plain, if_false]

/-- A character stands in markup as its entity, or as itself where it has none. -/
theorem markupChar_cases (c : Char) :
    (∃ name, (name, c) ∈ entities ∧ markupChar c = entity name) ∨ c ≠ '&' ∧ c ∉ marks ∧ markupChar c = [c] := by
  by_cases special : c = '&' ∨ c ∈ marks
  · obtain ⟨name, coded⟩ := (mem_entities_iff c).mpr special
    exact .inl ⟨name, coded, markupChar_coded coded⟩
  · obtain ⟨sign, plain⟩ := not_or.mp special
    exact .inr ⟨sign, plain, markupChar_plain sign plain⟩

private theorem plain_name {name : List Char} {c : Char} (coded : (name, c) ∈ entities) :
    ∀ d ∈ name, d ≠ '&' ∧ d ≠ ';' ∧ d ∉ marks := by
  have all : entities.all (fun entry => entry.1.all fun d => d != '&' && d != ';' && !marks.contains d) = true := by
    decide
  intro d member
  have plain := List.all_eq_true.mp (List.all_eq_true.mp all _ coded) d member
  simpa [and_assoc] using plain

private theorem lookup_entities_iff {name : List Char} {c : Char} :
    entities.lookup name = some c ↔ (name, c) ∈ entities := by
  constructor
  · intro found
    obtain ⟨before, after, split, -⟩ := List.lookup_eq_some_iff.mp found
    rw [split]
    exact List.mem_append_right before List.mem_cons_self
  · intro member
    have all : ∀ entry ∈ entities, entities.lookup entry.1 = some entry.2 := by decide
    exact all _ member

private theorem resolve_name {name : List Char} (ends : ';' ∉ name) {read rest : List Char} {c : Char}
    (coded : (read ++ name, c) ∈ entities) :
    resolve (some read) (name ++ ';' :: rest) = (resolve none rest).map (c :: ·) := by
  induction name generalizing read with
  | nil =>
    rw [List.append_nil] at coded
    simp only [List.nil_append, resolve, if_true, lookup_entities_iff.mpr coded]
  | cons d name ih =>
    obtain ⟨other, ends⟩ := List.ne_and_not_mem_of_not_mem_cons ends
    rw [List.cons_append, resolve, if_neg (Ne.symm other)]
    exact ih ends (by rwa [List.append_assoc])

theorem resolve_markupChar (c : Char) (rest : List Char) :
    resolve none (markupChar c ++ rest) = (resolve none rest).map (c :: ·) := by
  rcases markupChar_cases c with ⟨name, coded, text⟩ | ⟨sign, -, text⟩
  · rw [text, entity, List.cons_append, List.append_assoc, List.singleton_append, resolve, if_pos rfl]
    exact resolve_name (fun ends => (plain_name coded _ ends).2.1 rfl) coded
  · rw [text, List.singleton_append, resolve, if_neg sign]

theorem resolve_escape (s : String) : resolve none (escape s).toList = some s.toList := by
  rw [escape, String.toList_ofList]
  induction s.toList with
  | nil => rfl
  | cons c cs ih => rw [List.flatMap_cons, resolve_markupChar, ih, Option.map_some]

theorem not_mark_of_mem_escape {s : String} {c : Char} (member : c ∈ (escape s).toList) : c ∉ marks := by
  rw [escape, String.toList_ofList] at member
  obtain ⟨d, -, member⟩ := List.mem_flatMap.mp member
  rcases markupChar_cases d with ⟨name, coded, text⟩ | ⟨-, plain, text⟩
  · rw [text, entity, List.mem_cons, List.mem_append, List.mem_singleton] at member
    rcases member with rfl | inner | rfl
    · decide
    · exact (plain_name coded c inner).2.2
    · decide
  · rw [text, List.mem_singleton] at member
    rwa [member]

theorem isDelimiter_of_mem_escape {s : String} {c : Char} (member : c ∈ (escape s).toList) :
    isDelimiter c = false ∧ c ≠ '"' := by
  have plain := not_mark_of_mem_escape member
  simp only [marks, List.mem_cons, List.not_mem_nil, or_false, not_or] at plain
  simp [isDelimiter, plain]

private def opened : Option (List Char) → List Char
  | none => []
  | some name => '&' :: name

private theorem eq_of_resolve {state : Option (List Char)} {cs text : List Char} (plain : ∀ c ∈ cs, c ∉ marks)
    (h : resolve state cs = some text) : opened state ++ cs = text.flatMap markupChar := by
  -- along the reader, with the part of an entity that it holds put back before the rest
  fun_induction resolve state cs generalizing text with
  | case1 =>
    obtain rfl := Option.some.inj h
    rfl
  | case2 => cases h
  | case3 cs ih => exact ih (fun c member => plain c (List.mem_cons_of_mem _ member)) h
  | case4 c cs other ih =>
    obtain ⟨rest, read, rfl⟩ := Option.map_eq_some_iff.mp h
    obtain ⟨unmarked, plain⟩ := List.forall_mem_cons.mp plain
    rw [List.flatMap_cons, markupChar_plain other unmarked, ← ih plain read]
    rfl
  | case5 name cs c found ih =>
    obtain ⟨rest, read, rfl⟩ := Option.map_eq_some_iff.mp h
    have later := ih (fun c member => plain c (List.mem_cons_of_mem _ member)) read
    rw [List.flatMap_cons, markupChar_coded (lookup_entities_iff.mp found), ← later]
    simp [opened, entity]
  | case6 => cases h
  | case7 name c cs other ih =>
    rw [← ih (fun c member => plain c (List.mem_cons_of_mem _ member)) h]
    simp [opened]

private theorem sign_of_markupChar {c : Char} {before after : List Char}
    (h : markupChar c = before ++ '&' :: after) :
    before = [] ∧ ∃ name, (name, c) ∈ entities ∧ markupChar c = entity name := by
  rcases markupChar_cases c with ⟨name, coded, text⟩ | ⟨sign, -, text⟩
  · refine ⟨?_, name, coded, text⟩
    rw [text, entity] at h
    cases before with
    | nil => rfl
    | cons d before =>
      have within : '&' ∈ name ++ [';'] := by
        rw [(List.cons.inj h).2]
        exact List.mem_append_right before List.mem_cons_self
      rcases List.mem_append.mp within with inner | last
      · exact absurd rfl (plain_name coded _ inner).1
      · exact absurd last (by decide)
  · have within : '&' ∈ markupChar c := h ▸ List.mem_append_right before List.mem_cons_self
    rw [text] at within
    exact absurd (List.mem_singleton.mp within).symm sign

private theorem entity_of_sign {cs before after : List Char}
    (h : cs.flatMap markupChar = before ++ '&' :: after) :
    ∃ name c, (name, c) ∈ entities ∧ markupChar c = entity name ∧ entity name <+: '&' :: after := by
  induction cs generalizing before with
  | nil => exact absurd h.symm (List.append_ne_nil_of_right_ne_nil before (List.cons_ne_nil _ _))
  | cons c cs ih =>
    rw [List.flatMap_cons] at h
    rcases List.append_eq_append_iff.mp h with ⟨more, -, rest⟩ | ⟨more, here, rest⟩
    · exact ih rest
    -- the sign is the first character of the rest, or it is in what `c` is written as
    cases more with
    | nil =>
      have next : cs.flatMap markupChar = [] ++ '&' :: after := rest.symm
      exact ih next
    | cons d more =>
      obtain ⟨rfl, rest⟩ := List.cons.inj rest
      obtain ⟨rfl, name, coded, text⟩ := sign_of_markupChar here
      refine ⟨name, c, coded, text, ?_⟩
      rw [← text, here, rest]
      exact (List.prefix_cons_inj _).mpr (List.prefix_append more _)

/-- What a text is written as in markup. It has no mark in it, each sign in it begins one of the seven entities that are
written, and one pass over it, with the entities resolved, gives the text back, also where the text has in it what looks
like an entity. No other text without marks gives it. So different texts are written differently, and a text is written
piece by piece. -/
theorem escape_entities :
    (∀ s : String, (∀ c ∈ (escape s).toList, c ∉ marks) ∧
      (∀ before after, (escape s).toList = before ++ '&' :: after →
        ∃ name c, (name, c) ∈ entities ∧ markupChar c = entity name ∧ entity name <+: '&' :: after) ∧
      resolve none (escape s).toList = some s.toList ∧
      ∀ text : String, (∀ c ∈ text.toList, c ∉ marks) → resolve none text.toList = some s.toList → text = escape s) ∧
    Function.Injective escape ∧ ∀ s t, escape (s ++ t) = escape s ++ escape t := by
  refine ⟨fun s => ⟨fun c => not_mark_of_mem_escape, fun before after split => ?_, resolve_escape s, ?_⟩, ?_, ?_⟩
  · rw [escape, String.toList_ofList] at split
    exact entity_of_sign split
  · intro text plain read
    have written := eq_of_resolve plain read
    rw [escape, ← written, opened, List.nil_append, String.ofList_toList]
  · intro s t same
    have read := resolve_escape s
    rw [same, resolve_escape t] at read
    exact String.toList_injective (Option.some.inj read).symm
  · intro s t
    simp only [escape, String.toList_append, List.flatMap_append, String.ofList_append]

/-- What looks like entities is written with entities for their signs. -/
theorem escape_entities_nested : "&amp;#123;&amp;amp;lt;&#123;" = escape "&#123;&amp;lt;\x7b" := by
  have plain : "&amp;#123;&amp;amp;lt;&#123;".toList.all (fun c => !marks.contains c) = true := by decide
  exact (escape_entities.1 "&#123;&amp;lt;\x7b").2.2.2 _ (by simpa using plain) (by decide)

end Jsx
end Handoff.React
