import Handoff.Archive.Envelope
import Handoff.Proofs.Design.Grammar

set_option autoImplicit false
set_option relaxedAutoImplicit false

/-!
What comes of reading a text as an archive, by the value that the text writes and the grammar of designs.
-/

namespace Handoff.Archive
open Design

/-- The part of a document that should be a design, and what stands there to tell about it. -/
inductive Candidate : Json → Json → Option Json → Prop
  /-- A design under its name, whatever else the document has. -/
  | enveloped {members : Members} {spec : Json} : members.lookup "spec" = some spec →
      Candidate (.object members) spec (members.lookup "metadata")
  | bare {members : Members} {root : Json} : members.lookup "spec" = none → members.lookup "root" = some root →
      Candidate (.object members) (.object members) none

/-- What is known about a design. Nothing is, where the metadata are malformed. -/
def Metadata.ofBlock (block : Option Json) : Option Metadata :=
  block.bind fun v => Metadata.decode v.written

/-- A document with no place for a design is no object, or has neither key. -/
theorem not_candidate_iff {v : Json} :
    (∀ design block, ¬Candidate v design block) ↔
      ∀ members, v = .object members → members.lookup "spec" = none ∧ members.lookup "root" = none := by
  constructor
  · rintro nowhere members rfl
    cases spec : members.lookup "spec" with
    | some design => exact absurd (.enveloped spec) (nowhere design _)
    | none =>
      cases root : members.lookup "root" with
      | some design => exact absurd (.bare spec root) (nowhere _ _)
      | none => exact ⟨rfl, rfl⟩
  · intro neither design block candidate
    cases candidate with
    | enveloped spec =>
      rw [(neither _ rfl).1] at spec
      cases spec
    | bare spec root =>
      rw [(neither _ rfl).2] at root
      cases root

private theorem decode_candidate (v : Json) :
    (∃ design block, Candidate v design block ∧ Envelope.decode v = readTree (Metadata.ofBlock block) design) ∨
      (∀ design block, ¬Candidate v design block) ∧ Envelope.decode v = .error .missingTree := by
  cases v with
  | null | bool _ | int _ | float _ | string _ | array _ => exact .inr ⟨nofun, rfl⟩
  | object members =>
    rw [Envelope.decode, Entries.has, Entries.get?, Entries.get?, Entries.get?]
    cases spec : members.lookup "spec" with
    | some design => exact .inl ⟨design, _, .enveloped spec, rfl⟩
    | none =>
      cases root : members.lookup "root" with
      | some design => exact .inl ⟨_, none, .bare spec root, rfl⟩
      | none =>
        refine .inr ⟨not_candidate_iff.mpr ?_, rfl⟩
        rintro _ ⟨⟩
        exact ⟨spec, root⟩

theorem Candidate.unique {v first second : Json} {about other : Option Json} (h : Candidate v first about)
    (h' : Candidate v second other) : first = second ∧ about = other := by
  cases h with
  | enveloped spec =>
    cases h' with
    | enveloped again =>
      rw [spec] at again
      exact ⟨Option.some.inj again, rfl⟩
    | bare none _ =>
      rw [spec] at none
      cases none
  | bare none _ =>
    cases h' with
    | enveloped again =>
      rw [none] at again
      cases again
    | bare _ _ => exact ⟨rfl, rfl⟩

theorem Candidate.sound {v design : Json} {block : Option Json} (h : Candidate v design block) (sound : v.Sound) :
    design.Sound := by
  cases h with
  | enveloped spec => exact sound.of_lookup spec
  | bare _ _ => exact sound

theorem sound_of_parse {text : String} {v : Json} (parsed : Json.parse text = some v) : v.Sound := by
  obtain ⟨w, -, value⟩ := Option.bind_eq_some_iff.mp parsed
  exact Written.sound_value _ w v value

private inductive Reading (text : String) : Except ReadError Envelope → Prop
  | notJson {place : Option Place} : Json.parse text = none → Reading text (.error (.notJson place))
  | missingTree {v : Json} : Json.parse text = some v → (∀ design block, ¬Candidate v design block) →
      Reading text (.error .missingTree)
  | invalidTree {v design : Json} {block : Option Json} {fault : Fault} : Json.parse text = some v →
      Candidate v design block → ¬Fits .tree design → Reading text (.error (.invalidTree fault))
  | tree {v design : Json} {block : Option Json} {tree : Tree} : Json.parse text = some v →
      Candidate v design block → Fits .tree design → Tree.decode design = .ok tree →
      Reading text (.ok ⟨Metadata.ofBlock block, tree⟩)

private theorem reading (text : String) : Reading text (read text) := by
  unfold read
  cases parsed : Json.parse text with
  | none => exact .notJson parsed
  | some v =>
    change Reading text (Envelope.decode v)
    rcases decode_candidate v with ⟨design, block, candidate, decoded⟩ | ⟨nowhere, decoded⟩
    · have fits := takes_tree design (candidate.sound (sound_of_parse parsed))
      rw [decoded, readTree]
      cases read : Tree.decode design with
      | ok tree => exact .tree parsed candidate (fits.mp ⟨tree, read⟩) read
      | error fault =>
        refine .invalidTree parsed candidate fun shape => ?_
        obtain ⟨tree, again⟩ := fits.mpr shape
        rw [read] at again
        cases again
    · rw [decoded]
      exact .missingTree parsed nowhere

theorem exists_candidate_of_read {text : String} {e : Envelope} (h : read text = .ok e) :
    ∃ v design block, Json.parse text = some v ∧ Candidate v design block ∧ Tree.decode design = .ok e.tree := by
  have outcome := reading text
  rw [h] at outcome
  cases outcome with
  | tree parsed candidate _ decoded => exact ⟨_, _, _, parsed, candidate, decoded⟩

/-- What comes of a text. It is no JSON exactly when it has no value; it lacks a design exactly when its value is no
object or has neither key; else it is read exactly when the value in the design's place has the shape of a design, and
has a fault exactly when it does not. The design is what that value is decoded as, and what is known about it comes
from the metadata alone, whose faults only leave it unknown. -/
theorem read_outcome (text : String) :
    ((∃ place, read text = .error (.notJson place)) ↔ Json.parse text = none) ∧
      (read text = .error .missingTree ↔ ∃ v, Json.parse text = some v ∧
        ∀ members, v = .object members → members.lookup "spec" = none ∧ members.lookup "root" = none) ∧
      ((∃ fault, read text = .error (.invalidTree fault)) ↔ ∃ v design block, Json.parse text = some v ∧
        Candidate v design block ∧ ¬Fits .tree design) ∧
      ((∃ e, read text = .ok e) ↔ ∃ v design block, Json.parse text = some v ∧
        Candidate v design block ∧ Fits .tree design) ∧
      ∀ v design block e, Json.parse text = some v → Candidate v design block → read text = .ok e →
        Tree.decode design = .ok e.tree ∧ e.metadata = Metadata.ofBlock block := by
  simp only [← not_candidate_iff]
  have outcome := reading text
  generalize read text = result at outcome
  cases outcome with
  | notJson none =>
    rw [none]
    exact ⟨iff_of_true ⟨_, rfl⟩ rfl, iff_of_false nofun nofun, iff_of_false nofun nofun, iff_of_false nofun nofun,
      nofun⟩
  | missingTree parsed nowhere =>
    rw [parsed]
    refine ⟨iff_of_false nofun nofun, iff_of_true rfl ⟨_, rfl, nowhere⟩, iff_of_false nofun ?_,
      iff_of_false nofun ?_, nofun⟩
    · rintro ⟨_, design, block, ⟨⟩, candidate, -⟩
      exact nowhere design block candidate
    · rintro ⟨_, design, block, ⟨⟩, candidate, -⟩
      exact nowhere design block candidate
  | invalidTree parsed candidate unfit =>
    rw [parsed]
    refine ⟨iff_of_false nofun nofun, iff_of_false nofun ?_, iff_of_true ⟨_, rfl⟩ ⟨_, _, _, rfl, candidate, unfit⟩,
      iff_of_false nofun ?_, nofun⟩
    · rintro ⟨_, ⟨⟩, nowhere⟩
      exact nowhere _ _ candidate
    · rintro ⟨_, design, block, ⟨⟩, other, fits⟩
      rw [(other.unique candidate).1] at fits
      exact unfit fits
  | tree parsed candidate fits decoded =>
    rw [parsed]
    refine ⟨iff_of_false nofun nofun, iff_of_false nofun ?_, iff_of_false nofun ?_,
      iff_of_true ⟨_, rfl⟩ ⟨_, _, _, rfl, candidate, fits⟩, ?_⟩
    · rintro ⟨_, ⟨⟩, nowhere⟩
      exact nowhere _ _ candidate
    · rintro ⟨_, design, block, ⟨⟩, other, unfit⟩
      rw [(other.unique candidate).1] at unfit
      exact unfit fits
    · rintro _ design block _ ⟨⟩ other ⟨⟩
      obtain ⟨rfl, rfl⟩ := other.unique candidate
      exact ⟨decoded, rfl⟩

end Handoff.Archive
