import Handoff.Proofs.Token.Sightings

set_option autoImplicit false
set_option relaxedAutoImplicit false

/-!
What the names of tokens are made of.

A name begins with a stem that tells its class. Behind the stem are letters, digits and hyphens, or else the words of a
font family or weight, whatever characters these have.
-/

namespace Handoff.Token
open Design Allocator

section Drafts

variable {α : Type} [DecidableEq α] {options : Options} {le : α × Nat → α × Nat → Bool} {uses : List α}

theorem mem_gather_iff {a : α} : a ∈ (gather options le uses).map Prod.fst ↔ a ∈ uses := by
  unfold gather
  split
  · rw [((List.mergeSort_perm (tally uses) le).map Prod.fst).mem_iff]
    exact (tally_accounts uses).values a
  · simp

variable {name : α → Nat → Nat → String} {token : α → Nat → DesignToken}

theorem exists_use {d : Draft} (member : d ∈ draft name token (gather options le uses)) :
    ∃ a ∈ uses, ∃ rank count, d = ⟨name a rank count, token a count⟩ := by
  obtain ⟨⟨⟨a, count⟩, index⟩, place, rfl⟩ := List.mem_map.mp member
  exact ⟨a, mem_gather_iff.mp (List.mem_map_of_mem (List.fst_mem_of_mem_zipIdx place)), index + 1, count, rfl⟩

theorem exists_draft {a : α} (used : a ∈ uses) :
    ∃ rank count, ⟨name a rank count, token a count⟩ ∈ draft name token (gather options le uses) := by
  have known : a ∈ (gather options le uses).map Prod.fst := mem_gather_iff.mpr used
  obtain ⟨⟨_, count⟩, there, rfl⟩ := List.mem_map.mp known
  obtain ⟨index, place⟩ := List.mem_iff_getElem?.mp there
  exact ⟨index + 1, count, List.mem_map_of_mem (List.mk_mem_zipIdx_iff_getElem?.mpr place)⟩

end Drafts

section Stems

def stems : TokenClass → List String
  | .color => ["primary-", "gray-", "accent-", "color-"]
  | .typography => ["text-", "font-size-"]
  | .fontFamily => ["font-"]
  | .fontWeight => ["font-weight-"]
  | .spacing => ["spacing-"]
  | .radius => ["radius-"]
  | .opacity => ["opacity-"]

def familySlug (family : String) : String :=
  Text.Words.kebab (String.ofList (primaryFamily family))

def weightSlug (weight : String) : String :=
  Text.Words.kebab (Text.trim weight)

/-- The words that a design has for the names of a class. -/
def slugs (options : Options) (usage : Usage) : TokenClass → List String
  | .fontFamily => if options.semantic then usage.families.map familySlug else []
  | .fontWeight => if options.semantic then usage.weights.map weightSlug else []
  | _ => []

theorem mem_slugs_family {options : Options} {usage : Usage} {slug : String} :
    slug ∈ slugs options usage .fontFamily ↔
      options.semantic = true ∧ ∃ family ∈ usage.families, familySlug family = slug := by
  change slug ∈ (if options.semantic then usage.families.map familySlug else []) ↔ _
  split
  · rename_i semantic
    rw [List.mem_map, and_iff_right semantic]
  · rename_i numbered
    exact iff_of_false List.not_mem_nil fun both => numbered both.1

theorem mem_slugs_weight {options : Options} {usage : Usage} {slug : String} :
    slug ∈ slugs options usage .fontWeight ↔
      options.semantic = true ∧ ∃ weight ∈ usage.weights, weightSlug weight = slug := by
  change slug ∈ (if options.semantic then usage.weights.map weightSlug else []) ↔ _
  split
  · rename_i semantic
    rw [List.mem_map, and_iff_right semantic]
  · rename_i numbered
    exact iff_of_false List.not_mem_nil fun both => numbered both.1

def Ordinary (s : String) : Prop :=
  ∀ c ∈ s.toList, c.isAlphanum = true ∨ c = '-'

instance (s : String) : Decidable (Ordinary s) :=
  List.decidableBAll _ _

theorem ordinary_append {s t : String} : Ordinary (s ++ t) ↔ Ordinary s ∧ Ordinary t := by
  simp only [Ordinary, String.toList_append, List.forall_mem_append]

theorem ordinary_toString (n : Nat) : Ordinary (toString n) := by
  intro c member
  rw [Nat.toString_eq_ofList_toDigits, String.toList_ofList] at member
  exact .inl (by simp [Char.isAlphanum, Numeral.isDigit_of_mem_toDigits member])

/-- A text that begins as the names of a class do and has nothing unusual in it. -/
private def Common (c : TokenClass) (base : String) : Prop :=
  ∃ stem ∈ stems c, stem.toList <+: base.toList ∧ Ordinary base

private instance (c : TokenClass) (base : String) : Decidable (Common c base) :=
  List.decidableBEx _ _

private theorem common_append {c : TokenClass} (stem : String) (known : stem ∈ stems c) (plain : Ordinary stem)
    {rest : String} (ordinary : Ordinary rest) : Common c (stem ++ rest) :=
  ⟨stem, known, by simp, ordinary_append.mpr ⟨plain, ordinary⟩⟩

private theorem common_find? {α : Type} {c : TokenClass} {p : α → Bool} {scale : List α} (name : α → String) {a : α}
    (found : scale.find? p = some a) (all : ∀ a ∈ scale, Common c (name a)) : Common c (name a) :=
  all a (List.mem_of_find?_eq_some found)

private theorem common_color (value : String) (rank count : Nat) : Common .color (colorName value rank count) := by
  have ranks : Common .color (ranked (if 5 < count then "primary" else "accent") rank) := by
    split
    · exact common_append "primary-" (by decide) (by decide) (ordinary_toString rank)
    · exact common_append "accent-" (by decide) (by decide) (ordinary_toString rank)
  have grays (n : Nat) : Common .color ("gray-" ++ toString n) :=
    common_append "gray-" (by decide) (by decide) (ordinary_toString n)
  have named : ∀ hue ∈ hues, Common .color hue.2 := by decide
  unfold colorName
  dsimp only
  split
  · split
    · rename_i name found
      exact named _ (Entries.mem_of_lookup found)
    · cases grayLevel? _ with
      | none => exact ranks
      | some level => exact grays _
  · exact ranks

private theorem common_fontSize (px : Float) (rank : Nat) : Common .typography (fontSizeName px rank) := by
  unfold fontSizeName
  split
  · rename_i step found
    exact common_find? Prod.snd found (by decide)
  · exact common_append "font-size-" (by decide) (by decide) (ordinary_toString rank)

private theorem common_spacing (px : Float) (rank : Nat) : Common .spacing (spacingName px rank) := by
  unfold spacingName
  split
  · exact common_append "spacing-" (by decide) (by decide) (ordinary_toString _)
  · have custom : Ordinary ("custom-" ++ toString rank) := ordinary_append.mpr ⟨by decide, ordinary_toString rank⟩
    have form : ranked "spacing-custom" rank = "spacing-" ++ ("custom-" ++ toString rank) := by
      rw [← String.append_assoc]
      rfl
    rw [form]
    exact common_append "spacing-" (by decide) (by decide) custom

private theorem common_radius (px : Float) (rank : Nat) : Common .radius (radiusName px rank) := by
  unfold radiusName
  split
  · rename_i step found
    exact common_find? Prod.snd found (by decide)
  · split
    · decide
    · exact common_append "radius-" (by decide) (by decide) (ordinary_toString rank)

private theorem common_opacity (opacity : Float) : Common .opacity (opacityName opacity) := by
  unfold opacityName
  dsimp only
  split
  · exact common_append "opacity-" (by decide) (by decide) (ordinary_toString _)
  · decide

/-- A base for a class: it begins with a stem, and what is unusual in it is one of the slugs. -/
def Shaped (options : Options) (usage : Usage) (c : TokenClass) (base : String) : Prop :=
  ∃ stem ∈ stems c, stem.toList <+: base.toList ∧
    (Ordinary base ∨ ∃ slug ∈ slugs options usage c, slug ≠ "" ∧ base = stem ++ slug)

private theorem Common.shaped {options : Options} {usage : Usage} {c : TokenClass} {base : String} (h : Common c base) :
    Shaped options usage c base := by
  obtain ⟨stem, known, starts, ordinary⟩ := h
  exact ⟨stem, known, starts, .inl ordinary⟩

private theorem common_ite {options : Options} {c : TokenClass} {telling numbered : String} (first : Common c telling)
    (second : Common c numbered) : Common c (if options.semantic then telling else numbered) := by
  split
  · exact first
  · exact second

private theorem base_words {options : Options} {usage : Usage} {c : TokenClass} {stem slug : String} (unnamed : String)
    (member : options.semantic = true → slug ∈ slugs options usage c) {telling : String}
    (form : telling = if slug = "" then unnamed else stem ++ slug) :
    (if options.semantic then telling else unnamed) = unnamed ∨ ∃ slug ∈ slugs options usage c, slug ≠ "" ∧
      (if options.semantic then telling else unnamed) = stem ++ slug := by
  split
  · rename_i semantic
    split at form
    · exact .inl form
    · rename_i some
      exact .inr ⟨slug, member semantic, some, form⟩
  · exact .inl rfl

theorem base_family {options : Options} {usage : Usage} {d : Draft} (member : d ∈ drafts options usage .fontFamily) :
    (∃ rank, d.base = ranked "font-family" rank) ∨
      ∃ slug ∈ slugs options usage .fontFamily, slug ≠ "" ∧ d.base = "font-" ++ slug := by
  rw [drafts] at member
  obtain ⟨family, used, rank, count, rfl⟩ := exists_use member
  have form : fontFamilyName family rank =
      if familySlug family = "" then ranked "font-family" rank else "font-" ++ familySlug family := rfl
  have slug (semantic : options.semantic = true) : familySlug family ∈ slugs options usage .fontFamily :=
    mem_slugs_family.mpr ⟨semantic, family, used, rfl⟩
  exact (base_words (ranked "font-family" rank) slug form).imp_left fun same => ⟨rank, same⟩

theorem base_weight {options : Options} {usage : Usage} {d : Draft} (member : d ∈ drafts options usage .fontWeight) :
    (∃ rank, d.base = ranked "font-weight" rank) ∨
      ∃ slug ∈ slugs options usage .fontWeight, slug ≠ "" ∧ d.base = "font-weight-" ++ slug := by
  rw [drafts] at member
  obtain ⟨weight, used, rank, count, rfl⟩ := exists_use member
  have form : fontWeightName weight rank =
      if weightSlug weight = "" then ranked "font-weight" rank else "font-weight-" ++ weightSlug weight := rfl
  have slug (semantic : options.semantic = true) : weightSlug weight ∈ slugs options usage .fontWeight :=
    mem_slugs_weight.mpr ⟨semantic, weight, used, rfl⟩
  exact (base_words (ranked "font-weight" rank) slug form).imp_left fun same => ⟨rank, same⟩

theorem shaped_draft {options : Options} {usage : Usage} {c : TokenClass} {d : Draft}
    (member : d ∈ drafts options usage c) : Shaped options usage c d.base := by
  have ranks {stem : String} (rank : Nat) (known : stem ++ "-" ∈ stems c) (plain : Ordinary (stem ++ "-")) :
      Common c (ranked stem rank) := common_append _ known plain (ordinary_toString rank)
  cases c with
  | color =>
    rw [drafts] at member
    obtain ⟨value, -, rank, count, rfl⟩ := exists_use member
    exact (common_ite (common_color value rank count) (ranks rank (by decide) (by decide))).shaped
  | typography =>
    rw [drafts] at member
    obtain ⟨size, -, rank, count, rfl⟩ := exists_use member
    exact (common_ite (common_fontSize size rank) (ranks rank (by decide) (by decide))).shaped
  | fontFamily =>
    rcases base_family member with ⟨rank, unnamed⟩ | ⟨slug, there, some, named⟩
    · rw [unnamed]
      have plain : Ordinary ("family-" ++ toString rank) := ordinary_append.mpr ⟨by decide, ordinary_toString rank⟩
      exact (common_append "font-" (by decide) (by decide) plain).shaped
    · exact ⟨"font-", by decide, by simp [named], .inr ⟨slug, there, some, named⟩⟩
  | fontWeight =>
    rcases base_weight member with ⟨rank, unnamed⟩ | ⟨slug, there, some, named⟩
    · rw [unnamed]
      exact (ranks rank (by decide) (by decide)).shaped
    · exact ⟨"font-weight-", by decide, by simp [named], .inr ⟨slug, there, some, named⟩⟩
  | spacing =>
    rw [drafts] at member
    obtain ⟨px, -, rank, count, rfl⟩ := exists_use member
    exact (common_ite (common_spacing px rank) (ranks rank (by decide) (by decide))).shaped
  | radius =>
    rw [drafts] at member
    obtain ⟨px, -, rank, count, rfl⟩ := exists_use member
    exact (common_ite (common_radius px rank) (ranks rank (by decide) (by decide))).shaped
  | opacity =>
    rw [drafts] at member
    obtain ⟨opacity, -, rank, count, rfl⟩ := exists_use member
    exact (common_ite (common_opacity opacity) (ranks rank (by decide) (by decide))).shaped

theorem exists_draft_of_slug {options : Options} {usage : Usage} {c : TokenClass} {slug : String}
    (member : slug ∈ slugs options usage c) (some : slug ≠ "") :
    ∃ d ∈ drafts options usage c, ∃ stem ∈ stems c, d.base = stem ++ slug := by
  cases c with
  | fontFamily =>
    obtain ⟨semantic, family, used, rfl⟩ := mem_slugs_family.mp member
    rw [drafts]
    obtain ⟨rank, count, there⟩ := exists_draft used
    refine ⟨_, there, "font-", by decide, ?_⟩
    dsimp only
    rw [if_pos semantic, fontFamilyName]
    exact if_neg some
  | fontWeight =>
    obtain ⟨semantic, weight, used, rfl⟩ := mem_slugs_weight.mp member
    rw [drafts]
    obtain ⟨rank, count, there⟩ := exists_draft used
    refine ⟨_, there, "font-weight-", by decide, ?_⟩
    dsimp only
    rw [if_pos semantic, fontWeightName, wordName]
    exact if_neg some
  | color | typography | spacing | radius | opacity => cases member

end Stems

end Handoff.Token
