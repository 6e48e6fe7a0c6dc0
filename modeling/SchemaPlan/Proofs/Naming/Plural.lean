import Mathlib.Data.List.Infix
import SchemaPlan.Naming.Plural
import SchemaPlan.Schema.Identifier

/-!
# Endings of plurals

A word and its plural differ in letters at their ends. What stands before these, underscores and
digits among it, is kept.
-/

namespace SchemaPlan.Naming

def Letters (cs : List Char) : Prop := ∀ c ∈ cs, c.isAlpha = true

instance (cs : List Char) : Decidable (Letters cs) :=
  List.decidableBAll (fun c : Char => c.isAlpha = true) cs

/-- The letters at the end of a word give way to others. No word is lost and none comes from
nothing. -/
inductive Inflected : List Char → List Char → Prop
  | intro {stem ending inflection : List Char} : Letters ending → Letters inflection →
      (stem = [] → (ending = [] ↔ inflection = [])) →
      Inflected (stem ++ ending) (stem ++ inflection)

theorem Inflected.refl (word : List Char) : Inflected word word := by
  have none : Letters [] := by simp [Letters]
  have kept : Inflected (word ++ []) (word ++ []) := .intro none none fun _ => .rfl
  rwa [List.append_nil] at kept

/-- A rule takes letters away and puts letters there, and it does not take a whole word away. -/
structure PluralRule.Sound (r : PluralRule) : Prop where
  endings : ∀ ending ∈ r.endings, Letters ending.toList
  plural : Letters r.plural.toList
  kept : r.plural = "" → ∀ ending ∈ r.endings, ending = ""

instance (r : PluralRule) : Decidable r.Sound :=
  decidable_of_iff ((∀ ending ∈ r.endings, Letters ending.toList) ∧ Letters r.plural.toList ∧
      (r.plural = "" → ∀ ending ∈ r.endings, ending = ""))
    ⟨fun h => ⟨h.1, h.2.1, h.2.2⟩, fun h => ⟨h.endings, h.plural, h.kept⟩⟩

theorem sound_of_mem_pluralRules : ∀ r ∈ pluralRules, r.Sound := by decide +kernel

theorem letters_irregular : ∀ e ∈ irregular,
    Letters e.1.toList ∧ Letters e.2.toList ∧ e.1.toList ≠ [] ∧ e.2.toList ≠ [] := by decide +kernel

theorem PluralRule.Sound.inflected {r : PluralRule} (sound : r.Sound) {word inflected : List Char}
    (solid : word ≠ []) (h : r.replace? word = some inflected) : Inflected word inflected := by
  obtain ⟨ending, mem, found⟩ := List.exists_of_findSome?_eq_some h
  obtain ⟨kept, whole, replaced⟩ := Option.bind_eq_some_iff.mp found
  rw [Option.ite_none_right_eq_some, Option.some.injEq] at replaced
  obtain ⟨-, rfl⟩ := replaced
  rw [List.isSuffixOf?_eq_some_iff_append_eq] at whole
  rw [← whole] at solid ⊢
  refine .intro (sound.endings ending mem) sound.plural ?_
  rintro rfl
  refine iff_of_false (by simpa using solid) fun nothing => ?_
  have empty := sound.kept (String.toList_inj.mp nothing) ending mem
  exact solid (by simp [empty])

theorem inflected_plural (word : List Char) : Inflected word (plural word) := by
  simp only [plural]
  split
  · exact .refl word
  · split
    · next singular plural found =>
      have listed := List.mem_of_find?_eq_some found
      have whole : singular.toList = word := by
        have same := List.find?_some found
        rw [← String.toList_ofList (l := word), ← eq_of_beq same]
      obtain ⟨letters, letters', solid, solid'⟩ := letters_irregular _ listed
      subst whole
      show Inflected ([] ++ singular.toList) ([] ++ plural.toList)
      exact .intro letters letters' fun _ => iff_of_false solid solid'
    · split
      · exact .refl word
      · next common =>
        rw [not_or] at common
        cases found : pluralRules.reverse.findSome? (·.replace? word) with
        | none => exact .refl word
        | some inflected =>
          obtain ⟨r, mem, replaced⟩ := List.exists_of_findSome?_eq_some found
          exact (sound_of_mem_pluralRules r (List.mem_reverse.mp mem)).inflected common.1 replaced

theorem isIdentifierPart_of_isAlpha {c : Char} (h : c.isAlpha = true) :
    isIdentifierPart c = true := by
  simp [isIdentifierPart, Char.isAlphanum, h]

theorem isIdentifier_letters {ending : List Char} (letters : Letters ending) :
    isIdentifier ending = true ↔ ending ≠ [] := by
  cases ending with
  | nil => simp [isIdentifier]
  | cons c cs =>
    obtain ⟨first, rest⟩ := List.forall_mem_cons.mp letters
    have parts : ∀ d ∈ cs, isIdentifierPart d = true :=
      fun d hd => isIdentifierPart_of_isAlpha (rest d hd)
    simpa [isIdentifier, isIdentifierStart, first] using parts

theorem isIdentifier_append {stem ending : List Char} (solid : stem ≠ []) (letters : Letters ending) :
    isIdentifier (stem ++ ending) = isIdentifier stem := by
  obtain ⟨c, cs, rfl⟩ := List.exists_cons_of_ne_nil solid
  have parts : ending.all isIdentifierPart = true :=
    List.all_eq_true.mpr fun d hd => isIdentifierPart_of_isAlpha (letters d hd)
  simp [isIdentifier, parts]

theorem Inflected.isIdentifierPart {word inflected : List Char} (h : Inflected word inflected)
    (parts : ∀ c ∈ word, isIdentifierPart c = true) : ∀ c ∈ inflected, isIdentifierPart c = true := by
  cases h with
  | intro _ letters _ =>
    intro c hc
    rcases List.mem_append.mp hc with hc | hc
    · exact parts c (List.mem_append_left _ hc)
    · exact isIdentifierPart_of_isAlpha (letters c hc)

/-- A word and its plural are identifiers together. -/
theorem Inflected.isIdentifier_iff {word inflected : List Char} (h : Inflected word inflected) :
    isIdentifier inflected = true ↔ isIdentifier word = true := by
  cases h with
  | @intro stem ending inflection letters letters' alike =>
    by_cases bare : stem = []
    · rw [bare, List.nil_append, List.nil_append, isIdentifier_letters letters,
        isIdentifier_letters letters', ne_eq, ne_eq, alike bare]
    · rw [isIdentifier_append bare letters, isIdentifier_append bare letters']

theorem Inflected.eq_nil_iff {word inflected : List Char} (h : Inflected word inflected) :
    inflected = [] ↔ word = [] := by
  cases h with
  | @intro stem ending inflection letters letters' alike =>
    rw [List.append_eq_nil_iff, List.append_eq_nil_iff]
    exact and_congr_right fun bare => (alike bare).symm

theorem dropLast_splitOn_append {stem ending : List Char} (letters : Letters ending) :
    ((stem ++ ending).splitOn '_').dropLast = (stem.splitOn '_').dropLast := by
  have shrink (c : Char) (ps : List (List Char)) :
      (ps.modifyHead (c :: ·)).dropLast = ps.dropLast.modifyHead (c :: ·) := by
    rcases ps with _ | ⟨p, _ | ⟨q, ps⟩⟩ <;> rfl
  induction stem with
  | nil =>
    have noMark : '_' ∉ ending := fun mem => by cases letters '_' mem
    rw [List.nil_append, List.splitOn_eq_singleton noMark]
    rfl
  | cons c cs ih =>
    rw [List.cons_append, List.splitOn_cons_eq_if_modifyHead, List.splitOn_cons_eq_if_modifyHead]
    split
    · rw [List.dropLast_cons_of_ne_nil (List.splitOn_ne_nil '_' _),
        List.dropLast_cons_of_ne_nil (List.splitOn_ne_nil '_' _), ih]
    · rw [shrink, shrink, ih]

end SchemaPlan.Naming
