import SchemaPlan.Naming.Table
import SchemaPlan.Proofs.Naming.Plural
import SchemaPlan.Proofs.Naming.Word

/-!
# Names that differ in case

Case decides where a name is cut into words, so names of the same letters may get different tables in
snake case. They do just if they are cut at different places: plurals do not bring them together.
-/

namespace SchemaPlan

/-- The names differ at most in the case of their letters. -/
def Identifier.SameLetters (a b : Identifier) : Prop :=
  a.text.toList.map Char.toLower = b.text.toList.map Char.toLower

/-- The names are cut into as many words, of the same lengths. -/
def Identifier.CutAlike (a b : Identifier) : Prop :=
  (Naming.words a.text.toList).map List.length = (Naming.words b.text.toList).map List.length

instance (a b : Identifier) : Decidable (a.SameLetters b) := inferInstanceAs (Decidable (_ = _))

instance (a b : Identifier) : Decidable (a.CutAlike b) := inferInstanceAs (Decidable (_ = _))

namespace Naming

/-- The last word apart, a word in lower case has the same words as its plural in lower case. -/
theorem Inflected.dropLast_splitOn {word inflected : List Char} (h : Inflected word inflected)
    (lower : word.map Char.toLower = word) :
    ((inflected.map Char.toLower).splitOn '_').dropLast = (word.splitOn '_').dropLast := by
  cases h with
  | @intro stem ending inflection letters letters' _ =>
    have stemLower : stem.map Char.toLower = stem := by
      rw [List.map_append] at lower
      exact (List.append_inj lower (List.length_map _)).1
    have lowered : Letters (inflection.map Char.toLower) := by
      intro c hc
      obtain ⟨d, hd, rfl⟩ := List.mem_map.mp hc
      rw [isAlpha_toLower]
      exact letters' d hd
    rw [List.map_append, stemLower, dropLast_splitOn_append lowered, dropLast_splitOn_append letters]

theorem eq_of_dropLast_eq {α : Type} {ws vs : List (List α)} (solid : ws ≠ []) (solid' : vs ≠ [])
    (front : ws.dropLast = vs.dropLast) (whole : ws.flatten = vs.flatten) : ws = vs := by
  rw [← List.dropLast_concat_getLast solid, ← List.dropLast_concat_getLast solid'] at whole ⊢
  rw [List.flatten_append, List.flatten_append, front, List.append_cancel_left_eq] at whole
  rw [front, List.append_cancel_left_eq]
  simpa using whole

theorem lowerWords_eq_nil_iff {cs : List Char} : lowerWords cs = [] ↔ (lowerWords cs).flatten = [] := by
  constructor
  · intro none
    rw [none, List.flatten_nil]
  · intro none
    apply List.eq_nil_iff_forall_not_mem.mpr
    intro w hw
    exact ne_nil_of_mem_lowerWords hw (List.flatten_eq_nil_iff.mp none w hw)

variable {cs ds : List Char}

theorem flatten_lowerWords_congr (same : cs.map Char.toLower = ds.map Char.toLower) :
    (lowerWords cs).flatten = (lowerWords ds).flatten := by
  have marks (cs : List Char) : (cs.filter (· ≠ '_')).map Char.toLower =
      (cs.map Char.toLower).filter (· ≠ '_') := by
    simp [List.filter_map, Function.comp_def, toLower_eq_underscore_iff]
  rw [flatten_lowerWords, flatten_lowerWords, marks, marks, same]

/-- Plurals in snake case tell apart names whose words differ. -/
theorem plural_snakeCase_iff (same : cs.map Char.toLower = ds.map Char.toLower) :
    (plural (snakeCase cs)).map Char.toLower = (plural (snakeCase ds)).map Char.toLower ↔
      lowerWords cs = lowerWords ds := by
  have letters := flatten_lowerWords_congr same
  constructor
  · intro plurals
    by_cases none : lowerWords cs = []
    · rw [none, eq_comm, lowerWords_eq_nil_iff, ← letters, none, List.flatten_nil]
    · have none' : lowerWords ds ≠ [] := by
        rwa [ne_eq, lowerWords_eq_nil_iff, ← letters, ← lowerWords_eq_nil_iff]
      -- The plurals give all words but the last, and the letters of the names give that one.
      have front := (inflected_plural _).dropLast_splitOn (map_toLower_snakeCase cs)
      rw [plurals, (inflected_plural _).dropLast_splitOn (map_toLower_snakeCase ds),
        splitOn_snakeCase none, splitOn_snakeCase none'] at front
      exact eq_of_dropLast_eq none none' front.symm letters
  · intro words
    have snake : snakeCase cs = snakeCase ds := congrArg (['_'].intercalate ·) words
    rw [snake]

theorem lowerWords_eq_iff (same : cs.map Char.toLower = ds.map Char.toLower) :
    lowerWords cs = lowerWords ds ↔
      (words cs).map List.length = (words ds).map List.length := by
  have lengths (cs : List Char) :
      (lowerWords cs).map List.length = (words cs).map List.length := by
    simp [lowerWords, Function.comp_def]
  rw [List.eq_iff_flatten_eq, lengths, lengths]
  exact and_iff_right (flatten_lowerWords_congr same)

end Naming

/-- Tables named after the same letters are told apart only in snake case, by the cuts between words. -/
theorem TableNaming.toLower_tableName_iff {a b : Identifier} (n : TableNaming)
    (same : a.SameLetters b) :
    (n.tableName a).toLower = (n.tableName b).toLower ↔ (n = .snakePlural → a.CutAlike b) := by
  have lists (s t : String) :
      s.toLower = t.toLower ↔ s.toList.map Char.toLower = t.toList.map Char.toLower := by
    unfold String.toLower
    rw [← String.toList_inj, String.toList_map, String.toList_map]
  rw [lists]
  cases n with
  | asDeclared => exact iff_of_true same fun h => by cases h
  | snakePlural =>
    rw [forall_prop_of_true rfl, Identifier.CutAlike, ← Naming.lowerWords_eq_iff same,
      ← Naming.plural_snakeCase_iff same]
    simp only [tableName, String.toList_ofList]

end SchemaPlan
