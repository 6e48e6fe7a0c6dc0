import SchemaPlan.Naming.Snake

/-!
# Words of a name

The words that a name is cut into hold its characters, underscores left out, in their order. Written
in snake case they stand apart again.
-/

namespace SchemaPlan.Naming

theorem flatten_splitOn (cs : List Char) : (cs.splitOn '_').flatten = cs.filter (· ≠ '_') := by
  induction cs with
  | nil => rfl
  | cons c cs ih =>
    rw [List.splitOn_cons_eq_if_modifyHead]
    by_cases underscore : c = '_'
    · simpa [underscore] using ih
    · obtain ⟨piece, rest, split⟩ := List.exists_cons_of_ne_nil (List.splitOn_ne_nil '_' cs)
      rw [split] at ih
      simpa [underscore, split] using ih

theorem flatten_cutWords (mode : LetterCase) (word : List Char) {cs : List Char} (solid : cs ≠ []) :
    (cutWords mode word cs).flatten = word ++ cs := by
  fun_induction cutWords mode word cs with
  | case1 => exact absurd rfl solid
  | case2 => simp
  | case3 _ word c next rest _ ih => simp [ih]
  | case4 _ word c next rest _ _ ih => simp [ih]
  | case5 _ word c next rest _ _ ih => simp [ih]

/-- A word ends before a capital only in a run of capitals, of which it holds one. -/
theorem ne_nil_of_mem_cutWords {mode : LetterCase} {word cs w : List Char}
    (begun : mode = .upper → word ≠ []) (h : w ∈ cutWords mode word cs) : w ≠ [] := by
  fun_induction cutWords mode word cs with
  | case1 => cases h
  | case2 =>
    rw [List.mem_singleton.mp h]
    simp
  | case3 _ word c next rest _ ih =>
    rcases List.mem_cons.mp h with rfl | h
    · simp
    · exact ih (by simp) h
  | case4 _ word c next rest _ run ih =>
    rcases List.mem_cons.mp h with rfl | h
    · exact begun run.1
    · exact ih (by simp) h
  | case5 _ word c next rest _ _ ih => exact ih (by simp) h

theorem flatten_words (cs : List Char) : (words cs).flatten = cs.filter (· ≠ '_') := by
  have whole : List.flatten ∘ cutWords .none [] = id := by
    funext piece
    cases piece with
    | nil => rfl
    | cons c cs => exact flatten_cutWords _ _ (by simp)
  rw [words, List.flatMap_def, List.flatten_flatten, List.map_map, whole, List.map_id,
    flatten_splitOn]

theorem ne_nil_of_mem_words {cs w : List Char} (h : w ∈ words cs) : w ≠ [] := by
  obtain ⟨piece, -, mem⟩ := List.mem_flatMap.mp h
  exact ne_nil_of_mem_cutWords (by simp) mem

theorem not_mem_of_mem_words {cs w : List Char} (h : w ∈ words cs) : '_' ∉ w := by
  intro underscore
  have kept : '_' ∈ (words cs).flatten := List.mem_flatten_of_mem h underscore
  rw [flatten_words] at kept
  simp at kept

theorem isUpper_iff {c : Char} : c.isUpper ↔ 65 ≤ c.toNat ∧ c.toNat ≤ 90 := by
  unfold Char.isUpper
  simp [UInt32.le_iff_toNat_le]

theorem isLower_iff {c : Char} : c.isLower ↔ 97 ≤ c.toNat ∧ c.toNat ≤ 122 := by
  unfold Char.isLower
  simp [UInt32.le_iff_toNat_le]

/-- A capital becomes a small letter, and any other character stays. -/
theorem toLower_cases (c : Char) :
    ¬ c.isUpper ∧ c.toLower = c ∨ c.isUpper ∧ c.toLower.isLower := by
  have range : c.isUpper ↔ c.val ≥ 'A'.val ∧ c.val ≤ 'Z'.val := by
    unfold Char.isUpper
    simp
  by_cases upper : c.isUpper
  · have bounds := isUpper_iff.mp upper
    have moved : c.toLower.toNat = (c.toNat + 32) % 2 ^ 32 := by
      unfold Char.toLower
      rw [dif_pos (range.mp upper)]
      rfl
    refine .inr ⟨upper, isLower_iff.mpr ?_⟩
    omega
  · exact .inl ⟨upper, dif_neg (mt range.mpr upper)⟩

theorem toLower_eq_self {c : Char} (h : ¬ c.isUpper) : c.toLower = c :=
  (toLower_cases c).elim And.right fun capital => absurd capital.1 h

theorem toLower_toLower (c : Char) : c.toLower.toLower = c.toLower := by
  rcases toLower_cases c with ⟨-, same⟩ | ⟨-, lower⟩
  · rw [same, same]
  · apply toLower_eq_self
    rw [isLower_iff] at lower
    rw [isUpper_iff]
    omega

theorem isAlpha_toLower (c : Char) : c.toLower.isAlpha = c.isAlpha := by
  rcases toLower_cases c with ⟨-, same⟩ | ⟨upper, lower⟩
  · rw [same]
  · unfold Char.isAlpha
    rw [upper, lower, Bool.or_true, Bool.true_or]

theorem toLower_eq_underscore_iff {c : Char} : c.toLower = '_' ↔ c = '_' := by
  constructor
  · intro lowered
    rcases toLower_cases c with ⟨-, same⟩ | ⟨-, lower⟩
    · rw [← same, lowered]
    · rw [lowered] at lower
      cases lower
  · rintro rfl
    rfl

theorem head?_intercalate {separator : List Char} {ws : List (List Char)}
    (solid : ∀ w ∈ ws, w ≠ []) : (separator.intercalate ws).head? = ws.flatten.head? := by
  cases ws with
  | nil => rfl
  | cons w ws =>
    obtain ⟨c, cs, rfl⟩ := List.exists_cons_of_ne_nil (solid w List.mem_cons_self)
    by_cases last : ws = []
    · simp [last]
    · simp [List.intercalate_cons_of_ne_nil last]

theorem mem_intercalate {separator : List Char} {ws : List (List Char)} {c : Char}
    (h : c ∈ separator.intercalate ws) : c ∈ separator ∨ c ∈ ws.flatten := by
  induction ws with
  | nil => cases h
  | cons w ws ih =>
    rw [List.flatten_cons, List.mem_append]
    by_cases last : ws = []
    · rw [last, List.intercalate_singleton] at h
      exact .inr (.inl h)
    · rw [List.intercalate_cons_of_ne_nil last, List.mem_append, List.mem_append] at h
      rcases h with (h | h) | h
      · exact .inr (.inl h)
      · exact .inl h
      · exact (ih h).imp_right .inr

/-- The words of a name in lower case. -/
def lowerWords (cs : List Char) : List (List Char) := (words cs).map (·.map Char.toLower)

theorem flatten_lowerWords (cs : List Char) :
    (lowerWords cs).flatten = (cs.filter (· ≠ '_')).map Char.toLower := by
  rw [lowerWords, ← List.map_flatten, flatten_words]

theorem ne_nil_of_mem_lowerWords {cs w : List Char} (h : w ∈ lowerWords cs) : w ≠ [] := by
  obtain ⟨word, mem, rfl⟩ := List.mem_map.mp h
  simpa using ne_nil_of_mem_words mem

theorem not_mem_of_mem_lowerWords {cs w : List Char} (h : w ∈ lowerWords cs) : '_' ∉ w := by
  obtain ⟨word, mem, rfl⟩ := List.mem_map.mp h
  intro underscore
  obtain ⟨c, hc, lowered⟩ := List.mem_map.mp underscore
  exact not_mem_of_mem_words mem (toLower_eq_underscore_iff.mp lowered ▸ hc)

theorem splitOn_snakeCase {cs : List Char} (solid : lowerWords cs ≠ []) :
    (snakeCase cs).splitOn '_' = lowerWords cs :=
  List.splitOn_intercalate '_' (fun _ => not_mem_of_mem_lowerWords) solid

theorem head?_snakeCase (cs : List Char) :
    (snakeCase cs).head? = (cs.find? (· ≠ '_')).map Char.toLower := by
  have solid : ∀ w ∈ lowerWords cs, w ≠ [] := fun w => ne_nil_of_mem_lowerWords
  have first : (snakeCase cs).head? = (lowerWords cs).flatten.head? := head?_intercalate solid
  rwa [flatten_lowerWords, List.head?_map, List.head?_filter] at first

theorem mem_snakeCase {cs : List Char} {c : Char} (h : c ∈ snakeCase cs) :
    c = '_' ∨ ∃ d ∈ cs, d.toLower = c := by
  refine (mem_intercalate h).imp List.mem_singleton.mp fun mem => ?_
  have lowered : c ∈ (lowerWords cs).flatten := mem
  rw [flatten_lowerWords] at lowered
  obtain ⟨d, hd, same⟩ := List.mem_map.mp lowered
  exact ⟨d, (List.mem_filter.mp hd).1, same⟩

theorem map_toLower_snakeCase (cs : List Char) : (snakeCase cs).map Char.toLower = snakeCase cs := by
  have lower : ∀ c ∈ snakeCase cs, c.toLower = id c := by
    intro c hc
    rcases mem_snakeCase hc with rfl | ⟨d, -, rfl⟩
    · rfl
    · exact toLower_toLower d
  rw [List.map_congr_left lower, List.map_id]

end SchemaPlan.Naming
