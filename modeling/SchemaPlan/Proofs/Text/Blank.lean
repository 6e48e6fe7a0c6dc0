import Mathlib.Data.List.DropRight
import SchemaPlan.Text.Blank

/-!
# Trimmed texts

A text that does not change when it is trimmed is one with no blank at either end. What stands between
an opening and a closing is found exactly if the text is made of the three.
-/

namespace SchemaPlan.Text

/-- No blank stands at either end. -/
def Trimmed (cs : List Char) : Prop :=
  (∀ c ∈ cs.head?, ¬ isBlank c) ∧ ∀ c ∈ cs.getLast?, ¬ isBlank c

theorem prefix_trimEnd (cs : List Char) : trimEnd cs <+: cs := List.rdropWhile_prefix isBlank cs

theorem head?_trimStart (cs : List Char) : ∀ c ∈ (trimStart cs).head?, ¬ isBlank c := by
  intro c hc
  have := List.head?_dropWhile_not isBlank cs
  rw [Option.mem_def] at hc
  simpa [show cs.dropWhile isBlank = trimStart cs from rfl, hc] using this

theorem getLast?_trimEnd (cs : List Char) : ∀ c ∈ (trimEnd cs).getLast?, ¬ isBlank c := by
  intro c hc
  simp only [trimEnd, List.getLast?_reverse] at hc
  exact head?_trimStart cs.reverse c hc

theorem trimStart_eq_self {cs : List Char} (h : ∀ c ∈ cs.head?, ¬ isBlank c) :
    trimStart cs = cs := by
  cases cs with
  | nil => rfl
  | cons c cs => exact List.dropWhile_cons_of_neg (h c rfl)

theorem trimEnd_eq_self {cs : List Char} (h : ∀ c ∈ cs.getLast?, ¬ isBlank c) :
    trimEnd cs = cs := by
  have reversed : trimStart cs.reverse = cs.reverse := trimStart_eq_self (by simpa using h)
  rw [trimStart] at reversed
  rw [trimEnd, reversed, List.reverse_reverse]

/-- Trimming at the end does not bring a blank to the start. -/
theorem head?_trimEnd {cs : List Char} (h : ∀ c ∈ cs.head?, ¬ isBlank c) :
    ∀ c ∈ (trimEnd cs).head?, ¬ isBlank c := by
  obtain ⟨blanks, whole⟩ := prefix_trimEnd cs
  intro c hc
  apply h
  rw [← whole, List.head?_append, Option.mem_def.mp hc]
  rfl

theorem trimmed_trim (s : String) : Trimmed (trim s).toList := by
  rw [toList_trim]
  exact ⟨head?_trimEnd (head?_trimStart _), getLast?_trimEnd _⟩

theorem trim_eq_self_iff {s : String} : trim s = s ↔ Trimmed s.toList := by
  constructor
  · intro h
    rw [← h]
    exact trimmed_trim s
  · rintro ⟨start, stop⟩
    rw [trim, trimStart_eq_self start, trimEnd_eq_self stop, String.ofList_toList]

theorem trim_trim (s : String) : trim (trim s) = trim s := trim_eq_self_iff.mpr (trimmed_trim s)

theorem mem_of_mem_trim {s : String} {c : Char} (h : c ∈ (trim s).toList) : c ∈ s.toList := by
  rw [toList_trim] at h
  exact (List.dropWhile_sublist isBlank).mem ((prefix_trimEnd _).mem h)

theorem trim_eq_empty_iff {s : String} : trim s = "" ↔ ∀ c ∈ s.toList, isBlank c := by
  rw [← String.toList_inj, toList_trim]
  have : trimEnd (trimStart s.toList) = [] ↔ ∀ c ∈ trimStart s.toList, isBlank c :=
    List.rdropWhile_eq_nil_iff
  rw [String.toList_empty, this]
  constructor
  · intro h c hc
    by_contra notBlank
    have kept : c ∈ trimStart s.toList := by
      rw [← List.takeWhile_append_dropWhile (p := isBlank) (l := s.toList)] at hc
      apply (List.mem_append.mp hc).resolve_left
      intro dropped
      exact notBlank (List.mem_takeWhile_imp dropped)
    exact notBlank (h c kept)
  · intro h c hc
    exact h c ((List.dropWhile_sublist isBlank).mem hc)

theorem between?_eq_some_iff {opening closing s inner : String} :
    between? opening closing s = some inner ↔ s = opening ++ inner ++ closing := by
  simp only [between?, Option.map_eq_some_iff, Option.bind_eq_some_iff,
    List.isPrefixOf?_eq_some_iff_append_eq, List.isSuffixOf?_eq_some_iff_append_eq,
    ← String.toList_inj, String.toList_append]
  constructor
  · rintro ⟨cs, ⟨rest, whole, rfl⟩, inside⟩
    rw [← whole, ← inside, String.toList_ofList, List.append_assoc]
  · intro whole
    refine ⟨inner.toList, ⟨inner.toList ++ closing.toList, ?_, rfl⟩, by simp⟩
    rw [whole, List.append_assoc]

end SchemaPlan.Text
