import Mathlib.Data.List.TakeWhile

/-!
# Runs and pieces

What a run at the start of a list is when more follows it, and what a list is cut into.
-/

namespace SchemaPlan

variable {α : Type} {p : α → Bool}

theorem head?_dropWhile (as : List α) : ∀ a ∈ (as.dropWhile p).head?, p a = false := by
  intro a ha
  have stop := List.head?_dropWhile_not p as
  rw [Option.mem_def] at ha
  simpa [ha] using stop

section Whole

variable {run rest : List α}

theorem takeWhile_stop (stop : ∀ a ∈ rest.head?, p a = false) : rest.takeWhile p = [] := by
  cases rest with
  | nil => rfl
  | cons a rest => exact List.takeWhile_cons_of_neg (by simp [stop a rfl])

theorem dropWhile_stop (stop : ∀ a ∈ rest.head?, p a = false) : rest.dropWhile p = rest := by
  cases rest with
  | nil => rfl
  | cons a rest => exact List.dropWhile_cons_of_neg (by simp [stop a rfl])

theorem takeWhile_append_stop (inside : ∀ a ∈ run, p a) (stop : ∀ a ∈ rest.head?, p a = false) :
    (run ++ rest).takeWhile p = run := by
  rw [List.takeWhile_append_of_pos inside, takeWhile_stop stop, List.append_nil]

theorem dropWhile_append_stop (inside : ∀ a ∈ run, p a) (stop : ∀ a ∈ rest.head?, p a = false) :
    (run ++ rest).dropWhile p = rest := by
  rw [List.dropWhile_append_of_pos inside, dropWhile_stop stop]

end Whole

section Break

variable {b : α}

theorem takeWhile_append_break (stop : p b = false) (as bs : List α) :
    (as ++ b :: bs).takeWhile p = as.takeWhile p := by
  induction as with
  | nil => simp [stop]
  | cons a as ih => simp only [List.cons_append, List.takeWhile_cons, ih]

theorem dropWhile_append_break (stop : p b = false) (as bs : List α) :
    (as ++ b :: bs).dropWhile p = as.dropWhile p ++ b :: bs := by
  induction as with
  | nil => simp [stop]
  | cons a as ih =>
    simp only [List.cons_append, List.dropWhile_cons, ih]
    split <;> rfl

end Break

/-- What a list is cut into is of its elements, none of which is a cut. -/
theorem mem_splitOnP {as piece : List α} (h : piece ∈ as.splitOnP p) :
    ∀ a ∈ piece, a ∈ as ∧ p a = false := by
  induction as generalizing piece with
  | nil =>
    obtain rfl := List.mem_singleton.mp (List.splitOnP_nil ▸ h)
    simp
  | cons b as ih =>
    have later (h : piece ∈ as.splitOnP p) : ∀ a ∈ piece, a ∈ b :: as ∧ p a = false :=
      fun a ha => ⟨List.mem_cons_of_mem b (ih h a ha).1, (ih h a ha).2⟩
    rw [List.splitOnP_cons_eq_if_modifyHead] at h
    split at h
    · rcases List.mem_cons.mp h with rfl | h
      · simp
      · exact later h
    · next inside =>
      obtain ⟨first, more, pieces⟩ := List.exists_cons_of_ne_nil (List.splitOnP_ne_nil p as)
      rw [pieces] at h ih later
      rcases List.mem_cons.mp h with rfl | h
      · refine List.forall_mem_cons.mpr ⟨⟨List.mem_cons_self, by simpa using inside⟩, fun a ha => ?_⟩
        exact ⟨List.mem_cons_of_mem b (ih List.mem_cons_self a ha).1, (ih List.mem_cons_self a ha).2⟩
      · exact later (List.mem_cons_of_mem _ h)

theorem not_mem_of_mem_splitOn [DecidableEq α] {separator : α} {as piece : List α}
    (h : piece ∈ as.splitOn separator) : separator ∉ piece := by
  intro mem
  simpa using (mem_splitOnP h separator mem).2

theorem filter_splitOnP_break {a : α} (h : p a) (as : List α) :
    ((a :: as).splitOnP p).filter (· ≠ []) = (as.splitOnP p).filter (· ≠ []) := by
  simp [List.splitOnP_cons_eq_if_modifyHead, h]

/-- A piece ends at a cut or with the list. -/
theorem filter_splitOnP_append {piece rest : List α} (solid : piece ≠ [])
    (inside : ∀ a ∈ piece, p a = false) (stop : ∀ a ∈ rest.head?, p a) :
    ((piece ++ rest).splitOnP p).filter (· ≠ []) = piece :: (rest.splitOnP p).filter (· ≠ []) := by
  cases rest with
  | nil =>
    rw [List.append_nil, List.splitOnP_eq_singleton inside]
    simp [solid]
  | cons a rest =>
    have ha : p a := stop a rfl
    rw [filter_splitOnP_break ha, List.splitOnP_append_cons_of_forall_mem inside a ha]
    simp [solid]

end SchemaPlan
