import Mathlib.Data.List.DropRight
import SchemaPlan.Files.Path
import SchemaPlan.Proofs.Runs

/-!
# Folders around a path

The folders that a path lies in are reached by fewer of its steps.
-/

namespace SchemaPlan

namespace Files

/-- The steps that pieces of a path stand for. -/
def names (pieces : List (List Char)) : List String :=
  (pieces.filter (!·.isEmpty)).map .ofList

theorem names_mono {ps qs : List (List Char)} (h : ps <+: qs) : names ps <+: names qs :=
  (h.filter _).map _

theorem steps_ofPieces {ps : List (List Char)} (h : ∀ p ∈ ps, '/' ∉ p) :
    steps (ofPieces ps) = names ps := by
  unfold steps ofPieces
  rw [String.toList_ofList]
  by_cases none : ps = []
  · rw [none]
    rfl
  · rw [List.splitOn_intercalate '/' h none]
    rfl

theorem trimPieces_isPrefix (ps : List (List Char)) : trimPieces ps <+: ps := by
  cases ps with
  | nil => exact List.prefix_rfl
  | cons first rest => exact (List.prefix_cons_inj first).mpr (List.rdropWhile_prefix _ rest)

theorem parentPieces_isPrefix (ps : List (List Char)) : parentPieces ps <+: ps :=
  (trimPieces_isPrefix _).trans ((List.dropLast_prefix _).trans (trimPieces_isPrefix ps))

/-- Going to the parent takes a step off, unless none is left. -/
theorem names_parentPieces_isPrefix (ps : List (List Char)) :
    names (parentPieces ps) <+: (names ps).dropLast := by
  cases ps with
  | nil => exact List.prefix_rfl
  | cons first rest =>
    let leadsNowhere (p : List Char) : Bool := p.isEmpty || p == ['.']
    let kept := rest.rdropWhile leadsNowhere
    have trimmed : trimPieces (first :: rest) = first :: kept := rfl
    rw [parentPieces, trimmed]
    by_cases only : kept = []
    · rw [only]
      exact List.nil_prefix
    · have named : (kept.getLast only).isEmpty = false := by
        have leads := List.rdropWhile_last_not leadsNowhere rest only
        simp only [leadsNowhere, Bool.or_eq_true, not_or] at leads
        exact Bool.eq_false_iff.mpr leads.1
      have split : names (first :: kept) =
          names (first :: kept).dropLast ++ [.ofList (kept.getLast only)] := by
        conv_lhs => rw [← List.dropLast_append_getLast (List.cons_ne_nil first kept)]
        rw [List.getLast_cons only, names, List.filter_append, List.map_append]
        simp [names, named]
      have fewer : names (first :: kept).dropLast <+: (names (first :: rest)).dropLast := by
        have whole := names_mono (trimmed ▸ trimPieces_isPrefix (first :: rest))
        obtain ⟨more, whole⟩ := whole
        rw [← whole, split, List.append_assoc, List.singleton_append,
          List.dropLast_append_of_ne_nil (List.cons_ne_nil _ _)]
        exact List.prefix_append _ _
      exact (names_mono (trimPieces_isPrefix _)).trans fewer

theorem steps_isPrefix_of_mem_outward {ps : List (List Char)} (h : ∀ p ∈ ps, '/' ∉ p)
    {path : String} (mem : path ∈ outward ps) : steps path <+: names ps := by
  fun_induction outward ps with
  | case1 => cases mem
  | case2 => cases mem
  | case3 first rest more ih =>
    rcases List.mem_cons.mp mem with rfl | mem
    · exact ⟨[], by rw [List.append_nil, steps_ofPieces h]⟩
    · have inner := parentPieces_isPrefix (first :: rest)
      exact (ih (fun p hp => h p (inner.subset hp)) mem).trans (names_mono inner)

/-- The folders that a file at a path needs are on the way to it. -/
theorem steps_isPrefix_of_mem_folders {path folder : String} (h : folder ∈ folders (parent path)) :
    steps folder <+: (steps path).dropLast := by
  let ps := path.toList.splitOn '/'
  have noSlash : ∀ p ∈ ps, '/' ∉ p := fun p hp => not_mem_of_mem_splitOn hp
  have noSlash' : ∀ p ∈ parentPieces ps, '/' ∉ p :=
    fun p hp => noSlash p ((parentPieces_isPrefix ps).subset hp)
  have steps_parent : steps (parent path) = names (parentPieces ps) := steps_ofPieces noSlash'
  have outer : steps folder <+: steps (parent path) :=
    steps_isPrefix_of_mem_outward (fun p hp => not_mem_of_mem_splitOn hp) h
  rw [steps_parent] at outer
  exact outer.trans (names_parentPieces_isPrefix ps)

end Files

end SchemaPlan
