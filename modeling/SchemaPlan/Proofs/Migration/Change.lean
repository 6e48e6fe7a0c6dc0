import SchemaPlan.Migration.Change
import SchemaPlan.Proofs.Schema.Equality

/-!
# Changes between documents
-/

namespace SchemaPlan.Document

theorem diff_self (d : Document) : d.diff d = [] := by
  have creations : creations d d = [] := by
    apply List.map_eq_nil_iff.mpr
    apply List.filter_eq_nil_iff.mpr
    intro m hm
    have known : d.Contains m.name := List.mem_map_of_mem hm
    simp [known]
  have removals : removals d d = [] := by
    apply List.map_eq_nil_iff.mpr
    apply List.filter_eq_nil_iff.mpr
    intro name hname
    have known : d.Contains name := hname
    simp [known]
  have updates : updates d d = [] := by
    apply List.filterMap_eq_nil_iff.mpr
    intro m hm
    rw [get?_eq_some_iff.mpr ⟨hm, rfl⟩]
    exact if_pos m.beq_refl
  rw [diff, creations, removals, updates]
  rfl

end SchemaPlan.Document
