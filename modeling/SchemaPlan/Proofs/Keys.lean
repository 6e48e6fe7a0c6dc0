import Mathlib.Data.List.Nodup
import SchemaPlan.Proofs.Result

/-!
# Lists with distinct keys

Entries that no other entry of their list shares a key with. Such lists are told apart by their entries
and by the order these come in.
-/

namespace SchemaPlan

variable {α κ : Type}

section Keys

variable {key : α → κ} {xs ys : List α}

theorem nodup_keys_concat (distinct : (xs.map key).Nodup) {x : α} (fresh : key x ∉ xs.map key) :
    ((xs ++ [x]).map key).Nodup := by
  rw [List.map_append, List.map_singleton]
  exact List.nodup_append_comm.mp (List.nodup_cons.mpr ⟨fresh, distinct⟩)

theorem find?_key_eq_some_iff [DecidableEq κ] (distinct : (xs.map key).Nodup) {k : κ} {x : α} :
    xs.find? (key · == k) = some x ↔ x ∈ xs ∧ key x = k := by
  have sound {y : α} (found : xs.find? (key · == k) = some y) : y ∈ xs ∧ key y = k :=
    ⟨List.mem_of_find?_eq_some found, eq_of_beq (List.find?_some (p := (key · == k)) found)⟩
  constructor
  · exact sound
  · rintro ⟨mem, rfl⟩
    have present : (xs.find? (key · == key x)).isSome :=
      List.find?_isSome.mpr ⟨x, mem, beq_self_eq_true _⟩
    obtain ⟨y, found⟩ := Option.isSome_iff_exists.mp present
    obtain ⟨hy, same⟩ := sound found
    rw [found, List.inj_on_of_nodup_map distinct hy mem same]

theorem find?_key_eq_none_iff [DecidableEq κ] {k : κ} :
    xs.find? (key · == k) = none ↔ k ∉ xs.map key := by
  simp

/-- Entries of one list that are replaced by those of another with their keys, and the entries of the
other with keys of their own, are the other list in some order. -/
theorem perm_of_replaced {kept fresh : List α} {replace : α → α} (hxs : (xs.map key).Nodup)
    (hys : (ys.map key).Nodup) (keptOf : kept.Sublist xs) (freshOf : fresh.Sublist ys)
    (mem_kept : ∀ x, x ∈ kept ↔ x ∈ xs ∧ key x ∈ ys.map key)
    (mem_fresh : ∀ y, y ∈ fresh ↔ y ∈ ys ∧ key y ∉ xs.map key)
    (replaced : ∀ x ∈ kept, replace x ∈ ys ∧ key (replace x) = key x) :
    (kept.map replace ++ fresh).Perm ys := by
  have keys : (kept.map replace).map key = kept.map key := by
    rw [List.map_map]
    exact List.map_congr_left fun x hx => (replaced x hx).2
  have distinct : ((kept.map replace ++ fresh).map key).Nodup := by
    rw [List.map_append, keys]
    refine List.nodup_append.mpr ⟨hxs.sublist (keptOf.map key), hys.sublist (freshOf.map key), ?_⟩
    intro k hk l hl same
    obtain ⟨y, hy, rfl⟩ := List.mem_map.mp hl
    exact ((mem_fresh y).mp hy).2 (same ▸ (keptOf.map key).mem hk)
  refine (List.perm_ext_iff_of_nodup (.of_map key distinct) (.of_map key hys)).mpr fun y => ?_
  rw [List.mem_append, List.mem_map]
  constructor
  · rintro (⟨x, hx, rfl⟩ | hy)
    · exact (replaced x hx).1
    · exact freshOf.mem hy
  · intro hy
    by_cases known : key y ∈ xs.map key
    · obtain ⟨x, hx, same⟩ := List.mem_map.mp known
      have stays : x ∈ kept := (mem_kept x).mpr ⟨hx, same ▸ List.mem_map_of_mem hy⟩
      obtain ⟨mem, again⟩ := replaced x stays
      exact .inl ⟨x, stays, List.inj_on_of_nodup_map hys mem hy (again.trans same)⟩
    · exact .inr ((mem_fresh y).mpr ⟨hy, known⟩)

end Keys

section Order

variable {a b : α} {xs ys : List α}

/-- The first list has two entries in one order, and the second has them in the other. -/
def Swapped (xs ys : List α) : Prop := ∃ a b, [a, b].Sublist xs ∧ [b, a].Sublist ys

theorem pair_sublist_cons_iff {x : α} :
    [a, b].Sublist (x :: xs) ↔ [a, b].Sublist xs ∨ a = x ∧ b ∈ xs := by
  rw [List.sublist_cons_iff]
  refine or_congr_right ⟨?_, ?_⟩
  · rintro ⟨rest, same, sublist⟩
    cases same
    exact ⟨rfl, List.singleton_sublist.mp sublist⟩
  · rintro ⟨rfl, hb⟩
    exact ⟨[b], rfl, List.singleton_sublist.mpr hb⟩

theorem pair_sublist_of_forall₂ {β : Type} {R : α → β → Prop} {ys : List β}
    (h : List.Forall₂ R xs ys) (pair : [a, b].Sublist xs) :
    ∃ c d, [c, d].Sublist ys ∧ R a c ∧ R b d := by
  induction h with
  | nil => cases pair
  | @cons x y xs ys head tail ih =>
    rcases pair_sublist_cons_iff.mp pair with later | ⟨rfl, hb⟩
    · obtain ⟨c, d, pair, related⟩ := ih later
      exact ⟨c, d, pair.cons y, related⟩
    · obtain ⟨d, hd, related⟩ := exists_mem_of_forall₂ tail hb
      exact ⟨y, d, pair_sublist_cons_iff.mpr (.inr ⟨rfl, hd⟩), head, related⟩

theorem not_swapped_self (distinct : xs.Nodup) : ¬ Swapped xs xs := by
  rintro ⟨a, b, one, other⟩
  induction xs with
  | nil => cases one
  | cons x xs ih =>
    obtain ⟨fresh, distinct⟩ := List.nodup_cons.mp distinct
    rcases pair_sublist_cons_iff.mp one with one | ⟨first, hb⟩
    · rcases pair_sublist_cons_iff.mp other with other | ⟨first, -⟩
      · exact ih distinct one other
      · exact fresh (first ▸ one.mem (List.mem_cons_of_mem a List.mem_cons_self))
    · rcases pair_sublist_cons_iff.mp other with other | ⟨second, -⟩
      · exact fresh (first ▸ other.mem (List.mem_cons_of_mem b List.mem_cons_self))
      · exact fresh (second ▸ hb)

theorem pair_sublist_or (ha : a ∈ xs) (hb : b ∈ xs) (different : a ≠ b) :
    [a, b].Sublist xs ∨ [b, a].Sublist xs := by
  induction xs with
  | nil => cases ha
  | cons x xs ih =>
    rw [pair_sublist_cons_iff, pair_sublist_cons_iff]
    rcases List.mem_cons.mp ha with first | ha
    · exact .inl (.inr ⟨first, List.mem_of_ne_of_mem (first ▸ different.symm) hb⟩)
    · rcases List.mem_cons.mp hb with first | hb
      · exact .inr (.inr ⟨first, ha⟩)
      · exact (ih ha hb).imp .inl .inl

/-- Lists of the same entries are the same unless two of these come the other way round. -/
theorem eq_of_perm_of_not_swapped (distinct : xs.Nodup) (perm : xs.Perm ys)
    (aligned : ¬ Swapped xs ys) : xs = ys := by
  have first : xs.Pairwise fun a b => [a, b].Sublist xs := List.pairwise_iff_forall_sublist.mpr id
  have second : ys.Pairwise fun a b => [a, b].Sublist xs := by
    apply List.pairwise_iff_forall_sublist.mpr
    intro a b inOrder
    have different : a ≠ b := by
      simpa using (perm.nodup_iff.mp distinct).sublist inOrder
    have ha : a ∈ xs := perm.mem_iff.mpr (inOrder.mem (by simp))
    have hb : b ∈ xs := perm.mem_iff.mpr (inOrder.mem (by simp))
    rcases pair_sublist_or ha hb different with before | after
    · exact before
    · exact absurd ⟨b, a, after, inOrder⟩ aligned
  apply perm.eq_of_pairwise _ first second
  intro a b _ _ one other
  exact absurd ⟨a, b, one, other⟩ (not_swapped_self distinct)

end Order

end SchemaPlan
