import Mathlib.Data.List.Nodup
import SchemaPlan.Schema.AttributeSet

/-!
# Members of attribute sets

Attributes that are added one after the other leave the first of each kind, in their order. A list
is refused exactly if it holds two defaults.
-/

namespace SchemaPlan

namespace Attribute

/-- The first attribute of each kind. -/
def firsts (as : List Attribute) : List Attribute := as.eraseDupsBy fun a b => a.kind == b.kind

@[simp] theorem firsts_nil : firsts [] = [] := rfl

theorem firsts_cons (a : Attribute) (as : List Attribute) :
    firsts (a :: as) = a :: firsts (as.filter (·.kind ≠ a.kind)) := by
  simp [firsts, List.eraseDupsBy_cons]

theorem firsts_of_nodup {as : List Attribute} (h : (as.map kind).Nodup) : firsts as = as := by
  induction as with
  | nil => rfl
  | cons a as ih =>
    obtain ⟨fresh, rest⟩ := List.nodup_cons.mp h
    have kept : as.filter (·.kind ≠ a.kind) = as := by
      apply List.filter_eq_self.mpr
      intro b hb
      have : b.kind ≠ a.kind := fun e => fresh (e ▸ List.mem_map_of_mem hb)
      simpa using this
    rw [firsts_cons, kept, ih rest]

theorem mem_of_mem_firsts {a : Attribute} {as : List Attribute} (h : a ∈ firsts as) : a ∈ as := by
  match as with
  | [] => cases h
  | b :: as =>
    rw [firsts_cons] at h
    rcases List.mem_cons.mp h with rfl | h
    · exact List.mem_cons_self
    · exact List.mem_cons_of_mem b (List.mem_filter.mp (mem_of_mem_firsts h)).1
termination_by as.length
decreasing_by exact Nat.lt_succ_of_le (List.length_filter_le _ as)

theorem nodup_kinds_firsts (as : List Attribute) : ((firsts as).map kind).Nodup := by
  match as with
  | [] => exact .nil
  | a :: as =>
    rw [firsts_cons, List.map_cons, List.nodup_cons]
    refine ⟨?_, nodup_kinds_firsts (as.filter (·.kind ≠ a.kind))⟩
    intro repeated
    obtain ⟨b, hb, same⟩ := List.mem_map.mp repeated
    exact of_decide_eq_true (List.mem_filter.mp (mem_of_mem_firsts hb)).2 same
termination_by as.length
decreasing_by exact Nat.lt_succ_of_le (List.length_filter_le _ as)

/-- At most one of some attributes is a default. -/
def OneDefault (as : List Attribute) : Prop :=
  as.Pairwise fun a b => ¬ (a.kind = .default ∧ b.kind = .default)

theorem oneDefault_cons {a : Attribute} {as : List Attribute} :
    OneDefault (a :: as) ↔
      (a.kind = .default → ∀ b ∈ as, b.kind ≠ .default) ∧ OneDefault as := by
  simp only [OneDefault, List.pairwise_cons, not_and]
  exact and_congr_left' ⟨fun h k b hb => h b hb k, fun h b hb k => h k b hb⟩

theorem oneDefault_iff_countP {as : List Attribute} :
    OneDefault as ↔ as.countP (·.kind = .default) ≤ 1 := by
  induction as with
  | nil => simp [OneDefault]
  | cons a as ih =>
    rw [oneDefault_cons, ih, List.countP_cons]
    by_cases isDefault : a.kind = .default
    · have none : (∀ b ∈ as, b.kind ≠ .default) ↔ as.countP (·.kind = .default) = 0 := by
        simp [List.countP_eq_zero]
      simp only [isDefault, forall_const, decide_true, if_true, none]
      omega
    · simp [isDefault]

theorem oneDefault_of_nodup {as : List Attribute} (h : (as.map kind).Nodup) : OneDefault as := by
  apply (List.pairwise_map.mp h).imp
  rintro a b different ⟨ha, hb⟩
  exact different (ha.trans hb.symm)

end Attribute

namespace AttributeSet

open Attribute

@[ext] theorem ext {s t : AttributeSet} (h : s.members = t.members) : s = t := by
  cases s; cases t; cases h; rfl

theorem hasKind_insert {s : AttributeSet} {a : Attribute} {k : Kind} :
    (s.insert a).HasKind k ↔ s.HasKind k ∨ k = a.kind := by
  by_cases h : s.HasKind a.kind
  · rw [members_insert_of_hasKind h]
    exact ⟨.inl, fun hk => hk.elim id fun e => e ▸ h⟩
  · simp [HasKind, members_insert_of_not_hasKind h]

theorem hasFlag_iff {s : AttributeSet} {f : Flag} : s.hasFlag f = true ↔ .flag f ∈ s.members := by
  simp [hasFlag, contains]

/-- No two members of a set are defaults, so the first default is the only one. -/
theorem default?_eq_some_iff {s : AttributeSet} {value : String} :
    s.default? = some value ↔ .default value ∈ s.members := by
  have sound {found : String} (h : s.default? = some found) : .default found ∈ s.members := by
    obtain ⟨a, mem, ha⟩ := List.exists_of_findSome?_eq_some h
    cases a with
    | flag f => cases ha
    | default v =>
      cases ha
      exact mem
  refine ⟨sound, fun mem => ?_⟩
  cases found : s.default? with
  | none =>
    have := List.findSome?_eq_none_iff.mp found _ mem
    cases this
  | some other =>
    cases List.inj_on_of_nodup_map s.distinct (sound found) mem rfl
    rfl

theorem addAll_append (s : AttributeSet) (as bs : List Attribute) :
    s.addAll (as ++ bs) = s.addAll as >>= fun t => t.addAll bs := by
  induction as generalizing s with
  | nil => rfl
  | cons a as ih =>
    simp only [List.cons_append, addAll]
    split
    · rfl
    · exact ih _

theorem exists_addAll_iff {s : AttributeSet} {as : List Attribute} :
    (∃ t, s.addAll as = .ok t) ↔
      OneDefault as ∧ (s.HasKind .default → ∀ a ∈ as, a.kind ≠ .default) := by
  induction as generalizing s with
  | nil => simp [addAll, OneDefault]
  | cons a as ih =>
    unfold addAll
    split
    · next second =>
      apply iff_of_false (by simp)
      rintro ⟨-, none⟩
      exact none second.2 a List.mem_cons_self second.1
    · next first =>
      rw [ih, oneDefault_cons, hasKind_insert]
      simp only [List.forall_mem_cons]
      constructor
      · rintro ⟨one, later⟩
        refine ⟨⟨fun ha => later (.inr ha.symm), one⟩, fun hs => ⟨?_, later (.inl hs)⟩⟩
        intro ha
        exact first ⟨ha, hs⟩
      · rintro ⟨⟨head, one⟩, later⟩
        refine ⟨one, ?_⟩
        rintro (hs | ha)
        · exact (later hs).2
        · exact head ha.symm

theorem duplicateDefault_of_addAll {s : AttributeSet} {as : List Attribute} {e : SchemaError}
    (h : s.addAll as = .error e) : e = .duplicateDefault := by
  induction as generalizing s with
  | nil => cases h
  | cons a as ih =>
    unfold addAll at h
    split at h
    · cases h
      rfl
    · exact ih h

theorem members_addAll {s t : AttributeSet} {as : List Attribute} (h : s.addAll as = .ok t) :
    t.members = s.members ++ firsts (as.filter fun a => ¬ s.HasKind a.kind) := by
  induction as generalizing s with
  | nil => cases h; simp
  | cons a as ih =>
    unfold addAll at h
    split at h
    · cases h
    · rw [ih h]
      by_cases ha : s.HasKind a.kind
      · simp [members_insert_of_hasKind ha, ha]
      · simp [members_insert_of_not_hasKind ha, ha, hasKind_insert, firsts_cons,
          List.filter_filter, and_comm]

/-- A list is refused if it holds two defaults. Otherwise the first of each kind are kept. -/
theorem ofList_eq_ok_iff {as : List Attribute} {s : AttributeSet} :
    ofList as = .ok s ↔ OneDefault as ∧ s.members = firsts as := by
  have noKind (k : Kind) : ¬ (∅ : AttributeSet).HasKind k := by simp [HasKind]
  have members {t : AttributeSet} (h : ofList as = .ok t) : t.members = firsts as := by
    have all : as.filter (fun a => ¬ (∅ : AttributeSet).HasKind a.kind) = as :=
      List.filter_eq_self.mpr fun a _ => decide_eq_true (noKind a.kind)
    rw [members_addAll h, all, members_empty, List.nil_append]
  constructor
  · intro h
    exact ⟨(exists_addAll_iff.mp ⟨s, h⟩).1, members h⟩
  · rintro ⟨one, h⟩
    obtain ⟨t, ht⟩ := exists_addAll_iff.mpr ⟨one, fun hk => absurd hk (noKind _)⟩
    rw [show ofList as = .ok t from ht, ext ((members ht).trans h.symm)]

theorem exists_members_eq_firsts {as : List Attribute} (one : OneDefault as) :
    ∃ s : AttributeSet, s.members = firsts as := by
  obtain ⟨s, h⟩ := exists_addAll_iff (s := ∅).mpr ⟨one, fun h => by simp [HasKind] at h⟩
  exact ⟨s, (ofList_eq_ok_iff.mp h).2⟩

theorem ofList_members (s : AttributeSet) : ofList s.members = .ok s :=
  ofList_eq_ok_iff.mpr ⟨oneDefault_of_nodup s.distinct, (firsts_of_nodup s.distinct).symm⟩

end AttributeSet

end SchemaPlan
