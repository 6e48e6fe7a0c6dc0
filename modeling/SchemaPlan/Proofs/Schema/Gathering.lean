import SchemaPlan.Proofs.Json.Reader
import SchemaPlan.Proofs.Schema.Equality
import SchemaPlan.Schema.Reader

/-!
# How attribute sets come about

Sets are gathered from attributes, from stored texts or from a lock file, and attributes are inserted.
No way leads to two members of one kind, and so equality, which looks only one way, is that of sets.
-/

namespace SchemaPlan.AttributeSet

open Attribute

/-- The sets that come about. -/
inductive Reached : AttributeSet → Prop
  | new : Reached ∅
  | gathered {as s} : ofList as = .ok s → Reached s
  | stored {texts s} : ofStored texts = .ok s → Reached s
  | read {tree s} : reader tree = .ok s → Reached s
  | inserted {s a} : Reached s → Reached (s.insertNew a).1

/-- What comes of an attribute that is inserted. -/
inductive Inserted (s : AttributeSet) (a : Attribute) : AttributeSet × Bool → Prop
  | fresh {t} : ¬ s.HasKind a.kind → t.members = s.members ++ [a] → Inserted s a (t, true)
  | known : s.HasKind a.kind → Inserted s a (s, false)

/-- What is gathered from some attributes. -/
inductive Gathered (as : List Attribute) : Except SchemaError AttributeSet → Prop
  | kept {s} : as.countP (·.kind = .default) < 2 → s.members = firsts as → Gathered as (.ok s)
  | refused : 2 ≤ as.countP (·.kind = .default) → Gathered as (.error .duplicateDefault)

/-- The sets answer alike. -/
structure Agrees (s t : AttributeSet) : Prop where
  contains : ∀ a, s.contains a = t.contains a
  hasFlag : ∀ f, s.hasFlag f = t.hasFlag f
  default? : s.default? = t.default?

theorem inserted_insertNew (s : AttributeSet) (a : Attribute) : Inserted s a (s.insertNew a) := by
  rw [insertNew]
  split
  · next known => exact .known known
  · next fresh => exact .fresh fresh (members_insert_of_not_hasKind fresh)

theorem gathered_ofList (as : List Attribute) : Gathered as (ofList as) := by
  by_cases one : OneDefault as
  · obtain ⟨s, members⟩ := exists_members_eq_firsts one
    rw [ofList_eq_ok_iff.mpr ⟨one, members⟩]
    exact .kept (Nat.lt_succ_of_le (oneDefault_iff_countP.mp one)) members
  · have twice : 2 ≤ as.countP (·.kind = .default) := by
      rwa [oneDefault_iff_countP, Nat.not_le] at one
    cases outcome : ofList as with
    | ok s => exact absurd (ofList_eq_ok_iff.mp outcome).1 one
    | error e =>
      obtain rfl := duplicateDefault_of_addAll outcome
      exact .refused twice

theorem ofStored_of_reader {tree : Json.Tree} {s : AttributeSet} (h : reader tree = .ok s) :
    ∃ texts, ofStored texts = .ok s := by
  unfold reader Json.Reader.checked at h
  split at h
  · cases h
  · next texts _ =>
    exact ⟨texts, mapError_eq_ok_iff.mp (mapError_eq_ok_iff.mp h)⟩

/-- Each way keeps the kinds of members apart. -/
theorem Reached.nodup_kinds {s : AttributeSet} (h : s.Reached) : (s.members.map kind).Nodup := by
  have gathered {as : List Attribute} {s : AttributeSet} (h : ofList as = .ok s) :
      (s.members.map kind).Nodup := (ofList_eq_ok_iff.mp h).2 ▸ nodup_kinds_firsts as
  induction h with
  | new => exact .nil
  | gathered h => exact gathered h
  | stored h => exact gathered h
  | read h =>
    obtain ⟨texts, h⟩ := ofStored_of_reader h
    exact gathered h
  | @inserted s a _ ih =>
    have step := inserted_insertNew s a
    generalize s.insertNew a = result at step
    cases step with
    | known _ => exact ih
    | fresh fresh members =>
      rw [members]
      exact nodup_keys_concat ih fresh

instance : EquivBEq AttributeSet where
  rfl := beq_iff.mpr (.refl _)
  symm h := beq_iff.mpr (beq_iff.mp h).symm
  trans h h' := beq_iff.mpr ((beq_iff.mp h).trans (beq_iff.mp h'))

theorem agrees_of_beq {s t : AttributeSet} (same : (s == t) = true) : s.Agrees t := by
  have perm := beq_iff.mp same
  have contains (a : Attribute) : s.contains a = t.contains a := perm.contains_eq
  exact
    { contains
      hasFlag := fun f => contains (.flag f)
      default? := by
        apply Option.ext
        intro value
        rw [default?_eq_some_iff, default?_eq_some_iff, perm.mem_iff] }

/-- A set that comes about holds one attribute of a kind at most, and equality, though it looks for the
members of one set in the other only, is that of sets. -/
theorem equality_of_reached {s : AttributeSet} (h : s.Reached) :
    (s.members.map kind).Nodup ∧ (∀ a, Inserted s a (s.insertNew a)) ∧
      (∀ as, Gathered as (ofList as)) ∧ EquivBEq AttributeSet ∧
      ∀ t, ((s == t) = true ↔ s.members.Perm t.members) ∧ ((s == t) = true → s.Agrees t) :=
  ⟨h.nodup_kinds, inserted_insertNew s, gathered_ofList, inferInstance,
    fun _ => ⟨beq_iff, agrees_of_beq⟩⟩

/-- A flag with arguments, an unknown tag and a default are stored, and a flag is inserted twice. -/
theorem equality_of_stored :
    let r : AttributeSet := ⟨[.flag .unique, .default "1"], by decide⟩
    let s := ((r.insertNew (.flag .nullable)).1.insertNew (.flag .nullable)).1
    let t : AttributeSet := ⟨[.default "1", .flag .nullable, .flag .unique], by decide⟩
    ofStored ["unique(x)", "index", "default(1)"] = .ok r ∧ s.Reached ∧
      (s == t) = true ∧ s.Agrees t := by
  intro r s t
  have stored : ofStored ["unique(x)", "index", "default(1)"] = .ok r := by rfl
  have reached : s.Reached := .inserted (.inserted (.stored stored))
  obtain ⟨-, -, -, -, laws⟩ := equality_of_reached reached
  have same : (s == t) = true := (laws t).1.mpr (by decide)
  exact ⟨stored, reached, same, (laws t).2 same⟩

end SchemaPlan.AttributeSet
