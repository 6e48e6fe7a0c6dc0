import SchemaPlan.Migration.Plan
import SchemaPlan.Proofs.Keys
import SchemaPlan.Proofs.Migration.Step

/-!
# The difference of two models

A delta tells of the fields that only one of two versions of a model has, of those that the two define
differently, and of a change of order. It is empty just where the versions are equal, so no update is
planned that has nothing to tell.
-/

namespace SchemaPlan

namespace ModelDelta

/-- The definition that a field is changed to. -/
def changedTo? (d : ModelDelta) (name : Identifier) : Option Field :=
  (d.changed.find? (·.name == name)).map FieldChange.new

/-- Leaves out the fields that are removed, gives those that are changed their new definition, and
appends those that are added. -/
def carryOut (d : ModelDelta) (fields : List Field) : List Field :=
  (fields.filter (·.name ∉ d.removed)).map (fun f => (d.changedTo? f.name).getD f) ++ d.added

/-- What a delta tells of two versions of a model. -/
structure Tells (old new : Model) (d : ModelDelta) : Prop where
  /-- The fields that are new, in the order of the new version. -/
  added : d.added.Sublist new.fields ∧ ∀ f, f ∈ d.added ↔ f ∈ new.fields ∧ f.name ∉ old.fieldNames
  /-- The fields that are gone, in the order of the old version. -/
  removed : d.removed.Sublist old.fieldNames ∧
    ∀ name, name ∈ d.removed ↔ name ∈ old.fieldNames ∧ name ∉ new.fieldNames
  /-- The fields of both versions that differ, in the order of the new one. -/
  changed : (d.changed.map FieldChange.new).Sublist new.fields ∧
    ∀ c, c ∈ d.changed ↔ c.old ∈ old.fields ∧ c.new ∈ new.fields ∧ c.old.name = c.name ∧
      c.new.name = c.name ∧ ¬ (c.old == c.new) = true
  /-- Two fields of both versions come in one order in the old and in the other in the new. -/
  reordered : d.reordered = true ↔ Swapped old.fieldNames new.fieldNames
  /-- Carried out on the old fields, the delta gives the new ones but for their order. -/
  result : ∃ fields, List.Forall₂ (fun f g : Field => (f == g) = true) (d.carryOut old.fields) fields ∧
    fields.Perm new.fields

end ModelDelta

namespace Model

variable {m : Model} {name : Identifier} {f g : Field}

theorem field?_eq_some_iff : m.field? name = some f ↔ f ∈ m.fields ∧ f.name = name :=
  find?_key_eq_some_iff m.distinct

theorem field?_eq_none_iff : m.field? name = none ↔ name ∉ m.fieldNames := find?_key_eq_none_iff

theorem exists_field?_iff : name ∈ m.fieldNames ↔ ∃ f, m.field? name = some f := by
  rw [← not_iff_not, ← field?_eq_none_iff, Option.eq_none_iff_forall_ne_some, not_exists]

theorem eq_of_name_eq (hf : f ∈ m.fields) (hg : g ∈ m.fields) (same : f.name = g.name) : f = g :=
  List.inj_on_of_nodup_map m.distinct hf hg same

end Model

namespace ModelDelta

variable {old new : Model}

theorem mem_added_iff {f : Field} :
    f ∈ (between old new).added ↔ f ∈ new.fields ∧ f.name ∉ old.fieldNames := by
  rw [← Model.field?_eq_none_iff, ← Option.isNone_iff_eq_none]
  exact List.mem_filter

theorem mem_removed_iff {name : Identifier} :
    name ∈ (between old new).removed ↔ name ∈ old.fieldNames ∧ name ∉ new.fieldNames := by
  rw [← Model.field?_eq_none_iff, ← Option.isNone_iff_eq_none]
  exact List.mem_filter

theorem mem_changed_iff {c : FieldChange} :
    c ∈ (between old new).changed ↔ c.old ∈ old.fields ∧ c.new ∈ new.fields ∧ c.old.name = c.name ∧
      c.new.name = c.name ∧ ¬ (c.old == c.new) = true := by
  simp only [between, List.mem_filterMap]
  constructor
  · rintro ⟨g, hg, found⟩
    split at found
    · next f before =>
      obtain ⟨hf, name⟩ := Model.field?_eq_some_iff.mp before
      split at found
      · cases found
      · next differ =>
        cases found
        exact ⟨hf, hg, name, rfl, differ⟩
    · cases found
  · rintro ⟨hf, hg, oldName, newName, differ⟩
    have before : old.field? c.name = some c.old := Model.field?_eq_some_iff.mpr ⟨hf, oldName⟩
    refine ⟨c.new, hg, ?_⟩
    simp only [newName, before, if_neg differ]

theorem map_new_changed_sublist (old new : Model) :
    ((between old new).changed.map FieldChange.new).Sublist new.fields := by
  simp only [between]
  induction new.fields with
  | nil => exact .slnil
  | cons g fields ih =>
    rw [List.filterMap_cons]
    cases before : old.field? g.name with
    | none => exact ih.cons g
    | some f =>
      by_cases same : (f == g) = true
      · simpa [same] using ih.cons g
      · simpa [same] using ih.cons_cons g

theorem mem_shared_iff {name : Identifier} :
    name ∈ shared old new ↔ name ∈ old.fieldNames ∧ name ∈ new.fieldNames := by
  rw [Model.exists_field?_iff (m := new), ← Option.isSome_iff_exists]
  exact List.mem_filter

theorem shared_sublist (old new : Model) : (shared old new).Sublist old.fieldNames :=
  List.filter_sublist

theorem nodup_shared (old new : Model) : (shared old new).Nodup :=
  old.distinct.sublist (shared_sublist old new)

theorem shared_perm (old new : Model) : (shared old new).Perm (shared new old) := by
  apply (List.perm_ext_iff_of_nodup (nodup_shared old new) (nodup_shared new old)).mpr
  intro name
  rw [mem_shared_iff, mem_shared_iff, and_comm]

/-- Names of both versions that are swapped are shared, and stay swapped among the shared ones. -/
theorem swapped_shared_iff :
    Swapped (shared old new) (shared new old) ↔ Swapped old.fieldNames new.fieldNames := by
  constructor
  · rintro ⟨a, b, one, other⟩
    exact ⟨a, b, one.trans (shared_sublist old new), other.trans (shared_sublist new old)⟩
  · rintro ⟨a, b, one, other⟩
    have kept {m n : Model} {a b : Identifier} (inOrder : [a, b].Sublist m.fieldNames)
        (ha : a ∈ n.fieldNames) (hb : b ∈ n.fieldNames) : [a, b].Sublist (shared m n) := by
      have both := inOrder.filter fun name => (n.field? name).isSome
      obtain ⟨f, hf⟩ := Model.exists_field?_iff.mp ha
      obtain ⟨g, hg⟩ := Model.exists_field?_iff.mp hb
      simpa [shared, hf, hg] using both
    exact ⟨a, b, kept one (other.mem (by simp)) (other.mem (by simp)),
      kept other (one.mem (by simp)) (one.mem (by simp))⟩

theorem reordered_iff :
    (between old new).reordered = true ↔ Swapped old.fieldNames new.fieldNames := by
  rw [← swapped_shared_iff]
  show (shared old new != shared new old) = true ↔ _
  rw [bne_iff_ne]
  constructor
  · intro differ
    by_contra aligned
    exact differ (eq_of_perm_of_not_swapped (nodup_shared old new) (shared_perm old new) aligned)
  · intro swapped same
    rw [← same] at swapped
    exact not_swapped_self (nodup_shared old new) swapped

/-- What a delta makes of a field that stays is what the new version has. -/
theorem changedTo?_beq {f g : Field} (hf : f ∈ old.fields) (after : new.field? f.name = some g) :
    (((between old new).changedTo? f.name).getD f == g) = true := by
  obtain ⟨hg, name⟩ := Model.field?_eq_some_iff.mp after
  unfold changedTo?
  cases found : (between old new).changed.find? (·.name == f.name) with
  | some c =>
    have named : c.name = f.name := by simpa using List.find?_some found
    obtain ⟨-, hnew, -, newName, -⟩ := mem_changed_iff.mp (List.mem_of_find?_eq_some found)
    have same : c.new = g := Model.eq_of_name_eq hnew hg (by rw [newName, named, name])
    exact same ▸ c.new.beq_refl
  | none =>
    by_contra differ
    have mem : ⟨f.name, f, g⟩ ∈ (between old new).changed :=
      mem_changed_iff.mpr ⟨hf, hg, rfl, name, differ⟩
    simpa using List.find?_eq_none.mp found _ mem

theorem exists_carryOut_between (old new : Model) :
    ∃ fields, List.Forall₂ (fun f g : Field => (f == g) = true)
      ((between old new).carryOut old.fields) fields ∧ fields.Perm new.fields := by
  let replace (f : Field) : Field := (new.field? f.name).getD f
  let kept := old.fields.filter (·.name ∉ (between old new).removed)
  have mem_kept (f : Field) : f ∈ kept ↔ f ∈ old.fields ∧ f.name ∈ new.fieldNames := by
    simp only [kept, List.mem_filter, decide_eq_true_eq, mem_removed_iff, not_and, not_not]
    exact and_congr_right fun hf => forall_prop_of_true (List.mem_map_of_mem hf)
  have stays : ∀ f ∈ kept, new.field? f.name = some (replace f) := by
    intro f hf
    obtain ⟨g, after⟩ := Model.exists_field?_iff.mp ((mem_kept f).mp hf).2
    simp only [replace, after, Option.getD_some]
  refine ⟨kept.map replace ++ (between old new).added, ?_, ?_⟩
  · refine List.rel_append ?_ (List.forall₂_same.mpr fun f _ => f.beq_refl)
    refine List.forall₂_map_left_iff.mpr (List.forall₂_map_right_iff.mpr ?_)
    refine List.forall₂_same.mpr fun f hf => ?_
    exact changedTo?_beq ((mem_kept f).mp hf).1 (stays f hf)
  · apply perm_of_replaced old.distinct new.distinct List.filter_sublist List.filter_sublist mem_kept
    · exact fun f => mem_added_iff
    · exact fun f hf => Model.field?_eq_some_iff.mp (stays f hf)

theorem tells_between (old new : Model) : Tells old new (between old new) where
  added := ⟨List.filter_sublist, fun _ => mem_added_iff⟩
  removed := ⟨List.filter_sublist, fun _ => mem_removed_iff⟩
  changed := ⟨map_new_changed_sublist old new, fun _ => mem_changed_iff⟩
  reordered := reordered_iff
  result := exists_carryOut_between old new

theorem isEmpty_iff {d : ModelDelta} :
    d.isEmpty = true ↔ d.added = [] ∧ d.removed = [] ∧ d.changed = [] ∧ d.reordered = false := by
  simp [isEmpty, and_assoc]

theorem isEmpty_of_beq (same : (old == new) = true) : (between old new).isEmpty = true := by
  obtain ⟨-, fields⟩ := Model.beq_iff.mp same
  have names : old.fieldNames = new.fieldNames :=
    map_eq_map_of_forall₂ fields fun _ _ h => (Field.beq_iff.mp h).1
  refine isEmpty_iff.mpr ⟨?_, ?_, ?_, ?_⟩
  · apply List.eq_nil_iff_forall_not_mem.mpr
    intro f hf
    obtain ⟨mem, fresh⟩ := mem_added_iff.mp hf
    exact fresh (names ▸ List.mem_map_of_mem mem)
  · apply List.eq_nil_iff_forall_not_mem.mpr
    intro name hname
    obtain ⟨known, gone⟩ := mem_removed_iff.mp hname
    exact gone (names ▸ known)
  · apply List.eq_nil_iff_forall_not_mem.mpr
    intro c hc
    obtain ⟨hold, hnew, oldName, newName, differ⟩ := mem_changed_iff.mp hc
    obtain ⟨g, hg, equal⟩ := exists_mem_of_forall₂ fields hold
    have name : g.name = c.new.name := by rw [← (Field.beq_iff.mp equal).1, oldName, newName]
    exact differ (Model.eq_of_name_eq hg hnew name ▸ equal)
  · rw [← Bool.not_eq_true, reordered_iff, names]
    exact not_swapped_self new.distinct

theorem beq_of_isEmpty (named : old.name = new.name) (none : (between old new).isEmpty = true) :
    (old == new) = true := by
  obtain ⟨added, removed, changed, reordered⟩ := isEmpty_iff.mp none
  have same_members (name : Identifier) : name ∈ old.fieldNames ↔ name ∈ new.fieldNames := by
    constructor
    · intro known
      by_contra gone
      have mem := mem_removed_iff.mpr ⟨known, gone⟩
      simp [removed] at mem
    · intro known
      obtain ⟨f, hf, rfl⟩ := List.mem_map.mp known
      by_contra fresh
      have mem := mem_added_iff.mpr ⟨hf, fresh⟩
      simp [added] at mem
  have aligned : ¬ Swapped old.fieldNames new.fieldNames := by
    rw [← reordered_iff, reordered]
    exact Bool.false_ne_true
  have perm : old.fieldNames.Perm new.fieldNames :=
    (List.perm_ext_iff_of_nodup old.distinct new.distinct).mpr same_members
  have names := eq_of_perm_of_not_swapped old.distinct perm aligned
  refine Model.beq_iff.mpr ⟨named, forall₂_of_map_eq names fun f hf g hg name => ?_⟩
  by_contra differ
  have mem : ⟨f.name, f, g⟩ ∈ (between old new).changed :=
    mem_changed_iff.mpr ⟨hf, hg, rfl, name.symm, differ⟩
  simp [changed] at mem

end ModelDelta

/-- An update is planned only where a version is followed by an unequal one, and tells how they differ. -/
theorem between_of_update_mem_plan {old new : Document} {known? : Option Document} {o : PlanOptions}
    {model : Identifier} {table : String} {delta? : Option ModelDelta}
    (h : .pending .update model table delta? ∈ (o.plan known? (old.diff new)).operations) :
    ∃ m n, old.get? model = some m ∧ new.get? model = some n ∧ delta? = some (.between m n) ∧
      ¬ (m == n) = true := by
  obtain ⟨c, hc, same⟩ := List.mem_map.mp h
  cases c with
  | create _ => cases same
  | drop _ => cases same
  | update name m n =>
    cases same
    cases Document.mem_diff_iff.mp hc with
    | update before after differ => exact ⟨m, n, before, after, rfl, differ⟩

/-- A delta tells exactly how two models differ. It is empty just where models of one name are equal, and
so it is empty for no update that is planned between two documents. -/
theorem delta_tells :
    (∀ old new : Model, (ModelDelta.between old new).Tells old new ∧
      ((old == new) = true ↔ old.name = new.name ∧ (ModelDelta.between old new).isEmpty = true)) ∧
    ∀ (old new : Document) (known? : Option Document) (o : PlanOptions) (model : Identifier)
      (table : String) (delta? : Option ModelDelta),
      .pending .update model table delta? ∈ (o.plan known? (old.diff new)).operations →
        ∃ m n, old.get? model = some m ∧ new.get? model = some n ∧
          delta? = some (.between m n) ∧ (ModelDelta.between m n).isEmpty = false := by
  constructor
  · intro old new
    refine ⟨ModelDelta.tells_between old new, fun same => ?_, fun h => ?_⟩
    · exact ⟨(Model.beq_iff.mp same).1, ModelDelta.isEmpty_of_beq same⟩
    · exact ModelDelta.beq_of_isEmpty h.1 h.2
  · intro old new known? o model table delta? h
    obtain ⟨m, n, before, after, delta, differ⟩ := between_of_update_mem_plan h
    refine ⟨m, n, before, after, delta, ?_⟩
    have named : m.name = n.name :=
      (Document.get?_eq_some_iff.mp before).2.trans (Document.get?_eq_some_iff.mp after).2.symm
    rw [← Bool.not_eq_true]
    exact fun none => differ (ModelDelta.beq_of_isEmpty named none)

/-- Two fields change places, which is an update. -/
theorem delta_tells_of_exchange :
    let title : Field := ⟨⟨"title", by decide⟩, .primitive .string, ∅⟩
    let body : Field := ⟨⟨"body", by decide⟩, .other "text", ∅⟩
    let before : Model := ⟨⟨"Post", by decide⟩, [title, body], by decide⟩
    let after : Model := ⟨⟨"Post", by decide⟩, [body, title], by decide⟩
    let old : Document := ⟨[before], by simp⟩
    let new : Document := ⟨[after], by simp⟩
    .pending .update before.name "Post" (some (.between before after)) ∈
        (PlanOptions.plan ⟨.asDeclared, true⟩ none (old.diff new)).operations ∧
      Swapped before.fieldNames after.fieldNames ∧
      (ModelDelta.between before after).isEmpty = false := by
  intro title body before after old new
  have planned : .pending .update before.name "Post" (some (.between before after)) ∈
      (PlanOptions.plan ⟨.asDeclared, true⟩ none (old.diff new)).operations := by
    apply List.mem_of_getElem? (i := 0)
    rfl
  obtain ⟨tells, update⟩ := delta_tells
  refine ⟨planned, (tells before after).1.reordered.mp rfl, ?_⟩
  obtain ⟨m, n, -, -, delta, full⟩ := update old new none ⟨.asDeclared, true⟩ _ _ _ planned
  exact Option.some.inj delta ▸ full

end SchemaPlan
