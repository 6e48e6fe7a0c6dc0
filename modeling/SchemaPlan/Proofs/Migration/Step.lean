import SchemaPlan.Proofs.Migration.Change

/-!
# The step between documents

The changes found between two documents say just what leads from one to the other. Carried out on the
old document they give the new one, no model is changed twice, and equal models are left alone.
-/

namespace SchemaPlan

namespace ChangeSet

def createdModels (cs : ChangeSet) : List Model :=
  cs.filterMap fun
    | .create m => some m
    | _ => none

/-- The definition that a model is updated to. -/
def update? (cs : ChangeSet) (name : Identifier) : Option Model :=
  cs.findSome? fun
    | .update other _ new => if other = name then some new else none
    | _ => none

/-- Leaves out the models that are dropped, gives those that are updated their new definition, and
appends those that are created. -/
def carryOut (cs : ChangeSet) (models : List Model) : List Model :=
  (models.filter (·.name ∉ cs.dropped)).map (fun m => (cs.update? m.name).getD m) ++
    cs.createdModels

theorem mem_dropped {cs : ChangeSet} {name : Identifier} : name ∈ cs.dropped ↔ .drop name ∈ cs := by
  simp only [dropped, List.mem_filterMap]
  constructor
  · rintro ⟨_ | dropped | _, mem, found⟩
    · cases found
    · cases found
      exact mem
    · cases found
  · exact fun mem => ⟨_, mem, rfl⟩

theorem mem_createdModels {cs : ChangeSet} {m : Model} : m ∈ cs.createdModels ↔ .create m ∈ cs := by
  simp only [createdModels, List.mem_filterMap]
  constructor
  · rintro ⟨created | _ | _, mem, found⟩
    · cases found
      exact mem
    · cases found
    · cases found
  · exact fun mem => ⟨_, mem, rfl⟩

theorem mem_of_update? {cs : ChangeSet} {name : Identifier} {n : Model}
    (h : cs.update? name = some n) : ∃ m, .update name m n ∈ cs := by
  obtain ⟨c, mem, found⟩ := List.exists_of_findSome?_eq_some h
  cases c with
  | create _ => cases found
  | drop _ => cases found
  | update other m new =>
    simp only [Option.ite_none_right_eq_some, Option.some.injEq] at found
    obtain ⟨rfl, rfl⟩ := found
    exact ⟨m, mem⟩

theorem not_mem_of_update? {cs : ChangeSet} {name : Identifier} (h : cs.update? name = none)
    (m n : Model) : .update name m n ∉ cs := by
  intro mem
  have := List.findSome?_eq_none_iff.mp h _ mem
  simp at this

end ChangeSet

namespace Document

/-- The models of one document equal those of the other in some order. -/
def SameModels (d e : Document) : Prop :=
  ∃ ms, List.Forall₂ (fun m n : Model => (m == n) = true) d.models ms ∧ ms.Perm e.models

/-- The changes without which one document does not become the other. -/
inductive Needs (old new : Document) : Change → Prop
  | create {m} : m ∈ new.models → ¬ old.Contains m.name → Needs old new (.create m)
  | drop {name} : old.Contains name → ¬ new.Contains name → Needs old new (.drop name)
  | update {name m n} : old.get? name = some m → new.get? name = some n → ¬ (m == n) = true →
      Needs old new (.update name m n)

/-- What makes changes the step from one document to another. -/
structure LeadsTo (old new : Document) (cs : ChangeSet) : Prop where
  /-- No model is in two changes. -/
  once : (cs.map Change.modelName).Nodup
  /-- Carried out on the old document, the changes give the new one but for the order of models. -/
  result : ∃ d : Document, d.models = cs.carryOut old.models ∧ d.SameModels new
  needed : ∀ c, c ∈ cs ↔ Needs old new c
  /-- Models that are equal are not mentioned. -/
  untouched : ∀ m ∈ old.models, ∀ n ∈ new.models, (m == n) = true → ∀ c ∈ cs, c.modelName ≠ m.name
  /-- Creations in the order of the new document, drops in that of the old, and updates in that of
  the new. -/
  order : ∃ (creates : List Model) (drops : List Identifier) (updates : List (Model × Model)),
    cs = creates.map .create ++ drops.map .drop ++
        updates.map (fun u => .update u.2.name u.1 u.2) ∧
      creates.Sublist new.models ∧ drops.Sublist old.names ∧
      (updates.map Prod.snd).Sublist new.models

variable {old new : Document} {name : Identifier} {m n : Model} {c : Change}

theorem contains_iff {d : Document} : d.Contains name ↔ ∃ m, d.get? name = some m := by
  simp only [get?_eq_some_iff]
  exact List.mem_map

theorem get?_of_mem {d : Document} (h : m ∈ d.models) : d.get? m.name = some m :=
  get?_eq_some_iff.mpr ⟨h, rfl⟩

theorem mem_creations_iff : c ∈ creations old new ↔
    ∃ m ∈ new.models, ¬ old.Contains m.name ∧ c = .create m := by
  simp [creations, and_assoc, eq_comm (a := c)]

theorem mem_removals_iff : c ∈ removals old new ↔
    ∃ name, old.Contains name ∧ ¬ new.Contains name ∧ c = .drop name := by
  simp only [removals, List.mem_map, List.mem_filter, Bool.not_eq_true', decide_eq_false_iff_not,
    and_assoc, eq_comm (a := c)]
  rfl

theorem mem_updates_iff : c ∈ updates old new ↔
    ∃ m n, old.get? n.name = some m ∧ n ∈ new.models ∧ ¬ (m == n) = true ∧
      c = .update n.name m n := by
  simp only [updates, List.mem_filterMap]
  constructor
  · rintro ⟨n, mem, found⟩
    split at found
    · next m before =>
      split at found
      · cases found
      · next differ =>
        cases found
        exact ⟨m, n, before, mem, differ, rfl⟩
    · cases found
  · rintro ⟨m, n, before, mem, differ, rfl⟩
    exact ⟨n, mem, by simp [before, differ]⟩

/-- Just the changes that are needed are found. -/
theorem mem_diff_iff : c ∈ old.diff new ↔ Needs old new c := by
  rw [diff, List.mem_append, List.mem_append, mem_creations_iff, mem_removals_iff, mem_updates_iff]
  constructor
  · rintro ((⟨m, mem, fresh, rfl⟩ | ⟨name, known, gone, rfl⟩) | ⟨m, n, before, mem, differ, rfl⟩)
    · exact .create mem fresh
    · exact .drop known gone
    · exact .update before (get?_of_mem mem) differ
  · intro needs
    cases needs with
    | create mem fresh => exact .inl (.inl ⟨_, mem, fresh, rfl⟩)
    | drop known gone => exact .inl (.inr ⟨_, known, gone, rfl⟩)
    | update before after differ =>
      obtain ⟨mem, rfl⟩ := get?_eq_some_iff.mp after
      exact .inr ⟨_, _, before, mem, differ, rfl⟩

theorem exists_updates_eq (old new : Document) : ∃ us : List (Model × Model),
    updates old new = us.map (fun u => .update u.2.name u.1 u.2) ∧
      (us.map Prod.snd).Sublist new.models := by
  unfold updates
  induction new.models with
  | nil => exact ⟨[], rfl, .slnil⟩
  | cons m ms ih =>
    obtain ⟨us, rest, sublist⟩ := ih
    rw [List.filterMap_cons, rest]
    cases before : old.get? m.name with
    | none => exact ⟨us, rfl, sublist.cons m⟩
    | some previous =>
      by_cases same : (previous == m) = true
      · exact ⟨us, by simp [same], sublist.cons m⟩
      · exact ⟨(previous, m) :: us, by simp [same], sublist.cons_cons m⟩

theorem diff_order (old new : Document) :
    ∃ (creates : List Model) (drops : List Identifier) (updates : List (Model × Model)),
      old.diff new = creates.map .create ++ drops.map .drop ++
          updates.map (fun u => .update u.2.name u.1 u.2) ∧
        creates.Sublist new.models ∧ drops.Sublist old.names ∧
        (updates.map Prod.snd).Sublist new.models := by
  obtain ⟨us, same, sublist⟩ := exists_updates_eq old new
  exact ⟨_, _, us, by rw [diff, same]; rfl, List.filter_sublist, List.filter_sublist, sublist⟩

theorem Needs.names (h : Needs old new c) :
    match c with
    | .create m => ¬ old.Contains m.name
    | .drop name => old.Contains name ∧ ¬ new.Contains name
    | .update name _ _ => old.Contains name ∧ new.Contains name := by
  cases h with
  | create _ fresh => exact fresh
  | drop known gone => exact ⟨known, gone⟩
  | update before after _ => exact ⟨contains_iff.mpr ⟨_, before⟩, contains_iff.mpr ⟨_, after⟩⟩

theorem nodup_map_modelName_diff (old new : Document) :
    ((old.diff new).map Change.modelName).Nodup := by
  obtain ⟨creates, drops, updates, found, createsOf, dropsOf, updatesOf⟩ := diff_order old new
  have names {c : Change} (h : c ∈ old.diff new) := (mem_diff_iff.mp h).names
  have fresh : ∀ m ∈ creates, ¬ old.Contains m.name :=
    fun m hm => names (c := .create m) (by simp [found, hm])
  have gone : ∀ name ∈ drops, old.Contains name ∧ ¬ new.Contains name :=
    fun name hname => names (c := .drop name) (by simp [found, hname])
  have kept : ∀ u ∈ updates, old.Contains u.2.name ∧ new.Contains u.2.name :=
    fun u hu => names (c := .update u.2.name u.1 u.2) (by
      rw [found]
      exact List.mem_append_right _ (List.mem_map_of_mem hu))
  have updated : (updates.map fun u => u.2.name).Nodup := by
    have := new.distinct.sublist (updatesOf.map Model.name)
    rwa [List.map_map] at this
  rw [found]
  simp only [List.map_append, List.map_map, Function.comp_def, Change.modelName, List.map_id']
  refine List.nodup_append.mpr ⟨List.nodup_append.mpr ⟨?_, ?_, ?_⟩, updated, ?_⟩
  · exact new.distinct.sublist (createsOf.map Model.name)
  · exact old.distinct.sublist dropsOf
  · intro name hname other hother same
    obtain ⟨m, hm, rfl⟩ := List.mem_map.mp hname
    exact fresh m hm (same ▸ (gone other hother).1)
  · intro name hname other hother same
    obtain ⟨u, hu, rfl⟩ := List.mem_map.mp hother
    rcases List.mem_append.mp hname with hname | hname
    · obtain ⟨m, hm, rfl⟩ := List.mem_map.mp hname
      exact fresh m hm (same ▸ (kept u hu).1)
    · exact (gone name hname).2 (same ▸ (kept u hu).2)

theorem modelName_ne_of_mem_diff (hm : m ∈ old.models) (hn : n ∈ new.models)
    (same : (m == n) = true) (h : c ∈ old.diff new) : c.modelName ≠ m.name := by
  obtain ⟨name, -⟩ := Model.beq_iff.mp same
  have before := get?_of_mem hm
  have after := get?_of_mem hn
  rw [← name] at after
  cases mem_diff_iff.mp h with
  | @create k _ fresh =>
    intro (e : k.name = m.name)
    exact fresh (contains_iff.mpr ⟨m, e ▸ before⟩)
  | @drop dropped _ gone =>
    intro (e : dropped = m.name)
    exact gone (contains_iff.mpr ⟨n, e ▸ after⟩)
  | update before' after' differ =>
    rintro rfl
    cases before.symm.trans before'
    cases after.symm.trans after'
    exact differ same

/-- The definition that a document gives to a model. -/
def definition (d : Document) (m : Model) : Model := (d.get? m.name).getD m

theorem mem_dropped_diff : name ∈ (old.diff new).dropped ↔ old.Contains name ∧ ¬ new.Contains name := by
  rw [ChangeSet.mem_dropped, mem_diff_iff]
  exact ⟨fun h => h.names, fun h => .drop h.1 h.2⟩

theorem mem_createdModels_diff :
    m ∈ (old.diff new).createdModels ↔ m ∈ new.models ∧ ¬ old.Contains m.name := by
  rw [ChangeSet.mem_createdModels, mem_diff_iff]
  constructor
  · intro h
    cases h with
    | create mem fresh => exact ⟨mem, fresh⟩
  · exact fun h => .create h.1 h.2

theorem createdModels_diff_sublist (old new : Document) :
    (old.diff new).createdModels.Sublist new.models := by
  obtain ⟨creates, drops, updates, found, sublist, -, -⟩ := diff_order old new
  have created : (old.diff new).createdModels = creates := by
    rw [found]
    simp [ChangeSet.createdModels, List.filterMap_map]
  rwa [created]

/-- What is made of a model that stays is what the new document has. -/
theorem updated_beq_definition (hm : m ∈ old.models) (stays : new.Contains m.name) :
    (((old.diff new).update? m.name).getD m == new.definition m) = true := by
  obtain ⟨n, after⟩ := contains_iff.mp stays
  rw [definition, after, Option.getD_some]
  cases found : (old.diff new).update? m.name with
  | some k =>
    obtain ⟨_, mem⟩ := ChangeSet.mem_of_update? found
    cases mem_diff_iff.mp mem with
    | update _ after' _ =>
      cases after.symm.trans after'
      exact n.beq_refl
  | none =>
    by_contra differ
    refine ChangeSet.not_mem_of_update? found m n (mem_diff_iff.mpr ?_)
    exact .update (get?_of_mem hm) after differ

theorem perm_definitions (old new : Document) :
    ((old.models.filter (·.name ∉ (old.diff new).dropped)).map new.definition ++
      (old.diff new).createdModels).Perm new.models := by
  have mem_kept (m : Model) : m ∈ old.models.filter (·.name ∉ (old.diff new).dropped) ↔
      m ∈ old.models ∧ new.Contains m.name := by
    simp only [List.mem_filter, decide_eq_true_eq, mem_dropped_diff, not_and, not_not]
    exact and_congr_right fun hm => forall_prop_of_true (List.mem_map_of_mem hm)
  apply perm_of_replaced old.distinct new.distinct List.filter_sublist
    (createdModels_diff_sublist old new) mem_kept
  · exact fun m => mem_createdModels_diff
  · intro m hm
    obtain ⟨n, after⟩ := contains_iff.mp ((mem_kept m).mp hm).2
    rw [definition, after]
    exact get?_eq_some_iff.mp after

theorem exists_carryOut_diff (old new : Document) :
    ∃ d : Document, d.models = (old.diff new).carryOut old.models ∧ d.SameModels new := by
  have same : List.Forall₂ (fun m n : Model => (m == n) = true) ((old.diff new).carryOut old.models)
      ((old.models.filter (·.name ∉ (old.diff new).dropped)).map new.definition ++
        (old.diff new).createdModels) := by
    refine List.rel_append ?_ (List.forall₂_same.mpr fun m _ => m.beq_refl)
    refine List.forall₂_map_left_iff.mpr (List.forall₂_map_right_iff.mpr ?_)
    refine List.forall₂_same.mpr fun m hm => ?_
    obtain ⟨hm, stays⟩ := List.mem_filter.mp hm
    simp only [decide_eq_true_eq, mem_dropped_diff, not_and, not_not] at stays
    exact updated_beq_definition hm (stays (List.mem_map_of_mem hm))
  have perm := perm_definitions old new
  have names := map_eq_map_of_forall₂ same fun m n h => (Model.beq_iff.mp h).1
  exact ⟨⟨_, names ▸ (perm.map Model.name).nodup_iff.mpr new.distinct⟩, rfl, _, same, perm⟩

/-- Documents with the same models need no changes. -/
theorem not_needs_of_sameModels (same : old.SameModels new) : ¬ Needs old new c := by
  obtain ⟨ms, equal, perm⟩ := same
  have names : (old.names).Perm new.names := by
    have := perm.map Model.name
    rwa [← map_eq_map_of_forall₂ equal fun m n h => (Model.beq_iff.mp h).1] at this
  intro needs
  cases needs with
  | create mem fresh => exact fresh (names.mem_iff.mpr (List.mem_map_of_mem mem))
  | drop known gone => exact gone (names.mem_iff.mp known)
  | @update name m n before after differ =>
    obtain ⟨hm, rfl⟩ := get?_eq_some_iff.mp before
    obtain ⟨k, hk, same⟩ := exists_mem_of_forall₂ equal hm
    have after' := get?_of_mem (perm.mem_iff.mp hk)
    rw [← (Model.beq_iff.mp same).1] at after'
    cases after.symm.trans after'
    exact differ same

/-- The changes between two documents are the step from one to the other. There are none just where the
two have the same models. -/
theorem diff_leadsTo (old new : Document) :
    LeadsTo old new (old.diff new) ∧ (old.diff new = [] ↔ old.SameModels new) := by
  have step : LeadsTo old new (old.diff new) := {
    once := nodup_map_modelName_diff old new
    result := exists_carryOut_diff old new
    needed := fun _ => mem_diff_iff
    untouched := fun _ hm _ hn same _ h => modelName_ne_of_mem_diff hm hn same h
    order := diff_order old new }
  refine ⟨step, fun none => ?_, fun same => ?_⟩
  · obtain ⟨d, models, same⟩ := step.result
    rw [none] at models
    have unchanged : d = old := Document.ext (models.trans (by
      simp [ChangeSet.carryOut, ChangeSet.dropped, ChangeSet.update?, ChangeSet.createdModels]))
    exact unchanged ▸ same
  · exact List.eq_nil_iff_forall_not_mem.mpr fun c h =>
      not_needs_of_sameModels same (mem_diff_iff.mp h)

end Document

end SchemaPlan
