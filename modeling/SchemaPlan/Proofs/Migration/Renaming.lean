import SchemaPlan.Proofs.Migration.Collision
import SchemaPlan.Proofs.Migration.Step
import SchemaPlan.Proofs.Naming.LetterCase

/-!
# Models renamed in case only

Such a rename drops one model and creates another. Whether the two are flagged is decided by their
tables, whatever else is in the plan: names that are cut into words differently get tables of their own.
-/

namespace SchemaPlan

/-- Both models are among those that share a table. -/
def Diagnostic.Flags (d : Diagnostic) (a b : Identifier) : Prop :=
  ∃ table models, d = .tableNameCollision table models ∧ a ∈ models ∧ b ∈ models

def Plan.Flags (p : Plan) (a b : Identifier) : Prop := ∃ d ∈ p.diagnostics, d.Flags a b

namespace Operation

variable {fold : String → String} {op : Operation} {ops : List Operation} {a b : Identifier}

/-- Some operation on the first model and some on the second are on one table. -/
def Meet (fold : String → String) (ops : List Operation) (a b : Identifier) : Prop :=
  ∃ x ∈ ops, ∃ y ∈ ops, x.model = a ∧ y.model = b ∧ x.OnTableOf fold y

theorem onTableOf_of_mem_group {x : Operation} (h : x ∈ op.group fold ops) :
    op.OnTableOf fold x := by
  rcases List.mem_cons.mp h with rfl | h
  · rfl
  · exact of_decide_eq_true (List.mem_filter.mp h).2

theorem mem_cons_of_mem_group {x : Operation} (h : x ∈ op.group fold ops) : x ∈ op :: ops :=
  (List.filter_sublist.cons_cons op).mem h

theorem mem_others_iff {x : Operation} :
    x ∈ op.others fold ops ↔ x ∈ op :: ops ∧ ¬ op.OnTableOf fold x := by
  rw [others, List.mem_filter, decide_eq_true_iff, List.mem_cons]
  constructor
  · rintro ⟨mem, apart⟩
    exact ⟨.inr mem, apart⟩
  · rintro ⟨rfl | mem, apart⟩
    · exact absurd rfl apart
    · exact ⟨mem, apart⟩

theorem mem_group_of_onTableOf {x : Operation} (mem : x ∈ op :: ops) (same : op.OnTableOf fold x) :
    x ∈ op.group fold ops := by
  rcases List.mem_cons.mp mem with rfl | mem
  · exact List.mem_cons_self
  · exact List.mem_cons_of_mem _ (List.mem_filter.mpr ⟨mem, decide_eq_true same⟩)

theorem mem_models : a ∈ models ops ↔ ∃ x ∈ ops, x.model = a := by
  rw [models, List.mem_eraseDups, List.mem_map]

/-- Models meet on the table of the first operation or on another one. -/
theorem meet_cons_iff : Meet fold (op :: ops) a b ↔
    (a ∈ models (op.group fold ops) ∧ b ∈ models (op.group fold ops)) ∨
      Meet fold (op.others fold ops) a b := by
  constructor
  · rintro ⟨x, hx, y, hy, ofA, ofB, same⟩
    by_cases first : op.OnTableOf fold x
    · have first' : op.OnTableOf fold y := same.trans first
      exact .inl ⟨mem_models.mpr ⟨x, mem_group_of_onTableOf hx first, ofA⟩,
        mem_models.mpr ⟨y, mem_group_of_onTableOf hy first', ofB⟩⟩
    · have first' : ¬ op.OnTableOf fold y := fun h => first (same.symm.trans h)
      exact .inr ⟨x, mem_others_iff.mpr ⟨hx, first⟩, y, mem_others_iff.mpr ⟨hy, first'⟩, ofA, ofB,
        same⟩
  · rintro (⟨ha, hb⟩ | ⟨x, hx, y, hy, ofA, ofB, same⟩)
    · obtain ⟨x, hx, ofA⟩ := mem_models.mp ha
      obtain ⟨y, hy, ofB⟩ := mem_models.mp hb
      exact ⟨x, mem_cons_of_mem_group hx, y, mem_cons_of_mem_group hy, ofA, ofB,
        (onTableOf_of_mem_group hy).trans (onTableOf_of_mem_group hx).symm⟩
    · exact ⟨x, (mem_others_iff.mp hx).1, y, (mem_others_iff.mp hy).1, ofA, ofB, same⟩

theorem sharesTable_of_mem_models (apart : a ≠ b) (ha : a ∈ models (op.group fold ops))
    (hb : b ∈ models (op.group fold ops)) : op.SharesTable fold ops := by
  rw [← one_lt_length_models_iff]
  by_contra few
  obtain ⟨m, only⟩ := List.length_eq_one_iff.mp
    (Nat.le_antisymm (not_lt.mp few) (List.length_pos_of_mem ha))
  rw [only, List.mem_singleton] at ha hb
  exact apart (ha.trans hb.symm)

end Operation

theorem Diagnostic.flags_collision_iff {table : String} {models : List Identifier} {a b : Identifier} :
    (tableNameCollision table models).Flags a b ↔ a ∈ models ∧ b ∈ models := by
  simp [Flags]

/-- Among what collides, two models are flagged just if they meet on a table. -/
theorem Collide.flags_iff {fold : String → String} {ops : List Operation} {ds : List Diagnostic}
    (h : Collide fold ops ds) {a b : Identifier} (apart : a ≠ b) :
    (∃ d ∈ ds, d.Flags a b) ↔ Operation.Meet fold ops a b := by
  induction h with
  | nil => simp [Operation.Meet]
  | shared _ _ ih =>
    rw [Operation.meet_cons_iff, ← ih]
    simp [Diagnostic.flags_collision_iff]
  | single single _ ih =>
    rw [ih, Operation.meet_cons_iff, or_iff_right]
    exact fun ⟨ha, hb⟩ => single (Operation.sharesTable_of_mem_models apart ha hb)

theorem Notes.not_flags {o : PlanOptions} {known? : Option Document}
    {sites : List (Identifier × Field)} {notes : List Diagnostic} (h : Notes o known? sites notes)
    (a b : Identifier) : ¬ ∃ d ∈ notes, d.Flags a b := by
  rintro ⟨d, hd, table, models, rfl, -⟩
  obtain ⟨site, -, note⟩ := h.exists_mem hd
  cases note

/-- The operations of some changes are on the tables of the models that these name. -/
theorem Operation.meet_map_iff {fold : String → String} {tableName : Identifier → String}
    {changes : ChangeSet} {a b : Identifier} :
    Meet fold (changes.map (ofChange tableName)) a b ↔
      a ∈ changes.map Change.modelName ∧ b ∈ changes.map Change.modelName ∧
        fold (tableName a) = fold (tableName b) := by
  have model (c : Change) : (ofChange tableName c).model = c.modelName :=
    (operationOf_ofChange _ c).model_eq
  have table (c : Change) : (ofChange tableName c).table = tableName c.modelName :=
    model c ▸ (operationOf_ofChange _ c).table_eq
  constructor
  · rintro ⟨_, hx, _, hy, ofA, ofB, meet⟩
    obtain ⟨c, hc, rfl⟩ := List.mem_map.mp hx
    obtain ⟨d, hd, rfl⟩ := List.mem_map.mp hy
    rw [model] at ofA ofB
    rw [OnTableOf, table, table, ofA, ofB] at meet
    exact ⟨List.mem_map.mpr ⟨c, hc, ofA⟩, List.mem_map.mpr ⟨d, hd, ofB⟩, meet.symm⟩
  · rintro ⟨ha, hb, meet⟩
    obtain ⟨c, hc, rfl⟩ := List.mem_map.mp ha
    obtain ⟨d, hd, rfl⟩ := List.mem_map.mp hb
    refine ⟨_, List.mem_map_of_mem hc, _, List.mem_map_of_mem hd, model c, model d, ?_⟩
    rw [OnTableOf, table, table, meet]

/-- Models are flagged just if both are changed and have one table. -/
theorem flags_plan_iff (o : PlanOptions) (known? : Option Document) (changes : ChangeSet)
    {a b : Identifier} (apart : a ≠ b) :
    (o.plan known? changes).Flags a b ↔
      a ∈ changes.map Change.modelName ∧ b ∈ changes.map Change.modelName ∧
        (o.tableNaming.tableName a).toLower = (o.tableNaming.tableName b).toLower := by
  have silent := (notes_flatMap o known? changes).not_flags a b
  have collide := collide_collisions String.toLower (o.plan known? changes).operations
  refine Iff.trans ?_ ((collide.flags_iff apart).trans Operation.meet_map_iff)
  constructor
  · rintro ⟨d, hd, flags⟩
    rcases List.mem_append.mp hd with note | collision
    · exact absurd ⟨d, note, flags⟩ silent
    · exact ⟨d, collision, flags⟩
  · rintro ⟨d, hd, flags⟩
    exact ⟨d, List.mem_append_right _ hd, flags⟩

theorem ChangeSet.mem_created {cs : ChangeSet} {name : Identifier} :
    name ∈ cs.created ↔ ∃ m, .create m ∈ cs ∧ m.name = name := by
  simp only [created, List.mem_filterMap]
  constructor
  · rintro ⟨m | _ | _, mem, found⟩
    · exact ⟨m, mem, Option.some.inj found⟩
    · cases found
    · cases found
  · rintro ⟨m, mem, rfl⟩
    exact ⟨_, mem, rfl⟩

/-- A model that is created and one that is dropped, named by the same letters, are flagged unless
tables are named in snake case and the names are cut into different words. -/
theorem flags_of_rename (o : PlanOptions) (known? : Option Document) (old new : Document)
    {a b : Identifier} (created : a ∈ (old.diff new).created) (dropped : b ∈ (old.diff new).dropped)
    (same : a.SameLetters b) :
    (o.plan known? (old.diff new)).Flags a b ↔ (o.tableNaming = .snakePlural → a.CutAlike b) := by
  obtain ⟨m, creation, rfl⟩ := ChangeSet.mem_created.mp created
  have removal := ChangeSet.mem_dropped.mp dropped
  have apart : m.name ≠ b := by
    rintro rfl
    exact (Document.mem_diff_iff.mp creation).names (Document.mem_dropped_diff.mp dropped).1
  have changed : m.name ∈ (old.diff new).map Change.modelName := List.mem_map.mpr ⟨_, creation, rfl⟩
  have changed' : b ∈ (old.diff new).map Change.modelName := List.mem_map.mpr ⟨_, removal, rfl⟩
  rw [flags_plan_iff o known? _ apart, and_iff_right changed, and_iff_right changed',
    o.tableNaming.toLower_tableName_iff same]

/-- Both names are one word. -/
theorem flags_of_user :
    let m : Model := ⟨⟨"user", by decide⟩, [], by simp⟩
    let n : Model := ⟨⟨"User", by decide⟩, [], by simp⟩
    let old : Document := ⟨[m], by simp⟩
    let new : Document := ⟨[n], by simp⟩
    n.name ∈ (old.diff new).created ∧ m.name ∈ (old.diff new).dropped ∧ n.name.SameLetters m.name ∧
      (PlanOptions.plan {} none (old.diff new)).Flags n.name m.name := by
  intro m n old new
  have created : n.name ∈ (old.diff new).created := by decide
  have dropped : m.name ∈ (old.diff new).dropped := by decide
  have same : n.name.SameLetters m.name := by decide
  have cut : n.name.CutAlike m.name := by decide
  have flagged := flags_of_rename {} none old new created dropped same
  exact ⟨created, dropped, same, flagged.mpr fun _ => cut⟩

/-- Two words, and one of the same letters. -/
theorem unflagged_profile :
    let m : Model := ⟨⟨"UserProfile", by decide⟩, [], by simp⟩
    let n : Model := ⟨⟨"Userprofile", by decide⟩, [], by simp⟩
    let old : Document := ⟨[m], by simp⟩
    let new : Document := ⟨[n], by simp⟩
    n.name ∈ (old.diff new).created ∧ m.name ∈ (old.diff new).dropped ∧ n.name.SameLetters m.name ∧
      ¬ (PlanOptions.plan {} none (old.diff new)).Flags n.name m.name := by
  intro m n old new
  have created : n.name ∈ (old.diff new).created := by decide
  have dropped : m.name ∈ (old.diff new).dropped := by decide
  have same : n.name.SameLetters m.name := by decide
  have quiet : (PlanOptions.plan {} none (old.diff new)).diagnostics = [] := by decide +kernel
  refine ⟨created, dropped, same, ?_⟩
  rintro ⟨d, hd, -⟩
  rw [quiet] at hd
  cases hd

end SchemaPlan
