import SchemaPlan.Proofs.Migration.Reflection

/-!
# Tables that models share

Operations fall into groups by the tables that they are on. A group is reported just if it is about two
models or more, once, where its first operation stands among the others.
-/

namespace SchemaPlan

namespace Operation

variable (fold : String → String) (op : Operation) (ops : List Operation)

/-- Tables are told apart by their folded names. -/
def OnTableOf (other : Operation) : Prop := fold other.table = fold op.table

instance (other : Operation) : Decidable (op.OnTableOf fold other) :=
  inferInstanceAs (Decidable (_ = _))

/-- An operation and those that follow it on its table. -/
def group : List Operation := op :: ops.filter (op.OnTableOf fold ·)

/-- The operations on other tables. -/
def others : List Operation := ops.filter (¬ op.OnTableOf fold ·)

/-- Of the operations on one table, one is about another model than the first. -/
def SharesTable : Prop := ∃ other ∈ ops, op.OnTableOf fold other ∧ other.model ≠ op.model

/-- The models that some operations are about, in the order in which they come up. -/
def models : List Identifier := (ops.map model).eraseDups

end Operation

/-- The collisions among some operations. Those on the table of the first operation come first, told
by its spelling of the table, and then those of the operations on other tables. -/
inductive Collide (fold : String → String) : List Operation → List Diagnostic → Prop
  | nil : Collide fold [] []
  | shared {op ops ds} : op.SharesTable fold ops → Collide fold (op.others fold ops) ds →
      Collide fold (op :: ops)
        (.tableNameCollision op.table (Operation.models (op.group fold ops)) :: ds)
  | single {op ops ds} : ¬ op.SharesTable fold ops → Collide fold (op.others fold ops) ds →
      Collide fold (op :: ops) ds

/-- What a plan tells of tables, besides what it tells of the changes that it is made for. -/
structure Plan.TellsTables (p : Plan) (fold : String → String) (tableName : Identifier → String)
    (o : PlanOptions) (known? : Option Document) (changes : ChangeSet) : Prop where
  operations : List.Forall₂ (OperationOf tableName) changes p.operations
  diagnostics : ∃ notes ds, p.diagnostics = notes ++ ds ∧ Notes o known? changes.createdFields notes ∧
    Collide fold p.operations ds

section Entries

variable {α : Type} [DecidableEq α]

theorem eraseDups_concat (as : List α) (a : α) :
    (as ++ [a]).eraseDups = if a ∈ as then as.eraseDups else as.eraseDups ++ [a] := by
  rw [List.eraseDups_append]
  split
  · next known => simp [List.removeAll, known]
  · next fresh => simp [List.removeAll, fresh, List.eraseDups_cons]

theorem one_lt_length_eraseDups_iff {a : α} {as : List α} :
    1 < (a :: as).eraseDups.length ↔ ∃ b ∈ as, b ≠ a := by
  rw [List.eraseDups_cons, List.length_cons, Nat.lt_add_left_iff_pos, List.length_pos_iff_exists_mem]
  simp

end Entries

namespace TableGroup

variable {fold : String → String} {op : Operation} {ops taken : List Operation}

/-- The group of an operation and some that follow it on its table. -/
def headedBy (fold : String → String) (op : Operation) (taken : List Operation) : TableGroup :=
  ⟨fold op.table, op.table, Operation.models (op :: taken)⟩

theorem add_headedBy {other : Operation} (same : op.OnTableOf fold other) (gs : List TableGroup) :
    add fold other (headedBy fold op taken :: gs) = headedBy fold op (taken ++ [other]) :: gs := by
  have models : Operation.models (op :: (taken ++ [other])) =
      if other.model ∈ Operation.models (op :: taken) then Operation.models (op :: taken)
      else Operation.models (op :: taken) ++ [other.model] := by
    simp only [Operation.models, ← List.cons_append, List.map_append, List.map_singleton,
      eraseDups_concat, List.mem_eraseDups]
  have table : (headedBy fold op taken).key = fold other.table := Eq.symm same
  rw [add, if_pos table, headedBy, headedBy, models]

theorem add_headedBy_other {other : Operation} (apart : ¬ op.OnTableOf fold other)
    (gs : List TableGroup) : add fold other (headedBy fold op taken :: gs) =
      headedBy fold op taken :: add fold other gs := by
  have table : (headedBy fold op taken).key ≠ fold other.table := fun same => apart same.symm
  rw [add, if_neg table]

/-- Operations are filed with the group in front or, apart from it, with the others. -/
theorem foldl_add_headedBy (taken : List Operation) (gs : List TableGroup) :
    ops.foldl (fun groups other => add fold other groups) (headedBy fold op taken :: gs) =
      headedBy fold op (taken ++ ops.filter (op.OnTableOf fold ·)) ::
        (op.others fold ops).foldl (fun groups other => add fold other groups) gs := by
  induction ops generalizing taken gs with
  | nil => simp [Operation.others]
  | cons other ops ih =>
    rw [List.foldl_cons]
    by_cases same : op.OnTableOf fold other
    · rw [add_headedBy same, ih]
      simp [Operation.others, same]
    · rw [add_headedBy_other same, ih]
      simp [Operation.others, same]

theorem ofOperations_cons : ofOperations fold (op :: ops) =
    headedBy fold op (ops.filter (op.OnTableOf fold ·)) :: ofOperations fold (op.others fold ops) :=
  foldl_add_headedBy [] []

end TableGroup

/-- A group collides if its operations are about two models or more. -/
theorem one_lt_length_models_iff {fold : String → String} {op : Operation} {ops : List Operation} :
    1 < (Operation.models (op.group fold ops)).length ↔ op.SharesTable fold ops := by
  rw [Operation.models, Operation.group, List.map_cons, one_lt_length_eraseDups_iff]
  simp [Operation.SharesTable, and_assoc]

theorem collisions_cons_of_shares {fold : String → String} {op : Operation} {ops : List Operation}
    (shared : op.SharesTable fold ops) : collisions fold (op :: ops) =
      .tableNameCollision op.table (Operation.models (op.group fold ops)) ::
        collisions fold (op.others fold ops) := by
  rw [collisions, TableGroup.ofOperations_cons, List.filterMap_cons_some, ← collisions]
  exact if_pos (one_lt_length_models_iff.mpr shared)

theorem collisions_cons_of_not_shares {fold : String → String} {op : Operation}
    {ops : List Operation} (single : ¬ op.SharesTable fold ops) :
    collisions fold (op :: ops) = collisions fold (op.others fold ops) := by
  rw [collisions, TableGroup.ofOperations_cons, List.filterMap_cons_none, ← collisions]
  exact if_neg (mt one_lt_length_models_iff.mp single)

/-- What is found to collide is what collides, group by group. -/
theorem collide_collisions (fold : String → String) (ops : List Operation) :
    Collide fold ops (collisions fold ops) := by
  match ops with
  | [] => exact .nil
  | op :: ops =>
    have rest := collide_collisions fold (op.others fold ops)
    by_cases shares : op.SharesTable fold ops
    · exact collisions_cons_of_shares shares ▸ .shared shares rest
    · exact collisions_cons_of_not_shares shares ▸ .single shares rest
termination_by ops.length
decreasing_by exact Nat.lt_succ_of_le (List.length_filter_le _ ops)

/-- A plan reports the tables that several models share after all else, and changes nothing else. -/
theorem plan_tells_tables (o : PlanOptions) (known? : Option Document) (changes : ChangeSet) :
    (∀ fold tableName, (Plan.build tableName (if o.checkReferences then known? else none) changes
      fold).TellsTables fold tableName o known? changes) ∧
    (o.plan known? changes).TellsTables String.toLower o.tableNaming.tableName o known? changes := by
  have tells (fold : String → String) (tableName : Identifier → String) :
      (Plan.build tableName (if o.checkReferences then known? else none) changes
        fold).TellsTables fold tableName o known? changes :=
    { operations := operationsOf_map tableName changes
      diagnostics := ⟨_, _, rfl, notes_flatMap o known? changes, collide_collisions fold _⟩ }
  exact ⟨tells, tells _ _⟩

end SchemaPlan
