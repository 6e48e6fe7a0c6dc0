import SchemaPlan.Migration.Plan
import SchemaPlan.Proofs.Result
import SchemaPlan.Proofs.Schema.AttributeSet

/-!
# What a plan says of its changes

A plan has one operation for each change, and its columns and notes are told from the fields alone.
Here this is laid down by rules, apart from how plans are built.
-/

namespace SchemaPlan

/-- The type words that are kept in a storage class. -/
def Storage.words : Storage → List String
  | .string => ["string", "text", "char", "varchar"]
  | .integer => ["integer", "int", "bigint", "smallint", "tinyint"]
  | .boolean => ["boolean"]
  | .timestamp => ["datetime", "timestamp"]
  | .date => ["date"]
  | .json => ["json", "jsonb"]
  | .float => ["float", "decimal", "double"]

/-- The storage class of a primitive, which needs no type word. -/
def Primitive.storage : Primitive → Storage
  | .string => .string
  | .integer => .integer
  | .boolean => .boolean
  | .timestamp => .timestamp
  | .date => .date
  | .json => .json
  | .float => .float

/-- A relation has the name of its field without a trailing `_id`, unless nothing else would remain. -/
inductive NamesRelation : String → String → Prop
  | stripped {relation : String} : relation ≠ "" → NamesRelation (relation ++ "_id") relation
  | whole {field : String} : (∀ relation, relation ≠ "" → field ≠ relation ++ "_id") →
      NamesRelation field field

/-- The constraints that attributes ask for. -/
structure Constraints.Of (s : AttributeSet) (c : Constraints) : Prop where
  nullable : c.nullable = true ↔ .flag .nullable ∈ s.members
  primary : c.primary = true ↔ .flag .primary ∈ s.members
  unique : c.unique = true ↔ .flag .unique ∈ s.members
  autoIncrement : c.autoIncrement = true ↔ .flag .autoIncrement ∈ s.members
  default : ∀ value, c.default? = some value ↔ .default value ∈ s.members

/-- The column of a field, under a naming of the tables. -/
inductive ColumnOf (tableName : Identifier → String) (f : Field) : Column → Prop
  | relation {target : Identifier} {relation : String} {constraints : Constraints} :
      f.type = .belongsTo target → NamesRelation f.name.text relation →
      constraints.Of f.attributes →
      ColumnOf tableName f
        ⟨relation ++ "_id", .integer, constraints, some ⟨relation, target, tableName target⟩⟩
  | primitive {p : Primitive} {constraints : Constraints} :
      f.type = .primitive p → constraints.Of f.attributes →
      ColumnOf tableName f ⟨f.name.text, p.storage, constraints, none⟩
  | mapped {word : String} {storage : Storage} {constraints : Constraints} :
      f.type = .other word → word ∈ storage.words → constraints.Of f.attributes →
      ColumnOf tableName f ⟨f.name.text, storage, constraints, none⟩
  | unmapped {word : String} {constraints : Constraints} :
      f.type = .other word → (∀ storage : Storage, word ∉ storage.words) →
      constraints.Of f.attributes →
      ColumnOf tableName f ⟨f.name.text, .string, constraints, none⟩

/-- The operation of a change, under a naming of the tables. -/
inductive OperationOf (tableName : Identifier → String) : Change → Operation → Prop
  | create {m : Model} {columns : List Column} :
      List.Forall₂ (ColumnOf tableName) m.fields columns →
      OperationOf tableName (.create m) (.createTable m.name (tableName m.name) columns)
  | drop {name : Identifier} :
      OperationOf tableName (.drop name) (.pending .drop name (tableName name) none)
  | update {name : Identifier} {old new : Model} :
      OperationOf tableName (.update name old new)
        (.pending .update name (tableName name) (some (.between old new)))

/-- The fields of the models that are created, each with its model. -/
def ChangeSet.createdFields (cs : ChangeSet) : List (Identifier × Field) :=
  cs.flatMap fun
    | .create m => m.fields.map (m.name, ·)
    | _ => []

/-- What there is to be said of a field of a created model. -/
inductive Noted (o : PlanOptions) (known? : Option Document) :
    Identifier × Field → Diagnostic → Prop
  | fallback {model : Identifier} {f : Field} {word : String} :
      f.type = .other word → (∀ storage : Storage, word ∉ storage.words) →
      Noted o known? (model, f) (.typeFallback model f.name word)
  | unresolved {model target : Identifier} {f : Field} {known : Document} :
      o.checkReferences = true → known? = some known → f.type = .belongsTo target →
      (∀ m ∈ known.models, m.name ≠ target) →
      Noted o known? (model, f) (.unresolvedReference model f.name target)

/-- The notes on some fields, in their order. Of other fields there is nothing to be said. -/
def Notes (o : PlanOptions) (known? : Option Document) :
    List (Identifier × Field) → List Diagnostic → Prop :=
  Told (Noted o known?)

def Diagnostic.IsCollision (d : Diagnostic) : Prop :=
  ∃ table models, d = .tableNameCollision table models

/-- What a plan says of the changes it is made for. -/
structure Plan.Reflects (p : Plan) (tableName : Identifier → String) (o : PlanOptions)
    (known? : Option Document) (changes : ChangeSet) : Prop where
  operations : List.Forall₂ (OperationOf tableName) changes p.operations
  models : p.operations.map Operation.model = changes.map Change.modelName
  /-- A reference leads to the table of all that is done to its model. -/
  references : ∀ op ∈ p.operations, ∀ c ∈ op.columns, ∀ r, c.reference? = some r →
    ∀ other ∈ p.operations, other.model = r.model → other.table = r.table
  /-- The notes on the created fields come first, and then collisions of tables. -/
  diagnostics : ∃ notes collisions, p.diagnostics = notes ++ collisions ∧
    Notes o known? changes.createdFields notes ∧ ∀ d ∈ collisions, d.IsCollision

theorem Storage.ofTypeName?_eq_some_iff {word : String} {storage : Storage} :
    ofTypeName? word = some storage ↔ word ∈ storage.words := by
  constructor
  · intro found
    simp only [ofTypeName?] at found
    split_ifs at found <;> cases found <;> simp only [words, List.mem_singleton] <;> assumption
  · intro mem
    cases storage <;> simp only [words, List.mem_cons, List.not_mem_nil, or_false] at mem <;>
      rcases mem with rfl | rfl | rfl | rfl | rfl <;> decide

theorem Storage.ofTypeName?_eq_none_iff {word : String} :
    ofTypeName? word = none ↔ ∀ storage : Storage, word ∉ storage.words := by
  simp only [← ofTypeName?_eq_some_iff, Option.eq_none_iff_forall_ne_some, ne_eq]

@[simp] theorem Storage.ofTypeName?_primitive (p : Primitive) :
    ofTypeName? p.name = some p.storage := by
  cases p <;> decide

theorem namesRelation_relationName (field : String) : NamesRelation field (relationName field) := by
  unfold relationName
  split
  · next c cs found =>
    rw [List.isSuffixOf?_eq_some_iff_append_eq] at found
    have spelt : field = .ofList (c :: cs) ++ "_id" := by
      rw [← String.toList_inj, ← found]
      simp
    conv => lhs; rw [spelt]
    exact .stripped (by simp)
  · next other =>
    refine .whole fun relation solid same => ?_
    cases chars : relation.toList with
    | nil => exact solid (String.toList_inj.mp chars)
    | cons c cs =>
      refine other c cs (List.isSuffixOf?_eq_some_iff_append_eq.mpr ?_)
      rw [same, String.toList_append, chars]

theorem Constraints.of_ofAttributes (s : AttributeSet) : (ofAttributes s).Of s :=
  ⟨AttributeSet.hasFlag_iff, AttributeSet.hasFlag_iff, AttributeSet.hasFlag_iff,
    AttributeSet.hasFlag_iff, fun _ => AttributeSet.default?_eq_some_iff⟩

theorem columnOf_column (tableName : Identifier → String) (f : Field) :
    ColumnOf tableName f (f.column tableName) := by
  have constraints := Constraints.of_ofAttributes f.attributes
  cases h : f.type with
  | belongsTo target =>
    simp only [Field.column, h]
    exact .relation h (namesRelation_relationName f.name.text) constraints
  | primitive p =>
    simp only [Field.column, h, FieldType.name, Storage.ofTypeName?_primitive]
    exact .primitive h constraints
  | other word =>
    simp only [Field.column, h, FieldType.name]
    cases found : Storage.ofTypeName? word with
    | some storage => exact .mapped h (Storage.ofTypeName?_eq_some_iff.mp found) constraints
    | none => exact .unmapped h (Storage.ofTypeName?_eq_none_iff.mp found) constraints

theorem operationOf_ofChange (tableName : Identifier → String) (c : Change) :
    OperationOf tableName c (.ofChange tableName c) := by
  cases c with
  | create m =>
    refine .create (List.forall₂_map_right_iff.mpr ?_)
    exact List.forall₂_same.mpr fun f _ => columnOf_column tableName f
  | drop name => exact .drop
  | update name old new => exact .update

namespace Diagnostic

variable {o : PlanOptions} {known? : Option Document}

theorem ofField?_eq_some_iff {model : Identifier} {f : Field} {d : Diagnostic} :
    ofField? (if o.checkReferences then known? else none) model f = some d ↔
      Noted o known? (model, f) d := by
  constructor
  · intro noted
    cases h : f.type with
    | belongsTo target =>
      simp only [ofField?, h] at noted
      split at noted
      · next known given =>
        split_ifs at given noted with checked present
        cases noted
        refine .unresolved checked given h ?_
        rintro m hm rfl
        exact present (List.mem_map_of_mem hm)
      · cases noted
    | primitive p => simp [ofField?, h, FieldType.name] at noted
    | other word =>
      cases found : Storage.ofTypeName? word with
      | some storage => simp [ofField?, h, FieldType.name, found] at noted
      | none =>
        obtain rfl : .typeFallback model f.name word = d := by
          simpa [ofField?, h, FieldType.name, found] using noted
        exact .fallback h (Storage.ofTypeName?_eq_none_iff.mp found)
  · intro noted
    cases noted with
    | fallback h unmapped =>
      rw [← Storage.ofTypeName?_eq_none_iff] at unmapped
      simp [ofField?, h, FieldType.name, unmapped]
    | @unresolved _ target _ known checked given related missing =>
      have absent : ¬ known.Contains target := by
        intro present
        obtain ⟨m, hm, same⟩ := List.mem_map.mp present
        exact missing m hm same
      simp [ofField?, related, checked, given, absent]

/-- The rules leave no choice of notes. -/
theorem notes_iff {sites : List (Identifier × Field)} {ds : List Diagnostic} :
    Notes o known? sites ds ↔ (sites.filterMap fun site =>
      ofField? (if o.checkReferences then known? else none) site.1 site.2) = ds :=
  told_iff fun _ _ _ => ofField?_eq_some_iff.symm

theorem flatMap_ofChange (known? : Option Document) (changes : ChangeSet) :
    changes.flatMap (ofChange known?) =
      changes.createdFields.filterMap fun site => ofField? known? site.1 site.2 := by
  rw [ChangeSet.createdFields, List.filterMap_flatMap]
  congr 1
  funext c
  cases c with
  | create m =>
    show _ = (m.fields.map _).filterMap _
    rw [List.filterMap_map]
    rfl
  | drop name | update name old new => rfl

end Diagnostic

theorem operationsOf_map (tableName : Identifier → String) (changes : ChangeSet) :
    List.Forall₂ (OperationOf tableName) changes (changes.map (Operation.ofChange tableName)) :=
  List.forall₂_map_right_iff.mpr
    (List.forall₂_same.mpr fun c _ => operationOf_ofChange tableName c)

theorem notes_flatMap (o : PlanOptions) (known? : Option Document) (changes : ChangeSet) :
    Notes o known? changes.createdFields
      (changes.flatMap (Diagnostic.ofChange (if o.checkReferences then known? else none))) :=
  Diagnostic.notes_iff.mpr (Diagnostic.flatMap_ofChange _ _).symm

theorem isCollision_of_mem_collisions {fold : String → String} {ops : List Operation} {d : Diagnostic}
    (h : d ∈ collisions fold ops) : d.IsCollision := by
  obtain ⟨g, -, collides⟩ := List.mem_filterMap.mp h
  unfold TableGroup.collision? at collides
  split_ifs at collides
  cases collides
  exact ⟨_, _, rfl⟩

namespace OperationOf

variable {tableName : Identifier → String} {c : Change} {op : Operation}

theorem model_eq (h : OperationOf tableName c op) : op.model = c.modelName := by
  cases h <;> rfl

theorem table_eq (h : OperationOf tableName c op) : op.table = tableName op.model := by
  cases h <;> rfl

theorem reference_table (h : OperationOf tableName c op) {col : Column} (mem : col ∈ op.columns)
    {r : Reference} (hr : col.reference? = some r) : r.table = tableName r.model := by
  cases h with
  | drop => cases mem
  | update => cases mem
  | create columns =>
    have all := forall_mem_of_forall₂ (p := fun _ => True)
      (q := fun col => ∀ r, col.reference? = some r → r.table = tableName r.model) columns
      (fun f col of _ => by
        cases of with
        | relation => rintro r ⟨⟩; rfl
        | primitive | mapped | unmapped => rintro r ⟨⟩)
      (fun _ _ => trivial)
    exact all col mem r hr

end OperationOf

theorem reflects_build (tableName : Identifier → String) (o : PlanOptions) (known? : Option Document)
    (changes : ChangeSet) :
    (Plan.build tableName (if o.checkReferences then known? else none) changes).Reflects tableName o
      known? changes := by
  have operations := operationsOf_map tableName changes
  have told : ∀ op ∈ changes.map (Operation.ofChange tableName), ∃ c, OperationOf tableName c op := by
    simpa using fun c _ => ⟨c, operationOf_ofChange tableName c⟩
  exact
    { operations
      models := (map_eq_map_of_forall₂ operations fun _ _ h => h.model_eq.symm).symm
      references := by
        intro op hop col hcol r hr other hother same
        obtain ⟨_, of⟩ := told op hop
        obtain ⟨_, ofOther⟩ := told other hother
        rw [of.reference_table hcol hr, ofOther.table_eq, same]
      diagnostics := by
        refine ⟨_, _, rfl, notes_flatMap o known? changes, fun _ => isCollision_of_mem_collisions⟩ }

theorem plan_reflects (o : PlanOptions) (known? : Option Document) (changes : ChangeSet) :
    (∀ tableName, (Plan.build tableName (if o.checkReferences then known? else none)
      changes).Reflects tableName o known? changes) ∧
    (o.plan known? changes).Reflects o.tableNaming.tableName o known? changes :=
  ⟨fun tableName => reflects_build tableName o known? changes, reflects_build _ o known? changes⟩

end SchemaPlan
