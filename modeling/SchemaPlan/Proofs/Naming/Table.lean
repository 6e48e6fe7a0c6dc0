import SchemaPlan.Proofs.Migration.Reflection
import SchemaPlan.Proofs.Naming.Plural
import SchemaPlan.Proofs.Naming.Word
import SchemaPlan.Proofs.Schema.Identifier

/-!
# Usable table names

A name in snake case leaves out the underscores that a model's name begins with. What remains is the
name of a table unless it begins with a digit, or is nothing.
-/

namespace SchemaPlan

/-- The names that tables can be named after: in snake case, those whose first character other than an
underscore is a letter. -/
def TableNaming.Suits : TableNaming → Identifier → Prop
  | .asDeclared, _ => True
  | .snakePlural, model => ∃ c, model.text.toList.find? (· ≠ '_') = some c ∧ c.isAlpha = true

/-- How far the name of a model's table can be used. -/
structure TableNaming.NamesTable (n : TableNaming) (model : Identifier) (table : String) : Prop where
  parts : ∀ c ∈ table.toList, isIdentifierPart c = true
  usable : isIdentifier table.toList = true ↔ n.Suits model
  empty : table = "" ↔ n = .snakePlural ∧ ∀ c ∈ model.text.toList, c = '_'

namespace Naming

theorem isIdentifierStart_toLower {c : Char} (solid : c ≠ '_') :
    isIdentifierStart c.toLower = true ↔ c.isAlpha = true := by
  rw [isIdentifierStart, isAlpha_toLower]
  simp [toLower_eq_underscore_iff, solid]

theorem isIdentifierPart_toLower {c : Char} (h : isIdentifierPart c = true) :
    isIdentifierPart c.toLower = true := by
  by_cases letter : c.isAlpha = true
  · apply isIdentifierPart_of_isAlpha
    rwa [isAlpha_toLower]
  · have noCapital : ¬ c.isUpper := by
      unfold Char.isAlpha at letter
      rw [Bool.or_eq_true, not_or] at letter
      exact letter.1
    rwa [toLower_eq_self noCapital]

theorem isIdentifierPart_snakeCase {cs : List Char} (h : ∀ c ∈ cs, isIdentifierPart c = true) :
    ∀ c ∈ snakeCase cs, isIdentifierPart c = true := by
  intro c hc
  rcases mem_snakeCase hc with rfl | ⟨d, hd, rfl⟩
  · rfl
  · exact isIdentifierPart_toLower (h d hd)

theorem isIdentifier_snakeCase_iff {cs : List Char} (h : ∀ c ∈ cs, isIdentifierPart c = true) :
    isIdentifier (snakeCase cs) = true ↔ ∃ c, cs.find? (· ≠ '_') = some c ∧ c.isAlpha = true := by
  have first := head?_snakeCase cs
  have parts := isIdentifierPart_snakeCase h
  cases found : cs.find? (· ≠ '_') with
  | none =>
    rw [found, Option.map_none, List.head?_eq_none_iff] at first
    simp [first, isIdentifier]
  | some c =>
    have solid : c ≠ '_' := by simpa using List.find?_some found
    rw [found, Option.map_some, List.head?_eq_some_iff] at first
    obtain ⟨rest, spelt⟩ := first
    rw [spelt] at parts ⊢
    have rest : rest.all isIdentifierPart = true :=
      List.all_eq_true.mpr fun d hd => parts d (List.mem_cons_of_mem _ hd)
    simp [isIdentifier, rest, isIdentifierStart_toLower solid]

theorem snakeCase_eq_nil_iff {cs : List Char} : snakeCase cs = [] ↔ ∀ c ∈ cs, c = '_' := by
  rw [← List.head?_eq_none_iff, head?_snakeCase, Option.map_eq_none_iff]
  simp

end Naming

theorem TableNaming.namesTable (n : TableNaming) (model : Identifier) :
    n.NamesTable model (n.tableName model) := by
  have valid := isIdentifierPart_of_isIdentifier model.valid
  cases n with
  | asDeclared =>
    exact
      { parts := valid
        usable := iff_of_true model.valid trivial
        empty := iff_of_false model.text_ne_empty fun h => by cases h.1 }
  | snakePlural =>
    have inflected := Naming.inflected_plural (Naming.snakeCase model.text.toList)
    have spelt : (TableNaming.snakePlural.tableName model).toList =
        Naming.plural (Naming.snakeCase model.text.toList) := String.toList_ofList
    refine { parts := ?_, usable := ?_, empty := ?_ }
    · rw [spelt]
      exact inflected.isIdentifierPart (Naming.isIdentifierPart_snakeCase valid)
    · rw [spelt, inflected.isIdentifier_iff]
      exact Naming.isIdentifier_snakeCase_iff valid
    · rw [← String.toList_inj, spelt, String.toList_empty, inflected.eq_nil_iff,
        Naming.snakeCase_eq_nil_iff]
      exact (and_iff_right rfl).symm

/-- Every table of a plan has a name of letters, digits and underscores. It can be used unless it is in
snake case and the model's name, after any underscores, begins with a digit or ends. -/
theorem namesTable_of_plan (o : PlanOptions) (known? : Option Document) (changes : ChangeSet) :
    (∀ (n : TableNaming) (model : Identifier), n.NamesTable model (n.tableName model)) ∧
      ∀ op ∈ (o.plan known? changes).operations,
        o.tableNaming.NamesTable op.model op.table ∧
        ∀ c ∈ op.columns, ∀ r, c.reference? = some r →
          o.tableNaming.NamesTable r.model r.table := by
  refine ⟨TableNaming.namesTable, fun op hop => ?_⟩
  obtain ⟨change, -, rfl⟩ := List.mem_map.mp hop
  have told := operationOf_ofChange o.tableNaming.tableName change
  constructor
  · rw [told.table_eq]
    exact o.tableNaming.namesTable _
  · intro c hc r hr
    rw [told.reference_table hc hr]
    exact o.tableNaming.namesTable _

/-- A new model, and a model that it refers to. -/
theorem namesTable_of_post :
    let post : Identifier := ⟨"Post", by decide⟩
    let user : Identifier := ⟨"User", by decide⟩
    let m : Model := ⟨post, [⟨⟨"author", by decide⟩, .belongsTo user, ∅⟩], by decide⟩
    ∃ op ∈ (PlanOptions.plan {} none [.create m]).operations, ∃ c ∈ op.columns, ∃ r,
      c.reference? = some r ∧ TableNaming.snakePlural.NamesTable post op.table ∧
        TableNaming.snakePlural.NamesTable user r.table := by
  intro post user m
  let op := Operation.ofChange TableNaming.snakePlural.tableName (.create m)
  let c := Field.column ⟨⟨"author", by decide⟩, .belongsTo user, ∅⟩ TableNaming.snakePlural.tableName
  have hop : op ∈ (PlanOptions.plan {} none [.create m]).operations := List.mem_singleton.mpr rfl
  have hc : c ∈ op.columns := List.mem_singleton.mpr rfl
  obtain ⟨table, references⟩ := (namesTable_of_plan {} none [.create m]).2 op hop
  exact ⟨op, hop, c, hc, _, rfl, table, references c hc _ rfl⟩

/-- Models whose tables have no name, and one that begins with a digit. -/
theorem tables_of_underscores :
    let blank : Model := ⟨⟨"_", by decide⟩, [], by simp⟩
    let first : Model := ⟨⟨"_1", by decide⟩, [], by simp⟩
    (PlanOptions.plan {} none [.create blank, .create first]).operations.map Operation.table =
        ["", "1s"] ∧
      ∀ op ∈ (PlanOptions.plan {} none [.create blank, .create first]).operations,
        ¬ isIdentifier op.table.toList := by
  intro blank first
  have tables : (PlanOptions.plan {} none [.create blank, .create first]).operations.map
      Operation.table = ["", "1s"] := by decide +kernel
  refine ⟨tables, fun op hop => ?_⟩
  have table : op.table ∈ ["", "1s"] := tables ▸ List.mem_map_of_mem hop
  generalize op.table = name at table
  revert name
  decide

end SchemaPlan
