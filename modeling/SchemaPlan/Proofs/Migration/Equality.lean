import SchemaPlan.Migration.Plan
import SchemaPlan.Proofs.Schema.Equality

/-!
# Changes and plans of equal documents

The order of the attributes of a field is kept for printing only. Changes, plans and their texts come out
the same from documents that are equal but for this order.
-/

namespace SchemaPlan

theorem Constraints.ofAttributes_congr {s t : AttributeSet} (same : (s == t) = true) :
    ofAttributes s = ofAttributes t := by
  have perm := AttributeSet.beq_iff.mp same
  have flags (f : Flag) : s.hasFlag f = t.hasFlag f := by
    rw [Bool.eq_iff_iff, AttributeSet.hasFlag_iff, AttributeSet.hasFlag_iff, perm.mem_iff]
  have default : s.default? = t.default? := by
    apply Option.ext
    intro value
    rw [AttributeSet.default?_eq_some_iff, AttributeSet.default?_eq_some_iff, perm.mem_iff]
  simp only [ofAttributes, flags, default]

theorem Field.column_congr {f g : Field} (same : (f == g) = true) (tableName : Identifier → String) :
    f.column tableName = g.column tableName := by
  obtain ⟨name, type, attributes⟩ := beq_iff.mp same
  have constraints := Constraints.ofAttributes_congr (AttributeSet.beq_iff.mpr attributes)
  simp only [column, name, type, constraints]

namespace Model

variable {m n : Model}

theorem fieldNames_congr (same : (m == n) = true) : m.fieldNames = n.fieldNames :=
  map_eq_map_of_forall₂ (beq_iff.mp same).2 fun _ _ h => (Field.beq_iff.mp h).1

theorem field?_congr (same : (m == n) = true) (name : Identifier) :
    Option.Rel (fun f g : Field => (f == g) = true) (m.field? name) (n.field? name) := by
  refine find?_of_forall₂ (beq_iff.mp same).2 fun f g h => ?_
  rw [(Field.beq_iff.mp h).1]

theorem isSome_field?_congr (same : (m == n) = true) (name : Identifier) :
    (m.field? name).isSome = (n.field? name).isSome := by
  have related := field?_congr same name
  generalize m.field? name = found at related
  generalize n.field? name = found' at related
  cases related <;> rfl

end Model

theorem FieldChange.beq_iff {c d : FieldChange} :
    (c == d) = true ↔ c.name = d.name ∧ (c.old == d.old) = true ∧ (c.new == d.new) = true := by
  show (_ && _ && _) = true ↔ _
  simp [and_assoc]

namespace ModelDelta

theorem beq_iff {d e : ModelDelta} : (d == e) = true ↔
    List.Forall₂ (fun f g : Field => (f == g) = true) d.added e.added ∧ d.removed = e.removed ∧
      List.Forall₂ (fun a b : FieldChange => (a == b) = true) d.changed e.changed ∧
      d.reordered = e.reordered := by
  rw [← beq_list_iff, ← beq_list_iff]
  show (_ && _ && _ && _) = true ↔ _
  simp [and_assoc]

variable {old old' new new' : Model}

theorem shared_congr (hold : (old == old') = true) (hnew : (new == new') = true) :
    shared old new = shared old' new' := by
  rw [shared, shared, Model.fieldNames_congr hold]
  exact List.filter_congr fun name _ => Model.isSome_field?_congr hnew name

theorem between_congr (hold : (old == old') = true) (hnew : (new == new') = true) :
    (between old new == between old' new') = true := by
  refine beq_iff.mpr ⟨?_, ?_, ?_, ?_⟩
  · refine List.rel_filter (fun f g h => ?_) (Model.beq_iff.mp hnew).2
    simp only [← Option.not_isSome, (Field.beq_iff.mp h).1, Model.isSome_field?_congr hold]
  · simp only [between, ← Option.not_isSome, Model.fieldNames_congr hold,
      Model.isSome_field?_congr hnew]
  · refine List.rel_filterMap (fun f g h => ?_) (Model.beq_iff.mp hnew).2
    have previous := Model.field?_congr hold f.name
    have name := (Field.beq_iff.mp h).1
    rw [name] at previous ⊢
    generalize old.field? g.name = found at previous
    generalize old'.field? g.name = found' at previous
    cases previous with
    | none => exact .none
    | @some p q first =>
      have same : (p == f) = (q == g) := (BEq.congr_left first).trans (BEq.congr_right h)
      simp only [same]
      cases q == g
      · exact .some (FieldChange.beq_iff.mpr ⟨rfl, first, h⟩)
      · exact .none
  · simp only [between, shared_congr hold hnew, shared_congr hnew hold]

end ModelDelta

namespace Document

variable {d e old old' new new' : Document}

theorem names_congr (same : (d == e) = true) : d.names = e.names :=
  map_eq_map_of_forall₂ (beq_iff.mp same) fun _ _ h => (Model.beq_iff.mp h).1

theorem contains_congr (same : (d == e) = true) (name : Identifier) :
    d.Contains name ↔ e.Contains name := by
  rw [Contains, Contains, names_congr same]

theorem get?_congr (same : (d == e) = true) (name : Identifier) :
    Option.Rel (fun m n : Model => (m == n) = true) (d.get? name) (e.get? name) := by
  refine find?_of_forall₂ (beq_iff.mp same) fun m n h => ?_
  rw [(Model.beq_iff.mp h).1]

end Document

namespace Change

/-- Changes that do the same and carry equal models. -/
inductive Alike : Change → Change → Prop
  | create {m n} : (m == n) = true → Alike (.create m) (.create n)
  | drop {name} : Alike (.drop name) (.drop name)
  | update {name old new old' new'} : (old == old') = true → (new == new') = true →
      Alike (.update name old new) (.update name old' new')

theorem Alike.beq {c d : Change} (h : Alike c d) : (c == d) = true := by
  cases h with
  | create same => exact same
  | @drop name => exact beq_self_eq_true name
  | @update name _ _ _ _ hold hnew =>
    show (name == name && _ && _) = true
    simp [hold, hnew]

theorem Alike.text {c d : Change} (h : Alike c d) : c.text = d.text := by
  cases h with
  | @create m n same =>
    obtain ⟨name, fields⟩ := Model.beq_iff.mp same
    show s!"CREATE model '{m.name}' with {m.fields.length} fields" =
      s!"CREATE model '{n.name}' with {n.fields.length} fields"
    rw [name, fields.length_eq]
  | drop => rfl
  | update => rfl

end Change

theorem ChangeSet.text_congr {cs ds : ChangeSet} (h : List.Forall₂ Change.Alike cs ds) :
    cs.text = ds.text := by
  have texts := map_eq_map_of_forall₂ h fun _ _ same => same.text
  cases h with
  | nil => rfl
  | cons head tail =>
    simp only [text, texts, List.length_cons, tail.length_eq]

namespace Document

variable {old old' new new' : Document}

theorem creations_congr (hold : (old == old') = true) (hnew : (new == new') = true) :
    List.Forall₂ Change.Alike (creations old new) (creations old' new') := by
  refine List.rel_map (fun _ _ same => .create same) ?_
  refine List.rel_filter (fun m n same => ?_) (beq_iff.mp hnew)
  simp only [(Model.beq_iff.mp same).1, contains_congr hold]

theorem removals_congr (hold : (old == old') = true) (hnew : (new == new') = true) :
    List.Forall₂ Change.Alike (removals old new) (removals old' new') := by
  have same : removals old new = removals old' new' := by
    simp only [removals, names_congr hold, contains_congr hnew]
  rw [same]
  refine List.forall₂_same.mpr fun c hc => ?_
  obtain ⟨name, -, rfl⟩ := List.mem_map.mp hc
  exact .drop

theorem updates_congr (hold : (old == old') = true) (hnew : (new == new') = true) :
    List.Forall₂ Change.Alike (updates old new) (updates old' new') := by
  refine List.rel_filterMap (fun m n h => ?_) (beq_iff.mp hnew)
  have previous := get?_congr hold m.name
  have name := (Model.beq_iff.mp h).1
  rw [name] at previous ⊢
  generalize old.get? n.name = found at previous
  generalize old'.get? n.name = found' at previous
  cases previous with
  | none => exact .none
  | @some p q first =>
    have same : (p == m) = (q == n) := (BEq.congr_left first).trans (BEq.congr_right h)
    simp only [same]
    cases q == n
    · exact .some (.update first h)
    · exact .none

theorem diff_congr (hold : (old == old') = true) (hnew : (new == new') = true) :
    List.Forall₂ Change.Alike (old.diff new) (old'.diff new') :=
  List.rel_append (List.rel_append (creations_congr hold hnew) (removals_congr hold hnew))
    (updates_congr hold hnew)

end Document

namespace Operation

/-- Operations that differ at most in the order of attributes in their deltas. -/
inductive Alike : Operation → Operation → Prop
  | createTable {model table columns} :
      Alike (.createTable model table columns) (.createTable model table columns)
  | drop {model table} : Alike (.pending .drop model table none) (.pending .drop model table none)
  | update {model table d e} : (d == e) = true →
      Alike (.pending .update model table (some d)) (.pending .update model table (some e))

theorem alike_ofChange (tableName : Identifier → String) {c d : Change} (h : c.Alike d) :
    Alike (ofChange tableName c) (ofChange tableName d) := by
  cases h with
  | @create m n same =>
    obtain ⟨name, fields⟩ := Model.beq_iff.mp same
    have columns := map_eq_map_of_forall₂ fields fun _ _ h => Field.column_congr h tableName
    simp only [ofChange, name, columns]
    exact .createTable
  | drop => exact .drop
  | update hold hnew => exact .update (ModelDelta.between_congr hold hnew)

variable {op op' : Operation}

theorem Alike.beq (h : Alike op op') : (op == op') = true := by
  cases h with
  | @createTable model table columns =>
    show (model == model && table == table && columns == columns) = true
    simp
  | @drop model table =>
    show (PendingKind.drop == .drop && model == model && table == table && _) = true
    simp
  | @update model table d e same =>
    show (PendingKind.update == .update && model == model && table == table && d == e) = true
    simp [same]

theorem Alike.text (h : Alike op op') : op.text = op'.text := by
  cases h with
  | createTable => rfl
  | drop => rfl
  | @update _ _ d e same =>
    obtain ⟨added, removed, changed, reordered⟩ := ModelDelta.beq_iff.mp same
    have delta : deltaText d = deltaText e := by
      rw [deltaText, added.length_eq, removed, changed.length_eq, reordered, ← deltaText]
    exact congrArg (_ ++ ·) delta

theorem Alike.model (h : Alike op op') : op.model = op'.model := by cases h <;> rfl

theorem Alike.table (h : Alike op op') : op.table = op'.table := by cases h <;> rfl

theorem Alike.columns (h : Alike op op') : op.columns = op'.columns := by cases h <;> rfl

theorem Alike.isPending (h : Alike op op') : op.isPending = op'.isPending := by cases h <;> rfl

end Operation

namespace Diagnostic

theorem ofField?_congr {known? known?' : Option Document} (known : (known? == known?') = true)
    (model : Identifier) {f g : Field} (same : (f == g) = true) :
    ofField? known? model f = ofField? known?' model g := by
  obtain ⟨name, type, -⟩ := Field.beq_iff.mp same
  simp only [ofField?, name, type]
  cases known? with
  | none =>
    cases known?' with
    | none => rfl
    | some _ => cases known
  | some d =>
    cases known?' with
    | none => cases known
    | some e => simp only [Document.contains_congr (show (d == e) = true from known)]

theorem ofChange_congr {known? known?' : Option Document} (known : (known? == known?') = true)
    {c d : Change} (h : c.Alike d) : ofChange known? c = ofChange known?' d := by
  cases h with
  | @create m n same =>
    obtain ⟨name, fields⟩ := Model.beq_iff.mp same
    have said : m.fields.map (ofField? known? m.name) = n.fields.map (ofField? known?' n.name) :=
      map_eq_map_of_forall₂ fields fun f g h => name ▸ ofField?_congr known m.name h
    show m.fields.filterMap _ = n.fields.filterMap _
    simpa [List.filterMap_map] using congrArg (List.filterMap id) said
  | drop => rfl
  | update => rfl

end Diagnostic

theorem TableGroup.add_congr {op op' : Operation} (h : op.Alike op') (fold : String → String)
    (groups : List TableGroup) : add fold op groups = add fold op' groups := by
  induction groups with
  | nil => simp only [add, h.model, h.table]
  | cons g rest ih => simp only [add, h.model, h.table, ih]

theorem collisions_congr {ops ops' : List Operation} (h : List.Forall₂ Operation.Alike ops ops')
    (fold : String → String) : collisions fold ops = collisions fold ops' := by
  have groups : TableGroup.ofOperations fold ops = TableGroup.ofOperations fold ops' := by
    refine List.rel_foldl (P := Eq) (fun gs gs' same op op' alike => ?_) rfl h
    rw [same, TableGroup.add_congr alike]
  rw [collisions, groups, ← collisions]

namespace Plan

/-- Plans that differ at most in the order of attributes in their deltas. -/
def Alike (p q : Plan) : Prop :=
  List.Forall₂ Operation.Alike p.operations q.operations ∧ p.diagnostics = q.diagnostics

theorem alike_build (tableName : Identifier → String) {known? known?' : Option Document}
    (known : (known? == known?') = true) {cs ds : ChangeSet}
    (h : List.Forall₂ Change.Alike cs ds) :
    Alike (build tableName known? cs) (build tableName known?' ds) := by
  have operations : List.Forall₂ Operation.Alike (cs.map (Operation.ofChange tableName))
      (ds.map (Operation.ofChange tableName)) :=
    List.rel_map (fun _ _ same => Operation.alike_ofChange tableName same) h
  refine ⟨operations, ?_⟩
  have said := map_eq_map_of_forall₂ h fun _ _ same => Diagnostic.ofChange_congr known same
  simp only [build, List.flatMap, said, collisions_congr operations]

variable {p q : Plan}

theorem Alike.beq (h : Alike p q) : (p == q) = true := by
  show (_ && _) = true
  rw [h.2, beq_self_eq_true, Bool.and_true, beq_list_iff]
  exact h.1.imp fun _ _ same => same.beq

/-- The text of a plan is made of the texts and columns of its operations, and of its diagnostics. -/
theorem text_eq (p : Plan) : p.text =
    s!"Migration plan ({p.operations.length} operations, {p.pending.length} pending)\n" ++
      .join (((numbered (p.operations.map Operation.text)).zip
          (p.operations.map Operation.columns)).map fun entry : String × List Column =>
        entry.1 ++ "\n" ++ .join (entry.2.map fun c => s!"       - {c.text}\n")) ++
      .join (p.diagnostics.map fun d => s!"  warning: {d.text}\n") := by
  simp only [List.zip_map_right, List.map_map]
  rfl

theorem Alike.text (h : Alike p q) : p.text = q.text := by
  obtain ⟨operations, diagnostics⟩ := h
  have texts := map_eq_map_of_forall₂ operations fun _ _ same => same.text
  have columns := map_eq_map_of_forall₂ operations fun _ _ same => same.columns
  have pending : List.Forall₂ Operation.Alike p.pending q.pending :=
    List.rel_filter (fun _ _ same => by simp only [same.isPending]) operations
  rw [text_eq, text_eq, texts, columns, diagnostics, operations.length_eq, pending.length_eq]

end Plan

/-- Attribute order never matters: from equal documents come equal changes and equal plans, with the same
texts. -/
theorem diff_plan_of_beq {old old' new new' : Document} {known? known?' : Option Document}
    (hold : (old == old') = true) (hnew : (new == new') = true)
    (known : (known? == known?') = true) (o : PlanOptions) :
    (old.diff new == old'.diff new') = true ∧
      (old.diff new).text = (old'.diff new').text ∧
      (o.plan known? (old.diff new) == o.plan known?' (old'.diff new')) = true ∧
      (o.plan known? (old.diff new)).text = (o.plan known?' (old'.diff new')).text := by
  have changes := Document.diff_congr hold hnew
  have checked : ((if o.checkReferences then known? else none) ==
      (if o.checkReferences then known?' else none)) = true := by
    split
    · exact known
    · rfl
  have plans := Plan.alike_build o.tableNaming.tableName checked changes
  exact ⟨beq_list_iff.mpr (changes.imp fun _ _ same => same.beq), ChangeSet.text_congr changes,
    plans.beq, plans.text⟩

/-- The attributes of one field stand the other way round, in an update that other models refer to. -/
theorem diff_plan_of_swapped_attributes :
    let post (type : FieldType) (attributes : AttributeSet) : Model :=
      ⟨⟨"Post", by decide⟩, [⟨⟨"title", by decide⟩, type, attributes⟩], by simp⟩
    let tag : Model :=
      ⟨⟨"Tag", by decide⟩, [⟨⟨"post", by decide⟩, .belongsTo ⟨"Post", by decide⟩, ∅⟩,
        ⟨⟨"user", by decide⟩, .belongsTo ⟨"User", by decide⟩, ∅⟩], by decide⟩
    let given : AttributeSet := ⟨[.flag .unique, .default "a"], by decide⟩
    let swapped : AttributeSet := ⟨[.default "a", .flag .unique], by decide⟩
    let old (attributes : AttributeSet) : Document := ⟨[post (.other "text") attributes], by simp⟩
    let new (attributes : AttributeSet) : Document :=
      ⟨[post (.primitive .integer) attributes, tag], by simp [post, tag]⟩
    given.members ≠ swapped.members ∧ (old given == old swapped) = true ∧
      (new given == new swapped) = true ∧ (some (new given) == some (new swapped)) = true ∧
      (old given).diff (new given) ≠ [] ∧
      ((old given).diff (new given) == (old swapped).diff (new swapped)) = true ∧
      ((old given).diff (new given)).text = ((old swapped).diff (new swapped)).text ∧
      (PlanOptions.plan {} (some (new given)) ((old given).diff (new given)) ==
        PlanOptions.plan {} (some (new swapped)) ((old swapped).diff (new swapped))) = true ∧
      (PlanOptions.plan {} (some (new given)) ((old given).diff (new given))).text =
        (PlanOptions.plan {} (some (new swapped)) ((old swapped).diff (new swapped))).text := by
  intro post tag given swapped old new
  have hold : (old given == old swapped) = true := by decide
  have hnew : (new given == new swapped) = true := by decide
  refine ⟨by decide, hold, hnew, hnew, ?_, diff_plan_of_beq hold hnew (show _ = true from hnew) {}⟩
  decide

end SchemaPlan
