import Mathlib.Data.List.Forall2
import SchemaPlan.Proofs.Schema.Document
import SchemaPlan.Source.Declaration

/-!
# Reading one after the other

Lines are read in order, and so are blocks. Nothing that is read depends on what was read before,
except that no name may come twice.
-/

namespace SchemaPlan.Source

namespace Line

theorem declare_eq_ok_iff {l : Line} {model : Identifier} {fields declared fields' : List Field}
    (distinct : (fields.map Field.name).Nodup) :
    l.declare model fields declared = .ok fields' ↔
      fields' = fields ++ declared ∧ (fields'.map Field.name).Nodup := by
  induction declared generalizing fields with
  | nil =>
    simp only [declare, List.append_nil, Except.ok.injEq]
    exact ⟨fun h => h ▸ ⟨rfl, distinct⟩, fun h => h.1.symm⟩
  | cons f declared ih =>
    unfold declare
    split
    · next known =>
      apply iff_of_false (by simp)
      rintro ⟨rfl, nodup⟩
      rw [List.map_append, List.nodup_append] at nodup
      exact nodup.2.2 f.name known f.name (by simp) rfl
    · next fresh =>
      have extended : ((fields ++ [f]).map Field.name).Nodup := by
        rw [List.map_append, List.nodup_append]
        refine ⟨distinct, by simp, ?_⟩
        intro a ha b hb
        rw [List.map_singleton, List.mem_singleton] at hb
        rintro rfl
        exact fresh (hb ▸ ha)
      rw [ih extended, List.append_assoc, List.singleton_append]

/-- Lines are read on their own. Together their fields have distinct names. -/
theorem readAll_eq_ok_iff {source : String} {model : Identifier} (fields : List Field)
    {fields' : List Field} {ls : List Line} {warnings : List Warning} (distinct : (fields.map Field.name).Nodup) :
    readAll source model fields ls = .ok (fields', warnings) ↔
      ∃ results, List.Forall₂ (fun l r => l.read source model = .ok r) ls results ∧
        fields' = fields ++ results.flatMap Prod.fst ∧ (fields'.map Field.name).Nodup ∧
        warnings = results.flatMap Prod.snd := by
  induction ls generalizing fields warnings with
  | nil =>
    simp only [readAll, List.forall₂_nil_left_iff, exists_eq_left, List.flatMap_nil,
      List.append_nil, Except.ok.injEq, Prod.mk.injEq]
    constructor
    · rintro ⟨rfl, rfl⟩
      exact ⟨rfl, distinct, rfl⟩
    · rintro ⟨rfl, -, rfl⟩
      exact ⟨rfl, rfl⟩
  | cons l ls ih =>
    unfold readAll
    constructor
    · intro h
      obtain ⟨⟨declared, first⟩, read, h⟩ := bind_eq_ok_iff.mp h
      obtain ⟨joined, declare, h⟩ := bind_eq_ok_iff.mp h
      obtain ⟨⟨all, later⟩, rest, h⟩ := bind_eq_ok_iff.mp h
      cases h
      obtain ⟨rfl, nodup⟩ := (declare_eq_ok_iff distinct).mp declare
      obtain ⟨results, reads, rfl, nodup', rfl⟩ := (ih _ nodup).mp rest
      refine ⟨(declared, first) :: results, .cons read reads, ?_, nodup', rfl⟩
      rw [List.flatMap_cons, List.append_assoc]
    · rintro ⟨results, reads, rfl, nodup, rfl⟩
      cases reads with
      | @cons _ r _ results read reads =>
        have whole : fields ++ (r :: results).flatMap Prod.fst =
            (fields ++ r.1) ++ results.flatMap Prod.fst := by
          rw [List.flatMap_cons, List.append_assoc]
        have head : ((fields ++ r.1).map Field.name).Nodup := by
          rw [whole, List.map_append] at nodup
          exact (List.nodup_append.mp nodup).1
        refine bind_eq_ok_iff.mpr ⟨r, read, ?_⟩
        refine bind_eq_ok_iff.mpr ⟨_, (declare_eq_ok_iff distinct).mpr ⟨rfl, head⟩, ?_⟩
        exact bind_eq_ok_iff.mpr ⟨_, (ih _ head).mpr ⟨results, reads, whole, nodup, rfl⟩, rfl⟩

end Line

namespace Block

/-- A block gives a model with its name if the lines give the fields. -/
theorem read_eq_ok_iff {b : Block} {source : String} {m : Model} {warnings : List Warning} :
    b.read source = .ok (m, warnings) ↔
      m.name.text = b.name.text ∧
        Line.readAll source m.name [] (Line.ofBody b.body) = .ok (m.fields, warnings) := by
  have named {name : Identifier} : b.name.named modelName = .ok name ↔ name.text = b.name.text := by
    rw [Token.named, mapError_eq_ok_iff, modelName_eq_ok_iff]
  unfold read
  constructor
  · intro h
    obtain ⟨name, hname, h⟩ := bind_eq_ok_iff.mp h
    obtain ⟨⟨fields, found⟩, lines, h⟩ := bind_eq_ok_iff.mp h
    obtain ⟨model, hmodel, h⟩ := bind_eq_ok_iff.mp h
    cases h
    obtain ⟨rfl, rfl⟩ := Model.ofFields_eq_ok_iff.mp (mapError_eq_ok_iff.mp hmodel)
    exact ⟨named.mp hname, lines⟩
  · rintro ⟨hname, lines⟩
    refine bind_eq_ok_iff.mpr ⟨_, named.mpr hname, bind_eq_ok_iff.mpr ⟨_, lines, ?_⟩⟩
    exact bind_eq_ok_iff.mpr ⟨m, mapError_eq_ok_iff.mpr (Model.ofFields_eq_ok_iff.mpr ⟨rfl, rfl⟩), rfl⟩

/-- Blocks are read on their own. Their models stand in a document, so they have distinct names. -/
theorem readAll_eq_ok_iff {source : String} {d d' : Document} {bs : List Block}
    {warnings : List Warning} :
    readAll source d bs = .ok (d', warnings) ↔
      ∃ results, List.Forall₂ (fun b r => b.read source = .ok r) bs results ∧
        d'.models = d.models ++ results.map Prod.fst ∧ warnings = results.flatMap Prod.snd := by
  induction bs generalizing d warnings with
  | nil =>
    simp only [readAll, List.forall₂_nil_left_iff, exists_eq_left, List.map_nil, List.append_nil,
      List.flatMap_nil, Except.ok.injEq, Prod.mk.injEq, ← Document.ext_iff]
    exact and_congr eq_comm eq_comm
  | cons b bs ih =>
    unfold readAll
    constructor
    · intro h
      obtain ⟨⟨m, first⟩, read, h⟩ := bind_eq_ok_iff.mp h
      simp only at h
      split at h
      · cases h
      · next joined insert =>
        obtain ⟨⟨all, later⟩, rest, h⟩ := bind_eq_ok_iff.mp h
        cases h
        obtain ⟨results, reads, models, rfl⟩ := ih.mp rest
        refine ⟨(m, first) :: results, .cons read reads, ?_, rfl⟩
        rw [models, Document.insert_eq_ok_iff.mp insert, List.append_assoc]
        rfl
    · rintro ⟨results, reads, models, rfl⟩
      cases reads with
      | @cons _ r _ results read reads =>
        have whole : d'.models = (d.models ++ [r.1]) ++ results.map Prod.fst := by
          rw [models, List.append_assoc]
          rfl
        have fresh : ((d.models ++ [r.1]).map Model.name).Nodup := by
          have distinct := d'.distinct
          rw [whole, List.map_append] at distinct
          exact (List.nodup_append.mp distinct).1
        have insert : d.insert r.1 = .ok ⟨_, fresh⟩ := Document.insert_eq_ok_iff.mpr rfl
        refine bind_eq_ok_iff.mpr ⟨r, read, ?_⟩
        simp only [insert]
        exact bind_eq_ok_iff.mpr ⟨_, ih.mpr ⟨results, reads, whole, rfl⟩, rfl⟩

theorem readAll_append (source : String) (d : Document) (bs cs : List Block) :
    readAll source d (bs ++ cs) = readAll source d bs >>= fun r =>
      readAll source r.1 cs >>= fun later => .ok (later.1, r.2 ++ later.2) := by
  induction bs generalizing d with
  | nil =>
    change readAll source d cs = readAll source d cs >>= fun later => .ok (later.1, [] ++ later.2)
    cases readAll source d cs <;> rfl
  | cons b bs ih =>
    rw [List.cons_append, readAll, readAll]
    cases b.read source with
    | error e => rfl
    | ok r =>
      simp only [bind, Except.bind]
      cases d.insert r.1 with
      | error e => rfl
      | ok joined =>
        simp only [ih, bind, Except.bind]
        cases readAll source joined bs with
        | error e => rfl
        | ok first =>
          simp only [pure, Except.pure]
          cases readAll source first.1 cs with
          | error e => rfl
          | ok later => simp only [List.append_assoc]

end Block

/-- A text is read if it is cut into tokens, every block closes, and every block is read. -/
theorem parse_eq_ok_iff {source : String} {r : Declared} :
    parse source = .ok r ↔
      ∃ tokens, Token.tokenize source = .ok tokens ∧
        (Outline.ofTokens tokens).unclosed? = none ∧
        Block.readAll source ∅ (Outline.ofTokens tokens).blocks = .ok (r.document, r.warnings) := by
  unfold parse
  rw [bind_eq_ok_iff]
  refine exists_congr fun tokens => and_congr_right fun _ => ?_
  rw [bind_eq_ok_iff]
  constructor
  · rintro ⟨⟨document, warnings⟩, read, h⟩
    simp only at h
    split at h
    · next closed =>
      cases h
      exact ⟨closed, read⟩
    · cases h
  · rintro ⟨closed, read⟩
    refine ⟨_, read, ?_⟩
    simp only [closed]
    rfl

theorem parse_error_cases {source : String} {e : Error} (h : parse source = .error e) :
    Token.tokenize source = .error e ∨
      ∃ tokens, Token.tokenize source = .ok tokens ∧
        (Block.readAll source ∅ (Outline.ofTokens tokens).blocks = .error e ∨
          ∃ model line span, e = .unbalancedBraces model line span) := by
  rcases bind_eq_error_iff.mp h with h | ⟨tokens, tokenized, h⟩
  · exact .inl h
  refine .inr ⟨tokens, tokenized, ?_⟩
  rcases bind_eq_error_iff.mp h with h | ⟨⟨d, ws⟩, read, h⟩
  · exact .inl h
  simp only at h
  split at h
  · cases h
  · cases h
    exact .inr ⟨_, _, _, rfl⟩

/-- An error in a block comes before a block that is left open. -/
theorem parse_of_readAll_error {source : String} {tokens : List Token} {e : Error}
    (tokenized : Token.tokenize source = .ok tokens)
    (h : Block.readAll source ∅ (Outline.ofTokens tokens).blocks = .error e) :
    parse source = .error e :=
  bind_eq_error_iff.mpr (.inr ⟨tokens, tokenized, bind_eq_error_iff.mpr (.inl h)⟩)

end SchemaPlan.Source
