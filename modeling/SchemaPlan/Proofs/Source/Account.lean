import SchemaPlan.Proofs.Source.Fault
import SchemaPlan.Proofs.Source.Tiling
import SchemaPlan.Proofs.Source.Verdict

/-!
# Nothing of a tag is lost

Each tag on the line of a field is kept, or a warning tells that it was left out. The warnings come in
the order of the text, and no warning comes from elsewhere.
-/

namespace SchemaPlan.Source

def tagsOf (line : List Token) : List Token := line.filter (·.kind = .tag)

/-- The fields of a line, and the warnings. The tags of a field stand behind its type. -/
inductive LineAccounts (model : Identifier) (line : List Token) : List Field → List Warning → Prop
  | timestamps : line.map Token.word = timestampsLine → LineAccounts model line timestampFields []
  | field {after : List Token} {name : Identifier} {type : FieldType} {set : AttributeSet}
      {ws : List Warning} : after <:+ line →
      FieldLine (line.map Token.word) name type (after.map Token.word) →
      Account ⟨model.text, name.text⟩ [] (tagsOf after) set.members ws →
      LineAccounts model line [⟨name, type, set⟩] ws

namespace Block

/-- The lines between the braces that hold a token. -/
def lines (b : Block) : List (List Token) :=
  (b.body.splitOnP (·.kind == .newline)).filter (· ≠ [])

def Accounts (b : Block) (m : Model) (ws : List Warning) : Prop :=
  m.name.text = b.name.text ∧ ∃ results : List (List Field × List Warning),
    List.Forall₂ (fun line r => LineAccounts m.name line r.1 r.2) b.lines results ∧
    m.fields = results.flatMap Prod.fst ∧ ws = results.flatMap Prod.snd

end Block

/-- The warnings come in the order of the text. Those of one tag have one span. -/
def Ordered (ws : List Warning) : Prop :=
  ws.Pairwise fun v w => v.span = w.span ∨ v.span.stop ≤ w.span.start

/-- The number of attributes that some fields have together. -/
def stored (fields : List Field) : Nat := (fields.flatMap (·.attributes.members)).length

/-- What some lines are to give: each tag on the line of a field is kept or lost, and timestamps have two
attributes without a tag. -/
def due (lines : List (List Token)) : Nat :=
  ((lines.filter (·.map Token.word ≠ timestampsLine)).flatMap tagsOf).length +
    2 * lines.countP (·.map Token.word = timestampsLine)

/-- What was read of a text, and the warnings. No tag is lost without one. -/
structure Declared.Accounts (r : Declared) (blocks : List Block) : Prop where
  models : ∃ results : List (Model × List Warning),
    List.Forall₂ (fun b r => b.Accounts r.1 r.2) blocks results ∧
    r.document.models = results.map Prod.fst ∧ r.warnings = results.flatMap Prod.snd
  ordered : Ordered r.warnings
  count : due (blocks.flatMap Block.lines) =
    stored (r.document.models.flatMap Model.fields) + r.warnings.countP Warning.isOfLoss

theorem Line.read_iff_accounts {l : Line} {source : String} {model : Identifier} {fields : List Field}
    {ws : List Warning} (spelt : ∀ t ∈ l.tokens, t.word.Spelt) :
    l.read source model = .ok (fields, ws) ↔ LineAccounts model l.tokens fields ws := by
  rw [read_eq_ok_iff]
  constructor
  · rintro (⟨stamps, rfl, rfl⟩ | ⟨name, type, after, set, suffix, line, applied, rfl⟩)
    · exact .timestamps stamps
    · have inside : ∀ t ∈ after, t.kind = .tag → TagText t.text.toList :=
        fun t ht => (spelt t (suffix.mem ht)).tag
      obtain ⟨as, account, members⟩ := (Site.applyTags_eq_ok_iff inside Site.holds_empty).mp applied
      rw [AttributeSet.members_empty, List.nil_append] at members
      exact .field suffix line (members ▸ account)
  · rintro (stamps | @⟨after, _, _, _, _, suffix, line, account⟩)
    · exact .inl ⟨stamps, rfl, rfl⟩
    · have inside : ∀ t ∈ after, t.kind = .tag → TagText t.text.toList :=
        fun t ht => (spelt t (suffix.mem ht)).tag
      refine .inr ⟨_, _, _, _, suffix, line, ?_, rfl⟩
      exact (Site.applyTags_eq_ok_iff inside Site.holds_empty).mpr ⟨_, account, rfl⟩

theorem Block.lines_eq (b : Block) : b.lines = (Line.ofBody b.body).map Line.tokens := by
  have lines := Line.map_tokens_ofBody (f := id) (p := (·.kind == .newline)) (fun _ => rfl) b.body
  simp only [List.map_id] at lines
  exact lines.symm

theorem Block.read_iff_accounts {b : Block} {source : String} {m : Model} {ws : List Warning}
    (spelt : ∀ t ∈ b.body, t.word.Spelt) : b.read source = .ok (m, ws) ↔ b.Accounts m ws := by
  have lines (results : List (List Field × List Warning)) :
      List.Forall₂ (fun l r => l.read source m.name = .ok r) (Line.ofBody b.body) results ↔
        List.Forall₂ (fun line r => LineAccounts m.name line r.1 r.2) b.lines results := by
    rw [lines_eq, List.forall₂_map_left_iff]
    exact forall₂_congr_of_mem fun l hl r =>
      Line.read_iff_accounts fun t ht => spelt t (Line.mem_of_mem_ofBody hl t ht)
  rw [read_eq_ok_iff, Line.readAll_eq_ok_iff [] List.nodup_nil]
  refine and_congr_right fun _ => exists_congr fun results => and_congr (lines results) ?_
  rw [List.nil_append]
  exact and_congr_right fun _ => ⟨And.right, fun warnings => ⟨m.distinct, warnings⟩⟩

/-- The warning stands at the token. -/
def Warning.IsAt (w : Warning) (t : Token) : Prop := w.line = t.line ∧ w.span = t.span

/-- Each token starts behind those before it. -/
def InRow (ts : List Token) : Prop := ts.Pairwise fun t u => t.span.stop ≤ u.span.start

theorem ordered_append {vs ws : List Warning} {ts us : List Token} (row : InRow (ts ++ us))
    (first : ∀ v ∈ vs, ∃ t ∈ ts, v.IsAt t) (second : ∀ w ∈ ws, ∃ u ∈ us, w.IsAt u)
    (hvs : Ordered vs) (hws : Ordered ws) : Ordered (vs ++ ws) := by
  refine List.pairwise_append.mpr ⟨hvs, hws, fun v hv w hw => .inr ?_⟩
  obtain ⟨t, ht, -, vAt⟩ := first v hv
  obtain ⟨u, hu, -, wAt⟩ := second w hw
  rw [vAt, wAt]
  exact (List.pairwise_append.mp row).2.2 t ht u hu

section Parts

/- Parts of a text that follow one another, and what is told of each. -/
variable {α β : Type} {R : α → β → Prop} {tokens : α → List Token} {told : β → List Warning}
  {as : List α} {bs : List β}

theorem isAt_flatMap (h : List.Forall₂ R as bs)
    (isAt : ∀ a b, R a b → ∀ w ∈ told b, ∃ t ∈ tokens a, w.IsAt t) :
    ∀ w ∈ bs.flatMap told, ∃ t ∈ as.flatMap tokens, w.IsAt t := by
  intro w hw
  obtain ⟨b, hb, hw⟩ := List.mem_flatMap.mp hw
  obtain ⟨a, ha, related⟩ := exists_mem_of_forall₂ h.flip hb
  obtain ⟨t, ht, found⟩ := isAt a b related w hw
  exact ⟨t, List.mem_flatMap.mpr ⟨a, ha, ht⟩, found⟩

/-- What is told of the parts is ordered if it is for each part. -/
theorem ordered_flatMap (h : List.Forall₂ R as bs)
    (isAt : ∀ a b, R a b → ∀ w ∈ told b, ∃ t ∈ tokens a, w.IsAt t)
    (each : ∀ a b, R a b → InRow (tokens a) → Ordered (told b)) (row : InRow (as.flatMap tokens)) :
    Ordered (bs.flatMap told) := by
  induction h with
  | nil => exact .nil
  | @cons a b as bs head tail ih =>
    rw [List.flatMap_cons] at row ⊢
    obtain ⟨first, rest, -⟩ := List.pairwise_append.mp row
    exact ordered_append row (isAt a b head) (isAt_flatMap tail isAt) (each a b head first) (ih rest)

end Parts

namespace Account

variable {site : Site} {earlier ts : List Token} {as : List Attribute} {ws : List Warning}

theorem isAt (h : Account site earlier ts as ws) : ∀ w ∈ ws, ∃ t ∈ ts, w.IsAt t := by
  induction h with
  | nil => simp
  | @cons _ t ts _ said _ _ _ _ ih =>
    intro w hw
    rcases List.mem_append.mp hw with hw | hw
    · obtain ⟨kind, -, rfl⟩ := List.mem_map.mp hw
      exact ⟨t, List.mem_cons_self, rfl, rfl⟩
    · obtain ⟨u, hu, found⟩ := ih w hw
      exact ⟨u, List.mem_cons_of_mem t hu, found⟩

theorem ordered (h : Account site earlier ts as ws) (row : InRow ts) : Ordered ws := by
  induction h with
  | nil => exact .nil
  | @cons _ t ts _ said _ _ _ rest ih =>
    obtain ⟨-, tail⟩ := List.pairwise_cons.mp row
    refine ordered_append (show InRow ([t] ++ ts) from row) ?_ rest.isAt ?_ (ih tail)
    · simp [Warning.IsAt]
    · exact List.pairwise_map.mpr (List.pairwise_of_forall fun _ _ => .inl rfl)

end Account

theorem LineAccounts.isAt {model : Identifier} {line : List Token} {fields : List Field}
    {ws : List Warning} (h : LineAccounts model line fields ws) :
    ∀ w ∈ ws, ∃ t ∈ line, w.IsAt t := by
  cases h with
  | timestamps => simp
  | field suffix _ account =>
    intro w hw
    obtain ⟨t, ht, found⟩ := account.isAt w hw
    exact ⟨t, suffix.mem (List.mem_filter.mp ht).1, found⟩

theorem LineAccounts.ordered {model : Identifier} {line : List Token} {fields : List Field}
    {ws : List Warning} (h : LineAccounts model line fields ws) (row : InRow line) : Ordered ws := by
  cases h with
  | timestamps => exact .nil
  | field suffix _ account =>
    exact account.ordered (row.sublist (List.filter_sublist.trans suffix.sublist))

theorem Line.flatMap_tokens_sublist (body : List Token) :
    ((ofBody body).flatMap tokens).Sublist body := by
  fun_induction ofBody body with
  | case1 => exact .slnil
  | case2 t rest _ ih => exact ih.cons t
  | case3 t rest _ ih =>
    rw [List.flatMap_cons]
    conv => rhs; rw [← List.takeWhile_append_dropWhile (l := rest) (p := (!·.isNewline))]
    exact (ih.append_left _).cons_cons t

theorem Block.flatten_lines_sublist (b : Block) : (b.lines.flatMap id).Sublist b.body := by
  rw [lines_eq, List.flatMap_map]
  exact Line.flatMap_tokens_sublist b.body

theorem Block.Accounts.isAt {b : Block} {m : Model} {ws : List Warning} (h : b.Accounts m ws) :
    ∀ w ∈ ws, ∃ t ∈ b.body, w.IsAt t := by
  obtain ⟨-, results, lines, -, rfl⟩ := h
  intro w hw
  obtain ⟨t, ht, found⟩ := isAt_flatMap lines (fun _ _ account => account.isAt) w hw
  exact ⟨t, b.flatten_lines_sublist.mem ht, found⟩

theorem Block.Accounts.ordered {b : Block} {m : Model} {ws : List Warning} (h : b.Accounts m ws)
    (row : InRow b.body) : Ordered ws := by
  obtain ⟨-, results, lines, -, rfl⟩ := h
  exact ordered_flatMap lines (fun _ _ account => account.isAt) (fun _ _ account => account.ordered)
    (row.sublist b.flatten_lines_sublist)

theorem due_append (lines lines' : List (List Token)) :
    due (lines ++ lines') = due lines + due lines' := by
  simp only [due, List.filter_append, List.flatMap_append, List.length_append, List.countP_append]
  omega

theorem due_singleton_of_timestamps {line : List Token}
    (stamps : line.map Token.word = timestampsLine) : due [line] = 2 := by
  simp [due, stamps]

theorem due_singleton_of_ne {line : List Token} (other : line.map Token.word ≠ timestampsLine) :
    due [line] = (tagsOf line).length := by
  simp [due, other]

theorem FieldLine.countP_tag {line rest : List Word} {name : Identifier} {type : FieldType}
    (h : FieldLine line name type rest) :
    line.countP (·.kind = .tag) = rest.countP (·.kind = .tag) := by
  obtain ⟨clause, rfl, other⟩ := h.tags
  have none : clause.countP (·.kind = .tag) = 0 := by simpa [List.countP_eq_zero] using other
  rw [List.countP_append, none, Nat.zero_add]

theorem LineAccounts.due_eq {model : Identifier} {line : List Token} {fields : List Field}
    {ws : List Warning} (h : LineAccounts model line fields ws) :
    due [line] = stored fields + ws.countP Warning.isOfLoss := by
  cases h with
  | timestamps stamps => exact due_singleton_of_timestamps stamps
  | @field after name type set ws suffix fieldLine account =>
    have other : line.map Token.word ≠ timestampsLine := by
      intro stamps
      rw [stamps] at fieldLine
      cases fieldLine
    have tags : (tagsOf line).length = (tagsOf after).length := by
      have count := fieldLine.countP_tag
      rw [List.countP_map, List.countP_map] at count
      rw [tagsOf, tagsOf, ← List.countP_eq_length_filter, ← List.countP_eq_length_filter]
      exact count
    rw [due_singleton_of_ne other, tags, account.length_eq]
    simp [stored]

/-- What is counted of parts that follow one another is right if it is for each part. -/
theorem due_flatMap {α β : Type} {R : α → β → Prop} {lines : α → List (List Token)}
    {fields : β → List Field} {told : β → List Warning} {as : List α} {bs : List β}
    (h : List.Forall₂ R as bs)
    (each : ∀ a b, R a b →
      due (lines a) = stored (fields b) + (told b).countP Warning.isOfLoss) :
    due (as.flatMap lines) =
      stored (bs.flatMap fields) + (bs.flatMap told).countP Warning.isOfLoss := by
  induction h with
  | nil => rfl
  | @cons a b _ _ head _ ih =>
    have first := each a b head
    simp only [stored, List.flatMap_cons, due_append, List.flatMap_append, List.length_append,
      List.countP_append] at *
    omega

theorem Block.Accounts.due_eq {b : Block} {m : Model} {ws : List Warning} (h : b.Accounts m ws) :
    due b.lines = stored m.fields + ws.countP Warning.isOfLoss := by
  obtain ⟨-, results, lines, fields, rfl⟩ := h
  rw [fields, ← List.flatMap_singleton' b.lines]
  exact due_flatMap lines fun _ _ account => account.due_eq

theorem Block.readAll_iff_accounts {source : String} {tokens : List Token} {blocks : List Block}
    {r : Declared} (fall : Blocks tokens blocks) (spelt : ∀ t ∈ tokens, t.word.Spelt) :
    readAll source ∅ blocks = .ok (r.document, r.warnings) ↔
      ∃ results : List (Model × List Warning),
        List.Forall₂ (fun b r => b.Accounts r.1 r.2) blocks results ∧
        r.document.models = results.map Prod.fst ∧ r.warnings = results.flatMap Prod.snd := by
  have each (results : List (Model × List Warning)) :
      List.Forall₂ (fun b r => b.read source = .ok r) blocks results ↔
        List.Forall₂ (fun b r => b.Accounts r.1 r.2) blocks results :=
    forall₂_congr_of_mem fun b hb r => read_iff_accounts fun t ht =>
      spelt t (fall.sublist.mem (List.mem_flatMap.mpr ⟨b, hb, ht⟩))
  simp [readAll_eq_ok_iff, each]

/-- A text is read exactly if its tokens fall into blocks that are read. -/
theorem parse_eq_ok_iff_blocks {source : String} {r : Declared} :
    parse source = .ok r ↔ ∃ tokens blocks, Token.tokenize source = .ok tokens ∧
      Blocks tokens blocks ∧ Block.readAll source ∅ blocks = .ok (r.document, r.warnings) := by
  rw [parse_eq_ok_iff]
  refine exists_congr fun tokens => ?_
  constructor
  · rintro ⟨tokenized, closed, read⟩
    exact ⟨_, tokenized, Outline.blocks_ofTokens closed, read⟩
  · rintro ⟨blocks, tokenized, fall, read⟩
    rw [blocks_iff.mp fall]
    exact ⟨tokenized, rfl, read⟩

/-- A warning stands at a token. -/
theorem isAt_of_parse {source : String} {r : Declared} (h : parse source = .ok r) :
    ∃ tokens, Token.tokenize source = .ok tokens ∧ ∀ w ∈ r.warnings, ∃ t ∈ tokens, w.IsAt t := by
  obtain ⟨tokens, blocks, tokenized, fall, read⟩ := parse_eq_ok_iff_blocks.mp h
  have spelt := Token.spelt_of_tokenize tokenized
  obtain ⟨results, accounts, -, warnings⟩ := (Block.readAll_iff_accounts fall spelt).mp read
  refine ⟨tokens, tokenized, fun w hw => ?_⟩
  rw [warnings] at hw
  obtain ⟨t, ht, found⟩ := isAt_flatMap accounts (fun _ _ account => account.isAt) w hw
  exact ⟨t, fall.sublist.mem ht, found⟩

/-- A text is read exactly if there is an account of its blocks. The blocks are those that the grammar
finds among the tokens that tile the text. -/
theorem parse_iff_accounts {source : String} {r : Declared} :
    parse source = .ok r ↔ ∃ tokens blocks, Tiling [] source.toList ⟨tokens, none⟩ ∧
      Blocks tokens blocks ∧
      Outlined (tokens.map Token.word) (blocks.map Block.declaration) ∧ r.Accounts blocks := by
  simp only [parse_eq_ok_iff_blocks, ← Token.tokenize_eq_ok_iff_tiling]
  refine exists_congr fun tokens => exists_congr fun blocks => ?_
  refine and_congr_right fun tokenized => and_congr_right fun fall => ?_
  rw [Block.readAll_iff_accounts fall (Token.spelt_of_tokenize tokenized)]
  constructor
  · rintro ⟨results, accounts, models, warnings⟩
    have row : InRow (blocks.flatMap Block.body) :=
      (Token.tiling_of_tokenize tokenized).pairwise.sublist fall.sublist
    refine ⟨fall.outlined, ⟨results, accounts, models, warnings⟩, ?_, ?_⟩
    · rw [warnings]
      exact ordered_flatMap accounts (fun _ _ account => account.isAt)
        (fun _ _ account => account.ordered) row
    · have count : due (blocks.flatMap Block.lines) =
          stored (results.flatMap (·.1.fields)) +
            (results.flatMap Prod.snd).countP Warning.isOfLoss :=
        due_flatMap accounts fun _ _ account => account.due_eq
      rw [count, models, warnings, List.flatMap_map]
  · exact fun accounts => accounts.2.models

end SchemaPlan.Source
