import SchemaPlan.Proofs.Source.Outline
import SchemaPlan.Proofs.Source.Position
import SchemaPlan.Proofs.Source.Reading

/-!
# Reading somewhere else

What is read does not depend on the text around it. The blocks at the start of a text are read as if
it ended after them, errors included. Further on in a text, blocks are read as on their own, and
warnings move along.
-/

namespace SchemaPlan.Source

namespace Span

/-- A span of a text that starts where a character does. -/
def Within (cs : List Char) (s : Span) : Prop :=
  ∃ before after, cs = before ++ after ∧ s.start = Text.byteLength before ∧
    s.stop ≤ Text.byteLength cs

theorem Within.slice_append {source more : String} {s : Span} (h : s.Within source.toList) :
    s.slice (source ++ more) = s.slice source := by
  obtain ⟨before, after, whole, start, stop⟩ := h
  rw [slice, slice, String.toList_append, whole, List.append_assoc, start,
    Text.dropBytes_byteLength_append, Text.dropBytes_byteLength_append, Text.takeBytes_append]
  rw [whole, Text.byteLength_append] at stop
  rw [length]
  omega

theorem Within.join {cs : List Char} {s t : Span} (hs : s.Within cs) (ht : t.Within cs) :
    (s.join t).Within cs := by
  obtain ⟨before, after, whole, start, stop⟩ := hs
  obtain ⟨before', after', whole', start', stop'⟩ := ht
  rcases Nat.le_total s.start t.start with order | order
  · exact ⟨before, after, whole, (Nat.min_eq_left order).trans start, max_le stop stop'⟩
  · exact ⟨before', after', whole', (Nat.min_eq_right order).trans start', max_le stop stop'⟩

end Span

theorem Token.within_of_ofLexemes (before : List Char) {p : Place} {ls : List Lexeme}
    (offset : p.offset = Text.byteLength before) {t : Token} (ht : t ∈ (ofLexemes p ls).tokens) :
    t.span.Within (before ++ ls.flatMap Lexeme.text) := by
  induction ls generalizing p before with
  | nil => cases ht
  | cons l ls ih =>
    have next : (p.after l).offset = Text.byteLength (before ++ l.text) := by
      rw [Place.offset_after, offset, Text.byteLength_append]
    have rest := ih _ next
    rw [List.append_assoc, ← List.flatMap_cons] at rest
    unfold ofLexemes at ht
    split at ht
    · exact rest ht
    · exact rest ht
    · split at ht
      · cases ht
      · rcases List.mem_cons.mp ht with rfl | ht
        · refine ⟨before, _, rfl, offset, ?_⟩
          simp only [Place.spanTo, offset, List.flatMap_cons, Text.byteLength_append]
          omega
        · exact rest ht

theorem Token.within_of_scan {source : String} {t : Token} (h : t ∈ (scan source).tokens) :
    t.span.Within source.toList := by
  have within := within_of_ofLexemes [] rfl h
  rwa [Lexeme.flatMap_text_scan] at within

namespace Line

theorem within_span {cs : List Char} {l : Line} (h : ∀ t ∈ l.tokens, t.span.Within cs) :
    l.span.Within cs :=
  (h _ List.mem_cons_self).join (h _ (List.getLast_mem _))

theorem mem_of_mem_ofBody {ts : List Token} {l : Line} (hl : l ∈ ofBody ts) :
    ∀ t ∈ l.tokens, t ∈ ts := by
  fun_induction ofBody ts with
  | case1 => cases hl
  | case2 t rest _ ih => exact fun u hu => List.mem_cons_of_mem t (ih hl u hu)
  | case3 t rest _ ih =>
    intro u hu
    rcases List.mem_cons.mp hl with rfl | hl
    · rcases List.mem_cons.mp hu with rfl | hu
      · exact List.mem_cons_self
      · exact List.mem_cons_of_mem t ((List.takeWhile_sublist _).mem hu)
    · exact List.mem_cons_of_mem t ((List.dropWhile_sublist _).mem (ih hl u hu))

/-- The source matters only where an error shows the line. -/
theorem read_congr {l : Line} {source source' : String}
    (same : l.span.slice source = l.span.slice source') (model : Identifier) :
    l.read source model = l.read source' model := by
  simp only [read, malformed, readField, typeClause, same]

theorem readAll_congr {ls : List Line} {source source' : String}
    (same : ∀ l ∈ ls, l.span.slice source = l.span.slice source') (model : Identifier)
    (fields : List Field) : readAll source model fields ls = readAll source' model fields ls := by
  induction ls generalizing fields with
  | nil => rfl
  | cons l ls ih =>
    obtain ⟨head, tail⟩ := List.forall_mem_cons.mp same
    simp only [readAll, read_congr head, ih tail]

end Line

namespace Block

theorem read_append {b : Block} {source : String} (more : String)
    (within : ∀ t ∈ b.body, t.span.Within source.toList) :
    b.read (source ++ more) = b.read source := by
  have same : ∀ l ∈ Line.ofBody b.body, l.span.slice (source ++ more) = l.span.slice source := by
    intro l hl
    have inside := Line.within_span fun t ht => within t (Line.mem_of_mem_ofBody hl t ht)
    exact inside.slice_append
  simp only [read, Line.readAll_congr same]

theorem readAll_append_source {bs : List Block} {source : String} (more : String) (d : Document)
    (within : ∀ b ∈ bs, ∀ t ∈ b.body, t.span.Within source.toList) :
    readAll (source ++ more) d bs = readAll source d bs := by
  induction bs generalizing d with
  | nil => rfl
  | cons b bs ih =>
    obtain ⟨head, tail⟩ := List.forall_mem_cons.mp within
    simp only [readAll, read_append more head, ih _ tail]

end Block

def Line.shift (m : Shift) (l : Line) : Line := ⟨l.first.shift m, l.rest.map (·.shift m)⟩

def Block.shift (m : Shift) (b : Block) : Block :=
  ⟨b.keyword.shift m, b.name.shift m, b.body.map (·.shift m)⟩

namespace Block

theorem header?_map_shift (m : Shift) (ts : List Token) :
    header? (ts.map (·.shift m)) =
      (header? ts).map fun (name, inside) => (name.shift m, inside.map (·.shift m)) := by
  have same : Token.isNewline ∘ (·.shift m) = Token.isNewline := rfl
  unfold header?
  rw [List.dropWhile_map, same]
  cases ts.dropWhile Token.isNewline with
  | nil => rfl
  | cons name rest =>
    simp only [List.map_cons]
    rw [List.dropWhile_map, same]
    cases rest.dropWhile Token.isNewline with
    | nil => rfl
    | cons brace inside =>
      by_cases kinds : name.kind = .identifier ∧ brace.kind = .openBrace
      · simp [kinds]
      · simp [kinds]

theorem close?_map_shift (m : Shift) (depth : Nat) (ts : List Token) :
    close? depth (ts.map (·.shift m)) =
      (close? depth ts).map fun (body, after) => (body.map (·.shift m), after.map (·.shift m)) := by
  induction ts generalizing depth with
  | nil => rfl
  | cons t ts ih =>
    rw [List.map_cons]
    by_cases opens : t.kind = .openBrace
    · rw [close?_openBrace opens, close?_openBrace (t := t.shift m) opens, ih]
      simp only [Option.map_map]
      rfl
    by_cases closes : t.kind = .closeBrace
    · cases depth with
      | zero => simp [close?, closes]
      | succ depth =>
        rw [close?_closeBrace closes, close?_closeBrace (t := t.shift m) closes, ih]
        simp only [Option.map_map]
        rfl
    · rw [close?_plain opens closes, close?_plain (t := t.shift m) opens closes, ih]
      simp only [Option.map_map]
      rfl

end Block

theorem Outline.ofTokens_map_shift (m : Shift) (ts : List Token) :
    ofTokens (ts.map (·.shift m)) =
      ⟨(ofTokens ts).blocks.map (·.shift m),
        (ofTokens ts).unclosed?.map fun (keyword, name) => (keyword.shift m, name.shift m)⟩ := by
  fun_induction ofTokens ts with
  | case1 => simp [ofTokens]
  | case2 t ts _ header ih =>
    rw [List.map_cons, ofTokens_skip fun _ => by rw [Block.header?_map_shift, header]; rfl, ih]
  | case3 t ts hk name inside header unclosed =>
    rw [List.map_cons, ofTokens_unclosed (t := t.shift m) hk
      (by rw [Block.header?_map_shift, header]; rfl) (by rw [Block.close?_map_shift, unclosed]; rfl)]
    rfl
  | case4 t ts hk name inside header body after close outline ih =>
    rw [List.map_cons, ofTokens_block (t := t.shift m) hk
      (by rw [Block.header?_map_shift, header]; rfl) (by rw [Block.close?_map_shift, close]; rfl), ih]
    rfl
  | case5 t ts hk ih =>
    rw [List.map_cons, ofTokens_skip (t := t.shift m) fun e => absurd e hk, ih]

namespace Site

theorem warn_shift (m : Shift) (site : Site) (t : Token) (kind : WarningKind) :
    site.warn (t.shift m) kind = (site.warn t kind).shift m := rfl

theorem applyDefault_shift (m : Shift) {site : Site} {t : Token} {set set' : AttributeSet}
    {arguments? : Option String} {ws : List Warning}
    (h : site.applyDefault t set arguments? = .ok (set', ws)) :
    site.applyDefault (t.shift m) set arguments? = .ok (set', ws.map (·.shift m)) := by
  unfold applyDefault at h ⊢
  split at h
  · cases h
    rfl
  · cases h
    rfl
  · next value solid =>
    split at h
    · cases h
    · next fresh =>
      cases h
      simp [fresh]

theorem applyFlag_shift (m : Shift) (site : Site) (t : Token) (set : AttributeSet) (f : Flag)
    (arguments? : Option String) :
    site.applyFlag (t.shift m) set f arguments? =
      ((site.applyFlag t set f arguments?).1,
        (site.applyFlag t set f arguments?).2.map (·.shift m)) := by
  simp only [applyFlag, warn_shift]
  cases arguments? with
  | none => by_cases repeated : set.HasKind (.flag f) <;> simp [repeated]
  | some _ => by_cases repeated : set.HasKind (.flag f) <;> simp [repeated]

theorem applyTag_shift (m : Shift) {site : Site} {t : Token} {set set' : AttributeSet}
    {ws : List Warning} (h : site.applyTag t set = .ok (set', ws)) :
    site.applyTag (t.shift m) set = .ok (set', ws.map (·.shift m)) := by
  unfold applyTag at h ⊢
  dsimp only at h
  split at h
  · next isDefault => exact (if_pos isDefault).trans (applyDefault_shift m h)
  · next other =>
    refine (if_neg other).trans ?_
    simp only [Token.text_shift]
    split at h
    · rw [applyFlag_shift, Except.ok.inj h]
    · cases h
      rfl

theorem applyTags_shift (m : Shift) {site : Site} {ts : List Token} {set set' : AttributeSet}
    {ws : List Warning} (h : site.applyTags set ts = .ok (set', ws)) :
    site.applyTags set (ts.map (·.shift m)) = .ok (set', ws.map (·.shift m)) := by
  induction ts generalizing set ws with
  | nil =>
    cases h
    rfl
  | cons t ts ih =>
    unfold applyTags at h
    rw [List.map_cons, applyTags]
    split at h
    · next tag =>
      obtain ⟨⟨next, first⟩, head, h⟩ := bind_eq_ok_iff.mp h
      obtain ⟨⟨last, later⟩, tail, h⟩ := bind_eq_ok_iff.mp h
      cases h
      rw [if_pos (show (t.shift m).kind = .tag from tag), List.map_append]
      refine bind_eq_ok_iff.mpr ⟨_, applyTag_shift m head, ?_⟩
      exact bind_eq_ok_iff.mpr ⟨_, ih tail, rfl⟩
    · next other =>
      rw [if_neg (show (t.shift m).kind ≠ .tag from other)]
      exact ih h

end Site

theorem Token.named_shift (m : Shift) {t : Token} {check : String → Except SchemaError Identifier}
    {name : Identifier} (h : t.named check = .ok name) : (t.shift m).named check = .ok name :=
  mapError_eq_ok_iff.mpr (mapError_eq_ok_iff.mp h)

namespace Line

theorem ofBody_map_shift (m : Shift) (ts : List Token) :
    ofBody (ts.map (·.shift m)) = (ofBody ts).map (·.shift m) := by
  have kind : Token.isNewline ∘ (·.shift m) = Token.isNewline := rfl
  have other : (!·.isNewline) ∘ (·.shift m) = fun t : Token => !t.isNewline := rfl
  fun_induction ofBody ts with
  | case1 => simp [ofBody]
  | case2 t rest isNewline ih =>
    rw [List.map_cons, ofBody, if_pos (show (t.shift m).isNewline from isNewline), ih]
  | case3 t rest solid ih =>
    rw [List.map_cons, ofBody, if_neg (show ¬ (t.shift m).isNewline from solid), List.takeWhile_map,
      List.dropWhile_map, other, ih]
    rfl

theorem typeClause_shift (m : Shift) {l : Line} {source : String} (source' : String)
    {model : Identifier} {word : Token} {rest rest' : List Token} {type : FieldType}
    (h : l.typeClause source model word rest = .ok (type, rest')) :
    (l.shift m).typeClause source' model (word.shift m) (rest.map (·.shift m)) =
      .ok (type, rest'.map (·.shift m)) := by
  unfold typeClause at h ⊢
  split at h
  · next relation =>
    rw [if_pos (show (word.shift m).text = "belongsTo" from relation)]
    dsimp only at h
    split at h
    · next opening target closing rest =>
      split at h
      · next kinds =>
        obtain ⟨name, named, h⟩ := bind_eq_ok_iff.mp h
        cases h
        refine (if_pos kinds).trans ?_
        exact bind_eq_ok_iff.mpr ⟨name, Token.named_shift m named, rfl⟩
      · cases h
    · cases h
  · next scalar =>
    cases h
    exact if_neg scalar

theorem readField_shift (m : Shift) {l : Line} {source : String} (source' : String)
    {model : Identifier} {name word : Token} {rest : List Token} {f : Field} {ws : List Warning}
    (h : l.readField source model name word rest = .ok (f, ws)) :
    (l.shift m).readField source' model (name.shift m) (word.shift m) (rest.map (·.shift m)) =
      .ok (f, ws.map (·.shift m)) := by
  obtain ⟨fieldName, named, h⟩ := bind_eq_ok_iff.mp h
  obtain ⟨⟨type, tags⟩, clause, h⟩ := bind_eq_ok_iff.mp h
  obtain ⟨⟨attributes, warnings⟩, applied, h⟩ := bind_eq_ok_iff.mp h
  cases h
  refine bind_eq_ok_iff.mpr ⟨fieldName, Token.named_shift m named, ?_⟩
  refine bind_eq_ok_iff.mpr ⟨_, typeClause_shift m source' clause, ?_⟩
  exact bind_eq_ok_iff.mpr ⟨_, Site.applyTags_shift m applied, rfl⟩

theorem read_shift (m : Shift) {l : Line} {source : String} (source' : String) {model : Identifier}
    {fields : List Field} {ws : List Warning} (h : l.read source model = .ok (fields, ws)) :
    (l.shift m).read source' model = .ok (fields, ws.map (·.shift m)) := by
  obtain ⟨first, rest⟩ := l
  unfold read at h ⊢
  simp only [shift] at h ⊢
  split at h
  · split at h
    · next timestamps =>
      cases h
      exact if_pos timestamps
    · cases h
  · next colon word rest =>
    split at h
    · next kinds =>
      obtain ⟨⟨f, warnings⟩, read, h⟩ := bind_eq_ok_iff.mp h
      cases h
      refine (if_pos kinds).trans ?_
      exact bind_eq_ok_iff.mpr ⟨_, readField_shift m source' read, rfl⟩
    · cases h
  · cases h

theorem readAll_shift (m : Shift) {ls : List Line} {source : String} (source' : String)
    {model : Identifier} {fields : List Field} {ws : List Warning}
    (h : readAll source model [] ls = .ok (fields, ws)) :
    readAll source' model [] (ls.map (·.shift m)) = .ok (fields, ws.map (·.shift m)) := by
  obtain ⟨results, reads, rfl, nodup, rfl⟩ := (readAll_eq_ok_iff [] (by simp)).mp h
  refine (readAll_eq_ok_iff [] (by simp)).mpr
    ⟨results.map fun r => (r.1, r.2.map (·.shift m)), ?_, ?_, nodup, ?_⟩
  · rw [List.forall₂_map_left_iff, List.forall₂_map_right_iff]
    exact reads.imp fun l r read => read_shift m source' read
  · rw [List.flatMap_map]
  · rw [List.flatMap_map, List.map_flatMap]

end Line

theorem Block.read_shift (m : Shift) {b : Block} {source : String} (source' : String) {model : Model}
    {ws : List Warning} (h : b.read source = .ok (model, ws)) :
    (b.shift m).read source' = .ok (model, ws.map (·.shift m)) := by
  obtain ⟨name, lines⟩ := read_eq_ok_iff.mp h
  refine read_eq_ok_iff.mpr ⟨name, ?_⟩
  rw [shift, Line.ofBody_map_shift]
  exact Line.readAll_shift m source' lines

end SchemaPlan.Source
