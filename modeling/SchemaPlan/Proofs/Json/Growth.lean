import SchemaPlan.Json.Reader
import SchemaPlan.Proofs.Json.Lexing

/-!
# Trees of texts

A tree that grows without a fault stands for the value whose lexemes were taken from the text. What
is under way between two tokens tells which lexemes those are.
-/

namespace SchemaPlan.Json

/-- A key that is read is what stands between its quotes. -/
def KeyStands (key : Except Error String) (raw : List Char) : Prop := ∀ s, key = .ok s → Names raw s

mutual

inductive Stands : Tree → Content → Prop
  | scalar {s a start stop} : s.Stands a → Stands (.scalar s start stop) (.atom a)
  | array {start items vs} : StandsItems items vs → Stands (.array start items) (.array vs)
  | object {start members es} : StandsMembers members es →
      Stands (.object start members) (.object es)

inductive StandsItems : Items → List Content → Prop
  | close {stop} : StandsItems (.close stop) []
  | item {t v settled rest vs} : Stands t v → StandsItems rest vs →
      StandsItems (.item t settled rest) (v :: vs)

inductive StandsMembers : Members → List (List Char × Content) → Prop
  | close {stop} : StandsMembers (.close stop) []
  | member {key raw stop settledKey t v settled rest es} : KeyStands key raw → Stands t v →
      StandsMembers rest es →
      StandsMembers (.member key stop settledKey t settled rest) ((raw, v) :: es)

end

def Tree.Whole (t : Tree) : Prop := t.skip = .ok ()

def Items.Whole (is : Items) : Prop := is.skip = .ok ()

def Members.Whole (ms : Members) : Prop := ms.skip = .ok ()

@[simp] theorem Tree.not_whole_fault (f : Fault) : ¬ (Tree.fault f).Whole := by
  simp [Tree.Whole, Tree.skip]

@[simp] theorem Items.not_whole_fault (f : Fault) : ¬ (Items.fault f).Whole := by
  simp [Items.Whole, Items.skip]

@[simp] theorem Members.not_whole_fault (f : Fault) : ¬ (Members.fault f).Whole := by
  simp [Members.Whole, Members.skip]

@[simp] theorem Tree.whole_array {start : Mark} {is : Items} :
    (Tree.array start is).Whole ↔ is.Whole := by
  simp [Tree.Whole, Items.Whole, Tree.skip]

@[simp] theorem Tree.whole_object {start : Mark} {ms : Members} :
    (Tree.object start ms).Whole ↔ ms.Whole := by
  simp [Tree.Whole, Members.Whole, Tree.skip]

@[simp] theorem Items.whole_item {t : Tree} {settled : Mark} {rest : Items} :
    (Items.item t settled rest).Whole ↔ t.Whole ∧ rest.Whole := by
  unfold Items.Whole Tree.Whole
  rw [Items.skip]
  rcases t.skip with e | u <;> simp

@[simp] theorem Members.whole_member {key : Except Error String} {stop settledKey settled : Mark}
    {t : Tree} {rest : Members} :
    (Members.member key stop settledKey t settled rest).Whole ↔ t.Whole ∧ rest.Whole := by
  unfold Members.Whole Tree.Whole
  rw [Members.skip]
  rcases t.skip with e | u <;> simp

/-- Items that are complete, the last first. -/
inductive DoneItems : List (Tree × Mark) → List Content → Prop
  | nil : DoneItems [] []
  | cons {t settled done v vs} : Stands t v → DoneItems done vs →
      DoneItems ((t, settled) :: done) (vs ++ [v])

/-- Members that are complete, the last first. -/
inductive DoneMembers : List (Members → Members) → List (List Char × Content) → Prop
  | nil : DoneMembers [] []
  | cons {key raw stop settledKey t settled done v es} : KeyStands key raw → Stands t v →
      DoneMembers done es →
      DoneMembers (.member key stop settledKey t settled :: done) (es ++ [(raw, v)])

theorem DoneItems.stands {done : List (Tree × Mark)} {vs ws : List Content} {rest : Items}
    (h : DoneItems done vs) (more : StandsItems rest ws) :
    StandsItems (.ofReversed rest done) (vs ++ ws) := by
  induction h generalizing rest ws with
  | nil => exact more
  | cons first _ ih =>
    rw [List.append_assoc]
    exact ih (.item first more)

theorem DoneMembers.stands {done : List (Members → Members)} {es es' : List (List Char × Content)}
    {rest : Members} (h : DoneMembers done es) (more : StandsMembers rest es') :
    StandsMembers (.ofReversed rest done) (es ++ es') := by
  induction h generalizing rest es' with
  | nil => exact more
  | cons key first _ ih =>
    rw [List.append_assoc]
    exact ih (.member key first more)

theorem DoneItems.closed {done : List (Tree × Mark)} {vs : List Content} (h : DoneItems done vs)
    (stop : Mark) : StandsItems (.ofReversed (.close stop) done) vs := by
  have all := h.stands (.close : StandsItems (.close stop) [])
  rwa [List.append_nil] at all

theorem DoneMembers.closed {done : List (Members → Members)} {es : List (List Char × Content)}
    (h : DoneMembers done es) (stop : Mark) :
    StandsMembers (.ofReversed (.close stop) done) es := by
  have all := h.stands (.close : StandsMembers (.close stop) [])
  rwa [List.append_nil] at all

theorem Items.not_whole_ofReversed {done : List (Tree × Mark)} {rest : Items} (h : ¬ rest.Whole) :
    ¬ (ofReversed rest done).Whole := by
  induction done generalizing rest with
  | nil => exact h
  | cons d done ih =>
    apply ih
    rw [whole_item]
    exact fun whole => h whole.2

theorem DoneMembers.not_whole {done : List (Members → Members)} {es : List (List Char × Content)}
    {rest : Members} (h : DoneMembers done es) (broken : ¬ rest.Whole) :
    ¬ (Members.ofReversed rest done).Whole := by
  induction h generalizing rest with
  | nil => exact broken
  | cons _ _ _ ih =>
    apply ih
    rw [Members.whole_member]
    exact fun whole => broken whole.2

/-- The lexemes that were taken since a container was opened. -/
inductive Frame.Spans : Frame → List Lexeme → Prop
  | array {start done vs} : DoneItems done vs → Spans (.array start done) (Content.openArray vs)
  | member {start done es key raw stop settledKey} : DoneMembers done es → KeyStands key raw →
      Spans (.member start done key stop settledKey)
        (Content.openObject es ++ [.atom (.string raw), .mark ':'])

inductive FramesSpan : List Frame → List Lexeme → Prop
  | nil : FramesSpan [] []
  | cons {frame frames outer inner} : frame.Spans inner → FramesSpan frames outer →
      FramesSpan (frame :: frames) (outer ++ inner)

inductive Growth.Spans : Growth → List Lexeme → Prop
  | value : Spans .value []
  | firstItem {start} : Spans (.firstItem start) (Content.openArray [])
  | item {start done vs} : DoneItems done vs → Spans (.item start done) (Content.openArray vs)
  | firstKey {start} : Spans (.firstKey start) (Content.openObject [])
  | key {start done es} : DoneMembers done es → Spans (.key start done) (Content.openObject es)
  | colon {start done es key raw stop settledKey} : DoneMembers done es → KeyStands key raw →
      Spans (.colon start done key stop settledKey) (Content.openObject es ++ [.atom (.string raw)])
  | after {t v} : Stands t v → Spans (.after t) v.lexemes

/-- The lexemes that were taken from a text. -/
def Reached (growth : Growth) (frames : List Frame) (ls : List Lexeme) : Prop :=
  ∃ outer inner, FramesSpan frames outer ∧ growth.Spans inner ∧ ls = outer ++ inner

namespace Reached

variable {t : Tree} {start stop settledKey : Mark} {frames : List Frame} {ls : List Lexeme}

theorem frames_span {growth : Growth} (h : Reached growth frames ls) :
    ∃ outer, FramesSpan frames outer := by
  obtain ⟨outer, _, framesSpan, -, -⟩ := h
  exact ⟨outer, framesSpan⟩

theorem inArray {done : List (Tree × Mark)}
    (h : Reached (.after t) (.array start done :: frames) ls) :
    ∃ outer vs v, FramesSpan frames outer ∧ DoneItems done vs ∧ Stands t v ∧
      ls = outer ++ (Content.openArray vs ++ v.lexemes) := by
  obtain ⟨_, _, framesSpan, spans, rfl⟩ := h
  cases spans with
  | after value =>
    cases framesSpan with
    | cons span framesSpan =>
      cases span with
      | array done => exact ⟨_, _, _, framesSpan, done, value, List.append_assoc ..⟩

theorem inObject {done : List (Members → Members)} {key : Except Error String}
    (h : Reached (.after t) (.member start done key stop settledKey :: frames) ls) :
    ∃ outer es raw v, FramesSpan frames outer ∧ DoneMembers done es ∧ KeyStands key raw ∧
      Stands t v ∧
      ls = outer ++ (Content.openObject es ++ [.atom (.string raw), .mark ':'] ++ v.lexemes) := by
  obtain ⟨_, _, framesSpan, spans, rfl⟩ := h
  cases spans with
  | after value =>
    cases framesSpan with
    | cons span framesSpan =>
      cases span with
      | member done key => exact ⟨_, _, _, _, framesSpan, done, key, value, List.append_assoc ..⟩

end Reached

namespace Tree

/-- A value is expected, inside some frames. -/
inductive Awaits : Growth → List Frame → List Frame → Prop
  | value {frames} : Awaits .value frames frames
  | firstItem {start frames} : Awaits (.firstItem start) frames (.array start [] :: frames)
  | item {start done frames} : Awaits (.item start done) frames (.array start done :: frames)

/-- What one token more leads to. -/
inductive Advance : Growth → List Frame → TokenKind → Growth → List Frame → Prop
  | scalar {growth frames frames' s start stop} : Awaits growth frames frames' →
      Advance growth frames (.scalar s) (.after (.scalar s start stop)) frames'
  | beginArray {growth frames frames' start} : Awaits growth frames frames' →
      Advance growth frames .beginArray (.firstItem start) frames'
  | beginObject {growth frames frames' start} : Awaits growth frames frames' →
      Advance growth frames .beginObject (.firstKey start) frames'
  | endEmptyArray {start frames stop} :
      Advance (.firstItem start) frames .endArray (.after (.array start (.close stop))) frames
  | endEmptyObject {start frames stop} :
      Advance (.firstKey start) frames .endObject (.after (.object start (.close stop))) frames
  | firstKey {start frames key stop settledKey} :
      Advance (.firstKey start) frames (.scalar (.string key))
        (.colon start [] key stop settledKey) frames
  | key {start done frames key stop settledKey} :
      Advance (.key start done) frames (.scalar (.string key))
        (.colon start done key stop settledKey) frames
  | colon {start done key stop settledKey frames} :
      Advance (.colon start done key stop settledKey) frames .colon .value
        (.member start done key stop settledKey :: frames)
  | nextItem {t start done frames settled} :
      Advance (.after t) (.array start done :: frames) .comma (.item start ((t, settled) :: done))
        frames
  | endArray {t start done frames settled stop} :
      Advance (.after t) (.array start done :: frames) .endArray
        (.after (.array start (.ofReversed (.close stop) ((t, settled) :: done)))) frames
  | nextMember {t start done key stop settledKey frames settled} :
      Advance (.after t) (.member start done key stop settledKey :: frames) .comma
        (.key start (.member key stop settledKey t settled :: done)) frames
  | endObject {t start done key stop settledKey frames settled close} :
      Advance (.after t) (.member start done key stop settledKey :: frames) .endObject
        (.after (.object start (.ofReversed (.close close)
          (.member key stop settledKey t settled :: done)))) frames

theorem advance_of_stepValue {expected : Expectation} {growth growth' : Growth}
    {frames frames' frames'' : List Frame} {token : Token} (awaits : Awaits growth frames frames')
    (h : stepValue expected frames' token = .more growth' frames'') :
    Advance growth frames token.kind growth' frames'' := by
  unfold stepValue at h
  split at h
  · next kind =>
    cases h
    rw [kind]
    exact .scalar awaits
  · next kind =>
    cases h
    rw [kind]
    exact .beginArray awaits
  · next kind =>
    cases h
    rw [kind]
    exact .beginObject awaits
  · cases h

theorem advance_of_stepKey {expected : Expectation} {start : Mark} {done : List (Members → Members)}
    {growth growth' : Growth} {frames frames' : List Frame} {token : Token} {next? : Option Token}
    (h : stepKey expected start done frames token next? = .more growth' frames')
    (advance : ∀ key stop settledKey, Advance growth frames (.scalar (.string key))
      (.colon start done key stop settledKey) frames) :
    Advance growth frames token.kind growth' frames' := by
  unfold stepKey at h
  split at h
  · next kind =>
    cases h
    rw [kind]
    exact advance _ _ _
  · cases h

theorem advance_of_stepAfter {t : Tree} {frames frames' : List Frame} {growth' : Growth}
    {token : Token} {next? : Option Token}
    (h : stepAfter t frames token next? = .more growth' frames') :
    Advance (.after t) frames token.kind growth' frames' := by
  unfold stepAfter at h
  split at h
  · split at h <;> cases h
  · simp only at h
    split at h
    · next kind =>
      cases h
      rw [kind]
      exact .nextItem
    · next kind =>
      cases h
      rw [kind]
      exact .endArray
    · cases h
  · simp only at h
    split at h
    · next kind =>
      cases h
      rw [kind]
      exact .nextMember
    · next kind =>
      cases h
      rw [kind]
      exact .endObject
    · cases h

theorem advance_of_step {growth growth' : Growth} {frames frames' : List Frame} {token : Token}
    {next? : Option Token} (h : step growth frames token next? = .more growth' frames') :
    Advance growth frames token.kind growth' frames' := by
  cases growth with
  | value => exact advance_of_stepValue .value h
  | firstItem start =>
    unfold step at h
    simp only at h
    split at h
    · next kind =>
      cases h
      rw [kind]
      exact .endEmptyArray
    · cases h
    · exact advance_of_stepValue .firstItem h
  | item start done =>
    unfold step at h
    simp only at h
    split at h
    · cases h
    · cases h
    · exact advance_of_stepValue .item h
  | firstKey start =>
    unfold step at h
    simp only at h
    split at h
    · next kind =>
      cases h
      rw [kind]
      exact .endEmptyObject
    · exact advance_of_stepKey h fun _ _ _ => .firstKey
  | key start done => exact advance_of_stepKey h fun _ _ _ => .key
  | colon start done key stop settledKey =>
    unfold step at h
    simp only at h
    split at h
    · next kind =>
      cases h
      rw [kind]
      exact .colon
    · cases h
  | after t => exact advance_of_stepAfter h

/-- Growth goes on at lexemes only. -/
theorem Advance.solid {growth growth' : Growth} {frames frames' : List Frame} {kind : TokenKind}
    (h : Advance growth frames kind growth' frames') :
    kind.isBroken = false ∧ kind ≠ .finish := by
  cases h
  all_goals exact ⟨rfl, by simp⟩

theorem Awaits.spans {growth : Growth} {frames frames' : List Frame} {ls : List Lexeme}
    (h : Awaits growth frames frames') (reached : Reached growth frames ls) :
    FramesSpan frames' ls := by
  obtain ⟨outer, inner, framesSpan, spans, rfl⟩ := reached
  cases h with
  | value =>
    cases spans
    rw [List.append_nil]
    exact framesSpan
  | firstItem =>
    cases spans
    exact .cons (.array .nil) framesSpan
  | item =>
    cases spans with
    | item done => exact .cons (.array done) framesSpan

/-- A lexeme that growth goes on at is taken from the text. -/
theorem Advance.reached {growth growth' : Growth} {frames frames' : List Frame} {kind : TokenKind}
    {ls : List Lexeme} {l : Lexeme} (h : Advance growth frames kind growth' frames')
    (stands : kind.Stands l) (reached : Reached growth frames ls) :
    Reached growth' frames' (ls ++ [l]) := by
  cases h with
  | scalar awaits =>
    cases stands with
    | @scalar s a stands =>
      exact ⟨ls, _, awaits.spans reached, .after (.scalar stands), by rw [Content.lexemes]⟩
  | beginArray awaits =>
    cases stands
    exact ⟨ls, _, awaits.spans reached, .firstItem, rfl⟩
  | beginObject awaits =>
    cases stands
    exact ⟨ls, _, awaits.spans reached, .firstKey, rfl⟩
  | endEmptyArray =>
    cases stands
    obtain ⟨outer, _, framesSpan, spans, rfl⟩ := reached
    cases spans
    refine ⟨outer, _, framesSpan, .after (.array .close), ?_⟩
    simp [Content.lexemes, Content.openArray]
  | endEmptyObject =>
    cases stands
    obtain ⟨outer, _, framesSpan, spans, rfl⟩ := reached
    cases spans
    refine ⟨outer, _, framesSpan, .after (.object .close), ?_⟩
    simp [Content.lexemes, Content.openObject]
  | firstKey =>
    obtain ⟨outer, _, framesSpan, spans, rfl⟩ := reached
    cases spans
    cases stands with
    | scalar stands =>
      cases stands with
      | string key => exact ⟨outer, _, framesSpan, .colon .nil key, List.append_assoc ..⟩
  | key =>
    obtain ⟨outer, _, framesSpan, spans, rfl⟩ := reached
    cases spans with
    | key done =>
      cases stands with
      | scalar stands =>
        cases stands with
        | string key => exact ⟨outer, _, framesSpan, .colon done key, List.append_assoc ..⟩
  | colon =>
    cases stands
    obtain ⟨outer, _, framesSpan, spans, rfl⟩ := reached
    cases spans with
    | colon done key =>
      refine ⟨_, _, .cons (.member done key) framesSpan, .value, ?_⟩
      simp
  | nextItem =>
    cases stands
    obtain ⟨outer, vs, v, framesSpan, done, value, rfl⟩ := reached.inArray
    refine ⟨outer, _, framesSpan, .item (.cons value done), ?_⟩
    rw [Content.openArray_concat, List.append_assoc]
  | endArray =>
    cases stands
    obtain ⟨outer, vs, v, framesSpan, done, value, rfl⟩ := reached.inArray
    refine ⟨outer, _, framesSpan, .after (.array ((DoneItems.cons value done).closed _)), ?_⟩
    rw [Content.lexemes_array_concat, List.append_assoc]
  | nextMember =>
    cases stands
    obtain ⟨outer, es, raw, v, framesSpan, done, key, value, rfl⟩ := reached.inObject
    refine ⟨outer, _, framesSpan, .key (.cons key value done), ?_⟩
    rw [Content.openObject_concat, List.append_assoc]
  | endObject =>
    cases stands
    obtain ⟨outer, es, raw, v, framesSpan, done, key, value, rfl⟩ := reached.inObject
    refine ⟨outer, _, framesSpan, .after (.object ((DoneMembers.cons key value done).closed _)), ?_⟩
    rw [Content.lexemes_object_concat, List.append_assoc]

theorem not_whole_abandon {frames : List Frame} {outer : List Lexeme} {f : Fault} {t : Tree}
    (h : FramesSpan frames outer) (broken : ¬ t.Whole) : ¬ (abandon f t frames).Whole := by
  induction h generalizing t with
  | nil => exact broken
  | cons span _ ih =>
    cases span with
    | array =>
      apply ih
      rw [whole_array]
      exact Items.not_whole_ofReversed (by simp)
    | member done =>
      apply ih
      rw [whole_object]
      exact done.not_whole (by simp)

/-- Growth does not end within a value, unless in a fault. -/
theorem not_whole_of_stepValue {expected : Expectation} {frames : List Frame} {token : Token}
    {grown : Grown} {outer : List Lexeme} (h : stepValue expected frames token = .stop grown)
    (framesSpan : FramesSpan frames outer) : ¬ grown.tree.Whole := by
  unfold stepValue at h
  split at h
  all_goals cases h
  exact not_whole_abandon framesSpan (by simp)

theorem not_whole_of_stepKey {expected : Expectation} {start : Mark}
    {done : List (Members → Members)} {es : List (List Char × Content)} {frames : List Frame}
    {token : Token} {next? : Option Token} {grown : Grown} {outer : List Lexeme}
    (h : stepKey expected start done frames token next? = .stop grown)
    (members : DoneMembers done es) (framesSpan : FramesSpan frames outer) : ¬ grown.tree.Whole := by
  unfold stepKey at h
  split at h
  all_goals cases h
  apply not_whole_abandon framesSpan
  rw [whole_object]
  exact members.not_whole (by simp)

theorem finish_of_stepAfter {value : Tree} {frames : List Frame} {token : Token}
    {next? : Option Token} {grown : Grown} {ls : List Lexeme}
    (h : stepAfter value frames token next? = .stop grown)
    (reached : Reached (.after value) frames ls) (whole : grown.tree.Whole) (ended : grown.trailing? = none) :
    frames = [] ∧ token.kind = .finish ∧ grown.tree = value := by
  unfold stepAfter at h
  split at h
  · split at h
    · next kind =>
      cases h
      exact ⟨rfl, kind, rfl⟩
    · cases h
      cases ended
  · obtain ⟨outer, vs, v, framesSpan, done, value, rfl⟩ := reached.inArray
    simp only at h
    split at h
    all_goals cases h
    refine absurd whole (not_whole_abandon framesSpan ?_)
    rw [whole_array]
    exact Items.not_whole_ofReversed (by simp)
  · obtain ⟨outer, es, raw, v, framesSpan, done, key, value, rfl⟩ := reached.inObject
    simp only at h
    split at h
    all_goals cases h
    refine absurd whole (not_whole_abandon framesSpan ?_)
    rw [whole_object]
    exact (DoneMembers.cons key value done).not_whole (by simp)

/-- Growth ends after a value, unless in a fault or at a token too many. -/
theorem finish_of_step {growth : Growth} {frames : List Frame} {token : Token}
    {next? : Option Token} {grown : Grown} {ls : List Lexeme}
    (h : step growth frames token next? = .stop grown) (reached : Reached growth frames ls)
    (whole : grown.tree.Whole) (ended : grown.trailing? = none) :
    growth = .after grown.tree ∧ frames = [] ∧ token.kind = .finish := by
  cases growth with
  | value => exact absurd whole (not_whole_of_stepValue h (Awaits.value.spans reached))
  | firstItem start =>
    obtain ⟨outer, framesSpan⟩ := reached.frames_span
    unfold step at h
    simp only at h
    split at h
    · cases h
    · cases h
      exact absurd whole (not_whole_abandon framesSpan (by simp))
    · exact absurd whole (not_whole_of_stepValue h (Awaits.firstItem.spans reached))
  | item start done =>
    obtain ⟨outer, framesSpan⟩ := reached.frames_span
    have broken (f : Fault) : ¬ (Tree.array start (.ofReversed (.fault f) done)).Whole := by
      rw [whole_array]
      exact Items.not_whole_ofReversed (by simp)
    unfold step at h
    simp only at h
    split at h
    · cases h
      exact absurd whole (not_whole_abandon framesSpan (broken _))
    · cases h
      exact absurd whole (not_whole_abandon framesSpan (broken _))
    · exact absurd whole (not_whole_of_stepValue h (Awaits.item.spans reached))
  | firstKey start =>
    obtain ⟨outer, framesSpan⟩ := reached.frames_span
    unfold step at h
    simp only at h
    split at h
    · cases h
    · exact absurd whole (not_whole_of_stepKey h .nil framesSpan)
  | key start done =>
    obtain ⟨outer, _, framesSpan, spans, -⟩ := reached
    cases spans with
    | key members => exact absurd whole (not_whole_of_stepKey h members framesSpan)
  | colon start done key stop settledKey =>
    obtain ⟨outer, _, framesSpan, spans, -⟩ := reached
    cases spans with
    | colon members name =>
      unfold step at h
      simp only at h
      split at h
      all_goals cases h
      have inside : FramesSpan (.member start done key stop settledKey :: frames) _ :=
        .cons (.member members name) framesSpan
      exact absurd whole (not_whole_abandon inside (by simp))
  | after value =>
    obtain ⟨none, kind, rfl⟩ := finish_of_stepAfter h reached whole ended
    exact ⟨rfl, none, kind⟩

/-- A tree that grows to its end without a fault goes on at the first token, or is complete. -/
theorem grow_cons {growth : Growth} {frames : List Frame} {token : Token} {rest : List Token}
    {done : List Lexeme} {t : Tree} (reached : Reached growth frames done)
    (grown : grow growth frames (token :: rest) = ⟨t, none⟩) (whole : t.Whole) :
    (∃ growth' frames', Advance growth frames token.kind growth' frames' ∧
        grow growth' frames' rest = ⟨t, none⟩) ∨
      growth = .after t ∧ frames = [] ∧ token.kind = .finish := by
  rw [grow] at grown
  cases next : step growth frames token rest.head? with
  | more growth' frames' =>
    rw [next] at grown
    exact .inl ⟨growth', frames', advance_of_step next, grown⟩
  | stop last =>
    rw [next] at grown
    obtain rfl : last = ⟨t, none⟩ := grown
    exact .inr (finish_of_step next reached whole rfl)

/-- What is left of a text has the lexemes that are left of a value, if the tree that grows from it
has no fault. -/
theorem exists_lexed_of_grow {s : Input} {growth : Growth} {frames : List Frame}
    {done : List Lexeme} {t : Tree} (reached : Reached growth frames done)
    (grown : grow growth frames (Token.scan s) = ⟨t, none⟩) (whole : t.Whole) :
    ∃ ls v, Lexed s.rest ls ∧ done ++ ls = v.lexemes ∧ Stands t v := by
  fun_induction Token.scan s generalizing growth frames done with
  | case1 s hs =>
    rcases grow_cons reached grown whole with ⟨_, _, advance, -⟩ | ⟨rfl, rfl, -⟩
    · exact absurd rfl advance.solid.2
    · obtain ⟨_, _, framesSpan, spans, rfl⟩ := reached
      cases framesSpan
      cases spans with
      | @after _ v stands => exact ⟨[], v, hs ▸ .nil, by simp, stands⟩
  | case2 s c cs hs space ih =>
    obtain ⟨ls, v, lexed, same, stands⟩ := ih reached grown
    exact ⟨ls, v, hs ▸ .blank (isSpace_iff.mp space) lexed, same, stands⟩
  | case3 s c cs hs space token =>
    rename_i ih
    have next := grow_cons reached grown whole
    -- The scan goes on only after a token that is not broken, and so does growth.
    have solid : token.1.isBroken = false := by
      rcases next with ⟨_, _, advance, -⟩ | ⟨-, -, finish⟩
      · exact advance.solid.1
      · rw [show token.1 = .finish from finish]
        rfl
    have sound : TokenScan.Sound (c :: cs) token.1 token.2.rest :=
      TokenScan.first_sound (m := s.mark) rfl solid
    obtain ⟨l, text, first, spelt, lexeme, ends⟩ := sound
    rw [if_neg (Bool.eq_false_iff.mp solid)] at next
    rcases next with ⟨growth', frames', advance, grown⟩ | ⟨-, -, finish⟩
    · obtain ⟨ls, v, lexed, same, stands⟩ := ih (advance.reached lexeme reached) grown
      refine ⟨l :: ls, v, ?_, ?_, stands⟩
      · rw [hs, first]
        exact .lexeme spelt (ends ls lexed) lexed
      · rw [← same, List.append_assoc, List.singleton_append]
    · rw [show token.1 = .finish from finish] at lexeme
      cases lexeme

/-- A text that is read as a tree without a fault, and to its end, is the text of a value that the
tree stands for. -/
theorem exists_written_of_ofText {text : String} {t : Tree} (h : ofText text = ⟨t, none⟩)
    (whole : t.Whole) : ∃ v, Written text v ∧ Stands t v := by
  have start : Reached .value [] [] := ⟨[], [], .nil, .value, rfl⟩
  obtain ⟨ls, v, lexed, same, stands⟩ := exists_lexed_of_grow start h whole
  refine ⟨v, ?_, stands⟩
  rw [List.nil_append] at same
  unfold Written
  rw [← same]
  exact lexed

end Tree

end SchemaPlan.Json
