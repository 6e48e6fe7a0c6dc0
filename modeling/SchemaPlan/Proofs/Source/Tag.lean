import SchemaPlan.Proofs.Result
import SchemaPlan.Proofs.Schema.Identifier
import SchemaPlan.Proofs.Source.Grammar
import SchemaPlan.Source.Tag

/-!
# What tags say

Taking a tag apart gives the attribute that it means, if any. Tags are applied as their attributes are
added, so the two refuse the same lists.
-/

namespace SchemaPlan.Source

/-- A tag without arguments, or with a list of arguments that closes on its line. -/
inductive TagText : List Char → Prop
  | bare {name} : isIdentifier name → TagText ('@' :: name)
  | closed {name inner} : isIdentifier name → (∀ c ∈ inner, isArgument c) →
      TagText ('@' :: name ++ '(' :: inner ++ [')'])

theorem not_mem_of_isArgument {inner : List Char} (h : ∀ c ∈ inner, isArgument c) : ')' ∉ inner :=
  fun mem => absurd (h _ mem) (by decide)

theorem unbroken_of_isIdentifier {name : List Char} (h : isIdentifier name) :
    ∀ c ∈ name, ¬ isLineBreak c := by
  intro c hc lineBreak
  have part := isIdentifierPart_of_isIdentifier h c hc
  simp only [isLineBreak, Bool.or_eq_true, beq_iff_eq] at lineBreak
  rcases lineBreak with rfl | rfl <;> exact absurd part (by decide)

theorem not_isLineBreak_of_isArgument {c : Char} (h : isArgument c) : ¬ isLineBreak c := by
  simp only [isArgument, Bool.and_eq_true, Bool.not_eq_true'] at h
  simp [h.2]

theorem TagText.unbroken {cs : List Char} (h : TagText cs) : ∀ c ∈ cs, ¬ isLineBreak c := by
  cases h with
  | bare name => exact List.forall_mem_cons.mpr ⟨by decide, unbroken_of_isIdentifier name⟩
  | closed name inner =>
    simp only [List.cons_append, List.append_assoc, List.mem_cons, List.mem_append,
      List.not_mem_nil, or_false]
    rintro c (rfl | hc | rfl | hc | rfl)
    · decide
    · exact unbroken_of_isIdentifier name c hc
    · decide
    · exact not_isLineBreak_of_isArgument (inner c hc)
    · decide

/-- A word as lexemes spell it: what names something is an identifier, the word `model` is a kind of
its own, and tags close on their line. -/
structure Word.Spelt (w : Word) : Prop where
  name : w.kind.isName → isIdentifier w.text.toList
  identifier : w.kind = .identifier → w.text ≠ "model"
  tag : w.kind = .tag → TagText w.text.toList

theorem Word.Spelt.of_not_isName {w : Word} (h : w.kind.isName = false)
    (tag : w.kind = .tag → TagText w.text.toList) : w.Spelt := by
  refine ⟨fun hk => ?_, fun hk => ?_, tag⟩
  · rw [h] at hk
    cases hk
  · rw [hk] at h
    cases h

theorem spelt_of_mem_words {cs : List Char} {w : Word} (h : w ∈ words cs) (uncut : ¬ w.IsCut) :
    w.Spelt := by
  obtain ⟨l, hl, hw⟩ := List.mem_filterMap.mp h
  have formed := Lexeme.formed_of_mem_scan hl
  cases formed with
  | blank => cases hw
  | comment => cases hw
  | @word name identifier =>
    cases hw
    refine ⟨fun _ => by simpa [Lexeme.word, Lexeme.token] using identifier, ?_, ?_⟩
    · simp only [Lexeme.word, Lexeme.token, ne_eq, ← String.toList_inj, String.toList_ofList]
      intro hk
      split at hk
      · cases hk
      · next other => exact other
    · intro hk
      simp only at hk
      split at hk <;> cases hk
  | lineBreak =>
    cases hw
    exact .of_not_isName rfl fun hk => by cases hk
  | @tag name arguments hname harguments =>
    cases hw
    refine .of_not_isName rfl fun _ => ?_
    simp only [String.toList_ofList, Lexeme.token]
    cases harguments with
    | absent =>
      rw [List.append_nil]
      exact .bare hname
    | @cut inner hinner =>
      refine absurd ⟨rfl, by simp [Lexeme.token], fun last => ?_⟩ uncut
      have mem : ')' ∈ '(' :: inner :=
        List.mem_of_getLast? (by simpa [Lexeme.token, List.getLast?_cons] using last)
      rcases List.mem_cons.mp mem with e | mem
      · exact absurd e (by decide)
      · exact not_mem_of_isArgument hinner mem
    | closed hinner =>
      rw [← List.append_assoc]
      exact .closed hname hinner
  | @single c =>
    cases hw
    have mark : (Lexeme.punctuation c).isName = false ∧ Lexeme.punctuation c ≠ .tag := by
      unfold Lexeme.punctuation
      split <;> decide
    exact .of_not_isName mark.1 fun hk => absurd hk mark.2

namespace Tag

theorem dropWhile_at {name : List Char} (h : isIdentifier name) (rest : List Char) :
    ('@' :: name ++ rest).dropWhile (· == '@') = name ++ rest := by
  have noAt := not_mem_of_isIdentifier h (c := '@') (by decide)
  cases name with
  | nil => cases h
  | cons c name =>
    have : c ≠ '@' := fun e => noAt (e ▸ List.mem_cons_self)
    simp [this]

theorem notParen_of_isIdentifier {name : List Char} (h : isIdentifier name) :
    ∀ c ∈ name, (c != '(') = true := by
  have noParen := not_mem_of_isIdentifier h (c := '(') (by decide)
  intro c hc
  simpa using fun e : c = '(' => noParen (e ▸ hc)

theorem ofText_bare {s : String} {name : List Char} (h : isIdentifier name)
    (hs : s.toList = '@' :: name) : ofText s = ⟨.ofList name, none⟩ := by
  have body := dropWhile_at h []
  rw [List.append_nil, List.append_nil] at body
  have none : name.dropWhile (· != '(') = [] := by
    simpa using notParen_of_isIdentifier h
  simp [ofText, hs, body, none]

theorem ofText_closed {s : String} (name inner : List Char) (h : isIdentifier name)
    (hinner : ')' ∉ inner) (hs : s.toList = '@' :: name ++ '(' :: inner ++ [')']) :
    ofText s = ⟨.ofList name, some (Text.trim (.ofList inner))⟩ := by
  have body := dropWhile_at h ('(' :: (inner ++ [')']))
  have head := notParen_of_isIdentifier h
  have tail : inner.reverse.dropWhile (· == ')') = inner.reverse := by
    refine List.dropWhile_beq_eq_self_of_head?_ne fun e => hinner ?_
    exact List.mem_reverse.mp (List.mem_of_head? e)
  have whole : s.toList = '@' :: name ++ '(' :: (inner ++ [')']) := by simpa using hs
  simp only [ofText, whole, body]
  rw [List.dropWhile_append_of_pos head, List.takeWhile_append_of_pos head]
  simp [tail]

/-- The attribute that a tag taken apart means. -/
def attribute? (tag : Tag) : Option Attribute :=
  if tag.name = "default" then
    tag.arguments?.bind fun value => if value = "" then none else some (.default value)
  else (Flag.ofName? tag.name).map .flag

theorem attribute?_flag (f : Flag) (arguments? : Option String) :
    attribute? ⟨f.name, arguments?⟩ = some (.flag f) := by
  simp [attribute?]

theorem attribute?_default {value : String} (h : value ≠ "") :
    attribute? ⟨"default", some value⟩ = some (.default value) := by
  simp [attribute?, h]

theorem attribute?_of_means {s : String} {a : Attribute} (h : Means s a) :
    (ofText s).attribute? = some a := by
  cases h with
  | flag f =>
    rw [ofText_bare (isIdentifier_flagName f) (by simp), String.ofList_toList]
    exact attribute?_flag f none
  | flagWith f hargs =>
    rw [ofText_closed _ _ (isIdentifier_flagName f) hargs (by simp), String.ofList_toList]
    exact attribute?_flag f _
  | @default arguments hargs solid =>
    rw [ofText_closed "default".toList _ (by decide) hargs (by simp)]
    simp only [String.ofList_toList]
    apply attribute?_default
    intro blank
    obtain ⟨c, hc, notBlank⟩ := solid
    exact notBlank (Text.trim_eq_empty_iff.mp blank c hc)

theorem means_of_attribute? {s : String} {a : Attribute} (text : TagText s.toList)
    (h : (ofText s).attribute? = some a) : Means s a := by
  generalize hs : s.toList = cs at text
  cases text with
  | @bare name hname =>
    rw [ofText_bare hname hs] at h
    unfold attribute? at h
    split at h
    · cases h
    · obtain ⟨f, hf, rfl⟩ := Option.map_eq_some_iff.mp h
      have spelt : s = "@" ++ f.name := by
        rw [← String.toList_inj, hs, Flag.name_of_ofName? hf]
        simp
      rw [spelt]
      exact .flag f
  | @closed name inner hname arguments =>
    have hinner := not_mem_of_isArgument arguments
    rw [ofText_closed _ _ hname hinner hs] at h
    unfold attribute? at h
    split at h
    · next word =>
      have solid : Text.trim (.ofList inner) ≠ "" := fun e => by simp [e] at h
      simp only [Option.bind_some, if_neg solid, Option.some.injEq] at h
      subst h
      have spelt : s = "@default(" ++ .ofList inner ++ ")" := by
        have := congrArg String.toList word
        simp only [String.toList_ofList] at this
        rw [← String.toList_inj, hs, this]
        simp
      rw [spelt]
      refine .default (by simpa using hinner) ?_
      by_contra blank
      push Not at blank
      exact solid (Text.trim_eq_empty_iff.mpr blank)
    · obtain ⟨f, hf, rfl⟩ := Option.map_eq_some_iff.mp h
      have spelt : s = "@" ++ f.name ++ "(" ++ .ofList inner ++ ")" := by
        rw [← String.toList_inj, hs, Flag.name_of_ofName? hf]
        simp
      rw [spelt]
      exact .flagWith f (by simpa using hinner)

theorem means_iff {s : String} {a : Attribute} (text : TagText s.toList) :
    Means s a ↔ (ofText s).attribute? = some a :=
  ⟨attribute?_of_means, means_of_attribute? text⟩

end Tag

/-- The attribute that a word means. Only tags say one. -/
def Word.attribute? (w : Word) : Option Attribute :=
  if w.kind = .tag then (Tag.ofText w.text).attribute? else none

theorem tagged_iff {ws : List Word} {as : List Attribute}
    (text : ∀ w ∈ ws, w.kind = .tag → TagText w.text.toList) :
    Tagged ws as ↔ ws.filterMap Word.attribute? = as := by
  refine told_iff fun w hw a => ?_
  unfold Word.attribute?
  split
  · next tag => simp [tag, Tag.means_iff (text w hw tag)]
  · next other => simp [other]

namespace Site

theorem exists_applyDefault_iff {site : Site} {t : Token} {set set' : AttributeSet}
    {arguments? : Option String} :
    (∃ ws, site.applyDefault t set arguments? = .ok (set', ws)) ↔
      set.addAll (Tag.attribute? ⟨"default", arguments?⟩).toList = .ok set' := by
  unfold applyDefault
  split
  · simp [Tag.attribute?, AttributeSet.addAll]
  · simp [Tag.attribute?, AttributeSet.addAll]
  · next value solid =>
    rw [Tag.attribute?_default solid]
    by_cases second : set.HasKind .default
    · simp [AttributeSet.addAll, Attribute.kind, second]
    · simp [AttributeSet.addAll, Attribute.kind, second]

theorem exists_applyFlag_iff {site : Site} {t : Token} {set set' : AttributeSet} {f : Flag}
    {arguments? : Option String} :
    (∃ ws, site.applyFlag t set f arguments? = (set', ws)) ↔
      set.addAll [.flag f] = .ok set' := by
  have added : set.addAll [.flag f] = .ok (set.insert (.flag f)) := by
    simp [AttributeSet.addAll, Attribute.kind]
  rw [added]
  by_cases repeated : set.HasKind (.flag f)
  · rw [AttributeSet.members_insert_of_hasKind repeated]
    simp [applyFlag, repeated]
  · simp [applyFlag, repeated]

/-- A tag changes the set as its attribute does, and is refused where its attribute is. -/
theorem exists_applyTag_iff {site : Site} {t : Token} {set set' : AttributeSet} :
    (∃ ws, site.applyTag t set = .ok (set', ws)) ↔
      set.addAll (Tag.ofText t.text).attribute?.toList = .ok set' := by
  unfold applyTag
  rcases Tag.ofText t.text with ⟨name, arguments?⟩
  by_cases isDefault : name = "default"
  · subst isDefault
    exact exists_applyDefault_iff
  · simp only [if_neg isDefault, Tag.attribute?]
    rcases Flag.ofName? name with _ | f
    · simp [AttributeSet.addAll]
    · simpa using exists_applyFlag_iff

/-- Applying the tags among some tokens adds the attributes they mean, one after the other. -/
theorem exists_applyTags_iff {site : Site} {ts : List Token} {set set' : AttributeSet} :
    (∃ ws, site.applyTags set ts = .ok (set', ws)) ↔
      set.addAll ((ts.map Token.word).filterMap Word.attribute?) = .ok set' := by
  induction ts generalizing set with
  | nil => simp [applyTags, AttributeSet.addAll]
  | cons t ts ih =>
    unfold applyTags
    by_cases hk : t.kind = .tag
    · rw [if_pos hk]
      have whole : ((t :: ts).map Token.word).filterMap Word.attribute? =
          (Tag.ofText t.text).attribute?.toList ++
            (ts.map Token.word).filterMap Word.attribute? := by
        rw [List.map_cons, List.filterMap_cons]
        have head : t.word.attribute? = (Tag.ofText t.text).attribute? := if_pos hk
        rw [head]
        rcases (Tag.ofText t.text).attribute? with _ | a <;> rfl
      rw [whole, AttributeSet.addAll_append, bind_eq_ok_iff]
      constructor
      · rintro ⟨ws, h⟩
        obtain ⟨⟨next, first⟩, head, h⟩ := bind_eq_ok_iff.mp h
        obtain ⟨⟨last, later⟩, tail, h⟩ := bind_eq_ok_iff.mp h
        cases h
        exact ⟨next, exists_applyTag_iff.mp ⟨first, head⟩, ih.mp ⟨later, tail⟩⟩
      · rintro ⟨next, head, tail⟩
        obtain ⟨first, head⟩ := exists_applyTag_iff.mpr head
        obtain ⟨later, tail⟩ := ih.mpr tail
        refine ⟨first ++ later, bind_eq_ok_iff.mpr ⟨⟨next, first⟩, head, ?_⟩⟩
        exact bind_eq_ok_iff.mpr ⟨⟨set', later⟩, tail, rfl⟩
    · have silent : (Token.word t).attribute? = none := by simp [Word.attribute?, hk]
      rw [if_neg hk, ih, List.map_cons, List.filterMap_cons_none silent]

end Site

end SchemaPlan.Source
