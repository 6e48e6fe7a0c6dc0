import SchemaPlan.Json.Token
import SchemaPlan.Proofs.Json.NumberText
import SchemaPlan.Proofs.Json.StringText

/-!
# Tokens and lexemes

A token that is not broken is a lexeme of the text, and a text has the lexemes of no other.
-/

namespace SchemaPlan.Json

theorem rest_of_readWord {s t : Input} {w : List Char} (h : readWord s w = .ok t) :
    s.rest = w ++ t.rest := by
  induction w generalizing s with
  | nil =>
    cases h
    rfl
  | cons a w ih =>
    unfold readWord at h
    split at h
    · cases h
    · next c cs hs =>
      split at h
      · next same =>
        rw [hs, same, List.cons_append, ← ih h]
        rfl
      · cases h

theorem readWord_append (w rest : List Char) (m : Mark) :
    ∃ m', readWord ⟨w ++ rest, m⟩ w = .ok ⟨rest, m'⟩ := by
  induction w generalizing m with
  | nil => exact ⟨m, rfl⟩
  | cons c w ih =>
    obtain ⟨m', read⟩ := ih (m.after c)
    refine ⟨m', ?_⟩
    simp only [List.cons_append, readWord, if_true, Input.next, read]

/-- A string that is read is what stands between its quotes. Numbers are not looked at. -/
inductive Scalar.Stands : Scalar → Atom → Prop
  | null : Stands .null .null
  | bool {b} : Stands (.bool b) (.bool b)
  | number {reading digits} : Stands (.number reading) (.number digits)
  | string {reading raw} : (∀ s, reading = .ok s → Names raw s) →
      Stands (.string reading) (.string raw)

inductive TokenKind.Stands : TokenKind → Lexeme → Prop
  | scalar {s a} : s.Stands a → Stands (.scalar s) (.atom a)
  | beginArray : Stands .beginArray (.mark '[')
  | endArray : Stands .endArray (.mark ']')
  | beginObject : Stands .beginObject (.mark '{')
  | endObject : Stands .endObject (.mark '}')
  | comma : Stands .comma (.mark ',')
  | colon : Stands .colon (.mark ':')

theorem isSpace_iff {c : Char} : isSpace c ↔ c ∈ [' ', '\t', '\n', '\r'] := by
  simp [isSpace, or_assoc]

/-- The characters that lexemes start with. -/
def Opens (c : Char) : Prop :=
  c ∈ ['[', ']', '{', '}', ',', ':', 'n', 't', 'f', '"', '-'] ∨ c.isDigit

theorem Lexeme.Spelt.head {l : Lexeme} {text : List Char} (h : l.Spelt text) :
    ∃ c more, text = c :: more ∧ Opens c := by
  cases h with
  | @mark c mem =>
    refine ⟨c, [], rfl, .inl ?_⟩
    exact List.mem_append_left ['n', 't', 'f', '"', '-'] mem
  | null => exact ⟨'n', _, rfl, .inl (by decide)⟩
  | true => exact ⟨'t', _, rfl, .inl (by decide)⟩
  | false => exact ⟨'f', _, rfl, .inl (by decide)⟩
  | number text =>
    obtain ⟨c, more, rfl, minus | digit⟩ := text.head
    · exact ⟨c, more, rfl, .inl (by simp [minus])⟩
    · exact ⟨c, more, rfl, .inr digit⟩
  | string => exact ⟨'"', _, rfl, .inl (by decide)⟩

theorem not_opens_of_mem {c : Char} (h : c ∈ [' ', '\t', '\n', '\r', '.', 'e', 'E']) :
    ¬ Opens c := by
  simp only [List.mem_cons, List.not_mem_nil, or_false] at h
  rcases h with rfl | rfl | rfl | rfl | rfl | rfl | rfl
  all_goals
    unfold Opens
    decide

/-- No number goes on at the start of a text that has lexemes, unless in a digit. -/
theorem Lexed.head {cs : List Char} {ls : List Lexeme} (h : Lexed cs ls) :
    ∀ c ∈ cs.head?, c ≠ '.' ∧ c ≠ 'e' ∧ c ≠ 'E' := by
  intro c hc
  cases h with
  | nil => cases hc
  | @blank d cs ls blank =>
    obtain rfl : d = c := Option.some.inj hc
    simp only [List.mem_cons, List.not_mem_nil, or_false] at blank
    rcases blank with rfl | rfl | rfl | rfl <;> decide
  | lexeme spelt =>
    obtain ⟨d, more, rfl, opens⟩ := spelt.head
    obtain rfl : d = c := Option.some.inj hc
    refine ⟨?_, ?_, ?_⟩
    all_goals
      rintro rfl
      exact not_opens_of_mem (by decide) opens

namespace TokenScan

theorem stands_of_punctuation {c : Char} {kind : TokenKind} (h : punctuation? c = some kind) :
    c ∈ ['[', ']', '{', '}', ',', ':'] ∧ kind.Stands (.mark c) := by
  unfold punctuation? at h
  split at h
  all_goals cases h
  · exact ⟨by decide, .beginArray⟩
  · exact ⟨by decide, .endArray⟩
  · exact ⟨by decide, .beginObject⟩
  · exact ⟨by decide, .endObject⟩
  · exact ⟨by decide, .comma⟩
  · exact ⟨by decide, .colon⟩

/-- The token is a lexeme at the start of the text, and the lexeme ends there if the text after it
has lexemes. -/
def Sound (cs : List Char) (kind : TokenKind) (rest : List Char) : Prop :=
  ∃ l text, cs = text ++ rest ∧ l.Spelt text ∧ kind.Stands l ∧
    ∀ ls, Lexed rest ls → l.Ends rest

theorem word_sound {s t : Input} {c : Char} {letters : String} {scalar : Scalar} {a : Atom}
    {kind : TokenKind} (h : word s letters scalar = (kind, t)) (whole : kind.isBroken = false)
    (spelt : (Lexeme.atom a).Spelt (c :: letters.toList)) (stands : scalar.Stands a)
    (ends : ∀ rest, (Lexeme.atom a).Ends rest) : Sound (c :: s.rest) kind t.rest := by
  unfold word at h
  split at h
  · next read =>
    cases h
    refine ⟨.atom a, c :: letters.toList, ?_, spelt, .scalar stands, fun _ _ => ends _⟩
    rw [rest_of_readWord read, List.cons_append]
  · cases h
    cases whole

theorem number_sound {m : Mark} {c : Char} {cs : List Char} {kind : TokenKind} {t : Input}
    (h : number m c cs = (kind, t)) (whole : kind.isBroken = false) :
    Sound (c :: cs) kind t.rest := by
  unfold number at h
  split at h
  · next s scanned =>
    cases h
    obtain ⟨digits, same, text, noDigit⟩ := NumberScan.numberText_of_scan scanned
    refine ⟨.atom (.number digits), digits, same, .number text, .scalar .number, ?_⟩
    -- A point or an `e` may follow what was scanned, but no lexeme starts with one.
    intro ls lexed d hd
    exact ⟨Bool.eq_false_iff.mp (noDigit d hd), lexed.head d hd⟩
  · cases h
    cases whole

theorem string_sound {s t : Input} {kind : TokenKind} (h : string s = (kind, t))
    (whole : kind.isBroken = false) : Sound ('"' :: s.rest) kind t.rest := by
  unfold string at h
  simp only at h
  split at h
  · next skipped =>
    cases h
    obtain ⟨raw, rest, text⟩ := exists_stringText_of_skipString skipped
    refine ⟨.atom (.string raw), '"' :: raw ++ ['"'], by simp [rest], .string text,
      .scalar (.string ?_), fun _ _ => trivial⟩
    intro name read
    obtain ⟨⟨ds, u⟩, found, rfl⟩ := map_eq_ok_iff.mp read
    obtain ⟨raw', rest', spells⟩ := exists_spells_of_readString found
    obtain ⟨rfl, -⟩ := text.append_inj spells.stringText (rest.symm.trans rest')
    unfold Names
    rw [String.toList_ofList]
    exact spells
  · cases h
    cases whole

theorem first_sound {m : Mark} {c : Char} {cs : List Char} {kind : TokenKind} {t : Input}
    (h : first m c cs = (kind, t)) (whole : kind.isBroken = false) :
    Sound (c :: cs) kind t.rest := by
  unfold first at h
  simp only at h
  split at h
  · next found =>
    cases h
    obtain ⟨mem, stands⟩ := stands_of_punctuation found
    exact ⟨.mark c, [c], rfl, .mark mem, stands, fun _ _ => trivial⟩
  by_cases quote : c = '"'
  · rw [if_pos quote] at h
    rw [quote]
    exact string_sound h whole
  rw [if_neg quote] at h
  by_cases null : c = 'n'
  · rw [if_pos null] at h
    rw [null]
    exact word_sound h whole .null .null fun _ => trivial
  rw [if_neg null] at h
  by_cases yes : c = 't'
  · rw [if_pos yes] at h
    rw [yes]
    exact word_sound h whole .true .bool fun _ => trivial
  rw [if_neg yes] at h
  by_cases no : c = 'f'
  · rw [if_pos no] at h
    rw [no]
    exact word_sound h whole .false .bool fun _ => trivial
  rw [if_neg no] at h
  split at h
  · exact number_sound h whole
  · cases h
    cases whole

theorem punctuation?_of_mem {c : Char} (h : c ∈ ['[', ']', '{', '}', ',', ':']) :
    ∃ kind, punctuation? c = some kind := by
  simp only [List.mem_cons, List.not_mem_nil, or_false] at h
  rcases h with rfl | rfl | rfl | rfl | rfl | rfl
  all_goals exact ⟨_, rfl⟩

theorem first_number {c : Char} (h : c = '-' ∨ c.isDigit) (m : Mark) (cs : List Char) :
    first m c cs = number m c cs := by
  have other (d : Char) (hd : ¬ (d = '-' ∨ d.isDigit)) : c ≠ d := by
    rintro rfl
    exact hd h
  have none : punctuation? c = none := by
    unfold punctuation?
    split
    all_goals first | rfl | exact absurd h (by decide)
  simp only [first, none, if_neg (other '"' (by decide)), if_neg (other 'n' (by decide)),
    if_neg (other 't' (by decide)), if_neg (other 'f' (by decide)), if_pos h]

theorem word_append (letters : String) (scalar : Scalar) (rest : List Char) (m : Mark) :
    (word ⟨letters.toList ++ rest, m⟩ letters scalar).2.rest = rest := by
  obtain ⟨m', read⟩ := readWord_append letters.toList rest m
  simp only [word, read]

/-- The token at the start of a text ends where its first lexeme does. -/
theorem first_spelt {l : Lexeme} {text rest : List Char} (h : l.Spelt text) (ends : l.Ends rest)
    {c : Char} {cs : List Char} (same : text ++ rest = c :: cs) (m : Mark) :
    (first m c cs).2.rest = rest := by
  cases h with
  | @mark d mem =>
    cases same
    obtain ⟨kind, found⟩ := punctuation?_of_mem mem
    simp only [first, found]
    rfl
  | null =>
    cases same
    exact word_append "ull" .null rest (m.after 'n')
  | true =>
    cases same
    exact word_append "rue" (.bool .true) rest (m.after 't')
  | false =>
    cases same
    exact word_append "alse" (.bool .false) rest (m.after 'f')
  | number text =>
    obtain ⟨s, scanned, left⟩ := NumberScan.scan_numberText text ends m
    obtain ⟨d, more, rfl, start⟩ := text.head
    obtain ⟨rfl, -⟩ := List.cons.inj same
    rw [same] at scanned
    rw [first_number start]
    simp only [number, scanned]
    exact left
  | @string raw text =>
    obtain ⟨m', skipped⟩ := skipString_stringText text rest (m.after '"')
    have none : punctuation? '"' = none := rfl
    have whole : '"' :: (raw ++ '"' :: rest) = c :: cs := by simpa using same
    obtain ⟨rfl, rfl⟩ := List.cons.inj whole
    simp only [first, none, if_true, string, skipped]

end TokenScan

/-- The lexeme that some text spells, if it spells one. -/
def Lexeme.ofSpelling (text : List Char) : Lexeme :=
  match text with
  | [] => .mark ' '
  | c :: more =>
    if c = '-' ∨ c.isDigit then .atom (.number text)
    else
      match c with
      | '"' => .atom (.string more.dropLast)
      | 'n' => .atom .null
      | 't' => .atom (.bool true)
      | 'f' => .atom (.bool false)
      | _ => .mark c

theorem Lexeme.Spelt.ofSpelling_eq {l : Lexeme} {text : List Char} (h : l.Spelt text) :
    Lexeme.ofSpelling text = l := by
  cases h with
  | mark mem =>
    simp only [List.mem_cons, List.not_mem_nil, or_false] at mem
    rcases mem with rfl | rfl | rfl | rfl | rfl | rfl
    all_goals rfl
  | null => rfl
  | true => rfl
  | false => rfl
  | number text =>
    obtain ⟨c, more, rfl, start⟩ := text.head
    exact if_pos start
  | string => simp [Lexeme.ofSpelling]

/-- The spelling of a lexeme is that of no other. -/
theorem Lexeme.Spelt.unique {l l' : Lexeme} {text : List Char} (h : l.Spelt text)
    (h' : l'.Spelt text) : l = l' := h.ofSpelling_eq.symm.trans h'.ofSpelling_eq

/-- A text goes on with a lexeme in one way only. -/
theorem Lexeme.Spelt.append_inj {l l' : Lexeme} {text text' rest rest' : List Char}
    (h : l.Spelt text) (ends : l.Ends rest) (h' : l'.Spelt text') (ends' : l'.Ends rest')
    (same : text ++ rest = text' ++ rest') : l = l' ∧ rest = rest' := by
  obtain ⟨c, more, rfl, -⟩ := h.head
  have stop : (TokenScan.first .start c (more ++ rest)).2.rest = rest :=
    TokenScan.first_spelt h ends rfl .start
  have stop' : (TokenScan.first .start c (more ++ rest)).2.rest = rest' :=
    TokenScan.first_spelt h' ends' same.symm .start
  obtain rfl := stop.symm.trans stop'
  rw [← List.append_cancel_right same] at h'
  exact ⟨h.unique h', rfl⟩

namespace Lexed

theorem eq_nil {ls : List Lexeme} (h : Lexed [] ls) : ls = [] := by
  generalize whole : [] = cs at h
  cases h with
  | nil => rfl
  | blank => cases whole
  | lexeme spelt =>
    obtain ⟨c, more, rfl, -⟩ := spelt.head
    cases whole

theorem of_blank {c : Char} {cs : List Char} {ls : List Lexeme}
    (blank : c ∈ [' ', '\t', '\n', '\r']) (h : Lexed (c :: cs) ls) : Lexed cs ls := by
  generalize whole : c :: cs = text at h
  cases h with
  | nil => cases whole
  | blank _ rest =>
    cases whole
    exact rest
  | lexeme spelt =>
    obtain ⟨d, more, rfl, opens⟩ := spelt.head
    obtain ⟨rfl, -⟩ := List.cons.inj whole
    exact absurd opens (not_opens_of_mem (List.mem_append_left ['.', 'e', 'E'] blank))

theorem of_lexeme {l : Lexeme} {text rest : List Char} {ls : List Lexeme} (spelt : l.Spelt text)
    (ends : l.Ends rest) (h : Lexed (text ++ rest) ls) :
    ∃ more, ls = l :: more ∧ Lexed rest more := by
  generalize whole : text ++ rest = cs at h
  cases h with
  | nil =>
    obtain ⟨c, more, rfl, -⟩ := spelt.head
    cases whole
  | blank blank =>
    obtain ⟨d, more, rfl, opens⟩ := spelt.head
    obtain ⟨rfl, -⟩ := List.cons.inj whole
    exact absurd opens (not_opens_of_mem (List.mem_append_left ['.', 'e', 'E'] blank))
  | lexeme spelt' ends' lexed =>
    obtain ⟨rfl, rfl⟩ := spelt.append_inj ends spelt' ends' whole
    exact ⟨_, rfl, lexed⟩

/-- A text has one list of lexemes. -/
theorem unique {cs : List Char} {ls ls' : List Lexeme} (h : Lexed cs ls) (h' : Lexed cs ls') :
    ls = ls' := by
  induction h generalizing ls' with
  | nil => exact h'.eq_nil.symm
  | blank blank _ ih => exact ih (of_blank blank h')
  | lexeme spelt ends _ ih =>
    obtain ⟨more, rfl, rest⟩ := of_lexeme spelt ends h'
    rw [ih rest]

end Lexed

/-- A text is that of one value. -/
theorem Written.unique {text : String} {v w : Content} (h : Written text v) (h' : Written text w) :
    v = w := by
  apply Content.lexemes_inj
  exact Lexed.unique h h'

end SchemaPlan.Json
