import SchemaPlan.Proofs.Source.Outline

/-!
# What a text leaves open

The tokens of a text fall into those whose blocks are settled, whatever follows, and those at the end
that wait for more: a word that may open a block, or a block that has not closed. Only what waits can be
changed by the tokens that follow.
-/

namespace SchemaPlan.Source

/-- The tokens end in the word `model`, or in this word and a name, but for line breaks. -/
def Dangles (ts : List Token) : Prop :=
  ∃ before last, ts.filter (!·.isNewline) = before ++ [last] ∧
    (last.kind = .model ∨ last.kind = .identifier ∧ ∃ t ∈ before.getLast?, t.kind = .model)

/-- Something that stands in two lists, one after the other, stands in the first or in the second. -/
theorem append_eq_append_cons {α : Type} {as bs before after : List α} {a : α}
    (h : as ++ bs = before ++ a :: after) :
    (∃ rest, as = before ++ a :: rest ∧ after = rest ++ bs) ∨
      ∃ more, before = as ++ more ∧ bs = more ++ a :: after := by
  rcases List.append_eq_append_iff.mp h with ⟨more, hbefore, hbs⟩ | ⟨rest, has, hafter⟩
  · exact .inr ⟨more, hbefore, hbs⟩
  · cases rest with
    | nil => exact .inr ⟨[], by simp [has], hafter.symm⟩
    | cons b rest =>
      obtain ⟨rfl, rfl⟩ := List.cons.inj hafter
      exact .inl ⟨rest, has, rfl⟩

namespace Block

theorem header?_append {ts inside : List Token} {name : Token} (h : header? ts = some (name, inside))
    (us : List Token) : header? (ts ++ us) = some (name, inside ++ us) := by
  obtain ⟨first, second, brace, rfl, rest⟩ := header?_eq_some_iff.mp h
  exact header?_eq_some_iff.mpr ⟨first, second, brace, by simp, rest⟩

theorem close?_zero_append {ts body after : List Token} (h : close? 0 ts = some (body, after))
    (us : List Token) : close? 0 (ts ++ us) = some (body, after ++ us) := by
  obtain ⟨closing, rfl, rest⟩ := close?_zero_eq_some_iff.mp h
  exact close?_zero_eq_some_iff.mpr ⟨closing, by simp, rest⟩

theorem close?_zero_append_newlines {ts breaks : List Token} (h : close? 0 ts = none)
    (newlines : ∀ t ∈ breaks, t.kind = .newline) : close? 0 (ts ++ breaks) = none := by
  refine Option.eq_none_iff_forall_ne_some.mpr fun ⟨body, after⟩ found => ?_
  obtain ⟨closing, whole, balanced, hc⟩ := close?_zero_eq_some_iff.mp found
  rcases append_eq_append_cons whole with ⟨rest, rfl, -⟩ | ⟨more, -, rfl⟩
  · rw [close?_zero_eq_some_iff.mpr ⟨closing, rfl, balanced, hc⟩] at h
    cases h
  · have := newlines closing (by simp)
    rw [hc] at this
    cases this

/-- Tokens after the word `model` that may still become a header. -/
inductive HeaderOpen : List Token → Prop
  | breaks {ts} : (∀ t ∈ ts, t.kind = .newline) → HeaderOpen ts
  | name {first name second} : (∀ t ∈ first, t.kind = .newline) → name.kind = .identifier →
      (∀ t ∈ second, t.kind = .newline) → HeaderOpen (first ++ name :: second)

theorem header?_append_of_none {ts : List Token} (h : header? ts = none) (closed : ¬ HeaderOpen ts)
    (us : List Token) : header? (ts ++ us) = none := by
  refine Option.eq_none_iff_forall_ne_some.mpr fun ⟨name, inside⟩ found => ?_
  obtain ⟨first, second, brace, whole, hfirst, hname, hsecond, hbrace⟩ :=
    header?_eq_some_iff.mp found
  rw [List.append_assoc, List.cons_append] at whole
  rcases append_eq_append_cons whole with ⟨rest, rfl, inner⟩ | ⟨more, rfl, -⟩
  · rcases append_eq_append_cons inner.symm with ⟨inside, rfl, -⟩ | ⟨more, rfl, -⟩
    · have complete : header? (first ++ name :: (second ++ brace :: inside)) = some (name, inside) :=
        header?_eq_some_iff.mpr ⟨first, second, brace, by simp, hfirst, hname, hsecond, hbrace⟩
      rw [complete] at h
      cases h
    · exact closed (.name hfirst hname fun t ht => hsecond t (List.mem_append_left _ ht))
  · exact closed (.breaks fun t ht => hfirst t (List.mem_append_left _ ht))

namespace HeaderOpen

variable {ts breaks : List Token}

theorem append (h : HeaderOpen ts) (newlines : ∀ t ∈ breaks, t.kind = .newline) :
    HeaderOpen (ts ++ breaks) := by
  cases h with
  | breaks all => exact .breaks (List.forall_mem_append.mpr ⟨all, newlines⟩)
  | name hfirst hname hsecond =>
    rw [List.append_assoc, List.cons_append]
    exact .name hfirst hname (List.forall_mem_append.mpr ⟨hsecond, newlines⟩)

theorem kinds (h : HeaderOpen ts) : ∀ t ∈ ts, t.kind = .newline ∨ t.kind = .identifier := by
  cases h with
  | breaks all =>
    intro t ht
    exact .inl (all t ht)
  | name hfirst hname hsecond =>
    exact List.forall_mem_append.mpr ⟨fun t ht => .inl (hfirst t ht),
      List.forall_mem_cons.mpr ⟨.inr hname, fun t ht => .inl (hsecond t ht)⟩⟩

theorem header?_eq_none (h : HeaderOpen ts) : header? ts = none := by
  refine Option.eq_none_iff_forall_ne_some.mpr fun ⟨_, _⟩ found => ?_
  obtain ⟨first, second, brace, rfl, -, -, -, hbrace⟩ := header?_eq_some_iff.mp found
  rcases h.kinds brace (by simp) with e | e
  · exact absurd (hbrace.symm.trans e) (by decide)
  · exact absurd (hbrace.symm.trans e) (by decide)

end HeaderOpen

end Block

theorem dangles_of_header (settled : List Token) {t : Token} {ts : List Token} (hk : t.kind = .model)
    (waits : Block.HeaderOpen ts) : Dangles (settled ++ t :: ts) := by
  have solid {u : Token} (us : List Token) (h : u.kind ≠ .newline) :
      (u :: us).filter (!·.isNewline) = u :: us.filter (!·.isNewline) := by
    simp [Token.isNewline, h]
  have breaks {us : List Token} (newlines : ∀ u ∈ us, u.kind = .newline) :
      us.filter (!·.isNewline) = [] := by
    simpa [Token.isNewline] using newlines
  have keyword : t.kind ≠ .newline := by simp [hk]
  cases waits with
  | breaks newlines =>
    refine ⟨settled.filter (!·.isNewline), t, ?_, .inl hk⟩
    rw [List.filter_append, solid ts keyword, breaks newlines]
  | @name first name second hfirst hname hsecond =>
    refine ⟨settled.filter (!·.isNewline) ++ [t], name, ?_, .inr ⟨hname, t, by simp, hk⟩⟩
    rw [List.filter_append, solid _ keyword, List.filter_append, breaks hfirst,
      solid second (by simp [hname]), breaks hsecond]
    simp

/-- Tokens at the end of a text that more tokens may complete to a block, or to another one. -/
inductive Open : List Token → Prop
  | done : Open []
  | header {t ts} : t.kind = .model → Block.HeaderOpen ts → Open (t :: ts)
  | body {t ts name inside} : t.kind = .model → Block.header? ts = some (name, inside) →
      Block.close? 0 inside = none → Open (t :: ts)

namespace Outline

theorem ofTokens_of_not_model {ts : List Token} (h : ∀ t ∈ ts, t.kind ≠ .model) :
    ofTokens ts = ⟨[], none⟩ := by
  induction ts with
  | nil => simp [ofTokens]
  | cons t ts ih =>
    obtain ⟨head, tail⟩ := List.forall_mem_cons.mp h
    rw [ofTokens_skip fun e => absurd e head, ih tail]

theorem ofTokens_header {t : Token} {ts : List Token} (h : Block.HeaderOpen ts) :
    ofTokens (t :: ts) = ⟨[], none⟩ := by
  rw [ofTokens_skip fun _ => h.header?_eq_none, ofTokens_of_not_model]
  intro u hu
  rcases h.kinds u hu with e | e <;> simp [e]

/-- The tokens that wait hold no block, and line breaks do not complete one. -/
theorem blocks_of_open {ts breaks : List Token} (h : Open ts)
    (newlines : ∀ t ∈ breaks, t.kind = .newline) : (ofTokens (ts ++ breaks)).blocks = [] := by
  cases h with
  | done =>
    rw [List.nil_append, ofTokens_of_not_model]
    exact fun t ht => by simp [newlines t ht]
  | header hk waits => rw [List.cons_append, ofTokens_header (waits.append newlines)]
  | body hk header unclosed =>
    rw [List.cons_append, ofTokens_unclosed hk (Block.header?_append header breaks)
      (Block.close?_zero_append_newlines unclosed newlines)]

/-- Blocks that are settled stay as they are. -/
theorem exists_open (ts : List Token) :
    ∃ settled rest, ts = settled ++ rest ∧ Open rest ∧
      ∀ us, ofTokens (ts ++ us) =
        ⟨(ofTokens ts).blocks ++ (ofTokens (rest ++ us)).blocks,
          (ofTokens (rest ++ us)).unclosed?⟩ := by
  fun_induction ofTokens ts with
  | case1 => exact ⟨[], [], rfl, .done, fun us => rfl⟩
  | case2 t ts hk header ih =>
    -- The word opens nothing so far. What follows may change that only if the text ends right here.
    by_cases waits : Block.HeaderOpen ts
    · refine ⟨[], t :: ts, rfl, .header hk waits, fun us => ?_⟩
      have none : ofTokens ts = ⟨[], none⟩ :=
        (ofTokens_skip (t := t) fun _ => header).symm.trans (ofTokens_header waits)
      rw [none]
      rfl
    · obtain ⟨settled, rest, rfl, waiting, append⟩ := ih
      refine ⟨t :: settled, rest, rfl, waiting, fun us => ?_⟩
      have none := Block.header?_append_of_none header waits us
      rw [List.cons_append, ofTokens_skip fun _ => none, append]
  | case3 t ts hk name inside header unclosed =>
    exact ⟨[], t :: ts, rfl, .body hk header unclosed, fun us => rfl⟩
  | case4 t ts hk name inside header body after close outline ih =>
    obtain ⟨settled, rest, rfl, waiting, append⟩ := ih
    obtain ⟨first, second, brace, rfl, -⟩ := Block.header?_eq_some_iff.mp header
    obtain ⟨closing, rfl, -⟩ := Block.close?_zero_eq_some_iff.mp close
    refine ⟨t :: (first ++ name :: second ++ brace :: (body ++ closing :: settled)), rest, by simp,
      waiting, fun us => ?_⟩
    rw [List.cons_append, ofTokens_block hk (Block.header?_append header us)
      (Block.close?_zero_append close us), append]
    rfl
  | case5 t ts hk ih =>
    obtain ⟨settled, rest, rfl, waiting, append⟩ := ih
    refine ⟨t :: settled, rest, rfl, waiting, fun us => ?_⟩
    rw [List.cons_append, ofTokens_skip fun e => absurd e hk, append]

/-- Tokens after the line breaks at the end of a text leave its blocks as they are. If nothing waits
there, they are outlined on their own. -/
theorem ofTokens_append (ts : List Token) {breaks : List Token} (newlines : ∀ t ∈ breaks, t.kind = .newline)
    (us : List Token) :
    (ofTokens (ts ++ breaks)).blocks <+: (ofTokens (ts ++ us)).blocks ∧
      ((ofTokens (ts ++ breaks)).unclosed? = none → ¬ Dangles (ts ++ breaks) →
        ofTokens (ts ++ us) =
          ⟨(ofTokens (ts ++ breaks)).blocks ++ (ofTokens us).blocks, (ofTokens us).unclosed?⟩) := by
  obtain ⟨settled, rest, rfl, waiting, append⟩ := exists_open ts
  have blocks := blocks_of_open waiting newlines
  rw [append us, append breaks, blocks, List.append_nil]
  refine ⟨List.prefix_append .., fun closed still => ?_⟩
  cases waiting with
  | done => rfl
  | header hk waits =>
    rw [List.append_assoc] at still
    exact absurd (dangles_of_header settled hk (waits.append newlines)) still
  | body hk header unclosed =>
    rw [List.cons_append, ofTokens_unclosed hk (Block.header?_append header breaks)
      (Block.close?_zero_append_newlines unclosed newlines)] at closed
    cases closed

end Outline

end SchemaPlan.Source
