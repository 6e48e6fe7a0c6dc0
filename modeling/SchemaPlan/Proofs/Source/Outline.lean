import SchemaPlan.Proofs.Source.Grammar
import SchemaPlan.Source.Block

/-!
# Finding blocks

The outline that is computed from tokens is the one the grammar gives their words. Counting braces
finds the brace that balances, whatever stands in between.
-/

namespace SchemaPlan.Source

theorem Token.isNewline_iff {t : Token} : t.isNewline = true ↔ t.kind = .newline := by
  simp [Token.isNewline]

/-- Words that open a block open it with more words inside, too. -/
theorem Opens.append {ws inside : List Word} {name : Word} (h : Opens ws name inside)
    (more : List Word) : Opens (ws ++ more) name (inside ++ more) := by
  obtain ⟨hk, hfirst, hname, hsecond, hbrace⟩ := h
  rw [List.append_assoc, List.cons_append]
  exact .intro hk hfirst hname hsecond hbrace

namespace Block

theorem dropWhile_newlines {first : List Token} {t : Token} (rest : List Token)
    (breaks : ∀ u ∈ first, u.kind = .newline) (h : t.kind ≠ .newline) :
    (first ++ t :: rest).dropWhile Token.isNewline = t :: rest := by
  rw [List.dropWhile_append_of_pos fun u hu => Token.isNewline_iff.mpr (breaks u hu)]
  exact List.dropWhile_cons_of_neg fun e => h (Token.isNewline_iff.mp e)

theorem header?_eq_some_iff {ts : List Token} {name : Token} {inside : List Token} :
    header? ts = some (name, inside) ↔
      ∃ first second brace, ts = first ++ name :: second ++ brace :: inside ∧
        (∀ t ∈ first, t.kind = .newline) ∧ name.kind = .identifier ∧
        (∀ t ∈ second, t.kind = .newline) ∧ brace.kind = .openBrace := by
  constructor
  · intro h
    have split (us : List Token) := List.takeWhile_append_dropWhile (p := Token.isNewline) (l := us)
    have breaks (us : List Token) : ∀ t ∈ us.takeWhile Token.isNewline, t.kind = .newline :=
      fun t ht => Token.isNewline_iff.mp (List.mem_takeWhile_imp ht)
    unfold header? at h
    split at h
    · cases h
    · next found rest hfound =>
      split at h
      · cases h
      · next brace after hbrace =>
        split at h
        · next kinds =>
          cases h
          refine ⟨ts.takeWhile Token.isNewline, rest.takeWhile Token.isNewline, brace, ?_,
            breaks _, kinds.1, breaks _, kinds.2⟩
          have hts := split ts
          have hrest := split rest
          rw [hfound] at hts
          rw [hbrace] at hrest
          rw [List.append_assoc, List.cons_append, hrest, hts]
        · cases h
  · rintro ⟨first, second, brace, rfl, hfirst, hname, hsecond, hbrace⟩
    have nameFound := dropWhile_newlines (second ++ brace :: inside) hfirst
      (show name.kind ≠ .newline by simp [hname])
    have braceFound := dropWhile_newlines inside hsecond
      (show brace.kind ≠ .newline by simp [hbrace])
    rw [header?, List.append_assoc, List.cons_append, nameFound]
    simp only [braceFound]
    rw [if_pos ⟨hname, hbrace⟩]

theorem opens_of_header? {keyword name : Token} {ts inside : List Token}
    (hk : keyword.kind = .model) (h : header? ts = some (name, inside)) :
    Opens ((keyword :: ts).map Token.word) name.word (inside.map Token.word) := by
  obtain ⟨first, second, brace, rfl, hfirst, hname, hsecond, hbrace⟩ := header?_eq_some_iff.mp h
  have whole : (keyword :: (first ++ name :: second ++ brace :: inside)).map Token.word =
      keyword.word :: first.map Token.word ++ name.word :: second.map Token.word ++
        brace.word :: inside.map Token.word := by
    simp
  rw [whole]
  exact .intro hk (by simpa using hfirst) hname (by simpa using hsecond) hbrace

theorem header?_of_opens {ts : List Token} {name : Word} {inside : List Word}
    (h : Opens (ts.map Token.word) name inside) :
    ∃ keyword rest token tokens, ts = keyword :: rest ∧ keyword.kind = .model ∧
      header? rest = some (token, tokens) ∧ token.word = name ∧ tokens.map Token.word = inside := by
  generalize hws : ts.map Token.word = ws at h
  obtain ⟨hk, hfirst, hname, hsecond, hbrace⟩ := h
  simp only [List.cons_append, List.append_assoc, List.map_eq_cons_iff, List.map_eq_append_iff]
    at hws
  obtain ⟨keyword, rest, rfl, rfl, first, more, rfl, rfl, token, more, rfl, rfl, second, more, rfl,
    rfl, brace, tokens, rfl, rfl, rfl⟩ := hws
  refine ⟨keyword, _, token, tokens, rfl, hk, ?_, rfl, rfl⟩
  refine header?_eq_some_iff.mpr ⟨first, second, brace, by simp, ?_, hname, ?_, hbrace⟩
  · simpa using hfirst
  · simpa using hsecond

/-- Words in which so many braces close that were opened before. -/
inductive Descends : Nat → List Word → Prop
  | zero {ws} : Balanced ws → Descends 0 ws
  | succ {depth ws closing rest} : Balanced ws → closing.kind = .closeBrace →
      Descends depth rest → Descends (depth + 1) (ws ++ closing :: rest)

theorem Descends.plain {depth : Nat} {w : Word} {ws : List Word} (h : Descends depth ws)
    (ho : w.kind ≠ .openBrace) (hc : w.kind ≠ .closeBrace) : Descends depth (w :: ws) := by
  cases h with
  | zero balanced => exact .zero (.plain ho hc balanced)
  | succ balanced closing rest =>
    rw [← List.cons_append]
    exact .succ (.plain ho hc balanced) closing rest

/-- A brace that opens uses up the next brace that closes. -/
theorem Descends.opened {depth : Nat} {w : Word} {ws : List Word} (h : Descends (depth + 1) ws)
    (ho : w.kind = .openBrace) : Descends depth (w :: ws) := by
  cases h with
  | succ inner closing rest =>
    cases rest with
    | zero balanced => exact .zero (.nested ho inner closing balanced)
    | succ balanced closing' rest =>
      rw [← List.cons_append, ← List.cons_append, ← List.append_assoc]
      exact .succ (.nested ho inner closing balanced) closing' rest

theorem descends_of_close? {depth : Nat} {ts body after : List Token}
    (h : close? depth ts = some (body, after)) :
    Descends depth (body.map Token.word) ∧
      ∃ closing, closing.kind = .closeBrace ∧ ts = body ++ closing :: after := by
  induction ts generalizing depth body with
  | nil => cases h
  | cons t rest ih =>
    unfold close? at h
    split at h
    · next ho =>
      simp only [Option.map_eq_some_iff, Prod.exists, Prod.mk.injEq] at h
      obtain ⟨inner, _, h, rfl, rfl⟩ := h
      obtain ⟨descends, closing, hc, rfl⟩ := ih h
      exact ⟨descends.opened ho, closing, hc, rfl⟩
    · next hc =>
      cases h
      exact ⟨.zero .nil, t, hc, rfl⟩
    · next hc =>
      simp only [Option.map_eq_some_iff, Prod.exists, Prod.mk.injEq] at h
      obtain ⟨inner, _, h, rfl, rfl⟩ := h
      obtain ⟨descends, closing, hclosing, rfl⟩ := ih h
      exact ⟨.succ .nil hc descends, closing, hclosing, rfl⟩
    · next ho hz hs =>
      simp only [Option.map_eq_some_iff, Prod.exists, Prod.mk.injEq] at h
      obtain ⟨inner, _, h, rfl, rfl⟩ := h
      obtain ⟨descends, closing, hclosing, rfl⟩ := ih h
      refine ⟨descends.plain ho fun hc => ?_, closing, hclosing, rfl⟩
      exact (Nat.eq_zero_or_eq_succ_pred _).elim (hz hc) (hs _ hc)

theorem close?_openBrace {depth : Nat} {t : Token} {ts : List Token} (h : t.kind = .openBrace) :
    close? depth (t :: ts) =
      (close? (depth + 1) ts).map fun (body, after) => (t :: body, after) := by
  simp [close?, h]

theorem close?_closeBrace {depth : Nat} {t : Token} {ts : List Token} (h : t.kind = .closeBrace) :
    close? (depth + 1) (t :: ts) =
      (close? depth ts).map fun (body, after) => (t :: body, after) := by
  simp [close?, h]

theorem close?_plain {depth : Nat} {t : Token} {ts : List Token} (ho : t.kind ≠ .openBrace)
    (hc : t.kind ≠ .closeBrace) :
    close? depth (t :: ts) = (close? depth ts).map fun (body, after) => (t :: body, after) := by
  cases hk : t.kind <;> first | contradiction | simp [close?, hk]

/-- Balanced words are passed over at any depth. -/
theorem close?_append {ws : List Word} (balanced : Balanced ws) {body : List Token}
    (hbody : body.map Token.word = ws) (depth : Nat) (rest : List Token) :
    close? depth (body ++ rest) =
      (close? depth rest).map fun (more, after) => (body ++ more, after) := by
  induction balanced generalizing body depth rest with
  | nil =>
    obtain rfl := List.map_eq_nil_iff.mp hbody
    simp
  | plain ho hc _ ih =>
    obtain ⟨t, body, rfl, rfl, hrest⟩ := List.map_eq_cons_iff.mp hbody
    rw [List.cons_append, close?_plain ho hc, ih hrest, Option.map_map]
    rfl
  | nested ho _ hc _ ihInner ihAfter =>
    simp only [List.cons_append, List.map_eq_cons_iff, List.map_eq_append_iff] at hbody
    obtain ⟨t, _, rfl, rfl, inner, _, rfl, hinner, u, after, rfl, rfl, hafter⟩ := hbody
    rw [List.cons_append, close?_openBrace ho, List.append_assoc, ihInner hinner,
      List.cons_append, close?_closeBrace hc, ihAfter hafter]
    simp only [Option.map_map]
    congr 1
    funext p
    simp

theorem close?_zero_eq_some_iff {ts body after : List Token} :
    close? 0 ts = some (body, after) ↔
      ∃ closing, ts = body ++ closing :: after ∧ Balanced (body.map Token.word) ∧
        closing.kind = .closeBrace := by
  constructor
  · intro h
    obtain ⟨descends, closing, hc, rfl⟩ := descends_of_close? h
    cases descends with
    | zero balanced => exact ⟨closing, rfl, balanced, hc⟩
  · rintro ⟨closing, rfl, balanced, hc⟩
    rw [close?_append balanced rfl]
    simp [close?, hc]

end Block

def Block.declaration (b : Block) : Declaration := ⟨b.name.word, b.body.map Token.word⟩

/-- The blocks among some tokens, each with its own tokens. A block goes from the word `model` over a
name and a brace to the brace that balances; tokens whose words open no block are skipped. -/
inductive Blocks : List Token → List Block → Prop
  | nil : Blocks [] []
  | skip {t ts bs} : (∀ name inside, ¬ Opens ((t :: ts).map Token.word) name inside) →
      Blocks ts bs → Blocks (t :: ts) bs
  | block {keyword name opening closing : Token} {first second body after : List Token}
      {bs : List Block} : keyword.kind = .model → (∀ t ∈ first, t.kind = .newline) →
      name.kind = .identifier → (∀ t ∈ second, t.kind = .newline) → opening.kind = .openBrace →
      Balanced (body.map Token.word) → closing.kind = .closeBrace → Blocks after bs →
      Blocks (keyword :: first ++ name :: second ++ opening :: (body ++ closing :: after))
        (⟨keyword, name, body⟩ :: bs)

/-- The words of the blocks are the blocks of the words. -/
theorem Blocks.outlined {ts : List Token} {bs : List Block} (h : Blocks ts bs) :
    Outlined (ts.map Token.word) (bs.map Block.declaration) := by
  induction h with
  | nil => exact .nil
  | skip none _ ih => exact .skip none ih
  | @block keyword name opening closing first second body after bs hk hfirst hname hsecond hopening
      balanced hc _ ih =>
    have opens : Opens (keyword.word :: first.map Token.word ++ name.word ::
        second.map Token.word ++ opening.word ::
          (body.map Token.word ++ closing.word :: after.map Token.word)) name.word _ :=
      .intro hk (by simpa using hfirst) hname (by simpa using hsecond) hopening
    simp only [List.map_cons, List.map_append] at ih ⊢
    exact .block opens balanced hc ih

theorem Blocks.sublist {ts : List Token} {bs : List Block} (h : Blocks ts bs) :
    (bs.flatMap Block.body).Sublist ts := by
  induction h with
  | nil => exact .slnil
  | skip _ _ ih => exact ih.cons _
  | @block keyword name opening closing first second body after bs _ _ _ _ _ _ _ _ ih =>
    have suffix : body ++ closing :: after <:+
        keyword :: first ++ name :: second ++ opening :: (body ++ closing :: after) :=
      ⟨keyword :: first ++ name :: second ++ [opening], by simp⟩
    exact ((ih.cons closing).append_left body).trans suffix.sublist

namespace Outline

theorem ofTokens_skip {t : Token} {rest : List Token}
    (h : t.kind = .model → Block.header? rest = none) : ofTokens (t :: rest) = ofTokens rest := by
  rw [ofTokens]
  split
  · next hk =>
    split
    · rfl
    · next header => rw [h hk] at header; cases header
  · rfl

theorem ofTokens_block {t name : Token} {rest inside body after : List Token}
    (hk : t.kind = .model) (header : Block.header? rest = some (name, inside))
    (close : Block.close? 0 inside = some (body, after)) :
    ofTokens (t :: rest) =
      ⟨⟨t, name, body⟩ :: (ofTokens after).blocks, (ofTokens after).unclosed?⟩ := by
  rw [ofTokens, if_pos hk]
  split
  · next none => rw [header] at none; cases none
  · next found =>
    cases header.symm.trans found
    split
    · next none => rw [close] at none; cases none
    · next found => cases close.symm.trans found; rfl

theorem ofTokens_unclosed {t name : Token} {rest inside : List Token} (hk : t.kind = .model)
    (header : Block.header? rest = some (name, inside)) (open_ : Block.close? 0 inside = none) :
    ofTokens (t :: rest) = ⟨[], some (t, name)⟩ := by
  rw [ofTokens, if_pos hk]
  split
  · next none => rw [header] at none; cases none
  · next found =>
    cases header.symm.trans found
    split
    · rfl
    · next found => rw [open_] at found; cases found

/-- The outline holds the blocks of the tokens before the one that stays open, if there is one. -/
theorem exists_blocks (ts : List Token) :
    ∃ settled rest, ts = settled ++ rest ∧ Blocks settled (ofTokens ts).blocks ∧
      ((ofTokens ts).unclosed? = none → rest = []) := by
  fun_induction ofTokens ts with
  | case1 => exact ⟨[], [], rfl, .nil, fun _ => rfl⟩
  | case2 t ts hk header ih =>
    obtain ⟨settled, rest, rfl, blocks, closed⟩ := ih
    refine ⟨t :: settled, rest, rfl, .skip (fun name inside opens => ?_) blocks, closed⟩
    have opens := opens.append (rest.map Token.word)
    rw [← List.map_append] at opens
    obtain ⟨keyword, _, _, _, same, -, found, -⟩ := Block.header?_of_opens opens
    cases same
    cases header.symm.trans found
  | case3 t ts => exact ⟨[], t :: ts, rfl, .nil, nofun⟩
  | case4 t ts hk name inside header body after close outline ih =>
    obtain ⟨settled, rest, rfl, blocks, closed⟩ := ih
    obtain ⟨first, second, brace, rfl, hfirst, hname, hsecond, hbrace⟩ :=
      Block.header?_eq_some_iff.mp header
    obtain ⟨closing, rfl, balanced, hc⟩ := Block.close?_zero_eq_some_iff.mp close
    exact ⟨_, rest, by simp, .block hk hfirst hname hsecond hbrace balanced hc blocks, closed⟩
  | case5 t ts hk ih =>
    obtain ⟨settled, rest, rfl, blocks, closed⟩ := ih
    refine ⟨t :: settled, rest, rfl, .skip (fun name inside opens => ?_) blocks, closed⟩
    obtain ⟨keyword, _, _, _, same, hkeyword, -⟩ := Block.header?_of_opens opens
    cases same
    exact hk hkeyword

theorem mem_of_mem_body {ts : List Token} {b : Block} (hb : b ∈ (ofTokens ts).blocks) :
    ∀ t ∈ b.body, t ∈ ts := by
  obtain ⟨settled, rest, whole, blocks, -⟩ := exists_blocks ts
  intro t ht
  have inside : t ∈ settled := blocks.sublist.mem (List.mem_flatMap.mpr ⟨b, hb, ht⟩)
  rw [whole]
  exact List.mem_append_left rest inside

/-- The outline of tokens in which every block closes holds their blocks. -/
theorem blocks_ofTokens {ts : List Token} (closed : (ofTokens ts).unclosed? = none) :
    Blocks ts (ofTokens ts).blocks := by
  obtain ⟨settled, rest, whole, blocks, none⟩ := exists_blocks ts
  rw [none closed, List.append_nil] at whole
  rwa [← whole] at blocks

theorem ofTokens_of_blocks {ts : List Token} {bs : List Block} (h : Blocks ts bs) :
    ofTokens ts = ⟨bs, none⟩ := by
  induction h with
  | nil => rw [ofTokens]
  | @skip t ts bs none _ ih =>
    have noHeader (hk : t.kind = .model) : Block.header? ts = .none := by
      rcases header : Block.header? ts with _ | ⟨name, inside⟩
      · rfl
      · exact absurd (Block.opens_of_header? hk header) (none _ _)
    rw [ofTokens_skip noHeader, ih]
  | @block keyword name opening closing first second body after bs hk hfirst hname hsecond hopening
      balanced hc _ ih =>
    have header : Block.header? (first ++ name :: second ++ opening :: (body ++ closing :: after)) =
        some (name, body ++ closing :: after) :=
      Block.header?_eq_some_iff.mpr ⟨first, second, opening, rfl, hfirst, hname, hsecond, hopening⟩
    have close : Block.close? 0 (body ++ closing :: after) = some (body, after) :=
      Block.close?_zero_eq_some_iff.mpr ⟨closing, rfl, balanced, hc⟩
    rw [List.cons_append, List.cons_append, ofTokens_block hk header close, ih]

end Outline

/-- Tokens fall into blocks exactly if the outline finds these and leaves none open. -/
theorem blocks_iff {ts : List Token} {bs : List Block} :
    Blocks ts bs ↔ Outline.ofTokens ts = ⟨bs, none⟩ := by
  refine ⟨Outline.ofTokens_of_blocks, fun h => ?_⟩
  have closed : (Outline.ofTokens ts).unclosed? = none := by rw [h]
  have blocks := Outline.blocks_ofTokens closed
  rwa [h] at blocks

theorem outlined_ofTokens {ts : List Token} (closed : (Outline.ofTokens ts).unclosed? = none) :
    Outlined (ts.map Token.word) ((Outline.ofTokens ts).blocks.map Block.declaration) :=
  (Outline.blocks_ofTokens closed).outlined

/-- Tokens whose words are outlined fall into blocks with these words. -/
theorem exists_blocks_of_outlined {ts : List Token} {ds : List Declaration}
    (outlined : Outlined (ts.map Token.word) ds) :
    ∃ bs, Blocks ts bs ∧ bs.map Block.declaration = ds := by
  generalize hws : ts.map Token.word = ws at outlined
  induction outlined generalizing ts with
  | nil =>
    obtain rfl := List.map_eq_nil_iff.mp hws
    exact ⟨[], .nil, rfl⟩
  | skip none _ ih =>
    obtain ⟨t, rest, rfl, rfl, rfl⟩ := List.map_eq_cons_iff.mp hws
    obtain ⟨bs, blocks, same⟩ := ih rfl
    exact ⟨bs, .skip none blocks, same⟩
  | @block ws body after name closing ds opens balanced hc _ ih =>
    subst hws
    obtain ⟨keyword, rest, token, tokens, rfl, hk, header, rfl, inside⟩ :=
      Block.header?_of_opens opens
    simp only [List.map_eq_append_iff, List.map_eq_cons_iff] at inside
    obtain ⟨body, _, rfl, rfl, closing, after, rfl, rfl, hafter⟩ := inside
    obtain ⟨first, second, brace, rfl, hfirst, hname, hsecond, hbrace⟩ :=
      Block.header?_eq_some_iff.mp header
    obtain ⟨bs, blocks, rfl⟩ := ih hafter
    exact ⟨_, .block hk hfirst hname hsecond hbrace balanced hc blocks, rfl⟩

theorem ofTokens_of_outlined {ts : List Token} {ds : List Declaration}
    (outlined : Outlined (ts.map Token.word) ds) :
    (Outline.ofTokens ts).unclosed? = none ∧
      (Outline.ofTokens ts).blocks.map Block.declaration = ds := by
  obtain ⟨bs, blocks, rfl⟩ := exists_blocks_of_outlined outlined
  rw [blocks_iff.mp blocks]
  exact ⟨rfl, rfl⟩

end SchemaPlan.Source
