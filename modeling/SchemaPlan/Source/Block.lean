import SchemaPlan.Source.Token

/-!
# Blocks and lines

A model block opens at the word `model`, a name and a brace, with line breaks allowed between them,
and ends at the brace that balances. Tokens outside blocks are skipped. The body of a block is
read line by line.
-/

namespace SchemaPlan.Source

structure Block where
  keyword : Token
  name : Token
  body : List Token

/-- The blocks of a text in order. The last one may be opened and not closed, which is seen only
by its first tokens. -/
structure Outline where
  blocks : List Block
  unclosed? : Option (Token × Token) := none

namespace Block

/-- What stands after the word `model` when it opens a block: the name, and the tokens after the
brace. -/
def header? (tokens : List Token) : Option (Token × List Token) :=
  match tokens.dropWhile Token.isNewline with
  | [] => none
  | name :: rest =>
    match rest.dropWhile Token.isNewline with
    | [] => none
    | brace :: inside =>
      if name.kind = .identifier ∧ brace.kind = .openBrace then some (name, inside) else none

/-- Splits the tokens at the brace that closes a block. `depth` counts the braces opened inside. -/
def close? (depth : Nat) : List Token → Option (List Token × List Token)
  | [] => none
  | t :: rest =>
    match t.kind, depth with
    | .openBrace, depth => (close? (depth + 1) rest).map fun (body, after) => (t :: body, after)
    | .closeBrace, 0 => some ([], rest)
    | .closeBrace, depth + 1 => (close? depth rest).map fun (body, after) => (t :: body, after)
    | _, depth => (close? depth rest).map fun (body, after) => (t :: body, after)

theorem length_of_header? {ts : List Token} {name : Token} {inside : List Token}
    (h : header? ts = some (name, inside)) : inside.length < ts.length := by
  unfold header? at h
  split at h
  · cases h
  · next t rest hrest =>
    split at h
    · cases h
    · next brace inside' hinside =>
      split at h
      · cases h
        have := (List.dropWhile_sublist Token.isNewline (l := ts)).length_le
        have := (List.dropWhile_sublist Token.isNewline (l := rest)).length_le
        rw [hrest] at *
        rw [hinside] at *
        simp only [List.length_cons] at *
        omega
      · cases h

theorem length_of_close? {depth : Nat} {ts body after : List Token}
    (h : close? depth ts = some (body, after)) : after.length < ts.length := by
  induction ts generalizing depth body with
  | nil => cases h
  | cons t rest ih =>
    unfold close? at h
    split at h
    all_goals first
      | (cases h; simp)
      | (simp only [Option.map_eq_some_iff, Prod.exists, Prod.mk.injEq] at h
         obtain ⟨_, _, h, rfl, rfl⟩ := h
         exact Nat.lt_succ_of_lt (ih h))

end Block

def Outline.ofTokens : List Token → Outline
  | [] => ⟨[], none⟩
  | t :: rest =>
    if t.kind = .model then
      match _header : Block.header? rest with
      | none => ofTokens rest
      | some (name, inside) =>
        match _closed : Block.close? 0 inside with
        | none => ⟨[], some (t, name)⟩
        | some (body, after) =>
          let outline := ofTokens after
          ⟨⟨t, name, body⟩ :: outline.blocks, outline.unclosed?⟩
    else ofTokens rest
termination_by tokens => tokens.length
decreasing_by
  · simp
  · have := Block.length_of_header? _header
    have := Block.length_of_close? _closed
    simp only [List.length_cons]
    omega
  · simp

/-- A line of a body that holds a token. -/
structure Line where
  first : Token
  rest : List Token

namespace Line

def tokens (l : Line) : List Token := l.first :: l.rest

/-- From the first to the last token. -/
def span (l : Line) : Span := l.first.span.join (l.tokens.getLast (by simp [tokens])).span

/-- The lines of a body, empty ones left out. -/
def ofBody : List Token → List Line
  | [] => []
  | t :: rest =>
    if t.isNewline then ofBody rest
    else
      ⟨t, rest.takeWhile (!·.isNewline)⟩ :: ofBody (rest.dropWhile (!·.isNewline))
termination_by tokens => tokens.length
decreasing_by
  · simp
  · exact Nat.lt_succ_of_le (List.dropWhile_sublist _).length_le

end Line

end SchemaPlan.Source
