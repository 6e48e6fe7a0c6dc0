import SchemaPlan.Json.Token
import SchemaPlan.Proofs.Json.Text

/-!
# Tokens of a rendered value

A value that holds no number is cut into the tokens it is made of, however it is laid out.
-/

namespace SchemaPlan.Json

/-- A value that is built of strings alone. -/
inductive OfStrings : Json → Prop
  | string (s : String) : OfStrings (.string s)
  | array {items : List Json} : (∀ v ∈ items, OfStrings v) → OfStrings (.array items)
  | object {members : List (String × Json)} : (∀ e ∈ members, OfStrings e.2) →
      OfStrings (.object members)

def TokenKind.string (s : String) : TokenKind := .scalar (.string (.ok s))

mutual

/-- The kinds of the tokens of a value. Only strings stand for themselves. -/
def kinds : Json → List TokenKind
  | .string s => [.string s]
  | .array items => .beginArray :: kindsOfItems items ++ [.endArray]
  | .object members => .beginObject :: kindsOfMembers members ++ [.endObject]
  | _ => []

def kindsOfItems : List Json → List TokenKind
  | [] => []
  | [v] => v.kinds
  | v :: rest => v.kinds ++ .comma :: kindsOfItems rest

def kindsOfMembers : List (String × Json) → List TokenKind
  | [] => []
  | [(key, v)] => .string key :: .colon :: v.kinds
  | (key, v) :: rest => .string key :: .colon :: v.kinds ++ .comma :: kindsOfMembers rest

end

/-- A text is cut into tokens of some kinds, whatever comes after it. -/
def Scans (cs : List Char) (kinds : List TokenKind) : Prop :=
  ∀ rest m, ∃ ts m', Token.scan ⟨cs ++ rest, m⟩ = ts ++ Token.scan ⟨rest, m'⟩ ∧
    ts.map Token.kind = kinds

theorem Scans.nil : Scans [] [] := fun _ m => ⟨[], m, rfl, rfl⟩

theorem Scans.append {cs ds : List Char} {ks ls : List TokenKind} (h : Scans cs ks)
    (h' : Scans ds ls) : Scans (cs ++ ds) (ks ++ ls) := by
  intro rest m
  obtain ⟨ts, next, first, rfl⟩ := h (ds ++ rest) m
  obtain ⟨us, m', second, rfl⟩ := h' rest next
  refine ⟨ts ++ us, m', ?_, List.map_append⟩
  rw [List.append_assoc, first, second, List.append_assoc]

theorem scans_space {c : Char} (h : isSpace c) : Scans [c] [] := by
  intro rest m
  refine ⟨[], m.after c, ?_, rfl⟩
  rw [List.singleton_append, Token.scan]
  simp only [if_pos h, Input.next, List.nil_append]

theorem scans_first {c : Char} {kind : TokenKind} {cs : List Char} (h : ¬ isSpace c)
    (whole : kind.isBroken = false)
    (first : ∀ rest m, ∃ m', TokenScan.first m c (cs ++ rest) = (kind, ⟨rest, m'⟩)) :
    Scans (c :: cs) [kind] := by
  intro rest m
  obtain ⟨m', first⟩ := first rest m
  refine ⟨[⟨kind, m, m'⟩], m', ?_, rfl⟩
  rw [List.cons_append, Token.scan]
  simp [h, first, whole]

theorem scans_punctuation {c : Char} {kind : TokenKind} (h : TokenScan.punctuation? c = some kind)
    (space : ¬ isSpace c) (whole : kind.isBroken = false) : Scans [c] [kind] := by
  apply scans_first space whole
  intro rest m
  exact ⟨m.after c, by simp [TokenScan.first, h]⟩

theorem scans_quote (s : String) : Scans (quote s).toList [.string s] := by
  have whole : (quote s).toList = '"' :: (s.toList.flatMap escapeChar ++ ['"']) := by simp [quote]
  rw [whole]
  apply scans_first (by decide) rfl
  intro rest m
  obtain ⟨m', read, skip⟩ := readString_flatMap s.toList rest (m.after '"')
  refine ⟨m', ?_⟩
  have none : TokenScan.punctuation? '"' = none := rfl
  simp [TokenScan.first, none, TokenScan.string, read, skip, Except.map, TokenKind.string]

theorem scans_indent (depth : Nat) : Scans (indent depth).toList [] := by
  rw [indent, String.toList_ofList]
  induction 2 * depth with
  | zero => exact .nil
  | succ n ih => exact .append (scans_space (c := ' ') (by decide)) ih

theorem scans_prettyItems {items : List Json}
    (h : ∀ v ∈ items, ∀ depth, Scans (v.pretty depth).toList v.kinds) (depth : Nat) :
    Scans (prettyItems depth items).toList (kindsOfItems items) := by
  induction items with
  | nil => exact .nil
  | cons v rest ih =>
    obtain ⟨head, tail⟩ := List.forall_mem_cons.mp h
    have first := (scans_indent depth).append (head depth)
    cases rest with
    | nil => simpa [prettyItems, kindsOfItems] using first
    | cons w rest =>
      have comma : Scans [','] [.comma] := scans_punctuation rfl (by decide) rfl
      have lineBreak : Scans ['\n'] [] := scans_space (by decide)
      simpa [prettyItems, kindsOfItems] using
        first.append (comma.append (lineBreak.append (ih tail)))

theorem scans_prettyMembers {members : List (String × Json)}
    (h : ∀ e ∈ members, ∀ depth, Scans (e.2.pretty depth).toList e.2.kinds) (depth : Nat) :
    Scans (prettyMembers depth members).toList (kindsOfMembers members) := by
  have colon : Scans [':', ' '] [.colon] :=
    (scans_punctuation rfl (by decide) rfl).append (scans_space (by decide))
  induction members with
  | nil => exact .nil
  | cons e rest ih =>
    obtain ⟨key, v⟩ := e
    obtain ⟨head, tail⟩ := List.forall_mem_cons.mp h
    have first := (scans_indent depth).append ((scans_quote key).append (colon.append (head depth)))
    cases rest with
    | nil => simpa [prettyMembers, kindsOfMembers] using first
    | cons e rest =>
      have comma : Scans [','] [.comma] := scans_punctuation rfl (by decide) rfl
      have lineBreak : Scans ['\n'] [] := scans_space (by decide)
      simpa [prettyMembers, kindsOfMembers] using
        first.append (comma.append (lineBreak.append (ih tail)))

theorem scans_pretty {v : Json} (h : OfStrings v) (depth : Nat) :
    Scans (v.pretty depth).toList v.kinds := by
  have lineBreak : Scans ['\n'] [] := scans_space (by decide)
  induction h generalizing depth with
  | string s => simpa [pretty, kinds] using scans_quote s
  | @array items _ ih =>
    have opening : Scans ['['] [.beginArray] := scans_punctuation rfl (by decide) rfl
    have closing : Scans [']'] [.endArray] := scans_punctuation rfl (by decide) rfl
    cases items with
    | nil => simpa [pretty, kinds, kindsOfItems] using opening.append closing
    | cons v rest =>
      simpa [pretty, kinds] using opening.append (lineBreak.append
        ((scans_prettyItems ih (depth + 1)).append
          (lineBreak.append ((scans_indent depth).append closing))))
  | @object members _ ih =>
    have opening : Scans ['{'] [.beginObject] := scans_punctuation rfl (by decide) rfl
    have closing : Scans ['}'] [.endObject] := scans_punctuation rfl (by decide) rfl
    cases members with
    | nil => simpa [pretty, kinds, kindsOfMembers] using opening.append closing
    | cons e rest =>
      simpa [pretty, kinds] using opening.append (lineBreak.append
        ((scans_prettyMembers ih (depth + 1)).append
          (lineBreak.append ((scans_indent depth).append closing))))

end SchemaPlan.Json
