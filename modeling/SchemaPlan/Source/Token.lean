import SchemaPlan.Source.Error
import SchemaPlan.Source.Lexeme

/-!
# Tokens

The lexemes that carry meaning, with their places in the text. Lines and columns count from one,
columns in characters.
-/

namespace SchemaPlan.Source

structure Token where
  kind : TokenKind
  span : Span
  text : String
  line : Nat
  column : Nat
deriving DecidableEq, Repr

/-- A place between two lexemes of a text. -/
structure Place where
  offset : Nat
  line : Nat
  column : Nat
deriving DecidableEq, Repr

namespace Place

def start : Place := ⟨0, 1, 1⟩

def after (p : Place) (l : Lexeme) : Place :=
  match l.kind with
  | .token .newline => ⟨p.offset + Text.byteLength l.text, p.line + 1, 1⟩
  | _ => ⟨p.offset + Text.byteLength l.text, p.line, p.column + l.text.length⟩

def spanTo (p : Place) (l : Lexeme) : Span := ⟨p.offset, p.offset + Text.byteLength l.text⟩

end Place

/-- The tokens of a text up to its end or to the error that stops the scan. -/
structure Scan where
  tokens : List Token
  error? : Option Error

namespace Token

/-- A tag whose argument list does not close. -/
def isUnterminated (kind : TokenKind) (text : List Char) : Bool :=
  kind == .tag && text.contains '(' && text.getLast? != some ')'

def ofLexemes (p : Place) : List Lexeme → Scan
  | [] => ⟨[], none⟩
  | l :: rest =>
    match l.kind with
    | .blank | .comment => ofLexemes (p.after l) rest
    | .token kind =>
      if isUnterminated kind l.text then
        ⟨[], some (.unterminatedAttribute p.line p.column (.ofList l.text) (p.spanTo l))⟩
      else
        let scan := ofLexemes (p.after l) rest
        ⟨⟨kind, p.spanTo l, .ofList l.text, p.line, p.column⟩ :: scan.tokens, scan.error?⟩

def scan (source : String) : Scan := ofLexemes .start (Lexeme.scan source.toList)

def tokenize (source : String) : Except Error (List Token) :=
  match scan source with
  | ⟨tokens, none⟩ => .ok tokens
  | ⟨_, some error⟩ => .error error

def isNewline (t : Token) : Bool := t.kind == .newline

end Token

end SchemaPlan.Source
