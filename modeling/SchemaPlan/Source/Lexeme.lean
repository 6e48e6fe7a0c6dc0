import SchemaPlan.Schema.Identifier

/-!
# Lexemes

A schema text is cut, without loss, into tokens, runs of blanks, and comments. Each lexeme is the
longest that can start where it starts.
-/

namespace SchemaPlan.Source

inductive TokenKind where
  /-- The word `model`. -/
  | model
  | openBrace
  | closeBrace
  | colon
  | comma
  | openParen
  | closeParen
  /-- A carriage return, a line feed, or the two in this order. -/
  | newline
  /-- `@name`, with or without an argument list. -/
  | tag
  | identifier
  /-- Any other character. -/
  | other
deriving DecidableEq, Repr

namespace TokenKind

def description : TokenKind → String
  | .model => "'model'"
  | .openBrace => "'\x7b'"
  | .closeBrace => "'\x7d'"
  | .colon => "':'"
  | .comma => "','"
  | .openParen => "'('"
  | .closeParen => "')'"
  | .newline => "newline"
  | .tag => "attribute"
  | .identifier => "identifier"
  | .other => "character"

/-- The word `model` may still name a field or a type. -/
def isName : TokenKind → Bool
  | .identifier | .model => true
  | _ => false

end TokenKind

inductive LexemeKind where
  | blank
  | comment
  | token (kind : TokenKind)
deriving DecidableEq, Repr

structure Lexeme where
  kind : LexemeKind
  text : List Char
deriving DecidableEq, Repr

def isSpacing (c : Char) : Bool := c == ' ' || c == '\t' || c == '\x0c'

def isLineBreak (c : Char) : Bool := c == '\r' || c == '\n'

/-- The characters of an argument list, which does not nest and stays on its line. -/
def isArgument (c : Char) : Bool := c != ')' && !isLineBreak c

/-- The argument list at the start of a text, if there is one, and the text after it. A list whose
line ends first has no closing parenthesis. -/
def argumentList : List Char → List Char × List Char
  | '(' :: cs =>
    match cs.dropWhile isArgument with
    | ')' :: rest => ('(' :: cs.takeWhile isArgument ++ [')'], rest)
    | rest => ('(' :: cs.takeWhile isArgument, rest)
  | cs => ([], cs)

theorem argumentList_append (cs : List Char) : (argumentList cs).1 ++ (argumentList cs).2 = cs := by
  unfold argumentList
  split
  · next cs =>
    have whole := List.takeWhile_append_dropWhile (p := isArgument) (l := cs)
    split
    · next rest h => rw [h] at whole; simpa using whole
    · simp
  · rfl

namespace Lexeme

def token (kind : TokenKind) (text : List Char) : Lexeme := ⟨.token kind, text⟩

def word (text : List Char) : Lexeme :=
  token (if text = ['m', 'o', 'd', 'e', 'l'] then .model else .identifier) text

def punctuation (c : Char) : TokenKind :=
  match c with
  | '{' => .openBrace
  | '}' => .closeBrace
  | ':' => .colon
  | ',' => .comma
  | '(' => .openParen
  | ')' => .closeParen
  | '\r' => .newline
  | '\n' => .newline
  | _ => .other

/-- The lexeme that starts the text `c :: cs`, and the text after it. -/
def first (c : Char) (cs : List Char) : Lexeme × List Char :=
  if isSpacing c then (⟨.blank, c :: cs.takeWhile isSpacing⟩, cs.dropWhile isSpacing)
  else if isIdentifierStart c then
    (word (c :: cs.takeWhile isIdentifierPart), cs.dropWhile isIdentifierPart)
  else
    match c, cs with
    | '#', cs => (⟨.comment, '#' :: cs.takeWhile (!isLineBreak ·)⟩, cs.dropWhile (!isLineBreak ·))
    | '\r', '\n' :: rest => (token .newline ['\r', '\n'], rest)
    | '@', d :: ds =>
      if isIdentifierStart d then
        let arguments := argumentList (ds.dropWhile isIdentifierPart)
        (token .tag ('@' :: d :: ds.takeWhile isIdentifierPart ++ arguments.1), arguments.2)
      else (token .other ['@'], d :: ds)
    | c, cs => (token (punctuation c) [c], cs)

theorem first_append (c : Char) (cs : List Char) :
    (first c cs).1.text ++ (first c cs).2 = c :: cs := by
  unfold first
  split
  · simp
  split
  · simp [word, token]
  split
  · simp
  · simp [token]
  · split
    · simp [token, argumentList_append]
    · simp [token]
  · simp [token]

theorem first_text_ne_nil (c : Char) (cs : List Char) : (first c cs).1.text ≠ [] := by
  unfold first
  split
  · simp
  split
  · simp [word, token]
  split
  · simp
  · simp [token]
  · split <;> simp [token]
  · simp [token]

theorem length_first_rest (c : Char) (cs : List Char) :
    (first c cs).2.length < (c :: cs).length := by
  have whole := congrArg List.length (first_append c cs)
  have : 0 < (first c cs).1.text.length := List.length_pos_iff.mpr (first_text_ne_nil c cs)
  rw [List.length_append] at whole
  omega

def scan : List Char → List Lexeme
  | [] => []
  | c :: cs => (first c cs).1 :: scan (first c cs).2
termination_by cs => cs.length
decreasing_by exact length_first_rest c cs

@[simp] theorem scan_nil : scan [] = [] := by unfold scan; rfl

theorem scan_cons (c : Char) (cs : List Char) :
    scan (c :: cs) = (first c cs).1 :: scan (first c cs).2 := by rw [scan]

/-- Nothing is lost. -/
theorem flatMap_text_scan (cs : List Char) : (scan cs).flatMap text = cs := by
  fun_induction scan cs with
  | case1 => rfl
  | case2 c cs ih => rw [List.flatMap_cons, ih, first_append]

end Lexeme

end SchemaPlan.Source
