/-!
# Reading errors

Why a JSON text is refused, and where. A mark counts lines from one and the bytes read of its line.
-/

namespace SchemaPlan.Json

structure Mark where
  line : Nat
  column : Nat
deriving DecidableEq, Repr

namespace Mark

def start : Mark := ⟨1, 0⟩

def after (m : Mark) (c : Char) : Mark :=
  if c = '\n' then ⟨m.line + 1, 0⟩ else ⟨m.line, m.column + c.utf8Size⟩

/-- Past the first byte of a character. -/
def peek (m : Mark) (c : Char) : Mark :=
  if c = '\n' then ⟨m.line + 1, 0⟩ else ⟨m.line, m.column + 1⟩

def afterAll (m : Mark) (cs : List Char) : Mark := cs.foldl after m

/-- Past so many bytes, which may end within a character. -/
def afterBytes (m : Mark) : Nat → List Char → Mark
  | 0, _ => m
  | _, [] => m
  | n + 1, c :: cs =>
    if c.utf8Size ≤ n + 1 then (m.after c).afterBytes (n + 1 - c.utf8Size) cs
    else ⟨m.line, m.column + (n + 1)⟩

end Mark

inductive Cause where
  | endInValue
  | endInArray
  | endInObject
  | endInString
  | expectedColon
  | expectedCommaOrBracket
  | expectedCommaOrBrace
  | expectedWord
  | expectedValue
  | invalidEscape
  | invalidNumber
  | numberOutOfRange
  | keyNotString
  | controlCharacter
  | unfinishedEscape
  | loneSurrogate
  | trailingComma
  | trailingCharacters
  /-- A value of another kind than the expected. -/
  | invalidType (found expected : String)
  | invalidLength (length : Nat) (expected : String)
  | missingField (field : String)
  | duplicateField (field : String)
  | unknownVariant (variant : String) (expected : List String)
  | duplicateKey (key : String)
  /-- A value of the right kind that is refused for what it says. -/
  | refused (reason : String)
deriving DecidableEq, Repr

namespace Cause

/-- Names to choose from. -/
def choice (names : List String) : String :=
  let marked := names.map fun name => s!"\x60{name}\x60"
  match marked with
  | [one, other] => s!"{one} or {other}"
  | _ => "one of " ++ ", ".intercalate marked

def message : Cause → String
  | .endInValue => "EOF while parsing a value"
  | .endInArray => "EOF while parsing a list"
  | .endInObject => "EOF while parsing an object"
  | .endInString => "EOF while parsing a string"
  | .expectedColon => "expected \x60:\x60"
  | .expectedCommaOrBracket => "expected \x60,\x60 or \x60]\x60"
  | .expectedCommaOrBrace => "expected \x60,\x60 or \x60\x7d\x60"
  | .expectedWord => "expected ident"
  | .expectedValue => "expected value"
  | .invalidEscape => "invalid escape"
  | .invalidNumber => "invalid number"
  | .numberOutOfRange => "number out of range"
  | .keyNotString => "key must be a string"
  | .controlCharacter =>
    "control character (\\u0000-\\u001F) found while parsing a string"
  | .unfinishedEscape => "unexpected end of hex escape"
  | .loneSurrogate => "lone leading surrogate in hex escape"
  | .trailingComma => "trailing comma"
  | .trailingCharacters => "trailing characters"
  | .invalidType found expected => s!"invalid type: {found}, expected {expected}"
  | .invalidLength length expected => s!"invalid length {length}, expected {expected}"
  | .missingField field => s!"missing field \x60{field}\x60"
  | .duplicateField field => s!"duplicate field \x60{field}\x60"
  | .unknownVariant variant expected =>
    s!"unknown variant \x60{variant}\x60, expected {choice expected}"
  | .duplicateKey key => s!"duplicate key '{key}'"
  | .refused reason => reason

end Cause

/-- An error without a mark is found in a value as a whole. The container that holds the value
then gives the mark. -/
structure Error where
  cause : Cause
  mark? : Option Mark
deriving DecidableEq, Repr

namespace Error

def marked (cause : Cause) (m : Mark) : Error := ⟨cause, some m⟩

def placed (e : Error) (m : Mark) : Error := ⟨e.cause, some (e.mark?.getD m)⟩

/-- Zero if there is no mark. -/
def line (e : Error) : Nat := (e.mark?.map Mark.line).getD 0

def column (e : Error) : Nat := (e.mark?.map Mark.column).getD 0

def message (e : Error) : String :=
  match e.mark? with
  | none => e.cause.message
  | some m => s!"{e.cause.message} at line {m.line} column {m.column}"

end Error

end SchemaPlan.Json
