import SchemaPlan.Text.Digit
import SchemaPlan.Text.Lines

/-!
# The text of a settings file

Tables of keys, a line each. A value is a string on one line, a truth value or an integer. No table
and no key of one table occurs twice.

Settings need no more of TOML than this, and only this part is read. TOML has further forms, which are
malformed here: escapes by code point, keys and tables with dots, inline tables, arrays and arrays of
tables, strings over several lines, floats and dates.
-/

namespace SchemaPlan

namespace Toml

inductive Value where
  | string (text : String)
  | bool (value : Bool)
  | integer (value : Int)
deriving DecidableEq, Repr

inductive Error where
  | malformed (line : Nat)
  | repeatedTable (line : Nat) (table : String)
  | repeatedKey (line : Nat) (key : String)
deriving DecidableEq, Repr

def Error.message : Error → String
  | .malformed line => s!"line {line} is no table, key or comment"
  | .repeatedTable line table => s!"table '{table}' is repeated at line {line}"
  | .repeatedKey line key => s!"key '{key}' is repeated at line {line}"

def isBlank (c : Char) : Bool := c = ' ' || c = '\t'

def skipBlanks (cs : List Char) : List Char := cs.dropWhile isBlank

/-- The characters of comments and strings: all but control characters, and the tab. -/
def isTextChar (c : Char) : Bool := c = '\t' || (0x20 ≤ c.toNat && c.toNat ≠ 0x7f)

/-- What may follow on a line that says all it has to say. -/
def isLineEnd (cs : List Char) : Bool :=
  match skipBlanks cs with
  | [] => true
  | c :: comment => c = '#' && comment.all isTextChar

def unescape? : Char → Option Char
  | '"' => some '"'
  | '\\' => some '\\'
  | 'b' => some '\x08'
  | 't' => some '\t'
  | 'n' => some '\n'
  | 'f' => some '\x0c'
  | 'r' => some '\r'
  | _ => none

/-- Reads past an opening double quote, and gives the text and what follows it. -/
def readQuoted? : List Char → Option (List Char × List Char)
  | [] => none
  | '"' :: rest => some ([], rest)
  | '\\' :: c :: rest => do
    let (text, rest) ← readQuoted? rest
    return ((← unescape? c) :: text, rest)
  | c :: rest => do
    let (text, rest) ← readQuoted? rest
    if isTextChar c then some (c :: text, rest) else none

/-- Reads past an opening single quote. There are no escapes. -/
def readLiteral? (cs : List Char) : Option (List Char × List Char) :=
  match cs.dropWhile (· ≠ '\'') with
  | [] => none
  | _ :: rest =>
    let text := cs.takeWhile (· ≠ '\'')
    if text.all isTextChar then some (text, rest) else none

def isKeyChar (c : Char) : Bool := c.isAlphanum || c = '_' || c = '-'

/-- Reads a key, and gives it and what follows it. -/
def readKey? : List Char → Option (String × List Char)
  | '"' :: cs => (readQuoted? cs).map fun (text, rest) => (.ofList text, rest)
  | '\'' :: cs => (readLiteral? cs).map fun (text, rest) => (.ofList text, rest)
  | cs =>
    match cs.takeWhile isKeyChar with
    | [] => none
    | key => some (.ofList key, cs.dropWhile isKeyChar)

/-- Digits that go on with a number, with single underscores between them. -/
def readDigits? (radix value : Nat) : List Char → Option Nat
  | [] => some value
  | '_' :: c :: cs => do readDigits? radix (radix * value + (← Text.digit? radix c)) cs
  | c :: cs => do readDigits? radix (radix * value + (← Text.digit? radix c)) cs

def readNumeral? (radix : Nat) : List Char → Option Nat
  | [] => none
  | c :: cs => do readDigits? radix (← Text.digit? radix c) cs

/-- Decimal digits. Zero stands alone. -/
def readDecimal? : List Char → Option Nat
  | ['0'] => some 0
  | '0' :: _ => none
  | cs => readNumeral? 10 cs

/-- Reads an integer of 64 bits. Only a decimal one has a sign. -/
def readInteger? (cs : List Char) : Option Int := do
  let value : Int ← match cs with
    | '0' :: 'x' :: digits => (readNumeral? 16 digits).map Int.ofNat
    | '0' :: 'o' :: digits => (readNumeral? 8 digits).map Int.ofNat
    | '0' :: 'b' :: digits => (readNumeral? 2 digits).map Int.ofNat
    | '-' :: digits => (readDecimal? digits).map fun n => -(n : Int)
    | '+' :: digits => (readDecimal? digits).map Int.ofNat
    | digits => (readDecimal? digits).map Int.ofNat
  if -9223372036854775808 ≤ value ∧ value ≤ 9223372036854775807 then some value else none

def readWord? (word : List Char) : Option Value :=
  if word = "true".toList then some (.bool true)
  else if word = "false".toList then some (.bool false)
  else (readInteger? word).map .integer

def readValue? : List Char → Option (Value × List Char)
  | '"' :: cs => (readQuoted? cs).map fun (text, rest) => (.string (.ofList text), rest)
  | '\'' :: cs => (readLiteral? cs).map fun (text, rest) => (.string (.ofList text), rest)
  | cs =>
    let inWord (c : Char) : Bool := !(isBlank c || c = '#')
    (readWord? (cs.takeWhile inWord)).map fun value => (value, cs.dropWhile inWord)

inductive Line where
  | blank
  | table (name : String)
  | entry (key : String) (value : Value)
deriving DecidableEq, Repr

def Line.ofText? (cs : List Char) : Option Line :=
  if isLineEnd cs then some .blank
  else
    match skipBlanks cs with
    | '[' :: cs => do
      let (name, rest) ← readKey? (skipBlanks cs)
      match skipBlanks rest with
      | ']' :: rest => if isLineEnd rest then some (.table name) else none
      | _ => none
    | cs => do
      let (key, rest) ← readKey? cs
      match skipBlanks rest with
      | '=' :: rest =>
        let (value, rest) ← readValue? (skipBlanks rest)
        if isLineEnd rest then some (.entry key value) else none
      | _ => none

end Toml

/-- The tables of a text, and its keys with the tables they stand in, if any. -/
structure Toml where
  tables : List String
  entries : List ((Option String × String) × Toml.Value)

namespace Toml

def get? (t : Toml) (table? : Option String) (key : String) : Option Value :=
  (t.entries.find? (·.1 == (table?, key))).map Prod.snd

def addLines (t : Toml) (table? : Option String) (number : Nat) :
    List (List Char) → Except Error Toml
  | [] => .ok t
  | line :: rest =>
    match Line.ofText? line with
    | none => .error (.malformed number)
    | some .blank => addLines t table? (number + 1) rest
    | some (.table name) =>
      if name ∈ t.tables ∨ (t.get? none name).isSome then .error (.repeatedTable number name)
      else addLines { t with tables := t.tables ++ [name] } (some name) (number + 1) rest
    | some (.entry key value) =>
      if (t.get? table? key).isSome then .error (.repeatedKey number key)
      else
        addLines { t with entries := t.entries ++ [((table?, key), value)] } table? (number + 1)
          rest

/-- Drops the byte order mark that a text may start with. -/
def skipMark : List Char → List Char
  | '\ufeff' :: cs => cs
  | cs => cs

/-- Reads a text in the part of TOML that settings are written in. -/
def ofText (s : String) : Except Error Toml :=
  addLines ⟨[], []⟩ none 1 (Text.lines (skipMark s.toList))

end Toml

end SchemaPlan
