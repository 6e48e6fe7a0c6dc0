import SchemaPlan.Source.Declaration

/-!
# Reading with a cursor

The same reader as a machine: tokens are found by their index, parts of the text by bytes, and a
cursor moves over the tokens block by block. Every access is checked here, and one that misses ends
the reading in a way of its own.
-/

namespace SchemaPlan.Source.Cursor

/-- What ends the reading of a text before its end. All but the first are faults of the reader. -/
inductive Halt where
  | error (e : Error)
  /-- No token has this index. -/
  | index
  /-- The tokens have no such range. -/
  | range
  /-- The text has no such slice, or an end of it falls inside a character. -/
  | slice
  /-- A brace closes that was not opened. -/
  | depth
  /-- The cursor has not moved on. -/
  | stuck
deriving DecidableEq, Repr

abbrev Checked (α : Type) : Type := Except Halt α

def report {α : Type} (e : Error) : Checked α := .error (.error e)

def lift {α : Type} (x : Except Error α) : Checked α := x.mapError .error

def need {α : Type} (halt : Halt) : Option α → Checked α
  | some a => .ok a
  | none => .error halt

/-- Splits a text at a number of bytes, if a character starts or the text ends there. -/
def splitBytes? : Nat → List Char → Option (List Char × List Char)
  | 0, cs => some ([], cs)
  | _ + 1, [] => none
  | n + 1, c :: cs =>
    if c.utf8Size ≤ n + 1 then
      (splitBytes? (n + 1 - c.utf8Size) cs).map fun (before, after) => (c :: before, after)
    else none

def slice? (cs : List Char) (s : Span) : Option (List Char) :=
  if s.start ≤ s.stop then do
    let (_, after) ← splitBytes? s.start cs
    let (inside, _) ← splitBytes? (s.stop - s.start) after
    return inside
  else none

def slice (source : String) (s : Span) : Checked String :=
  (need .slice (slice? source.toList s)).map .ofList

def tokenAt (tokens : List Token) (i : Nat) : Checked Token := need .index tokens[i]?

/-- The tokens from one index up to another one. -/
def range (tokens : List Token) (start stop : Nat) : Checked (List Token) :=
  if start ≤ stop ∧ stop ≤ tokens.length then .ok ((tokens.drop start).take (stop - start))
  else .error .range

/-- Cuts a text into tokens. Columns are counted from where the line starts. -/
def tokensFrom (source : String) (offset line lineStart : Nat) : List Lexeme → Checked (List Token)
  | [] => .ok []
  | l :: rest =>
    let span : Span := ⟨offset, offset + Text.byteLength l.text⟩
    match l.kind with
    | .blank => tokensFrom source span.stop line lineStart rest
    | .comment => do
      let _ ← slice source ⟨lineStart, offset⟩
      let _ ← slice source span
      tokensFrom source span.stop line lineStart rest
    | .token kind => do
      let before ← slice source ⟨lineStart, offset⟩
      let text ← slice source span
      let column := before.toList.length + 1
      if Token.isUnterminated kind text.toList then
        report (.unterminatedAttribute line column text span)
      else
        let next :=
          if kind = .newline then tokensFrom source span.stop (line + 1) span.stop rest
          else tokensFrom source span.stop line lineStart rest
        return ⟨kind, span, text, line, column⟩ :: (← next)

def tokenize (source : String) : Checked (List Token) :=
  tokensFrom source 0 1 0 (Lexeme.scan source.toList)

/-- A line without tokens has an empty span. -/
def lineSpan (line : List Token) : Span :=
  match line.head?, line.getLast? with
  | some first, some last => first.span.join last.span
  | _, _ => ⟨0, 0⟩

/-- The fields of the shorthand, those among them whose names are valid. -/
def timestamps : List Field :=
  ["created_at", "updated_at"].filterMap fun name =>
    match fieldName name with
    | .ok name => some (timestampField name)
    | .error _ => none

def typeClause (source : String) (model : Identifier) (line : List Token) (name word : Token)
    (rest : List Token) : Checked (FieldType × List Token) :=
  let malformed := do
    let content ← slice source (lineSpan line)
    report (.malformedField model.text name.line content
      "belongsTo requires a target model, e.g. belongsTo(User)" (lineSpan line))
  if word.text = "belongsTo" then
    match rest with
    | opening :: target :: closing :: rest =>
      if opening.kind = .openParen ∧ target.kind = .identifier ∧ closing.kind = .closeParen then do
        let target ← lift (target.named modelName)
        return (.belongsTo target, rest)
      else malformed
    | _ => malformed
  else .ok (.ofName word.text, rest)

def readField (source : String) (model : Identifier) (line : List Token) (name word : Token)
    (rest : List Token) : Checked (Field × List Warning) := do
  let fieldName ← lift (name.named fieldName)
  let (type, rest) ← typeClause source model line name word rest
  let (attributes, warnings) ← lift (Site.applyTags ⟨model.text, fieldName.text⟩ ∅ rest)
  return (⟨fieldName, type, attributes⟩, warnings)

def readLine (source : String) (model : Identifier) (line : List Token) :
    Checked (List Field × List Warning) :=
  let malformed := do
    let first ← tokenAt line 0
    let content ← slice source (lineSpan line)
    report (.malformedLine model.text first.line content (lineSpan line))
  match line with
  | [only] => if only.isWord "timestamps" then .ok (timestamps, []) else malformed
  | name :: colon :: word :: rest =>
    if name.kind.isName ∧ colon.kind = .colon ∧ word.kind.isName then do
      let (field, warnings) ← readField source model line name word rest
      return ([field], warnings)
    else malformed
  | _ => malformed

def declare (model : Identifier) (line : List Token) (fields : List Field) :
    List Field → Checked (List Field)
  | [] => .ok fields
  | f :: rest =>
    if f.name ∈ fields.map Field.name then do
      let first ← tokenAt line 0
      report (.duplicateField model.text f.name.text first.line (lineSpan line))
    else declare model line (fields ++ [f]) rest

def readLines (source : String) (model : Identifier) (fields : List Field) :
    List (List Token) → Checked (List Field × List Warning)
  | [] => .ok (fields, [])
  | line :: rest =>
    if line.isEmpty then readLines source model fields rest
    else do
      let (declared, warnings) ← readLine source model line
      let fields ← declare model line fields declared
      let (fields, later) ← readLines source model fields rest
      return (fields, warnings ++ later)

def skipNewlines (tokens : List Token) (i : Nat) : Nat :=
  match _token : tokens[i]? with
  | some t => if t.isNewline then skipNewlines tokens (i + 1) else i
  | none => i
termination_by tokens.length - i
decreasing_by
  have := (List.getElem?_eq_some_iff.mp _token).1
  omega

/-- The indices of the name and of the brace of a block that opens at the cursor. -/
def header? (tokens : List Token) (pos : Nat) : Option (Nat × Nat) :=
  let name := skipNewlines tokens (pos + 1)
  let brace := skipNewlines tokens (name + 1)
  match tokens[name]?, tokens[brace]? with
  | some t, some u =>
    if t.kind = .identifier ∧ u.kind = .openBrace then some (name, brace) else none
  | _, _ => none

/-- The index of the brace that takes the depth back to zero. -/
def closeAt (depth i : Nat) : List Token → Checked (Option Nat)
  | [] => .ok none
  | t :: rest =>
    match t.kind with
    | .openBrace => closeAt (depth + 1) (i + 1) rest
    | .closeBrace =>
      if depth = 0 then .error .depth
      else if depth - 1 = 0 then .ok (some i)
      else closeAt (depth - 1) (i + 1) rest
    | _ => closeAt depth (i + 1) rest

/-- Reads the block whose parts have these indices. The last result is the index after it. -/
def readBlock (source : String) (tokens : List Token) (keyword name brace : Nat) :
    Checked (Model × List Warning × Nat) := do
  let nameToken ← tokenAt tokens name
  let modelName ← lift (nameToken.named modelName)
  match ← closeAt 0 brace (tokens.drop brace) with
  | none =>
    let keyword ← tokenAt tokens keyword
    report (.unbalancedBraces modelName.text keyword.line
      ⟨keyword.span.start, Text.byteLength source.toList⟩)
  | some close =>
    let body ← range tokens (brace + 1) close
    let (fields, warnings) ← readLines source modelName [] (body.splitOnP Token.isNewline)
    let model ← lift ((Model.ofFields modelName fields).mapError
      (.invalidSchema · nameToken.line nameToken.span))
    return (model, warnings, close + 1)

/-- Reads blocks from the cursor on. -/
def readFrom (source : String) (tokens : List Token) (pos : Nat) (document : Document) :
    Checked (Document × List Warning) :=
  match _token : tokens[pos]? with
  | none => .ok (document, [])
  | some t =>
    if t.kind ≠ .model then readFrom source tokens (pos + 1) document
    else
      match header? tokens pos with
      | none => readFrom source tokens (pos + 1) document
      | some (name, brace) => do
        let (model, warnings, next) ← readBlock source tokens pos name brace
        if document.Contains model.name then do
          let nameToken ← tokenAt tokens name
          report (.duplicateModel model.name.text nameToken.line nameToken.span)
        else
          match document.insert model with
          | .error cause => do
            let nameToken ← tokenAt tokens name
            report (.invalidSchema cause nameToken.line nameToken.span)
          | .ok document =>
            if _forward : pos < next then do
              let (document, later) ← readFrom source tokens next document
              return (document, warnings ++ later)
            else .error .stuck
termination_by tokens.length - pos
decreasing_by
  all_goals
    have := (List.getElem?_eq_some_iff.mp _token).1
    omega

def parse (source : String) : Checked Declared := do
  let tokens ← tokenize source
  let (document, warnings) ← readFrom source tokens 0 ∅
  return ⟨document, warnings⟩

end SchemaPlan.Source.Cursor
