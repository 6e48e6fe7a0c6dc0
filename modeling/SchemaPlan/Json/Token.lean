import SchemaPlan.Json.Number
import SchemaPlan.Json.Text
import SchemaPlan.Text.Quoted

/-!
# JSON tokens

A text is cut into tokens until one is broken. What is wrong with a broken token depends on
whether it is read or skipped.
-/

namespace SchemaPlan.Json

inductive Scalar where
  | null
  | bool (value : Bool)
  | number (reading : Except Error Number)
  | string (reading : Except Error String)

inductive TokenKind where
  | scalar (scalar : Scalar)
  | beginArray
  | endArray
  | beginObject
  | endObject
  | comma
  | colon
  /-- A token that breaks off. One that starts with a quote is still taken for a string. -/
  | broken (quoted : Bool) (read skip : Error)
  /-- The end of the text. -/
  | finish

structure Token where
  kind : TokenKind
  start : Mark
  stop : Mark

namespace Scalar

/-- Says that another kind of value was expected, unless the scalar itself cannot be read. -/
def unexpected (s : Scalar) (stop : Mark) (expected : String) : Error :=
  let mismatch (found : String) : Error := .marked (.invalidType found expected) stop
  match s with
  | .null => mismatch "null"
  | .bool b => mismatch (if b then "boolean \x60true\x60" else "boolean \x60false\x60")
  | .number (.ok n) => mismatch n.description
  | .number (.error e) => e
  | .string (.ok s) => mismatch ("string " ++ Text.quoted s)
  | .string (.error e) => e

end Scalar

namespace Token

/-- Past the first byte. -/
def peek (t : Token) : Mark :=
  match t.kind with
  | .finish => t.start
  | _ => ⟨t.start.line, t.start.column + 1⟩

end Token

def isSpace (c : Char) : Bool := c == ' ' || c == '\t' || c == '\n' || c == '\r'

/-- Reads the letters of a word one by one. -/
def readWord (s : Input) : List Char → Except Error Input
  | [] => .ok s
  | expected :: more =>
    match s.rest with
    | [] => s.fail .endInValue
    | c :: cs => if c = expected then readWord (s.next c cs) more else s.failAt c .expectedWord

theorem length_of_readWord {s t : Input} {w : List Char} (h : readWord s w = .ok t) :
    t.rest.length ≤ s.rest.length := by
  induction w generalizing s with
  | nil => cases h; simp
  | cons a w ih =>
    unfold readWord at h
    split at h
    · cases h
    · next c cs hs =>
      split at h
      · have := ih h
        simp only [Input.next] at this
        simp only [hs, List.length_cons]
        omega
      · cases h

namespace TokenScan

/-- A token of one character. -/
def punctuation? : Char → Option TokenKind
  | '[' => some .beginArray
  | ']' => some .endArray
  | '{' => some .beginObject
  | '}' => some .endObject
  | ',' => some .comma
  | ':' => some .colon
  | _ => none

def word (s : Input) (letters : String) (scalar : Scalar) : TokenKind × Input :=
  match readWord s letters.toList with
  | .ok t => (.scalar scalar, t)
  | .error e => (.broken false e e, s)

def number (m : Mark) (c : Char) (cs : List Char) : TokenKind × Input :=
  match NumberScan.scan m (c :: cs) with
  | .ok scan => (.scalar (.number scan.reading), ⟨scan.rest, scan.stop⟩)
  | .error (read, skip) => (.broken false read skip, ⟨cs, m⟩)

def string (s : Input) : TokenKind × Input :=
  let reading := readString s
  match skipString s with
  | .ok t => (.scalar (.string (reading.map fun (cs, _) => .ofList cs)), t)
  | .error skip =>
    let read := match reading with
      | .error e => e
      | .ok _ => skip
    (.broken true read skip, s)

/-- The token that starts with a character, and the place after it. -/
def first (m : Mark) (c : Char) (cs : List Char) : TokenKind × Input :=
  let after : Input := ⟨cs, m.after c⟩
  match punctuation? c with
  | some kind => (kind, after)
  | none =>
    if c = '"' then string after
    else if c = 'n' then word after "ull" .null
    else if c = 't' then word after "rue" (.bool true)
    else if c = 'f' then word after "alse" (.bool false)
    else if c = '-' ∨ c.isDigit then number m c cs
    else
      let e := Error.marked .expectedValue (m.peek c)
      (.broken false e e, after)

theorem length_first (m : Mark) (c : Char) (cs : List Char) :
    (first m c cs).2.rest.length ≤ cs.length := by
  have word_le (letters : String) (scalar : Scalar) :
      (word ⟨cs, m.after c⟩ letters scalar).2.rest.length ≤ cs.length := by
    unfold word
    split
    · next h => exact length_of_readWord h
    · exact Nat.le_refl _
  unfold first
  simp only
  split
  · exact Nat.le_refl _
  split
  · unfold string
    simp only
    split
    · next h => exact Nat.le_of_lt (length_of_skipString h)
    · exact Nat.le_refl _
  split
  · exact word_le _ _
  split
  · exact word_le _ _
  split
  · exact word_le _ _
  split
  · unfold number
    split
    · next h => exact Nat.le_of_lt_succ (NumberScan.length_of_scan h)
    · exact Nat.le_refl _
  · exact Nat.le_refl _

end TokenScan

def TokenKind.isBroken : TokenKind → Bool
  | .broken .. => true
  | _ => false

/-- The tokens of a text. The last one is broken or marks the end. -/
def Token.scan (s : Input) : List Token :=
  match _rest : s.rest with
  | [] => [⟨.finish, s.mark, s.mark⟩]
  | c :: cs =>
    if isSpace c then Token.scan (s.next c cs)
    else
      let token := TokenScan.first s.mark c cs
      ⟨token.1, s.mark, token.2.mark⟩ ::
        if token.1.isBroken then [] else Token.scan token.2
termination_by s.rest.length
decreasing_by
  · simp [_rest, Input.next]
  · have := TokenScan.length_first s.mark c cs
    simp only [_rest, List.length_cons]
    omega

end SchemaPlan.Json
