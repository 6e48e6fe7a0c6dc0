import SchemaPlan.Json.Tree

/-!
# Readers

A reader takes a tree for a value of some type. Records read their members by name, or in their
order from an array; members they do not know are skipped.
-/

namespace SchemaPlan.Json

mutual

/-- Checks a value that is not wanted. Any string and any number will do. -/
def Tree.skip : Tree → Except Error Unit
  | .scalar .. => .ok ()
  | .array _ items => items.skip
  | .object _ members => members.skip
  | .fault f => .error f.skip

def Items.skip : Items → Except Error Unit
  | .close _ => .ok ()
  | .fault f => .error f.skip
  | .item value _ rest =>
    match value.skip with
    | .error e => .error e
    | .ok () => rest.skip

def Members.skip : Members → Except Error Unit
  | .close _ => .ok ()
  | .fault f => .error f.skip
  | .member _ _ _ value _ rest =>
    match value.skip with
    | .error e => .error e
    | .ok () => rest.skip

end

abbrev Reader (α : Type) := Tree → Except Error α

/-- Says that another kind of value was expected. -/
def Tree.unexpected (t : Tree) (expected : String) : Error :=
  match t with
  | .scalar s _ stop => s.unexpected stop expected
  | .array start _ => .marked (.invalidType "sequence" expected) start
  | .object start _ => .marked (.invalidType "map" expected) start
  | .fault f => f.read

namespace Reader

def string : Reader String
  | .scalar (.string reading) _ _ => reading
  | t => .error (t.unexpected "a string")

def bool : Reader Bool
  | .scalar (.bool b) _ _ => .ok b
  | t => .error (t.unexpected "a boolean")

def unit : Reader Unit
  | .scalar .null _ _ => .ok ()
  | t => .error (t.unexpected "unit")

def optional {α : Type} (r : Reader α) : Reader (Option α)
  | .scalar .null _ _ => .ok none
  | t => (r t).map some

/-- Passes what was read through a check whose refusal has no mark of its own. -/
def checked {α β : Type} (r : Reader α) (check : α → Except Cause β) : Reader β := fun t =>
  match r t with
  | .error e => .error e
  | .ok a => (check a).mapError (⟨·, none⟩)

def items {α : Type} (r : Reader α) : Items → Except Error (List α)
  | .close _ => .ok []
  | .fault f => .error f.read
  | .item value settled rest =>
    match r value with
    | .error e => .error (e.placed settled)
    | .ok a => (items r rest).map (a :: ·)

def list {α : Type} (r : Reader α) : Reader (List α)
  | .array _ is => items r is
  | t => .error (t.unexpected "a sequence")

/-- Reads the members of an object after those read before. -/
def entries {κ α : Type} [DecidableEq κ] (key : String → Except Cause κ) (text : κ → String)
    (r : Reader α) (done : List (κ × α)) : Members → Except Error (List (κ × α))
  | .close _ => .ok done
  | .fault f => .error f.read
  | .member name _ settledKey value settled rest =>
    match name with
    | .error e => .error e
    | .ok name =>
      match key name with
      | .error cause => .error (.marked cause settledKey)
      | .ok k =>
        match r value with
        | .error e => .error (e.placed settled)
        | .ok a =>
          if k ∈ done.map Prod.fst then .error (.marked (.duplicateKey (text k)) settled)
          else entries key text r (done ++ [(k, a)]) rest

/-- An object with keys of some type, each of which occurs once. -/
def map {κ α : Type} [DecidableEq κ] (key : String → Except Cause κ) (text : κ → String)
    (r : Reader α) : Reader (List (κ × α))
  | .object _ members => entries key text r [] members
  | t => .error (t.unexpected "a map with unique keys")

/-- One of some names: a string, or an object whose only key is the name, with the value `null`. -/
def variant (names : List String) : Reader String := fun t =>
  let known (name : String) (stop : Mark) : Except Error String :=
    if name ∈ names then .ok name else .error (.marked (.unknownVariant name names) stop)
  match t with
  | .scalar (.string reading) _ stop =>
    match reading with
    | .error e => .error e
    | .ok name => known name stop
  | .scalar _ start _ => .error (.marked .expectedValue ⟨start.line, start.column + 1⟩)
  | .array start _ => .error (.marked .expectedValue ⟨start.line, start.column + 1⟩)
  | .fault f => .error f.readAsVariant
  | .object _ (.close stop) => .error (.marked .expectedValue stop)
  | .object _ (.fault f) => .error f.read
  | .object _ (.member key stop _ value settled rest) => do
    let name ← known (← key) stop
    Reader.unit value
    match rest with
    | .close _ => return name
    | .fault ⟨.afterMember, ⟨.finish, start, _⟩⟩ => .error (.marked .endInObject start)
    | _ => .error (.marked .expectedValue settled)

end Reader

/-- A field of a record of type `σ` that is filled while it is read. -/
structure Slot (σ : Type) where
  key : String
  isFilled : σ → Bool
  fill : σ → Tree → Except Error σ

/-- The slot of a part that the record does not have before it is read. -/
def Slot.of {σ α : Type} (key : String) (part? : σ → Option α) (put : σ → α → σ) (r : Reader α) :
    Slot σ :=
  ⟨key, fun s => (part? s).isSome, fun s t => (r t).map (put s)⟩

def required {α : Type} (key : String) : Option α → Except Cause α
  | some a => .ok a
  | none => .error (.missingField key)

/-- How a record is read: its name in messages, its fields, and how a record with some fields filled
becomes a value. -/
structure RecordFormat (σ α : Type) where
  name : String
  slots : List (Slot σ)
  start : σ
  finish : σ → Except Cause α

namespace RecordFormat

variable {σ α : Type}

def title (f : RecordFormat σ α) : String := s!"struct {f.name}"

def named (f : RecordFormat σ α) (s : σ) : Members → Except Error α
  | .close stop => (f.finish s).mapError (.marked · stop)
  | .fault fault => .error fault.read
  | .member key _ settledKey value settled rest =>
    match key with
    | .error e => .error e
    | .ok key =>
      match f.slots.find? (·.key == key) with
      | none =>
        match value.skip with
        | .error e => .error e
        | .ok () => f.named s rest
      | some slot =>
        if slot.isFilled s then .error (.marked (.duplicateField key) settledKey)
        else
          match slot.fill s value with
          | .error e => .error (e.placed settled)
          | .ok s => f.named s rest

/-- The error when an array goes on after the last field, where the last item left the reader. -/
def tooLong (settled : Mark) : Items → Error
  | .fault fault =>
    match fault.expected, fault.token.kind with
    | .item, .endArray | .firstItem, .finish | .afterItem, .finish => fault.read
    | _, _ => .marked .trailingCharacters fault.token.peek
  | _ => .marked .trailingCharacters ⟨settled.line, settled.column + 1⟩

/-- Fills the fields in order. Fields that may be missing come last. -/
def positional (f : RecordFormat σ α) (s : σ) (settled : Mark) :
    List (Slot σ) → Items → Except Error α
  | slots, .close stop =>
    match f.finish s with
    | .ok a => .ok a
    | .error _ =>
      let count := f.slots.length
      .error (.marked (.invalidLength (count - slots.length)
        s!"{f.title} with {count} elements") stop)
  | [], items => .error (tooLong settled items)
  | slot :: _, .fault fault =>
    match fault.value? with
    | none => .error fault.read
    | some value => (slot.fill s (.fault value)).bind fun _ => .error fault.read
  | slot :: slots, .item value settled rest =>
    match slot.fill s value with
    | .error e => .error (e.placed settled)
    | .ok s => f.positional s settled slots rest

def reader (f : RecordFormat σ α) : Reader α
  | .object _ members => f.named f.start members
  | .array start items => f.positional f.start start f.slots items
  | t => .error (t.unexpected f.title)

end RecordFormat

/-- Reads a whole text. What comes after the value is looked at last. -/
def decode {α : Type} (r : Reader α) (text : String) : Except Error α :=
  let grown := Tree.ofText text
  match r grown.tree with
  | .error e => .error e
  | .ok a =>
    match grown.trailing? with
    | none => .ok a
    | some token => .error (.marked .trailingCharacters token.peek)

end SchemaPlan.Json
