import SchemaPlan.Schema.Attribute

/-!
# Attribute sets

The attributes of one field, at most one of each kind. They keep the order of the text for
printing; equality ignores it.
-/

namespace SchemaPlan

structure AttributeSet where
  members : List Attribute
  distinct : (members.map Attribute.kind).Nodup

namespace AttributeSet

def empty : AttributeSet := ⟨[], by simp⟩

instance : EmptyCollection AttributeSet := ⟨empty⟩

@[simp] theorem members_empty : (∅ : AttributeSet).members = [] := rfl

def HasKind (s : AttributeSet) (k : Attribute.Kind) : Prop := k ∈ s.members.map Attribute.kind

instance (s : AttributeSet) (k : Attribute.Kind) : Decidable (s.HasKind k) :=
  inferInstanceAs (Decidable (_ ∈ _))

/-- Appends an attribute whose kind is new, and ignores any other. -/
def insert (s : AttributeSet) (a : Attribute) : AttributeSet :=
  if h : s.HasKind a.kind then s
  else ⟨s.members ++ [a], by
    simp only [List.map_append, List.map_cons, List.map_nil, List.nodup_append]
    refine ⟨s.distinct, by simp, ?_⟩
    intro k hk l hl
    simp only [List.mem_singleton] at hl
    rintro rfl
    exact h (hl ▸ hk)⟩

theorem members_insert_of_hasKind {s : AttributeSet} {a : Attribute} (h : s.HasKind a.kind) :
    s.insert a = s := by simp [insert, h]

theorem members_insert_of_not_hasKind {s : AttributeSet} {a : Attribute}
    (h : ¬ s.HasKind a.kind) : (s.insert a).members = s.members ++ [a] := by simp [insert, h]

/-- Inserts an attribute and tells whether its kind was new. -/
def insertNew (s : AttributeSet) (a : Attribute) : AttributeSet × Bool :=
  if s.HasKind a.kind then (s, false) else (s.insert a, true)

def contains (s : AttributeSet) (a : Attribute) : Bool := s.members.contains a

def hasFlag (s : AttributeSet) (f : Flag) : Bool := s.contains (.flag f)

def default? (s : AttributeSet) : Option String :=
  s.members.findSome? fun
    | .default value => some value
    | .flag _ => none

/-- Repeated flags are dropped; a second default is refused. -/
def addAll (s : AttributeSet) : List Attribute → Except SchemaError AttributeSet
  | [] => .ok s
  | a :: rest =>
    if a.kind = .default ∧ s.HasKind .default then .error .duplicateDefault
    else (s.insert a).addAll rest

def ofList (attributes : List Attribute) : Except SchemaError AttributeSet :=
  addAll ∅ attributes

/-- How a stored attribute is read: a flag keeps its meaning whatever its arguments, and a tag
outside the vocabulary is skipped. -/
def storedAttribute? (s : String) : Option Attribute :=
  match Attribute.ofText s with
  | .ok a => some a
  | .error _ => (Flag.ofName? (Text.trim (.ofList (s.toList.takeWhile (· ≠ '('))))).map .flag

def ofStored (texts : List String) : Except SchemaError AttributeSet :=
  ofList (texts.filterMap storedAttribute?)

/-- Equality as sets. Members are of distinct kinds, so one inclusion and equal sizes suffice. -/
instance : BEq AttributeSet where
  beq s t := s.members.length == t.members.length && s.members.all t.contains

end AttributeSet

end SchemaPlan
