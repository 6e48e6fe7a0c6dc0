import SchemaPlan.Text.Bytes

/-!
# Spans

Ranges of a source text, counted in the bytes of its UTF-8 form.
-/

namespace SchemaPlan.Source

structure Span where
  start : Nat
  stop : Nat
deriving DecidableEq, Repr

namespace Span

/-- A span that ends before it starts has no length. -/
def length (s : Span) : Nat := s.stop - s.start

def isEmpty (s : Span) : Bool := s.length == 0

/-- The least span that covers both. -/
def join (s t : Span) : Span := ⟨min s.start t.start, max s.stop t.stop⟩

def text (s : Span) : String := s!"{s.start}..{s.stop}"

def slice (s : Span) (source : String) : String :=
  .ofList (Text.takeBytes s.length (Text.dropBytes s.start source.toList))

end Span

end SchemaPlan.Source
