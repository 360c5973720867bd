/-!
Places in a text: byte ranges and line ranges.
-/
namespace BacktestAudit.Source

/-- Half-open range of byte offsets in the encoded text. Ranges of syntax lie inside it; a range
that a caller makes up may not, so the ends are integers. -/
structure Span where
  start : Int
  stop : Int
  deriving DecidableEq, Repr

namespace Span

def overlaps (a b : Span) : Bool :=
  a.start < b.stop && b.start < a.stop

theorem overlaps_comm (a b : Span) : a.overlaps b = b.overlaps a := by
  simp only [overlaps, Bool.and_comm]

end Span

/-- The first and last line, counted from one, both included. -/
structure Lines where
  first : Int
  last : Int
  deriving DecidableEq, Repr, Hashable

structure Extent where
  start : Nat
  stop : Nat
  firstLine : Nat
  lastLine : Nat
  deriving DecidableEq, Repr

namespace Extent

def span (e : Extent) : Span := ⟨e.start, e.stop⟩

def lines (e : Extent) : Lines := ⟨e.firstLine, e.lastLine⟩

end Extent
end BacktestAudit.Source
