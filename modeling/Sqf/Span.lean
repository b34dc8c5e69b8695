/-!
# Spans

A span is a range of byte offsets into a source text. Tokens, tree nodes and
diagnostics all say by a span where they stand.

The offsets of a stored span have 32 bits. Here they are natural numbers, which
are the same only in texts shorter than 2^32 bytes: there, and there alone, is
what is said of spans said of those that are stored.
-/

namespace Sqf

/-- The bytes from `start` up to but not including `stop`. The offsets are exact, and so they differ
from the 32 bits that are stored of them in texts of 2^32 bytes and more. -/
structure Span where
  start : Nat := 0
  stop : Nat := 0
deriving DecidableEq, Inhabited, Repr

namespace Span

/-- The empty span at an offset. -/
def point (offset : Nat) : Span := ⟨offset, offset⟩

/-- Number of bytes covered; a span that ends before it starts covers none. -/
def length (s : Span) : Nat := s.stop - s.start

/-- Whether no byte is covered. -/
def isEmpty (s : Span) : Bool := s.length == 0

/-- The least span that covers both `s` and `t`. -/
def join (s t : Span) : Span := ⟨min s.start t.start, max s.stop t.stop⟩

/-- The span moved `n` bytes to the right. -/
def shift (n : Nat) (s : Span) : Span := ⟨s.start + n, s.stop + n⟩

/-- Span `inner` lies within `outer`. -/
def Contains (outer inner : Span) : Prop :=
  outer.start ≤ inner.start ∧ inner.stop ≤ outer.stop

instance (outer inner : Span) : Decidable (outer.Contains inner) :=
  inferInstanceAs (Decidable (_ ∧ _))

end Span

end Sqf
