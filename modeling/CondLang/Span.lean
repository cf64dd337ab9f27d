/-!
# Spans

A span is a half-open range of character offsets into the text of a condition.
-/

namespace CondLang

/-- The characters from offset `start` up to, but without, offset `stop`. -/
structure Span where
  start : Nat
  stop : Nat
  deriving DecidableEq, Repr, Inhabited

namespace Span

/-- The smallest span that covers both. -/
def cover (a b : Span) : Span := ⟨min a.start b.start, max a.stop b.stop⟩

/-- The characters under a span; what lies beyond the end of the text is left out. -/
def slice (span : Span) (text : String) : String :=
  .ofList ((text.toList.drop span.start).take (span.stop - span.start))

/-- The same characters in a text that has `offset` more in front. -/
def moved (offset : Nat) (span : Span) : Span := ⟨span.start + offset, span.stop + offset⟩

end Span

end CondLang
