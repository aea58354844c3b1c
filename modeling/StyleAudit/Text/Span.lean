/-! # Spans

A span is a half-open interval of byte offsets. Spans that come from a request may be reversed
or lie outside their text, so a span promises nothing about its ends.

* **`Span.contains outer inner`** — `inner` lies within `outer`.
* **`Span.merge spans`** — the sorted spans with a gap between neighbours that cover the same
  offsets as `spans`. -/

namespace StyleAudit

/-- A half-open interval `[start, stop)` of byte offsets. -/
structure Span where
  start : Nat
  stop : Nat
  deriving DecidableEq, Repr, Inhabited

namespace Span

/-- `inner` lies within `outer`, ends included. -/
def contains (outer inner : Span) : Bool :=
  outer.start ≤ inner.start && inner.stop ≤ outer.stop

/-- Spans in the order of their starts, and of their ends where the starts agree. -/
def le (a b : Span) : Bool :=
  a.start < b.start || (a.start == b.start && a.stop ≤ b.stop)

/-- Joins `current` with every span of a sorted list that begins inside it or right at its end,
and goes on with the first one that leaves a gap. -/
def mergeInto (current : Span) : List Span → List Span
  | [] => [current]
  | next :: rest =>
      if next.start ≤ current.stop then
        mergeInto ⟨current.start, max current.stop next.stop⟩ rest
      else current :: mergeInto next rest

/-- The sorted spans with a gap between neighbours that cover the same offsets as `spans`. -/
def merge (spans : List Span) : List Span :=
  match spans.mergeSort le with
  | [] => []
  | first :: rest => mergeInto first rest

/-- A span as its two ends with two dots between them. -/
def render (s : Span) : String := toString s.start ++ ".." ++ toString s.stop

end Span

end StyleAudit
