import StyleAudit.Sheet.Outline
import StyleAudit.Text.Edit

/-! # Finding and deleting rules

Deleting a rule takes the blanks with it that would be left without purpose. A rule that begins its
line takes the whole line and the blanks after it up to their last newline; a rule with something
before it on its line takes the spaces and tabs that separate the two. A rule whose block is never
closed is not found at all.

* **`extent text r`** — the span that goes when `r` is deleted.
* **`locate`, `locateAt?`** — the rules that declare a selector.
* **`locateAll`** — the merged extents of the rules whose whole selector list is targeted. -/

namespace StyleAudit.Sheet

/-- The leading blanks of `cs` through the last newline among them, or all of them when there is no
newline. -/
def blankTail (cs : List Char) : List Char :=
  let run := cs.takeWhile Text.isBlank
  if '\n' ∈ run then (run.reverse.dropWhile (· != '\n')).reverse else run

/-- The trailing spaces and tabs of `cs`. -/
def trailingSpaces (cs : List Char) : List Char :=
  (cs.reverse.takeWhile fun c => c == ' ' || c == '\t').reverse

/-- The span that goes when `r` is deleted from `text`. -/
def extent (text : List Char) (r : Rule) : Span :=
  let start := r.prelude.start
  let stop := r.block.stop
  let lineStart := Text.lineStart start text
  if (Text.slice lineStart start text).all Text.isBlank then
    ⟨lineStart, stop + Text.byteSize (blankTail (Text.dropBytes stop text))⟩
  else
    ⟨start - Text.byteSize (trailingSpaces (Text.takeBytes start text)), stop⟩

/-- The closed rules of an outline. -/
def Outline.closedRules (o : Outline) : List Rule := o.rules.filter (·.closed)

/-- The closed rules of a text. -/
def closedRules (text : String) : List Rule := (Outline.ofText text).closedRules

/-- Every entry of the selector list is in `targets`. -/
def Rule.fullyTargeted (r : Rule) (targets : SelectorSet) : Bool :=
  r.entries.all fun e => decide (e.text ∈ targets)

/-- Some entry of the selector list is in `targets`, but not every one. -/
def Rule.partlyTargeted (r : Rule) (targets : SelectorSet) : Bool :=
  !r.fullyTargeted targets && r.entries.any fun e => decide (e.text ∈ targets)

/-- The extents of the closed rules of an outline that declare `selector`, in order. -/
def Outline.locate (o : Outline) (selector text : String) : List Span :=
  (o.closedRules.filter (·.declares selector)).map (extent text.toList)

/-- The extents of the closed rules that declare `selector`, in order. -/
def locate (selector text : String) : List Span := (Outline.ofText text).locate selector text

/-- The first extent of a rule that declares `selector` and holds `target`. -/
def locateAt? (selector text : String) (target : Span) : Option Span :=
  (locate selector text).find? (·.contains target)

/-- The spans of the entries that are `selector`, by position. -/
def occurrencesOf (selector text : String) : List Span :=
  ((Outline.ofText text).occurrences (.ofList [selector])).map (·.span)

/-- The merged extents of the closed rules all of whose entries are in `targets`. -/
def locateAll (targets : SelectorSet) (text : String) : List Span :=
  Span.merge (((closedRules text).filter (·.fullyTargeted targets)).map (extent text.toList))

end StyleAudit.Sheet
