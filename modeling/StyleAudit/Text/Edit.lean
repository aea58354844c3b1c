import StyleAudit.Text.Bytes
import StyleAudit.Text.Span

/-! # Edits

An edit replaces a span of a text. A list of edits is applied at once: all spans refer to the
text as given, so the edits may come in any order but must not overlap.

* **`Edit.applyAll edits text`** — the edited text, or the reason why it cannot be built. -/

namespace StyleAudit

/-- The replacement of a span of a text. -/
structure Edit where
  span : Span
  replacement : String
  deriving DecidableEq, Repr, Inhabited

/-- Why a list of edits cannot be applied to a text. -/
inductive EditError where
  /-- The second edit begins before the first one ends. -/
  | overlap (first second : Span)
  /-- The span is reversed, ends past the text, or cuts a character. -/
  | outOfBounds (span : Span) (size : Nat)
  deriving DecidableEq, Repr

/-- The wording of an edit error. -/
def EditError.message : EditError → String
  | .overlap first second => "edits " ++ first.render ++ " and " ++ second.render ++ " overlap"
  | .outOfBounds span size =>
      "edit " ++ span.render ++ " is outside a text of " ++ toString size ++ " bytes"

namespace Edit

/-- The edit that removes a span. -/
def delete (span : Span) : Edit := ⟨span, ""⟩

/-- The span is in order, inside the text, and cuts no character of it. -/
def fits (text : List Char) (edit : Edit) : Bool :=
  edit.span.start ≤ edit.span.stop && Text.isBoundary edit.span.start text &&
    Text.isBoundary edit.span.stop text

/-- The first two neighbours of a list such that the second begins before the first one ends. -/
def firstOverlap? : List Edit → Option (Span × Span)
  | a :: b :: rest =>
      if b.span.start < a.span.stop then some (a.span, b.span) else firstOverlap? (b :: rest)
  | _ => none

/-- Replaces the spans of sorted, disjoint edits in the part of a text from offset `cursor` on. -/
def splice (cursor : Nat) : List Edit → List Char → List Char
  | [], rest => rest
  | e :: edits, rest =>
      Text.takeBytes (e.span.start - cursor) rest ++ e.replacement.toList ++
        splice e.span.stop edits (Text.dropBytes (e.span.stop - cursor) rest)

/-- Applies `edits` to `text` at once. -/
def applyAll (edits : List Edit) (text : String) : Except EditError String :=
  let chars := text.toList
  let sorted := edits.mergeSort (fun a b => Span.le a.span b.span)
  match sorted.find? (fun e => !e.fits chars) with
  | some e => .error (.outOfBounds e.span (Text.byteSize chars))
  | none =>
      match firstOverlap? sorted with
      | some (first, second) => .error (.overlap first second)
      | none => .ok (String.ofList (splice 0 sorted chars))

end Edit

end StyleAudit
