/-! # Styled text

* **`Style`** — weight and colour of a piece of text.
* **`Style.paint`** — a text in a style, for terminals that show colours. -/

namespace StyleAudit.Report

/-- The weight and the colour of a piece of text, as the codes that turn them on. -/
structure Style where
  codes : List String
  deriving DecidableEq, Repr

namespace Style

/-- Green and bold. -/
def success : Style := ⟨["1", "32"]⟩

/-- Yellow and bold. -/
def warning : Style := ⟨["1", "33"]⟩

/-- Red and bold. -/
def failure : Style := ⟨["1", "31"]⟩

/-- White and bold. -/
def title : Style := ⟨["1", "97"]⟩

/-- Bold. -/
def bold : Style := ⟨["1"]⟩

/-- Dimmed. -/
def dimmed : Style := ⟨["2"]⟩

/-- Red. -/
def red : Style := ⟨["31"]⟩

/-- Yellow. -/
def yellow : Style := ⟨["33"]⟩

/-- Blue. -/
def blue : Style := ⟨["34"]⟩

/-- Cyan. -/
def cyan : Style := ⟨["36"]⟩

/-- Bright blue. -/
def note : Style := ⟨["94"]⟩

/-- The code that ends all styles. -/
def reset : String := "\x1b[0m"

/-- The code that begins a style. -/
def opening (s : Style) : String := "\x1b[" ++ ";".intercalate s.codes ++ "m"

/-- Begins a style again wherever a text ends it: `skip` counts characters of a code that was found. -/
def renew (opening : List Char) : (skip : Nat) → List Char → List Char
  | _, [] => []
  | skip + 1, c :: cs => c :: (if skip = 0 then opening else []) ++ renew opening skip cs
  | 0, c :: cs =>
      if reset.toList.isPrefixOf (c :: cs) then c :: renew opening 3 cs
      else c :: renew opening 0 cs

/-- A text in a style, if colours are shown. -/
def paint (s : Style) (colors : Bool) (text : String) : String :=
  if colors then s.opening ++ String.ofList (renew s.opening.toList 0 text.toList) ++ reset else text

end Style

end StyleAudit.Report
