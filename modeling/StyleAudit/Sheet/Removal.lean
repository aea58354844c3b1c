import StyleAudit.Sheet.Extent

/-! # Removing selectors

A rule goes only when every entry of its selector list goes. A rule that keeps an entry keeps its
block, and its selector list is made anew from the entries that stay, as they were written.

* **`planRemoval targets text`** — the edits that remove every selector of a set.
* **`planSingleRemoval selector text target`** — the edit that removes a selector from the rule that
  holds `target`. -/

namespace StyleAudit.Sheet

/-- What stands between the first two entries of a selector list. -/
def separator (text : List Char) (r : Rule) : List Char :=
  match r.others with
  | second :: _ => Text.slice r.lead.span.stop second.span.start text
  | [] => [',', ' ']

/-- Replaces the selector list of `r` by the entries that `keep` accepts, as they were written, with
what separates the first two entries between them. -/
def shortenList (text : List Char) (r : Rule) (keep : String → Bool) : Edit :=
  let kept := (r.entries.filter (keep ·.text)).map fun e =>
    Text.slice e.span.start e.span.stop text
  ⟨r.prelude, String.ofList ((separator text r).intercalate kept)⟩

/-- The edits that remove every selector of `targets`, by position. -/
def planRemoval (targets : SelectorSet) (text : String) : List Edit :=
  let deletions := locateAll targets text
  let shortened := (closedRules text).filter fun r =>
    r.partlyTargeted targets && !deletions.any (·.contains r.prelude)
  (deletions.map Edit.delete ++
      shortened.map (shortenList text.toList · fun s => !decide (s ∈ targets))).mergeSort
    (fun a b => a.span.start ≤ b.span.start)

/-- The edit that removes `selector` from the first rule that declares it and whose extent holds
`target`. -/
def planSingleRemoval (selector text : String) (target : Span) : List Edit :=
  let chars := text.toList
  match (closedRules text).find? fun r =>
      r.declares selector && (extent chars r).contains target with
  | none => []
  | some r =>
      if r.entries.all (·.text == selector) then [.delete (extent chars r)]
      else [shortenList chars r (· != selector)]

end StyleAudit.Sheet
