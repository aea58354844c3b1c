import Mathlib
import StyleAudit.Files.Kind
import StyleAudit.Proofs.Text.Words

/-! # What scripts and components use

The selectors of a syntax tree are gathered at its nodes. All that a component uses, and all that a
script uses but for the strings that it passes to `document.querySelector`, are names with or without
a mark in front.

* **`Tree.Inside`** — a tree stands in another one.
* **`Tree.mem_gather`** — what is gathered is what is found at a node.
* **`Tree.Queries`** — a string is passed to `document.querySelector`.
* **`mem_usedByScript`**, **`mem_usedByComponent`** — what a script and a component use. -/

namespace StyleAudit

open Text

/-- A selector that is a name, or a name after a class or id mark. -/
inductive IsNamed (s : String) : Prop
  | tag (h : isName s.toList = true) : IsNamed s
  | cls {name : List Char} (h : isName name = true) (hs : s = "." ++ String.ofList name) : IsNamed s
  | id {name : List Char} (h : isName name = true) (hs : s = "#" ++ String.ofList name) : IsNamed s

/-- A selector with a name is not empty and holds no blank. -/
theorem IsNamed.isName {s : String} (h : IsNamed s) : isName s.toList = true := by
  have hmarked : ∀ {mark : Char} {name : List Char}, isBlank mark = false →
      Text.isName name = true → Text.isName (mark :: name) = true := by
    intro mark name hmark hname
    obtain ⟨-, hblank⟩ := isName_iff.1 hname
    exact isName_iff.2 ⟨List.cons_ne_nil _ _, List.forall_mem_cons.2 ⟨hmark, hblank⟩⟩
  cases h with
  | tag h => exact h
  | cls h hs => simpa [hs] using @hmarked '.' _ (by decide) h
  | id h hs => simpa [hs] using @hmarked '#' _ (by decide) h

namespace Script

namespace Tree

/-- A tree stands in another one, at any depth. -/
inductive Inside : Tree → Tree → Prop
  | self (t : Tree) : Inside t t
  | child {l : Label} {cs : List Tree} {c t : Tree} (hc : c ∈ cs) (h : Inside c t) :
      Inside (.node l cs) t

/-- What is gathered in a list of trees is gathered in one of them. -/
theorem mem_gatherAll {visit : Label → List Tree → List String} {ts : List Tree} {s : String} :
    s ∈ gatherAll visit ts ↔ ∃ t ∈ ts, s ∈ gather visit t := by
  induction ts with
  | nil => simp [gatherAll]
  | cons t ts ih => simp [gatherAll, ih]

/-- **What is gathered in a tree is found at one of its nodes.** -/
theorem mem_gather {visit : Label → List Tree → List String} {s : String} :
    ∀ {t : Tree}, s ∈ gather visit t ↔ ∃ l cs, Inside t (.node l cs) ∧ s ∈ visit l cs
  | .node l cs => by
      rw [gather, List.mem_append, mem_gatherAll]
      constructor
      · rintro (h | ⟨c, hc, h⟩)
        · exact ⟨l, cs, .self _, h⟩
        · obtain ⟨k, ds, hinside, hs⟩ := mem_gather.1 h
          exact ⟨k, ds, .child hc hinside, hs⟩
      · rintro ⟨k, ds, hinside, hs⟩
        cases hinside with
        | self => exact .inl hs
        | child hc hinside => exact .inr ⟨_, hc, mem_gather.2 ⟨k, ds, hinside, hs⟩⟩

/-- A call of `document.querySelector` with the string `value` for its first argument stands in a
tree. -/
def Queries (t : Tree) (value : String) : Prop :=
  ∃ callee first rest object others, t.Inside (.node .call (callee :: first :: rest)) ∧
    callee = .node (.member "querySelector") (.node (.name "document") object :: others) ∧
    stringValue? first = some value

end Tree

/-- The class of a name is one. -/
theorem isNamed_of_mem_classSelectors {s value : String} (h : s ∈ classSelectors value) :
    IsNamed s := by
  unfold classSelectors at h
  split at h
  · next hname => exact .cls hname (by simpa using h)
  · cases h

/-- The id of a name is one. -/
theorem isNamed_of_mem_idSelectors {s value : String} (h : s ∈ idSelectors value) :
    IsNamed s := by
  unfold idSelectors at h
  split at h
  · next hname => exact .id hname (by simpa using h)
  · cases h

/-- An attribute uses classes and ids. -/
theorem isNamed_of_mem_attributeSelectors {s key value : String}
    (h : s ∈ attributeSelectors key value) : IsNamed s := by
  unfold attributeSelectors at h
  split at h
  · obtain ⟨w, hw, rfl⟩ := List.mem_map.1 h
    exact .cls (isName_of_mem_words hw) rfl
  · split at h
    · exact isNamed_of_mem_idSelectors h
    · cases h

/-- What a method of the document uses: an id, or the whole of a string that is not blank. -/
theorem mem_documentSelectors {s method value : String} (h : s ∈ documentSelectors method value) :
    IsNamed s ∨ (method = "querySelector" ∧ s = value ∧ trim s.toList ≠ []) := by
  unfold documentSelectors at h
  split at h
  · exact .inl (isNamed_of_mem_idSelectors h)
  · split at h
    · next hmethod =>
      split at h
      · cases h
      · next hvisible =>
        obtain rfl := List.mem_singleton.1 h
        exact .inr ⟨hmethod, rfl, by simpa using hvisible⟩
    · cases h

/-- What a call uses: classes and ids, or the string of a query. -/
theorem mem_visitCall {s : String} {l : Label} {cs : List Tree} (h : s ∈ visitCall l cs) :
    IsNamed s ∨ ((Tree.node l cs).Queries s ∧ trim s.toList ≠ []) := by
  unfold visitCall at h
  split at h
  · next callee args =>
    unfold callSelectors at h
    split at h
    · split at h
      · obtain ⟨value, -, hs⟩ := List.mem_flatMap.1 h
        exact .inl (isNamed_of_mem_classSelectors hs)
      · cases h
    · next method object others rest _ =>
      split at h
      · next hobject =>
        split at h
        · next first args =>
          cases hvalue : stringValue? first with
          | none => simp [hvalue] at h
          | some value =>
              simp only [hvalue, Option.map_some, Option.getD_some] at h
              rcases mem_documentSelectors h with hs | ⟨hmethod, rfl, hvisible⟩
              · exact .inl hs
              · subst hobject hmethod
                exact .inr ⟨⟨_, first, args, _, _, .self _, rfl, hvalue⟩, hvisible⟩
        · cases h
      · cases h
    · cases h
  · cases h

/-- A component uses names only. -/
theorem isNamed_of_mem_visitElement {s : String} {l : Label} {cs : List Tree}
    (h : s ∈ visitElement l cs) : IsNamed s := by
  unfold visitElement at h
  split at h
  · next tag =>
    cases tag with
    | none => cases h
    | some tag =>
        obtain rfl := List.mem_singleton.1 h
        exact .tag tag.isName
  · exact isNamed_of_mem_attributeSelectors h
  · cases h

/-- A query in a part of a tree is a query in the tree. -/
theorem Tree.Queries.of_inside {t u : Tree} {value : String} (htu : t.Inside u)
    (h : u.Queries value) : t.Queries value := by
  obtain ⟨callee, first, rest, object, others, hinside, h⟩ := h
  refine ⟨callee, first, rest, object, others, ?_, h⟩
  induction htu with
  | self => exact hinside
  | child hc _ ih => exact .child hc (ih hinside)

/-- **What a script uses**: names, and the strings of its queries. -/
theorem mem_usedByScript {text s : String} (h : s ∈ usedByScript text) :
    IsNamed s ∨ ∃ tree, parse? false text.toList = some tree ∧ tree.Queries s ∧
      trim s.toList ≠ [] := by
  unfold usedByScript at h
  split at h
  · next tree htree =>
    rw [SelectorSet.mem_ofList, Tree.mem_gather] at h
    obtain ⟨l, cs, hinside, hs⟩ := h
    rcases mem_visitCall hs with hs | ⟨hquery, hvisible⟩
    · exact .inl hs
    · exact .inr ⟨tree, htree, hquery.of_inside hinside, hvisible⟩
  · exact absurd h SelectorSet.not_mem_empty

/-- **What a component uses**: names. -/
theorem mem_usedByComponent {text s : String} (h : s ∈ usedByComponent text) : IsNamed s := by
  unfold usedByComponent at h
  split at h
  · rw [SelectorSet.mem_ofList, Tree.mem_gather] at h
    obtain ⟨l, cs, -, hs⟩ := h
    exact isNamed_of_mem_visitElement hs
  · exact absurd h SelectorSet.not_mem_empty

end Script

end StyleAudit
