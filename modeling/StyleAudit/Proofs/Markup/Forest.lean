import Mathlib
import StyleAudit.Proofs.Selector.Usage

/-! # From the nodes of a document to its elements

A document is a table of nodes that refer to each other by number. Its elements are unfolded from the
table to a depth of as many nodes as there are, which is deep enough: on the shortest way from the
document to a node no node comes twice.

* **`Dom.Below`** — a node that child links lead to from the document.
* **`Dom.exists_below_le`** — the shortest way to a node.
* **`Dom.occurs_of_below`**, **`Dom.below_of_occurs`** — the elements of a document are these nodes. -/

namespace StyleAudit.Markup

/-- An element stands in a forest if it stands in an element of it. -/
theorem Occurs.of_mem_children {forest : List Element} {parent e : Element}
    (h : Occurs forest parent) (he : e ∈ parent.children) : Occurs forest e := by
  induction h with
  | top hparent => exact .inside hparent (.top he)
  | inside houter _ ih => exact .inside houter (ih he)

namespace Dom

variable {d : Dom} {depth id : ℕ}

/-- A node as an element, without the elements in it. -/
def element (d : Dom) (id : ℕ) : Element := .mk (d.node id).name (d.node id).attributes []

/-- Child links lead from the document to a node, over so many nodes in between. -/
inductive Below (d : Dom) : (depth id : ℕ) → Prop
  | child {id : ℕ} (h : id ∈ (d.node root).children) : Below d 0 id
  | inside {depth parent id : ℕ} (hparent : Below d depth parent)
      (h : id ∈ (d.node parent).children) : Below d (depth + 1) id

/-! ## The shortest way to a node -/

/-- A node with children is in the table. -/
theorem lt_size_of_mem_children {c : ℕ} (h : c ∈ (d.node id).children) : id < d.nodes.size := by
  by_contra hout
  have hnone : d.node id = ⟨"", [], [], none⟩ := by
    rw [node, Array.getD_eq_getD_getElem?, Array.getElem?_eq_none (not_lt.1 hout)]
    rfl
  rw [hnone] at h
  cases h

/-- On the shortest way to a node stands, at every depth, a node of the table to which no shorter way
leads. -/
theorem exists_on_shortest (h : d.Below depth id) (hleast : ∀ k < depth, ¬ d.Below k id) :
    ∀ k < depth, ∃ p < d.nodes.size, d.Below k p ∧ ∀ j < k, ¬ d.Below j p := by
  induction h with
  | child _ =>
      intro k hk
      exact absurd hk (Nat.not_lt_zero k)
  | @inside depth parent id hparent hid ih =>
      intro k hk
      have hparentLeast : ∀ j < depth, ¬ d.Below j parent := by
        intro j hj hbelow
        exact hleast (j + 1) (by omega) (.inside hbelow hid)
      -- on this way the parent stands last, and before it what stands on its own shortest way
      rcases Nat.lt_succ_iff_lt_or_eq.1 hk with hk | rfl
      · exact ih hparentLeast k hk
      · exact ⟨parent, lt_size_of_mem_children hid, hparent, hparentLeast⟩

/-- **The shortest way to a node** is no longer than the table. -/
theorem exists_below_le (h : d.Below depth id) : ∃ k ≤ d.nodes.size, d.Below k id := by
  classical
  have hexists : ∃ k, d.Below k id := ⟨depth, h⟩
  refine ⟨Nat.find hexists, ?_, Nat.find_spec hexists⟩
  have hway := exists_on_shortest (Nat.find_spec hexists) fun k hk => Nat.find_min hexists hk
  choose! place hsize hbelow hleast using hway
  -- no node comes twice on this way, since its depth is the least one
  have hinj : Set.InjOn place (Finset.range (Nat.find hexists)) := by
    intro i hi j hj hij
    rw [Finset.coe_range, Set.mem_Iio] at hi hj
    rcases Nat.lt_trichotomy i j with hlt | heq | hgt
    · exact absurd (hij ▸ hbelow i hi) (hleast j hj i hlt)
    · exact heq
    · exact absurd (hij ▸ hbelow j hj) (hleast i hi j hgt)
  have hmaps : Set.MapsTo place (Finset.range (Nat.find hexists)) (Finset.range d.nodes.size) := by
    intro k hk
    rw [Finset.coe_range, Set.mem_Iio] at hk ⊢
    exact hsize k hk
  simpa using Finset.card_le_card_of_injOn place hmaps hinj

/-! ## The elements of a document -/

/-- The tree below a node has the name and the attributes of the node. -/
theorem own_treeFrom (d : Dom) (fuel id : ℕ) : (d.treeFrom fuel id).own = (d.element id).own := by
  cases fuel <;> rfl

/-- A node that is not too deep is unfolded, with the nodes in it as far as they are not. -/
theorem occurs_treeFrom (h : d.Below depth id) (hdepth : depth ≤ d.nodes.size) :
    Occurs d.forest (d.treeFrom (d.nodes.size - depth) id) := by
  induction h with
  | child hid => exact .top (List.mem_map.2 ⟨_, hid, rfl⟩)
  | @inside depth parent id _ hid ih =>
      -- the parent is unfolded one level deeper
      have hfuel : d.nodes.size - depth = (d.nodes.size - (depth + 1)) + 1 := by omega
      have hparent := ih (by omega)
      rw [hfuel, treeFrom] at hparent
      exact hparent.of_mem_children (List.mem_map.2 ⟨id, hid, rfl⟩)

/-- **What child links lead to** is an element of the document. -/
theorem occurs_of_below (h : d.Below depth id) :
    ∃ e, Occurs d.forest e ∧ e.own = (d.element id).own := by
  obtain ⟨k, hk, hbelow⟩ := exists_below_le h
  exact ⟨_, occurs_treeFrom hbelow hk, own_treeFrom d _ id⟩

/-- The elements in trees below nodes are trees below nodes. -/
theorem exists_treeFrom_of_occurs {forest : List Element} {e : Element} (he : Occurs forest e)
    (hforest : ∀ x ∈ forest, ∃ fuel depth id, x = d.treeFrom fuel id ∧ d.Below depth id) :
    ∃ fuel depth id, e = d.treeFrom fuel id ∧ d.Below depth id := by
  induction he with
  | top hmem => exact hforest _ hmem
  | inside hparent _ ih =>
      obtain ⟨fuel, depth, id, rfl, hbelow⟩ := hforest _ hparent
      apply ih
      intro x hx
      cases fuel with
      | zero => cases hx
      | succ fuel =>
          obtain ⟨c, hc, rfl⟩ := List.mem_map.1 hx
          exact ⟨fuel, depth + 1, c, rfl, .inside hbelow hc⟩

/-- **An element of the document** is a node that child links lead to. -/
theorem below_of_occurs {e : Element} (he : Occurs d.forest e) :
    ∃ fuel depth id, e = d.treeFrom fuel id ∧ d.Below depth id := by
  apply exists_treeFrom_of_occurs he
  intro x hx
  obtain ⟨c, hc, rfl⟩ := List.mem_map.1 hx
  exact ⟨_, 0, c, rfl, .child hc⟩

end Dom

end StyleAudit.Markup
