import Mathlib
import StyleAudit.Files.Path

/-! # The order of paths

Paths sort by their parts: by the kinds of the parts first, and names by their characters. This is a
linear order of the lists of parts.

* **`Part.key`** — what a part is sorted by.
* **`partsLe_eq`** — paths sort as their keys do.
* **`pairwise_lt_mergeSort`** — sorting by a key that tells all elements apart.
* **`sublist_of_pairwise_lt`** — sorted lists of which one has the elements of the other. -/

namespace StyleAudit.Files

/-- What a part is sorted by. -/
def Part.key (p : Part) : ℕ ×ₗ String := toLex (p.rank, p.label)

/-- Parts are told apart by their keys. -/
theorem Part.key_injective : Function.Injective Part.key := by
  intro p q h
  obtain ⟨hrank, hlabel⟩ := Prod.mk.inj (toLex.injective h)
  cases p with
  | name s =>
      cases q with
      | name t => exact congrArg Part.name hlabel
      | _ => cases hrank
  | _ =>
      cases q with
      | name t => cases hrank
      | _ => first | rfl | cases hrank

/-- A part sorts before another when its key does. -/
theorem Part.before_iff {p q : Part} : p.before q = true ↔ p.key < q.key := by
  rw [Part.key, Part.key, Prod.Lex.toLex_lt_toLex, Part.before]
  simp

/-- What a path is sorted by. -/
def partsKey (ps : List Part) : List (ℕ ×ₗ String) := ps.map Part.key

@[simp] theorem partsKey_cons (p : Part) (ps : List Part) :
    partsKey (p :: ps) = p.key :: partsKey ps := rfl

/-- Lists of parts are told apart by their keys. -/
theorem partsKey_injective : Function.Injective partsKey :=
  List.map_injective_iff.2 Part.key_injective

/-- **Paths sort as their keys do.** -/
theorem partsLe_eq (ps qs : List Part) : partsLe ps qs = decide (partsKey ps ≤ partsKey qs) := by
  rw [Bool.eq_iff_iff, decide_eq_true_iff]
  induction ps generalizing qs with
  | nil =>
      have hle : partsKey [] ≤ partsKey qs := not_lt.1 (List.not_lt_nil (partsKey qs))
      simp [partsLe, hle]
  | cons p ps ih =>
      cases qs with
      | nil =>
          have hlt : partsKey [] < p.key :: partsKey ps := List.nil_lt_cons p.key (partsKey ps)
          simp [partsLe, hlt]
      | cons q qs =>
          -- either the first parts differ, or they are the same and the rest decides
          rw [partsLe, Bool.or_eq_true, Bool.and_eq_true, beq_iff_eq, Part.before_iff, ih qs,
            partsKey_cons, partsKey_cons, le_iff_lt_or_eq, le_iff_lt_or_eq,
            List.cons_lt_cons_iff, List.cons.injEq, Part.key_injective.eq_iff]
          tauto

/-- **Sorting by a key that tells all elements apart** leaves no ties. -/
theorem pairwise_lt_mergeSort {α β : Type} [LinearOrder β] {key : α → β} {l : List α}
    (h : l.Pairwise fun a b => key a ≠ key b) :
    (l.mergeSort fun a b => decide (key a ≤ key b)).Pairwise fun a b => key a < key b := by
  have hsorted := @List.pairwise_mergeSort α (fun a b => decide (key a ≤ key b))
    (fun a b c => by simpa using le_trans) (fun a b => by simpa using le_total (key a) (key b)) l
  have hapart := ((l.mergeSort_perm fun a b => decide (key a ≤ key b)).pairwise_iff
    fun {_ _} hab => Ne.symm hab).2 h
  refine (hsorted.and hapart).imp fun {a b} hab => ?_
  exact lt_of_le_of_ne (of_decide_eq_true hab.1) hab.2

/-- **A sorted list without ties** is a part of each that has its elements. -/
theorem sublist_of_pairwise_lt {α β : Type} [Preorder β] {key : α → β} {l l' : List α}
    (h : l.Pairwise fun a b => key a < key b) (h' : l'.Pairwise fun a b => key a < key b)
    (hsubset : l' ⊆ l) : l'.Sublist l := by
  have hantisymm : Std.Antisymm fun a b => key a < key b := ⟨fun a b hab hba => absurd hab hba.asymm⟩
  have hnodup : l'.Nodup := h'.imp fun {a b} hab heq => absurd (heq ▸ hab) (lt_irrefl _)
  exact List.sublist_of_subperm_of_pairwise (List.subperm_of_subset hnodup hsubset) h' h

end StyleAudit.Files
