/-! # Selector sets

Selectors are compared as texts: `.class`, `#id` and `tag`. A set of them is kept in the order of
its members' code points, each member once, so that two sets with the same members are equal.

* **`SelectorSet.ofList`, `insert`, `union`, `filter`** — building sets.
* **`SelectorSet.mem_insert`, `mem_ofList`, …** — one membership law per operation.
* **`SelectorSet.ext`** — sets with the same members are equal. -/

namespace StyleAudit

/-- A set of selector texts, in strictly increasing order. -/
structure SelectorSet where
  toList : List String
  sorted : toList.Pairwise (· < ·)
  deriving DecidableEq

namespace SelectorSet

instance : Membership String SelectorSet := ⟨fun s x => x ∈ s.toList⟩

instance (x : String) (s : SelectorSet) : Decidable (x ∈ s) :=
  inferInstanceAs (Decidable (x ∈ s.toList))

instance : Inhabited SelectorSet := ⟨⟨[], .nil⟩⟩

/-- Membership is membership in the list of members. -/
theorem mem_iff {x : String} {s : SelectorSet} : x ∈ s ↔ x ∈ s.toList := Iff.rfl

/-- The set without members. -/
def empty : SelectorSet := ⟨[], .nil⟩

instance : EmptyCollection SelectorSet := ⟨empty⟩

/-- The set without members has none. -/
@[simp] theorem not_mem_empty {x : String} : x ∉ empty := by simp [mem_iff, empty]

/-- Puts `x` at its place in an increasing list, unless it is there already. -/
def insertSorted (x : String) : List String → List String
  | [] => [x]
  | y :: ys => if x < y then x :: y :: ys else if x = y then y :: ys else y :: insertSorted x ys

/-- The members of a list after an insertion. -/
theorem mem_insertSorted {x z : String} {ys : List String} :
    z ∈ insertSorted x ys ↔ z = x ∨ z ∈ ys := by
  induction ys with
  | nil => simp [insertSorted]
  | cons y ys ih =>
      unfold insertSorted
      split
      · simp
      · split
        · rename_i h; subst h; simp
        · simp only [List.mem_cons, ih]
          constructor <;> (rintro (h | h | h) <;> simp [h])

/-- Insertion keeps an increasing list increasing. -/
theorem pairwise_insertSorted {x : String} {ys : List String} (h : ys.Pairwise (· < ·)) :
    (insertSorted x ys).Pairwise (· < ·) := by
  induction ys with
  | nil => simp [insertSorted]
  | cons y ys ih =>
      rw [List.pairwise_cons] at h
      unfold insertSorted
      split
      · rename_i hxy
        refine List.pairwise_cons.2 ⟨?_, List.pairwise_cons.2 h⟩
        intro z hz
        rcases List.mem_cons.1 hz with rfl | hz
        · exact hxy
        · exact String.lt_trans hxy (h.1 z hz)
      · split
        · exact List.pairwise_cons.2 h
        · rename_i hlt hne
          refine List.pairwise_cons.2 ⟨?_, ih h.2⟩
          intro z hz
          rcases mem_insertSorted.1 hz with rfl | hz
          · rcases Decidable.em (y < z) with hyz | hyz
            · exact hyz
            · exact absurd (String.le_antisymm (String.not_lt.1 hyz) (String.not_lt.1 hlt)) hne
          · exact h.1 z hz

/-- `s` with the member `x`. -/
def insert (x : String) (s : SelectorSet) : SelectorSet :=
  ⟨insertSorted x s.toList, pairwise_insertSorted s.sorted⟩

/-- The members after an insertion. -/
@[simp] theorem mem_insert {x z : String} {s : SelectorSet} : z ∈ s.insert x ↔ z = x ∨ z ∈ s :=
  mem_insertSorted

/-- The set of the members of a list. -/
def ofList : List String → SelectorSet
  | [] => empty
  | x :: xs => (ofList xs).insert x

/-- The members of the set of a list are those of the list. -/
@[simp] theorem mem_ofList {z : String} {xs : List String} : z ∈ ofList xs ↔ z ∈ xs := by
  induction xs with
  | nil => simp [ofList]
  | cons x xs ih => simp [ofList, ih]

/-- The members of either set. -/
def union (s t : SelectorSet) : SelectorSet := s.toList.foldr insert t

/-- The members of a union. -/
@[simp] theorem mem_union {z : String} {s t : SelectorSet} : z ∈ s.union t ↔ z ∈ s ∨ z ∈ t := by
  unfold union
  rw [mem_iff (s := s)]
  induction s.toList with
  | nil => simp
  | cons x xs ih => simp [ih, or_assoc]

/-- The members that satisfy `p`. -/
def filter (p : String → Bool) (s : SelectorSet) : SelectorSet :=
  ⟨s.toList.filter p, s.sorted.filter p⟩

/-- The members of a filtered set. -/
@[simp] theorem mem_filter {p : String → Bool} {z : String} {s : SelectorSet} :
    z ∈ s.filter p ↔ z ∈ s ∧ p z := by
  simp [filter, mem_iff]

/-- The number of members. -/
def size (s : SelectorSet) : Nat := s.toList.length

/-- Whether a set has no member. -/
def isEmpty (s : SelectorSet) : Bool := s.toList.isEmpty

/-- Two increasing lists with the same members are equal. -/
theorem eq_of_mem_iff : ∀ {xs ys : List String}, xs.Pairwise (· < ·) → ys.Pairwise (· < ·) →
    (∀ z, z ∈ xs ↔ z ∈ ys) → xs = ys
  | [], [], _, _, _ => rfl
  | [], y :: ys, _, _, h => absurd ((h y).2 (by simp)) (by simp)
  | x :: xs, [], _, _, h => absurd ((h x).1 (by simp)) (by simp)
  | x :: xs, y :: ys, hx, hy, h => by
      rw [List.pairwise_cons] at hx hy
      have hxy : x = y := by
        rcases List.mem_cons.1 ((h x).1 (by simp)) with e | hmem
        · exact e
        · rcases List.mem_cons.1 ((h y).2 (by simp)) with e | hmem'
          · exact e.symm
          · exact absurd (String.lt_trans (hy.1 x hmem) (hx.1 y hmem')) (String.lt_irrefl y)
      subst hxy
      congr 1
      refine eq_of_mem_iff hx.2 hy.2 fun z => ?_
      constructor
      · intro hz
        rcases List.mem_cons.1 ((h z).1 (List.mem_cons_of_mem _ hz)) with e | hz'
        · exact absurd (e ▸ hx.1 z hz) (String.lt_irrefl x)
        · exact hz'
      · intro hz
        rcases List.mem_cons.1 ((h z).2 (List.mem_cons_of_mem _ hz)) with e | hz'
        · exact absurd (e ▸ hy.1 z hz) (String.lt_irrefl x)
        · exact hz'

/-- Sets with the same members are equal. -/
@[ext] theorem ext {s t : SelectorSet} (h : ∀ z, z ∈ s ↔ z ∈ t) : s = t := by
  obtain ⟨xs, hx⟩ := s
  obtain ⟨ys, hy⟩ := t
  congr 1
  exact eq_of_mem_iff hx hy h

end SelectorSet

end StyleAudit
