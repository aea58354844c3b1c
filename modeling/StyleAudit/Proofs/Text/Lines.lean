import Mathlib
import StyleAudit.Text.Lines

/-! # Finding a line

The offsets that lines begin at are in order, so the search by halves among them comes upon the last one
that does not lie behind an offset. A search that hits and one that misses lead to the same line: what
is missed belongs one index later, and the line is the one before it.

* **`narrow_eq`** — the search narrows to the last number that is not greater.
* **`search_eq`** — where a search hits, and what it misses by.
* **`lineIndex_eq`** — lines are numbered by the line breaks before them.
* **`lineStart_eq`** — a line begins at the last line break up to its offsets. -/

namespace StyleAudit.Text

/-! ## Searching by halves -/

section

variable {xs : List Nat} {x : Nat}

/-- If the first number of an ordered list is greater than `x`, all of them are. -/
theorem countP_eq_zero_of_lt {y : Nat} (hxs : (y :: xs).Pairwise (· ≤ ·)) (hy : x < y) :
    xs.countP (· ≤ x) = 0 := by
  refine List.countP_eq_zero.2 fun z hz => ?_
  have := (List.pairwise_cons.1 hxs).1 z hz
  rw [decide_eq_true_iff]
  omega

/-- **The numbers up to `x`** are the first ones of an ordered list. -/
theorem getD_le_iff (hxs : xs.Pairwise (· ≤ ·)) {i : Nat} (hi : i < xs.length) :
    xs.getD i 0 ≤ x ↔ i < xs.countP (· ≤ x) := by
  induction xs generalizing i with
  | nil => simp at hi
  | cons y ys ih =>
      by_cases hy : y ≤ x
      · rw [List.countP_cons_of_pos (by simpa using hy)]
        cases i with
        | zero => simp [hy]
        | succ i =>
            rw [List.getD_cons_succ, ih hxs.of_cons (by simpa using hi)]
            omega
      · rw [List.countP_cons_of_neg (by simpa using hy), countP_eq_zero_of_lt hxs (by omega)]
        have hmem : (y :: ys).getD i 0 ∈ y :: ys := by
          rw [List.getD_eq_getElem _ _ hi]
          exact List.getElem_mem hi
        have hle : y ≤ (y :: ys).getD i 0 := by
          rcases List.mem_cons.1 hmem with heq | hmem
          · exact heq.ge
          · exact (List.pairwise_cons.1 hxs).1 _ hmem
        omega

/-- **A stretch is narrowed to the last number up to `x`**, which lies in it at every step; to the first
number of all if each is greater. -/
theorem narrow_eq (hxs : xs.Pairwise (· ≤ ·)) {base size : Nat} (hsize : 0 < size)
    (hfits : base + size ≤ xs.length) (hlow : base ≤ xs.countP (· ≤ x) - 1)
    (hhigh : xs.countP (· ≤ x) ≤ base + size) :
    narrow xs x base size = xs.countP (· ≤ x) - 1 := by
  fun_induction narrow xs x base size with
  | case1 base size hmore half middle hgreater ih =>
      -- the number that is looked for lies in front of the middle
      have hmiddle := @getD_le_iff xs x hxs middle (by omega)
      exact ih (by omega) (by omega) hlow (by omega)
  | case2 base size hmore half middle hgreater ih =>
      have hmiddle := @getD_le_iff xs x hxs middle (by omega)
      exact ih (by omega) (by omega) (by omega) (by omega)
  | case3 base size hone => omega

/-- The last number up to one that is in an ordered list is that number. -/
theorem getD_countP (hxs : xs.Pairwise (· ≤ ·)) (hx : x ∈ xs) :
    xs.getD (xs.countP (· ≤ x) - 1) 0 = x := by
  obtain ⟨i, hi, hget⟩ := List.getElem_of_mem hx
  have hcount : xs.countP (· ≤ x) ≤ xs.length := List.countP_le_length
  have hbefore : i < xs.countP (· ≤ x) :=
    (getD_le_iff hxs hi).1 (by rw [List.getD_eq_getElem _ _ hi, hget])
  have hindex : xs.countP (· ≤ x) - 1 < xs.length := by omega
  refine Nat.le_antisymm ((getD_le_iff hxs hindex).2 (by omega)) ?_
  rw [List.getD_eq_getElem _ _ hindex]
  calc x = xs[i] := hget.symm
    _ ≤ xs[xs.countP (· ≤ x) - 1] := by
        rcases Nat.lt_or_ge i (xs.countP (· ≤ x) - 1) with hlt | hge
        · exact List.pairwise_iff_getElem.1 hxs i _ hi hindex hlt
        · simp only [show i = xs.countP (· ≤ x) - 1 by omega, le_refl]

/-- **What a search finds** in an ordered list: the last index of a number that is in it; for any other
number, how many are smaller. -/
theorem search_eq (hxs : xs.Pairwise (· ≤ ·)) (x : Nat) :
    search xs x =
      if x ∈ xs then .ok (xs.countP (· ≤ x) - 1) else .error (xs.countP (· ≤ x)) := by
  rw [search]
  by_cases hnil : xs = []
  · simp [hnil]
  have hlength : 0 < xs.length := List.length_pos_of_ne_nil hnil
  have hcount : xs.countP (· ≤ x) ≤ xs.length := List.countP_le_length
  have hindex : xs.countP (· ≤ x) - 1 < xs.length := by omega
  rw [if_neg (by simpa using hnil), narrow_eq hxs hlength (by omega) (by omega) (by omega)]
  by_cases hx : x ∈ xs
  · simp only [if_pos (getD_countP hxs hx), if_pos hx]
  · have hne : xs.getD (xs.countP (· ≤ x) - 1) 0 ≠ x := by
      rw [List.getD_eq_getElem _ _ hindex]
      exact fun heq => hx (heq ▸ List.getElem_mem hindex)
    have hle := @getD_le_iff xs x hxs _ hindex
    simp only [if_neg hne, if_neg hx]
    -- the number that is found is smaller, or all are greater and there is none before it
    split
    · rw [Nat.sub_add_cancel (by omega)]
    · congr 1
      omega

end

/-! ## Line starts -/

/-- Line breaks lie after the start of their text and no later than its end. -/
theorem mem_breaksFrom {start n : Nat} {cs : List Char} (h : n ∈ breaksFrom start cs) :
    start < n ∧ n ≤ start + byteSize cs := by
  induction cs generalizing start with
  | nil => simp [breaksFrom] at h
  | cons c cs ih =>
      have hpos := c.utf8Size_pos
      rw [byteSize_cons]
      have hrest : n ∈ breaksFrom (start + c.utf8Size) cs →
          start < n ∧ n ≤ start + (c.utf8Size + byteSize cs) := by
        intro hn
        have := ih hn
        omega
      simp only [breaksFrom] at h
      split at h
      · rcases List.mem_cons.1 h with rfl | hn
        · omega
        · exact hrest hn
      · exact hrest h

/-- **Line breaks are in order.** -/
theorem pairwise_breaksFrom (start : Nat) (cs : List Char) :
    (breaksFrom start cs).Pairwise (· < ·) := by
  induction cs generalizing start with
  | nil => exact .nil
  | cons c cs ih =>
      simp only [breaksFrom]
      split
      · exact .cons (fun n hn => (mem_breaksFrom hn).1) (ih _)
      · exact ih _

/-- Lines begin one after the other. -/
theorem pairwise_lineStarts (cs : List Char) : (lineStarts cs).Pairwise (· < ·) :=
  .cons (fun _ hn => (mem_breaksFrom hn).1) (pairwise_breaksFrom 0 cs)

/-- The number of line breaks before or at offset `n`. -/
def breaksUpTo (n : Nat) (cs : List Char) : Nat := ((breaksFrom 0 cs).filter (· ≤ n)).length

/-- There is one line more than there are line breaks. -/
theorem countP_lineStarts (n : Nat) (cs : List Char) :
    (lineStarts cs).countP (· ≤ n) = breaksUpTo n cs + 1 := by
  rw [lineStarts, List.countP_cons_of_pos (by simp), List.countP_eq_length_filter, breaksUpTo]

/-- Where the search for the line of an offset ends: the line begins there, or the next one would. -/
theorem search_lineStarts (n : Nat) (cs : List Char) :
    search (lineStarts cs) n = .ok (breaksUpTo n cs) ∨
      search (lineStarts cs) n = .error (breaksUpTo n cs + 1) := by
  rw [search_eq ((pairwise_lineStarts cs).imp Nat.le_of_lt), countP_lineStarts]
  split
  · exact .inl rfl
  · exact .inr rfl

/-- **Lines are numbered by the line breaks before them**, whether an offset begins a line or not. -/
theorem lineIndex_eq (n : Nat) (cs : List Char) : lineIndex n cs = breaksUpTo n cs := by
  rw [lineIndex]
  rcases search_lineStarts n cs with hhit | hmiss
  · rw [hhit]
  · rw [hmiss]
    rfl

/-- The line of an offset is one of the lines. -/
theorem lineIndex_lt (n : Nat) (cs : List Char) : lineIndex n cs < (lineStarts cs).length := by
  have hcount : (lineStarts cs).countP (· ≤ n) ≤ (lineStarts cs).length := List.countP_le_length
  rw [countP_lineStarts] at hcount
  rw [lineIndex_eq]
  omega

/-- The line of an offset begins where the line with its number does. -/
theorem lineStart_eq_getD (n : Nat) (cs : List Char) :
    lineStart n cs = (lineStarts cs).getD (lineIndex n cs) 0 := by
  rw [lineStart, lineIndex]
  cases search (lineStarts cs) n <;> rfl

/-- Counted off an ordered list, the numbers up to `n` end with the last of them. -/
theorem getD_length_filter {xs : List Nat} (hxs : xs.Pairwise (· < ·)) (n a : Nat) :
    (a :: xs).getD (xs.filter (· ≤ n)).length 0 = (xs.filter (· ≤ n)).getLast?.getD a := by
  induction xs generalizing a with
  | nil => rfl
  | cons y ys ih =>
      by_cases hy : y ≤ n
      · rw [List.filter_cons_of_pos (by simpa using hy), List.length_cons, List.getD_cons_succ,
          ih hxs.of_cons, List.getLast?_cons]
        rfl
      · have hnone : (y :: ys).filter (· ≤ n) = [] := by
          rw [List.filter_eq_nil_iff]
          intro z hz
          rcases List.mem_cons.1 hz with rfl | hz
          · simpa using hy
          · have := (List.pairwise_cons.1 hxs).1 z hz
            simp only [decide_eq_true_eq]
            omega
        rw [hnone]
        rfl

/-- **A line begins at the last line break** up to its offsets, or with the text. -/
theorem lineStart_eq (n : Nat) (cs : List Char) :
    lineStart n cs = ((breaksFrom 0 cs).filter (· ≤ n)).getLast?.getD 0 := by
  rw [lineStart_eq_getD, lineIndex_eq]
  exact getD_length_filter (pairwise_breaksFrom 0 cs) n 0

end StyleAudit.Text
