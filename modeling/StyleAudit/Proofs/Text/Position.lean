import Mathlib
import StyleAudit.Proofs.Text.Encoding
import StyleAudit.Proofs.Text.Lines

/-! # Lines and positions

A line begins at the start of its text and after each newline byte. The position of an offset is told
by the bytes before it: their newlines give the line, and what follows the last of them the column. As
long as lines and columns can be counted in 32 bits, a later offset has a later position, and a
position leads back to its offset. An offset may lie past the end of the text.

* **`breaksFrom_eq`** — lines break after the newline bytes.
* **`breaksUpTo_eq_count`** — the lines before an offset are counted by newline bytes.
* **`isGreatest_lineStart`** — the line of an offset begins at the last line start before it.
* **`getElem?_lineStarts`** — the number of a line leads to its start.
* **`Position.before_of_lt`** — positions keep the order of offsets.
* **`Position.of_exact`** — what a position tells. -/

namespace StyleAudit.Text

/-! ## Lines -/

/-- The byte that ends a line. -/
def newline : UInt8 := 10

/-- A line of the text begins at offset `p`. -/
def IsLineStart (text : String) (p : Nat) : Prop :=
  p = 0 ∨ text.toUTF8.toList[p - 1]? = some newline

variable {cs : List Char} {m n p : Nat}

/-- **Lines break after the newline bytes.** -/
theorem breaksFrom_eq (start : Nat) (cs : List Char) :
    breaksFrom start cs = ((encode cs).findIdxs (· == newline) start).map (· + 1) := by
  induction cs generalizing start with
  | nil => rfl
  | cons c cs ih =>
      rw [encode_cons, List.findIdxs_append, List.map_append, String.length_utf8EncodeChar, ← ih,
        breaksFrom]
      by_cases hc : c = '\n'
      · subst hc
        rfl
      · -- no byte of another character is a newline
        have hnone : (String.utf8EncodeChar c).findIdxs (· == newline) start = [] := by
          rw [List.findIdxs_eq_nil_iff]
          intro b hb
          rw [beq_eq_false_iff_ne]
          rintro rfl
          exact hc ((mem_utf8EncodeChar_iff (by decide)).1 hb)
        rw [hnone, List.map_nil, List.nil_append]
        exact if_neg hc

/-- The line breaks up to an offset come from the bytes before it. -/
theorem filter_breaksFrom (n : Nat) (cs : List Char) : (breaksFrom 0 cs).filter (· ≤ n) =
    (((encode cs).take n).findIdxs (· == newline)).map (· + 1) := by
  rw [breaksFrom_eq, ← List.take_append_drop n (encode cs), List.findIdxs_append, List.map_append,
    List.filter_append, List.take_append_drop]
  have hbefore : ∀ i ∈ (((encode cs).take n).findIdxs (· == newline)).map (· + 1),
      decide (i ≤ n) = true := by
    intro i hi
    obtain ⟨j, hj, rfl⟩ := List.mem_map.1 hi
    have hlt := List.lt_add_of_mem_findIdxs j hj
    rw [List.length_take] at hlt
    simp only [decide_eq_true_eq]
    omega
  have hafter : ∀ i ∈ (((encode cs).drop n).findIdxs (· == newline)
      (0 + ((encode cs).take n).length)).map (· + 1), ¬decide (i ≤ n) = true := by
    intro i hi
    obtain ⟨j, hj, rfl⟩ := List.mem_map.1 hi
    have hle := List.ge_of_mem_findIdxs j hj
    have hlt := List.lt_add_of_mem_findIdxs j hj
    rw [List.length_take] at hle hlt
    rw [List.length_drop] at hlt
    simp only [decide_eq_true_eq]
    omega
  rw [List.filter_eq_self.2 hbefore, List.filter_eq_nil_iff.2 hafter, List.append_nil]

/-- **The lines before an offset** are counted by the newline bytes before it. -/
theorem breaksUpTo_eq_count (n : Nat) (cs : List Char) :
    breaksUpTo n cs = ((encode cs).take n).count newline := by
  rw [breaksUpTo, filter_breaksFrom, List.length_map, List.length_findIdxs]
  rfl

/-- There are no more line breaks than offsets before. -/
theorem breaksUpTo_le (n : Nat) (cs : List Char) : breaksUpTo n cs ≤ n := by
  rw [breaksUpTo_eq_count]
  exact List.count_le_length.trans (List.length_take_le n _)

/-- A line breaks at an offset when the byte before it is a newline. -/
theorem mem_breaksFrom_iff : p ∈ breaksFrom 0 cs ↔ p ≠ 0 ∧ (encode cs)[p - 1]? = some newline := by
  rw [breaksFrom_eq, List.mem_map]
  constructor
  · rintro ⟨i, hi, rfl⟩
    obtain ⟨hlt, hbyte⟩ := List.mem_findIdxs_iff_exists_getElem_pos.1 hi
    refine ⟨Nat.succ_ne_zero i, ?_⟩
    rw [Nat.add_sub_cancel, List.getElem?_eq_getElem hlt, ← beq_iff_eq.1 hbyte]
  · rintro ⟨hp, hbyte⟩
    obtain ⟨hlt, hbyte⟩ := List.getElem?_eq_some_iff.1 hbyte
    refine ⟨p - 1, List.mem_findIdxs_iff_exists_getElem_pos.2 ⟨hlt, beq_iff_eq.2 hbyte⟩, ?_⟩
    omega

/-- A line begins where the text does or where a line breaks. -/
theorem isLineStart_iff {text : String} :
    IsLineStart text p ↔ p ∈ lineStarts text.toList := by
  rw [IsLineStart, lineStarts, List.mem_cons, mem_breaksFrom_iff, toList_toUTF8]
  tauto

/-- A line begins at the last line break up to its offsets, or with the text where there is none. -/
theorem lineStart_cases (n : Nat) (cs : List Char) :
    ((breaksFrom 0 cs).filter (· ≤ n) = [] ∧ lineStart n cs = 0) ∨
      ∃ before, (breaksFrom 0 cs).filter (· ≤ n) = before ++ [lineStart n cs] := by
  rw [lineStart_eq]
  rcases List.eq_nil_or_concat' ((breaksFrom 0 cs).filter (· ≤ n)) with hnil | ⟨before, last, hlast⟩
  · exact .inl ⟨hnil, by rw [hnil]; rfl⟩
  · refine .inr ⟨before, ?_⟩
    rw [hlast, List.getLast?_append]
    rfl

/-- **The line of an offset** begins at the last line start that does not come after it. -/
theorem isGreatest_lineStart (n : Nat) (text : String) :
    IsGreatest {p | p ≤ n ∧ IsLineStart text p} (lineStart n text.toList) := by
  have hmem : ∀ p, p ≤ n ∧ IsLineStart text p ↔
      p = 0 ∨ p ∈ (breaksFrom 0 text.toList).filter (· ≤ n) := by
    intro p
    rw [isLineStart_iff, lineStarts, List.mem_cons, List.mem_filter, decide_eq_true_iff]
    constructor
    · tauto
    · rintro (rfl | h)
      · exact ⟨Nat.zero_le n, .inl rfl⟩
      · exact ⟨h.2, .inr h.1⟩
  have hsorted := (pairwise_breaksFrom 0 text.toList).filter (· ≤ n)
  constructor
  · refine (hmem _).2 ?_
    rcases lineStart_cases n text.toList with ⟨-, hzero⟩ | ⟨before, hbreaks⟩
    · exact .inl hzero
    · exact .inr (by rw [hbreaks]; simp)
  · intro p hp
    rcases (hmem p).1 hp with rfl | hp
    · exact Nat.zero_le _
    · rcases lineStart_cases n text.toList with ⟨hnil, -⟩ | ⟨before, hbreaks⟩
      · rw [hnil] at hp
        cases hp
      · rw [hbreaks] at hp hsorted
        rcases List.mem_append.1 hp with hp | hp
        · exact ((List.pairwise_append.1 hsorted).2.2 p hp _ (List.mem_singleton_self _)).le
        · exact (List.mem_singleton.1 hp).le

/-- A line begins no later than the offsets that it holds. -/
theorem lineStart_le (n : Nat) (cs : List Char) : lineStart n cs ≤ n := by
  simpa using (isGreatest_lineStart n (String.ofList cs)).1.1

/-- **The number of a line** leads to its start. -/
theorem getElem?_lineStarts (n : Nat) (cs : List Char) :
    (lineStarts cs)[breaksUpTo n cs]? = some (lineStart n cs) := by
  have hlt := lineIndex_lt n cs
  rw [lineStart_eq_getD, ← lineIndex_eq, List.getD_eq_getElem _ _ hlt,
    List.getElem?_eq_getElem hlt]

/-- Offsets with as many line breaks before them lie on the same line. -/
theorem lineStart_eq_of_breaksUpTo_eq (h : breaksUpTo m cs = breaksUpTo n cs) :
    lineStart m cs = lineStart n cs := by
  have hm := getElem?_lineStarts m cs
  rw [h, getElem?_lineStarts] at hm
  exact (Option.some.inj hm).symm

/-- A later offset has no fewer line breaks before it. -/
theorem breaksUpTo_mono (h : m ≤ n) (cs : List Char) : breaksUpTo m cs ≤ breaksUpTo n cs := by
  rw [breaksUpTo_eq_count, breaksUpTo_eq_count]
  exact (List.take_sublist_take_left h).count_le newline

/-! ## Positions -/

/-- A position on an earlier line, or further left on the same line. -/
def Position.Before (p q : Position) : Prop :=
  p.line < q.line ∨ (p.line = q.line ∧ p.column < q.column)

/-- No position comes before itself. -/
theorem Position.not_before_self (p : Position) : ¬p.Before p := by
  rintro (h | ⟨-, h⟩)
  · exact UInt32.lt_irrefl _ h
  · exact UInt32.lt_irrefl _ h

/-- Counting from one fits into 32 bits. -/
theorem toNat_toUInt32_add_one {k : Nat} (h : k < 2 ^ 32 - 1) : (k.toUInt32 + 1).toNat = k + 1 := by
  rw [UInt32.toNat_add, UInt32.toNat_ofNat', UInt32.toNat_one]
  omega

/-- A position counts line breaks, and bytes from the start of the line. -/
theorem Position.of_eq (cs : List Char) (n : Nat) :
    Position.of cs n =
      ⟨(breaksUpTo n cs).toUInt32 + 1, (n - lineStart n cs).toUInt32 + 1⟩ := by
  rw [lineStart_eq_getD, ← lineIndex_eq]
  rfl

/-- The line of a position, counted from one. -/
theorem Position.toNat_line (hn : n < 2 ^ 32 - 1) :
    (Position.of cs n).line.toNat = breaksUpTo n cs + 1 := by
  rw [of_eq]
  exact toNat_toUInt32_add_one ((breaksUpTo_le n cs).trans_lt hn)

/-- The column of a position, counted from one. -/
theorem Position.toNat_column (hn : n < 2 ^ 32 - 1) :
    (Position.of cs n).column.toNat = n - lineStart n cs + 1 := by
  rw [of_eq]
  exact toNat_toUInt32_add_one ((Nat.sub_le _ _).trans_lt hn)

/-- **Positions keep the order of offsets.** -/
theorem Position.before_of_lt (hmn : m < n) (hn : n < 2 ^ 32 - 1) :
    (Position.of cs m).Before (Position.of cs n) := by
  have hm : m < 2 ^ 32 - 1 := hmn.trans hn
  rcases (breaksUpTo_mono hmn.le cs).lt_or_eq with hlt | heq
  · left
    rw [UInt32.lt_iff_toNat_lt, toNat_line hm, toNat_line hn]
    omega
  · -- no line begins between the two offsets
    have hstart := lineStart_eq_of_breaksUpTo_eq heq
    have hle := lineStart_le m cs
    right
    constructor
    · rw [← UInt32.toNat_inj, toNat_line hm, toNat_line hn, heq]
    · rw [UInt32.lt_iff_toNat_lt, toNat_column hm, toNat_column hn]
      omega

/-- **Offsets are told apart by their positions.** -/
theorem Position.of_injective (hm : m < 2 ^ 32 - 1) (hn : n < 2 ^ 32 - 1)
    (h : Position.of cs m = Position.of cs n) : m = n := by
  rcases Nat.lt_trichotomy m n with hlt | heq | hlt
  · have hbefore : (Position.of cs m).Before (Position.of cs n) := before_of_lt hlt hn
    rw [h] at hbefore
    exact absurd hbefore (not_before_self _)
  · exact heq
  · have hbefore : (Position.of cs n).Before (Position.of cs m) := before_of_lt hlt hm
    rw [h] at hbefore
    exact absurd hbefore (not_before_self _)

/-- **What a position tells.** The line of an offset begins at the last line start up to it; the line
counts the newline bytes before the offset, and the column the bytes from the start of the line.
Earlier offsets have earlier positions, other offsets have other positions, and the offset is found
again from the start of the line with that number. -/
theorem Position.of_exact (text : String) {n : Nat} (hn : n < 2 ^ 32 - 1) :
    IsGreatest {p | p ≤ n ∧ IsLineStart text p} (lineStart n text.toList) ∧
    (Position.of text.toList n).line.toNat = 1 + (text.toUTF8.toList.take n).count newline ∧
    (Position.of text.toList n).column.toNat = n - lineStart n text.toList + 1 ∧
    (∀ m < n, (Position.of text.toList m).Before (Position.of text.toList n)) ∧
    (∀ m < 2 ^ 32 - 1, Position.of text.toList m = Position.of text.toList n → m = n) ∧
    ∃ start, (lineStarts text.toList)[(Position.of text.toList n).line.toNat - 1]? = some start ∧
      n = start + (Position.of text.toList n).column.toNat - 1 := by
  refine ⟨isGreatest_lineStart n text, ?_, toNat_column hn, fun m hmn => before_of_lt hmn hn,
    fun m hm => of_injective hm hn, lineStart n text.toList, ?_, ?_⟩
  · rw [toNat_line hn, breaksUpTo_eq_count, toList_toUTF8, Nat.add_comm]
  · rw [toNat_line hn, Nat.add_sub_cancel, getElem?_lineStarts]
  · have hle := lineStart_le n text.toList
    rw [toNat_column hn]
    omega

/-- An offset past the end of a text that ends with a newline: its line begins right after that, where
the text has no more bytes. -/
theorem Position.of_exact_past_end :
    9 < 2 ^ 32 - 1 ∧ Position.of "é {}\r\n".toList 9 = ⟨2, 3⟩ ∧
    IsGreatest {p | p ≤ 9 ∧ IsLineStart "é {}\r\n" p} 7 ∧
    (Position.of "é {}\r\n".toList 6).Before ⟨2, 3⟩ := by
  have hn : 9 < 2 ^ 32 - 1 := by decide
  have hline : lineStart 9 "é {}\r\n".toList = 7 := by decide +kernel
  have hposition : Position.of "é {}\r\n".toList 9 = ⟨2, 3⟩ := by decide +kernel
  obtain ⟨hstart, -, -, hbefore, -, -⟩ := Position.of_exact "é {}\r\n" hn
  rw [hline] at hstart
  rw [hposition] at hbefore
  exact ⟨hn, hposition, hstart, hbefore 6 (by decide)⟩

end StyleAudit.Text
