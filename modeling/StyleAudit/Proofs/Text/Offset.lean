import Mathlib
import StyleAudit.Proofs.Text.Lines
import StyleAudit.Text.Blank

/-! # Cuts of a text

A byte offset that falls between two characters cuts a text in two. This file reads `takeBytes`,
`dropBytes`, `slice` and `lineStart` at such a cut, where they are the two sides themselves.

* **`isBoundary_iff`** — an offset is a boundary exactly when it is the size of a prefix.
* **`slice_append`** — the slice between two cuts is the text between them.
* **`At cs n c`** — the character `c` begins at offset `n` of `cs`.
* **`BlankAt cs n`** — offset `n` lies in a blank character of `cs`.
* **`lineStart_append`** — the line of a cut begins where the last line of the text before it does. -/

namespace StyleAudit.Text

/-! ## The two sides of a cut -/

/-- A character has at least one byte. -/
theorem byteSize_pos_of_ne_nil {cs : List Char} (h : cs ≠ []) : 0 < byteSize cs := by
  cases cs with
  | nil => exact absurd rfl h
  | cons c cs =>
      have := c.utf8Size_pos
      rw [byteSize_cons]
      omega

/-- Nothing stands before offset zero. -/
@[simp] theorem takeBytes_zero (cs : List Char) : takeBytes 0 cs = [] := by
  cases cs <;> simp [takeBytes]

/-- Everything stands after offset zero. -/
@[simp] theorem dropBytes_zero (cs : List Char) : dropBytes 0 cs = cs := by
  cases cs <;> simp [dropBytes]

/-- The part before a cut. -/
@[simp] theorem takeBytes_append (xs ys : List Char) : takeBytes (byteSize xs) (xs ++ ys) = xs := by
  induction xs with
  | nil => simp
  | cons c cs ih =>
      have hne : c.utf8Size + byteSize cs ≠ 0 := by have := c.utf8Size_pos; omega
      rw [byteSize_cons, List.cons_append, takeBytes, if_neg hne, Nat.add_sub_cancel_left, ih]

/-- The part after a cut. -/
@[simp] theorem dropBytes_append (xs ys : List Char) : dropBytes (byteSize xs) (xs ++ ys) = ys := by
  induction xs with
  | nil => simp
  | cons c cs ih =>
      have hne : c.utf8Size + byteSize cs ≠ 0 := by have := c.utf8Size_pos; omega
      rw [byteSize_cons, List.cons_append, dropBytes, if_neg hne, Nat.add_sub_cancel_left, ih]

/-- The slice between two cuts is the text between them. -/
theorem slice_append (a b c : List Char) :
    slice (byteSize a) (byteSize a + byteSize b) (a ++ (b ++ c)) = b := by
  rw [slice, Nat.add_sub_cancel_left, dropBytes_append, takeBytes_append]

/-- **Boundaries are the sizes of prefixes.** -/
theorem isBoundary_iff {n : Nat} {cs : List Char} :
    isBoundary n cs = true ↔ ∃ a b, cs = a ++ b ∧ byteSize a = n := by
  constructor
  · intro h
    induction cs generalizing n with
    | nil =>
        cases n with
        | zero => exact ⟨[], [], rfl, rfl⟩
        | succ n => simp [isBoundary] at h
    | cons c cs ih =>
        cases n with
        | zero => exact ⟨[], c :: cs, rfl, rfl⟩
        | succ n =>
            simp only [isBoundary, Bool.and_eq_true, decide_eq_true_eq] at h
            obtain ⟨a, b, rfl, hn⟩ := ih h.2
            refine ⟨c :: a, b, rfl, ?_⟩
            rw [byteSize_cons]
            omega
  · rintro ⟨a, b, rfl, rfl⟩
    induction a with
    | nil => simp [isBoundary]
    | cons c a ih =>
        rw [byteSize_cons, List.cons_append]
        obtain ⟨m, hm⟩ : ∃ m, c.utf8Size + byteSize a = m + 1 :=
          ⟨c.utf8Size + byteSize a - 1, by have := c.utf8Size_pos; omega⟩
        have hsub : m + 1 - c.utf8Size = byteSize a := by omega
        rw [hm, isBoundary, hsub, ih]
        simp
        omega

/-- Of two cuts of a text, the one at the smaller offset comes first. -/
theorem exists_append_of_byteSize_le {a b a' b' : List Char} (h : a ++ b = a' ++ b')
    (hle : byteSize a ≤ byteSize a') : ∃ m, a' = a ++ m ∧ b = m ++ b' := by
  induction a generalizing a' with
  | nil => exact ⟨a', rfl, h⟩
  | cons c a ih =>
      cases a' with
      | nil =>
          have := c.utf8Size_pos
          simp only [byteSize_cons, byteSize_nil] at hle
          omega
      | cons c' a' =>
          obtain ⟨rfl, htail⟩ := List.cons.inj h
          simp only [byteSize_cons] at hle
          obtain ⟨m, rfl, rfl⟩ := ih htail (by omega)
          exact ⟨m, rfl, rfl⟩

/-- Cuts of a text at one offset are the same cut. -/
theorem append_inj_of_byteSize_eq {a b a' b' : List Char} (h : a ++ b = a' ++ b')
    (heq : byteSize a = byteSize a') : a = a' ∧ b = b' := by
  obtain ⟨m, rfl, rfl⟩ := exists_append_of_byteSize_le h heq.le
  have hm : m = [] := by
    by_contra hne
    have := byteSize_pos_of_ne_nil hne
    rw [byteSize_append] at heq
    omega
  simp [hm]

/-! ## The character at an offset -/

/-- The character `c` begins at offset `n` of `cs`. -/
def At (cs : List Char) (n : Nat) (c : Char) : Prop :=
  ∃ a b, cs = a ++ c :: b ∧ byteSize a = n

/-- Offset `n` lies in a blank character of `cs`. -/
def BlankAt (cs : List Char) (n : Nat) : Prop :=
  ∃ a c b, cs = a ++ c :: b ∧ isBlank c = true ∧ byteSize a ≤ n ∧ n < byteSize a + c.utf8Size

/-- Every offset inside a run lies in one of its characters. -/
theorem exists_char_of_lt_byteSize {run : List Char} {n : Nat} (h : n < byteSize run) :
    ∃ a c b, run = a ++ c :: b ∧ byteSize a ≤ n ∧ n < byteSize a + c.utf8Size := by
  induction run generalizing n with
  | nil => simp at h
  | cons c cs ih =>
      by_cases hn : n < c.utf8Size
      · exact ⟨[], c, cs, rfl, by simp, by simpa using hn⟩
      · rw [byteSize_cons] at h
        obtain ⟨a, d, b, rfl, hle, hlt⟩ := ih (n := n - c.utf8Size) (by omega)
        refine ⟨c :: a, d, b, rfl, ?_, ?_⟩ <;> rw [byteSize_cons] <;> omega

/-- Every offset inside a run of blanks lies in a blank character. -/
theorem blankAt_of_run {a run b : List Char} {n : Nat} (hrun : ∀ c ∈ run, isBlank c = true)
    (hle : byteSize a ≤ n) (hlt : n < byteSize a + byteSize run) :
    BlankAt (a ++ (run ++ b)) n := by
  have hlt' : n - byteSize a < byteSize run := by omega
  obtain ⟨x, c, y, rfl, hx, hy⟩ := exists_char_of_lt_byteSize hlt'
  refine ⟨a ++ x, c, y ++ b, by simp, hrun c (by simp), ?_, ?_⟩ <;> rw [byteSize_append] <;> omega

/-- A character that begins inside a run belongs to it. -/
theorem At.mem_run {a run b : List Char} {n : Nat} {c : Char} (h : At (a ++ (run ++ b)) n c)
    (hle : byteSize a ≤ n) (hlt : n < byteSize a + byteSize run) : c ∈ run := by
  obtain ⟨x, y, hxy, rfl⟩ := h
  obtain ⟨m, rfl, hm⟩ := exists_append_of_byteSize_le hxy hle
  rw [byteSize_append] at hlt
  obtain ⟨k, hk, hk'⟩ := exists_append_of_byteSize_le hm.symm (by omega)
  cases k with
  | nil =>
      rw [hk, List.append_nil] at hlt
      omega
  | cons d k =>
      have hd : c = d := (List.cons.inj hk').1
      subst hd
      rw [hk]
      simp

/-- A cut between two characters that begin at its two sides. -/
theorem at_append_cons (a b : List Char) (c : Char) : At (a ++ c :: b) (byteSize a) c :=
  ⟨a, b, rfl, rfl⟩

/-! ## Lines -/

/-- The part of `cs` after its last newline. -/
def lastLine (cs : List Char) : List Char := (cs.reverse.takeWhile (· != '\n')).reverse

/-- The longest end of a list on which `p` holds splits it off. -/
theorem exists_append_takeWhile_reverse (p : Char → Bool) (cs : List Char) :
    ∃ a, cs = a ++ (cs.reverse.takeWhile p).reverse := by
  refine ⟨(cs.reverse.dropWhile p).reverse, ?_⟩
  rw [← List.reverse_append, List.takeWhile_append_dropWhile, List.reverse_reverse]

/-- The line breaks of a text are those of its two sides. -/
theorem breaksFrom_append (start : Nat) (a b : List Char) :
    breaksFrom start (a ++ b) = breaksFrom start a ++ breaksFrom (start + byteSize a) b := by
  induction a generalizing start with
  | nil => simp [breaksFrom]
  | cons c a ih =>
      simp only [List.cons_append, breaksFrom, ih, byteSize_cons, Nat.add_assoc]
      split <;> rfl

/-- The last line break of a text is where its last line begins. -/
theorem getLast_breaksFrom (a : List Char) :
    (breaksFrom 0 a).getLast?.getD 0 + byteSize (lastLine a) = byteSize a := by
  induction a using List.reverseRecOn with
  | nil => simp [breaksFrom, lastLine]
  | append_singleton a c ih =>
      rw [breaksFrom_append]
      by_cases hc : c = '\n'
      · simp [breaksFrom, lastLine, hc]
      · have hlast : lastLine (a ++ [c]) = lastLine a ++ [c] := by simp [lastLine, hc]
        simp only [breaksFrom, if_neg hc, List.append_nil, hlast, byteSize_append]
        omega

/-- **The line of a cut** begins where the last line of the text before it does. -/
theorem lineStart_append (a b : List Char) :
    lineStart (byteSize a) (a ++ b) = byteSize a - byteSize (lastLine a) := by
  have hfilter : (breaksFrom 0 (a ++ b)).filter (· ≤ byteSize a) = breaksFrom 0 a := by
    rw [breaksFrom_append, List.filter_append]
    have ha : (breaksFrom 0 a).filter (fun n => decide (n ≤ byteSize a)) = breaksFrom 0 a :=
      List.filter_eq_self.2 fun n hn => by have := mem_breaksFrom hn; simp; omega
    have hb : (breaksFrom (0 + byteSize a) b).filter (fun n => decide (n ≤ byteSize a)) = [] :=
      List.filter_eq_nil_iff.2 fun n hn => by have := mem_breaksFrom hn; simp; omega
    rw [ha, hb, List.append_nil]
  have hlast := getLast_breaksFrom a
  rw [lineStart_eq, hfilter]
  omega

end StyleAudit.Text
