import Mathlib
import StyleAudit.Proofs.Text.Offset
import StyleAudit.Sheet.Forest

/-! # Reading a text as lexemes

A lexeme is read where a text begins when the scanner takes exactly its characters there. Whether it
is read depends on what follows, so the statements here carry the text after it.

* **`charsOf ls`** — the characters of a sequence of lexemes; those of `lexemes cs` are `cs`.
* **`Lexeme.Reads l r`** — `l` is read off `l.chars` when `r` follows.
* **`Splits ls r`** — every lexeme is read where it stands, except that a run of whitespace may be
  cut into several lexemes.
* **`lexemes_of_splits`** — joining the whitespace of such a sequence gives the lexemes of its text. -/

namespace StyleAudit.Sheet

/-! ## Sources -/

/-- The characters of a sequence of lexemes. -/
def charsOf (ls : List Lexeme) : List Char := ls.flatMap Lexeme.chars

/-- No lexemes have no characters. -/
@[simp] theorem charsOf_nil : charsOf [] = [] := rfl

/-- Cons reading of `charsOf`. -/
@[simp] theorem charsOf_cons (l : Lexeme) (ls : List Lexeme) :
    charsOf (l :: ls) = l.chars ++ charsOf ls := rfl

/-- The characters of two sequences. -/
@[simp] theorem charsOf_append (ls ms : List Lexeme) :
    charsOf (ls ++ ms) = charsOf ls ++ charsOf ms := by
  simp [charsOf]

/-- **No character is lost**: the lexemes of a text are made of its characters, in order. -/
@[simp] theorem charsOf_lexemes (cs : List Char) : charsOf (lexemes cs) = cs := by
  induction h : cs.length using Nat.strong_induction_on generalizing cs with
  | _ n ih =>
      cases cs with
      | nil => rfl
      | cons c cs =>
          rw [lexemes_cons, charsOf_cons, ih _ (by rw [← h]; simp) _ rfl]
          simp

/-! ## What the scanner returns -/

/-- The one character that a token of punctuation is written as. -/
def Token.mark? : Token → Option Char
  | .comma => some ','
  | .semicolon => some ';'
  | .opening b => some b.opener
  | .closing b => some b.closer
  | _ => none

/-- A token that is neither punctuation nor whitespace nor a comment. -/
def Token.isWord : Token → Bool
  | .whitespace | .comment _ => false
  | t => t.mark?.isNone

/-- A word is no punctuation. -/
theorem mark?_ne_some_of_isWord {t : Token} (h : t.isWord = true) (d : Char) :
    t.mark? ≠ some d := by
  cases t <;> simp_all [Token.isWord, Token.mark?]

/-- Numbers are words. -/
theorem isWord_scanNumeric (cs : List Char) : (scanNumeric cs).1.isWord = true := by
  unfold scanNumeric
  simp only
  split
  · rfl
  · split <;> rfl

/-- What follows `url(` is a word. -/
theorem isWord_scanUrl {cs : List Char} {t : Token} (h : (scanUrl cs).1 = some t) :
    t.isWord = true := by
  induction cs with
  | nil =>
      rw [scanUrl, Option.some.injEq] at h
      rw [← h]
      rfl
  | cons c cs ih =>
      rw [scanUrl] at h
      split at h
      · exact ih h
      · split at h
        · simp at h
        · split at h <;> (rw [Option.some.injEq] at h; rw [← h]; rfl)

/-- Names, functions and `url(…)` are words. -/
theorem isWord_scanIdentLike (cs : List Char) : (scanIdentLike cs).1.isWord = true := by
  unfold scanIdentLike
  simp only
  split
  · split
    · split
      · rename_i t n h
        exact isWord_scanUrl (by rw [h])
      · rfl
    · rfl
  · rfl

/-- Matchers and the delimiters they begin with are words. -/
theorem isWord_matcherOr (c : Char) (cs : List Char) : (matcherOr c cs).1.isWord = true := by
  unfold matcherOr
  split <;> rfl

/-- **The four kinds of token**: a run of whitespace, a token of punctuation, which is its own
character and takes nothing else, a comment, and a word. -/
theorem next_cases (c : Char) (cs : List Char) :
    (isSpace c = true ∧ Token.next c cs = (.whitespace, (cs.takeWhile isSpace).length)) ∨
      ((Token.next c cs).1.mark? = some c ∧ (Token.next c cs).2 = 0) ∨
      (c = '/' ∧ ∃ rest, cs = '*' :: rest ∧
        Token.next c cs = (.comment (scanComment rest).1, (scanComment rest).2 + 1)) ∨
      (Token.next c cs).1.isWord = true := by
  have hnum := isWord_scanNumeric (c :: cs)
  have hident := isWord_scanIdentLike (c :: cs)
  have hmatch := isWord_matcherOr c cs
  by_cases hspace : isSpace c = true
  · exact .inl ⟨hspace, by unfold Token.next; rw [if_pos hspace]⟩
  · right
    unfold Token.next afterFirst
    rw [if_neg hspace]
    repeat' split
    -- the branches that end in a scanner are words; the others name their token
    all_goals
      first
      | with_reducible exact .inr (.inr hnum)
      | with_reducible exact .inr (.inr hident)
      | with_reducible exact .inr (.inr hmatch)
      | exact .inl ⟨rfl, rfl⟩
      | exact .inr (.inr rfl)
      | (rename_i heq; exact .inr (.inl ⟨rfl, _, rfl, by rw [heq]⟩))

/-- **A token of punctuation is its own character**, and takes nothing else. -/
theorem next_of_mark {c d : Char} {cs : List Char} (h : (Token.next c cs).1.mark? = some d) :
    c = d ∧ (Token.next c cs).2 = 0 := by
  rcases next_cases c cs with ⟨-, heq⟩ | ⟨hmark, hzero⟩ | ⟨-, rest, -, heq⟩ | hword
  · simp [heq, Token.mark?] at h
  · exact ⟨Option.some.inj (hmark.symm.trans h), hzero⟩
  · simp [heq, Token.mark?] at h
  · exact absurd h (mark?_ne_some_of_isWord hword d)

/-- **A whitespace token is a whole run of whitespace.** -/
theorem next_of_whitespace {c : Char} {cs : List Char} (h : (Token.next c cs).1 = .whitespace) :
    isSpace c = true ∧ (Token.next c cs).2 = (cs.takeWhile isSpace).length := by
  rcases next_cases c cs with ⟨hspace, heq⟩ | ⟨hmark, -⟩ | ⟨-, rest, -, heq⟩ | hword
  · exact ⟨hspace, by rw [heq]⟩
  · simp [h, Token.mark?] at hmark
  · simp [heq] at h
  · simp [h, Token.isWord] at hword

/-- A text that begins with whitespace begins with a whitespace token. -/
theorem next_of_isSpace {c : Char} (cs : List Char) (h : isSpace c = true) :
    Token.next c cs = (.whitespace, (cs.takeWhile isSpace).length) := by
  unfold Token.next
  rw [if_pos h]

/-! ## Lexemes that are read -/

/-- The scanner reads `l` off its characters when `r` follows them. -/
def Lexeme.Reads (l : Lexeme) (r : List Char) : Prop :=
  ∃ c cs, l.chars = c :: cs ∧ (Token.next c (cs ++ r)).1 = l.token ∧
    (cs ++ r).drop (Token.next c (cs ++ r)).2 = r

/-- A lexeme that is read is the first one of its text. -/
theorem Lexeme.Reads.lexemes_eq {l : Lexeme} {r : List Char} (h : l.Reads r) :
    lexemes (l.chars ++ r) = l :: lexemes r := by
  obtain ⟨token, chars⟩ := l
  obtain ⟨c, cs, rfl, htoken, hdrop⟩ := h
  have htake : (cs ++ r).take (Token.next c (cs ++ r)).2 = cs := by
    have := List.take_append_drop (Token.next c (cs ++ r)).2 (cs ++ r)
    rw [hdrop] at this
    exact List.append_cancel_right this
  simp only at htoken
  rw [List.cons_append, lexemes_cons, htake, hdrop, htoken]

/-- The first lexeme of a text is read there, and the others are those of what it leaves. -/
theorem reads_of_lexemes_eq_cons {cs : List Char} {l : Lexeme} {ls : List Lexeme}
    (h : lexemes cs = l :: ls) : l.Reads (charsOf ls) ∧ lexemes (charsOf ls) = ls := by
  cases cs with
  | nil => simp [lexemes, lexemesFrom] at h
  | cons c cs =>
      rw [lexemes_cons] at h
      obtain ⟨rfl, rfl⟩ := List.cons.inj h
      rw [charsOf_lexemes]
      refine ⟨⟨c, _, rfl, ?_, ?_⟩, rfl⟩ <;> simp only [List.take_append_drop]

/-- A lexeme of punctuation is one character. -/
theorem Lexeme.Reads.chars_eq_of_mark {l : Lexeme} {r : List Char} {d : Char} (h : l.Reads r)
    (hd : l.token.mark? = some d) : l.chars = [d] := by
  obtain ⟨c, cs, hchars, htoken, hdrop⟩ := h
  obtain ⟨rfl, hzero⟩ := next_of_mark (htoken ▸ hd)
  have hcs : cs = [] := by simpa [hzero] using hdrop
  rw [hchars, hcs]

/-- A lexeme that begins with whitespace is a whitespace token. -/
theorem Lexeme.Reads.token_of_isSpace {l : Lexeme} {r cs : List Char} {c : Char} (h : l.Reads r)
    (hc : l.chars = c :: cs) (hspace : isSpace c = true) : l.token = .whitespace := by
  obtain ⟨c', cs', hchars, htoken, -⟩ := h
  obtain ⟨rfl, rfl⟩ := List.cons.inj (hc.symm.trans hchars)
  rw [← htoken, next_of_isSpace _ hspace]

/-- A token that is no whitespace begins with none. -/
theorem Lexeme.Reads.not_isSpace {l : Lexeme} {r cs : List Char} {c : Char} (h : l.Reads r)
    (ht : l.token ≠ .whitespace) (hc : l.chars = c :: cs) : StyleAudit.Sheet.isSpace c = false := by
  by_contra hspace
  exact ht (h.token_of_isSpace hc (by simpa using hspace))

/-- A lexeme that is read has characters. -/
theorem Lexeme.Reads.chars_ne_nil {l : Lexeme} {r : List Char} (h : l.Reads r) : l.chars ≠ [] := by
  obtain ⟨c, cs, hchars, -⟩ := h
  simp [hchars]

/-- Some whitespace, as a lexeme. -/
structure Lexeme.IsSpace (l : Lexeme) : Prop where
  token_eq : l.token = .whitespace
  chars_ne_nil : l.chars ≠ []
  all_space : ∀ c ∈ l.chars, StyleAudit.Sheet.isSpace c = true

/-- A whitespace token is read as a whole run of whitespace. -/
theorem Lexeme.Reads.space_run {l : Lexeme} {r : List Char} (h : l.Reads r)
    (hl : l.token = .whitespace) :
    l.IsSpace ∧ ∀ c cs, r = c :: cs → StyleAudit.Sheet.isSpace c = false := by
  have hne := h.chars_ne_nil
  obtain ⟨c, cs, hchars, htoken, hdrop⟩ := h
  obtain ⟨hspace, hlen⟩ := next_of_whitespace (htoken.trans hl)
  rw [hlen] at hdrop
  -- dropping the run of whitespace leaves exactly `r`, so the run is exactly `cs`
  have hrun : (cs ++ r).takeWhile StyleAudit.Sheet.isSpace = cs := by
    have htake := List.takeWhile_append_dropWhile (p := StyleAudit.Sheet.isSpace) (l := cs ++ r)
    have hdw : (cs ++ r).dropWhile StyleAudit.Sheet.isSpace = r := by
      have : (cs ++ r).drop ((cs ++ r).takeWhile StyleAudit.Sheet.isSpace).length =
          (cs ++ r).dropWhile StyleAudit.Sheet.isSpace := by
        conv_lhs => rw [← htake]
        rw [List.drop_left' (by rw [htake])]
      rw [← this, hdrop]
    rw [hdw] at htake
    exact List.append_cancel_right htake
  refine ⟨⟨hl, hne, fun d hd => ?_⟩, fun d ds hr => ?_⟩
  · rw [hchars] at hd
    rcases List.mem_cons.1 hd with rfl | hd
    · exact hspace
    · rw [← hrun] at hd
      exact List.mem_takeWhile_imp hd
  · by_contra hd
    rw [Bool.not_eq_false] at hd
    rw [hr, List.takeWhile_append_of_pos] at hrun
    · simp [hd] at hrun
    · intro x hx
      rw [← hrun] at hx
      exact List.mem_takeWhile_imp hx

/-! ## Sequences that split a text -/

/-- Every lexeme of the sequence is read where it stands, with `r` after the last one; a run of
whitespace may be cut into several lexemes. -/
def Splits : List Lexeme → List Char → Prop
  | [], _ => True
  | l :: ls, r => (l.IsSpace ∨ l.Reads (charsOf ls ++ r)) ∧ Splits ls r

/-- Two sequences split a text when each one splits its part. -/
theorem splits_append {ls ms : List Lexeme} {r : List Char} :
    Splits (ls ++ ms) r ↔ Splits ls (charsOf ms ++ r) ∧ Splits ms r := by
  induction ls with
  | nil => simp [Splits]
  | cons l ls ih => simp [Splits, ih, and_assoc]

/-- The lexemes of a text split it. -/
theorem splits_lexemes (cs : List Char) : Splits (lexemes cs) [] := by
  generalize hls : lexemes cs = ls
  induction ls generalizing cs with
  | nil => trivial
  | cons l ls ih =>
      obtain ⟨hreads, hrest⟩ := reads_of_lexemes_eq_cons hls
      exact ⟨.inr (by simpa using hreads), ih _ hrest⟩

/-- Joins neighbouring whitespace. -/
def joinSpaces : List Lexeme → List Lexeme
  | [] => []
  | l :: ls =>
      match joinSpaces ls with
      | m :: ms =>
          if l.token = .whitespace ∧ m.token = .whitespace then
            ⟨.whitespace, l.chars ++ m.chars⟩ :: ms
          else l :: m :: ms
      | [] => [l]

/-- The lexemes of a text that begins with whitespace. -/
theorem lexemes_space_append {w r : List Char} (hne : w ≠ []) (hw : ∀ c ∈ w, isSpace c = true) :
    lexemes (w ++ r) =
      ⟨.whitespace, w ++ r.takeWhile isSpace⟩ :: lexemes (r.dropWhile isSpace) := by
  obtain ⟨c, w, rfl⟩ := List.exists_cons_of_ne_nil hne
  have hrun : (w ++ r).takeWhile isSpace = w ++ r.takeWhile isSpace :=
    List.takeWhile_append_of_pos fun d hd => hw d (by simp [hd])
  have htake : (w ++ r).take ((w ++ r).takeWhile isSpace).length = w ++ r.takeWhile isSpace := by
    rw [← hrun]
    exact (List.prefix_iff_eq_take.1 (List.takeWhile_prefix isSpace)).symm
  have hdrop : (w ++ r).drop ((w ++ r).takeWhile isSpace).length = r.dropWhile isSpace := by
    rw [hrun, List.length_append, ← List.drop_drop, List.drop_left]
    conv_lhs => rw [← List.takeWhile_append_dropWhile (p := isSpace) (l := r)]
    rw [List.drop_left' (by rw [List.takeWhile_append_dropWhile])]
  rw [List.cons_append, lexemes_cons, next_of_isSpace _ (hw c (by simp)), htake, hdrop]
  rfl

/-- A lexeme that begins the lexemes of a text begins the text. -/
theorem chars_eq_of_lexemes {cs : List Char} {m : Lexeme} {ms : List Lexeme}
    (hm : lexemes cs = m :: ms) : cs = m.chars ++ charsOf ms := by
  rw [← charsOf_cons, ← hm, charsOf_lexemes]

/-- Whitespace takes up the whitespace that follows it. -/
theorem lexemes_space_space {l m : Lexeme} {cs : List Char} {ms : List Lexeme} (hl : l.IsSpace)
    (hm : lexemes cs = m :: ms) (hspace : m.token = .whitespace) :
    lexemes (l.chars ++ cs) = ⟨.whitespace, l.chars ++ m.chars⟩ :: ms := by
  obtain ⟨hreads, hrest⟩ := reads_of_lexemes_eq_cons hm
  obtain ⟨hm', hstop⟩ := hreads.space_run hspace
  have hchars := chars_eq_of_lexemes hm
  -- the run ends where `m` does
  have hms : (charsOf ms).takeWhile isSpace = [] ∧
      (charsOf ms).dropWhile isSpace = charsOf ms := by
    cases hcs : charsOf ms with
    | nil => simp
    | cons c cs => simp [hstop c cs hcs]
  have htake : cs.takeWhile isSpace = m.chars := by
    rw [hchars, List.takeWhile_append_of_pos hm'.all_space, hms.1, List.append_nil]
  have hdrop : cs.dropWhile isSpace = charsOf ms := by
    rw [hchars, List.dropWhile_append_of_pos hm'.all_space, hms.2]
  rw [lexemes_space_append hl.chars_ne_nil hl.all_space, htake, hdrop, hrest]

/-- Whitespace stands alone before anything else. -/
theorem lexemes_space_cons {l m : Lexeme} {cs : List Char} {ms : List Lexeme} (hl : l.IsSpace)
    (hm : lexemes cs = m :: ms) (hspace : m.token ≠ .whitespace) :
    lexemes (l.chars ++ cs) = l :: m :: ms := by
  obtain ⟨hreads, -⟩ := reads_of_lexemes_eq_cons hm
  obtain ⟨c, ds, hc⟩ := List.exists_cons_of_ne_nil hreads.chars_ne_nil
  have hcs : isSpace c = false := hreads.not_isSpace hspace hc
  have hchars : cs = c :: (ds ++ charsOf ms) := by
    rw [chars_eq_of_lexemes hm, hc, List.cons_append]
  have htake : cs.takeWhile isSpace = [] := by simp [hchars, hcs]
  have hdrop : cs.dropWhile isSpace = cs := by simp [hchars, hcs]
  rw [lexemes_space_append hl.chars_ne_nil hl.all_space, htake, hdrop, hm, List.append_nil,
    ← hl.token_eq]

/-- A lexeme that is read is no whitespace before whitespace. -/
theorem Lexeme.Reads.apart {l m : Lexeme} {cs : List Char} {ms : List Lexeme} (hl : l.Reads cs)
    (hm : lexemes cs = m :: ms) : ¬ (l.token = .whitespace ∧ m.token = .whitespace) := by
  rintro ⟨hlspace, hmspace⟩
  obtain ⟨-, hstop⟩ := hl.space_run hlspace
  obtain ⟨hreads, -⟩ := reads_of_lexemes_eq_cons hm
  obtain ⟨hm', -⟩ := hreads.space_run hmspace
  obtain ⟨c, ds, hc⟩ := List.exists_cons_of_ne_nil hm'.chars_ne_nil
  have hchars : cs = c :: (ds ++ charsOf ms) := by
    rw [chars_eq_of_lexemes hm, hc, List.cons_append]
  have hspace := hm'.all_space c (by simp [hc])
  rw [hstop c _ hchars] at hspace
  exact absurd hspace (by decide)

/-- **Joining the whitespace of a split text gives its lexemes.** -/
theorem lexemes_of_splits {ls : List Lexeme} (h : Splits ls []) :
    lexemes (charsOf ls) = joinSpaces ls := by
  induction ls with
  | nil => rfl
  | cons l ls ih =>
      obtain ⟨hl, hls⟩ := h
      rw [List.append_nil] at hl
      rw [charsOf_cons, joinSpaces, ← ih hls]
      rcases hl with hl | hl
      · cases hm : lexemes (charsOf ls) with
        | nil =>
            have hnil : charsOf ls = [] := by rw [← charsOf_lexemes (charsOf ls), hm]; rfl
            rw [hnil, lexemes_space_append hl.chars_ne_nil hl.all_space, ← hl.token_eq]
            simp [lexemes, lexemesFrom]
        | cons m ms =>
            by_cases hspace : m.token = .whitespace
            · rw [lexemes_space_space hl hm hspace]
              exact (if_pos ⟨hl.token_eq, hspace⟩).symm
            · rw [lexemes_space_cons hl hm hspace]
              exact (if_neg fun h => hspace h.2).symm
      · -- what is read as it stands is read in front of the rest
        rw [hl.lexemes_eq]
        cases hm : lexemes (charsOf ls) with
        | nil => rfl
        | cons m ms => exact (if_neg (hl.apart hm)).symm

end StyleAudit.Sheet
