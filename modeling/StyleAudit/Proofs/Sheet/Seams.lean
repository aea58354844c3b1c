import Mathlib
import StyleAudit.Proofs.Sheet.Lookahead
import StyleAudit.Proofs.Sheet.Showing

/-! # Seams

An edited text is put together from stretches of the text it was made from. Where two of them meet,
the lexemes at the end of the first one have to be read as before. Punctuation and comments are read
whatever follows, whitespace may be cut anywhere, and for the rest a stop has to follow.

* **`Lexeme.Free`** — whitespace, or a lexeme that is read whatever follows.
* **`exists_trimStart`, `exists_trimEnd`** — lexemes without the whitespace at one of their ends.
* **`Forest.exists_trimmed`** — a forest without the whitespace at its start.
* **`splits_anchor`**, **`splits_fence`**, **`splits_through_fence`** — before a character that no
  token goes on with, and so up to the end of a statement, lexemes do not depend on what follows.
* **`Forest.Takes`** — a forest that is read again takes a part of the whitespace after it.
* **`Forest.exists_reread`** — the end of a forest when the text after it changes.
* **`Lexeme.Loose`** — what may stand between the entries of a selector list.
* **`Forest.exists_reread_gap`** — an entry of a selector list before another gap. -/

namespace StyleAudit.Sheet

open Text

/-! ## Lexemes that are read whatever follows -/

/-- Whitespace, or a lexeme that is read whatever follows. -/
def Lexeme.Free (l : Lexeme) : Prop := l.IsSpace ∨ ∀ r, l.Reads r

/-- Free lexemes split whatever text they stand in. -/
theorem splits_free {ls : List Lexeme} (h : ∀ l ∈ ls, l.Free) (r : List Char) : Splits ls r := by
  induction ls with
  | nil => trivial
  | cons l ls ih =>
      refine ⟨?_, ih fun k hk => h k (by simp [hk])⟩
      exact (h l (by simp)).imp_right fun hl => hl _

/-- A lexeme that splits is whitespace or is read. -/
theorem isSpace_or_reads_of_splits {ls : List Lexeme} {r : List Char} (h : Splits ls r)
    {l : Lexeme} (hl : l ∈ ls) : l.IsSpace ∨ ∃ r', l.Reads r' := by
  induction ls with
  | nil => simp at hl
  | cons k ls ih =>
      rcases List.mem_cons.1 hl with rfl | hl
      · exact h.1.imp_right fun hreads => ⟨_, hreads⟩
      · exact ih h.2 hl

/-- A lexeme that splits has characters. -/
theorem chars_ne_nil_of_splits {ls : List Lexeme} {r : List Char} (h : Splits ls r) {l : Lexeme}
    (hl : l ∈ ls) : l.chars ≠ [] := by
  rcases isSpace_or_reads_of_splits h hl with hspace | ⟨r', hreads⟩
  · exact hspace.chars_ne_nil
  · exact hreads.chars_ne_nil

/-- Whitespace that splits is whitespace. -/
theorem isSpace_of_token {l : Lexeme} (h : l.IsSpace ∨ ∃ r, l.Reads r)
    (hl : l.token = .whitespace) : l.IsSpace := by
  rcases h with h | ⟨r, h⟩
  · exact h
  · exact (h.space_run hl).1

/-- **Punctuation** is read whatever follows. -/
theorem Lexeme.Reads.of_mark {l : Lexeme} {r : List Char} {d : Char} (h : l.Reads r)
    (hd : l.token.mark? = some d) (r' : List Char) : l.Reads r' := by
  have hchars := h.chars_eq_of_mark hd
  have hnext : ∀ cs, Token.next d cs = (l.token, 0) := by
    intro cs
    cases htoken : l.token with
    | comma =>
        rw [htoken] at hd
        obtain rfl := Option.some.inj hd
        rfl
    | semicolon =>
        rw [htoken] at hd
        obtain rfl := Option.some.inj hd
        rfl
    | opening b =>
        rw [htoken] at hd
        obtain rfl := Option.some.inj hd
        cases b <;> rfl
    | closing b =>
        rw [htoken] at hd
        obtain rfl := Option.some.inj hd
        cases b <;> rfl
    | _ => simp [htoken, Token.mark?] at hd
  exact ⟨d, [], hchars, by rw [hnext], by rw [hnext]; rfl⟩

/-- A closer is read whatever follows. -/
theorem splits_closerLexemes (o : Lexeme) (r : List Char) : Splits (closerLexemes o true) r := by
  refine splits_free (fun l hl => .inr fun r' => ?_) r
  rw [closerLexemes, if_pos rfl, List.mem_singleton] at hl
  subst hl
  cases o.bracket <;> exact ⟨_, [], rfl, rfl, rfl⟩

/-- A comment has no more characters than there are. -/
theorem scanComment_le (cs : List Char) : (scanComment cs).2 ≤ cs.length := by
  induction cs with
  | nil => simp [scanComment]
  | cons c cs ih =>
      rw [scanComment_cons]
      split
      · rename_i hend
        obtain ⟨rest, rfl⟩ := List.head?_eq_some_iff.1 hend.2
        simp
      · simpa using ih

/-- A comment that is closed ends with its mark, whatever follows. -/
theorem scanComment_closed {cs r : List Char} (h : scanComment (cs ++ r) = (true, cs.length)) :
    (∃ inner, cs = inner ++ ['*', '/']) ∧
      ∀ r', scanComment (cs ++ r') = (true, cs.length) := by
  induction cs with
  | nil =>
      cases r with
      | nil => simp [scanComment] at h
      | cons d r =>
          rw [List.nil_append, scanComment_cons] at h
          split at h <;> simp at h
  | cons c cs ih =>
      rw [List.cons_append, scanComment_cons] at h
      by_cases hend : c = '*' ∧ (cs ++ r).head? = some '/'
      · rw [if_pos hend] at h
        have hone : cs.length = 1 := by simpa using (congrArg Prod.snd h).symm
        obtain ⟨d, rfl⟩ := List.length_eq_one_iff.1 hone
        obtain ⟨rfl, hd⟩ := hend
        obtain rfl : d = '/' := by simpa using hd
        exact ⟨⟨[], rfl⟩, fun r' => rfl⟩
      · rw [if_neg hend] at h
        have hfst : (scanComment (cs ++ r)).1 = true := congrArg Prod.fst h
        have hsnd : (scanComment (cs ++ r)).2 + 1 = (c :: cs).length := congrArg Prod.snd h
        have hrest : scanComment (cs ++ r) = (true, cs.length) :=
          Prod.ext hfst (by simpa using hsnd)
        obtain ⟨⟨inner, rfl⟩, hread⟩ := ih hrest
        refine ⟨⟨c :: inner, rfl⟩, fun r' => ?_⟩
        -- one character ahead is still in the comment, which ends with two
        have hhead : ∀ x : List Char,
            (inner ++ ['*', '/'] ++ x).head? = (inner ++ ['*', '/']).head? := by
          intro x
          cases inner <;> rfl
        rw [hhead] at hend
        rw [List.cons_append, scanComment_cons, hhead, if_neg hend, hread]
        rfl

/-- **A comment** that is closed is read whatever follows, and ends with a slash. -/
theorem Lexeme.Reads.of_comment {l : Lexeme} {r : List Char} (h : l.Reads r)
    (hl : l.token = .comment true) :
    (∀ r', l.Reads r') ∧ ∃ inner, l.chars = '/' :: (inner ++ ['/']) := by
  obtain ⟨c, cs, hchars, htoken, hdrop⟩ := h
  rw [hl] at htoken
  rcases next_cases c (cs ++ r) with ⟨-, heq⟩ | ⟨hmark, -⟩ | ⟨rfl, rest, hrest, heq⟩ | hword
  · simp [heq] at htoken
  · simp [htoken, Token.mark?] at hmark
  · rw [heq] at htoken hdrop
    have hle := scanComment_le rest
    cases cs with
    | nil =>
        -- the comment would take nothing
        rw [List.nil_append] at hrest hdrop
        subst hrest
        have := congrArg List.length hdrop
        simp at this
        omega
    | cons d cs =>
        obtain ⟨rfl, rfl⟩ : d = '*' ∧ cs ++ r = rest := List.cons.inj hrest
        have hlen := congrArg List.length hdrop
        simp only [List.cons_append, List.drop_succ_cons, List.length_drop,
          List.length_append] at hlen hle
        have hread : scanComment (cs ++ r) = (true, cs.length) :=
          Prod.ext (by simpa using htoken) (by simp only; omega)
        obtain ⟨⟨inner, rfl⟩, hread'⟩ := scanComment_closed hread
        refine ⟨fun r' => ?_, '*' :: (inner ++ ['*']), by simp [hchars]⟩
        have hnext : Token.next '/' ('*' :: (inner ++ ['*', '/']) ++ r') =
            (.comment true, (inner ++ ['*', '/']).length + 1) := by
          rw [next_slash]
          simp only [List.cons_append, List.isPrefixOf_cons_cons, List.tail_cons, hread']
          simp
        exact ⟨'/', _, hchars, by rw [hnext, hl], by rw [hnext]; simp⟩
  · simp [htoken, Token.isWord] at hword

/-! ## Changing what follows a forest -/

variable {r r' : List Char}

/-- A lexeme is read when the text after it changes further on, or when the new text goes on with
neither whitespace nor a line break. -/
theorem Lexeme.Reads.swap_of_safe {l : Lexeme} {x : List Char} (h : l.Reads (x ++ r)) (hr : Stop r)
    (hr' : Stops r') (hspace : l.token ≠ .whitespace)
    (hopen : l.token.opens? ≠ none → ∃ c ∈ x ++ r.take 1, StyleAudit.Sheet.isSpace c = false)
    (hsafe : x ≠ [] ∨ (newlineAhead r = false ∧ escapeTail r' = 0))
    (hlone : newlineAhead r = newlineAhead r' ∨ (x ≠ [] ∧ x ≠ ['\\'])) : l.Reads (x ++ r') := by
  have hswap := h.swap hr hr' hspace (fun _ => hsafe.imp_right And.left) hopen
    (hlone.imp_right fun hne => ⟨hne.2, fun hnil => absurd hnil hne.1⟩)
  rcases hswap with hreads | ⟨rfl, hreads⟩
  · exact hreads
  · have htail : escapeTail r' = 0 := (hsafe.resolve_left fun hne => hne rfl).2
    rw [htail, List.take_zero, List.drop_zero, List.append_nil] at hreads
    exact hreads

/-- More text before a change keeps it away. -/
theorem lone_append {x : List Char} (y : List Char)
    (hlone : newlineAhead r = newlineAhead r' ∨ (x ≠ [] ∧ x ≠ ['\\'])) :
    newlineAhead r = newlineAhead r' ∨ (y ++ x ≠ [] ∧ y ++ x ≠ ['\\']) := by
  refine hlone.imp_right fun hne => ⟨by simp [hne.1], fun heq => ?_⟩
  cases y with
  | nil => exact hne.2 heq
  | cons c cs => exact hne.1 (List.append_eq_nil_iff.1 (List.cons.inj heq).2).2

/-- A text with a closer in it is no lone backslash. -/
theorem not_lone_of_closer {x : List Char} {b : Bracket} (h : b.closer ∈ x) :
    x ≠ [] ∧ x ≠ ['\\'] := by
  constructor
  · exact List.ne_nil_of_mem h
  · rintro rfl
    cases b <;> simp [Bracket.closer] at h

/-- A closer is no whitespace. -/
theorem isSpace_closer (b : Bracket) : isSpace b.closer = false := by cases b <;> rfl

/-- **The lexemes of a forest** are the same when the text after it changes further on, or when the new
text goes on with neither whitespace nor a line break. -/
theorem Forest.splits_swap {f : Forest} {within : Option Bracket} {x : List Char}
    (hf : f.Balanced within) (h : Splits f.lexemes (x ++ r)) (hr : Stop r) (hr' : Stops r')
    (hsafe : x ≠ [] ∨ (newlineAhead r = false ∧ escapeTail r' = 0))
    (hlone : newlineAhead r = newlineAhead r' ∨ (x ≠ [] ∧ x ≠ ['\\'])) :
    Splits f.lexemes (x ++ r') := by
  induction f generalizing x within with
  | nil => trivial
  | token l rest ih =>
      obtain ⟨hl, hrest⟩ := h
      refine ⟨?_, ih hf.2.2 hrest hsafe hlone⟩
      rw [Forest.charsOf_lexemes, ← List.append_assoc] at hl ⊢
      by_cases hspace : l.token = .whitespace
      · exact .inl (isSpace_of_token (hl.imp_right fun hreads => ⟨_, hreads⟩) hspace)
      · refine hl.imp_right fun hreads => ?_
        exact hreads.swap_of_safe hr hr' hspace (fun hopen => absurd hf.1 hopen)
          (hsafe.imp_left fun hne => by simp [hne]) (lone_append _ hlone)
  | block o body closed rest ihb ihr =>
      obtain ⟨rfl, ho, hbody, hrest⟩ := hf
      obtain ⟨hl, htail⟩ := h
      rw [splits_append, splits_append] at htail
      obtain ⟨hb, hc, hr₀⟩ := htail
      rw [charsOf_append, Forest.charsOf_lexemes, charsOf_closerLexemes] at hb
      refine ⟨?_, splits_append.2 ⟨?_, splits_append.2 ⟨?_, ihr hrest hr₀ hsafe hlone⟩⟩⟩
      · -- the closer stands between the opener and the change
        simp only [charsOf_append, Forest.charsOf_lexemes, charsOf_closerLexemes] at hl ⊢
        rw [← List.append_assoc] at hl ⊢
        have hmem : o.bracket.closer ∈ body.source ++ (closerChars o true ++ rest.source) ++ x := by
          simp [closerChars]
        refine hl.imp_right fun hreads => ?_
        exact hreads.swap_of_safe hr hr' (not_whitespace_of_opens ho)
          (fun _ => ⟨_, List.mem_append_left _ hmem, isSpace_closer _⟩)
          (.inl (not_lone_of_closer hmem).1)
          (.inr (not_lone_of_closer hmem))
      · rw [charsOf_append, Forest.charsOf_lexemes, charsOf_closerLexemes]
        rw [← List.append_assoc] at hb ⊢
        have hmem : o.bracket.closer ∈ closerChars o true ++ rest.source ++ x := by
          simp [closerChars]
        exact ihb hbody hb (.inl (not_lone_of_closer hmem).1) (.inr (not_lone_of_closer hmem))
      · exact splits_closerLexemes o _

/-- **Before a character that no token goes on with**, lexemes do not depend on what comes later. -/
theorem splits_anchor {ls : List Lexeme} {c : Char} (hc : isStop c = true)
    (hspace : isSpace c = false) (h : Splits ls (c :: r)) : Splits ls (c :: r') := by
  have hnewline : ∀ x : List Char, newlineAhead (c :: x) = false := by
    intro x
    simp only [isSpace, Bool.or_eq_false_iff] at hspace
    exact hspace.2
  have htail : ∀ x : List Char, escapeTail (c :: x) = 0 := by
    intro x
    simp only [isSpace, isNewline, Bool.or_eq_false_iff, beq_eq_false_iff_ne] at hspace
    rw [escapeTail_cons, newlineSize_cons, if_neg (by simp [hspace.1]),
      if_neg (by simp [hspace.2]), if_neg (by simp [isNewline, hspace.2])]
  -- nothing that was begun before `c` goes on after it
  have hstops : Stops (c :: r') := ⟨⟨c, r', rfl, hc⟩, by rw [htail]; exact ⟨c, r', rfl, hc⟩⟩
  induction ls with
  | nil => trivial
  | cons l ls ih =>
      obtain ⟨hl, hls⟩ := h
      refine ⟨?_, ih hls⟩
      by_cases hl' : l.token = .whitespace
      · exact .inl (isSpace_of_token (hl.imp_right fun hreads => ⟨_, hreads⟩) hl')
      · refine hl.imp_right fun hreads => ?_
        exact hreads.swap_of_safe ⟨c, r, rfl, hc⟩ hstops hl'
          (fun _ => ⟨c, List.mem_append_right _ (by simp), hspace⟩)
          (.inr ⟨hnewline r, htail r'⟩) (.inl (by rw [hnewline, hnewline]))

/-- The characters that end a statement. -/
def isFence (c : Char) : Bool := c == ';' || c == '{' || c == '}'

/-- A statement ends with one of three characters. -/
theorem isFence_iff {c : Char} : isFence c = true ↔ c = ';' ∨ c = '{' ∨ c = '}' := by
  simp [isFence, or_assoc]

/-- **Before the end of a statement**, lexemes do not depend on what comes later. -/
theorem splits_fence {ls : List Lexeme} {c : Char} (hc : isFence c = true)
    (h : Splits ls (c :: r)) : Splits ls (c :: r') := by
  have hfence : isStop c = true ∧ isSpace c = false := by
    rcases isFence_iff.1 hc with rfl | rfl | rfl <;> exact ⟨rfl, rfl⟩
  exact splits_anchor hfence.1 hfence.2 h

/-- The lexeme ends a statement, or is a brace. -/
def Lexeme.IsFence (l : Lexeme) : Prop :=
  l.token = .semicolon ∨ l.token = .opening .curly ∨ l.token = .closing .curly

/-- A fence is one character that is no blank. -/
theorem Lexeme.IsFence.chars_eq {l : Lexeme} (h : l.IsFence) (hl : l.Reads r) :
    ∃ c, l.chars = [c] ∧ Sheet.isFence c = true ∧ c.utf8Size = 1 ∧ isBlank c = false := by
  rcases h with h | h | h
  · exact ⟨';', hl.chars_eq_of_mark (by rw [h]; rfl), by decide, rfl, by decide⟩
  · exact ⟨'{', hl.chars_eq_of_mark (by rw [h]; rfl), by decide, rfl, by decide⟩
  · exact ⟨'}', hl.chars_eq_of_mark (by rw [h]; rfl), by decide, rfl, by decide⟩

/-- A fence is read whatever follows. -/
theorem Lexeme.IsFence.reads {l : Lexeme} (h : l.IsFence) (hl : l.Reads r) (x : List Char) :
    l.Reads x := by
  rcases h with h | h | h
  · exact hl.of_mark (by rw [h]; rfl) x
  · exact hl.of_mark (by rw [h]; rfl) x
  · exact hl.of_mark (by rw [h]; rfl) x

/-- **Lexemes through the end of a statement** do not depend on what follows. -/
theorem splits_through_fence {ls : List Lexeme} {l : Lexeme} (hl : l.IsFence)
    (h : Splits (ls ++ [l]) r) (r' : List Char) : Splits (ls ++ [l]) r' := by
  obtain ⟨hls, hlast, -⟩ := splits_append.1 h
  have hreads : l.Reads (charsOf [] ++ r) := by
    refine hlast.resolve_left fun hspace => ?_
    rcases hl with hl | hl | hl <;> simp [hspace.token_eq] at hl
  obtain ⟨c, hchars, hfence, -⟩ := hl.chars_eq hreads
  rw [charsOf_cons, hchars] at hls
  refine splits_append.2 ⟨?_, .inr (hl.reads hreads _), trivial⟩
  rw [charsOf_cons, hchars]
  exact splits_fence hfence hls

/-! ## Reading the end of a forest again -/

/-- A forest read again: the same tokens and brackets, though a lexeme may have other characters. -/
structure Forest.Reread (f f' : Forest) : Prop where
  flat : f.Flat → f'.Flat
  balanced : ∀ within, f.Balanced within → f'.Balanced within
  problems : f.problems 0 = [] → f'.problems 0 = []
  marks_eq : (f'.marks 0).map Mark.bare = (f.marks 0).map Mark.bare

namespace Forest.Reread

/-- A forest is itself read again. -/
theorem refl (f : Forest) : f.Reread f := ⟨id, fun _ => id, id, rfl⟩

/-- What follows a token is read again. -/
theorem token {f f' : Forest} (l : Lexeme) (h : f.Reread f') :
    (Forest.token l f).Reread (.token l f') where
  flat hf := ⟨hf.1, h.flat hf.2⟩
  balanced within hf := ⟨hf.1, hf.2.1, h.balanced within hf.2.2⟩
  problems hf := by
    rw [Forest.problems, List.append_eq_nil_iff] at hf ⊢
    exact ⟨hf.1, problems_eq_nil _ (h.problems (problems_eq_nil _ hf.2 0)) _⟩
  marks_eq := by
    rw [marks, marks, List.map_cons, List.map_cons, map_bare_marks f' _ 0, h.marks_eq]
    exact congrArg _ (map_bare_marks f _ _)

/-- What follows a block is read again. -/
theorem block {f f' : Forest} (o : Lexeme) (body : Forest) (closed : Bool) (h : f.Reread f') :
    (Forest.block o body closed f).Reread (.block o body closed f') where
  flat hf := ⟨hf.1, h.flat hf.2⟩
  balanced within hf := ⟨hf.1, hf.2.1, hf.2.2.1, h.balanced within hf.2.2.2⟩
  problems hf := by
    rw [Forest.problems, List.append_eq_nil_iff] at hf ⊢
    exact ⟨hf.1, problems_eq_nil _ (h.problems (problems_eq_nil _ hf.2 0)) _⟩
  marks_eq := by
    rw [marks, marks, List.map_cons, List.map_cons, map_bare_marks f' _ 0, h.marks_eq]
    exact congrArg _ (map_bare_marks f _ _)

/-- The last token may have more characters. -/
theorem last (l : Lexeme) (cs : List Char) :
    (Forest.token l .nil).Reread (.token ⟨l.token, cs⟩ .nil) :=
  ⟨id, fun _ => id, id, rfl⟩

end Forest.Reread

/-- A single character is a single lexeme. -/
theorem eq_singleton_of_charsOf {ls : List Lexeme} {c : Char} (hls : ∀ l ∈ ls, l.chars ≠ [])
    (h : charsOf ls = [c]) : ∃ l, ls = [l] ∧ l.chars = [c] := by
  cases ls with
  | nil => simp at h
  | cons l ls =>
      rw [charsOf_cons, List.append_eq_singleton_iff] at h
      rcases h with ⟨hnil, -⟩ | ⟨hl, hnil⟩
      · exact absurd hnil (hls l (by simp))
      · cases ls with
        | nil => exact ⟨l, rfl, hl⟩
        | cons k ls =>
            rw [charsOf_cons, List.append_eq_nil_iff] at hnil
            exact absurd hnil.1 (hls k (by simp))

/-- A forest that holds something has lexemes. -/
theorem Forest.lexemes_ne_nil {f : Forest} (h : f ≠ .nil) : f.lexemes ≠ [] := by
  cases f with
  | nil => exact absurd rfl h
  | token | block => simp [lexemes]

/-- A forest that holds something has characters. -/
theorem Forest.source_ne_nil {f : Forest} (hsplits : Splits f.lexemes r) (h : f ≠ .nil) :
    f.source ≠ [] := by
  obtain ⟨l, ls, hls⟩ := List.exists_cons_of_ne_nil (lexemes_ne_nil h)
  rw [← Forest.charsOf_lexemes, hls, charsOf_cons]
  simp [chars_ne_nil_of_splits hsplits (l := l) (by simp [hls])]

/-- A forest is read again as `f'`, which takes the whitespace `w` from a text that goes on with
`rest`. -/
structure Forest.Takes (f f' : Forest) (w rest : List Char) : Prop where
  reread : f.Reread f'
  spaces : ∀ c ∈ w, isSpace c = true
  source_eq : f'.source = f.source ++ w
  splits : Splits f'.lexemes rest

/-- The last token of a forest. What it takes ends an escape. -/
theorem Forest.exists_takes_last {l : Lexeme} (hreads : l.Reads r) (hr : Stop r) (hr' : Stops r')
    (hopen : l.token.opens? = none) (hspace : l.token ≠ .whitespace) (hbad : l.token ≠ .badString)
    (hlone : l.chars = ['\\'] → newlineAhead r = newlineAhead r') :
    ∃ f' w rest, r' = w ++ rest ∧ (Forest.token l .nil).Takes f' w rest := by
  have hreads : l.Reads ([] ++ r) := hreads
  have hswap := hreads.swap hr hr' hspace (fun ht => absurd ht hbad)
    (fun hopen' => absurd hopen hopen') (by
      by_cases hchars : l.chars = ['\\']
      · exact .inl (hlone hchars)
      · exact .inr ⟨by simp, fun _ => hchars⟩)
  rcases hswap with hsame | ⟨-, hmore⟩
  · exact ⟨_, [], r', rfl, .refl _, by simp, by simp, .inr hsame, trivial⟩
  · exact ⟨_, r'.take (escapeTail r'), r'.drop (escapeTail r'), (List.take_append_drop _ _).symm,
      .last l _, fun c hc => isSpace_of_mem_escapeTail hc, by simp [source], .inr hmore, trivial⟩

namespace Forest.Takes

variable {f f' : Forest} {w rest : List Char}

/-- A token before a forest that is read again. -/
theorem token {l : Lexeme} (h : f.Takes f' w rest) (hl : l.IsSpace ∨ l.Reads (f.source ++ r))
    (hr : Stop r) (hr' : Stops (w ++ rest)) (hopen : l.token.opens? = none) (hsolid : f.source ≠ [])
    (hlone : f.source = ['\\'] → newlineAhead r = newlineAhead (w ++ rest)) :
    (Forest.token l f).Takes (.token l f') w rest where
  reread := h.reread.token l
  spaces := h.spaces
  source_eq := by simp [source, h.source_eq]
  splits := by
    refine ⟨?_, h.splits⟩
    rw [Forest.charsOf_lexemes, h.source_eq, List.append_assoc]
    by_cases hspace : l.token = .whitespace
    · exact .inl (isSpace_of_token (hl.imp_right fun hreads => ⟨_, hreads⟩) hspace)
    · refine hl.imp_right fun hreads => hreads.swap_of_safe hr hr' hspace
        (fun hopen' => absurd hopen hopen') (.inl hsolid) ?_
      by_cases hback : f.source = ['\\']
      · exact .inl (hlone hback)
      · exact .inr ⟨hsolid, hback⟩

/-- A block before a forest that is read again. Its closer stands before the change. -/
theorem block {o : Lexeme} {body : Forest} (h : f.Takes f' w rest)
    (ho : o.token.opens? = some o.bracket) (hbody : body.Balanced (some o.bracket))
    (hsplits : Splits (Forest.block o body true f).lexemes r) (hr : Stop r)
    (hr' : Stops (w ++ rest)) : (Forest.block o body true f).Takes (.block o body true f') w rest where
  reread := h.reread.block o body true
  spaces := h.spaces
  source_eq := by simp [source, h.source_eq]
  splits := by
    obtain ⟨hl, htail⟩ := hsplits
    rw [splits_append] at htail
    refine ⟨?_, splits_append.2 ⟨?_, splits_append.2 ⟨splits_closerLexemes o _, h.splits⟩⟩⟩
    · -- the opener
      simp only [charsOf_append, Forest.charsOf_lexemes, charsOf_closerLexemes, h.source_eq,
        List.append_assoc] at hl ⊢
      simp only [← List.append_assoc] at hl ⊢
      have hmem : o.bracket.closer ∈ body.source ++ closerChars o true ++ f.source := by
        simp [closerChars]
      refine hl.imp_right fun hreads => ?_
      rw [List.append_assoc _ w]
      exact hreads.swap_of_safe hr hr' (not_whitespace_of_opens ho)
        (fun _ => ⟨_, List.mem_append_left _ hmem, isSpace_closer _⟩)
        (.inl (not_lone_of_closer hmem).1) (.inr (not_lone_of_closer hmem))
    · -- the contents
      have hb := htail.1
      rw [charsOf_append, Forest.charsOf_lexemes, charsOf_closerLexemes] at hb ⊢
      rw [h.source_eq, List.append_assoc, List.append_assoc, ← List.append_assoc]
      have hmem : o.bracket.closer ∈ closerChars o true ++ f.source := by simp [closerChars]
      exact splits_swap hbody hb hr hr' (.inl (not_lone_of_closer hmem).1)
        (.inr (not_lone_of_closer hmem))

end Forest.Takes

/-- **The end of a forest** is read again when the text after it changes. The last lexeme may take
whitespace from the new text, which then ends an escape. -/
theorem Forest.exists_reread {f : Forest} {within : Option Bracket} (hf : f.Balanced within)
    (h : Splits f.lexemes r) (hr : Stop r) (hr' : Stops r')
    (hlast : ∀ l, f.lexemes.getLast? = some l → l.token ≠ .whitespace ∧ l.token ≠ .badString ∧
      (l.chars = ['\\'] → newlineAhead r = newlineAhead r')) :
    ∃ f' w rest, r' = w ++ rest ∧ f.Takes f' w rest := by
  induction f generalizing within with
  | nil => exact ⟨.nil, [], r', rfl, .refl _, by simp, rfl, trivial⟩
  | token l rest ih =>
      by_cases hnil : rest = .nil
      · subst hnil
        obtain ⟨hspace, hbad, hlone⟩ := hlast l rfl
        exact exists_takes_last (h.1.resolve_left fun hl => hspace hl.token_eq) hr hr' hf.1 hspace
          hbad hlone
      · -- the last lexeme is one of the rest
        have hlast' : ∀ k, rest.lexemes.getLast? = some k →
            (Forest.token l rest).lexemes.getLast? = some k := by
          intro k hk
          rw [lexemes, List.getLast?_cons, hk, Option.getD_some]
        obtain ⟨rest', w, follow, rfl, htakes⟩ :=
          ih hf.2.2 h.2 fun k hk => hlast k (hlast' k hk)
        have hl := h.1
        rw [Forest.charsOf_lexemes] at hl
        refine ⟨_, w, follow, rfl, htakes.token hl hr hr' hf.1 (source_ne_nil h.2 hnil) fun hlone => ?_⟩
        rw [← Forest.charsOf_lexemes] at hlone
        obtain ⟨k, hk, hchars⟩ :=
          eq_singleton_of_charsOf (fun k hk => chars_ne_nil_of_splits h.2 hk) hlone
        exact (hlast k (hlast' k (by rw [hk]; rfl))).2.2 hchars
  | block o body closed rest _ ihr =>
      obtain ⟨rfl, ho, hbody, hrest⟩ := hf
      have hsplits := h.2
      rw [splits_append, splits_append] at hsplits
      obtain ⟨rest', w, follow, rfl, htakes⟩ :=
        ihr hrest hsplits.2.2 fun k hk => hlast k (by
          rw [lexemes, List.getLast?_cons, List.getLast?_append, List.getLast?_append, hk]
          rfl)
      exact ⟨_, w, follow, rfl, htakes.block ho hbody h hr hr'⟩

/-- A backslash that is a lexeme stands before a line break. -/
theorem Lexeme.Reads.newlineAhead_of_lone {l : Lexeme} (h : l.Reads r) (hr : Stop r)
    (hl : l.chars = ['\\']) : newlineAhead r = true := by
  obtain ⟨c, cs, hchars, -, hdrop⟩ := h
  rw [hl] at hchars
  obtain ⟨rfl, rfl⟩ := List.cons.inj hchars
  rw [List.nil_append, next_other rfl rfl (by decide)] at hdrop
  by_contra hline
  have hline : newlineAhead r = false := by simpa using hline
  have hident : identAhead ('\\' :: r) = true := by rw [identAhead, hline]; rfl
  -- the backslash would begin an escape
  have hsize : 1 < (scanIdentLike ('\\' :: r)).2 := by
    rw [scanIdentLike_eq]
    exact lt_of_lt_of_le (one_lt_scanName hr hline) (le_scanParen ..)
  rw [if_pos hident, afterFirst] at hdrop
  have hlen := congrArg List.length hdrop
  have hpos := hr.length_pos
  rw [List.length_drop] at hlen
  omega

/-! ## Gaps -/

/-- A lexeme that may stand between the entries of a selector list. -/
structure Lexeme.Loose (l : Lexeme) : Prop where
  kind : l.Dull ∨ l.token = .comma
  free : l.Free

/-- Whitespace may stand between the entries of a selector list. -/
theorem Lexeme.IsSpace.loose {l : Lexeme} (h : l.IsSpace) : l.Loose :=
  ⟨.inl (.inl h.token_eq), .inl h⟩

/-- What stands between the entries of a selector list. -/
theorem Lexeme.Loose.cases {l : Lexeme} (h : l.Loose) :
    l.IsSpace ∨ (l.token = .comment true ∧ ∃ inner, l.chars = '/' :: (inner ++ ['/'])) ∨
      (l.token = .comma ∧ l.chars = [',']) := by
  rcases h.free with hspace | hreads
  · exact .inl hspace
  · rcases h.kind with (hl | hl) | hl
    · exact .inl (isSpace_of_token (.inr ⟨[], hreads []⟩) hl)
    · exact .inr (.inl ⟨hl, ((hreads []).of_comment hl).2⟩)
    · exact .inr (.inr ⟨hl, (hreads []).chars_eq_of_mark (by rw [hl]; rfl)⟩)

/-- A lexeme of a text that is whitespace, a comment or a comma is read whatever follows. -/
theorem loose_of_kind {l : Lexeme} (h : l.IsSpace ∨ ∃ r, l.Reads r)
    (hkind : l.Dull ∨ l.token = .comma) : l.Loose := by
  refine ⟨hkind, ?_⟩
  rcases h with hspace | ⟨r, hreads⟩
  · exact .inl hspace
  · rcases hkind with (hl | hl) | hl
    · exact .inl (hreads.space_run hl).1
    · exact .inr (hreads.of_comment hl).1
    · exact .inr (hreads.of_mark (by rw [hl]; rfl))

/-- A gap begins with a stop. -/
theorem Lexeme.Loose.stop {l : Lexeme} (h : l.Loose) (r : List Char) : Stop (l.chars ++ r) := by
  rcases h.cases with hspace | ⟨-, inner, hl⟩ | ⟨-, hl⟩
  · obtain ⟨c, cs, hchars⟩ := List.exists_cons_of_ne_nil hspace.chars_ne_nil
    refine ⟨c, cs ++ r, by rw [hchars]; rfl, ?_⟩
    simp [isStop, hspace.all_space c (by simp [hchars])]
  · exact ⟨'/', _, by rw [hl]; rfl, rfl⟩
  · exact ⟨',', _, by rw [hl]; rfl, rfl⟩

/-- A gap that is not empty, or that a stop follows, begins with a stop. -/
theorem stop_gap {gap : List Lexeme} (hgap : ∀ l ∈ gap, l.Loose) (hr : gap = [] → Stop r) :
    Stop (charsOf gap ++ r) := by
  cases gap with
  | nil => exact hr rfl
  | cons l gap =>
      rw [charsOf_cons, List.append_assoc]
      exact (hgap l (by simp)).stop _

/-- Whitespace at the start of a text ends before the first character that is no whitespace. -/
theorem exists_append_of_spaces {a b v u : List Char} (h : a ++ b = v ++ u)
    (hv : ∀ c ∈ v, isSpace c = true) (hb : ∃ c cs, b = c :: cs ∧ isSpace c = false) :
    ∃ m, a = v ++ m ∧ u = m ++ b := by
  rcases List.append_eq_append_iff.1 h with ⟨m, rfl, hbm⟩ | ⟨m, hm, rfl⟩
  · cases m with
    | nil => exact ⟨[], by simp, by simpa using hbm.symm⟩
    | cons d m =>
        obtain ⟨c, cs, rfl, hc⟩ := hb
        obtain ⟨rfl, -⟩ := List.cons.inj hbm
        simp [hv c (by simp)] at hc
  · exact ⟨m, hm, rfl⟩

/-- The lexeme is whitespace, or begins with something else. -/
def Lexeme.Clear (l : Lexeme) : Prop := l.IsSpace ∨ ∃ c cs, l.chars = c :: cs ∧ isSpace c = false

/-- A loose lexeme begins with whitespace only if it is whitespace. -/
theorem Lexeme.Loose.clear {l : Lexeme} (h : l.Loose) : l.Clear := by
  rcases h.cases with hspace | ⟨-, inner, hl⟩ | ⟨-, hl⟩
  · exact .inl hspace
  · exact .inr ⟨'/', _, hl, by decide⟩
  · exact .inr ⟨',', [], hl, by decide⟩

/-- A lexeme that splits begins with whitespace only if it is whitespace. -/
theorem clear_of_splits {ls : List Lexeme} (h : Splits ls r) {l : Lexeme} (hl : l ∈ ls) :
    l.Clear := by
  rcases isSpace_or_reads_of_splits h hl with hspace | ⟨r', hreads⟩
  · exact .inl hspace
  · by_cases htoken : l.token = .whitespace
    · exact .inl (hreads.space_run htoken).1
    · obtain ⟨c, cs, hchars⟩ := List.exists_cons_of_ne_nil hreads.chars_ne_nil
      exact .inr ⟨c, cs, hchars, hreads.not_isSpace htoken hchars⟩

/-- **Lexemes without the whitespace at their start.** -/
theorem exists_trimStart {ls : List Lexeme} (hls : ∀ l ∈ ls, l.Clear) {v u : List Char}
    (h : charsOf ls = v ++ u) (hv : ∀ c ∈ v, isSpace c = true) :
    ∃ cut left tail, ls = cut ++ tail ∧ charsOf (left ++ tail) = u ∧ (∀ l ∈ cut, l.IsSpace) ∧
      ∀ l ∈ left, l.IsSpace := by
  induction ls generalizing v with
  | nil =>
      obtain ⟨rfl, rfl⟩ := List.append_eq_nil_iff.1 h.symm
      exact ⟨[], [], [], rfl, rfl, by simp, by simp⟩
  | cons l ls ih =>
      cases v with
      | nil => exact ⟨[], [], l :: ls, rfl, h, by simp, by simp⟩
      | cons c v =>
          have hspace : l.IsSpace := by
            rcases hls l (by simp) with hspace | ⟨d, ds, hl, hd⟩
            · exact hspace
            · rw [charsOf_cons, hl] at h
              rw [(List.cons.inj h).1, hv c (by simp)] at hd
              exact absurd hd (by decide)
          rw [charsOf_cons] at h
          rcases List.append_eq_append_iff.1 h with ⟨m, hm, hrest⟩ | ⟨m, hm, hrest⟩
          · obtain ⟨cut, left, tail, rfl, hu, hcut, hleft⟩ :=
              ih (fun k hk => hls k (by simp [hk])) hrest fun d hd => hv d (by simp [hm, hd])
            refine ⟨l :: cut, left, tail, rfl, hu, ?_, hleft⟩
            simpa using ⟨hspace, hcut⟩
          · -- the whitespace that is taken ends with this lexeme or in it
            by_cases hnil : m = []
            · exact ⟨[l], [], ls, rfl, by simp [hrest, hnil], by simpa using hspace, by simp⟩
            · refine ⟨[l], [⟨.whitespace, m⟩], ls, rfl, by simp [hrest], by simpa using hspace, ?_⟩
              rintro k hk
              rw [List.mem_singleton.1 hk]
              exact ⟨rfl, hnil, fun d hd => hspace.all_space d (by simp [hm, hd])⟩

/-- Whitespace at the start of a balanced forest is a run of tokens in front of it. -/
theorem Forest.exists_tokens_of_lexemes {f : Forest} {within : Option Bracket}
    (hf : f.Balanced within) {cut tail : List Lexeme} (h : f.lexemes = cut ++ tail)
    (hcut : ∀ l ∈ cut, l.IsSpace) : ∃ g, f = .tokens cut g ∧ g.lexemes = tail := by
  induction cut generalizing f with
  | nil => exact ⟨f, rfl, h⟩
  | cons l cut ih =>
      cases f with
      | nil => simp [lexemes] at h
      | token k rest =>
          obtain ⟨rfl, hrest⟩ := List.cons.inj h
          obtain ⟨g, rfl, hg⟩ := ih hf.2.2 hrest fun m hm => hcut m (by simp [hm])
          exact ⟨g, rfl, hg⟩
      | block o body closed rest =>
          obtain ⟨rfl, -⟩ := List.cons.inj h
          exact absurd (hcut o (by simp)).token_eq (not_whitespace_of_opens hf.2.1)

/-- **A forest without the whitespace at its start** shows the same. -/
theorem Forest.exists_trimmed {f : Forest} {within : Option Bracket} {context : Context}
    {depth : Nat} {faces : List (List String × Nat)} (hf : f.Balanced within)
    (hsplits : Splits f.lexemes r) (hshows : f.Shows context depth faces) {v u : List Char}
    (h : f.source = v ++ u) (hv : ∀ c ∈ v, isSpace c = true) :
    ∃ g : Forest, g.source = u ∧ Splits g.lexemes r ∧ g.Balanced within ∧
      g.Shows context depth faces := by
  have hclear : ∀ l ∈ f.lexemes, l.Clear := fun l hl => clear_of_splits hsplits hl
  obtain ⟨cut, left, tail, hlex, hu, hcut, hleft⟩ :=
    exists_trimStart hclear ((Forest.charsOf_lexemes f).trans h) hv
  obtain ⟨g, rfl, rfl⟩ := Forest.exists_tokens_of_lexemes hf hlex hcut
  -- what is left of the whitespace shows nothing and opens nothing
  have hbracket : ∀ l ∈ left, l.token.opens? = none ∧ l.token.closes? = none := fun l hl => by
    rw [(hleft l hl).token_eq]
    exact ⟨rfl, rfl⟩
  refine ⟨.tokens left g, ?_, ?_, ?_, ?_⟩
  · rw [Forest.source_tokens, ← hu, charsOf_append, Forest.charsOf_lexemes]
  · rw [Forest.lexemes_tokens, splits_append]
    rw [Forest.lexemes_tokens, splits_append] at hsplits
    exact ⟨splits_free (fun l hl => .inl (hleft l hl)) _, hsplits.2⟩
  · rw [Forest.tokens_eq_append] at hf
    exact hf.of_append.2.tokens hbracket
  · rw [shows_tokens_iff fun l hl => .inl (hleft l hl).token_eq]
    rwa [shows_tokens_iff fun l hl => .inl (hcut l hl).token_eq] at hshows

/-- **A gap without the blanks at its end.** -/
theorem exists_trimEnd {gap : List Lexeme} (hgap : ∀ l ∈ gap, l.Loose) {u t : List Char}
    (h : charsOf gap = u ++ t) (ht : ∀ c ∈ t, isBlank c = true) :
    ∃ gap', charsOf gap' = u ∧ ∀ l ∈ gap', l.IsSpace ∨ l ∈ gap := by
  induction gap using List.reverseRecOn generalizing t with
  | nil => exact ⟨[], (List.append_eq_nil_iff.1 h.symm).1.symm, by simp⟩
  | append_singleton gap l ih =>
      have ih {t' : List Char} (h' : charsOf gap = u ++ t') (ht' : ∀ c ∈ t', isBlank c = true) :
          ∃ gap', charsOf gap' = u ∧ ∀ k ∈ gap', k.IsSpace ∨ k ∈ gap ++ [l] := by
        obtain ⟨gap', hu, hmem⟩ := ih (fun k hk => hgap k (by simp [hk])) h' ht'
        exact ⟨gap', hu, fun k hk => (hmem k hk).imp_right fun hk => by simp [hk]⟩
      by_cases hnil : t = []
      · exact ⟨gap ++ [l], by rw [h, hnil, List.append_nil], fun k hk => .inr hk⟩
      · -- the last lexeme ends with a blank, so it is whitespace
        have hspace : l.IsSpace := by
          obtain ⟨t', c, rfl⟩ := List.eq_nil_or_concat t |>.resolve_left hnil
          have hc := ht c (by simp)
          have hend : ∀ d inner, l.chars = inner ++ [d] → d = c := by
            intro d inner hl
            rw [charsOf_append, charsOf_cons, charsOf_nil, hl, List.append_nil, List.concat_eq_append,
              ← List.append_assoc, ← List.append_assoc] at h
            simpa using List.append_inj_right' h rfl
          rcases (hgap l (by simp)).cases with hspace | ⟨-, inner, hl⟩ | ⟨-, hl⟩
          · exact hspace
          · rw [← hend '/' ('/' :: inner) (by rw [hl]; rfl)] at hc
            exact absurd hc (by decide)
          · rw [← hend ',' [] hl] at hc
            exact absurd hc (by decide)
        simp only [charsOf_append, charsOf_cons, charsOf_nil, List.append_nil] at h
        rcases List.append_eq_append_iff.1 h with ⟨m, rfl, hm⟩ | ⟨m, hm, rfl⟩
        · by_cases hm₀ : m = []
          · exact @ih [] (by simp [hm₀]) (by simp)
          · refine ⟨gap ++ [⟨.whitespace, m⟩], by simp, fun k hk => ?_⟩
            rcases List.mem_append.1 hk with hk | hk
            · exact .inr (by simp [hk])
            · rw [List.mem_singleton.1 hk]
              exact .inl ⟨rfl, hm₀, fun c hc => hspace.all_space c (by simp [hm, hc])⟩
        · exact ih hm fun c hc => ht c (by simp [hc])

/-- A comma stands in the gap, or a brace follows it. -/
def Held (gap : List Lexeme) (r : List Char) : Prop :=
  (∃ l ∈ gap, l.token = .comma) ∨ ∃ cs, r = '{' :: cs

/-- Whitespace that a gap begins with is whitespace of the gap. -/
theorem Held.exists_append {gap : List Lexeme} (h : Held gap r) (hgap : ∀ l ∈ gap, l.Loose)
    {w rest : List Char} (heq : charsOf gap ++ r = w ++ rest) (hw : ∀ c ∈ w, isSpace c = true) :
    ∃ u, charsOf gap = w ++ u ∧ rest = u ++ r := by
  rcases h with ⟨l, hl, hcomma⟩ | ⟨cs, rfl⟩
  · obtain ⟨a, b, rfl⟩ := List.append_of_mem hl
    have hchars : l.chars = [','] := by
      rcases (hgap l hl).cases with hspace | ⟨hcomment, -⟩ | ⟨-, hchars⟩
      · simp [hspace.token_eq] at hcomma
      · simp [hcomment] at hcomma
      · exact hchars
    have hcut : charsOf (a ++ l :: b) ++ r = charsOf a ++ (',' :: (charsOf b ++ r)) := by
      simp [hchars]
    rw [hcut] at heq
    obtain ⟨m, hm, hrest⟩ := exists_append_of_spaces heq hw ⟨_, _, rfl, rfl⟩
    exact ⟨m ++ (',' :: charsOf b), by simp [hm, hchars], by simp [hrest]⟩
  · exact exists_append_of_spaces heq hw ⟨_, _, rfl, rfl⟩

/-- A gap without the whitespace at its start is a gap. -/
theorem Held.exists_trimStart {gap : List Lexeme} (h : Held gap r) (hgap : ∀ l ∈ gap, l.Loose)
    {w rest : List Char} (heq : charsOf gap ++ r = w ++ rest) (hw : ∀ c ∈ w, isSpace c = true) :
    ∃ gap', charsOf gap = w ++ charsOf gap' ∧ rest = charsOf gap' ++ r ∧ (∀ l ∈ gap', l.Loose) ∧
      ((∃ l ∈ gap, l.token = .comma) → ∃ l ∈ gap', l.token = .comma) := by
  obtain ⟨u, hu, hrest⟩ := h.exists_append hgap heq hw
  obtain ⟨cut, left, tail, rfl, rfl, hcut, hleft⟩ := Sheet.exists_trimStart (fun l hl => (hgap l hl).clear) hu hw
  refine ⟨left ++ tail, hu, hrest, ?_, ?_⟩
  · intro l hl
    rcases List.mem_append.1 hl with hl | hl
    · exact (hleft l hl).loose
    · exact hgap l (by simp [hl])
  · rintro ⟨l, hl, hcomma⟩
    rcases List.mem_append.1 hl with hl | hl
    · simp [(hcut l hl).token_eq] at hcomma
    · exact ⟨l, by simp [hl], hcomma⟩

/-- A gap goes on with a stop, also after the whitespace that ends an escape. -/
theorem Held.stops {gap : List Lexeme} (h : Held gap r) (hgap : ∀ l ∈ gap, l.Loose) :
    Stops (charsOf gap ++ r) := by
  have hstop {gap' : List Lexeme} (hgap' : ∀ l ∈ gap', l.Loose)
      (hcomma : (∃ l ∈ gap, l.token = .comma) → ∃ l ∈ gap', l.token = .comma) :
      Stop (charsOf gap' ++ r) := by
    refine stop_gap hgap' fun hnil => ?_
    rcases h with hc | ⟨cs, rfl⟩
    · obtain ⟨l, hl, -⟩ := hcomma hc
      simp [hnil] at hl
    · exact ⟨'{', cs, rfl, rfl⟩
  refine ⟨hstop hgap id, ?_⟩
  obtain ⟨gap', -, hrest, hgap', hcomma⟩ := h.exists_trimStart hgap
    (List.take_append_drop (escapeTail (charsOf gap ++ r)) _).symm
    fun c hc => isSpace_of_mem_escapeTail hc
  rw [hrest]
  exact hstop hgap' hcomma

/-- **An entry before another gap** is read again, with what it takes from the gap. -/
theorem Forest.exists_reread_gap {f : Forest} {within : Option Bracket} {gap : List Lexeme}
    {tail : List Char} (hf : f.Balanced within) (h : Splits f.lexemes r) (hr : Stop r)
    (hgap : ∀ l ∈ gap, l.Loose) (hheld : Held gap tail)
    (hlast : ∀ l, f.lexemes.getLast? = some l → l.token ≠ .whitespace ∧ l.token ≠ .badString ∧
      (l.chars = ['\\'] → newlineAhead r = newlineAhead (charsOf gap ++ tail))) :
    ∃ f' gap', f.Reread f' ∧ f'.source ++ charsOf gap' = f.source ++ charsOf gap ∧
      (∀ l ∈ gap', l.Loose) ∧
      ((∃ l ∈ gap, l.token = .comma) → ∃ l ∈ gap', l.token = .comma) ∧
      Splits f'.lexemes (charsOf gap' ++ tail) := by
  obtain ⟨f', w, rest, heq, htakes⟩ := exists_reread hf h hr (hheld.stops hgap) hlast
  obtain ⟨gap', hchars, rfl, hgap', hcomma⟩ := hheld.exists_trimStart hgap heq htakes.spaces
  exact ⟨f', gap', htakes.reread, by rw [htakes.source_eq, hchars, List.append_assoc], hgap',
    hcomma, htakes.splits⟩

end StyleAudit.Sheet
