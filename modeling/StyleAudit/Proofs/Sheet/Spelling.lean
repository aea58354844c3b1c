import Mathlib
import StyleAudit.Proofs.Sheet.Layout
import StyleAudit.Selector.Unused

/-! # How an entry is spelled

The text of an entry is rebuilt from its tokens, with names written in one normal form. A name that
needs no escape is written as it is. An escape leaves a backslash, and with it a character that may
make the selector look ambiguous.

* **`tokensIn span pos ls`** — the tokens of a sequence that stand in a span.
* **`text_eq_render`** — the text of an entry is that of its tokens.
* **`Lexeme.Reads.null_not_mem`** — the names of tokens hold no null.
* **`renderIdent_cases`** — a name is written as it is, or shows a character that only ambiguous
  selectors have, or holds a character of `quietEscapes`. -/

namespace StyleAudit.Sheet

open Text

/-! ## The tokens of an entry -/

/-- The tokens of lexemes that begin at `pos`, as far as they stand in a span. -/
def tokensIn (span : Span) : (pos : Nat) → List Lexeme → List Token
  | _, [] => []
  | pos, l :: ls =>
      let tokens := tokensIn span (pos + byteSize l.chars) ls
      if span.start ≤ pos ∧ pos + byteSize l.chars ≤ span.stop then l.token :: tokens else tokens

/-- Whether a token is a comment. -/
def Token.isComment : Token → Bool
  | .comment _ => true
  | _ => false

/-- The tokens of a text that stand in a span, without comments. -/
def spelling (text : String) (span : Span) : List Token :=
  (tokensIn span 0 (lexemes text.toList)).filter (!·.isComment)

/-- The tokens of two sequences. -/
theorem tokensIn_append (span : Span) (pos : Nat) (ks ls : List Lexeme) :
    tokensIn span pos (ks ++ ls) =
      tokensIn span pos ks ++ tokensIn span (pos + byteSize (charsOf ks)) ls := by
  induction ks generalizing pos with
  | nil => rfl
  | cons k ks ih =>
      simp only [List.cons_append, tokensIn, ih, charsOf_cons, byteSize_append, Nat.add_assoc]
      split <;> rfl

/-- Lexemes outside a span have no tokens in it. -/
theorem tokensIn_eq_nil {span : Span} {pos : Nat} {ls : List Lexeme}
    (hne : ∀ l ∈ ls, l.chars ≠ [])
    (h : pos + byteSize (charsOf ls) ≤ span.start ∨ span.stop ≤ pos) :
    tokensIn span pos ls = [] := by
  induction ls generalizing pos with
  | nil => rfl
  | cons l ls ih =>
      have hl := byteSize_pos_of_ne_nil (hne l (by simp))
      rw [charsOf_cons, byteSize_append] at h
      rw [tokensIn, if_neg (by omega), ih (fun k hk => hne k (by simp [hk])) (by omega)]

/-- Lexemes inside a span have all their tokens in it. -/
theorem tokensIn_eq_map {span : Span} {pos : Nat} {ls : List Lexeme} (hlow : span.start ≤ pos)
    (hhigh : pos + byteSize (charsOf ls) ≤ span.stop) :
    tokensIn span pos ls = ls.map Lexeme.token := by
  induction ls generalizing pos with
  | nil => rfl
  | cons l ls ih =>
      rw [charsOf_cons, byteSize_append] at hhigh
      rw [tokensIn, if_pos (by omega), ih (by omega) (by omega), List.map_cons]

/-- The tokens of a span that is made of whole lexemes. -/
theorem tokensIn_middle {front mid back : List Lexeme} {pos : Nat}
    (hne : ∀ l ∈ front ++ (mid ++ back), l.chars ≠ []) :
    tokensIn ⟨pos + byteSize (charsOf front),
      pos + byteSize (charsOf front) + byteSize (charsOf mid)⟩ pos (front ++ (mid ++ back)) =
        mid.map Lexeme.token := by
  have hfront : ∀ l ∈ front, l.chars ≠ [] := fun l hl => hne l (by simp [hl])
  have hback : ∀ l ∈ back, l.chars ≠ [] := fun l hl => hne l (by simp [hl])
  rw [tokensIn_append, tokensIn_append, tokensIn_eq_nil hfront (.inl le_rfl),
    tokensIn_eq_map le_rfl le_rfl, tokensIn_eq_nil hback (.inr le_rfl)]
  simp

/-- **An entry is a core of the head of its rule.** -/
theorem Origin.exists_core {text : String} {r : Rule} (g : Origin 0 (lexemes text.toList) r)
    {e : Entry} (he : e ∈ r.entries) :
    ∃ a core b : Forest, g.head = a ++ (core ++ b) ∧
      IsCore (core.marks (byteSize (charsOf g.before) + a.size)) ∧
      e = coreEntry (core.marks (byteSize (charsOf g.before) + a.size)) := by
  obtain ⟨gap, segments, hmarks, hseg, hentries, -⟩ := g.exists_segments
  rw [hentries] at he
  obtain ⟨s, hs, rfl⟩ := List.mem_map.1 he
  obtain ⟨left, right, rfl⟩ := List.append_of_mem hs
  have hcore : IsCore s.core := by
    have hrest : ∀ left : List Segment, Spelled (left ++ s :: right) → IsCore s.core := by
      intro left
      induction left with
      | nil => exact fun h => h.1
      | cons t left ih => exact fun h => ih h.2.2.2
    exact hrest left hseg
  -- the marks before the core, the core, and the marks after it cut the head
  have hcut : g.head.marks (byteSize (charsOf g.before)) =
      (gap ++ left.flatMap Segment.marks) ++ (s.core ++ (s.gap ++ right.flatMap Segment.marks)) := by
    rw [hmarks]
    simp [Segment.marks]
  obtain ⟨a, rest, hhead, -, hrest⟩ := Forest.exists_append_of_marks hcut
  obtain ⟨core, b, rfl, hcoreMarks, -⟩ := Forest.exists_append_of_marks hrest
  refine ⟨a, core, b, hhead, ?_, ?_⟩
  · rw [hcoreMarks]
    exact hcore
  · rw [hcoreMarks]
    rfl

/-- The tokens of an entry are those of its core. -/
theorem Origin.spelling_eq {text : String} {r : Rule} (g : Origin 0 (lexemes text.toList) r)
    {a core b : Forest} (hhead : g.head = a ++ (core ++ b))
    (hcore : IsCore (core.marks (byteSize (charsOf g.before) + a.size))) :
    spelling text (coreEntry (core.marks (byteSize (charsOf g.before) + a.size))).span =
      (core.lexemes.map Lexeme.token).filter (!·.isComment) := by
  have hlex : lexemes text.toList = (g.before ++ a.lexemes) ++ (core.lexemes ++ (b.lexemes ++
      (g.brace :: (g.body.lexemes ++ (closerLexemes g.brace r.closed ++ g.after))))) := by
    refine g.lexemes_eq.trans ?_
    rw [hhead]
    simp
  have hne : ∀ l ∈ lexemes text.toList, l.chars ≠ [] := fun l hl =>
    (reads_of_mem_lexemes hl).choose_spec.chars_ne_nil
  have hneCore : ∀ l ∈ core.lexemes, l.chars ≠ [] := fun l hl => hne l (by rw [hlex]; simp [hl])
  have hspan := span_coreEntry (Forest.run_marks hneCore _) hcore
  have hsize : byteSize (charsOf g.before) + a.size =
      0 + byteSize (charsOf (g.before ++ a.lexemes)) := by
    rw [charsOf_append, byteSize_append, Forest.charsOf_lexemes, Forest.byteSize_source,
      Nat.zero_add]
  rw [Forest.marksChars_marks, ← Forest.charsOf_lexemes, hsize] at hspan
  rw [hsize, spelling, hspan]
  have hmiddle := @tokensIn_middle _ _ _ 0 (hlex ▸ hne)
  exact congrArg (List.filter (!·.isComment)) ((congrArg _ hlex).trans hmiddle)

/-- A token that shows has a solid mark. -/
theorem solid_of_isVisible {l : Lexeme} (h : l.token.isVisible = true) (pos : Nat) :
    (Mark.ofLexeme l pos).isSolid = true ∧ (Mark.ofLexeme l pos).kind ≠ .space := by
  cases ht : l.token <;>
    simp_all [Mark.isSolid, Mark.ofLexeme, Mark.Kind.ofToken, Token.isVisible]

/-- A comment has a mark that does not show. -/
theorem kind_of_isComment {l : Lexeme} (h : l.token.isComment = true) (pos : Nat) :
    (Mark.ofLexeme l pos).kind = .ignored := by
  cases ht : l.token <;>
    simp_all [Token.isComment, Mark.ofLexeme, Mark.Kind.ofToken, Token.isVisible]

/-- A comment opens no block. -/
theorem opens?_of_isComment {t : Token} (h : t.isComment = true) : t.opens? = none := by
  cases t <;> simp_all [Token.isComment, Token.opens?]

/-- The text of a head without whitespace and brackets is that of its tokens. -/
theorem marksText_eq_render {f : Forest} {within : Option Bracket} (hnest : f.Nested within)
    {ts : List Token} (hts : (f.lexemes.map Lexeme.token).filter (!·.isComment) = ts)
    (hshow : ∀ t ∈ ts, t.isVisible = true ∧ t.opens? = none) (started : Bool) (pos : Nat) :
    marksText started false (f.marks pos) = ts.flatMap Token.render := by
  induction f generalizing started pos ts with
  | nil =>
      obtain rfl := hts
      rfl
  | token l rest ih =>
      rw [Forest.lexemes, List.map_cons] at hts
      by_cases hcomment : l.token.isComment = true
      · -- a comment does not show
        rw [List.filter_cons_of_neg (by simp [hcomment])] at hts
        have hkind := kind_of_isComment hcomment pos
        rw [Forest.marks, marksText, if_neg (by simp [hkind]),
          if_neg (by simp [Mark.isSolid, hkind])]
        exact ih hnest.2.2 hts hshow started _
      · rw [List.filter_cons_of_pos (by simpa using hcomment)] at hts
        subst hts
        have hsolid := solid_of_isVisible (hshow l.token (by simp)).1 pos
        rw [Forest.marks, marksText, if_neg hsolid.2, if_pos hsolid.1,
          ih hnest.2.2 rfl (fun t ht => hshow t (by simp [ht])) true _, List.flatMap_cons]
        rfl
  | block o body closed rest _ _ =>
      -- the opening token would be one of the tokens
      have hopen := hnest.1
      have hcomment : o.token.isComment = false := by
        by_contra h
        rw [opens?_of_isComment (by simpa using h)] at hopen
        simp at hopen
      have hmem : o.token ∈ ts := by
        rw [← hts, Forest.lexemes, List.map_cons, List.filter_cons_of_pos (by simp [hcomment])]
        exact List.mem_cons_self
      rw [(hshow _ hmem).2] at hopen
      simp at hopen

/-- **The text of an entry is that of its tokens**, where none of them is whitespace or a bracket. -/
theorem text_eq_render {text : String} {r : Rule} (hr : r ∈ (Outline.ofText text).rules) {e : Entry}
    (he : e ∈ r.entries) {ts : List Token} (hts : spelling text e.span = ts)
    (hshow : ∀ t ∈ ts, t.isVisible = true ∧ t.opens? = none) :
    e.text = String.ofList (ts.flatMap Token.render) ∧
      ∀ t ∈ ts, ∃ l : Lexeme, l.token = t ∧ ∃ rest, l.Reads rest := by
  obtain ⟨g⟩ := nonempty_origin_ofText hr
  obtain ⟨a, core, b, hhead, hcore, rfl⟩ := g.exists_core he
  obtain ⟨within, hnest⟩ := g.nested
  rw [hhead] at hnest
  rw [g.spelling_eq hhead hcore] at hts
  constructor
  · exact congrArg String.ofList
      (marksText_eq_render hnest.append_right.append_left hts hshow false _)
  · intro t ht
    rw [← hts] at ht
    obtain ⟨l, hl, rfl⟩ := List.mem_map.1 (List.mem_filter.1 ht).1
    refine ⟨l, rfl, g.reads_head l ?_⟩
    rw [hhead]
    simp [hl]

/-! ## Names hold no null -/

/-- An escape stands for no null. -/
theorem scanEscape_ne_null (cs : List Char) : (scanEscape cs).1 ≠ '\x00' := by
  have hreplacement : replacement ≠ '\x00' := by decide
  have hscalar : ∀ n, scalar n ≠ '\x00' := by
    intro n
    rw [scalar]
    split
    · rename_i h
      intro hn
      have hval := congrArg Char.toNat hn
      rw [Char.toNat_ofNat, if_pos h.2] at hval
      exact h.1 hval
    · exact hreplacement
  cases cs with
  | nil => exact hreplacement
  | cons c cs =>
      rw [scanEscape]
      split
      · exact hscalar _
      · split
        · exact hreplacement
        · assumption

/-- A name that is read holds no null. -/
theorem null_not_mem_scanNameFrom (skip : Nat) (cs : List Char) :
    '\x00' ∉ (scanNameFrom skip cs).1 := by
  induction cs generalizing skip with
  | nil => simp [scanNameFrom]
  | cons c cs ih =>
      cases skip with
      | succ skip => exact ih skip
      | zero =>
          rw [scanNameFrom]
          split
          · rename_i hpart
            have hc : c ≠ '\x00' := by
              rintro rfl
              exact absurd hpart (by decide)
            simp [hc.symm, ih 0]
          · split
            · have hreplacement : '\x00' ≠ replacement := by decide
              simp [hreplacement, ih 0]
            · split
              · simp [(scanEscape_ne_null cs).symm, ih]
              · simp

/-- A hash has the name that is read after its mark. -/
theorem name_of_next_hash {c : Char} {cs name : List Char} {isId : Bool}
    (h : (Token.next c cs).1 = .hash name isId) : name = (scanName cs).1 := by
  have hident : (scanIdentLike (c :: cs)).1 ≠ .hash name isId := by
    rcases scanIdentLike_cases (c :: cs) with h | h | ⟨v, h⟩ | h <;> simp [h]
  have hnum : (scanNumeric (c :: cs)).1 ≠ .hash name isId := by
    rcases scanNumeric_cases (c :: cs) with ⟨n, h⟩ | ⟨n, h⟩ | ⟨n, unit, h⟩ <;> simp [h]
  unfold Token.next afterFirst matcherOr at h
  repeat' split at h
  all_goals
    first
    | with_reducible exact absurd h hnum
    | with_reducible exact absurd h hident
    | (rename_i hscan; rw [hscan]; exact (Token.hash.inj h).1.symm)
    | simp at h

/-- **The names of identifiers and hashes hold no null.** -/
theorem Lexeme.Reads.null_not_mem {l : Lexeme} {r : List Char} (h : l.Reads r) {name : List Char}
    (hname : l.token = .ident name ∨ ∃ isId, l.token = .hash name isId) : '\x00' ∉ name := by
  obtain ⟨c, cs, -, hnext, -⟩ := h
  rcases hname with hname | ⟨isId, hname⟩
  · rw [hname] at hnext
    rw [(name_of_next_ident hnext).2]
    exact null_not_mem_scanNameFrom 0 _
  · rw [hname] at hnext
    rw [name_of_next_hash hnext]
    exact null_not_mem_scanNameFrom 0 _

/-! ## Names that are written as they are -/

/-- The characters that are escaped in a name although no ambiguous selector has them. -/
def quietEscapes : List Char :=
  ['!', '"', '$', '\'', ')', ',', '/', ';', '<', '=', '?', '@', '\\', ']', '^', '\x60', '{', '|', '}']

/-- A name whose escapes, if it needs any, all show: it is no lone hyphen, holds none of
`quietEscapes`, and does not end with a dot or a hash. -/
def EscapesShow (name : List Char) : Prop :=
  name ≠ ['-'] ∧ (∀ c ∈ name, c ∉ quietEscapes) ∧ name.getLast? ≠ some '.' ∧
    name.getLast? ≠ some '#'

/-- A text shows that its selector is ambiguous: it has a character of a contextual selector, or
something after an escaped dot or hash. -/
def ShowsAmbiguous (cs : List Char) : Prop :=
  (∃ c ∈ cs, c ∈ Selector.contextual) ∨
    ∃ x c y, cs = x ++ '\\' :: c :: y ∧ (c = '.' ∨ c = '#') ∧ y ≠ []

/-- The kinds of characters of a name: those that are written as they are, the null, the control
characters, and the others that are escaped. -/
theorem renderNameChar_cases (c : Char) :
    renderNameChar c = [c] ∨ c = '\x00' ∨ ' ' ∈ renderNameChar c ∨
      (renderNameChar c = ['\\', c] ∧
        (c ∈ quietEscapes ∨ c ∈ Selector.contextual ∨ c = '.' ∨ c = '#')) := by
  by_cases hascii : 128 ≤ c.toNat
  · exact .inl (by simp [renderNameChar, hascii])
  · -- one look at each of the others
    have hall : ∀ n < 128, renderNameChar (Char.ofNat n) = [Char.ofNat n] ∨
        Char.ofNat n = '\x00' ∨ ' ' ∈ renderNameChar (Char.ofNat n) ∨
        (renderNameChar (Char.ofNat n) = ['\\', Char.ofNat n] ∧ (Char.ofNat n ∈ quietEscapes ∨
          Char.ofNat n ∈ Selector.contextual ∨ Char.ofNat n = '.' ∨ Char.ofNat n = '#')) := by
      decide +kernel
    have h := hall c.toNat (by omega)
    rwa [Char.ofNat_toNat] at h

/-- A name is written as it is, or shows that its selector is ambiguous. -/
theorem renderName_cases {name : List Char} (hnull : '\x00' ∉ name)
    (hquiet : ∀ c ∈ name, c ∉ quietEscapes) (hdot : name.getLast? ≠ some '.')
    (hhash : name.getLast? ≠ some '#') :
    renderName name = name ∨ ShowsAmbiguous (renderName name) := by
  by_cases hplain : ∀ c ∈ name, renderNameChar c = [c]
  · refine .inl ?_
    rw [renderName, List.flatMap_congr hplain]
    simp
  · -- a character that is escaped shows in the text
    push Not at hplain
    obtain ⟨c, hc, hescaped⟩ := hplain
    obtain ⟨x, y, rfl⟩ := List.append_of_mem hc
    have htext : renderName (x ++ c :: y) = renderName x ++ (renderNameChar c ++ renderName y) := by
      simp [renderName]
    refine .inr ?_
    rcases renderNameChar_cases c with h | rfl | h | ⟨h, hkind⟩
    · exact absurd h hescaped
    · exact absurd hc hnull
    · exact .inl ⟨' ', by rw [htext]; simp [h], by decide⟩
    · rw [h] at htext
      rcases hkind with hkind | hkind | hkind
      · exact absurd hkind (hquiet c hc)
      · exact .inl ⟨c, by rw [htext]; simp, hkind⟩
      · refine .inr ⟨renderName x, c, renderName y, htext, hkind, ?_⟩
        -- the name does not end with the character
        cases y with
        | nil => rcases hkind with rfl | rfl <;> simp at hdot hhash
        | cons d y =>
            have hne : renderNameChar d ≠ [] := by
              unfold renderNameChar hexEscape
              split_ifs <;> simp
            simp [renderName, hne]

/-- An identifier is written like a name, apart from a digit in front and a lone hyphen. -/
theorem renderIdent_eq_or {name : List Char} (h : name ≠ ['-']) :
    renderIdent name = renderName name ∨ ' ' ∈ renderIdent name := by
  have hhyphen : renderNameChar '-' = ['-'] := by decide
  have hfirst : ∀ cs : List Char, renderFirst cs = renderName cs ∨ ' ' ∈ renderFirst cs := by
    intro cs
    cases cs with
    | nil => exact .inl rfl
    | cons c cs =>
        rw [renderFirst]
        split
        · exact .inr (by simp [hexEscape])
        · exact .inl rfl
  unfold renderIdent
  split
  · exact .inl (by simp [renderName, hhyphen])
  · exact absurd rfl h
  · rename_i rest _ _
    rcases hfirst rest with heq | hmem
    · exact .inl (by simp [heq, renderName, hhyphen])
    · exact .inr (by simp [hmem])
  · exact hfirst _

/-- **An identifier is written as it is, or shows that its selector is ambiguous**, as long as its
escapes show. -/
theorem renderIdent_cases {name : List Char} (hnull : '\x00' ∉ name) (h : EscapesShow name) :
    renderIdent name = name ∨ ShowsAmbiguous (renderIdent name) := by
  obtain ⟨hhyphen, hquiet, hdot, hhash⟩ := h
  rcases renderIdent_eq_or hhyphen with heq | hmem
  · rw [heq]
    exact renderName_cases hnull hquiet hdot hhash
  · exact .inr (.inl ⟨' ', hmem, by decide⟩)

/-- A dot or a hash with something after it is a fragment. -/
theorem hasFragment_append {c : Char} {ys : List Char} (hc : c = '.' ∨ c = '#') (hys : ys ≠ [])
    (xs : List Char) : Selector.hasFragment (xs ++ c :: ys) = true := by
  induction xs with
  | nil =>
      obtain ⟨d, ys, rfl⟩ := List.exists_cons_of_ne_nil hys
      rcases hc with rfl | rfl <;> simp [Selector.hasFragment]
  | cons x xs ih =>
      obtain ⟨d, ds, hd⟩ := List.exists_cons_of_ne_nil (show xs ++ c :: ys ≠ [] by simp)
      rw [hd] at ih
      rw [List.cons_append, hd, Selector.hasFragment, ih, Bool.or_true]

/-- A selector that shows it is ambiguous. -/
theorem ShowsAmbiguous.isAmbiguous {cs : List Char} (h : ShowsAmbiguous cs) (front : List Char) :
    Selector.isAmbiguous (String.ofList (front ++ cs)) = true := by
  rw [Selector.isAmbiguous, String.toList_ofList, Bool.or_eq_true]
  rcases h with ⟨c, hc, hcontext⟩ | ⟨x, c, y, rfl, hc, hy⟩
  · exact .inl (List.any_eq_true.2 ⟨c, List.mem_append_right _ hc, by simpa using hcontext⟩)
  · -- the backslash stands before the dot or the hash
    refine .inr ?_
    have htail : (front ++ (x ++ '\\' :: c :: y)).tail =
        (front ++ (x ++ ['\\'])).tail ++ c :: y := by
      rw [← List.tail_append_of_ne_nil (by simp)]
      simp
    rw [htail]
    exact hasFragment_append hc hy _

end StyleAudit.Sheet
