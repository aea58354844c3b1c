import Mathlib
import StyleAudit.Proofs.Sheet.Outcome
import StyleAudit.Proofs.Sheet.SelectorList
import StyleAudit.Proofs.Sheet.Spelling

/-! # What an edit makes of the head of a rule

The deletion of a rule leaves what stands before its selector list, and a shortened list takes the
place of the old one. Both are read again together with what comes next, so a rule can only be
edited with safety when four things do not stand in the way.

* **`Rule.Removable`** — what a rule needs for its edit to be read as intended.
* **`Forest.Sits`** — a forest between two fences of a text.
* **`Forest.Sits.bounds_of_editOf`** — an edit stays between the fences around its rule.
* **`Parted.exists_cleared`** — the deletion of a rule leaves whitespace and comments of its head.
* **`Parted.exists_shortened`** — a shortened list is the head of a style rule with the entries that
  stay. -/

namespace StyleAudit.Sheet

open Text

/-! ## Rules that can be removed -/

/-- Whether a token is whitespace or a comment. -/
def Token.isDull : Token → Bool
  | .whitespace | .comment _ => true
  | _ => false

/-- Whether a token is an at-keyword. -/
def Token.isAtKeyword : Token → Bool
  | .atKeyword _ => true
  | _ => false

/-- The tokens of a text that stand in a span, comments included. -/
def tokensOf (text : List Char) (span : Span) : List Token := tokensIn span 0 (lexemes text)

/-- What a rule needs for its edit to be read as intended. -/
structure Rule.Removable (targets : SelectorSet) (text : List Char) (r : Rule) : Prop where
  /-- The blanks after a rule that go with it are whitespace. -/
  spaces : r.fullyTargeted targets = true →
    ∀ c ∈ slice r.block.stop (extent text r).stop text, isSpace c = true
  /-- No comma stands before the selector list of a rule that goes. -/
  comma : r.fullyTargeted targets = true →
    ((tokensOf text ⟨0, r.prelude.start⟩).filter (!·.isDull)).getLast? ≠ some .comma
  /-- A selector list that loses its first entry does not become an at-rule or a custom property. -/
  starts : r.lead.text ∈ targets → ∀ e ∈ r.entries.find? fun e => decide (e.text ∉ targets),
    startsWith ['-', '-'] e.text.toList = false ∧
      ((tokensOf text e.span).head?.any Token.isAtKeyword) = false
  /-- No entry that stays in a shortened list ends with a backslash. -/
  ends : r.partlyTargeted targets = true → ∀ e ∈ r.entries, e.text ∉ targets →
    (tokensOf text e.span).getLast? ≠ some (.delim '\\')

instance (targets : SelectorSet) (text : List Char) (r : Rule) :
    Decidable (r.Removable targets text) :=
  decidable_of_iff
    ((r.fullyTargeted targets = true →
        (slice r.block.stop (extent text r).stop text).all isSpace = true) ∧
      (r.fullyTargeted targets = true →
        ((tokensOf text ⟨0, r.prelude.start⟩).filter (!·.isDull)).getLast? ≠ some .comma) ∧
      (r.lead.text ∈ targets →
        ∀ e ∈ r.entries.find? fun (e : Entry) => decide (e.text ∉ targets),
          startsWith ['-', '-'] e.text.toList = false ∧
            ((tokensOf text e.span).head?.any Token.isAtKeyword) = false) ∧
      (r.partlyTargeted targets = true → ∀ e ∈ r.entries, e.text ∉ targets →
        (tokensOf text e.span).getLast? ≠ some (.delim '\\')))
    ⟨fun h => ⟨fun hfull => List.all_eq_true.1 (h.1 hfull), h.2.1, h.2.2.1, h.2.2.2⟩,
      fun h => ⟨fun hfull => List.all_eq_true.2 (h.spaces hfull), h.comma, h.starts, h.ends⟩⟩

variable {targets : SelectorSet} {cs : List Char}

/-! ## Forests between fences -/

/-- A balanced forest between two fences of a text, or between a fence and an end of it. -/
structure Forest.Sits (cs : List Char) (front : List Lexeme) (f : Forest) (back : List Lexeme)
    (within : Option Bracket) : Prop where
  lexemes_eq : Sheet.lexemes cs = front ++ (f.lexemes ++ back)
  balanced : f.Balanced within
  front_fence : ∀ l, front.getLast? = some l → l.IsFence
  back_fence : ∀ l, back.head? = some l → l.IsFence

namespace Forest.Sits

variable {front back : List Lexeme} {f : Forest} {within : Option Bracket}

/-- The text around a forest. -/
theorem text_eq (h : f.Sits cs front back within) :
    cs = charsOf front ++ (f.source ++ charsOf back) := by
  have hchars := congrArg charsOf h.lexemes_eq
  rwa [Sheet.charsOf_lexemes, charsOf_append, charsOf_append, Forest.charsOf_lexemes] at hchars

/-- The lexemes of a forest split its text. -/
theorem splits (h : f.Sits cs front back within) : Splits f.lexemes (charsOf back) := by
  have hsplits := splits_lexemes cs
  rw [h.lexemes_eq, splits_append, splits_append] at hsplits
  simpa using hsplits.2.1

/-- The lexemes of a forest are read. -/
theorem reads (h : f.Sits cs front back within) {l : Lexeme} (hl : l ∈ f.lexemes) :
    ∃ r, l.Reads r :=
  @reads_of_mem_lexemes cs _ (by rw [h.lexemes_eq]; simp [hl])

/-- What stands before a forest ends with a character that is no blank. -/
theorem exists_before (h : f.Sits cs front back within) (hne : front ≠ []) :
    ∃ a c, charsOf front = a ++ [c] ∧ c.utf8Size = 1 ∧ isBlank c = false := by
  obtain ⟨ls, l, rfl⟩ := (List.eq_nil_or_concat' front).resolve_left hne
  obtain ⟨r, hl⟩ : ∃ r, l.Reads r := @reads_of_mem_lexemes cs _ (by rw [h.lexemes_eq]; simp)
  obtain ⟨c, hc, -, hsize, hblank⟩ := (h.front_fence l (by simp)).chars_eq hl
  exact ⟨charsOf ls, c, by simp [hc], hsize, hblank⟩

/-- What stands after a forest begins with a fence. -/
theorem exists_after (h : f.Sits cs front back within) (hne : back ≠ []) :
    ∃ c b, charsOf back = c :: b ∧ Sheet.isFence c = true ∧ isBlank c = false := by
  obtain ⟨l, ls, rfl⟩ := List.exists_cons_of_ne_nil hne
  obtain ⟨r, hl⟩ : ∃ r, l.Reads r := @reads_of_mem_lexemes cs _ (by rw [h.lexemes_eq]; simp)
  obtain ⟨c, hc, hfence, -, hblank⟩ := (h.back_fence l rfl).chars_eq hl
  exact ⟨c, charsOf ls, by simp [hc], hfence, hblank⟩

/-- What follows a statement that ends with a semicolon. -/
theorem semicolon {q : Forest} {l : Lexeme} (h : (q ++ .token l f).Sits cs front back within)
    (hl : l.token = .semicolon) : f.Sits cs (front ++ (q.lexemes ++ [l])) back within where
  lexemes_eq := by simp [h.lexemes_eq, Forest.lexemes]
  balanced := h.balanced.of_append.2.2.2
  front_fence k hk := by
    obtain rfl : l = k := by simpa [← List.append_assoc] using hk
    exact .inl hl
  back_fence := h.back_fence

/-- The body of a block between braces. -/
theorem body {q body rest : Forest} {o : Lexeme}
    (h : (q ++ .block o body true rest).Sits cs front back within) (ho : o.token = .opening .curly) :
    body.Sits cs (front ++ (q.lexemes ++ [o])) (closerOf .curly :: (rest.lexemes ++ back))
      (some .curly) where
  lexemes_eq := by
    have hbracket := o.bracket_of_curly ho
    simp [h.lexemes_eq, Forest.lexemes, closerLexemes, hbracket]
  balanced := by
    have hbracket := o.bracket_of_curly ho
    rw [← hbracket]
    exact h.balanced.of_append.2.2.2.1
  front_fence k hk := by
    obtain rfl : o = k := by simpa [← List.append_assoc] using hk
    exact .inr (.inl ho)
  back_fence k hk := by
    obtain rfl : closerOf .curly = k := by simpa using hk
    exact .inr (.inr rfl)

/-- What follows a block between braces. -/
theorem rest {q body rest : Forest} {o : Lexeme}
    (h : (q ++ .block o body true rest).Sits cs front back within) (ho : o.token = .opening .curly) :
    rest.Sits cs (front ++ (q.lexemes ++ (o :: (body.lexemes ++ [closerOf .curly])))) back
      within where
  lexemes_eq := by
    have hbracket := o.bracket_of_curly ho
    simp [h.lexemes_eq, Forest.lexemes, closerLexemes, hbracket]
  balanced := h.balanced.of_append.2.2.2.2
  front_fence k hk := by
    have hlast : front ++ (q.lexemes ++ (o :: (body.lexemes ++ [closerOf .curly]))) =
        (front ++ (q.lexemes ++ (o :: body.lexemes))) ++ [closerOf .curly] := by simp
    rw [hlast, List.getLast?_concat] at hk
    rw [← Option.some.inj hk]
    exact .inr (.inr rfl)
  back_fence := h.back_fence

/-- The rules of a forest are laid out between the fences around it. -/
theorem region (h : f.Sits cs front back within) (context : Context) (depth : Nat) :
    Region cs (byteSize (charsOf front)) (byteSize (charsOf front) + f.size) depth
      (outlineFrom context depth (byteSize (charsOf front)) [] f).rules :=
  region_outlineFrom ⟨h.text_eq, fun _ hl => h.reads hl, h.balanced.nested⟩ context depth

/-- The fence before a forest stops the blanks before a rule of it. -/
theorem le_extent_start (h : f.Sits cs front back within) {r : Rule} (p : Placement cs r)
    (hlow : byteSize (charsOf front) ≤ r.prelude.start) :
    byteSize (charsOf front) ≤ (extent cs r).start := by
  by_contra hlt
  have hne : front ≠ [] := by
    rintro rfl
    simp at hlt
  obtain ⟨a, c, hfront, hsize, hblank⟩ := h.exists_before hne
  have hat : At cs (byteSize a) c := by
    have htext := h.text_eq
    rw [hfront, List.append_assoc] at htext
    rw [htext]
    exact at_append_cons ..
  have hcount : byteSize (charsOf front) = byteSize a + 1 := by simp [hfront, hsize]
  rw [p.isBlank_of_at_before hat (by omega) (by omega)] at hblank
  exact absurd hblank (by decide)

/-- The fence after a forest stops the blanks after a rule of it. -/
theorem extent_stop_le (h : f.Sits cs front back within) {r : Rule} (p : Placement cs r)
    (hhigh : r.block.stop ≤ byteSize (charsOf front) + f.size) :
    (extent cs r).stop ≤ byteSize (charsOf front) + f.size := by
  by_contra hlt
  have htext := h.text_eq
  have hsize : (extent cs r).stop ≤ byteSize cs := by
    obtain ⟨a, b, hcut, hstop⟩ := isBoundary_iff.1 p.isBoundary_extent.2
    have := congrArg byteSize hcut
    rw [byteSize_append] at this
    omega
  have hne : back ≠ [] := by
    rintro rfl
    have := congrArg byteSize htext
    simp only [byteSize_append, charsOf_nil, byteSize_nil, Forest.byteSize_source] at this
    omega
  obtain ⟨c, b, hback, -, hblank⟩ := h.exists_after hne
  have hat : At cs (byteSize (charsOf front) + f.size) c := by
    rw [hback, ← List.append_assoc] at htext
    rw [htext, ← Forest.byteSize_source, ← byteSize_append]
    exact at_append_cons ..
  rw [p.isBlank_of_at_after hat (by omega) (by omega)] at hblank
  exact absurd hblank (by decide)

/-- **An edit stays between the fences** around its rule. -/
theorem bounds_of_editOf (h : f.Sits cs front back within) {context : Context} {depth : Nat}
    {r : Rule} (hr : r ∈ (outlineFrom context depth (byteSize (charsOf front)) [] f).rules)
    {e : Edit} (he : editOf targets cs r = some e) :
    byteSize (charsOf front) ≤ e.span.start ∧ e.span.start < e.span.stop ∧
      e.span.stop ≤ byteSize (charsOf front) + f.size := by
  have hregion := h.region context depth
  obtain ⟨p⟩ := hregion.placed r hr
  have hlow := hregion.low r hr
  have hhigh := hregion.high r hr
  have hlist := p.prelude_start_lt
  have hgap := p.prelude_stop_le
  have hblock := p.block_start_lt
  rcases editOf_eq_some_iff.1 he with ⟨-, rfl⟩ | ⟨-, rfl⟩
  · -- the whole rule goes, with blanks around it
    have hstart := p.extent_start_le
    have hstop := p.le_extent_stop
    refine ⟨h.le_extent_start p hlow, ?_, h.extent_stop_le p hhigh⟩
    simp only [Edit.delete]
    omega
  · -- its list is shortened
    simp only [shortenList]
    omega

end Forest.Sits

/-- What becomes of a forest at an offset when edits are replayed: a forest that is read before
`x`. -/
structure Forest.Turns (edits : List Edit) (pos : Nat) (within : Option Bracket) (f : Forest)
    (x : List Char) (f' : Forest) : Prop where
  source_eq : f'.source = Edit.replay edits pos f.source
  splits : Splits f'.lexemes x
  balanced : f'.Balanced within

/-! ## The tokens of a head -/

/-- The tokens before a cut of the lexemes. -/
theorem tokensOf_front {front back : List Lexeme} (hlex : lexemes cs = front ++ back) :
    tokensOf cs ⟨0, byteSize (charsOf front)⟩ = front.map Lexeme.token := by
  have hne : ∀ l ∈ [] ++ (front ++ back), l.chars ≠ [] := fun l hl => by
    rw [List.nil_append, ← hlex] at hl
    exact (reads_of_mem_lexemes hl).choose_spec.chars_ne_nil
  have hmiddle := @tokensIn_middle [] front back 0 hne
  rw [List.nil_append, ← hlex] at hmiddle
  simpa [tokensOf] using hmiddle

/-- The lexeme that ends a sequence is read with what follows. -/
theorem reads_of_getLast? {ls : List Lexeme} {r : List Char} (h : Splits ls r) {l : Lexeme}
    (hl : ls.getLast? = some l) : l.IsSpace ∨ l.Reads r := by
  obtain ⟨ks, rfl⟩ := List.getLast?_eq_some_iff.1 hl
  simpa [Splits] using (splits_append.1 h).2

/-- A backslash that is a lexeme stands for itself. -/
theorem Lexeme.Reads.token_of_lone {l : Lexeme} {r : List Char} (h : l.Reads r) (hr : Stop r)
    (hl : l.chars = ['\\']) : l.token = .delim '\\' := by
  have hline := h.newlineAhead_of_lone hr hl
  obtain ⟨c, ds, hchars, htoken, -⟩ := h
  rw [hl] at hchars
  obtain ⟨rfl, rfl⟩ := List.cons.inj hchars
  have hident : identAhead ('\\' :: r) = false := by rw [identAhead, hline]; rfl
  rw [List.nil_append, next_other rfl rfl (by decide), hident] at htoken
  exact htoken.symm

/-- An entry that does not begin with an at-keyword is no at-rule. -/
theorem atRule?_of_head {core : Forest} (hcore : IsCore (core.marks 0))
    (h : ((core.lexemes.map Lexeme.token).head?.any Token.isAtKeyword) = false) :
    atRule? (core.marks 0) = none := by
  have hsolid := hcore.head_solid
  cases core with
  | nil => rfl
  | token l rest =>
      have hl : (Mark.ofLexeme l 0).isSolid = true := hsolid
      have hkind : ∀ name, (Mark.ofLexeme l 0).kind ≠ .atKeyword name := by
        intro name hname
        cases ht : l.token <;>
          simp_all [Forest.lexemes, Token.isAtKeyword, Mark.ofLexeme, Mark.Kind.ofToken,
            Token.isVisible]
      rw [Forest.marks, atRule?, List.find?_cons_of_pos hl]
      cases hk : (Mark.ofLexeme l 0).kind with
      | atKeyword name => exact absurd hk (hkind name)
      | _ => simp only [hk]
  | block o body closed rest => rfl

/-! ## The head of a rule -/

/-- The head of a style rule of a text, cut into a gap and parts. -/
structure Parted (cs : List Char) (within : Option Bracket) (front : List Lexeme) (r : Rule) where
  gap : List Lexeme
  first : Part
  parts : List Part
  brace : Lexeme
  back : List Lexeme
  lexemes_eq : lexemes cs =
    front ++ (gap ++ ((Part.join (first :: parts)).lexemes ++ brace :: back))
  brace_eq : brace.chars = ['{']
  flat : (Part.join (first :: parts)).Flat
  balanced : (Part.join (first :: parts)).Balanced within
  problems_eq : (Part.join (first :: parts)).problems
    (byteSize (charsOf front) + byteSize (charsOf gap)) = []
  splits : Splits (Part.join (first :: parts)).lexemes ('{' :: charsOf back)
  loose : ∀ l ∈ gap, l.Loose
  listed : Part.Listed (first :: parts)
  entries_eq : r.entries =
    (Part.located (byteSize (charsOf front) + byteSize (charsOf gap)) (first :: parts)).map Part.entry
  /-- The head is no at-rule. -/
  atRule : (∃ l ∈ gap, l.token = .comma) ∨ atRule? (first.core.marks 0) = none
  /-- The head is no custom property. -/
  plain : startsWith ['-', '-'] first.core.entryText.toList = false

/-- **The head of a style rule** is a gap and parts. -/
theorem exists_parted {front back : List Lexeme} {q : Forest} {o : Lexeme} {r : Rule}
    {within : Option Bracket} (hlex : lexemes cs = front ++ (q.lexemes ++ o :: back))
    (ho : o.token = .opening .curly) (hflat : q.Flat) (hbalanced : q.Balanced within)
    (hproblems : q.problems (byteSize (charsOf front)) = [])
    (hstyle : bodyOf (q.marks (byteSize (charsOf front))) = .style r.lead r.others) :
    ∃ g : Parted cs within front r, q = .tokens g.gap (Part.join (g.first :: g.parts)) := by
  have hbrace : o.chars = ['{'] := by
    obtain ⟨x, hreads⟩ := @reads_of_mem_lexemes cs o (by simp [hlex])
    exact hreads.chars_eq_of_mark (by rw [ho]; rfl)
  have hsplits : Splits q.lexemes ('{' :: charsOf back) := by
    have hcut := splits_lexemes cs
    rw [hlex, splits_append, splits_append] at hcut
    simpa [hbrace] using hcut.2.1
  obtain ⟨gap, ps, rfl, hloose, hlisted, hentries⟩ := exists_parts hsplits hproblems hstyle
  -- the head is no at-rule and its first entry no custom property: the same of its parts
  obtain ⟨hat, -, hplain⟩ := bodyOf_eq_style_iff.1 hstyle
  rw [Forest.lexemes_tokens] at hlex hsplits
  rw [Forest.tokens_eq_append] at hflat hbalanced
  rw [Forest.problems_tokens hloose] at hproblems
  cases ps with
  | nil => simp [Part.located] at hentries
  | cons p ps =>
      have hlead : r.lead = _ := (List.cons.inj hentries).1
      rw [hlead] at hplain
      exact ⟨⟨gap, p, ps, o, back, by simpa using hlex, hbrace, hflat.of_append.2,
        hbalanced.of_append.2, hproblems, (splits_append.1 hsplits).2, hloose, hlisted, hentries,
        (atRule?_join hloose hlisted.1).1 hat, hplain⟩, rfl⟩

namespace Parted

variable {within : Option Bracket} {front : List Lexeme} {r : Rule} (g : Parted cs within front r)

/-- The offset that the selector list begins at. -/
def start : Nat := byteSize (charsOf front) + byteSize (charsOf g.gap)

/-- The parts with the offsets that they begin at. -/
def located : List (Nat × Part) := Part.located g.start (g.first :: g.parts)

/-- The parts that stay when `targets` are removed. -/
def kept (targets : SelectorSet) : List (Nat × Part) :=
  g.located.filter fun x => !decide (x.2.core.entryText ∈ targets)

include g

/-- The selector list begins after the gap. -/
theorem prelude_start : r.prelude.start = g.start := by
  have hlead := (List.cons.inj g.entries_eq).1
  rw [Rule.prelude, hlead]
  rfl

/-- The text around the parts. -/
theorem text_eq : cs = charsOf front ++ (charsOf g.gap ++
    ((Part.join (g.first :: g.parts)).source ++ '{' :: charsOf g.back)) := by
  have hchars := congrArg charsOf g.lexemes_eq
  rw [charsOf_lexemes] at hchars
  simpa only [charsOf_append, charsOf_cons, Forest.charsOf_lexemes, g.brace_eq,
    List.singleton_append] using hchars

/-- The part of an entry holds an entry. -/
theorem isEntry {x : Nat × Part} (hx : x ∈ g.located) : x.2.core.IsEntry within := by
  obtain ⟨-, -, -, -, hmem⟩ := Part.exists_lexemes_of_mem_located hx
  exact isEntry_of_mem g.listed g.flat g.balanced g.problems_eq g.splits hmem

/-- **The tokens of an entry** are those of its part, and so are its characters. -/
theorem spelled {x : Nat × Part} (hx : x ∈ g.located) :
    tokensOf cs (Part.entry x).span = x.2.core.lexemes.map Lexeme.token ∧
      slice (Part.entry x).span.start (Part.entry x).span.stop cs = x.2.core.source := by
  obtain ⟨a, b, hparts, hstart, -⟩ := Part.exists_lexemes_of_mem_located hx
  have hlex : lexemes cs = (front ++ (g.gap ++ a)) ++
      (x.2.core.lexemes ++ (b ++ g.brace :: g.back)) := by
    have hcut := g.lexemes_eq
    rw [hparts] at hcut
    simpa using hcut
  have hspan : (Part.entry x).span = ⟨byteSize (charsOf (front ++ (g.gap ++ a))),
      byteSize (charsOf (front ++ (g.gap ++ a))) + byteSize (charsOf x.2.core.lexemes)⟩ := by
    rw [Part.entry, hstart, Forest.charsOf_lexemes, Forest.byteSize_source, start]
    simp only [charsOf_append, byteSize_append, Span.mk.injEq]
    omega
  -- the tokens are those between the two offsets, and the text is the slice there
  constructor
  · have hne : ∀ l ∈ lexemes cs, l.chars ≠ [] := fun l hl =>
      (reads_of_mem_lexemes hl).choose_spec.chars_ne_nil
    have hmiddle := @tokensIn_middle _ _ _ 0 (hlex ▸ hne)
    rw [Nat.zero_add] at hmiddle
    rw [hspan]
    exact (congrArg _ hlex).trans hmiddle
  · have hchars : cs = charsOf (front ++ (g.gap ++ a)) ++ (charsOf x.2.core.lexemes ++
        charsOf (b ++ g.brace :: g.back)) := by
      rw [← charsOf_append, ← charsOf_append, ← hlex, charsOf_lexemes]
    rw [hspan, ← Forest.charsOf_lexemes]
    exact (congrArg _ hchars).trans (slice_append _ _ _)

/-- Where no comma stands before the selector list, what stands there is whitespace and comments. -/
theorem dull_gap (h : ((tokensOf cs ⟨0, r.prelude.start⟩).filter (!·.isDull)).getLast? ≠
    some .comma) {l : Lexeme} (hl : l ∈ g.gap) : l.Dull := by
  refine (g.loose l hl).kind.resolve_right fun hcomma => h ?_
  have hlex := g.lexemes_eq
  rw [← List.append_assoc] at hlex
  have htokens := tokensOf_front hlex
  rw [charsOf_append, byteSize_append] at htokens
  rw [g.prelude_start, start, htokens, List.map_append, List.filter_append]
  -- what the gap has apart from whitespace and comments is commas
  have hall : ∀ t ∈ (g.gap.map Lexeme.token).filter (!·.isDull), t = .comma := by
    intro t ht
    obtain ⟨hmem, hdull⟩ := List.mem_filter.1 ht
    obtain ⟨k, hk, rfl⟩ := List.mem_map.1 hmem
    rcases (g.loose k hk).kind with (hk' | hk') | hk'
    · simp [hk', Token.isDull] at hdull
    · simp [hk', Token.isDull] at hdull
    · exact hk'
  have hmem : Token.comma ∈ (g.gap.map Lexeme.token).filter (!·.isDull) :=
    List.mem_filter.2 ⟨hcomma ▸ List.mem_map_of_mem hl, rfl⟩
  have hne := List.ne_nil_of_mem hmem
  rw [List.getLast?_append, List.getLast?_eq_some_getLast hne, Option.some_or,
    hall _ (List.getLast_mem hne)]

/-- **The deletion of a rule** leaves whitespace and comments of its head. -/
theorem exists_cleared (p : Placement cs r)
    (hcomma : ((tokensOf cs ⟨0, r.prelude.start⟩).filter (!·.isDull)).getLast? ≠ some .comma)
    (hlow : byteSize (charsOf front) ≤ (extent cs r).start) :
    ∃ lead blanks, charsOf g.gap = charsOf lead ++ blanks ∧ (∀ l ∈ lead, l.Dull ∧ l.Loose) ∧
      (extent cs r).start = byteSize (charsOf front) + byteSize (charsOf lead) := by
  have htext := g.text_eq
  rw [← List.append_assoc] at htext
  have hbefore : p.before = charsOf front ++ charsOf g.gap :=
    p.before_eq htext (by rw [g.prelude_start, start, byteSize_append])
  obtain ⟨a, b, ha, -, hextent⟩ := p.exists_extent
  rw [hextent] at hlow ⊢
  obtain ⟨a', rfl, hgap⟩ := exists_append_of_byteSize_le (hbefore.symm.trans ha) hlow
  obtain ⟨lead, hlead, hmem⟩ := exists_trimEnd g.loose hgap
    fun c hc => isBlank_of_mem_leading hc
  refine ⟨lead, leading p.before, by rw [hlead, hgap], fun l hl => ?_, by simp [hlead]⟩
  rcases hmem l hl with hspace | hl
  · exact ⟨.inl hspace.token_eq, hspace.loose⟩
  · exact ⟨g.dull_gap hcomma hl, g.loose l hl⟩

/-- The entries that stay, as parts. -/
theorem filter_entries (targets : SelectorSet) :
    r.entries.filter (fun e => !decide (e.text ∈ targets)) =
      (g.kept targets).map Part.entry := by
  rw [g.entries_eq, List.filter_map]
  rfl

/-- What separates the entries of a list of two or more. -/
theorem separator_eq (hne : g.parts ≠ []) : separator cs r = charsOf g.first.gap := by
  obtain ⟨second, rest, hparts⟩ := List.exists_cons_of_ne_nil hne
  have hentries := g.entries_eq
  rw [hparts, Part.located, Part.located, List.map_cons, List.map_cons] at hentries
  obtain ⟨hlead, hothers⟩ := List.cons.inj hentries
  have htext : cs = (charsOf front ++ (charsOf g.gap ++ g.first.core.source)) ++
      (charsOf g.first.gap ++ ((Part.join g.parts).source ++ '{' :: charsOf g.back)) := by
    refine g.text_eq.trans ?_
    simp
  have hslice := slice_append (charsOf front ++ (charsOf g.gap ++ g.first.core.source))
    (charsOf g.first.gap) ((Part.join g.parts).source ++ '{' :: charsOf g.back)
  rw [← htext] at hslice
  rw [separator, hothers, hlead]
  simp only [Part.entry, byteSize_append, Forest.byteSize_source, ← Nat.add_assoc] at hslice ⊢
  exact hslice

/-- A shortened selector list, as parts. -/
theorem shortenList_eq (hne : g.parts ≠ []) :
    (shortenList cs r fun s => !decide (s ∈ targets)).replacement.toList =
      (charsOf g.first.gap).intercalate (((g.kept targets).map (·.2.core)).map Forest.source) := by
  rw [shortenList, String.toList_ofList, g.separator_eq hne, g.filter_entries, List.map_map,
    List.map_map]
  congr 1
  refine List.map_congr_left fun x hx => ?_
  exact (g.spelled (List.mem_filter.1 hx).1).2

/-- A rule that is targeted in part has more than one entry, and one that stays. -/
theorem partly (hpart : r.partlyTargeted targets = true) :
    g.parts ≠ [] ∧ g.kept targets ≠ [] := by
  obtain ⟨⟨e, he, hin⟩, f, hf, hout⟩ := Rule.partlyTargeted_iff.1 hpart
  rw [g.entries_eq, List.mem_map] at he hf
  obtain ⟨x, hx, rfl⟩ := he
  obtain ⟨y, hy, rfl⟩ := hf
  constructor
  · intro hnil
    rw [hnil] at hx hy
    simp only [Part.located, List.mem_singleton] at hx hy
    rw [hy, ← hx] at hout
    exact hout hin
  · have hout' : y.2.core.entryText ∉ targets := hout
    exact List.ne_nil_of_mem (List.mem_filter.2 ⟨hy, by simp [hout']⟩)

/-- The first entry that stays makes a shortened list neither an at-rule nor a custom property. -/
theorem plain_of_kept (hrem : r.Removable targets cs) {x : Nat × Part} {xs : List (Nat × Part)}
    (hkept : g.kept targets = x :: xs) :
    ((∃ l ∈ g.gap, l.token = .comma) ∨ atRule? (x.2.core.marks 0) = none) ∧
      startsWith ['-', '-'] x.2.core.entryText.toList = false := by
  have hx : x ∈ g.located := by
    have hmem : x ∈ g.kept targets := hkept ▸ List.mem_cons_self
    exact (List.mem_filter.1 hmem).1
  by_cases hfirst : g.first.core.entryText ∈ targets
  · have hlead : r.lead = Part.entry (g.start, g.first) := (List.cons.inj g.entries_eq).1
    have hfind : r.entries.find? (fun e => decide (e.text ∉ targets)) = some (Part.entry x) := by
      simp only [decide_not]
      rw [← List.head?_filter, g.filter_entries, hkept]
      rfl
    obtain ⟨hplain, hkeyword⟩ := hrem.starts (by rw [hlead]; exact hfirst) _ hfind
    rw [(g.spelled hx).1] at hkeyword
    exact ⟨.inr (atRule?_of_head (g.isEntry hx).isCore hkeyword), hplain⟩
  · -- the first entry stays
    rw [kept, located, Part.located, List.filter_cons_of_pos (by simp [hfirst])] at hkept
    obtain ⟨rfl, -⟩ := List.cons.inj hkept
    exact ⟨g.atRule, g.plain⟩

/-- No entry that stays ends with a backslash. -/
theorem ends_of_kept (hrem : r.Removable targets cs) (hpart : r.partlyTargeted targets = true)
    {x : Nat × Part} (hx : x ∈ g.kept targets) {l : Lexeme}
    (hl : x.2.core.lexemes.getLast? = some l) : l.chars ≠ ['\\'] := by
  intro hlone
  obtain ⟨hx, hout⟩ := List.mem_filter.1 hx
  have hmem : Part.entry x ∈ r.entries := by
    rw [g.entries_eq]
    exact List.mem_map_of_mem hx
  refine hrem.ends hpart _ hmem (show x.2.core.entryText ∉ targets by simpa using hout) ?_
  obtain ⟨s, hsplits, hs⟩ := (g.isEntry hx).reads
  rw [(g.spelled hx).1, List.getLast?_map, hl, Option.map_some]
  rcases reads_of_getLast? hsplits hl with hspace | hreads
  · have := hspace.all_space '\\' (by simp [hlone])
    exact absurd this (by decide)
  · rw [hreads.token_of_lone hs hlone]

/-- The edit that shortens a list leaves the gap before it and the gap after it. -/
theorem replay_shortenList (hne : g.parts ≠ []) :
    ∃ tail, (∀ l ∈ tail, l.Loose) ∧
      Edit.replay [shortenList cs r fun s => !decide (s ∈ targets)] (byteSize (charsOf front))
          (charsOf g.gap ++ (Part.join (g.first :: g.parts)).source) =
        charsOf g.gap ++ ((charsOf g.first.gap).intercalate
          (((g.kept targets).map (·.2.core)).map Forest.source) ++ charsOf tail) := by
  obtain ⟨last, rest, hlast, hmem, hsource, hstop⟩ := Part.exists_last g.first g.parts g.start
  have hlastEntry : r.lastEntry = Part.entry last := by
    have h := r.getLast?_entries
    rw [g.entries_eq, List.getLast?_map] at h
    rw [start] at hlast
    rw [hlast] at h
    exact (Option.some.inj h).symm
  have hprelude : r.prelude =
      ⟨g.start, g.start + byteSize (g.first.core.source ++ rest)⟩ := by
    have hstart := g.prelude_start
    rw [Rule.prelude] at hstart ⊢
    rw [hlastEntry, hstop, ← hstart]
  -- the edit is not one of an empty span, as the first entry is written with something
  have hfirst : g.first.core.source ≠ [] := by
    have hentry := g.isEntry (x := (g.start, g.first)) List.mem_cons_self
    obtain ⟨s, hsplits, -⟩ := hentry.reads
    refine Forest.source_ne_nil hsplits fun hnil => hentry.isCore.ne_nil ?_
    rw [hnil]
    rfl
  refine ⟨last.2.gap, fun l hl => Part.loose_of_mem g.listed hmem hl, ?_⟩
  rw [hsource, Edit.replay_singleton (by simp [hfirst]) hprelude, g.shortenList_eq hne]

/-- **A shortened list** is the head of a style rule with the entries that stay. -/
theorem exists_shortened (hrem : r.Removable targets cs) (hpart : r.partlyTargeted targets = true)
    (x : List Char) :
    ∃ q', (Forest.tokens g.gap (Part.join (g.first :: g.parts))).Turns
        [shortenList cs r fun s => !decide (s ∈ targets)] (byteSize (charsOf front)) within
        ('{' :: x) q' ∧ q'.Flat ∧ q'.problems 0 = [] ∧
      ∃ lead others, bodyOf (q'.marks 0) = .style lead others ∧
        (lead :: others).map Entry.text =
          (r.entries.map Entry.text).filter fun s => !decide (s ∈ targets) := by
  obtain ⟨hmany, hkept⟩ := g.partly hpart
  obtain ⟨k, ks, hk⟩ := List.exists_cons_of_ne_nil hkept
  obtain ⟨tail, htail, hreplay⟩ := @replay_shortenList targets _ _ _ _ g hmany
  have hcores : ∀ c ∈ (g.kept targets).map (·.2.core), c.IsEntry within ∧
      ∀ l, c.lexemes.getLast? = some l → l.chars ≠ ['\\'] := by
    intro c hc
    obtain ⟨y, hy, rfl⟩ := List.mem_map.1 hc
    exact ⟨g.isEntry (List.mem_filter.1 hy).1, fun l hl => g.ends_of_kept hrem hpart hy hl⟩
  obtain ⟨ps, hps, hsource⟩ :=
    exists_joined hcores (by simpa using hkept) g.listed.2.1 (g.listed.2.2.1 hmany) htail x
  obtain ⟨p, ps, rfl⟩ : ∃ p qs, ps = p :: qs := by
    have hreads := hps.reads
    rw [hk, List.map_cons] at hreads
    cases hreads with
    | cons _ _ => exact ⟨_, _, rfl⟩
  -- the first entry that stays begins a style rule, as the first one did
  obtain ⟨hat, hplain⟩ := g.plain_of_kept hrem hk
  have hfirst : k.2.core.Reread p.core := by
    have hreads := hps.reads
    rw [hk, List.map_cons] at hreads
    exact (List.forall₂_cons.1 hreads).1
  have hat' : (∃ l ∈ g.gap, l.token = .comma) ∨ atRule? (p.core.marks 0) = none := by
    rwa [← atRule?_map_bare, hfirst.marks_eq, atRule?_map_bare]
  rw [← hfirst.entryText_eq] at hplain
  obtain ⟨lead, others, hbody, htexts⟩ :=
    @bodyOf_join g.gap p ps 0 ('{' :: x) g.loose hps.splits hps.listed hat' hplain
  refine ⟨.tokens g.gap (Part.join (p :: ps)), ⟨?_, ?_, .loose g.loose hps.balanced⟩,
    .tokens g.loose hps.flat, ?_, lead, others, hbody, ?_⟩
  · rw [Forest.source_tokens, Forest.source_tokens, hreplay, hsource]
  · rw [Forest.lexemes_tokens, splits_append]
    exact ⟨splits_free (fun l hl => (g.loose l hl).free) _, hps.splits⟩
  · rw [Forest.problems_tokens g.loose]
    exact Forest.problems_eq_nil _ hps.problems _
  · have hentries := congrArg (List.map Entry.text) (g.filter_entries targets).symm
    rw [List.map_map] at hentries
    rw [htexts, entryTexts_of_reread hps.reads, List.map_map, List.filter_map]
    exact hentries

end Parted

end StyleAudit.Sheet
