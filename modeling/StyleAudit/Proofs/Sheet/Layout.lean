import Mathlib
import StyleAudit.Proofs.Sheet.Lookahead
import StyleAudit.Proofs.Sheet.Origin
import StyleAudit.Proofs.Sheet.Removal

/-! # The layout of an outline

What every part of the program that cuts a text relies on: the entries of a rule are not empty, stand
in order and have a comma between them; a rule has its brace and, unless the text ends first, its
closing one; rules are listed by position and nest like brackets. It holds of every text.

* **`render_ne_nil`** — a token that shows has a text.
* **`Origin.text_ne_empty`** — every entry has a text.
* **`Origin.isChain_comma`** — a comma stands between neighbouring entries.
* **`pairwise_entries`** — the entries of an outline stand in order.
* **`outline_layout`** — the entries of a rule, its block, and how rules nest. -/

namespace StyleAudit.Sheet

open Text

/-! ## Tokens that show have a text -/

/-- The text of an identifier is not empty. -/
theorem renderIdent_ne_nil {name : List Char} (h : name ≠ []) : renderIdent name ≠ [] := by
  have hchar : ∀ c, renderNameChar c ≠ [] := by
    intro c
    unfold renderNameChar hexEscape
    split_ifs <;> simp
  have hfirst : ∀ cs : List Char, cs ≠ [] → renderFirst cs ≠ [] := by
    intro cs hcs
    cases cs with
    | nil => exact absurd rfl hcs
    | cons c cs =>
        rw [renderFirst]
        split
        · simp [hexEscape]
        · simp [renderName, hchar]
  unfold renderIdent
  split
  · simp
  · simp
  · simp
  · exact hfirst _ h

/-- Decimals are written with at least one digit. -/
theorem positional_ne_nil (d : Decimal.Digits) : (positional d).chars ≠ [] := by
  unfold positional
  split
  · simp
  · rename_i hpoint
    simp only
    split
    · rename_i hlen
      intro hnil
      have hsize := congrArg List.length hnil
      simp only [digitChars, List.length_append, List.length_map, List.length_replicate,
        List.length_nil] at hsize
      omega
    · simp

/-- The text of a number is not empty. -/
theorem renderSingle_ne_nil (value : Float32) (isInteger signed : Bool) :
    renderSingle value isInteger signed ≠ [] := by
  have hdecimal : ∀ d, (decimalText d).chars ≠ [] := by
    intro d
    unfold decimalText
    split
    · exact positional_ne_nil _
    · simp
  -- a point and a zero may be added to the digits, and a sign put in front
  have hmark : ∀ (t : DecimalText) (p : Bool), t.chars ≠ [] →
      (if p then t.chars ++ ['.', '0'] else t.chars) ≠ [] := by
    intro t p ht
    cases p <;> simp [ht]
  unfold renderSingle
  cases Single.ofBits value.toBits with
  | zero negative => exact List.append_ne_nil_of_right_ne_nil _ (hmark ⟨['0'], false, false⟩ _ (by simp))
  | finite negative b => exact List.append_ne_nil_of_right_ne_nil _ (hmark _ _ (hdecimal _))
  | infinite negative => simp
  | nan => simp

/-- A name that an identifier begins with is not empty. -/
theorem scanName_ne_nil {cs : List Char} (h : identAhead cs = true) : (scanName cs).1 ≠ [] := by
  cases cs with
  | nil => simp [identAhead] at h
  | cons c cs =>
      rw [scanName_cons]
      by_cases hpart : isNamePart c = true
      · simp [hpart]
      · rw [if_neg hpart]
        by_cases hnull : c = '\x00'
        · simp [hnull]
        · -- what begins an identifier and cannot go on with one is a backslash
          have hslash : c = '\\' ∧ newlineAhead cs = false := by
            unfold identAhead at h
            split at h
            · rename_i heq
              rw [(List.cons.inj heq).1] at hpart
              exact absurd rfl hpart
            · simp at h
            · rename_i heq
              obtain ⟨rfl, rfl⟩ := List.cons.inj heq
              exact ⟨rfl, by simpa using h⟩
            · rename_i heq
              obtain ⟨rfl, rfl⟩ := List.cons.inj heq
              simp only [isNameStart, isNamePart, Char.isAlphanum, Bool.or_eq_true,
                beq_iff_eq, hnull, or_false] at h hpart
              tauto
            · simp at h
          simp [hslash.1, hslash.2]

/-- What a number leads to. -/
theorem scanNumeric_cases (cs : List Char) :
    (∃ n, (scanNumeric cs).1 = .number n) ∨ (∃ n, (scanNumeric cs).1 = .percentage n) ∨
      ∃ n unit, (scanNumeric cs).1 = .dimension n unit := by
  unfold scanNumeric
  simp only
  split
  · simp
  · split <;> simp

/-- What the inside of a `url(…)` leads to. -/
theorem scanUrl_cases (cs : List Char) :
    (scanUrl cs).1 = none ∨ (∃ v, (scanUrl cs).1 = some (.url v)) ∨
      (scanUrl cs).1 = some .badUrl := by
  induction cs with
  | nil => exact .inr (.inl ⟨[], rfl⟩)
  | cons c cs ih =>
      rw [scanUrl]
      split
      · exact ih
      · split
        · exact .inl rfl
        · split <;> simp

/-- What a name leads to. -/
theorem scanIdentLike_cases (cs : List Char) :
    (scanIdentLike cs).1 = .ident (scanName cs).1 ∨
      (scanIdentLike cs).1 = .function (scanName cs).1 ∨
      (∃ v, (scanIdentLike cs).1 = .url v) ∨ (scanIdentLike cs).1 = .badUrl := by
  rw [scanIdentLike_eq, scanParen]
  split
  · split
    · rcases scanUrl_cases ((cs.drop (scanName cs).2).tail) with h | ⟨v, h⟩ | h
      · rw [h]
        exact .inr (.inl rfl)
      · rw [h]
        exact .inr (.inr (.inl ⟨v, rfl⟩))
      · rw [h]
        exact .inr (.inr (.inr rfl))
    · simp
  · simp

/-- An identifier has the name that is read where it begins. -/
theorem name_of_next_ident {c : Char} {cs name : List Char}
    (h : (Token.next c cs).1 = .ident name) :
    identAhead (c :: cs) = true ∧ name = (scanName (c :: cs)).1 := by
  have hident : identAhead (c :: cs) = true → (scanIdentLike (c :: cs)).1 = .ident name →
      identAhead (c :: cs) = true ∧ name = (scanName (c :: cs)).1 := by
    intro hahead hscan
    rcases scanIdentLike_cases (c :: cs) with h | h | ⟨v, h⟩ | h <;> simp_all
  have hnum : (scanNumeric (c :: cs)).1 ≠ .ident name := by
    rcases scanNumeric_cases (c :: cs) with ⟨n, h⟩ | ⟨n, h⟩ | ⟨n, unit, h⟩ <;> simp [h]
  unfold Token.next afterFirst matcherOr at h
  repeat' split at h
  all_goals
    first
    | with_reducible exact absurd h hnum
    | (rename_i hahead; with_reducible exact hident hahead h)
    | simp at h

/-- The identifiers of a text have names. -/
theorem next_ident_ne_nil {c : Char} {cs name : List Char}
    (h : (Token.next c cs).1 = .ident name) : name ≠ [] := by
  obtain ⟨hahead, rfl⟩ := name_of_next_ident h
  exact scanName_ne_nil hahead

/-- **A token that shows has a text.** -/
theorem render_ne_nil {l : Lexeme} {r : List Char} (h : l.Reads r) (hl : l.token.isVisible = true) :
    l.token.render ≠ [] := by
  cases htoken : l.token with
  | ident name =>
      obtain ⟨c, cs, -, hnext, -⟩ := h
      rw [htoken] at hnext
      exact renderIdent_ne_nil (next_ident_ne_nil hnext)
  | number n => exact renderSingle_ne_nil _ _ _
  | percentage n => simp [Token.render, Numeral.renderPercent]
  | dimension n unit => simp [Token.render, Numeral.render, renderSingle_ne_nil]
  | _ => simp_all [Token.render, Token.isVisible, renderString, renderUrl]

/-! ## The marks of a head that is read -/

/-- What the marks of a head show of its characters. -/
structure Mark.Spelled (m : Mark) : Prop where
  text_ne_nil : m.isSolid = true → m.text ≠ []
  comma : m.kind = .comma → m.chars = [',']

/-- The marks of a head whose lexemes are read. -/
theorem Forest.spelled_of_mem_marks {q : Forest} (hq : ∀ l ∈ q.lexemes, ∃ r, l.Reads r) {pos : Nat}
    {m : Mark} (hm : m ∈ q.marks pos) : m.Spelled := by
  induction q generalizing pos with
  | nil => simp [marks] at hm
  | token l rest ih =>
      rcases List.mem_cons.1 hm with rfl | hm
      · obtain ⟨r, hr⟩ := hq l (by simp [lexemes])
        refine ⟨fun hsolid => render_ne_nil hr ?_, fun hkind => hr.chars_eq_of_mark ?_⟩
        · cases htoken : l.token <;>
            simp_all [Mark.isSolid, Mark.ofLexeme, Mark.Kind.ofToken, Token.isVisible]
        · cases htoken : l.token <;>
            simp_all [Mark.ofLexeme, Mark.Kind.ofToken, Token.isVisible, Token.mark?]
      · exact ih (fun k hk => hq k (by simp [lexemes, hk])) hm
  | block o body closed rest _ ih =>
      rcases List.mem_cons.1 hm with rfl | hm
      · exact ⟨fun _ => by simp [Mark.ofBlock, blockText], fun h => by simp [Mark.ofBlock] at h⟩
      · exact ih (fun k hk => hq k (by simp [lexemes, hk])) hm

/-- The text of a core is not empty. -/
theorem IsCore.marksText_ne_nil {ms : List Mark} (h : IsCore ms) (hms : ∀ m ∈ ms, m.Spelled) :
    marksText false false ms ≠ [] := by
  have hsolid := h.head_solid
  obtain ⟨m, ms, rfl⟩ := List.exists_cons_of_ne_nil h.ne_nil
  rw [List.head_cons] at hsolid
  have hkind : m.kind ≠ .space := fun hk => by simp [Mark.isSolid, hk] at hsolid
  have htext := (hms m (by simp)).text_ne_nil hsolid
  rw [marksText, if_neg hkind, if_pos hsolid]
  simp [htext]

/-- The entries of segments have texts. -/
theorem text_ne_nil_of_spelled {segments : List Segment} (h : Spelled segments)
    (hms : ∀ m ∈ segments.flatMap Segment.marks, m.Spelled) {e : Entry}
    (he : e ∈ segments.map Segment.entry) : e.text ≠ "" := by
  induction segments with
  | nil => simp at he
  | cons s rest ih =>
      obtain ⟨hcore, -, -, hrest⟩ := h
      rcases List.mem_cons.1 he with rfl | he
      · intro hnil
        refine hcore.marksText_ne_nil (fun m hm => hms m ?_) ?_
        · simp [Segment.marks, hm]
        · have hlist := congrArg String.toList hnil
          simpa [Segment.entry, coreEntry] using hlist
      · rw [List.flatMap_cons] at hms
        exact ih hrest (fun m hm => hms m (List.mem_append_right _ hm)) he

/-- **A comma stands between neighbouring entries.** The offsets count from the first mark. -/
theorem isChain_comma_of_spelled {pos : Nat} {segments : List Segment}
    (hrun : Run pos (segments.flatMap Segment.marks)) (h : Spelled segments)
    (hms : ∀ m ∈ segments.flatMap Segment.marks, m.Spelled) :
    (segments.map Segment.entry).IsChain fun e f => ∃ a b,
      marksChars (segments.flatMap Segment.marks) = a ++ ',' :: b ∧
        e.span.stop ≤ pos + byteSize a ∧ pos + byteSize a < f.span.start := by
  induction segments generalizing pos with
  | nil => exact .nil
  | cons s rest ih =>
      cases rest with
      | nil => exact .singleton _
      | cons t rest =>
          obtain ⟨hcore, -, hcomma, hrest⟩ := h
          rw [List.flatMap_cons] at hrun hms
          obtain ⟨hrunS, hrunRest⟩ := run_append.1 hrun
          have hchain := ih hrunRest hrest fun m hm => hms m (List.mem_append_right _ hm)
          rw [List.map_cons, List.map_cons, List.isChain_cons_cons]
          refine ⟨?_, (hchain.imp fun e f => ?_)⟩
          · -- the gap after the first entry holds a comma
            obtain ⟨m, hm, hkind⟩ := hcomma (by simp)
            obtain ⟨x, y, hgap⟩ := List.append_of_mem hm
            have hchars := (hms m (by simp [Segment.marks, hm])).comma hkind
            have hsplit : marksChars s.marks =
                marksChars s.core ++ marksChars x ++ ',' :: marksChars y := by
              simp [Segment.marks, hgap, hchars]
            refine ⟨marksChars s.core ++ marksChars x,
              marksChars y ++ marksChars ((t :: rest).flatMap Segment.marks), ?_, ?_, ?_⟩
            · rw [List.flatMap_cons, marksChars_append, hsplit]
              simp
            · have hspan : s.entry.span = _ := span_coreEntry (run_append.1 hrunS).1 hcore
              rw [hspan, byteSize_append]
              simp only
              omega
            · have hcoreT := hrest.1
              rw [List.flatMap_cons] at hrunRest
              have hspan : t.entry.span = _ :=
                span_coreEntry (run_append.1 (run_append.1 hrunRest).1).1 hcoreT
              have hsize := congrArg byteSize hsplit
              simp only [byteSize_append, byteSize_cons, show ','.utf8Size = 1 from rfl] at hsize
              rw [hspan, byteSize_append]
              simp only
              omega
          · rintro ⟨a, b, hab, hlow, hhigh⟩
            refine ⟨marksChars s.marks ++ a, b, ?_, ?_, ?_⟩
            · rw [List.flatMap_cons, marksChars_append, hab, List.append_assoc]
            · rw [byteSize_append]
              omega
            · rw [byteSize_append]
              omega

namespace Origin

variable {text : List Char} {r : Rule}

/-- The text as an origin cuts it. -/
theorem text_eq (g : Origin 0 (lexemes text) r) :
    text = charsOf g.before ++ (g.head.source ++ (g.brace.chars ++ (g.body.source ++
      (closerChars g.brace r.closed ++ charsOf g.after)))) := by
  have h := congrArg charsOf g.lexemes_eq
  simpa [Forest.charsOf_lexemes] using h

/-- The lexemes of a head are read. -/
theorem reads_head (g : Origin 0 (lexemes text) r) : ∀ l ∈ g.head.lexemes, ∃ r, l.Reads r := by
  intro l hl
  have hmem : l ∈ lexemes text := by
    rw [g.lexemes_eq]
    simp [hl]
  exact reads_of_mem_lexemes hmem

/-- **The segments of a head** spell the entries of the rule. -/
theorem exists_segments (g : Origin 0 (lexemes text) r) :
    ∃ gap segments, g.head.marks (byteSize (charsOf g.before)) =
        gap ++ segments.flatMap Segment.marks ∧ Spelled segments ∧
      r.entries = segments.map Segment.entry ∧
      ∀ m ∈ segments.flatMap Segment.marks, m.Spelled := by
  obtain ⟨gap, segments, hmarks, hgap, hseg⟩ :=
    Sheet.exists_segments (g.head.marks (byteSize (charsOf g.before)))
  have hstyle := g.style
  rw [Nat.zero_add] at hstyle
  have hentries := (bodyOf_eq_style_iff.1 hstyle).2.1
  rw [hmarks, entries_segments hgap hseg] at hentries
  refine ⟨gap, segments, hmarks, hseg, hentries.symm, fun m hm => ?_⟩
  have hmem : m ∈ g.head.marks (byteSize (charsOf g.before)) := by
    rw [hmarks]
    exact List.mem_append_right _ hm
  exact Forest.spelled_of_mem_marks g.reads_head hmem

/-- **Every entry has a text.** -/
theorem text_ne_empty (g : Origin 0 (lexemes text) r) {e : Entry} (he : e ∈ r.entries) :
    e.text ≠ "" := by
  obtain ⟨gap, segments, -, hseg, hentries, hspelled⟩ := g.exists_segments
  rw [hentries] at he
  exact text_ne_nil_of_spelled hseg hspelled he

/-- **A comma stands between neighbouring entries** of a rule. -/
theorem isChain_comma (g : Origin 0 (lexemes text) r) :
    r.entries.IsChain fun e f => ∃ n, At text n ',' ∧ e.span.stop ≤ n ∧ n < f.span.start := by
  obtain ⟨gap, segments, hmarks, hseg, hentries, hspelled⟩ := g.exists_segments
  have hrun := Forest.run_marks
    (fun l hl => (g.reads_head l hl).choose_spec.chars_ne_nil) (byteSize (charsOf g.before))
  have hchars := g.head.marksChars_marks (byteSize (charsOf g.before))
  rw [hmarks] at hrun hchars
  rw [hentries]
  refine (isChain_comma_of_spelled (run_append.1 hrun).2 hseg hspelled).imp fun e f => ?_
  rintro ⟨a, b, hab, hlow, hhigh⟩
  refine ⟨byteSize (charsOf g.before) + byteSize (marksChars gap) + byteSize a,
    ⟨charsOf g.before ++ (marksChars gap ++ a), b ++ (g.brace.chars ++ (g.body.source ++
      (closerChars g.brace r.closed ++ charsOf g.after))), ?_, ?_⟩, hlow, hhigh⟩
  · refine g.text_eq.trans ?_
    rw [← hchars, marksChars_append, hab]
    simp
  · simp only [byteSize_append]
    omega

/-- A rule that is not closed ends with the text. -/
theorem block_stop_eq (g : Origin 0 (lexemes text) r) (h : r.closed = false) :
    r.block.stop = byteSize text := by
  have hsize := congrArg byteSize g.text_eq
  rw [g.last h] at hsize
  simp only [byteSize_append, charsOf_nil, byteSize_nil, Forest.byteSize_source] at hsize
  rw [g.block_eq]
  simp only
  omega

end Origin

/-! ## The entries of an outline -/

/-- An entry of a rule is a piece of its text. -/
theorem Placement.isBoundary_entry {text : List Char} {r : Rule} (p : Placement text r) {e : Entry}
    (he : e ∈ r.entries) : e.span.start < e.span.stop ∧ isBoundary e.span.start text = true ∧
      isBoundary e.span.stop text = true := by
  obtain ⟨a, b, c, hlist, hb, hspan⟩ := p.entry_cut e he
  have hpos := byteSize_pos_of_ne_nil hb
  obtain ⟨tail, htail⟩ : ∃ tail, text = p.before ++ (a ++ (b ++ tail)) := by
    refine ⟨c ++ (p.gap ++ '{' :: (p.body ++ (p.close ++ p.after))), ?_⟩
    refine p.text_eq.trans ?_
    rw [hlist]
    simp only [List.append_assoc]
  rw [hspan]
  refine ⟨by simp only; omega, isBoundary_iff.2 ⟨p.before ++ a, b ++ tail, ?_, ?_⟩,
    isBoundary_iff.2 ⟨p.before ++ (a ++ b), tail, ?_, ?_⟩⟩
  · exact htail.trans (by simp)
  · rw [byteSize_append]
  · exact htail.trans (by simp)
  · simp only [byteSize_append, Nat.add_assoc]

/-- **The entries of an outline stand in order**, each one after the end of the one before. -/
theorem pairwise_entries (text : String) :
    (Outline.ofText text).entries.Pairwise fun e f => e.span.stop ≤ f.span.start := by
  have hregion := region_ofText text
  rw [Outline.entries, List.pairwise_flatMap]
  refine ⟨fun r hr => ?_, hregion.precedes.imp_of_mem fun {a b} ha hb h e he f hf => ?_⟩
  · obtain ⟨p⟩ := hregion.placed r hr
    exact p.ordered.imp fun h => h.le
  · obtain ⟨p⟩ := hregion.placed a ha
    obtain ⟨q⟩ := hregion.placed b hb
    have h₁ := Span.contains_iff.1 (p.contains_entry he)
    have h₂ := Span.contains_iff.1 (q.contains_entry hf)
    have h₃ := p.prelude_stop_le
    have h₄ := p.block_start_lt
    rcases h with h | ⟨h, -, -⟩ <;> omega

/-- The entries of an outline, rule by rule. -/
theorem Outline.mem_entries {o : Outline} {e : Entry} :
    e ∈ o.entries ↔ ∃ r ∈ o.rules, e ∈ r.entries := by
  simp [Outline.entries]

/-- An entry of an outline is not empty. -/
theorem start_lt_stop_of_mem_entries {text : String} {e : Entry}
    (he : e ∈ (Outline.ofText text).entries) : e.span.start < e.span.stop := by
  obtain ⟨r, hr, he⟩ := Outline.mem_entries.1 he
  obtain ⟨p⟩ := (region_ofText text).placed r hr
  exact (p.isBoundary_entry he).1

/-- **Occurrences** are the entries that are looked for; they need no sorting. -/
theorem occurrences_eq_filter (text : String) (selectors : SelectorSet) :
    (Outline.ofText text).occurrences selectors =
      (Outline.ofText text).entries.filter fun e => decide (e.text ∈ selectors) := by
  refine List.mergeSort_of_pairwise (((pairwise_entries text).imp_of_mem ?_).filter _)
  intro a b ha _ h
  have := start_lt_stop_of_mem_entries ha
  simp only [decide_eq_true_eq]
  omega

/-! ## The layout -/

/-- **Entries, blocks and nesting.** The entries of a rule are not empty, begin and end between
characters, and stand in order with a comma between neighbours; its list runs from the first one to
the last one. Its block comes after the list, begins with a brace, and ends with a closing brace, or
with the text if it is not closed. The rules are listed by position: a later one begins after the
block of an earlier one, or lies deeper inside of it. The occurrences of selectors are the entries
that are looked for, and they stand one after the other. -/
theorem outline_layout (text : String) :
    (∀ r ∈ (Outline.ofText text).rules,
      (r.entries ≠ [] ∧ ∀ e ∈ r.entries, e.text ≠ "" ∧ e.span.start < e.span.stop ∧
        isBoundary e.span.start text.toList = true ∧ isBoundary e.span.stop text.toList = true) ∧
      (r.entries.IsChain fun e f =>
        ∃ n, At text.toList n ',' ∧ e.span.stop ≤ n ∧ n < f.span.start) ∧
      (∃ first last, r.entries.head? = some first ∧ r.entries.getLast? = some last ∧
        r.prelude = ⟨first.span.start, last.span.stop⟩) ∧
      r.prelude.stop ≤ r.block.start ∧ r.block.start < r.block.stop ∧
      r.block.stop ≤ byteSize text.toList ∧ At text.toList r.block.start '{' ∧
      (r.closed = true →
        r.block.start < r.block.stop - 1 ∧ At text.toList (r.block.stop - 1) '}') ∧
      (r.closed = false → r.block.stop = byteSize text.toList)) ∧
    ((Outline.ofText text).rules.Pairwise fun a b =>
      a.prelude.start < b.prelude.start ∧
      (a.block.stop ≤ b.prelude.start ∨
        (a.block.start < b.prelude.start ∧ b.block.stop ≤ a.block.stop ∧
          (a.closed = true → b.block.stop ≤ a.block.stop - 1) ∧ a.depth < b.depth))) ∧
    ∀ selectors,
      ((Outline.ofText text).occurrences selectors =
        ((Outline.ofText text).rules.flatMap Rule.entries).filter
          fun e => decide (e.text ∈ selectors)) ∧
      ((Outline.ofText text).occurrences selectors).Pairwise fun e f =>
        e.span.start < f.span.start ∧ e.span.stop ≤ f.span.start := by
  have hregion := region_ofText text
  refine ⟨fun r hr => ?_, hregion.precedes.imp_of_mem fun {a b} ha hb h => ?_, fun selectors =>
    ⟨occurrences_eq_filter text selectors, ?_⟩⟩
  · obtain ⟨p⟩ := hregion.placed r hr
    obtain ⟨g⟩ := nonempty_origin_ofText hr
    have hblock := p.block_start_lt
    refine ⟨⟨by simp [Rule.entries], fun e he => ⟨g.text_ne_empty he, p.isBoundary_entry he⟩⟩,
      g.isChain_comma, ⟨r.lead, r.lastEntry, rfl, r.getLast?_entries, rfl⟩, p.prelude_stop_le,
      by omega, hregion.high r hr, p.at_brace, fun hclosed => ⟨?_, p.at_close hclosed⟩,
      g.block_stop_eq⟩
    rw [if_pos hclosed] at hblock
    omega
  · obtain ⟨p⟩ := hregion.placed a ha
    have h₁ := p.prelude_start_lt
    have h₂ := p.prelude_stop_le
    have h₃ := p.block_start_lt
    rcases h with h | ⟨hstart, hstop, hdepth⟩
    · exact ⟨by omega, .inl h⟩
    · refine ⟨by omega, .inr ⟨hstart, by omega, fun hclosed => ?_, hdepth⟩⟩
      rw [if_pos hclosed] at hstop
      omega
  · rw [occurrences_eq_filter]
    refine ((pairwise_entries text).imp_of_mem fun {e f} he _ h => ⟨?_, h⟩).filter _
    have := start_lt_stop_of_mem_entries he
    omega

end StyleAudit.Sheet
