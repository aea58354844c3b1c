import Mathlib
import StyleAudit.Proofs.Sheet.Statement

/-! # Where the rules of an outline lie

Each rule of an outline is laid out in its text: a selector list that begins with no whitespace, a
gap, and a block between braces. Any two rules are either one after the other or one inside the
block of the other. Both facts hold of every text, however malformed, and are proved together,
statement by statement.

* **`Placement text r`** — the pieces of `text` that the rule `r` is made of.
* **`Rule.Precedes a b`** — `a` ends before `b` begins, or `b` lies in the block of `a`.
* **`Region text lo hi depth rules`** — the rules are laid out between two offsets, in order.
* **`Lists pos list es`** — the entries `es` spell the selector list `list`.
* **`Forest.Lies text pre f post within`** — the forest `f` stands in `text` between two pieces.
* **`region_ofText`** — the rules of an outline fill such a region. -/

namespace StyleAudit.Sheet

open Text

/-! ## Rules laid out in a text -/

/-- The pieces of a text that a rule is made of. -/
structure Placement (text : List Char) (r : Rule) where
  /-- What stands before the selector list. -/
  before : List Char
  /-- The selector list, from its first entry to its last. -/
  list : List Char
  /-- What stands between the selector list and the block. -/
  gap : List Char
  /-- What stands in the block. -/
  body : List Char
  /-- The closing brace, if there is one. -/
  close : List Char
  /-- What stands after the block. -/
  after : List Char
  text_eq : text = before ++ (list ++ (gap ++ '{' :: (body ++ (close ++ after))))
  prelude_eq : r.prelude = ⟨byteSize before, byteSize before + byteSize list⟩
  block_eq : r.block = ⟨byteSize before + byteSize list + byteSize gap,
    byteSize before + byteSize list + byteSize gap + 1 + byteSize body + byteSize close⟩
  close_eq : close = if r.closed then ['}'] else []
  /-- The list begins with a character that is no whitespace. -/
  starts : ∃ c cs, list = c :: cs ∧ isSpace c = false
  /-- Every entry spans a piece of the list. -/
  entry_cut : ∀ e ∈ r.entries, ∃ a b c, list = a ++ (b ++ c) ∧ b ≠ [] ∧
    e.span = ⟨byteSize before + byteSize a, byteSize before + byteSize a + byteSize b⟩
  /-- The entries stand in order, apart from each other. -/
  ordered : r.entries.Pairwise fun e f => e.span.stop < f.span.start

/-- `a` ends before `b` begins, or `b` lies in the block of `a`, deeper. -/
def Rule.Precedes (a b : Rule) : Prop :=
  a.block.stop ≤ b.prelude.start ∨
    (a.block.start < b.prelude.start ∧ b.block.stop + (if a.closed then 1 else 0) ≤ a.block.stop ∧
      a.depth < b.depth)

/-- The rules are laid out between two offsets, each one at least `depth` deep, and in order. -/
structure Region (text : List Char) (lo hi depth : Nat) (rules : List Rule) : Prop where
  placed : ∀ r ∈ rules, Nonempty (Placement text r)
  low : ∀ r ∈ rules, lo ≤ r.prelude.start
  high : ∀ r ∈ rules, r.block.stop ≤ hi
  deep : ∀ r ∈ rules, depth ≤ r.depth
  precedes : rules.Pairwise Rule.Precedes

namespace Region

variable {text : List Char} {lo mid hi depth : Nat}

/-- No rules are laid out anywhere. -/
theorem nil : Region text lo hi depth [] where
  placed := by simp
  low := by simp
  high := by simp
  deep := by simp
  precedes := .nil

/-- A region may be seen from further out. -/
theorem widen {lo' hi' depth' : Nat} {rules : List Rule} (h : Region text lo hi depth rules)
    (hlo : lo' ≤ lo) (hhi : hi ≤ hi') (hdepth : depth' ≤ depth) :
    Region text lo' hi' depth' rules where
  placed := h.placed
  low r hr := hlo.trans (h.low r hr)
  high r hr := (h.high r hr).trans hhi
  deep r hr := hdepth.trans (h.deep r hr)
  precedes := h.precedes

/-- Two regions side by side make one. -/
theorem append {as bs : List Rule} (ha : Region text lo mid depth as)
    (hb : Region text mid hi depth bs) (hlo : lo ≤ mid) (hhi : mid ≤ hi) :
    Region text lo hi depth (as ++ bs) where
  placed r hr := (List.mem_append.1 hr).elim (ha.placed r) (hb.placed r)
  low r hr := (List.mem_append.1 hr).elim (ha.low r) fun h => hlo.trans (hb.low r h)
  high r hr := (List.mem_append.1 hr).elim (fun h => (ha.high r h).trans hhi) (hb.high r)
  deep r hr := (List.mem_append.1 hr).elim (ha.deep r) (hb.deep r)
  precedes := List.pairwise_append.2 ⟨ha.precedes, hb.precedes, fun a ha' b hb' =>
    .inl ((ha.high a ha').trans (hb.low b hb'))⟩

/-- A rule and the rules of its body make a region. -/
theorem cons {r : Rule} {inner : List Rule} (hr : Nonempty (Placement text r))
    (hlo : lo ≤ r.prelude.start) (hdepth : r.depth = depth)
    (hinner : Region text (r.block.start + 1) hi (depth + 1) inner)
    (hhi : hi + (if r.closed then 1 else 0) = r.block.stop) :
    Region text lo r.block.stop depth (r :: inner) := by
  obtain ⟨p⟩ := hr
  have hblock := congrArg Span.start p.block_eq
  have hprelude := congrArg Span.start p.prelude_eq
  simp only at hblock hprelude
  -- a rule of the body begins behind the brace of this one
  have hstart : ∀ b ∈ inner, r.block.start < b.prelude.start := fun b hb => hinner.low b hb
  refine ⟨fun b hb => ?_, fun b hb => ?_, fun b hb => ?_, fun b hb => ?_, ?_⟩
  · rcases List.mem_cons.1 hb with rfl | hb
    · exact ⟨p⟩
    · exact hinner.placed b hb
  · rcases List.mem_cons.1 hb with rfl | hb
    · exact hlo
    · have := hstart b hb
      omega
  · rcases List.mem_cons.1 hb with rfl | hb
    · exact Nat.le_refl _
    · have := hinner.high b hb
      omega
  · rcases List.mem_cons.1 hb with rfl | hb
    · exact hdepth.ge
    · have := hinner.deep b hb
      omega
  · refine List.pairwise_cons.2 ⟨fun b hb => .inr ⟨hstart b hb, ?_, ?_⟩, hinner.precedes⟩
    · have := hinner.high b hb
      omega
    · have := hinner.deep b hb
      omega

end Region

/-! ## Solid marks -/

/-- A solid mark begins with no whitespace. -/
def Mark.Sound (m : Mark) : Prop :=
  m.isSolid = true → ∀ c cs, m.chars = c :: cs → isSpace c = false

/-- The mark of a lexeme begins with whitespace only if it is whitespace. -/
theorem sound_ofLexeme {l : Lexeme} {r : List Char} (h : l.Reads r) (pos : Nat) :
    (Mark.ofLexeme l pos).Sound := by
  intro hsolid c cs hc
  refine h.not_isSpace (fun ht => ?_) hc
  simp [Mark.ofLexeme, Mark.isSolid, ht, Mark.Kind.ofToken] at hsolid

/-- The mark of a block begins with its opening token. -/
theorem sound_ofBlock {o : Lexeme} {r : List Char} (h : o.Reads r) (hopen : o.token ≠ .whitespace)
    (body : Forest) (closed : Bool) (pos : Nat) : (Mark.ofBlock o body closed pos).Sound := by
  intro _ c cs hc
  obtain ⟨d, ds, hd⟩ := List.exists_cons_of_ne_nil h.chars_ne_nil
  have hcd : d = c := by
    simp only [Mark.ofBlock, hd, List.cons_append] at hc
    exact (List.cons.inj hc).1
  rw [← hcd]
  exact h.not_isSpace hopen hd

/-- **The solid marks of a head** begin with no whitespace. -/
theorem sound_of_mem_marks {q : Forest} {pos : Nat} {within : Option Bracket}
    (hreads : ∀ l ∈ q.lexemes, ∃ r, l.Reads r) (hnest : q.Nested within) {m : Mark}
    (hm : m ∈ q.marks pos) : m.Sound := by
  induction q generalizing pos with
  | nil => simp [Forest.marks] at hm
  | token l rest ih =>
      rcases List.mem_cons.1 hm with rfl | hm
      · obtain ⟨r, hr⟩ := hreads l (by simp [Forest.lexemes])
        exact sound_ofLexeme hr pos
      · exact ih (fun k hk => hreads k (by simp [Forest.lexemes, hk])) hnest.2.2 hm
  | block o body closed rest _ ih =>
      rcases List.mem_cons.1 hm with rfl | hm
      · obtain ⟨r, hr⟩ := hreads o (by simp [Forest.lexemes])
        have hopen : o.token ≠ .whitespace := fun ht => by
          have := hnest.1
          simp [ht, Token.opens?] at this
        exact sound_ofBlock hr hopen body closed pos
      · exact ih (fun k hk => hreads k (by simp [Forest.lexemes, hk])) hnest.2.2.2.2 hm

/-- A core begins with its first mark, which is solid. -/
theorem IsCore.exists_cons {core : List Mark} {pos : Nat} (hcore : IsCore core) (hrun : Run pos core)
    (hsound : ∀ m ∈ core, m.Sound) : ∃ c cs, marksChars core = c :: cs ∧ isSpace c = false := by
  obtain ⟨m, ms, rfl⟩ := List.exists_cons_of_ne_nil hcore.ne_nil
  obtain ⟨c, cs, hc⟩ := List.exists_cons_of_ne_nil hrun.2.1
  have hsolid : m.isSolid = true := hcore.head_solid
  exact ⟨c, cs ++ marksChars ms, by rw [marksChars_cons, hc, List.cons_append],
    hsound m (by simp) hsolid c cs hc⟩

/-! ## Selector lists in a text -/

/-- The entries spell a selector list that begins at offset `pos`. -/
structure Lists (pos : Nat) (list : List Char) (es : List Entry) : Prop where
  /-- The first entry begins with the list. -/
  first : ∃ e, es.head? = some e ∧ e.span.start = pos
  /-- The last entry ends with the list. -/
  last : ∃ e, es.getLast? = some e ∧ e.span.stop = pos + byteSize list
  /-- Every entry spans a piece of the list. -/
  cut : ∀ e ∈ es, ∃ a b c, list = a ++ (b ++ c) ∧ b ≠ [] ∧
    e.span = ⟨pos + byteSize a, pos + byteSize a + byteSize b⟩
  /-- The entries stand in order, apart from each other. -/
  ordered : es.Pairwise fun e f => e.span.stop < f.span.start

namespace Lists

variable {pos : Nat} {list core gap : List Char} {e : Entry} {es : List Entry}

/-- A list of one entry. -/
theorem single (hlist : list ≠ []) (hspan : e.span = ⟨pos, pos + byteSize list⟩) :
    Lists pos list [e] where
  first := ⟨e, rfl, congrArg Span.start hspan⟩
  last := ⟨e, rfl, congrArg Span.stop hspan⟩
  cut f hf := by
    obtain rfl := List.mem_singleton.1 hf
    exact ⟨[], list, [], by simp, hlist, hspan⟩
  ordered := List.pairwise_singleton _ _

/-- An entry before a list, from which a gap sets it apart. -/
theorem cons (h : Lists (pos + byteSize core + byteSize gap) list es) (hcore : core ≠ [])
    (hspan : e.span = ⟨pos, pos + byteSize core⟩) (hgap : gap ≠ []) :
    Lists pos (core ++ (gap ++ list)) (e :: es) where
  first := ⟨e, rfl, congrArg Span.start hspan⟩
  last := by
    obtain ⟨f, hf, hstop⟩ := h.last
    refine ⟨f, by rw [List.getLast?_cons, hf]; rfl, ?_⟩
    rw [hstop]
    simp only [byteSize_append]
    omega
  cut f hf := by
    rcases List.mem_cons.1 hf with rfl | hf
    · exact ⟨[], core, gap ++ list, rfl, hcore, hspan⟩
    · obtain ⟨a, b, c, rfl, hb, hspan'⟩ := h.cut f hf
      refine ⟨core ++ (gap ++ a), b, c, by simp, hb, ?_⟩
      rw [hspan']
      simp only [byteSize_append, Nat.add_assoc]
  ordered := by
    refine List.pairwise_cons.2 ⟨fun f hf => ?_, h.ordered⟩
    obtain ⟨a, b, c, -, -, hspan'⟩ := h.cut f hf
    have hpos := byteSize_pos_of_ne_nil hgap
    rw [hspan', hspan]
    simp only
    omega

end Lists

/-- The marks of a gap with a comma are made of some characters. -/
theorem marksChars_ne_nil_of_mem {gap : List Mark} {pos : Nat} (hrun : Run pos gap) {m : Mark}
    (hm : m ∈ gap) : marksChars gap ≠ [] := by
  obtain ⟨x, y, rfl⟩ := List.append_of_mem hm
  have hne : m.chars ≠ [] := (run_append.1 hrun).2.2.1
  simp [hne]

/-- The segments of a statement end with a gap; what comes before it is the selector list. -/
theorem exists_list_of_segments {pos : Nat} {s : Segment} {rest : List Segment}
    (hrun : Run pos ((s :: rest).flatMap Segment.marks)) (hseg : Spelled (s :: rest)) :
    ∃ list gap, (s :: rest).flatMap Segment.marks = s.core ++ (list ++ gap) ∧
      Lists pos (marksChars (s.core ++ list)) ((s :: rest).map Segment.entry) := by
  induction rest generalizing pos s with
  | nil =>
      obtain ⟨hcore, -, -, -⟩ := hseg
      rw [List.flatMap_cons, List.flatMap_nil, List.append_nil, Segment.marks] at hrun ⊢
      have hrunCore := (run_append.1 hrun).1
      refine ⟨[], s.gap, rfl, ?_⟩
      rw [List.append_nil]
      exact .single (hcore.marksChars_ne_nil hrunCore) (span_coreEntry hrunCore hcore)
  | cons t rest ih =>
      obtain ⟨hcore, -, hcomma, hrest⟩ := hseg
      rw [List.flatMap_cons, Segment.marks, List.append_assoc] at hrun
      obtain ⟨hrunCore, hrun⟩ := run_append.1 hrun
      obtain ⟨hrunGap, hrun⟩ := run_append.1 hrun
      obtain ⟨list, gap, hmarks, hlist⟩ := ih hrun hrest
      obtain ⟨m, hm, -⟩ := hcomma (by simp)
      -- the gap of the first segment, with its comma, goes to the list
      refine ⟨s.gap ++ (t.core ++ list), gap, ?_, ?_⟩
      · rw [List.flatMap_cons, hmarks, Segment.marks]
        simp
      · have h := hlist.cons (hcore.marksChars_ne_nil hrunCore) (span_coreEntry hrunCore hcore)
          (marksChars_ne_nil_of_mem hrunGap hm)
        rwa [← marksChars_append, ← marksChars_append] at h

/-- **The selector list of a statement**: what stands before it, the list, and what stands after. -/
theorem exists_list_of_entries {pos : Nat} {ms : List Mark} {lead : Entry} {others : List Entry}
    (hrun : Run pos ms) (hsound : ∀ m ∈ ms, m.Sound) (hentries : entries ms = lead :: others) :
    ∃ before list gap, marksChars ms = before ++ (list ++ gap) ∧
      (∃ c cs, list = c :: cs ∧ isSpace c = false) ∧
      Lists (pos + byteSize before) list (lead :: others) := by
  obtain ⟨before, segments, rfl, hgap, hseg⟩ := exists_segments ms
  rw [entries_segments hgap hseg] at hentries
  obtain ⟨s, rest, rfl⟩ : ∃ s rest, segments = s :: rest :=
    List.exists_cons_of_ne_nil (by rintro rfl; simp at hentries)
  have hrunSeg := (run_append.1 hrun).2
  obtain ⟨list, gap, hmarks, hlist⟩ := exists_list_of_segments hrunSeg hseg
  rw [hmarks] at hrunSeg hsound ⊢
  have hrunCore := (run_append.1 hrunSeg).1
  obtain ⟨c, cs, hc, hspace⟩ :=
    hseg.1.exists_cons hrunCore fun m hm => hsound m (by simp [hm])
  refine ⟨marksChars before, marksChars (s.core ++ list), marksChars gap, by simp, ?_, ?_⟩
  · exact ⟨c, cs ++ marksChars list, by rw [marksChars_append, hc, List.cons_append], hspace⟩
  · rwa [← hentries]

/-- The last entry of a rule is the last of its entries. -/
theorem Rule.getLast?_entries (r : Rule) : r.entries.getLast? = some r.lastEntry := by
  rw [Rule.entries, List.getLast?_cons, Rule.lastEntry]

/-- The prelude of a rule is its selector list. -/
theorem Lists.prelude_eq {pos : Nat} {list : List Char} {r : Rule} (h : Lists pos list r.entries) :
    r.prelude = ⟨pos, pos + byteSize list⟩ := by
  obtain ⟨e, he, hstart⟩ := h.first
  obtain ⟨f, hf, hstop⟩ := h.last
  obtain rfl : r.lead = e := by simpa [Rule.entries] using he
  obtain rfl : r.lastEntry = f := by simpa [r.getLast?_entries] using hf
  rw [Rule.prelude, hstart, hstop]

/-! ## Forests in a text -/

/-- A forest stands in a text between two pieces of it. -/
structure Forest.Lies (text pre : List Char) (f : Forest) (post : List Char)
    (within : Option Bracket) : Prop where
  text_eq : text = pre ++ (f.source ++ post)
  reads : ∀ l ∈ f.lexemes, ∃ r, l.Reads r
  nested : f.Nested within

namespace Forest.Lies

variable {text pre post : List Char} {o l : Lexeme} {closed : Bool} {within : Option Bracket}
variable {depth : Nat}

/-- What follows a statement that ends with a semicolon. -/
theorem semicolon {q rest : Forest} (h : (q ++ .token l rest).Lies text pre post within) :
    rest.Lies text (pre ++ (q.source ++ l.chars)) post within where
  text_eq := by simp [h.text_eq, Forest.source]
  reads k hk := h.reads k (by simp [Forest.lexemes, hk])
  nested := h.nested.append_right.2.2

/-- The body of a block. -/
theorem body {q body rest : Forest}
    (h : (q ++ .block o body closed rest).Lies text pre post within) :
    body.Lies text (pre ++ (q.source ++ o.chars))
      (closerChars o closed ++ (rest.source ++ post)) (some o.bracket) where
  text_eq := by simp [h.text_eq, Forest.source]
  reads k hk := h.reads k (by simp [Forest.lexemes, hk])
  nested := h.nested.append_right.2.1

/-- What follows a block. -/
theorem rest {q body rest : Forest}
    (h : (q ++ .block o body closed rest).Lies text pre post within) :
    rest.Lies text (pre ++ (q.source ++ (o.chars ++ (body.source ++ closerChars o closed)))) post
      within where
  text_eq := by simp [h.text_eq, Forest.source]
  reads k hk := h.reads k (by simp [Forest.lexemes, hk])
  nested := h.nested.append_right.2.2.2.2

/-- The opening brace of a block. -/
theorem brace_eq {q body rest : Forest}
    (h : (q ++ .block o body closed rest).Lies text pre post within)
    (ho : o.token = .opening .curly) : o.chars = ['{'] := by
  obtain ⟨r, hr⟩ := h.reads o (by simp [Forest.lexemes])
  exact hr.chars_eq_of_mark (by rw [ho]; rfl)

/-- **The rule of a statement** that ends with a block is laid out in the text around it. -/
theorem nonempty_placement {q body rest : Forest}
    (h : (q ++ .block o body closed rest).Lies text pre post within)
    (ho : o.token = .opening .curly) {lead : Entry} {others : List Entry}
    (hentries : entries (q.marks (byteSize pre)) = lead :: others) {r : Rule}
    (hr : r = ⟨lead, others, ⟨byteSize pre + q.size, byteSize pre + q.size + byteSize o.chars +
      body.size + byteSize (closerChars o closed)⟩, closed, depth⟩) :
    Nonempty (Placement text r) ∧ byteSize pre ≤ r.prelude.start := by
  have hrun : Run (byteSize pre) (q.marks (byteSize pre)) := Forest.run_marks (fun l hl =>
    (h.reads l (by simp [hl])).elim fun r hr => hr.chars_ne_nil) _
  -- the marks of the head are those of a gap, of the list, and of a gap before the brace
  obtain ⟨before, list, gap, hmarks, hstarts, hlist⟩ := exists_list_of_entries hrun
    (fun m hm => sound_of_mem_marks (fun l hl => h.reads l (by simp [hl])) h.nested.append_left hm)
    hentries
  rw [Forest.marksChars_marks] at hmarks
  rw [← byteSize_append] at hlist
  have hbrace := h.brace_eq ho
  have hsize : q.size = byteSize before + byteSize list + byteSize gap := by
    rw [← Forest.byteSize_source, hmarks, byteSize_append, byteSize_append, Nat.add_assoc]
  have hbody := Forest.byteSize_source body
  have hlist' : Lists (byteSize (pre ++ before)) list r.entries := by rwa [hr]
  have hprelude := hlist'.prelude_eq
  refine ⟨⟨{
    before := pre ++ before
    list := list
    gap := gap
    body := body.source
    close := closerChars o closed
    after := rest.source ++ post
    text_eq := by simp [h.text_eq, Forest.source, hmarks, hbrace]
    prelude_eq := hprelude
    block_eq := ?_
    close_eq := by simp [closerChars, o.bracket_of_curly ho, Bracket.closer, hr]
    starts := hstarts
    entry_cut := hlist'.cut
    ordered := hlist'.ordered }⟩, ?_⟩
  · rw [hr]
    simp [hsize, hbrace, hbody, Nat.add_assoc]
  · rw [hprelude, byteSize_append]
    exact Nat.le_add_right _ _

/-- What a block adds to an outline fills the region of its statement, if the rules of its body fill
the region between the braces. -/
theorem region_block {q body rest : Forest}
    (h : (q ++ .block o body closed rest).Lies text pre post within)
    (ho : o.token = .opening .curly) {context : Context} {inside : Nat}
    (hinside : inside = byteSize pre + q.size + byteSize o.chars)
    (hbody : ∀ context depth, Region text inside (inside + body.size) depth
      (outlineFrom context depth inside [] body).rules) :
    Region text (byteSize pre) (inside + body.size + byteSize (closerChars o closed)) depth
      ((bodyOf (q.marks (byteSize pre))).outline context depth inside
        ⟨byteSize pre + q.size, inside + body.size + byteSize (closerChars o closed)⟩ closed
        body).rules := by
  cases hkind : bodyOf (q.marks (byteSize pre)) with
  | skipped => exact .nil
  | group => exact (hbody context (depth + 1)).widen (by omega) (by omega) (by omega)
  | style lead others =>
      have hentries := (bodyOf_eq_style_iff.1 hkind).2.1
      obtain ⟨hplaced, hstart⟩ := h.nonempty_placement ho hentries
        (r := ⟨lead, others, _, closed, depth⟩) rfl
      -- the braces take one byte each
      have hopen : byteSize o.chars = 1 := by rw [h.brace_eq ho]; rfl
      have hclose : byteSize (closerChars o closed) = if closed then 1 else 0 := by
        simp only [closerChars, o.bracket_of_curly ho, Bracket.closer]
        cases closed <;> rfl
      rw [hopen] at hinside
      subst hinside
      rw [hopen] at hplaced hstart
      exact Region.cons hplaced hstart rfl (hbody .declarations (depth + 1)) (by rw [hclose])

end Forest.Lies

/-! ## Outlines fill a region -/

/-- **The rules of a forest fill the region it was read from.** -/
theorem region_outlineFrom {text pre post : List Char} {f : Forest} {within : Option Bracket}
    (h : f.Lies text pre post within) (context : Context) (depth : Nat) :
    Region text (byteSize pre) (byteSize pre + f.size) depth
      (outlineFrom context depth (byteSize pre) [] f).rules := by
  induction f using Forest.statements generalizing pre post context depth within with
  | finish q hq =>
      rw [outlineFrom_finish hq]
      exact .nil
  | semicolon q l rest hq hl ih =>
      -- the rules are those of what follows the semicolon
      have hrest := ih h.semicolon context depth
      simp only [byteSize_append, Forest.byteSize_source, ← Nat.add_assoc] at hrest
      rw [outlineFrom_semicolon hq hl]
      refine hrest.widen (by omega) ?_ (Nat.le_refl _)
      simp only [Forest.size_append, Forest.size]
      omega
  | block q o body closed rest hq ho ihb ihr =>
      -- the rules of the block, and then those of what follows it
      have hbody := fun context depth => ihb h.body context depth
      have hrest := ihr h.rest context depth
      simp only [byteSize_append, Forest.byteSize_source, ← Nat.add_assoc] at hbody hrest
      rw [outlineFrom_block hq ho]
      simp only [Outline.rules_append, Outline.rules_ofProblems, List.nil_append, List.append_nil]
      have hhigh : byteSize pre + (q ++ Forest.block o body closed rest).size =
          byteSize pre + q.size + byteSize o.chars + body.size + byteSize (closerChars o closed) +
            rest.size := by
        simp only [Forest.size_append, Forest.size]
        omega
      rw [hhigh]
      exact (h.region_block ho rfl hbody).append hrest (by omega) (by omega)

/-- **The rules of an outline fill its text.** -/
theorem region_ofText (text : String) :
    Region text.toList 0 (byteSize text.toList) 0 (Outline.ofText text).rules := by
  have hsource := Forest.source_ofText text.toList
  have hlies : (Forest.ofText text.toList).Lies text.toList [] [] none :=
    { text_eq := by simp [hsource]
      reads := fun l hl => reads_of_mem_lexemes (by rwa [Forest.lexemes_ofText] at hl)
      nested := Forest.nested_ofText _ }
  have h := region_outlineFrom hlies .ruleList 0
  rwa [← Forest.byteSize_source, hsource, byteSize_nil, Nat.zero_add] at h

end StyleAudit.Sheet
