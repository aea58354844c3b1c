import Mathlib
import StyleAudit.Proofs.Sheet.Faults
import StyleAudit.Proofs.Sheet.Spelling

/-! # The shape of the selectors that are reported

A selector is not reported if its text shows that it is contextual or compound. The text of an
entry is that of its tokens, so what is reported can be told by tokens: one name, a dot and a name,
or one hash. Three shapes pass the look at the text although they are none of these.

* **`IsSimple`** — the tokens of a type, a class or an id selector.
* **`Slips`** — the shapes that no character of their text gives away.
* **`Forest.plain_of_isPlain`** — a head whose text has no contextual character has plain tokens.
* **`isSimple_or_slips`** — plain tokens without a fragment are simple or slip through.
* **`isSimple_or_slips_of_mem_unused`** — the entries behind a selector that is reported.
* **`not_isSimple_of_mem_unused`** — each of the three other shapes is reported. -/

namespace StyleAudit

open Text Sheet

namespace Sheet

/-! ## Shapes -/

/-- The tokens of a single type, class or id selector. -/
inductive IsSimple : List Token → Prop
  | tag (name : List Char) : IsSimple [.ident name]
  | cls (name : List Char) : IsSimple [.delim '.', .ident name]
  | id (name : List Char) (isId : Bool) : IsSimple [.hash name isId]

/-- Whether a token is a name of its own: an identifier or a hash. -/
def Token.isName : Token → Bool
  | .ident _ | .hash _ _ => true
  | _ => false

/-- Whether a token stands in no simple selector and is not written with a character of a
contextual selector of its own. -/
def Token.isStray : Token → Bool
  | .atKeyword _ | .string _ | .number _ | .dimension _ _ | .commentOpen => true
  | .delim c => c != '.' && !Selector.contextual.contains c
  | .matcher c => !Selector.contextual.contains c
  | _ => false

/-- The shapes whose text looks like that of a simple selector: one with a stray token, one that
ends with a bare dot, and one where only a comment separates a name from an identifier. -/
inductive Slips : List Token → Prop
  | stray {ts : List Token} {t : Token} (ht : t ∈ ts) (hstray : t.isStray = true) : Slips ts
  | dot (ts : List Token) : Slips (ts ++ [.delim '.'])
  | joined {front back : List Token} {t : Token} (ht : t.isName = true) (name : List Char) :
      Slips (front ++ t :: .ident name :: back)

/-! ## Plain tokens -/

/-- A token shows, opens no block, separates nothing, and has a text without contextual
characters. -/
structure Token.IsPlain (t : Token) : Prop where
  isVisible : t.isVisible = true
  opens? : t.opens? = none
  ne_comma : t ≠ .comma
  ne_semicolon : t ≠ .semicolon
  text : ∀ c ∈ t.render, c ∉ Selector.contextual

/-- The kinds of plain tokens in a selector list entry. -/
theorem Token.IsPlain.kinds {t : Token} (h : t.IsPlain) :
    t.isStray = true ∨ t = .delim '.' ∨ t.isName = true := by
  obtain ⟨hvisible, hopens, hcomma, hsemicolon, htext⟩ := h
  cases t with
  | ident name => exact .inr (.inr rfl)
  | hash name isId => exact .inr (.inr rfl)
  | delim c =>
      have hc := htext c (List.mem_singleton_self c)
      by_cases hdot : c = '.'
      · exact .inr (.inl (by rw [hdot]))
      · exact .inl (by simp [Token.isStray, hdot, hc])
  | matcher c =>
      have hc := htext c List.mem_cons_self
      exact .inl (by simp [Token.isStray, hc])
  | atKeyword _ | string _ | number _ | dimension _ _ | commentOpen => exact .inl rfl
  -- the others with a text of their own show it
  | url value => exact absurd (by decide) (htext '(' (by simp [Token.render, renderUrl]))
  | percentage n =>
      exact absurd (by decide) (htext '%' (by simp [Token.render, Numeral.renderPercent]))
  | colon => exact absurd (by decide) (htext ':' (by simp [Token.render]))
  | commentClose => exact absurd (by decide) (htext '>' (by simp [Token.render]))
  | comma => exact absurd rfl hcomma
  | semicolon => exact absurd rfl hsemicolon
  | function _ | opening _ => simp [Token.opens?] at hopens
  | whitespace | comment _ | badString | badUrl | closing _ => simp [Token.isVisible] at hvisible

/-! ## The text of a core -/

/-- The text of a solid mark stands in that of its run. -/
theorem mem_marksText_of_mem {ms : List Mark} {m : Mark} (hm : m ∈ ms) (hsolid : m.isSolid = true)
    {c : Char} (hc : c ∈ m.text) (started gap : Bool) : c ∈ marksText started gap ms := by
  induction ms generalizing started gap with
  | nil => exact absurd hm List.not_mem_nil
  | cons k ms ih =>
      rw [marksText]
      rcases List.mem_cons.1 hm with rfl | hm
      · have hkind : m.kind ≠ .space := fun h => by simp [Mark.isSolid, h] at hsolid
        rw [if_neg hkind, if_pos hsolid]
        exact List.mem_append_left _ (List.mem_append_right _ hc)
      · split
        · exact ih hm _ _
        · split
          · exact List.mem_append_right _ (ih hm _ _)
          · exact ih hm _ _

/-- A space that is due stands before the next solid mark. -/
theorem space_mem_marksText_of_gap {ms : List Mark} (h : ∃ m ∈ ms, m.isSolid = true) :
    ' ' ∈ marksText true true ms := by
  induction ms with
  | nil => simp at h
  | cons k ms ih =>
      rw [marksText]
      split
      · rename_i hspace
        refine ih ?_
        obtain ⟨m, hm, hsolid⟩ := h
        rcases List.mem_cons.1 hm with rfl | hm
        · simp [Mark.isSolid, hspace] at hsolid
        · exact ⟨m, hm, hsolid⟩
      · split
        · simp [gapChars]
        · rename_i hnot
          refine ih ?_
          obtain ⟨m, hm, hsolid⟩ := h
          rcases List.mem_cons.1 hm with rfl | hm
          · exact absurd hsolid hnot
          · exact ⟨m, hm, hsolid⟩

/-- Whitespace between two solid marks shows as a space. -/
theorem space_mem_marksText {ms : List Mark} (hlast : ∀ m ∈ ms.getLast?, m.isSolid = true)
    {m : Mark} (hm : m ∈ ms) (hspace : m.kind = .space) (gap : Bool) :
    ' ' ∈ marksText true gap ms := by
  induction ms generalizing gap with
  | nil => exact absurd hm List.not_mem_nil
  | cons k ms ih =>
      cases ms with
      | nil =>
          -- the last mark is solid, and this is whitespace
          obtain rfl := List.mem_singleton.1 hm
          have hsolid := hlast m rfl
          simp [Mark.isSolid, hspace] at hsolid
      | cons n ms =>
          have hlast' : ∀ m ∈ (n :: ms).getLast?, m.isSolid = true := fun m h =>
            hlast m (by rwa [List.getLast?_cons_cons])
          rw [marksText]
          split
          · refine space_mem_marksText_of_gap ⟨(n :: ms).getLast (by simp), ?_, ?_⟩
            · exact List.getLast_mem _
            · exact hlast' _ (by simp [List.getLast?_eq_some_getLast])
          · rename_i hne
            have hm' : m ∈ n :: ms := by
              rcases List.mem_cons.1 hm with rfl | hm
              · exact absurd hspace hne
              · exact hm
            split
            · exact List.mem_append_right _ (ih hlast' hm' _)
            · exact ih hlast' hm' _

/-- **A core whose text has no space has no whitespace.** -/
theorem IsCore.kind_ne_space {ms : List Mark} (h : IsCore ms)
    (hspace : ' ' ∉ marksText false false ms) : ∀ m ∈ ms, m.kind ≠ .space := by
  obtain ⟨hne, -, hhead, hlast⟩ := h
  cases ms with
  | nil => exact absurd rfl hne
  | cons first ms =>
      rw [List.head_cons] at hhead
      have hfirst : first.kind ≠ .space := fun h => by simp [Mark.isSolid, h] at hhead
      rw [marksText, if_neg hfirst, if_pos hhead] at hspace
      intro m hm hkind
      rcases List.mem_cons.1 hm with rfl | hm
      · exact hfirst hkind
      · refine hspace (List.mem_append_right _ (space_mem_marksText (fun k hk => ?_) hm hkind _))
        have hms : ms ≠ [] := List.ne_nil_of_mem hm
        rw [List.getLast?_eq_some_getLast hms, Option.mem_some_iff] at hk
        rw [← hk, ← List.getLast_cons hms]
        exact hlast

/-- A token that is no problem and no comment shows, if its mark is not whitespace. -/
theorem Token.isVisible_of_problems {l : Lexeme} {pos : Nat} (hproblems : l.token.problems pos = [])
    (hcomment : l.token.isComment ≠ true) (hspace : (Mark.ofLexeme l pos).kind ≠ .space) :
    l.token.isVisible = true := by
  cases ht : l.token <;>
    simp_all [Token.problems, Token.cause?, Token.isComment, Token.isVisible, Mark.ofLexeme,
      Mark.Kind.ofToken]

/-- The bracket that opens a block in a head is a contextual character of its text. -/
theorem exists_contextual_of_opens {o : Lexeme} (hopen : o.token.opens? = some o.bracket)
    (hcurly : o.token ≠ .opening .curly) (body : Forest) :
    ∃ c ∈ blockText o body, c ∈ Selector.contextual := by
  have hrender : ∃ c ∈ o.token.render, c ∈ Selector.contextual := by
    cases ht : o.token with
    | function name => exact ⟨'(', by simp [Token.render], by decide⟩
    | opening b =>
        cases b with
        | round => exact ⟨'(', List.mem_singleton_self _, by decide⟩
        | square => exact ⟨'[', List.mem_singleton_self _, by decide⟩
        | curly => exact absurd ht hcurly
    | _ => simp [ht, Token.opens?] at hopen
  obtain ⟨c, hc, hcontext⟩ := hrender
  exact ⟨c, List.mem_append_left _ (List.mem_append_left _ hc), hcontext⟩

/-- **A head whose text has no contextual character has plain tokens**, apart from comments. -/
theorem Forest.isPlain_of_marks {f : Forest} {within : Option Bracket} {pos : Nat}
    (hflat : f.Flat) (hnest : f.Nested within) (hproblems : f.problems pos = [])
    (hkinds : ∀ m ∈ f.marks pos, m.kind ≠ .space ∧ m.kind ≠ .comma)
    (htext : ∀ m ∈ f.marks pos, m.isSolid = true → ∀ c ∈ m.text, c ∉ Selector.contextual) :
    ∀ t ∈ (f.lexemes.map Lexeme.token).filter (!·.isComment), t.IsPlain := by
  induction f generalizing pos with
  | nil => simp [lexemes]
  | token l rest ih =>
      rw [problems, List.append_eq_nil_iff] at hproblems
      simp only [marks, List.forall_mem_cons] at hkinds htext
      have hrest := ih hflat.2 hnest.2.2 hproblems.2 hkinds.2 htext.2
      rw [lexemes, List.map_cons]
      by_cases hcomment : l.token.isComment = true
      · rwa [List.filter_cons_of_neg (by simp [hcomment])]
      · rw [List.filter_cons_of_pos (by simp [hcomment]), List.forall_mem_cons]
        have hvisible := Token.isVisible_of_problems hproblems.1 hcomment hkinds.1.1
        have hsolid := (solid_of_isVisible hvisible pos).1
        have hcomma : l.token ≠ .comma := fun h =>
          hkinds.1.2 (by simp [Mark.ofLexeme, h, Mark.Kind.ofToken])
        exact ⟨⟨hvisible, hnest.1, hcomma, hflat.1, htext.1 hsolid⟩, hrest⟩
  | block o body closed rest _ _ =>
      simp only [marks, List.forall_mem_cons] at htext
      obtain ⟨c, hc, hcontext⟩ := exists_contextual_of_opens hnest.1 hflat.1 body
      exact absurd hcontext (htext.1 rfl c hc)

/-- **The tokens of an entry whose text has no contextual character are plain**, in a text without
problems. -/
theorem isPlain_of_mem_spelling {text : String} {r : Rule} (g : Origin 0 (lexemes text.toList) r)
    (hsound : g.head.problems (byteSize (charsOf g.before)) = []) {e : Entry} (he : e ∈ r.entries)
    (htext : ∀ c ∈ e.text.toList, c ∉ Selector.contextual) :
    ∀ t ∈ spelling text e.span, t.IsPlain := by
  obtain ⟨a, core, b, hhead, hcore, rfl⟩ := g.exists_core he
  obtain ⟨within, hnest⟩ := g.nested
  have hflat := g.flat
  rw [hhead] at hnest hflat hsound
  simp only [Forest.problems_append, List.append_eq_nil_iff] at hsound
  rw [coreEntry, String.toList_ofList] at htext
  rw [g.spelling_eq hhead hcore]
  refine Forest.isPlain_of_marks hflat.of_append.2.of_append.1 hnest.append_right.append_left
    hsound.2.1 (fun m hm => ⟨?_, hcore.no_comma m hm⟩) fun m hm hsolid c hc => ?_
  · exact hcore.kind_ne_space (fun h => htext _ h (by decide)) m hm
  · exact htext c (mem_marksText_of_mem hm hsolid hc false false)

/-! ## Plain tokens without a fragment -/

/-- A name is read where a digit or a hyphen stands. -/
theorem scanName_ne_nil_of_digitAhead {cs : List Char}
    (h : (digitAhead cs || cs.head? == some '-') = true) : (scanName cs).1 ≠ [] := by
  cases cs with
  | nil => simp [digitAhead] at h
  | cons c cs =>
      have hpart : isNamePart c = true := by
        simp only [digitAhead, List.head?_cons, Bool.or_eq_true, beq_iff_eq, Option.some.injEq] at h
        rcases h with h | rfl
        · simp [isNamePart, Char.isAlphanum, h]
        · rfl
      rw [scanName_cons, if_pos hpart]
      exact List.cons_ne_nil _ _

/-- A hash has a name. -/
theorem next_hash_ne_nil {c : Char} {cs name : List Char} {isId : Bool}
    (h : (Token.next c cs).1 = .hash name isId) : name ≠ [] := by
  rw [name_of_next_hash h]
  have hident : (scanIdentLike (c :: cs)).1 ≠ .hash name isId := by
    rcases scanIdentLike_cases (c :: cs) with h | h | ⟨v, h⟩ | h <;> simp [h]
  have hnum : (scanNumeric (c :: cs)).1 ≠ .hash name isId := by
    rcases scanNumeric_cases (c :: cs) with ⟨n, h⟩ | ⟨n, h⟩ | ⟨n, unit, h⟩ <;> simp [h]
  unfold Token.next afterFirst matcherOr at h
  repeat' split at h
  all_goals
    first
    | with_reducible exact absurd h hnum
    | with_reducible exact absurd h hident
    | exact scanName_ne_nil (by assumption)
    | exact scanName_ne_nil_of_digitAhead (by assumption)
    | simp at h

/-- A hash that is read is written with something after its mark. -/
theorem Lexeme.Reads.exists_render_hash {l : Lexeme} {rest : List Char} (h : l.Reads rest)
    {name : List Char} {isId : Bool} (ht : l.token = .hash name isId) :
    ∃ cs, l.token.render = '#' :: cs ∧ cs ≠ [] := by
  obtain ⟨c, cs, -, hnext, -⟩ := h
  rw [ht] at hnext
  have hname := next_hash_ne_nil hnext
  rw [ht, Token.render]
  refine ⟨_, rfl, ?_⟩
  split
  · exact renderIdent_ne_nil hname
  · obtain ⟨d, ds, rfl⟩ := List.exists_cons_of_ne_nil hname
    have hchar : renderNameChar d ≠ [] := by
      unfold renderNameChar hexEscape
      split_ifs <;> simp
    simp [renderName, hchar]

/-- After the first token, nothing follows a dot or a hash in a text without fragments. -/
theorem append_eq_nil_of_hasFragment {first t : Token} {front back : List Token}
    (hfirst : first.render ≠ [])
    (hfragment :
      Selector.hasFragment ((first :: (front ++ t :: back)).flatMap Token.render).tail = false)
    {c : Char} {cs : List Char} (ht : t.render = c :: cs) (hc : c = '.' ∨ c = '#') :
    cs ++ back.flatMap Token.render = [] := by
  by_contra hbehind
  have htail : ((first :: (front ++ t :: back)).flatMap Token.render).tail =
      (first.render.tail ++ front.flatMap Token.render) ++
        c :: (cs ++ back.flatMap Token.render) := by
    rw [List.flatMap_cons, List.tail_append_of_ne_nil hfirst, List.flatMap_append,
      List.flatMap_cons, ht]
    simp
  rw [htail, hasFragment_append hc hbehind] at hfragment
  exact absurd hfragment (by decide)

/-- **After the first token**, a token of a text without fragments is an identifier, or the last
one and a dot: of all plain ones that show something, these alone have a text that is no fragment. -/
theorem dot_or_ident_of_hasFragment {first t : Token} {front back : List Token}
    (hread : ∀ u ∈ first :: (front ++ t :: back), ∃ l : Lexeme, l.token = u ∧
      ∃ rest, l.Reads rest)
    (hvisible : ∀ u ∈ first :: (front ++ t :: back), u.isVisible = true)
    (hkind : t = .delim '.' ∨ t.isName = true)
    (hfragment :
      Selector.hasFragment ((first :: (front ++ t :: back)).flatMap Token.render).tail = false) :
    (t = .delim '.' ∧ back = []) ∨ ∃ name, t = .ident name := by
  have hrender : ∀ u ∈ first :: (front ++ t :: back), u.render ≠ [] := by
    intro u hu
    obtain ⟨l, rfl, rest, hreads⟩ := hread u hu
    exact render_ne_nil hreads (hvisible _ hu)
  have hbehind := fun {c cs} => @append_eq_nil_of_hasFragment first t front back
    (hrender first List.mem_cons_self) hfragment c cs
  rcases hkind with rfl | hname
  · have hback := hbehind rfl (.inl rfl)
    rw [List.nil_append, List.flatMap_eq_nil_iff] at hback
    refine .inl ⟨rfl, List.eq_nil_iff_forall_not_mem.2 fun u hu => ?_⟩
    exact hrender u (by simp [hu]) (hback u hu)
  · cases t with
    | ident name => exact .inr ⟨name, rfl⟩
    | hash name isId =>
        -- a hash is never bare, so it would be a fragment
        obtain ⟨l, hl, rest, hreads⟩ := hread (.hash name isId) (by simp)
        obtain ⟨cs, hcs, hne⟩ := hreads.exists_render_hash hl
        rw [hl] at hcs
        exact absurd (List.append_eq_nil_iff.1 (hbehind hcs (.inr rfl))).1 hne
    | _ => simp [Token.isName] at hname

/-- **Plain tokens that show no fragment** are those of a simple selector, or slip through. -/
theorem isSimple_or_slips {ts : List Token} (hne : ts ≠ [])
    (hread : ∀ t ∈ ts, ∃ l : Lexeme, l.token = t ∧ ∃ rest, l.Reads rest)
    (hplain : ∀ t ∈ ts, t.IsPlain)
    (hfragment : Selector.hasFragment (ts.flatMap Token.render).tail = false) :
    IsSimple ts ∨ Slips ts := by
  by_cases hstray : ∃ t ∈ ts, t.isStray = true
  · obtain ⟨t, ht, hstray⟩ := hstray
    exact .inr (.stray ht hstray)
  have hkinds : ∀ t ∈ ts, t = .delim '.' ∨ t.isName = true := fun t ht =>
    (hplain t ht).kinds.resolve_left fun h => hstray ⟨t, ht, h⟩
  obtain ⟨first, rest, rfl⟩ := List.exists_cons_of_ne_nil hne
  have hlater : ∀ front t back, rest = front ++ t :: back →
      (t = .delim '.' ∧ back = []) ∨ ∃ name, t = .ident name := by
    rintro front t back rfl
    exact dot_or_ident_of_hasFragment hread (fun u hu => (hplain u hu).isVisible)
      (hkinds t (by simp)) hfragment
  -- one token, two of them, or more: the shapes that are left are those of a short list
  cases rest with
  | nil =>
      rcases hkinds first List.mem_cons_self with rfl | hname
      · exact .inr (.dot [])
      · cases first with
        | ident name => exact .inl (.tag name)
        | hash name isId => exact .inl (.id name isId)
        | _ => simp [Token.isName] at hname
  | cons second rest =>
      rcases hlater [] second rest rfl with ⟨rfl, rfl⟩ | ⟨name, rfl⟩
      · exact .inr (.dot [first])
      rcases hkinds first List.mem_cons_self with rfl | hname
      · cases rest with
        | nil => exact .inl (.cls name)
        | cons third rest =>
            rcases hlater [.ident name] third rest rfl with ⟨rfl, rfl⟩ | ⟨name', rfl⟩
            · exact .inr (.dot [.delim '.', .ident name])
            · exact .inr (@Slips.joined [.delim '.'] rest (.ident name) rfl name')
      · exact .inr (@Slips.joined [] rest first hname name)

end Sheet

/-! ## Reports -/

/-- **What is reported.** A selector of an accepted stylesheet that is reported as unused is the
text of an entry, and every entry with that text is, apart from comments, a single name, a dot and
a name, or a single hash, unless it is of one of the shapes that slip through. -/
theorem isSimple_or_slips_of_mem_unused {text s : String} {declared used : SelectorSet}
    (haccepted : declared? text = .ok declared) (hs : s ∈ Selector.unused declared used) :
    (∃ e ∈ (Outline.ofText text).entries, e.text = s) ∧
      ∀ e ∈ (Outline.ofText text).entries, e.text = s →
        IsSimple (spelling text e.span) ∨ Slips (spelling text e.span) := by
  obtain ⟨hproblems, rfl⟩ := declared?_eq_ok_iff.1 haccepted
  rw [Selector.unused, SelectorSet.mem_filter, Bool.and_eq_true, Bool.not_eq_true',
    Bool.not_eq_true'] at hs
  obtain ⟨hdeclared, -, hambiguous⟩ := hs
  rw [Outline.declared, SelectorSet.mem_ofList] at hdeclared
  refine ⟨List.mem_map.1 hdeclared, ?_⟩
  rintro e he rfl
  obtain ⟨r, hr, he⟩ := Outline.mem_entries.1 he
  obtain ⟨g, hsound⟩ := exists_origin_ofText hr
  have hhead := hsound hproblems
  rw [Nat.zero_add] at hhead
  rw [Selector.isAmbiguous, Bool.or_eq_false_iff] at hambiguous
  obtain ⟨hcontextual, hfragment⟩ := hambiguous
  have hplain := isPlain_of_mem_spelling g hhead he fun c hc hmem => by
    rw [List.any_eq_false] at hcontextual
    exact hcontextual c hc (by simpa using hmem)
  obtain ⟨htext, hread⟩ := text_eq_render hr he rfl fun t ht =>
    ⟨(hplain t ht).isVisible, (hplain t ht).opens?⟩
  rw [htext, String.toList_ofList] at hfragment
  refine isSimple_or_slips (fun hnil => ?_) hread hplain hfragment
  -- an entry has a text
  rw [hnil] at htext
  exact g.text_ne_empty he htext

/-- A type selector, a class and an id of one list are reported. -/
theorem isSimple_or_slips_of_mem_unused_list :
    declared? "p, ./**/a {}" = .ok (.ofList ["p", ".a"]) ∧
    ".a" ∈ Selector.unused (.ofList ["p", ".a"]) (.ofList ["p"]) ∧
    (IsSimple (spelling "p, ./**/a {}" ⟨3, 9⟩) ∨ Slips (spelling "p, ./**/a {}" ⟨3, 9⟩)) := by
  have haccepted : declared? "p, ./**/a {}" = .ok (.ofList ["p", ".a"]) :=
    declared?_eq_ok_iff.2 (by decide +kernel)
  have hunused : ".a" ∈ Selector.unused (.ofList ["p", ".a"]) (.ofList ["p"]) := by decide +kernel
  have hentry : (⟨".a", ⟨3, 9⟩⟩ : Entry) ∈ (Outline.ofText "p, ./**/a {}").entries := by
    decide +kernel
  exact ⟨haccepted, hunused, (isSimple_or_slips_of_mem_unused haccepted hunused).2 _ hentry rfl⟩

/-- **Other shapes are reported as well**: a type with a namespace, a name with a dot behind it, and
two names that only a comment separates. No entry with the text that is reported is simple. -/
theorem not_isSimple_of_mem_unused :
    (declared? "svg|a {}" = .ok (.ofList ["svg|a"]) ∧
      "svg|a" ∈ Selector.unused (.ofList ["svg|a"]) .empty ∧
      ∀ e ∈ (Outline.ofText "svg|a {}").entries, ¬ IsSimple (spelling "svg|a {}" e.span)) ∧
    (declared? "a. {}" = .ok (.ofList ["a."]) ∧ "a." ∈ Selector.unused (.ofList ["a."]) .empty ∧
      ∀ e ∈ (Outline.ofText "a. {}").entries, ¬ IsSimple (spelling "a. {}" e.span)) ∧
    (declared? "a/**/b {}" = .ok (.ofList ["ab"]) ∧
      "ab" ∈ Selector.unused (.ofList ["ab"]) .empty ∧
      ∀ e ∈ (Outline.ofText "a/**/b {}").entries, ¬ IsSimple (spelling "a/**/b {}" e.span)) := by
  refine ⟨⟨declared?_eq_ok_iff.2 (by decide +kernel), by decide +kernel, ?_⟩,
    ⟨declared?_eq_ok_iff.2 (by decide +kernel), by decide +kernel, ?_⟩,
    declared?_eq_ok_iff.2 (by decide +kernel), by decide +kernel, ?_⟩
  · have hentries : (Outline.ofText "svg|a {}").entries = [⟨"svg|a", ⟨0, 5⟩⟩] := by decide +kernel
    have hspelling : spelling "svg|a {}" ⟨0, 5⟩ =
        [.ident ['s', 'v', 'g'], .delim '|', .ident ['a']] := by decide +kernel
    rw [hentries, List.forall_mem_singleton, hspelling]
    intro h
    cases h
  · have hentries : (Outline.ofText "a. {}").entries = [⟨"a.", ⟨0, 2⟩⟩] := by decide +kernel
    have hspelling : spelling "a. {}" ⟨0, 2⟩ = [.ident ['a'], .delim '.'] := by decide +kernel
    rw [hentries, List.forall_mem_singleton, hspelling]
    intro h
    cases h
  · have hentries : (Outline.ofText "a/**/b {}").entries = [⟨"ab", ⟨0, 6⟩⟩] := by decide +kernel
    have hspelling : spelling "a/**/b {}" ⟨0, 6⟩ = [.ident ['a'], .ident ['b']] := by
      decide +kernel
    rw [hentries, List.forall_mem_singleton, hspelling]
    intro h
    cases h

end StyleAudit
