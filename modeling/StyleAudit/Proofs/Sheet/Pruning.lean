import Mathlib
import StyleAudit.Proofs.Sheet.Outcome
import StyleAudit.Proofs.Sheet.Printed

/-! # Removal commutes with printing

Removing selectors from a printed tree gives the tree that is printed from what is left. A style
rule that goes takes exactly its own lines, since it begins a line and the blanks after its closing
brace end with the newline; a selector list is rewritten in its place.

* **`Tree.edits`** — the edits that prune a printed tree.
* **`Tree.replay_edits`** — they turn the lines of a tree into those of the pruned tree.
* **`Tree.Stands`** — a tree is printed in a text, between two pieces of it.
* **`Tree.editsOf_rules`** — they are the edits of the exposed rules of the tree.
* **`removal_prunes_printed`** — removing selectors from a printed tree prunes it. -/

namespace StyleAudit.Sheet

open Text

/-! ## The rules of a printed tree -/

/-- The texts of printed selectors. -/
theorem map_text_entriesAt (pos : Nat) (ss : List Simple) :
    (entriesAt pos ss).map Entry.text = ss.map Simple.text := by
  induction ss generalizing pos with
  | nil => rfl
  | cons s ss ih => rw [entriesAt, List.map_cons, List.map_cons, ih]

/-- The last of the printed selectors ends where the list does. -/
theorem stop_getLast_entriesAt (pos : Nat) (lead : Simple) (others : List Simple) :
    ((entriesAt (pos + byteSize lead.chars + 2) others).getLast?.getD
        ⟨lead.text, ⟨pos, pos + byteSize lead.chars⟩⟩).span.stop =
      pos + byteSize (listChars lead others) := by
  induction others generalizing pos lead with
  | nil => simp [entriesAt, listChars]
  | cons s others ih =>
      have ih := ih (pos + byteSize lead.chars + 2) s
      rw [entriesAt, List.getLast?_cons, Option.getD_some, ih]
      simp only [listChars, List.flatMap_cons, byteSize_append, byteSize_cons, byteSize_nil,
        utf8Size_comma, utf8Size_space]
      omega

namespace Tree

/-- The selector list of a printed node. -/
theorem prelude_rule (depth pos : Nat) (lead : Simple) (others : List Simple) (stop : Nat) :
    (rule depth pos lead others stop).prelude =
      ⟨pos + byteSize (indent depth),
        pos + byteSize (indent depth) + byteSize (listChars lead others)⟩ := by
  rw [Rule.prelude, Span.mk.injEq]
  exact ⟨rfl, stop_getLast_entriesAt _ lead others⟩

/-- The entries of a printed node. -/
theorem entries_rule (depth pos : Nat) (lead : Simple) (others : List Simple) (stop : Nat) :
    (rule depth pos lead others stop).entries =
      entriesAt (pos + byteSize (indent depth)) (lead :: others) :=
  rfl

/-- The rules of a printed tree are its style rules, with their texts and depths. -/
theorem map_rules (t : Tree) (depth pos : Nat) :
    (t.rules depth pos).map (fun r => (r.entries.map Entry.text, r.depth)) = t.styles depth := by
  induction t generalizing depth pos with
  | nil => rfl
  | style lead others declarations children rest ihc ihr =>
      rw [rules_style, List.map_cons, List.map_append, ihc, ihr, entries_rule, map_text_entriesAt]
      rfl
  | media children rest ihc ihr =>
      rw [rules_media, List.map_append, ihc, ihr]
      rfl

/-- The rules of a printed tree are closed. -/
theorem closed_of_mem_rules (t : Tree) (depth pos : Nat) :
    ∀ r ∈ t.rules depth pos, r.closed = true := by
  induction t generalizing depth pos with
  | nil => simp [rules]
  | style lead others declarations children rest ihc ihr =>
      intro r hr
      rw [rules_style] at hr
      rcases List.mem_cons.1 hr with rfl | hr
      · rfl
      · exact (List.mem_append.1 hr).elim (ihc _ _ r) (ihr _ _ r)
  | media children rest ihc ihr =>
      intro r hr
      rw [rules_media] at hr
      exact (List.mem_append.1 hr).elim (ihc _ _ r) (ihr _ _ r)

/-- **The outline of a printed tree.** -/
theorem ofText_render_eq (t : Tree) : Outline.ofText t.render = ⟨t.rules 0 0, []⟩ := by
  obtain ⟨seen, hseen, heq⟩ := t.outline_forest .ruleList 0 0 isBlank_nil .nil
  have hreverse : IsBlank seen.reverse := fun m hm => hseen m (List.mem_reverse.1 hm)
  rw [ofText_render, heq, outlineFrom, hreverse.endProblems_eq]
  change Outline.mk _ _ = _
  simp

/-- The closed rules of a printed tree. -/
theorem closedRules_render (t : Tree) : closedRules t.render = t.rules 0 0 := by
  rw [closedRules, Outline.closedRules, ofText_render_eq, List.filter_eq_self]
  exact t.closed_of_mem_rules 0 0

/-- The rules of a printed tree lie in its lines. -/
theorem bounds_of_mem_rules (t : Tree) (depth pos : Nat) :
    ∀ r ∈ t.rules depth pos, pos ≤ r.prelude.start ∧ r.prelude.start < r.block.start ∧
      r.block.start < r.block.stop ∧ r.block.stop < pos + byteSize (t.lines depth) := by
  induction t generalizing depth pos with
  | nil => simp [rules]
  | style lead others declarations children rest ihc ihr =>
      intro r hr
      rw [size_style]
      rw [rules_style] at hr
      rcases List.mem_cons.1 hr with rfl | hr
      -- the rule itself, and then the rules in its block and those after it
      · rw [prelude_rule]
        simp only [rule, stopOf, insideStyle, blockStart]
        omega
      · rcases List.mem_append.1 hr with hr | hr
        · have := ihc _ _ r hr
          simp only [stopOf, insideStyle, blockStart] at this ⊢
          omega
        · have := ihr _ _ r hr
          simp only [stopOf, insideStyle, blockStart] at this ⊢
          omega
  | media children rest ihc ihr =>
      intro r hr
      rw [size_media]
      rw [rules_media] at hr
      rcases List.mem_append.1 hr with hr | hr
      · have := ihc _ _ r hr
        simp only [stopOf, insideMedia, blockStart] at this ⊢
        omega
      · have := ihr _ _ r hr
        simp only [stopOf, insideMedia, blockStart] at this ⊢
        omega

/-! ## The edits that prune a printed tree -/

/-- The edit of the selector list of a node that keeps some of its selectors. -/
def listEdit (targets : SelectorSet) (first : Nat) (lead : Simple) (others : List Simple)
    (kept : List Char) : List Edit :=
  if (lead :: others).any (fun s => decide (s.text ∈ targets)) then
    [⟨⟨first, first + byteSize (listChars lead others)⟩, String.ofList kept⟩]
  else []

/-- The edits that prune a tree that is printed at a depth from offset `pos` on. -/
def edits (targets : SelectorSet) (depth pos : Nat) : Tree → List Edit
  | .nil => []
  | .style lead others declarations children rest =>
      let inside := insideStyle depth pos lead others declarations
      let next := stopOf depth inside children + 1
      match (lead :: others).filter (fun s => s.text ∉ targets) with
      | [] => .delete ⟨pos, next⟩ :: rest.edits targets depth next
      | lead' :: others' =>
          listEdit targets (pos + byteSize (indent depth)) lead others (listChars lead' others') ++
            (children.edits targets (depth + 1) inside ++ rest.edits targets depth next)
  | .media children rest =>
      children.edits targets (depth + 1) (insideMedia depth pos) ++
        rest.edits targets depth (stopOf depth (insideMedia depth pos) children + 1)

/-- A selector has characters. -/
theorem byteSize_chars_pos (s : Simple) : 0 < byteSize s.chars := by
  refine byteSize_pos_of_ne_nil ?_
  cases s <;> simp [Simple.chars, Name.chars]

/-- The edit of a selector list spans it. -/
theorem mem_listEdit {targets : SelectorSet} {first : Nat} {lead : Simple} {others : List Simple}
    {kept : List Char} {e : Edit} (h : e ∈ listEdit targets first lead others kept) :
    e = ⟨⟨first, first + byteSize (listChars lead others)⟩, String.ofList kept⟩ := by
  rw [listEdit] at h
  split at h
  · exact List.mem_singleton.1 h
  · simp at h

/-- The edits that prune a tree lie in its lines. -/
theorem bounds_of_mem_edits (t : Tree) (targets : SelectorSet) (depth pos : Nat) :
    ∀ e ∈ t.edits targets depth pos, pos ≤ e.span.start ∧ e.span.start < e.span.stop ∧
      e.span.stop ≤ pos + byteSize (t.lines depth) := by
  induction t generalizing depth pos with
  | nil => simp [edits]
  | style lead others declarations children rest ihc ihr =>
      intro e he
      have hlead := byteSize_chars_pos lead
      rw [size_style]
      rw [edits] at he
      -- a rule that goes takes the edits inside it along
      split at he
      · rcases List.mem_cons.1 he with rfl | he
        · simp only [Edit.delete, stopOf, insideStyle, blockStart]
          omega
        · have := ihr _ _ e he
          simp only [stopOf, insideStyle, blockStart] at this ⊢
          omega
      · rcases List.mem_append.1 he with he | he
        · rw [mem_listEdit he]
          simp only [stopOf, insideStyle, blockStart, listChars, byteSize_append]
          omega
        · rcases List.mem_append.1 he with he | he
          · have := ihc _ _ e he
            simp only [stopOf, insideStyle, blockStart] at this ⊢
            omega
          · have := ihr _ _ e he
            simp only [stopOf, insideStyle, blockStart] at this ⊢
            omega
  | media children rest ihc ihr =>
      intro e he
      rw [size_media]
      rw [edits] at he
      rcases List.mem_append.1 he with he | he
      · have := ihc _ _ e he
        simp only [stopOf, insideMedia, blockStart] at this ⊢
        omega
      · have := ihr _ _ e he
        simp only [stopOf, insideMedia, blockStart] at this ⊢
        omega

/-- The lines of a style node come before those of the rest. -/
theorem lines_style_append (depth : Nat) (lead : Simple) (others : List Simple)
    (declarations : List Declaration) (children rest : Tree) :
    lines depth (.style lead others declarations children rest) =
      lines depth (.style lead others declarations children .nil) ++ rest.lines depth := by
  simp [lines]

/-- A selector list is rewritten in its place. -/
theorem replay_list {targets : SelectorSet} {lead lead' : Simple} {others others' : List Simple}
    (hkept : (lead :: others).filter (fun s => s.text ∉ targets) = lead' :: others')
    {first : Nat} {later : List Edit}
    (hlater : ∀ e ∈ later, first + byteSize (listChars lead others) ≤ e.span.start) :
    Edit.replay (listEdit targets first lead others (listChars lead' others') ++ later) first
      (listChars lead others) = listChars lead' others' := by
  have hne : listChars lead others ≠ [] := by
    have := byteSize_chars_pos lead
    intro h
    have := congrArg byteSize h
    simp only [listChars, byteSize_append, byteSize_nil] at this
    omega
  have hmiddle := Edit.replay_middle [] (listEdit targets first lead others (listChars lead' others'))
    later (by simp) hlater
  rw [List.nil_append] at hmiddle
  rw [hmiddle, listEdit]
  split
  · -- the edit covers the list and begins with it
    rw [Edit.replay_eq_inserts hne]
    · simp [Edit.inserts]
    · intro n hlow hhigh
      exact Edit.covers_iff.2 ⟨_, List.mem_singleton_self _, hlow, hhigh⟩
    · intro n hlow _
      refine Edit.inserts_eq_nil fun e he => ?_
      rw [List.mem_singleton.1 he]
      simp only
      omega
  · -- nothing is targeted, so every selector is kept
    rename_i hany
    have hall : (lead :: others).filter (fun s => s.text ∉ targets) = lead :: others := by
      rw [List.filter_eq_self]
      intro s hs
      simp only [Bool.not_eq_true, List.any_eq_false, decide_eq_true_eq] at hany
      simpa using hany s hs
    rw [hall] at hkept
    obtain ⟨rfl, rfl⟩ := List.cons.inj hkept
    exact Edit.replay_eq_self (by simp) (by simp)

/-- The children of a node and what follows it are edited on their own, and its braces stay. -/
theorem replay_node {before inner later : List Edit} (front children close rest : List Char)
    {pos inside next : Nat}
    (hbefore : ∀ e ∈ before, e.span.start < e.span.stop ∧ e.span.stop ≤ pos)
    (hinside : inside = pos + byteSize front)
    (hnext : next = inside + byteSize children + byteSize close)
    (hinner : ∀ e ∈ inner, inside ≤ e.span.start ∧ e.span.start < e.span.stop ∧
      e.span.stop ≤ inside + byteSize children)
    (hlater : ∀ e ∈ later, next ≤ e.span.start) :
    Edit.replay (before ++ (inner ++ later)) pos (front ++ (children ++ (close ++ rest))) =
      front ++ (Edit.replay inner inside children ++ (close ++ Edit.replay later next rest)) := by
  have hafter : ∀ e ∈ inner ++ later, pos + byteSize front ≤ e.span.start := by
    intro e he
    rcases List.mem_append.1 he with he | he
    · have := hinner e he
      omega
    · have := hlater e he
      omega
  rw [Edit.replay_append_left hbefore, Edit.replay_append_of_le hafter, ← hinside,
    Edit.replay_append_append (fun e he => (hinner e he).2)
      (fun e he => by have := hlater e he; omega),
    Edit.replay_append_of_le (by rwa [← hnext]), ← hnext]

/-- Where a node goes, its lines are deleted, and what follows is edited on its own. -/
theorem replay_gone {node rest : List Char} {later : List Edit} {pos next : Nat} (hne : node ≠ [])
    (hnext : next = pos + byteSize node)
    (hlater : ∀ e ∈ later, next ≤ e.span.start ∧ e.span.start < e.span.stop) :
    Edit.replay (.delete ⟨pos, next⟩ :: later) pos (node ++ rest) =
      Edit.replay later next rest := by
  subst hnext
  have h := @Edit.replay_delete ⟨pos, pos + byteSize node⟩ later pos [] node [] rest (by simp) hne
    (by simpa using hlater) fun n hlow hhigh => by simp at hlow hhigh; omega
  simpa using h

/-- Where a node keeps some selectors, its indentation stays and its list is rewritten. -/
theorem replay_kept {targets : SelectorSet} {lead lead' : Simple} {others others' : List Simple}
    (hkept : (lead :: others).filter (fun s => s.text ∉ targets) = lead' :: others')
    {depth pos first : Nat} (hfirst : first = pos + byteSize (indent depth)) {later : List Edit}
    (hlater : ∀ e ∈ later, first + byteSize (listChars lead others) ≤ e.span.start)
    (cs : List Char) :
    Edit.replay (listEdit targets first lead others (listChars lead' others') ++ later) pos
        (indent depth ++ (listChars lead others ++ cs)) =
      indent depth ++ (listChars lead' others' ++
        Edit.replay (listEdit targets first lead others (listChars lead' others') ++ later)
          (first + byteSize (listChars lead others)) cs) := by
  have hall : ∀ e ∈ listEdit targets first lead others (listChars lead' others') ++ later,
      pos + byteSize (indent depth) ≤ e.span.start := by
    intro e he
    rcases List.mem_append.1 he with he | he
    · rw [mem_listEdit he]
      exact hfirst.ge
    · have := hlater e he
      omega
  rw [Edit.replay_append_of_le hall, Edit.replay_append, ← hfirst, replay_list hkept hlater]

/-- The edit of a selector list is not empty, and stays in its place. -/
theorem bounds_of_mem_listEdit {targets : SelectorSet} {first : Nat} {lead : Simple}
    {others : List Simple} {kept : List Char} {e : Edit}
    (h : e ∈ listEdit targets first lead others kept) :
    e.span.start < e.span.stop ∧ e.span.stop ≤ first + byteSize (listChars lead others) := by
  have := byteSize_chars_pos lead
  rw [mem_listEdit h]
  simp only [listChars, byteSize_append]
  omega

/-- **Pruning edits prune**: they turn the lines of a tree into those of the pruned tree. -/
theorem replay_edits (t : Tree) (targets : SelectorSet) (depth pos : Nat) :
    Edit.replay (t.edits targets depth pos) pos (t.lines depth) =
      (t.prune targets).lines depth := by
  induction t generalizing depth pos with
  | nil => rfl
  | style lead others declarations children rest ihc ihr =>
      set inside := insideStyle depth pos lead others declarations with hinside
      set next := stopOf depth inside children + 1 with hnext
      have hcBounds := children.bounds_of_mem_edits targets (depth + 1) inside
      have hrBounds := rest.bounds_of_mem_edits targets depth next
      have hinsideSize := insideStyle_eq depth pos lead others declarations
      have hnextSize := stopOf_add_one depth inside children
      rw [← hinside] at hinsideSize
      rw [← hnext] at hnextSize
      simp only [openChars, byteSize_append] at hinsideSize
      simp only [edits, prune, ← hinside, ← hnext]
      cases hkept : (lead :: others).filter (fun s => s.text ∉ targets) with
      | nil =>
          -- the node goes with its children
          have hnode := size_style depth pos lead others declarations children .nil
          rw [← hinside, ← hnext, lines, byteSize_nil, Nat.add_zero] at hnode
          have hne : lines depth (.style lead others declarations children .nil) ≠ [] := by
            simp [lines]
          simp only
          rw [lines_style_append, replay_gone hne hnode.symm
            fun e he => ⟨(hrBounds e he).1, (hrBounds e he).2.1⟩, ihr]
      | cons lead' others' =>
          -- the list is rewritten, and the children and the rest are edited on their own
          set first := pos + byteSize (indent depth) with hfirst
          have hlater : ∀ e ∈ children.edits targets (depth + 1) inside ++
              rest.edits targets depth next,
              first + byteSize (listChars lead others) ≤ e.span.start := by
            intro e he
            rcases List.mem_append.1 he with he | he
            · have := hcBounds e he
              omega
            · have := hrBounds e he
              omega
          have hlist : ∀ e ∈ listEdit targets first lead others (listChars lead' others'),
              e.span.start < e.span.stop ∧ e.span.stop ≤ first + byteSize (listChars lead others) :=
            fun e he => bounds_of_mem_listEdit he
          have hnode := replay_node (braceChars depth declarations) (children.lines (depth + 1))
            (closeChars depth) (rest.lines depth) hlist (by omega) hnextSize hcBounds
            fun e he => (hrBounds e he).1
          rw [ihc, ihr] at hnode
          simp only
          rw [lines_style, lines_style, openChars, openChars, List.append_assoc, List.append_assoc,
            replay_kept hkept hfirst hlater, hnode]
          simp only [List.append_assoc]
  | media children rest ihc ihr =>
      -- nothing is edited before the children
      set inside := insideMedia depth pos with hinside
      set next := stopOf depth inside children + 1 with hnext
      have hcBounds := children.bounds_of_mem_edits targets (depth + 1) inside
      have hrBounds := rest.bounds_of_mem_edits targets depth next
      have hnode := @replay_node [] _ _ (openChars depth mediaChars []) (children.lines (depth + 1))
        (closeChars depth) (rest.lines depth) pos inside next (by simp) (insideMedia_eq depth pos)
        (stopOf_add_one depth inside children) hcBounds fun e he => (hrBounds e he).1
      rw [ihc, ihr, List.nil_append] at hnode
      rw [prune, lines_media, lines_media]
      exact hnode

end Tree

/-! ## The extent of a printed rule -/

/-- No newline stands among the blanks that a text begins with. -/
def Flush (cs : List Char) : Prop := '\n' ∉ cs.takeWhile isBlank

/-- An indentation is blank, and has no newline. -/
theorem mem_indent {depth : Nat} {c : Char} (h : c ∈ indent depth) : c = ' ' :=
  List.eq_of_mem_replicate h

/-- An indentation in front of something is flush. -/
theorem flush_indent (depth : Nat) {c : Char} (hc : isBlank c = false) (cs : List Char) :
    Flush (indent depth ++ c :: cs) := by
  have hblank : ∀ d ∈ indent depth, isBlank d = true := fun d hd => by rw [mem_indent hd]; decide
  rw [Flush, List.takeWhile_append_of_pos hblank, List.takeWhile_cons_of_neg (by simp [hc])]
  intro h
  rw [List.append_nil] at h
  exact absurd (mem_indent h) (by decide)

/-- A character of a name is no blank. -/
theorem Name.isBlank_of_mem {n : Name} {c : Char} (h : c ∈ n.chars) : isBlank c = false := by
  have hplain : (c.isLower || c.isDigit || c == '-') = true := by
    rcases List.mem_cons.1 h with rfl | h
    · simp [n.head_lower]
    · exact n.tail_plain c h
  simp only [Char.isLower, Char.isDigit, Bool.or_eq_true, Bool.and_eq_true, decide_eq_true_eq,
    ge_iff_le, UInt32.le_iff_toNat_le, beq_iff_eq] at hplain
  change ((97 ≤ c.toNat ∧ c.toNat ≤ 122) ∨ (48 ≤ c.toNat ∧ c.toNat ≤ 57)) ∨ c = '-' at hplain
  rcases hplain with hplain | rfl
  · simp only [isBlank, Bool.or_eq_false_iff, Bool.and_eq_false_iff, decide_eq_false_iff_not,
      beq_eq_false_iff_ne]
    omega
  · decide

/-- A character of a selector is no blank. -/
theorem Simple.isBlank_of_mem {s : Simple} {c : Char} (h : c ∈ s.chars) : isBlank c = false := by
  cases s with
  | tag n => exact n.isBlank_of_mem h
  | dot n =>
      rcases List.mem_cons.1 h with rfl | h
      · decide
      · exact n.isBlank_of_mem h
  | hash n =>
      rcases List.mem_cons.1 h with rfl | h
      · decide
      · exact n.isBlank_of_mem h

/-- The lines of a tree are flush. -/
theorem Tree.flush_lines (t : Tree) (depth : Nat) {post : List Char} (h : Flush post) :
    Flush (t.lines depth ++ post) := by
  cases t with
  | nil => exact h
  | style lead others declarations children rest =>
      have hne : lead.chars ≠ [] := fun h => by
        have := byteSize_chars_pos lead
        simp [h] at this
      obtain ⟨c, cs, hc⟩ := List.exists_cons_of_ne_nil hne
      rw [lines, listChars, hc]
      simp only [List.append_assoc, List.cons_append]
      exact flush_indent depth (lead.isBlank_of_mem (by simp [hc])) _
  | media children rest =>
      rw [lines]
      simp only [List.append_assoc]
      exact flush_indent depth (by decide) _

/-- A text that ends with a newline has nothing on its last line. -/
theorem lastLine_append_newline (cs : List Char) : lastLine (cs ++ ['\n']) = [] := by
  simp [lastLine]

/-- The lines of declarations keep the last line empty. -/
theorem lastLine_append_lines {cs : List Char} (h : lastLine cs = []) (depth : Nat)
    (ds : List Declaration) : lastLine (cs ++ ds.flatMap (·.line depth)) = [] := by
  induction ds generalizing cs with
  | nil => rwa [List.flatMap_nil, List.append_nil]
  | cons d ds ih =>
      rw [List.flatMap_cons, ← List.append_assoc]
      refine ih ?_
      rw [Declaration.line, ← List.append_assoc, ← List.append_assoc]
      exact lastLine_append_newline _

/-- The last line of a text goes on with what has no newline. -/
theorem lastLine_append {as bs : List Char} (ha : lastLine as = []) (hb : '\n' ∉ bs) :
    lastLine (as ++ bs) = bs := by
  have hall : ∀ c ∈ bs.reverse, (c != '\n') = true := by
    intro c hc
    simp only [bne_iff_ne, ne_eq]
    rintro rfl
    exact hb (List.mem_reverse.1 hc)
  rw [lastLine, List.reverse_append, List.takeWhile_append_of_pos hall, List.reverse_append,
    List.reverse_reverse]
  change lastLine as ++ bs = bs
  rw [ha, List.nil_append]

/-- **A rule on lines of its own** takes exactly these lines. -/
theorem Placement.extent_of_lines {text : List Char} {r : Rule} (p : Placement text r)
    {before blank after : List Char} (hbefore : p.before = before ++ blank)
    (hline : lastLine before = []) (hnewline : '\n' ∉ blank)
    (hblank : ∀ c ∈ blank, isBlank c = true) (hafter : p.after = '\n' :: after)
    (hflush : Flush after) : extent text r = ⟨byteSize before, r.block.stop + 1⟩ := by
  obtain ⟨a, b, ha, hb, hextent⟩ := p.exists_extent
  have hlast : lastLine p.before = blank := by rw [hbefore, lastLine_append hline hnewline]
  have hall : (lastLine p.before).all isBlank = true := by
    rw [hlast, List.all_eq_true]
    exact hblank
  have hleading : leading p.before = blank := by rw [leading, if_pos hall, hlast]
  have htrailing : trailing p.before p.after = ['\n'] := by
    -- the blanks end with the newline, since no newline comes after it
    have hrun : p.after.takeWhile isBlank = '\n' :: after.takeWhile isBlank := by
      rw [hafter, List.takeWhile_cons_of_pos (by decide)]
    have hrest : ∀ c ∈ (after.takeWhile isBlank).reverse, (c != '\n') = true := by
      intro c hc
      simp only [bne_iff_ne, ne_eq]
      rintro rfl
      exact hflush (List.mem_reverse.1 hc)
    rw [trailing, if_pos hall, blankTail, hrun, if_pos List.mem_cons_self, List.reverse_cons,
      List.dropWhile_append_of_pos hrest]
    rfl
  have hstart : a = before := by
    rw [hleading] at ha
    exact List.append_cancel_right (ha.symm.trans hbefore)
  rw [hextent, htrailing, hstart]
  rfl

/-! ## The edit of a printed rule -/

/-- A selector list of two or more goes on after its first separator. -/
theorem listChars_cons (lead s : Simple) (others : List Simple) :
    listChars lead (s :: others) = lead.chars ++ ([',', ' '] ++ listChars s others) := by
  simp [listChars]

/-- A printed list is its selectors with a comma and a space between them. -/
theorem intercalate_eq_listChars (lead : Simple) (others : List Simple) :
    [',', ' '].intercalate ((lead :: others).map Simple.chars) = listChars lead others := by
  induction others generalizing lead with
  | nil => simp [listChars, List.intercalate]
  | cons s others ih =>
      rw [listChars_cons, ← ih s]
      simp [List.intercalate]

/-- The entries of a printed list span the characters of its selectors. -/
theorem slices_entriesAt (targets : SelectorSet) {text : List Char} (before : List Char)
    (lead : Simple) (others : List Simple) (after : List Char)
    (htext : text = before ++ (listChars lead others ++ after)) :
    (((entriesAt (byteSize before) (lead :: others)).filter fun e => e.text ∉ targets).map fun e =>
        slice e.span.start e.span.stop text) =
      ((lead :: others).filter fun s => s.text ∉ targets).map Simple.chars := by
  induction others generalizing before lead with
  | nil =>
      have hslice : slice (byteSize before) (byteSize before + byteSize lead.chars) text =
          lead.chars := by
        rw [htext]
        simpa [listChars] using slice_append before lead.chars after
      by_cases hlead : lead.text ∈ targets <;> simp [entriesAt, hlead, hslice]
  | cons s others ih =>
      have hslice : slice (byteSize before) (byteSize before + byteSize lead.chars) text =
          lead.chars := by
        rw [htext, listChars_cons, List.append_assoc]
        exact slice_append _ _ _
      -- a comma and a space stand before the entries that follow
      have hrest := ih (before ++ (lead.chars ++ [',', ' '])) s (by
        rw [htext, listChars_cons]
        simp)
      have hpos : byteSize (before ++ (lead.chars ++ [',', ' '])) =
          byteSize before + byteSize lead.chars + 2 := by
        simp [Nat.add_assoc]
      rw [hpos] at hrest
      rw [entriesAt]
      by_cases hlead : lead.text ∈ targets
      · simpa [hlead] using hrest
      · simpa [hlead, hslice] using hrest

namespace Tree

variable {targets : SelectorSet} {text pre after : List Char} {depth pos stop : Nat} {lead : Simple}
  {others : List Simple}

/-- A printed rule is targeted as a whole when it keeps no selector. -/
theorem fullyTargeted_rule (targets : SelectorSet) (depth pos : Nat) (lead : Simple)
    (others : List Simple) (stop : Nat) :
    (rule depth pos lead others stop).fullyTargeted targets =
      ((lead :: others).filter fun s => s.text ∉ targets).isEmpty := by
  have htexts : ((rule depth pos lead others stop).entries.map Entry.text) =
      (lead :: others).map Simple.text := by
    rw [entries_rule, map_text_entriesAt]
  have hall := congrArg (List.all · fun x => decide (x ∈ targets)) htexts
  simp only [List.all_map] at hall
  change (rule depth pos lead others stop).fullyTargeted targets =
    (lead :: others).all (fun s => decide (s.text ∈ targets)) at hall
  rw [hall, Bool.eq_iff_iff, List.all_eq_true, List.isEmpty_iff, List.filter_eq_nil_iff]
  simp

/-- A printed rule is targeted in part when it keeps a selector and some selector is targeted. -/
theorem partlyTargeted_rule (targets : SelectorSet) (depth pos : Nat) (lead : Simple)
    (others : List Simple) (stop : Nat) :
    (rule depth pos lead others stop).partlyTargeted targets =
      (!((lead :: others).filter fun s => s.text ∉ targets).isEmpty &&
        (lead :: others).any (fun s => decide (s.text ∈ targets))) := by
  have htexts : ((rule depth pos lead others stop).entries.map Entry.text) =
      (lead :: others).map Simple.text := by
    rw [entries_rule, map_text_entriesAt]
  have hany := congrArg (List.any · fun x => decide (x ∈ targets)) htexts
  simp only [List.any_map] at hany
  change ((rule depth pos lead others stop).entries.any fun e => decide (e.text ∈ targets)) =
    (lead :: others).any (fun s => decide (s.text ∈ targets)) at hany
  rw [Rule.partlyTargeted, fullyTargeted_rule, hany]

/-- The selector list of a printed rule, shortened. -/
theorem shortenList_rule (hpos : pos = byteSize pre)
    (htext : text = pre ++ (indent depth ++ (listChars lead others ++ after)))
    {lead' : Simple} {others' : List Simple}
    (hkept : (lead :: others).filter (fun s => s.text ∉ targets) = lead' :: others') :
    shortenList text (rule depth pos lead others stop) (fun x => !decide (x ∈ targets)) =
      ⟨⟨pos + byteSize (indent depth),
        pos + byteSize (indent depth) + byteSize (listChars lead others)⟩,
        String.ofList (listChars lead' others')⟩ := by
  subst hpos
  have htext' : text = (pre ++ indent depth) ++ (listChars lead others ++ after) := by
    rw [htext, List.append_assoc]
  -- the separator is the text between the first two entries
  have hsep : separator text (rule depth (byteSize pre) lead others stop) = [',', ' '] := by
    cases others with
    | nil => rfl
    | cons s others =>
        have hslice := slice_append (pre ++ indent depth ++ lead.chars) [',', ' ']
          (listChars s others ++ after)
        rw [listChars_cons] at htext'
        simp only [List.append_assoc] at htext' hslice
        rw [← htext'] at hslice
        have hsize : byteSize [',', ' '] = 2 := rfl
        simp only [byteSize_append, hsize, ← Nat.add_assoc] at hslice
        exact hslice
  have hslices := slices_entriesAt targets (pre ++ indent depth) lead others after htext'
  rw [byteSize_append, hkept] at hslices
  rw [shortenList, hsep, prelude_rule, entries_rule, Edit.mk.injEq]
  refine ⟨rfl, congrArg String.ofList ?_⟩
  rw [← intercalate_eq_listChars]
  refine congrArg _ ?_
  simpa using hslices

/-- **The edit of a printed rule** deletes its lines or rewrites its selector list. -/
theorem editOf_rule (targets : SelectorSet) (hpos : pos = byteSize pre)
    (htext : text = pre ++ (indent depth ++ (listChars lead others ++ after)))
    (hextent : extent text (rule depth pos lead others stop) = ⟨pos, stop + 1⟩) :
    (editOf targets text (rule depth pos lead others stop)).toList =
      match (lead :: others).filter (fun s => s.text ∉ targets) with
      | [] => [.delete ⟨pos, stop + 1⟩]
      | lead' :: others' =>
          listEdit targets (pos + byteSize (indent depth)) lead others
            (listChars lead' others') := by
  have hfull := fullyTargeted_rule targets depth pos lead others stop
  have hpart := partlyTargeted_rule targets depth pos lead others stop
  cases hkept : (lead :: others).filter (fun s => s.text ∉ targets) with
  | nil =>
      rw [hkept, List.isEmpty_nil] at hfull
      simp [editOf, hfull, hextent]
  | cons lead' others' =>
      rw [hkept, List.isEmpty_cons] at hfull hpart
      simp only [Bool.not_false, Bool.true_and] at hpart
      rw [editOf, if_neg (by simp [hfull]), hpart, shortenList_rule hpos htext hkept]
      simp only [listEdit]
      split <;> rfl

/-- The exposed rules of a style node. -/
theorem exposed_style (targets : SelectorSet) (depth pos : Nat) (lead : Simple)
    (others : List Simple) (declarations : List Declaration) (children rest : Tree) :
    exposed targets (rules depth pos (.style lead others declarations children rest)) =
      let inside := insideStyle depth pos lead others declarations
      let r := rule depth pos lead others (stopOf depth inside children)
      r :: ((if r.fullyTargeted targets then []
          else exposed targets (children.rules (depth + 1) inside)) ++
        exposed targets (rest.rules depth (stopOf depth inside children + 1))) := by
  set inside := insideStyle depth pos lead others declarations with hinside
  set r := rule depth pos lead others (stopOf depth inside children) with hr
  have hchildren := children.bounds_of_mem_rules (depth + 1) inside
  have hrest := rest.bounds_of_mem_rules depth (stopOf depth inside children + 1)
  have hnode := bounds_of_mem_rules (.style lead others declarations children .nil) depth pos
  have hspans := hnode r (by rw [rules_style]; simp [hr, hinside])
  have hstart : r.block.start + 2 ≤ inside := Nat.le_add_right _ _
  have hstop : r.block.stop = stopOf depth inside children := rfl
  have hlines : inside + byteSize (children.lines (depth + 1)) < stopOf depth inside children := by
    rw [stopOf]
    omega
  have hsplit : rules depth pos (.style lead others declarations children rest) =
      (r :: children.rules (depth + 1) inside) ++
        rest.rules depth (stopOf depth inside children + 1) := rfl
  -- the rule and what is inside it end before the rest begins
  rw [hsplit, exposed_append_of_le (stopOf depth inside children), exposed_cons_of_lt hspans.2.1]
  · rfl
  · intro b hb
    have := hchildren b hb
    omega
  · intro b hb
    have hspans' := bounds_of_mem_rules (.style lead others declarations children rest) depth pos b
      (by rwa [hsplit])
    exact ⟨hspans'.2.1, hspans'.2.2.1⟩
  · intro a ha
    rcases List.mem_cons.1 ha with rfl | ha
    · exact hstop.le
    · have := hchildren a ha
      omega
  · intro b hb
    have := hrest b hb
    omega

/-- The exposed rules of a media node. -/
theorem exposed_media (targets : SelectorSet) (depth pos : Nat) (children rest : Tree) :
    exposed targets (rules depth pos (.media children rest)) =
      exposed targets (children.rules (depth + 1) (insideMedia depth pos)) ++
        exposed targets
          (rest.rules depth (stopOf depth (insideMedia depth pos) children + 1)) := by
  have hchildren := children.bounds_of_mem_rules (depth + 1) (insideMedia depth pos)
  have hrest := rest.bounds_of_mem_rules depth (stopOf depth (insideMedia depth pos) children + 1)
  rw [rules_media, exposed_append_of_le (stopOf depth (insideMedia depth pos) children)]
  · intro b hb
    have hspans := bounds_of_mem_rules (.media children rest) depth pos b hb
    exact ⟨hspans.2.1, hspans.2.2.1⟩
  · intro a ha
    have := hchildren a ha
    rw [stopOf]
    omega
  · intro b hb
    have := hrest b hb
    omega

/-- The edit of the first rule comes first. -/
theorem filterMap_editOf_cons (targets : SelectorSet) (text : List Char) (r : Rule)
    (rs : List Rule) :
    (r :: rs).filterMap (editOf targets text) =
      (editOf targets text r).toList ++ rs.filterMap (editOf targets text) := by
  rw [List.filterMap_cons]
  cases editOf targets text r <;> rfl

/-- A tree is printed in a text, between two pieces of it: it begins a line, and no newline stands
among the blanks after it. -/
structure Stands (text pre : List Char) (depth pos : Nat) (t : Tree) (post : List Char) : Prop where
  pos_eq : pos = byteSize pre
  text_eq : text = pre ++ (t.lines depth ++ post)
  begins_line : lastLine pre = []
  flush : Flush post
  placed : ∀ r ∈ t.rules depth pos, Nonempty (Placement text r)

/-- What opens a node ends a line. -/
theorem lastLine_append_openChars (pre : List Char) (depth : Nat) (head : List Char)
    (ds : List Declaration) : lastLine (pre ++ openChars depth head ds) = [] := by
  have hopen := lastLine_append_newline (pre ++ (indent depth ++ (head ++ [' ', '{'])))
  simpa [openChars, braceChars] using lastLine_append_lines hopen (depth + 1) ds

/-- The last line of a node ends a line. -/
theorem lastLine_append_closeChars (pre : List Char) (depth : Nat) :
    lastLine (pre ++ closeChars depth) = [] := by
  have h := lastLine_append_newline (pre ++ (indent depth ++ ['}']))
  simpa [closeChars] using h

/-- The last line of a node is flush. -/
theorem flush_closeChars (depth : Nat) (cs : List Char) : Flush (closeChars depth ++ cs) := by
  have h := flush_indent depth (c := '}') (by decide) ('\n' :: cs)
  simpa [closeChars] using h

namespace Stands

variable {post : List Char} {declarations : List Declaration} {children rest : Tree}

/-- The children of a style node. -/
theorem children_style
    (h : (Tree.style lead others declarations children rest).Stands text pre depth pos post) :
    children.Stands text (pre ++ openChars depth (listChars lead others) declarations) (depth + 1)
      (insideStyle depth pos lead others declarations)
      (closeChars depth ++ (rest.lines depth ++ post)) where
  pos_eq := by rw [insideStyle_eq, byteSize_append, h.pos_eq]
  text_eq := by simp only [h.text_eq, lines_style, List.append_assoc]
  begins_line := lastLine_append_openChars ..
  flush := flush_closeChars _ _
  placed r hr := h.placed r (List.mem_cons_of_mem _ (List.mem_append_left _ hr))

/-- What follows a style node. -/
theorem rest_style
    (h : (Tree.style lead others declarations children rest).Stands text pre depth pos post) :
    rest.Stands text
      (pre ++ (openChars depth (listChars lead others) declarations ++
        children.lines (depth + 1)) ++ closeChars depth) depth
      (stopOf depth (insideStyle depth pos lead others declarations) children + 1) post where
  pos_eq := by simp only [stopOf_add_one, insideStyle_eq, byteSize_append, h.pos_eq, Nat.add_assoc]
  text_eq := by simp only [h.text_eq, lines_style, List.append_assoc]
  begins_line := lastLine_append_closeChars ..
  flush := h.flush
  placed r hr := h.placed r (List.mem_cons_of_mem _ (List.mem_append_right _ hr))

/-- The children of a media node. -/
theorem children_media (h : (Tree.media children rest).Stands text pre depth pos post) :
    children.Stands text (pre ++ openChars depth mediaChars []) (depth + 1) (insideMedia depth pos)
      (closeChars depth ++ (rest.lines depth ++ post)) where
  pos_eq := by rw [insideMedia_eq, byteSize_append, h.pos_eq]
  text_eq := by simp only [h.text_eq, lines_media, List.append_assoc]
  begins_line := lastLine_append_openChars ..
  flush := flush_closeChars _ _
  placed r hr := h.placed r (List.mem_append_left _ hr)

/-- What follows a media node. -/
theorem rest_media (h : (Tree.media children rest).Stands text pre depth pos post) :
    rest.Stands text
      (pre ++ (openChars depth mediaChars [] ++ children.lines (depth + 1)) ++ closeChars depth)
      depth (stopOf depth (insideMedia depth pos) children + 1) post where
  pos_eq := by simp only [stopOf_add_one, insideMedia_eq, byteSize_append, h.pos_eq, Nat.add_assoc]
  text_eq := by simp only [h.text_eq, lines_media, List.append_assoc]
  begins_line := lastLine_append_closeChars ..
  flush := h.flush
  placed r hr := h.placed r (List.mem_append_right _ hr)

/-- The selector list of a style node stands after its indentation. -/
theorem text_eq_list
    (h : (Tree.style lead others declarations children rest).Stands text pre depth pos post) :
    text = pre ++ (indent depth ++ (listChars lead others ++ (braceChars depth declarations ++
      (children.lines (depth + 1) ++ (closeChars depth ++ (rest.lines depth ++ post)))))) := by
  simp only [h.text_eq, lines_style, openChars, List.append_assoc]

/-- **A style node is deleted with its lines**: its extent is what they span. -/
theorem extent_rule
    (h : (Tree.style lead others declarations children rest).Stands text pre depth pos post)
    (hstop : stop = stopOf depth (insideStyle depth pos lead others declarations) children) :
    extent text (rule depth pos lead others stop) = ⟨pos, stop + 1⟩ := by
  obtain ⟨p⟩ := h.placed (rule depth pos lead others stop) (by rw [rules_style, hstop]; simp)
  have hbefore : p.before = pre ++ indent depth := by
    refine p.before_eq (h.text_eq_list.trans (List.append_assoc _ _ _).symm) ?_
    rw [prelude_rule, byteSize_append, h.pos_eq]
  have hafter : p.after = '\n' :: (rest.lines depth ++ post) := by
    refine p.after_eq (a := pre ++ (openChars depth (listChars lead others) declarations ++
      (children.lines (depth + 1) ++ (indent depth ++ ['}'])))) ?_ ?_
    · simp [h.text_eq, lines_style, closeChars]
    · simp only [rule, hstop, stopOf, insideStyle_eq, h.pos_eq, byteSize_append, byteSize_cons,
        byteSize_nil, utf8Size_closing]
      omega
  rw [p.extent_of_lines hbefore h.begins_line (fun h => absurd (mem_indent h) (by decide))
    (fun c hc => by rw [mem_indent hc]; decide) hafter (rest.flush_lines depth h.flush), h.pos_eq]
  rfl

end Stands

/-- **Pruning edits are the edits of the exposed rules** of a printed tree. -/
theorem editsOf_rules (t : Tree) (targets : SelectorSet) {post : List Char}
    (h : t.Stands text pre depth pos post) :
    (exposed targets (t.rules depth pos)).filterMap (editOf targets text) =
      t.edits targets depth pos := by
  induction t generalizing depth pos pre post with
  | nil => rfl
  | style lead others declarations children rest ihc ihr =>
      have hedit := editOf_rule targets h.pos_eq h.text_eq_list (h.extent_rule rfl)
      rw [exposed_style]
      simp only
      rw [filterMap_editOf_cons, List.filterMap_append, hedit, ihr h.rest_style,
        fullyTargeted_rule, edits]
      -- the children are exposed where the node keeps a selector
      cases (lead :: others).filter (fun s => s.text ∉ targets) with
      | nil => rfl
      | cons lead' others' =>
          simp only [List.isEmpty_cons, Bool.false_eq_true, if_false, ihc h.children_style]
  | media children rest ihc ihr =>
      rw [exposed_media, List.filterMap_append, ihc h.children_media, ihr h.rest_media]
      rfl

end Tree

/-! ## Removal commutes with printing -/

/-- The blanks of a text are whitespace. -/
def Spaced (cs : List Char) : Prop := ∀ c ∈ cs, isBlank c = true → isSpace c = true

/-- The blanks of two texts are whitespace. -/
theorem spaced_append {as bs : List Char} : Spaced (as ++ bs) ↔ Spaced as ∧ Spaced bs := by
  simp only [Spaced, List.mem_append]
  exact ⟨fun h => ⟨fun c hc => h c (.inl hc), fun c hc => h c (.inr hc)⟩,
    fun h c hc => hc.elim (h.1 c) (h.2 c)⟩

/-- The blanks of texts one after the other are whitespace. -/
theorem spaced_flatMap {α : Type} {f : α → List Char} {xs : List α} (h : ∀ x ∈ xs, Spaced (f x)) :
    Spaced (xs.flatMap f) := by
  intro c hc
  obtain ⟨x, hx, hc⟩ := List.mem_flatMap.1 hc
  exact h x hx c hc

/-- A text without blanks. -/
theorem spaced_of_not_blank {cs : List Char} (h : ∀ c ∈ cs, isBlank c = false) : Spaced cs := by
  intro c hc hblank
  rw [h c hc] at hblank
  exact absurd hblank (by decide)

/-- An indentation is whitespace. -/
theorem spaced_indent (depth : Nat) : Spaced (indent depth) := by
  intro c hc _
  rw [mem_indent hc]
  decide

/-- The blanks of a printed selector list are whitespace. -/
theorem spaced_listChars (lead : Simple) (others : List Simple) :
    Spaced (listChars lead others) := by
  rw [listChars, spaced_append]
  refine ⟨spaced_of_not_blank fun c => lead.isBlank_of_mem, spaced_flatMap fun s _ => ?_⟩
  rw [spaced_append]
  exact ⟨by simp [Spaced, isSpace, isBlank], spaced_of_not_blank fun c => s.isBlank_of_mem⟩

/-- The blanks of the line of a declaration are whitespace. -/
theorem Declaration.spaced_line (depth : Nat) (d : Declaration) : Spaced (d.line depth) := by
  simp only [line, chars, spaced_append]
  exact ⟨spaced_indent depth, ⟨spaced_of_not_blank fun c => d.property.isBlank_of_mem,
    by simp [Spaced, isSpace, isBlank], spaced_of_not_blank fun c => d.value.isBlank_of_mem,
    by simp [Spaced, isSpace, isBlank]⟩, by simp [Spaced, isSpace, isBlank, isNewline]⟩

/-- The blanks of a printed tree are whitespace. -/
theorem Tree.spaced_lines (t : Tree) (depth : Nat) : Spaced (t.lines depth) := by
  have hopen : Spaced [' ', '{', '\n'] := by simp [Spaced, isSpace, isBlank, isNewline]
  have hclose : Spaced ['}', '\n'] := by simp [Spaced, isSpace, isBlank, isNewline]
  induction t generalizing depth with
  | nil => simp [lines, Spaced]
  | style lead others declarations children rest ihc ihr =>
      simp only [lines, spaced_append]
      exact ⟨spaced_indent depth, spaced_listChars lead others, hopen,
        spaced_flatMap fun d _ => d.spaced_line (depth + 1), ihc (depth + 1), spaced_indent depth,
        hclose, ihr depth⟩
  | media children rest ihc ihr =>
      have hmedia : Spaced mediaChars := by
        have hall : (mediaChars.all fun c => !isBlank c || isSpace c) = true := by decide
        intro c hc hblank
        simpa [hblank] using List.all_eq_true.1 hall c hc
      simp only [lines, spaced_append]
      exact ⟨spaced_indent depth, hmedia, hopen, ihc (depth + 1), spaced_indent depth, hclose,
        ihr depth⟩

/-- The edits of the exposed rules of a printed tree prune it. -/
theorem Tree.exposedEdits_render (t : Tree) (targets : SelectorSet) :
    exposedEdits targets t.render = t.edits targets 0 0 := by
  have htext : t.render.toList = [] ++ (t.lines 0 ++ []) := by
    rw [render, String.toList_ofList, List.append_nil, List.nil_append]
  rw [exposedEdits, closedRules_render]
  refine t.editsOf_rules targets ⟨rfl, htext, rfl, by simp [Flush], fun r hr => ?_⟩
  refine placement_of_mem_closedRules ?_
  rwa [closedRules_render]

/-- **Removal commutes with printing.** The outline of a printed tree has no problems and lists its
style rules with their selectors and depths, all of them closed, and removing selectors from it
gives what the pruned tree is printed as. -/
theorem removal_prunes_printed (t : Tree) :
    (Outline.ofText t.render).problems = [] ∧
    (Outline.ofText t.render).rules.map (fun r => (r.entries.map Entry.text, r.depth)) =
      t.styles 0 ∧
    (∀ r ∈ (Outline.ofText t.render).rules, r.closed = true) ∧
    ∀ targets, Edit.applyAll (planRemoval targets t.render) t.render =
      .ok (t.prune targets).render := by
  rw [t.ofText_render_eq]
  refine ⟨rfl, t.map_rules 0 0, t.closed_of_mem_rules 0 0, fun targets => ?_⟩
  have hspaces : SpacesAfter targets t.render := by
    refine spacesAfter_of_blanks ?_
    rw [Tree.render, String.toList_ofList]
    exact t.spaced_lines 0
  rw [applyAll_eq_exposedEdits hspaces, t.exposedEdits_render, Tree.render, String.toList_ofList,
    t.replay_edits, Tree.render]

end StyleAudit.Sheet
