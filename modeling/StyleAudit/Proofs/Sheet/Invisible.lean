import Mathlib
import StyleAudit.Proofs.Sheet.Faults
import StyleAudit.Proofs.Sheet.Relocation
import StyleAudit.Proofs.Sheet.Seams

/-! # What an outline does not see

What a comment says does not show in an outline, and neither does the body of an at-rule that holds
no rules. Either one may be replaced: the rest of the text is read as before, and what stands after
the change has moved by the difference in size.

* **`Forest.skippedBodies`** — the bodies of at-rules that hold no rules.
* **`Forest.closedBodies`** — the bodies of all blocks between braces.
* **`Invisible before old new after`** — a comment, or such a body, is replaced.
* **`Forest.exists_recommented`** — a forest with another comment is read alike.
* **`Forest.Hides`** — a forest with another body in such a block is read alike.
* **`outline_invisible`** — what an outline does not see. -/

namespace StyleAudit.Sheet

open Text

/-! ## Changes -/

/-- Whether a statement with the given marks is an at-rule whose block holds no rules. -/
def skipsBlock (marks : List Mark) : Bool := (atRule? marks).any (!groupAtRules.contains ·)

namespace Forest

/-- The bodies of the closed blocks of at-rules that hold no rules, in a forest that begins at `pos`;
the marks of the statement that is being read are `seen`, last one first. -/
def skippedBodies (pos : Nat) (seen : List Mark) : Forest → List Span
  | .nil => []
  | .token l rest =>
      rest.skippedBodies (pos + byteSize l.chars)
        (if l.token = .semicolon then [] else .ofLexeme l pos :: seen)
  | .block o body closed rest =>
      let inside := pos + byteSize o.chars
      let next := inside + body.size + byteSize (closerChars o closed)
      if o.token = .opening .curly then
        (if closed && skipsBlock seen.reverse then [⟨inside, inside + body.size⟩] else []) ++
          (body.skippedBodies inside [] ++ rest.skippedBodies next [])
      else rest.skippedBodies next (.ofBlock o body closed pos :: seen)

/-- The bodies of the closed blocks between braces in a forest that begins at `pos`. -/
def closedBodies (pos : Nat) : Forest → List Span
  | .nil => []
  | .token l rest => rest.closedBodies (pos + byteSize l.chars)
  | .block o body closed rest =>
      let inside := pos + byteSize o.chars
      let next := inside + body.size + byteSize (closerChars o closed)
      (if closed && o.token = .opening .curly then [⟨inside, inside + body.size⟩] else []) ++
        (body.closedBodies inside ++ rest.closedBodies next)

end Forest

/-- Between `before` and `after`, the text `old` is a comment or the body of an at-rule that holds no
rules, and `new` is another comment, or a body that the same brace ends. -/
inductive Invisible (before old new after : List Char) : Prop
  | comment {front back : List Lexeme} {inner : List Char} (before_eq : charsOf front = before)
      (lexemes_eq : lexemes (before ++ (old ++ after)) = front ++ ⟨.comment true, old⟩ :: back)
      (new_eq : new = '/' :: '*' :: (inner ++ ['*', '/'])) (inner_free : ¬ ['*', '/'] <:+: inner)
  | body
      (mem_old : ⟨byteSize before, byteSize (before ++ old)⟩ ∈
        (Forest.ofText (before ++ (old ++ after))).skippedBodies 0 [])
      (mem_new : ⟨byteSize before, byteSize (before ++ new)⟩ ∈
        (Forest.ofText (before ++ (new ++ after))).closedBodies 0)

/-- Where offset `n` is after the `old` bytes that follow `cut` have become `new` bytes. -/
def moved (cut old new n : Nat) : Nat := if n ≤ cut then n else n - old + new

/-- What stands before a change stays. -/
theorem moved_of_le {cut old new n : Nat} (h : n ≤ cut) : moved cut old new n = n := if_pos h

/-- What stands after a change moves. -/
theorem moved_of_lt {cut old new n : Nat} (h : cut < n) : moved cut old new n = n - old + new :=
  if_neg (Nat.not_le.2 h)

/-! ## Forests with other lexemes somewhere -/

/-- The forest `f'` is `f` with the lexemes `mid'` instead of `mid`, between `front` and `back`. -/
structure Forest.Swaps (mid mid' : List Lexeme) (within : Option Bracket)
    (front back : List Lexeme) (f f' : Forest) : Prop where
  lexemes_eq : f.lexemes = front ++ (mid ++ back)
  swapped_eq : f'.lexemes = front ++ (mid' ++ back)
  nested : f.Nested within → f'.Nested within
  balanced : f.Balanced within → f'.Balanced within

namespace Forest.Swaps

variable {mid mid' front back : List Lexeme} {within : Option Bracket} {f f' : Forest}

/-- The sizes before and after a change. -/
theorem sizes (h : f.Swaps mid mid' within front back f') :
    f.size = byteSize (charsOf front) + byteSize (charsOf mid) + byteSize (charsOf back) ∧
      f'.size = byteSize (charsOf front) + byteSize (charsOf mid') + byteSize (charsOf back) := by
  rw [← byteSize_source, ← byteSize_source, ← charsOf_lexemes, ← charsOf_lexemes, h.lexemes_eq,
    h.swapped_eq]
  simp only [charsOf_append, byteSize_append, Nat.add_assoc, and_self]

/-- A change after a token. -/
theorem token (l : Lexeme) (h : f.Swaps mid mid' within front back f') :
    (Forest.token l f).Swaps mid mid' within (l :: front) back (.token l f') where
  lexemes_eq := by rw [lexemes, h.lexemes_eq]; rfl
  swapped_eq := by rw [lexemes, h.swapped_eq]; rfl
  nested hf := ⟨hf.1, hf.2.1, h.nested hf.2.2⟩
  balanced hf := ⟨hf.1, hf.2.1, h.balanced hf.2.2⟩

/-- A change in a block. -/
theorem inside {o : Lexeme} (closed : Bool) (rest : Forest)
    (h : f.Swaps mid mid' (some o.bracket) front back f') :
    (Forest.block o f closed rest).Swaps mid mid' within (o :: front)
      (back ++ (closerLexemes o closed ++ rest.lexemes)) (.block o f' closed rest) where
  lexemes_eq := by simp [lexemes, h.lexemes_eq]
  swapped_eq := by simp [lexemes, h.swapped_eq]
  nested hf := ⟨hf.1, h.nested hf.2.1, fun hclosed => h.balanced (hf.2.2.1 hclosed), hf.2.2.2⟩
  balanced hf := ⟨hf.1, hf.2.1, h.balanced hf.2.2.1, hf.2.2.2⟩

/-- A change after a block. -/
theorem after {o : Lexeme} (body : Forest) (closed : Bool)
    (h : f.Swaps mid mid' within front back f') (hne : f ≠ .nil) :
    (Forest.block o body closed f).Swaps mid mid' within
      (o :: (body.lexemes ++ (closerLexemes o closed ++ front))) back
      (.block o body closed f') where
  lexemes_eq := by simp [lexemes, h.lexemes_eq]
  swapped_eq := by simp [lexemes, h.swapped_eq]
  nested hf :=
    ⟨hf.1, hf.2.1, hf.2.2.1, fun hopen => absurd (hf.2.2.2.1 hopen) hne, h.nested hf.2.2.2.2⟩
  balanced hf := ⟨hf.1, hf.2.1, hf.2.2.1, h.balanced hf.2.2.2⟩

end Forest.Swaps

section Follows

variable {cut old new pos pos' : Nat} {exact : Prop} {f : Forest}

/-- A forest before a change stays. -/
theorem Forest.Follows.of_le (h : pos + f.size ≤ cut) :
    f.Follows exact (moved cut old new) pos pos f :=
  .refl f fun n hn => moved_of_le (by omega)

/-- A forest after a change moves. -/
theorem Forest.Follows.of_lt (h : cut < pos) (hold : cut + old ≤ pos)
    (hpos : pos' + old = pos + new) : f.Follows exact (moved cut old new) pos pos' f :=
  .refl f fun n hn => by rw [moved_of_lt (by omega)]; omega

/-- A token before a change is read alike. -/
theorem Forest.Reruns.token_of_le {seen : List Mark} {l : Lexeme} {rest rest' : Forest}
    (hcut : pos + byteSize l.chars ≤ cut)
    (h : Reruns exact (moved cut old new)
      (if l.token = .semicolon then [] else .ofLexeme l pos :: seen) (pos + byteSize l.chars)
      (pos + byteSize l.chars) rest rest') :
    Reruns exact (moved cut old new) seen pos pos (.token l rest) (.token l rest') := by
  split at h
  · rename_i hl
    exact .semicolon hl rfl h
  · rename_i hl
    exact .token hl rfl (fun _ => rfl) (moved_of_le (by omega)).symm (moved_of_le hcut).symm h

/-- A block before a change is read alike. -/
theorem Forest.Reruns.block_of_le {seen : List Mark} {o : Lexeme} {body : Forest} {closed : Bool}
    {rest rest' : Forest}
    (hcut : pos + byteSize o.chars + body.size + byteSize (closerChars o closed) ≤ cut)
    (h : Reruns exact (moved cut old new)
      (if o.token = .opening .curly then [] else .ofBlock o body closed pos :: seen)
      (pos + byteSize o.chars + body.size + byteSize (closerChars o closed))
      (pos + byteSize o.chars + body.size + byteSize (closerChars o closed)) rest rest') :
    Reruns exact (moved cut old new) seen pos pos (.block o body closed rest)
      (.block o body closed rest') := by
  split at h
  · rename_i ho
    exact .block ho (moved_of_le (by omega)).symm (Follows.reruns (.of_le (by omega)) [])
      (moved_of_le hcut).symm h
  · rename_i ho
    exact .brackets ho (moved_of_le (by omega)).symm (.of_le (by omega)) (moved_of_le hcut).symm h

end Follows

/-! ## Comments -/

/-- A comment ends with the first mark that can end it. -/
theorem scanComment_of_free {inner : List Char} (h : ¬ ['*', '/'] <:+: inner) (r : List Char) :
    scanComment (inner ++ '*' :: '/' :: r) = (true, inner.length + 2) := by
  induction inner with
  | nil => rfl
  | cons c inner ih =>
      have hrest : ¬ ['*', '/'] <:+: inner := fun hmark =>
        h (hmark.trans (List.suffix_cons c _).isInfix)
      have hend : ¬ (c = '*' ∧ (inner ++ '*' :: '/' :: r).head? = some '/') := by
        rintro ⟨rfl, hhead⟩
        cases inner with
        | nil => simp at hhead
        | cons d inner =>
            obtain rfl : d = '/' := by simpa using hhead
            exact h ⟨[], inner, rfl⟩
      rw [List.cons_append, scanComment_cons, if_neg hend, ih hrest]
      rfl

/-- A comment is read whatever follows. -/
theorem reads_comment {inner : List Char} (h : ¬ ['*', '/'] <:+: inner) (r : List Char) :
    (⟨.comment true, '/' :: '*' :: (inner ++ ['*', '/'])⟩ : Lexeme).Reads r := by
  have hnext : Token.next '/' ('*' :: (inner ++ ['*', '/']) ++ r) =
      (.comment true, inner.length + 3) := by
    rw [next_slash]
    simp [scanComment_of_free h]
  exact ⟨'/', _, rfl, by rw [hnext], by rw [hnext]; simp⟩

/-- A member of two lists one after the other is in one of them. -/
theorem append_eq_append_cons_cases {α : Type*} {xs ys front back : List α} {a : α}
    (h : xs ++ ys = front ++ a :: back) :
    (∃ mid, xs = front ++ a :: mid ∧ back = mid ++ ys) ∨
      ∃ mid, front = xs ++ mid ∧ ys = mid ++ a :: back := by
  rcases List.append_eq_append_iff.1 h with ⟨mid, hfront, hys⟩ | ⟨mid, hxs, hback⟩
  · exact .inr ⟨mid, hfront, hys⟩
  · cases mid with
    | nil => exact .inr ⟨[], by simpa using hxs.symm, by simpa using hback.symm⟩
    | cons b mid =>
        obtain ⟨rfl, rfl⟩ := List.cons.inj hback
        exact .inl ⟨mid, hxs, rfl⟩

/-- **A forest with another comment** is read alike. -/
theorem Forest.exists_recommented {f : Forest} {within : Option Bracket}
    {front back : List Lexeme} {l l' : Lexeme} (hf : f.Nested within)
    (hlex : f.lexemes = front ++ l :: back) (hl : l.token = .comment true)
    (hl' : l'.token = .comment true) (hne : l.chars ≠ []) {pos cut : Nat}
    (hcut : cut = pos + byteSize (charsOf front)) :
    ∃ f', f.Swaps [l] [l'] within front back f' ∧
      f.Follows False (moved cut (byteSize l.chars) (byteSize l'.chars)) pos pos f' := by
  have hpos := byteSize_pos_of_ne_nil hne
  induction f generalizing front back pos within with
  | nil => simp [lexemes] at hlex
  | token k rest ih =>
      cases front with
      | nil =>
          obtain ⟨rfl, rfl⟩ := List.cons.inj hlex
          have hquiet : l'.token.opens? = none ∧ ∀ b, within = some b → l'.token.closes? ≠ some b := by
            simp [hl', Token.opens?, Token.closes?]
          rw [charsOf_nil, byteSize_nil, Nat.add_zero] at hcut
          refine ⟨.token l' rest, ⟨rfl, rfl, fun h => ⟨hquiet.1, hquiet.2, h.2.2⟩,
            fun h => ⟨hquiet.1, hquiet.2, h.2.2⟩⟩, ?_⟩
          refine .token (hl'.trans hl.symm) False.elim (moved_of_le hcut.ge).symm ?_
            (.of_lt (by omega) (by omega) (by omega))
          rw [moved_of_lt (by omega)]
          omega
      | cons k' front =>
          obtain ⟨rfl, hrest⟩ := List.cons.inj hlex
          rw [charsOf_cons, byteSize_append, ← Nat.add_assoc] at hcut
          obtain ⟨rest', hswaps, hfollows⟩ := ih hf.2.2 hrest hcut
          exact ⟨.token k rest', hswaps.token k, .token rfl (fun _ => rfl)
            (moved_of_le (by omega)).symm (moved_of_le (by omega)).symm hfollows⟩
  | block o body closed rest ihb ihr =>
      obtain ⟨hopen, hbody, -, -, hrest⟩ := hf
      cases front with
      | nil =>
          obtain ⟨rfl, -⟩ := List.cons.inj hlex
          simp [hl, Token.opens?] at hopen
      | cons o' front =>
          obtain ⟨rfl, htail⟩ := List.cons.inj hlex
          rw [charsOf_cons, byteSize_append, ← Nat.add_assoc] at hcut
          rcases append_eq_append_cons_cases htail with ⟨mid, hmid, rfl⟩ | ⟨mid, rfl, hmid⟩
          · -- the comment stands in the block
            obtain ⟨body', hswaps, hfollows⟩ := ihb hbody hmid hcut
            obtain ⟨hsize, hsize'⟩ := hswaps.sizes
            simp only [charsOf_cons, charsOf_nil, List.append_nil] at hsize hsize'
            refine ⟨.block o body' closed rest, hswaps.inside closed rest,
              .block (moved_of_le (by omega)).symm hfollows ?_
                (.of_lt (by omega) (by omega) (by omega))⟩
            rw [moved_of_lt (by omega)]
            omega
          rcases append_eq_append_cons_cases hmid with ⟨mid', hcloser, -⟩ | ⟨mid', rfl, hmid'⟩
          · -- it does not end the block
            have hmem : l ∈ closerLexemes o closed := by simp [hcloser]
            rw [closerLexemes] at hmem
            split at hmem
            · rw [List.mem_singleton.1 hmem] at hl
              simp [closerOf] at hl
            · simp at hmem
          · -- it stands after the block
            simp only [charsOf_append, charsOf_closerLexemes, charsOf_lexemes, byteSize_append,
              byteSize_source, ← Nat.add_assoc] at hcut
            obtain ⟨rest', hswaps, hfollows⟩ := ihr hrest hmid' hcut
            refine ⟨.block o body closed rest', hswaps.after body closed ?_, .block
              (moved_of_le ?_).symm (.of_le ?_) (moved_of_le ?_).symm hfollows⟩
            · rintro rfl
              simp [lexemes] at hmid'
            · omega
            · omega
            · omega

/-! ## Bodies that are passed over -/

/-- The block of an at-rule that holds no rules is passed over. -/
theorem bodyOf_of_skipsBlock {marks : List Mark} (h : skipsBlock marks = true) :
    bodyOf marks = .skipped := by
  rw [skipsBlock] at h
  rw [bodyOf]
  cases hname : atRule? marks with
  | none => simp [hname] at h
  | some name =>
      simp only [hname, Option.any_some, Bool.not_eq_true', List.contains_eq_mem,
        decide_eq_false_iff_not] at h
      simp only [if_neg h]

/-- The body at `span`, in a forest `f` that begins at `pos`, can be replaced by `body'`: the outcome is
read alike. -/
structure Forest.Rebodied (f body' : Forest) (span : Span) (within : Option Bracket)
    (seen : List Mark) (pos : Nat) where
  front : List Lexeme
  brace : Lexeme
  body : Forest
  back : List Lexeme
  result : Forest
  brace_eq : brace.token = .opening .curly
  start_eq : span.start = pos + (byteSize (charsOf front) + byteSize brace.chars)
  stop_eq : span.stop = span.start + body.size
  swaps : f.Swaps body.lexemes body'.lexemes within (front ++ [brace]) (closerOf .curly :: back)
    result
  reruns : f.Reruns False (moved span.start body.size body'.size) seen pos pos result

namespace Forest.Rebodied

variable {body' f : Forest} {span : Span} {within : Option Bracket} {seen : List Mark} {pos : Nat}

/-- The sizes before and after the change. -/
theorem sizes (r : f.Rebodied body' span within seen pos) :
    span.start + r.body.size < pos + f.size ∧
      r.result.size + r.body.size = f.size + body'.size := by
  obtain ⟨hsize, hsize'⟩ := r.swaps.sizes
  have hbrace : byteSize (closerOf .curly).chars = 1 := rfl
  have hstart := r.start_eq
  simp only [charsOf_append, charsOf_cons, charsOf_nil, List.append_nil, byteSize_append,
    charsOf_lexemes, byteSize_source] at hsize hsize'
  omega

/-- The body of a block itself. -/
theorem here {o : Lexeme} {body rest : Forest} (ho : o.token = .opening .curly)
    (hskips : skipsBlock seen.reverse = true) (hbody' : body'.Balanced (some .curly)) :
    Nonempty ((Forest.block o body true rest).Rebodied body'
      ⟨pos + byteSize o.chars, pos + byteSize o.chars + body.size⟩ within seen pos) := by
  have hbracket := o.bracket_of_curly ho
  have hbrace : byteSize (closerChars o true) = 1 := by
    rw [closerChars, hbracket]
    rfl
  have hbody : body'.Balanced (some o.bracket) := by rwa [hbracket]
  refine ⟨⟨[], o, body, rest.lexemes, .block o body' true rest, ho, by simp, rfl, ?_, ?_⟩⟩
  · exact ⟨by simp [lexemes, closerLexemes, hbracket], by simp [lexemes, closerLexemes, hbracket],
      fun hf => ⟨hf.1, hbody.nested, fun _ => hbody, by simp, hf.2.2.2.2⟩,
      fun hf => ⟨rfl, hf.2.1, hbody, hf.2.2.2⟩⟩
  · exact .skipped ho (bodyOf_of_skipsBlock hskips) (moved_of_le (by simp only; omega)).symm
      (Follows.reruns (.of_lt (by simp only; omega) (by simp only; omega) (by omega)) [])

/-- A body after a token. -/
theorem token (l : Lexeme)
    (h : Nonempty (f.Rebodied body' span within
      (if l.token = .semicolon then [] else .ofLexeme l pos :: seen) (pos + byteSize l.chars))) :
    Nonempty ((Forest.token l f).Rebodied body' span within seen pos) := by
  obtain ⟨r⟩ := h
  have hstart := r.start_eq
  refine ⟨⟨l :: r.front, r.brace, r.body, r.back, .token l r.result, r.brace_eq, ?_, r.stop_eq,
    r.swaps.token l, .token_of_le (by omega) r.reruns⟩⟩
  rw [charsOf_cons, byteSize_append]
  omega

/-- A body in a block. -/
theorem inside {o : Lexeme} (ho : o.token = .opening .curly) (closed : Bool) (rest : Forest)
    (h : Nonempty (f.Rebodied body' span (some o.bracket) [] (pos + byteSize o.chars))) :
    Nonempty ((Forest.block o f closed rest).Rebodied body' span within seen pos) := by
  obtain ⟨r⟩ := h
  have hstart := r.start_eq
  obtain ⟨hlt, hsize⟩ := r.sizes
  refine ⟨⟨o :: r.front, r.brace, r.body, r.back ++ (closerLexemes o closed ++ rest.lexemes),
    .block o r.result closed rest, r.brace_eq, ?_, r.stop_eq, r.swaps.inside closed rest,
    .block ho (moved_of_le (by omega)).symm r.reruns ?_
      (Follows.reruns (.of_lt (by omega) (by omega) (by omega)) [])⟩⟩
  · rw [charsOf_cons, byteSize_append]
    omega
  · rw [moved_of_lt (by omega)]
    omega

/-- A body after a block. -/
theorem after {o : Lexeme} (body : Forest) (closed : Bool)
    (h : Nonempty (f.Rebodied body' span within
      (if o.token = .opening .curly then [] else .ofBlock o body closed pos :: seen)
      (pos + byteSize o.chars + body.size + byteSize (closerChars o closed)))) :
    Nonempty ((Forest.block o body closed f).Rebodied body' span within seen pos) := by
  obtain ⟨r⟩ := h
  have hstart := r.start_eq
  have hne : f ≠ .nil := by
    rintro rfl
    simpa [lexemes] using r.swaps.lexemes_eq
  refine ⟨⟨o :: (body.lexemes ++ (closerLexemes o closed ++ r.front)), r.brace, r.body, r.back,
    .block o body closed r.result, r.brace_eq, ?_, r.stop_eq, ?_,
    .block_of_le (by omega) r.reruns⟩⟩
  · simp only [charsOf_cons, charsOf_append, charsOf_closerLexemes, charsOf_lexemes,
      byteSize_append, byteSize_source]
    omega
  · simpa using r.swaps.after body closed hne

end Forest.Rebodied

/-- **A forest with another body** in the block of an at-rule that holds no rules is read alike. -/
theorem Forest.nonempty_rebodied {f body' : Forest} (hbody' : body'.Balanced (some .curly))
    {span : Span} {seen : List Mark} {pos : Nat} (h : span ∈ f.skippedBodies pos seen)
    (within : Option Bracket) : Nonempty (f.Rebodied body' span within seen pos) := by
  induction f generalizing seen pos within with
  | nil => simp [skippedBodies] at h
  | token l rest ih =>
      rw [skippedBodies] at h
      exact Rebodied.token l (ih h within)
  | block o body closed rest ihb ihr =>
      rw [skippedBodies] at h
      by_cases ho : o.token = .opening .curly
      · rw [if_pos ho, List.mem_append, List.mem_append] at h
        rcases h with h | h | h
        · split at h
          · rename_i hskips
            rw [Bool.and_eq_true] at hskips
            obtain ⟨rfl, hskips⟩ := hskips
            rw [List.mem_singleton] at h
            subst h
            exact Rebodied.here ho hskips hbody'
          · simp at h
        · exact Rebodied.inside ho closed rest (ihb h (some o.bracket))
        · exact Rebodied.after body closed (ihr (by rwa [if_pos ho]) within)
      · rw [if_neg ho] at h
        exact Rebodied.after body closed (ihr (by rwa [if_neg ho]) within)

/-- What a closed block between braces holds stands right before its closing brace. -/
theorem Forest.exists_of_mem_closedBodies {f : Forest} {within : Option Bracket} {pos : Nat}
    {span : Span} (hf : f.Nested within) (h : span ∈ f.closedBodies pos) :
    ∃ (front : List Lexeme) (body : Forest) (back : List Lexeme),
      f.lexemes = front ++ (body.lexemes ++ closerOf .curly :: back) ∧
      body.Balanced (some .curly) ∧ span.start = pos + byteSize (charsOf front) ∧
      span.stop = span.start + body.size := by
  induction f generalizing pos within with
  | nil => simp [closedBodies] at h
  | token l rest ih =>
      rw [closedBodies] at h
      obtain ⟨front, body, back, hlex, hbody, hstart, hstop⟩ := ih hf.2.2 h
      refine ⟨l :: front, body, back, by rw [lexemes, hlex]; rfl, hbody, ?_, hstop⟩
      rw [hstart, charsOf_cons, byteSize_append, Nat.add_assoc]
  | block o inner closed rest ihb ihr =>
      obtain ⟨-, hinner, hclosed, -, hrest⟩ := hf
      rw [closedBodies, List.mem_append, List.mem_append] at h
      rcases h with h | h | h
      -- the block itself
      · split at h
        · rename_i hcurly
          rw [Bool.and_eq_true, decide_eq_true_eq] at hcurly
          obtain ⟨rfl, ho⟩ := hcurly
          have hbracket := o.bracket_of_curly ho
          rw [List.mem_singleton] at h
          subst h
          have hbody := hclosed rfl
          rw [hbracket] at hbody
          exact ⟨[o], inner, rest.lexemes, by simp [lexemes, closerLexemes, hbracket], hbody,
            by simp, rfl⟩
        · simp at h
      -- a block inside of it
      · obtain ⟨front, body, back, hlex, hbody, hstart, hstop⟩ := ihb hinner h
        refine ⟨o :: front, body, back ++ (closerLexemes o closed ++ rest.lexemes), ?_, hbody, ?_,
          hstop⟩
        · simp [lexemes, hlex]
        · rw [hstart, charsOf_cons, byteSize_append, Nat.add_assoc]
      -- a block after it
      · obtain ⟨front, body, back, hlex, hbody, hstart, hstop⟩ := ihr hrest h
        refine ⟨o :: (inner.lexemes ++ (closerLexemes o closed ++ front)), body, back, ?_, hbody, ?_,
          hstop⟩
        · simp [lexemes, hlex]
        · rw [hstart]
          simp only [charsOf_cons, charsOf_append, charsOf_closerLexemes, charsOf_lexemes,
            byteSize_append, byteSize_source]
          omega

/-! ## Texts -/

variable {before old new after : List Char}

/-- Another comment is not seen. -/
theorem follows_of_comment {front back : List Lexeme} {inner : List Char}
    (hfront : charsOf front = before)
    (hlex : lexemes (before ++ (old ++ after)) = front ++ ⟨.comment true, old⟩ :: back)
    (hnew : new = '/' :: '*' :: (inner ++ ['*', '/'])) (hinner : ¬ ['*', '/'] <:+: inner) :
    (Outline.ofChars (before ++ (old ++ after))).Follows False
      (moved (byteSize before) (byteSize old) (byteSize new))
      (Outline.ofChars (before ++ (new ++ after))) := by
  subst hfront
  have hsplits := splits_lexemes (charsOf front ++ (old ++ after))
  have hchars := charsOf_lexemes (charsOf front ++ (old ++ after))
  rw [hlex] at hsplits hchars
  obtain rfl : charsOf back = after := by simpa using hchars
  rw [splits_append] at hsplits
  obtain ⟨hbefore, hcomment, hback⟩ := hsplits
  have hreads := hcomment.resolve_left fun hspace => by simpa using hspace.token_eq
  obtain ⟨-, rest, hold : old = '/' :: (rest ++ ['/'])⟩ := hreads.of_comment rfl
  have hcomment' : (⟨.comment true, new⟩ : Lexeme).token = .comment true := rfl
  obtain ⟨f', hswaps, hfollows⟩ := Forest.exists_recommented (Forest.nested_ofText _)
    ((Forest.lexemes_ofText _).trans hlex) rfl hcomment' hreads.chars_ne_nil
    (Nat.zero_add (byteSize (charsOf front))).symm
  have hsource : f'.source = charsOf front ++ (new ++ charsOf back) := by
    rw [← Forest.charsOf_lexemes, hswaps.swapped_eq]
    simp
  have hsplits' : Splits f'.lexemes [] := by
    rw [hswaps.swapped_eq, splits_append]
    refine ⟨?_, .inr ?_, hback⟩
    · -- both comments begin with a slash, which no token goes on with
      simp only [charsOf_append, charsOf_cons, charsOf_nil, List.append_nil, hold, hnew,
        List.cons_append] at hbefore ⊢
      exact splits_anchor rfl rfl hbefore
    · rw [hnew]
      exact reads_comment hinner _
  rw [← hsource, Outline.ofChars_source hsplits' (hswaps.nested (Forest.nested_ofText _))]
  exact outlineFrom_reruns (hfollows.reruns []) .nil .ruleList 0

/-- The parts of a text that a body in braces cuts it into. -/
theorem cuts_of_lexemes {mid : List Char} {f : Forest} {front back : List Lexeme}
    (hlex : (Forest.ofText (before ++ (mid ++ after))).lexemes =
      front ++ (f.lexemes ++ closerOf .curly :: back))
    (hstart : byteSize before = byteSize (charsOf front)) (hsize : byteSize mid = f.size) :
    before = charsOf front ∧ mid = f.source ∧ after = charsOf (closerOf .curly :: back) := by
  have htext := congrArg charsOf hlex
  rw [Forest.charsOf_lexemes, Forest.source_ofText, charsOf_append, charsOf_append,
    Forest.charsOf_lexemes] at htext
  obtain ⟨hbefore, hrest⟩ := append_inj_of_byteSize_eq htext hstart
  obtain ⟨hmid, hafter⟩ := append_inj_of_byteSize_eq hrest (by rw [hsize, f.byteSize_source])
  exact ⟨hbefore, hmid, hafter⟩

/-- Another body of an at-rule that holds no rules is not seen. -/
theorem follows_of_body
    (hold : ⟨byteSize before, byteSize (before ++ old)⟩ ∈
      (Forest.ofText (before ++ (old ++ after))).skippedBodies 0 [])
    (hnew : ⟨byteSize before, byteSize (before ++ new)⟩ ∈
      (Forest.ofText (before ++ (new ++ after))).closedBodies 0) :
    (Outline.ofChars (before ++ (old ++ after))).Follows False
      (moved (byteSize before) (byteSize old) (byteSize new))
      (Outline.ofChars (before ++ (new ++ after))) := by
  obtain ⟨front', body', back', hlex', hbody', hstart', hstop'⟩ :=
    Forest.exists_of_mem_closedBodies (Forest.nested_ofText _) hnew
  obtain ⟨r⟩ := Forest.nonempty_rebodied hbody' hold none
  have hstart := r.start_eq
  have hstop := r.stop_eq
  simp only [byteSize_append] at hstart hstop hstart' hstop'
  have hsize : byteSize old = r.body.size := by omega
  have hsize' : byteSize new = body'.size := by omega
  obtain ⟨hbefore, -, hafter⟩ := cuts_of_lexemes r.swaps.lexemes_eq
    (by simp only [charsOf_append, charsOf_cons, charsOf_nil, List.append_nil, byteSize_append]; omega)
    hsize
  obtain ⟨-, hnew', hafter'⟩ := cuts_of_lexemes hlex' (by omega) hsize'
  have hsource : r.result.source = before ++ (new ++ after) := by
    have hchars := charsOf_append (r.front ++ [r.brace])
      (body'.lexemes ++ closerOf .curly :: r.back)
    rw [← hbefore, charsOf_append body'.lexemes, ← hafter, Forest.charsOf_lexemes, ← hnew'] at hchars
    rw [← Forest.charsOf_lexemes, r.swaps.swapped_eq, hchars]
  have hsplits : Splits r.result.lexemes [] := by
    have hfirst := splits_lexemes (before ++ (old ++ after))
    have hsecond := splits_lexemes (before ++ (new ++ after))
    rw [← Forest.lexemes_ofText, r.swaps.lexemes_eq] at hfirst
    rw [← Forest.lexemes_ofText, hlex'] at hsecond
    -- what stands around the new body is read as around the old one, and the body as in the new text
    obtain ⟨hfront, hrest⟩ := splits_append.1 hfirst
    obtain ⟨-, hback⟩ := splits_append.1 hrest
    obtain ⟨hbody, -⟩ := splits_append.1 (splits_append.1 hsecond).2
    rw [← hafter', hafter] at hbody
    rw [r.swaps.swapped_eq]
    exact splits_append.2 ⟨splits_through_fence (.inr (.inl r.brace_eq)) hfront _,
      splits_append.2 ⟨hbody, hback⟩⟩
  have hreruns := outlineFrom_reruns r.reruns .nil .ruleList 0
  rw [← hsize, ← hsize', ← Outline.ofChars_source hsplits (r.swaps.nested (Forest.nested_ofText _)),
    hsource] at hreruns
  exact hreruns

/-- **What an outline does not see.** Replacing a comment by another one, or the body of an at-rule
that holds no rules by any other one that the same brace ends, leaves the rules with their selectors,
depths and closing braces, and moves what stands after the change. The declared selectors are the
same, and the text is accepted as before. -/
theorem outline_invisible {before old new after : String}
    (h : Invisible before.toList old.toList new.toList after.toList) :
    (Outline.ofText (before ++ new ++ after)).rules =
        (Outline.ofText (before ++ old ++ after)).rules.map
          (Rule.relocate (moved (byteSize before.toList) (byteSize old.toList)
            (byteSize new.toList))) ∧
      (Outline.ofText (before ++ new ++ after)).declared =
        (Outline.ofText (before ++ old ++ after)).declared ∧
      ∀ selectors, declared? (before ++ new ++ after) = .ok selectors ↔
        declared? (before ++ old ++ after) = .ok selectors := by
  have htext : ∀ mid : String, Outline.ofText (before ++ mid ++ after) =
      Outline.ofChars (before.toList ++ (mid.toList ++ after.toList)) := by
    intro mid
    rw [Outline.ofText, String.toList_append, String.toList_append, List.append_assoc]
  have hfollows : (Outline.ofText (before ++ old ++ after)).Follows False
      (moved (byteSize before.toList) (byteSize old.toList) (byteSize new.toList))
      (Outline.ofText (before ++ new ++ after)) := by
    rw [htext, htext]
    cases h with
    | comment hbefore hlex hnew hinner => exact follows_of_comment hbefore hlex hnew hinner
    | body hold hnew => exact follows_of_body hold hnew
  have hdeclared := Outline.declared_of_relocate hfollows.rules_eq
  have hproblems : (Outline.ofText (before ++ new ++ after)).problems = [] ↔
      (Outline.ofText (before ++ old ++ after)).problems = [] := by
    rw [← List.length_eq_zero_iff, ← List.length_eq_zero_iff, hfollows.problems.length_eq]
  refine ⟨hfollows.rules_eq, hdeclared, fun selectors => ?_⟩
  rw [declared?_eq_ok_iff, declared?_eq_ok_iff, hdeclared, hproblems]

/-- A comment in a selector list that becomes longer, and a body that gets a brace in brackets. -/
theorem outline_invisible_list_and_face :
    (Invisible "p, ".toList "/**/".toList "/* \x7b * / */".toList ".a { }".toList ∧
      (Outline.ofText ("p, " ++ "/* \x7b * / */" ++ ".a { }")).rules =
        [⟨⟨"p", ⟨0, 1⟩⟩, [⟨".a", ⟨14, 16⟩⟩], ⟨17, 20⟩, true, 0⟩]) ∧
    (Invisible "@font-face \x7b".toList "".toList " b [ \x7d ] ".toList "\x7d u { }".toList ∧
      (Outline.ofText ("@font-face \x7b" ++ " b [ \x7d ] " ++ "\x7d u { }")).rules =
        [⟨⟨"u", ⟨23, 24⟩⟩, [], ⟨25, 28⟩, true, 0⟩]) := by
  have hcomment : Invisible "p, ".toList "/**/".toList "/* \x7b * / */".toList ".a { }".toList :=
    @Invisible.comment _ _ _ _ (lexemes "p, ".toList) (lexemes ".a { }".toList)
      " \x7b * / ".toList (by decide +kernel) (by decide +kernel) (by decide +kernel)
      (by decide +kernel)
  have hbody : Invisible "@font-face \x7b".toList "".toList " b [ \x7d ] ".toList
      "\x7d u { }".toList :=
    .body (by decide +kernel) (by decide +kernel)
  refine ⟨⟨hcomment, ?_⟩, hbody, ?_⟩
  · rw [(outline_invisible hcomment).1]
    decide +kernel
  · rw [(outline_invisible hbody).1]
    decide +kernel

end StyleAudit.Sheet
