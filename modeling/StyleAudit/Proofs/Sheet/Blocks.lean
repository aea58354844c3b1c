import Mathlib
import StyleAudit.Proofs.Sheet.Lexing

/-! # Blocks and the lexemes they are made of

Reading blocks only groups lexemes: written out again, a forest gives back the sequence it was read
from. A closer ends the innermost open block of its kind and no other, so inside a block that is
closed every block is closed; such forests are the ones that can be read back.

* **`Forest.lexemes`** — a forest written out.
* **`lexemes_ofText`** — the forest of a text, written out, is the lexemes of the text.
* **`Forest.Balanced`** — every block is closed, and no stray closer could close another.
* **`Forest.Nested`** — every block in a closed one is closed.
* **`ofLexemes_lexemes`** — a nested forest is read back from its lexemes.
* **`nested_ofText`** — in the forest of a text, what a closed block holds is balanced. -/

namespace StyleAudit.Sheet

/-! ## Writing a forest out -/

/-- The lexeme that closes a bracket. -/
def closerOf (b : Bracket) : Lexeme := ⟨.closing b, [b.closer]⟩

/-- The lexemes after a block's contents. -/
def closerLexemes (opener : Lexeme) (closed : Bool) : List Lexeme :=
  if closed then [closerOf opener.bracket] else []

/-- The bracket of an opening brace. -/
theorem Lexeme.bracket_of_curly {o : Lexeme} (h : o.token = .opening .curly) :
    o.bracket = .curly := by
  simp [Lexeme.bracket, h, Token.opens?]

/-- The length of an opening brace. -/
@[simp] theorem utf8Size_brace : '{'.utf8Size = 1 := rfl

/-- The lexemes after a block's contents have the characters after them. -/
@[simp] theorem charsOf_closerLexemes (o : Lexeme) (closed : Bool) :
    charsOf (closerLexemes o closed) = closerChars o closed := by
  cases closed <;> simp [closerLexemes, closerChars, closerOf]

namespace Forest

/-- The lexemes of a forest, in order. -/
def lexemes : Forest → List Lexeme
  | .nil => []
  | .token l rest => l :: rest.lexemes
  | .block o body closed rest =>
      o :: (body.lexemes ++ (closerLexemes o closed ++ rest.lexemes))

/-- One forest after another. -/
def append : Forest → Forest → Forest
  | .nil, g => g
  | .token l rest, g => .token l (rest.append g)
  | .block o body closed rest, g => .block o body closed (rest.append g)

instance : Append Forest := ⟨append⟩

@[simp] theorem nil_append (g : Forest) : Forest.nil ++ g = g := rfl

@[simp] theorem token_append (l : Lexeme) (f g : Forest) :
    Forest.token l f ++ g = .token l (f ++ g) := rfl

@[simp] theorem block_append (o : Lexeme) (body : Forest) (closed : Bool) (f g : Forest) :
    Forest.block o body closed f ++ g = .block o body closed (f ++ g) := rfl

/-- Nothing after a forest leaves it as it is. -/
@[simp] theorem append_nil (f : Forest) : f ++ Forest.nil = f := by
  induction f with
  | nil => rfl
  | token l rest ih => rw [token_append, ih]
  | block o body closed rest _ ih => rw [block_append, ih]

/-- Putting forests one after another is associative. -/
theorem append_assoc (f g h : Forest) : f ++ g ++ h = f ++ (g ++ h) := by
  induction f with
  | nil => rfl
  | token l rest ih => simp only [token_append, ih]
  | block o body closed rest _ ih => simp only [block_append, ih]

/-- The lexemes of two forests. -/
@[simp] theorem lexemes_append (f g : Forest) : (f ++ g).lexemes = f.lexemes ++ g.lexemes := by
  induction f with
  | nil => rfl
  | token l rest ih => simp [lexemes, ih]
  | block o body closed rest _ ih => simp [lexemes, ih]

/-- The characters of a forest are those of its lexemes. -/
theorem charsOf_lexemes (f : Forest) : charsOf f.lexemes = f.source := by
  induction f with
  | nil => rfl
  | token l rest ih => simp [lexemes, source, ih]
  | block o body closed rest ihb ihr => simp [lexemes, source, ihb, ihr]

/-- The characters of two forests. -/
@[simp] theorem source_append (f g : Forest) : (f ++ g).source = f.source ++ g.source := by
  simp only [← charsOf_lexemes, lexemes_append, charsOf_append]

end Forest

/-! ## Reading is grouping -/

/-- The lexemes of what is left of every open block and of the sheet. -/
def levelLexemes : List Bracket → List Level → List Lexeme
  | _, [] => []
  | [], level :: _ => level.contents.lexemes
  | b :: pending, level :: levels =>
      level.contents.lexemes ++
        ((if level.closed then [closerOf b] else []) ++ levelLexemes pending levels)

/-- There is one level for each open block and one for the sheet. -/
theorem length_readLevels (pending : List Bracket) (ls : List Lexeme) :
    (readLevels pending ls).length = pending.length + 1 := by
  induction ls generalizing pending with
  | nil => simp [readLevels]
  | cons l ls ih =>
      rw [readLevels.eq_def]
      simp only
      split
      · rename_i b _
        have hlen := ih (b :: pending)
        split
        · rename_i heq
          rw [heq] at hlen
          simpa using hlen
        · rename_i hne
          -- a block that is open leaves at least two levels
          obtain ⟨x, xs, hx⟩ := List.exists_cons_of_length_eq_add_one hlen
          rw [hx] at hlen
          obtain ⟨y, ys, hy⟩ := List.exists_cons_of_length_eq_add_one (by simpa using hlen)
          exact absurd (by rw [hx, hy]) (hne x y ys)
      · split
        · split
          · simp [ih]
          · rename_i b outer _
            have hlen := ih (b :: outer)
            split <;> simp_all
        · have hlen := ih []
          split <;> simp_all

/-- The levels of a sequence that are read while a block is open: that block's and one more. -/
theorem exists_readLevels_cons (b : Bracket) (pending : List Bracket) (ls : List Lexeme) :
    ∃ inner outer levels, readLevels (b :: pending) ls = inner :: outer :: levels := by
  have hlen := length_readLevels (b :: pending) ls
  obtain ⟨x, xs, hx⟩ := List.exists_cons_of_length_eq_add_one hlen
  rw [hx] at hlen
  obtain ⟨y, ys, rfl⟩ := List.exists_cons_of_length_eq_add_one (by simpa using hlen)
  exact ⟨x, y, ys, hx⟩

/-- There is always a first level. -/
theorem exists_readLevels (pending : List Bracket) (ls : List Lexeme) :
    ∃ level levels, readLevels pending ls = level :: levels :=
  List.exists_cons_of_length_eq_add_one (length_readLevels pending ls)

/-- Step of `readLevels` at a token that opens a block. -/
theorem readLevels_open {l : Lexeme} {b : Bracket} (hb : l.token.opens? = some b)
    {pending : List Bracket} {ls : List Lexeme} {inner outer : Level} {levels : List Level}
    (h : readLevels (b :: pending) ls = inner :: outer :: levels) :
    readLevels pending (l :: ls) =
      ⟨.block l inner.contents inner.closed outer.contents, outer.closed⟩ :: levels := by
  rw [readLevels.eq_def]
  simp [hb, h]

/-- Step of `readLevels` at a token that closes the innermost block. -/
theorem readLevels_close {l : Lexeme} {b : Bracket} (hl : l.token = .closing b)
    (pending : List Bracket) (ls : List Lexeme) :
    readLevels (b :: pending) (l :: ls) = ⟨.nil, true⟩ :: readLevels pending ls := by
  rw [readLevels.eq_def]
  simp [hl, Token.opens?, Token.closes?]

/-- Step of `readLevels` at any other token. -/
theorem readLevels_token {l : Lexeme} (hopen : l.token.opens? = none) {pending : List Bracket}
    (hclose : ∀ b, pending.head? = some b → l.token.closes? ≠ some b) {ls : List Lexeme}
    {level : Level} {levels : List Level} (h : readLevels pending ls = level :: levels) :
    readLevels pending (l :: ls) = ⟨.token l level.contents, level.closed⟩ :: levels := by
  rw [readLevels.eq_def]
  cases pending with
  | nil => simp [hopen, h]
  | cons b outer =>
      have hb : l.token.closes? ≠ some b := hclose b rfl
      simp [hopen, hb, h]

/-- The three steps of `readLevels`. -/
theorem token_cases (l : Lexeme) (pending : List Bracket) :
    (∃ b, l.token.opens? = some b) ∨
      (∃ b outer, pending = b :: outer ∧ l.token = .closing b) ∨
      (l.token.opens? = none ∧ ∀ b, pending.head? = some b → l.token.closes? ≠ some b) := by
  cases hopen : l.token.opens? with
  | some b => exact .inl ⟨b, rfl⟩
  | none =>
      right
      cases pending with
      | nil => exact .inr ⟨rfl, by simp⟩
      | cons b outer =>
          by_cases hb : l.token.closes? = some b
          · refine .inl ⟨b, outer, rfl, ?_⟩
            cases ht : l.token <;> simp_all [Token.closes?]
          · exact .inr ⟨rfl, by simpa using hb⟩

/-- **Reading blocks only groups lexemes**, provided that every closer is written as its bracket. -/
theorem levelLexemes_readLevels {pending : List Bracket} {ls : List Lexeme}
    (h : ∀ l ∈ ls, ∀ b, l.token = .closing b → l.chars = [b.closer]) :
    levelLexemes pending (readLevels pending ls) = ls := by
  induction ls generalizing pending with
  | nil =>
      -- every level that is left open is empty
      have hnil : ∀ p : List Bracket,
          levelLexemes p (⟨.nil, false⟩ :: p.map fun _ => ⟨.nil, false⟩) = [] := by
        intro p
        induction p with
        | nil => rfl
        | cons b p ih => simpa [levelLexemes, Forest.lexemes] using ih
      rw [readLevels]
      exact hnil pending
  | cons l ls ih =>
      have hls : ∀ m ∈ ls, ∀ b, m.token = .closing b → m.chars = [b.closer] :=
        fun m hm => h m (by simp [hm])
      rcases token_cases l pending with ⟨b, hb⟩ | ⟨b, outer, rfl, hb⟩ | ⟨hopen, hclose⟩
      · obtain ⟨inner, outer, levels, heq⟩ := exists_readLevels_cons b pending ls
        have ih := @ih (b :: pending) hls
        have hbracket : l.bracket = b := by simp [Lexeme.bracket, hb]
        rw [readLevels_open hb heq]
        rw [heq, levelLexemes] at ih
        cases pending <;>
          simp [levelLexemes, Forest.lexemes, closerLexemes, hbracket, ← ih]
      · have hl : closerOf b = l := by
          obtain ⟨token, chars⟩ := l
          have hchars := h _ (by simp) b hb
          simp only at hb hchars
          rw [closerOf, hb, hchars]
        rw [readLevels_close hb, levelLexemes, @ih outer hls, hl]
        simp [Forest.lexemes]
      · obtain ⟨level, levels, heq⟩ := exists_readLevels pending ls
        have ih := @ih pending hls
        rw [readLevels_token hopen hclose heq]
        rw [heq] at ih
        cases pending <;> simp [levelLexemes, Forest.lexemes, ← ih]

/-- Every lexeme of a text is read somewhere in it. -/
theorem reads_of_mem_lexemes {cs : List Char} {l : Lexeme} (h : l ∈ lexemes cs) :
    ∃ r, l.Reads r := by
  generalize hls : lexemes cs = ls at h
  induction ls generalizing cs with
  | nil => simp at h
  | cons m ms ih =>
      obtain ⟨hreads, hrest⟩ := reads_of_lexemes_eq_cons hls
      rcases List.mem_cons.1 h with rfl | h
      · exact ⟨_, hreads⟩
      · exact ih hrest h

/-- **The forest of a text, written out, is the lexemes of the text.** -/
theorem Forest.lexemes_ofText (cs : List Char) : (Forest.ofText cs).lexemes = Sheet.lexemes cs := by
  have hclosers : ∀ l ∈ Sheet.lexemes cs, ∀ b, l.token = .closing b → l.chars = [b.closer] := by
    intro l hl b hb
    obtain ⟨r, hr⟩ := reads_of_mem_lexemes hl
    exact hr.chars_eq_of_mark (by rw [hb]; rfl)
  have h := @levelLexemes_readLevels [] _ hclosers
  obtain ⟨level, levels, heq⟩ := exists_readLevels [] (Sheet.lexemes cs)
  rw [heq] at h
  rw [Forest.ofText, Forest.ofLexemes, heq]
  exact h

/-- The forest of a text is made of its characters. -/
theorem Forest.source_ofText (cs : List Char) : (Forest.ofText cs).source = cs := by
  rw [← Forest.charsOf_lexemes, Forest.lexemes_ofText, Sheet.charsOf_lexemes]

/-! ## Forests that are read back -/

/-- Every block is closed, and no token opens a block or closes the one that the forest stands
in, whose bracket is `within`. -/
def Forest.Balanced : (within : Option Bracket) → Forest → Prop
  | _, .nil => True
  | within, .token l rest =>
      l.token.opens? = none ∧ (∀ b, within = some b → l.token.closes? ≠ some b) ∧
        rest.Balanced within
  | within, .block o body closed rest =>
      closed = true ∧ o.token.opens? = some o.bracket ∧ body.Balanced (some o.bracket) ∧
        rest.Balanced within

/-- Two balanced forests make a balanced one. -/
theorem Forest.Balanced.append {within : Option Bracket} {f g : Forest} (hf : f.Balanced within)
    (hg : g.Balanced within) : (f ++ g).Balanced within := by
  induction f with
  | nil => exact hg
  | token l rest ih => exact ⟨hf.1, hf.2.1, ih hf.2.2⟩
  | block o body closed rest _ ih => exact ⟨hf.1, hf.2.1, hf.2.2.1, ih hf.2.2.2⟩

/-- The parts of a balanced forest are balanced. -/
theorem Forest.Balanced.of_append {within : Option Bracket} {f g : Forest}
    (h : (f ++ g).Balanced within) : f.Balanced within ∧ g.Balanced within := by
  induction f with
  | nil => exact ⟨trivial, h⟩
  | token l rest ih => exact ⟨⟨h.1, h.2.1, (ih h.2.2).1⟩, (ih h.2.2).2⟩
  | block o body closed rest _ ih =>
      exact ⟨⟨h.1, h.2.1, h.2.2.1, (ih h.2.2.2).1⟩, (ih h.2.2.2).2⟩

/-- A balanced forest is read in front of whatever follows it. -/
theorem readLevels_lexemes_append {f : Forest} {pending : List Bracket} {ls : List Lexeme}
    {level : Level} {levels : List Level} (hf : f.Balanced pending.head?)
    (h : readLevels pending ls = level :: levels) :
    readLevels pending (f.lexemes ++ ls) = ⟨f ++ level.contents, level.closed⟩ :: levels := by
  induction f generalizing pending ls level levels with
  | nil => exact h
  | token l rest ih =>
      obtain ⟨hopen, hclose, hrest⟩ := hf
      exact readLevels_token hopen hclose (ih hrest h)
  | block o body closed rest ihb ihr =>
      obtain ⟨rfl, hopen, hbody, hrest⟩ := hf
      -- the contents end with the closer, and the rest is read where the block stands
      have hcloser : readLevels (o.bracket :: pending)
          (closerOf o.bracket :: (rest.lexemes ++ ls)) =
            ⟨.nil, true⟩ :: ⟨rest ++ level.contents, level.closed⟩ :: levels := by
        rw [readLevels_close rfl, ihr hrest h]
      have hinner := @ihb (o.bracket :: pending) _ _ _ hbody hcloser
      rw [Forest.append_nil] at hinner
      have hstep := readLevels_open hopen hinner
      simpa [Forest.lexemes, closerLexemes] using hstep

/-! ## The forests of texts -/

/-- The blocks of a forest are nested as they are read: a block is opened by its opening token,
inside a closed block every block is closed, and a block that is not closed ends the forest. -/
def Forest.Nested : (within : Option Bracket) → Forest → Prop
  | _, .nil => True
  | within, .token l rest =>
      l.token.opens? = none ∧ (∀ b, within = some b → l.token.closes? ≠ some b) ∧
        rest.Nested within
  | within, .block o body closed rest =>
      o.token.opens? = some o.bracket ∧ body.Nested (some o.bracket) ∧
        (closed = true → body.Balanced (some o.bracket)) ∧ (closed = false → rest = .nil) ∧
        rest.Nested within

/-- What is balanced is nested. -/
theorem Forest.Balanced.nested {within : Option Bracket} {f : Forest} (h : f.Balanced within) :
    f.Nested within := by
  induction f generalizing within with
  | nil => trivial
  | token l rest ih => exact ⟨h.1, h.2.1, ih h.2.2⟩
  | block o body closed rest ihb ihr =>
      obtain ⟨rfl, hopen, hbody, hrest⟩ := h
      exact ⟨hopen, ihb hbody, fun _ => hbody, by simp, ihr hrest⟩

/-- What is nested begins with something nested. -/
theorem Forest.Nested.append_left {within : Option Bracket} {f g : Forest}
    (h : (f ++ g).Nested within) : f.Nested within := by
  induction f with
  | nil => trivial
  | token l rest ih => exact ⟨h.1, h.2.1, ih h.2.2⟩
  | block o body closed rest _ ih =>
      refine ⟨h.1, h.2.1, h.2.2.1, fun hclosed => ?_, ih h.2.2.2.2⟩
      -- nothing follows a block without an end
      have hnil := h.2.2.2.1 hclosed
      cases rest with
      | nil => rfl
      | token => cases hnil
      | block => cases hnil

/-- What is nested ends with something nested. -/
theorem Forest.Nested.append_right {within : Option Bracket} {f g : Forest}
    (h : (f ++ g).Nested within) : g.Nested within := by
  induction f with
  | nil => exact h
  | token l rest ih => exact ih h.2.2
  | block o body closed rest _ ih => exact ih h.2.2.2.2

/-- The levels of the lexemes of a nested forest: only the innermost one has contents. -/
theorem readLevels_lexemes {f : Forest} {pending : List Bracket} (hf : f.Nested pending.head?) :
    readLevels pending f.lexemes = ⟨f, false⟩ :: pending.map fun _ => ⟨.nil, false⟩ := by
  induction f generalizing pending with
  | nil => rfl
  | token l rest ih => exact readLevels_token hf.1 hf.2.1 (ih hf.2.2)
  | block o body closed rest ihb ihr =>
      obtain ⟨hopen, hbody, hbalanced, hlast, hrest⟩ := hf
      cases closed with
      | true =>
          have hcloser : readLevels (o.bracket :: pending) (closerOf o.bracket :: rest.lexemes) =
              ⟨.nil, true⟩ :: ⟨rest, false⟩ :: pending.map fun _ => ⟨.nil, false⟩ := by
            rw [readLevels_close rfl, ihr hrest]
          have hinner := @readLevels_lexemes_append body (o.bracket :: pending) _ _ _
            (hbalanced rfl) hcloser
          rw [Forest.append_nil] at hinner
          simpa [Forest.lexemes, closerLexemes] using readLevels_open hopen hinner
      | false =>
          obtain rfl := hlast rfl
          simpa [Forest.lexemes, closerLexemes] using readLevels_open hopen (ihb hbody)

/-- **A nested forest is read back from its lexemes.** -/
theorem ofLexemes_lexemes {f : Forest} (h : f.Nested none) : Forest.ofLexemes f.lexemes = f := by
  rw [Forest.ofLexemes, @readLevels_lexemes f [] h]

/-- What is left of every open block is nested. A level that nothing closes is the last one with
contents. -/
def LevelsNested : List Bracket → List Level → Prop
  | _, [] => True
  | pending, level :: levels =>
      level.contents.Nested pending.head? ∧
        (level.closed = true → level.contents.Balanced pending.head?) ∧
        (level.closed = false → ∀ m ∈ levels, m = ⟨.nil, false⟩) ∧
        LevelsNested pending.tail levels

/-- Reading keeps the levels nested. -/
theorem levelsNested_readLevels (pending : List Bracket) (ls : List Lexeme) :
    LevelsNested pending (readLevels pending ls) := by
  induction ls generalizing pending with
  | nil =>
      have hnil : ∀ (p : List Bracket) (q : List Bracket),
          LevelsNested p (q.map fun _ => ⟨.nil, false⟩) := by
        intro p q
        induction q generalizing p with
        | nil => trivial
        | cons b q ih => exact ⟨trivial, by simp, by simp, ih p.tail⟩
      rw [readLevels]
      exact ⟨trivial, by simp, by simp, hnil _ _⟩
  | cons l ls ih =>
      rcases token_cases l pending with ⟨b, hb⟩ | ⟨b, outer, rfl, hb⟩ | ⟨hopen, hclose⟩
      · obtain ⟨inner, outer, levels, heq⟩ := exists_readLevels_cons b pending ls
        have ih := ih (b :: pending)
        have hbracket : l.bracket = b := by simp [Lexeme.bracket, hb]
        rw [heq] at ih
        obtain ⟨hinner, hinnerClosed, hinnerOpen, houter, houterClosed, houterOpen, hlevels⟩ := ih
        rw [readLevels_open hb heq]
        -- a block that is not closed leaves nothing around it
        have hempty : inner.closed = false → outer = ⟨.nil, false⟩ := fun h =>
          hinnerOpen h outer (by simp)
        refine ⟨⟨by rw [hbracket, hb], by rw [hbracket]; exact hinner,
          by rw [hbracket]; exact hinnerClosed, fun h => by rw [hempty h], houter⟩,
          fun h => ?_, houterOpen, hlevels⟩
        have hclosed : inner.closed = true := by
          by_contra hne
          rw [hempty (by simpa using hne)] at h
          simp at h
        exact ⟨hclosed, by rw [hbracket, hb], by rw [hbracket]; exact hinnerClosed hclosed,
          houterClosed h⟩
      · rw [readLevels_close hb]
        exact ⟨trivial, fun _ => trivial, by simp, ih outer⟩
      · obtain ⟨level, levels, heq⟩ := exists_readLevels pending ls
        have ih := ih pending
        rw [heq] at ih
        rw [readLevels_token hopen hclose heq]
        obtain ⟨hlevel, hclosed, hopen', hlevels⟩ := ih
        exact ⟨⟨hopen, hclose, hlevel⟩, fun h => ⟨hopen, hclose, hclosed h⟩, hopen', hlevels⟩

/-- **The blocks of a text are nested.** -/
theorem Forest.nested_ofText (cs : List Char) : (Forest.ofText cs).Nested none := by
  have h := levelsNested_readLevels [] (Sheet.lexemes cs)
  obtain ⟨level, levels, heq⟩ := exists_readLevels [] (Sheet.lexemes cs)
  rw [heq] at h
  rw [Forest.ofText, Forest.ofLexemes, heq]
  exact h.1

end StyleAudit.Sheet
