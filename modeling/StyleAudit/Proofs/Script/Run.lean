import Mathlib
import StyleAudit.Script.Parse

/-! # Running parsers

What the basic parsers do at a cursor, as rewrite rules: with them, a production runs by
simplification once the tokens it looks at are known.

* **`Cursor.setting_next`**, … — what moving the cursor leaves as it is.
* **`run_bind`**, **`run_ite`** — composed parsers.
* **`run_sees`**, **`run_take`**, **`run_need`**, … — tests and steps on the current token.
* **`run_within`** — a parser in a setting that is no other one.
* **`run_many_nil`**, **`run_fold_self`** — repetitions that end at once. -/

namespace StyleAudit.Script

variable {α β : Type} (c : Cursor)

/-! ## Moving the cursor -/

@[simp] theorem Cursor.setting_moveTo (cs : List Char) : (c.moveTo cs).setting = c.setting := by
  unfold moveTo
  split <;> rfl

@[simp] theorem Cursor.elements_moveTo (cs : List Char) : (c.moveTo cs).elements = c.elements := by
  unfold moveTo
  split <;> rfl

@[simp] theorem Cursor.setting_next : c.next.setting = c.setting := c.setting_moveTo c.after

@[simp] theorem Cursor.elements_next : c.next.elements = c.elements := c.elements_moveTo c.after

/-- Nothing is passed over before a character that is no blank and begins no comment. -/
theorem skipTrivia_of_visible {d : Char} {cs : List Char} (newline : Bool)
    (hend : isLineEnd d = false) (hgap : isGap d = false) (hslash : d ≠ '/') :
    skipTrivia .gap newline (d :: cs) = some (newline, d :: cs) := by
  simp [skipTrivia, hend, hgap, hslash]

/-! ## Composed parsers -/

@[simp] theorem run_pure (a : α) : (pure a : Parse α) c = some (a, c) := rfl

@[simp] theorem run_failure : (failure : Parse α) c = none := rfl

@[simp] theorem run_bind (p : Parse α) (f : α → Parse β) :
    (p >>= f) c = (p c).bind fun r => f r.1 r.2 := rfl

@[simp] theorem run_map (f : α → β) (p : Parse α) :
    (f <$> p) c = (p c).map fun r => (f r.1, r.2) := by
  rw [← bind_pure_comp, run_bind]
  cases p c <;> rfl

@[simp] theorem run_ite (b : Prop) [Decidable b] (p q : Parse α) :
    (if b then p else q) c = if b then p c else q c := by
  split <;> rfl

@[simp] theorem run_get : (get : Parse Cursor) c = some (c, c) := rfl

@[simp] theorem run_set (c' : Cursor) : (set c' : Parse PUnit) c = some ((), c') := rfl

@[simp] theorem run_modify (f : Cursor → Cursor) : (modify f : Parse PUnit) c = some ((), f c) :=
  rfl

/-! ## The current token -/

@[simp] theorem Token.isText_mark (m s : String) : (mark m).isText s = (m == s) := rfl

@[simp] theorem Token.isText_word (text s : String) : (word text false).isText s = (text == s) :=
  rfl

@[simp] theorem Token.isText_string (value s : String) : (string value).isText s = false := rfl

@[simp] theorem run_token : token c = some (c.token, c) := rfl

@[simp] theorem run_advance : advance c = some ((), c.next) := rfl

@[simp] theorem run_setting : setting c = some (c.setting, c) := rfl

@[simp] theorem run_afterNewline : afterNewline c = some (c.newline, c) := rfl

@[simp] theorem run_sees (s : String) : sees s c = some (c.token.isText s, c) := rfl

@[simp] theorem run_seesAny (ss : List String) : seesAny ss c = some (ss.any c.token.isText, c) :=
  rfl

@[simp] theorem run_take (s : String) :
    take s c = if c.token.isText s then some (true, c.next) else some (false, c) := by
  unfold take
  cases h : c.token.isText s <;> simp [h]

@[simp] theorem run_need (s : String) :
    need s c = if c.token.isText s then some ((), c.next) else none := by
  unfold need
  cases h : c.token.isText s <;> simp [h]

/-- A fault that does not occur changes nothing. -/
@[simp] theorem run_faultIf_false : faultIf false c = some ((), c) := rfl

/-- A test that is run without effect has a result. -/
@[simp] theorem run_ahead (p : Parse Bool) :
    ahead p c = some (((p c).map Prod.fst).getD false, c) := by
  unfold ahead
  cases p c <;> rfl

@[simp] theorem run_nextIs (p : Parse Bool) :
    nextIs p c = some (((p c.next).map Prod.fst).getD false, c) := by
  simp [nextIs]

variable {c} {c' : Cursor} {a : α}

/-- A parser that keeps the setting runs as it is in a setting that is no other one. -/
theorem run_within {change : Setting → Setting} {p : Parse α}
    (hchange : change c.setting = c.setting) (hp : p c = some (a, c'))
    (hkeep : c'.setting = c.setting) :
    within change p c = some (a, c') := by
  have hchanged : { c with setting := change c.setting } = c := by rw [hchange]
  have hkept : { c' with setting := c.setting } = c' := by rw [← hkeep]
  simp only [within, run_bind, run_setting, run_modify, Option.bind_some, hchanged, hp, hkept,
    run_pure]

/-! ## Repetition -/

/-- A repetition ends at once if there is nothing to repeat. -/
theorem run_many_nil {step : Parse (Option α)} (h : step c = some (none, c)) :
    Parse.many step c = some ([], c) := by
  simp only [Parse.many, run_bind, run_get, Option.bind_some, collect, h, run_pure]

/-- A repetition with one round. -/
theorem run_many_singleton {step : Parse (Option α)} (hfirst : step c = some (some a, c'))
    (hlast : step c' = some (none, c')) : Parse.many step c = some ([a], c') := by
  simp only [Parse.many, run_bind, run_get, Option.bind_some, collect, hfirst, hlast, run_pure]

/-- A list with one item ends after it. -/
theorem run_commaListTo_singleton {close : String} {item : Parse α}
    (hopen : c.token.isText close = false) (hitem : item c = some (a, c'))
    (hclose : c'.token.isText close = true) :
    commaListTo close item c = some ([a], c'.next) := by
  have hlist : commaList close item c = some (([a], false), c') := by
    simp [commaList, hopen, hitem, run_many_nil, hclose]
  simp [commaListTo, hlist, hclose]

/-- A value on which nothing is repeated stays as it is. -/
theorem run_fold_self {step : α → Parse (Option α)} (h : step a c = some (none, c)) :
    Parse.fold step a c = some (a, c) := by
  simp only [Parse.fold, run_bind, run_get, Option.bind_some, foldFrom, h, run_pure]

/-- A value on which one step is made. -/
theorem run_fold_step {step : α → Parse (Option α)} {b : α}
    (hfirst : step a c = some (some b, c')) (hlast : step b c' = some (none, c')) :
    Parse.fold step a c = some (b, c') := by
  simp only [Parse.fold, run_bind, run_get, Option.bind_some, foldFrom, hfirst, hlast, run_pure]

end StyleAudit.Script
