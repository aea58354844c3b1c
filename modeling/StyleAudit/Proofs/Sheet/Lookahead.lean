import Mathlib
import StyleAudit.Proofs.Sheet.Lexing

/-! # Reading does not depend on what comes later

A scanner looks past the characters that it takes, so a token may change when the text after it
changes. It does not when the text after it goes on, before and after the change, with a character
that no token is continued by. Two things can still differ: a backslash stands for itself only
before a line break, and the whitespace that ends a hexadecimal escape belongs to the escape.

* **`isStop c`** — `c` continues no token that could stand in a selector.
* **`Stops r`** — `r` begins with such a character, and so does what an escape leaves of it.
* **`Extends cs r n m`** — a scanner that takes `n` characters of `cs` takes `m` when `r` follows.
* **`SwapsName`**, **`SwapsString`**, **`SwapsUrl`** — what is scanned of a name, of a string and of
  an address does not depend on what follows.
* **`Lexeme.Reads.swap`** — a lexeme is read whichever text follows, up to the end of an escape. -/

namespace StyleAudit.Sheet

/-! ## Characters that continue no token -/

/-- The characters that continue no token that could stand in a selector. -/
def isStop (c : Char) : Bool :=
  isSpace c || c == ',' || c == ';' || c == '{' || c == '}' || c == '/'

/-- The text begins with a character that continues no token. -/
def Stop (r : List Char) : Prop := ∃ c cs, r = c :: cs ∧ isStop c = true

/-- The text begins with a character that continues no token, and so does what the end of an
escape leaves of it. -/
def Stops (r : List Char) : Prop := Stop r ∧ Stop (r.drop (escapeTail r))

/-- The characters that continue no token, one by one. -/
theorem isStop_iff {c : Char} :
    isStop c = true ↔ c ∈ [' ', '\t', '\n', '\r', '\x0c', ',', ';', '{', '}', '/'] := by
  simp [isStop, isSpace, isNewline, or_assoc]

/-- What a character that continues no token is not. -/
theorem isStop_facts {c : Char} (h : isStop c = true) :
    c.isDigit = false ∧ isNameStart c = false ∧ isNamePart c = false ∧
      Text.hexDigit? c = none ∧
      c ∉ ['\x00', '\\', '-', '+', '.', '%', '=', '(', '!', '*', '>', 'e', 'E', '"', '\''] := by
  rw [isStop_iff] at h
  simp only [List.mem_cons, List.not_mem_nil, or_false] at h
  rcases h with rfl | rfl | rfl | rfl | rfl | rfl | rfl | rfl | rfl | rfl <;> decide

variable {cs r r' : List Char}

/-! ## Numbers -/

/-- No digit is ahead of a text that begins with a stop. -/
theorem digitAhead_append (hr : Stop r) (cs : List Char) :
    digitAhead (cs ++ r) = digitAhead cs := by
  obtain ⟨c, rest, rfl, hc⟩ := hr
  cases cs with
  | nil => simp [digitAhead, (isStop_facts hc).1]
  | cons d cs => rfl

/-- A stop begins no unsigned number and does not complete one. -/
theorem unsignedAhead_append (hr : Stop r) (cs : List Char) :
    unsignedAhead (cs ++ r) = unsignedAhead cs := by
  have hahead := digitAhead_append hr
  by_cases hpoint : ∃ rest, cs = '.' :: rest
  · obtain ⟨rest, rfl⟩ := hpoint
    exact hahead rest
  · have hpoint' : ∀ rest, cs ++ r ≠ '.' :: rest := by
      intro rest heq
      cases cs with
      | nil =>
          obtain ⟨c, cs, rfl, hc⟩ := hr
          obtain ⟨rfl, -⟩ := List.cons.inj heq
          exact absurd hc (by decide)
      | cons d cs => exact hpoint ⟨cs, by rw [(List.cons.inj heq).1]⟩
    have hpoint : ∀ rest, cs ≠ '.' :: rest := fun rest heq => hpoint ⟨rest, heq⟩
    rw [unsignedAhead.eq_2 _ hpoint', unsignedAhead.eq_2 _ hpoint]
    exact hahead cs

/-- A stop adds no digit. -/
theorem digits_append (hr : Stop r) (cs : List Char) : digits (cs ++ r) = digits cs := by
  obtain ⟨c, rest, rfl, hc⟩ := hr
  have hnil : (c :: rest).takeWhile Char.isDigit = [] := by simp [(isStop_facts hc).1]
  rw [digits, digits, List.takeWhile_append]
  split
  · rename_i hall
    rw [hnil, List.append_nil]
    congr 1
    exact ((List.takeWhile_prefix _).eq_of_length hall).symm
  · rfl

/-- There are no more digits than characters. -/
theorem length_digits_le (cs : List Char) : (digits cs).length ≤ cs.length := by
  rw [digits, List.length_map]
  exact (List.takeWhile_sublist _).length_le

/-- A stop neither begins a fraction nor continues one. -/
theorem scanFraction_append (hr : Stop r) (cs : List Char) :
    scanFraction (cs ++ r) = scanFraction cs := by
  have hahead := digitAhead_append hr
  have hdigits := digits_append hr
  have hother : ∀ c rest, c ≠ '.' → scanFraction (c :: rest) = ([], 0) := by
    intro c rest hc
    rw [scanFraction.eq_2]
    rintro cs heq
    exact hc (List.cons.inj heq).1
  cases cs with
  | nil =>
      obtain ⟨c, rest, rfl, hc⟩ := hr
      exact hother c rest (by rintro rfl; exact absurd hc (by decide))
  | cons d cs =>
      by_cases hd : d = '.'
      · rw [hd, List.cons_append, scanFraction, scanFraction, hahead, hdigits]
      · rw [List.cons_append, hother d _ hd, hother d _ hd]

/-- A stop neither begins an exponent nor continues one. -/
theorem scanExponent_append (hr : Stop r) (cs : List Char) :
    scanExponent (cs ++ r) = scanExponent cs := by
  have hahead := digitAhead_append hr
  have hdigits := digits_append hr
  cases cs with
  | nil =>
      obtain ⟨c, rest, rfl, hc⟩ := hr
      have hne : ¬ (c = 'e' ∨ c = 'E') := by
        rintro (rfl | rfl) <;> exact absurd hc (by decide)
      simp [scanExponent, hne]
  | cons e cs =>
      simp only [List.cons_append, scanExponent.eq_def]
      by_cases he : (decide (e = 'e') || decide (e = 'E')) = true
      · rw [if_pos he, if_pos he]
        cases cs with
        | nil =>
            -- a stop is no sign, and no digit
            obtain ⟨c, rest, rfl, hc⟩ := hr
            rw [List.nil_append]
            split
            · rename_i heq
              obtain ⟨rfl, -⟩ := List.cons.inj heq
              exact absurd hc (by decide)
            · rename_i heq
              obtain ⟨rfl, -⟩ := List.cons.inj heq
              exact absurd hc (by decide)
            · simp [digitAhead, (isStop_facts hc).1]
        | cons d cs =>
            by_cases hplus : d = '+'
            · simp only [hplus, List.cons_append, hahead, hdigits]
            · by_cases hminus : d = '-'
              · simp only [hminus, List.cons_append, hahead, hdigits]
              · have hdigit := hahead (d :: cs)
                have hds := hdigits (d :: cs)
                rw [List.cons_append] at hdigit hds
                simp [hplus, hminus, hdigit, hds]
      · rw [if_neg he, if_neg he]

/-- A fraction has no more characters than there are. -/
theorem scanFraction_le (cs : List Char) : (scanFraction cs).2 ≤ cs.length := by
  unfold scanFraction
  split
  · rename_i rest
    have := length_digits_le rest
    split
    · simp only [List.length_cons]
      omega
    · simp
  · simp

/-- An exponent has no more characters than there are. -/
theorem scanExponent_le (cs : List Char) : (scanExponent cs).2 ≤ cs.length := by
  unfold scanExponent
  split
  · rename_i e rest
    split
    · split
      · rename_i ds
        have := length_digits_le ds
        split
        · simp only [List.length_cons]
          omega
        · simp
      · rename_i ds
        have := length_digits_le ds
        split
        · simp only [List.length_cons]
          omega
        · simp
      · have := length_digits_le rest
        split
        · simp only [List.length_cons]
          omega
        · simp
    · simp
  · simp

/-- No stop makes a matcher of a delimiter. -/
theorem matcherOr_append (hr : Stop r) (c : Char) (cs : List Char) :
    matcherOr c (cs ++ r) = matcherOr c cs := by
  cases cs with
  | nil =>
      obtain ⟨d, rest, rfl, hd⟩ := hr
      rw [List.nil_append, matcherOr.eq_2]
      · rfl
      · rintro rest heq
        obtain ⟨rfl, -⟩ := List.cons.inj heq
        exact absurd hd (by decide)
  | cons d cs =>
      by_cases hd : d = '='
      · rw [hd]
        rfl
      · rw [List.cons_append, matcherOr.eq_2, matcherOr.eq_2]
        · rintro rest heq
          exact hd (List.cons.inj heq).1
        · rintro rest heq
          exact hd (List.cons.inj heq).1

/-! ## Escapes -/

/-- A scanner that takes `n` characters of `cs` takes `m` when `r` follows: as many, or, if it takes
all of `cs`, also the whitespace in `r` that ends an escape. -/
def Extends (cs r : List Char) (n m : Nat) : Prop := m = n ∨ (n = cs.length ∧ m = n + escapeTail r)

/-- Cons reading of `newlineSize`. -/
theorem newlineSize_cons (c : Char) (cs : List Char) :
    newlineSize (c :: cs) =
      if c = '\r' ∧ cs.head? = some '\n' then 2 else if isNewline c then 1 else 0 := by
  unfold newlineSize
  split
  · rename_i rest heq
    obtain ⟨rfl, rfl⟩ := List.cons.inj heq
    rfl
  · rename_i d rest hne heq
    obtain ⟨rfl, rfl⟩ := List.cons.inj heq
    have hapart : ¬ (c = '\r' ∧ cs.head? = some '\n') := by
      rintro ⟨hc, hhead⟩
      obtain ⟨tail, htail⟩ := List.head?_eq_some_iff.1 hhead
      exact hne tail hc htail
    rw [if_neg hapart]
  · simp_all

/-- Cons reading of `escapeTail`. -/
theorem escapeTail_cons (c : Char) (cs : List Char) :
    escapeTail (c :: cs) = if c = ' ' ∨ c = '\t' then 1 else newlineSize (c :: cs) := by
  by_cases hc : c = ' ' ∨ c = '\t'
  · rw [if_pos hc]
    rcases hc with rfl | rfl <;> rfl
  · rw [if_neg hc, escapeTail.eq_3]
    · rintro rest heq
      exact hc (.inl (List.cons.inj heq).1)
    · rintro rest heq
      exact hc (.inr (List.cons.inj heq).1)

/-- A line break that ends before the end of `cs` does not depend on what follows. -/
theorem newlineSize_swap (h : newlineSize (cs ++ r) < cs.length) (r' : List Char) :
    newlineSize (cs ++ r') = newlineSize (cs ++ r) := by
  match cs with
  | [] => simp at h
  | [c] =>
      -- the line break is empty, so `c` begins none
      simp only [List.singleton_append, newlineSize_cons, List.length_singleton] at h ⊢
      have hc : isNewline c = false := by
        by_contra hc
        rw [Bool.not_eq_false] at hc
        rw [if_pos hc] at h
        split at h <;> omega
      have hne : c ≠ '\r' := by
        rintro rfl
        exact absurd hc (by decide)
      simp [hne]
  | c :: d :: cs => simp [newlineSize_cons]

/-- The whitespace that ends an escape depends on what follows only where that goes on with it. -/
theorem escapeTail_swap (h : escapeTail (cs ++ r) ≤ cs.length) (r' : List Char) :
    Extends cs r' (escapeTail (cs ++ r)) (escapeTail (cs ++ r')) := by
  match cs with
  | [] => exact .inr ⟨by simpa using h, by simp_all⟩
  | [c] =>
      simp only [List.singleton_append, escapeTail_cons, newlineSize_cons,
        List.length_singleton] at h ⊢
      by_cases hspace : c = ' ' ∨ c = '\t'
      · exact .inl (by rw [if_pos hspace, if_pos hspace])
      · rw [if_neg hspace] at h ⊢
        rw [if_neg hspace]
        by_cases hcr : c = '\r'
        · -- the second half of a line break may follow
          have hne : ¬ r.head? = some '\n' := by
            intro hhead
            rw [if_pos ⟨hcr, hhead⟩] at h
            omega
          subst hcr
          rw [if_neg fun h => hne h.2, if_pos (by decide)]
          by_cases hhead : r'.head? = some '\n'
          · refine .inr ⟨rfl, ?_⟩
            obtain ⟨rest, rfl⟩ : ∃ rest, r' = '\n' :: rest := List.head?_eq_some_iff.1 hhead
            rw [if_pos ⟨rfl, hhead⟩]
            rfl
          · exact .inl (by rw [if_neg fun h => hhead h.2])
        · exact .inl (by simp [hcr])
  | c :: d :: cs => exact .inl (by simp [escapeTail_cons, newlineSize_cons])

/-- No stop is a hexadecimal digit. -/
theorem scanHex_append (hr : Stop r) (n acc : Nat) (cs : List Char) :
    scanHex n acc (cs ++ r) = scanHex n acc cs := by
  induction cs generalizing n acc with
  | nil =>
      obtain ⟨c, rest, rfl, hc⟩ := hr
      cases n with
      | zero => simp [scanHex]
      | succ n => simp [scanHex, (isStop_facts hc).2.2.2.1]
  | cons c cs ih =>
      cases n with
      | zero => simp [scanHex]
      | succ n =>
          rw [List.cons_append, scanHex, scanHex]
          cases Text.hexDigit? c with
          | none => rfl
          | some d => simp only [ih]

/-- There are no more hexadecimal digits than characters. -/
theorem scanHex_le (n acc : Nat) (cs : List Char) : (scanHex n acc cs).2 ≤ cs.length := by
  induction cs generalizing n acc with
  | nil => cases n <;> simp [scanHex]
  | cons c cs ih =>
      cases n with
      | zero => simp [scanHex]
      | succ n =>
          rw [scanHex]
          cases Text.hexDigit? c with
          | none => simp
          | some d => exact Nat.succ_le_succ (ih n _)

/-- An escape takes a character. -/
theorem scanEscape_pos (c : Char) (cs : List Char) : 0 < (scanEscape (c :: cs)).2 := by
  rw [scanEscape]
  by_cases hhex : (Text.hexDigit? c).isSome = true
  · rw [if_pos hhex]
    obtain ⟨d, hd⟩ := Option.isSome_iff_exists.1 hhex
    have hone : 0 < (scanHex 6 0 (c :: cs)).2 := by simp [scanHex, hd]
    simp only
    omega
  · rw [if_neg hhex]
    split <;> simp

/-- A stop has characters. -/
theorem Stop.length_pos (hr : Stop r) : 0 < r.length := by
  obtain ⟨c, cs, rfl, -⟩ := hr
  simp

/-- **An escape** means the same whatever follows, up to the whitespace that ends it. -/
theorem scanEscape_swap (hr : Stop r) (hr' : Stop r')
    (h : (scanEscape (cs ++ r)).2 ≤ cs.length) :
    (scanEscape (cs ++ r')).1 = (scanEscape (cs ++ r)).1 ∧
      Extends cs r' (scanEscape (cs ++ r)).2 (scanEscape (cs ++ r')).2 := by
  cases cs with
  | nil =>
      obtain ⟨c, rest, rfl, -⟩ := hr
      have := scanEscape_pos c rest
      simp only [List.nil_append, List.length_nil] at h
      omega
  | cons c cs =>
      rw [List.cons_append] at h
      rw [List.cons_append, List.cons_append, scanEscape, scanEscape]
      rw [scanEscape] at h
      by_cases hhex : (Text.hexDigit? c).isSome = true
      · rw [if_pos hhex] at h ⊢
        rw [if_pos hhex]
        simp only [← List.cons_append, scanHex_append hr, scanHex_append hr'] at h ⊢
        -- the digits lie in `cs`, and the whitespace after them may go on
        have hle := scanHex_le 6 0 (c :: cs)
        generalize scanHex 6 0 (c :: cs) = digits at h hle ⊢
        obtain ⟨v, k⟩ := digits
        simp only [List.drop_append_of_le_length hle] at h ⊢
        have hlen : ((c :: cs).drop k).length = (c :: cs).length - k := List.length_drop
        rcases escapeTail_swap (show escapeTail ((c :: cs).drop k ++ r) ≤ _ by omega) r'
          with heq | ⟨hall, heq⟩
        · exact ⟨trivial, .inl (by rw [heq])⟩
        · exact ⟨trivial, .inr ⟨by omega, by omega⟩⟩
      · rw [if_neg hhex, if_neg hhex]
        split
        · exact ⟨rfl, .inl rfl⟩
        · exact ⟨rfl, .inl rfl⟩

/-! ## Names -/

/-- Passing over characters of a name is dropping them. -/
theorem scanNameFrom_eq_drop (skip : Nat) (cs : List Char) :
    scanNameFrom skip cs =
      ((scanName (cs.drop skip)).1, (scanName (cs.drop skip)).2 + min skip cs.length) := by
  induction cs generalizing skip with
  | nil => cases skip <;> simp [scanName, scanNameFrom]
  | cons c cs ih =>
      cases skip with
      | zero => simp [scanName]
      | succ n =>
          rw [scanNameFrom, ih, List.drop_succ_cons, List.length_cons, Nat.succ_min_succ]
          rfl

/-- Cons reading of `scanName`. -/
theorem scanName_cons (c : Char) (cs : List Char) :
    scanName (c :: cs) =
      if isNamePart c then (c :: (scanName cs).1, (scanName cs).2 + 1)
      else if c = '\x00' then (replacement :: (scanName cs).1, (scanName cs).2 + 1)
      else if c = '\\' && !newlineAhead cs then
        ((scanEscape cs).1 :: (scanName (cs.drop (scanEscape cs).2)).1,
          (scanName (cs.drop (scanEscape cs).2)).2 + min (scanEscape cs).2 cs.length + 1)
      else ([], 0) := by
  rw [scanName, scanNameFrom]
  simp only [scanNameFrom_eq_drop _ cs, List.drop_zero, Nat.zero_min, Nat.add_zero]

/-- No name begins with a stop. -/
theorem scanName_of_stop (hr : Stop r) : scanName r = ([], 0) := by
  obtain ⟨c, cs, rfl, hc⟩ := hr
  obtain ⟨-, -, hpart, -, hnot⟩ := isStop_facts hc
  simp only [List.mem_cons, not_or] at hnot
  simp [scanName_cons, hpart, hnot.1, hnot.2.1]

/-- A line break ahead does not depend on what follows a character. -/
theorem newlineAhead_append {c : Char} (cs r : List Char) :
    newlineAhead (c :: cs ++ r) = newlineAhead (c :: cs) := rfl

/-- A name is the same before `r'` as before `r`, up to the whitespace that ends an escape, unless a
backslash stands for itself before what follows. -/
def SwapsName (r r' cs : List Char) : Prop :=
  (scanName (cs ++ r)).2 ≤ cs.length →
    (cs.drop (scanName (cs ++ r)).2 = ['\\'] → newlineAhead r = newlineAhead r') →
    (scanName (cs ++ r')).1 = (scanName (cs ++ r)).1 ∧
      Extends cs r' (scanName (cs ++ r)).2 (scanName (cs ++ r')).2

/-- A name that begins with an escape goes on with the name after it. -/
theorem swapsName_escape (hr : Stop r) (hr' : Stops r') {d : Char}
    (hline : newlineAhead (d :: cs) = false) (ih : ∀ k, SwapsName r r' ((d :: cs).drop k)) :
    SwapsName r r' ('\\' :: d :: cs) := by
  intro h hlone
  have hscan : ∀ x : List Char, scanName ('\\' :: d :: cs ++ x) =
      ((scanEscape (d :: cs ++ x)).1 ::
          (scanName ((d :: cs ++ x).drop (scanEscape (d :: cs ++ x)).2)).1,
        (scanName ((d :: cs ++ x).drop (scanEscape (d :: cs ++ x)).2)).2 +
          min (scanEscape (d :: cs ++ x)).2 (d :: cs ++ x).length + 1) := by
    intro x
    rw [List.cons_append, scanName_cons, newlineAhead_append, hline]
    rfl
  rw [hscan] at h hlone ⊢
  rw [hscan]
  have hpos := hr.length_pos
  have hescape : (scanEscape (d :: cs ++ r)).2 ≤ (d :: cs).length := by
    simp only [List.length_append, List.length_cons] at h ⊢
    omega
  obtain ⟨hchar, hext⟩ := scanEscape_swap hr hr'.1 hescape
  rw [hchar]
  generalize (scanEscape (d :: cs ++ r)).2 = m at h hlone hescape hext ⊢
  generalize (scanEscape (d :: cs ++ r')).2 = m' at hext ⊢
  rcases hext with rfl | ⟨rfl, rfl⟩
  · -- the name goes on after the escape
    have hmin : ∀ x : List Char, min m' (d :: cs ++ x).length = m' := by
      intro x
      rw [List.length_append]
      omega
    have hlen : ((d :: cs).drop m').length = (d :: cs).length - m' := List.length_drop
    have hcons : ('\\' :: d :: cs).length = (d :: cs).length + 1 := rfl
    simp only [hmin, List.drop_append_of_le_length hescape, List.drop_succ_cons] at h hlone ⊢
    rw [Nat.add_comm _ m', ← List.drop_drop] at hlone
    obtain ⟨hvalue, hext⟩ := ih m' (by omega) hlone
    refine ⟨by rw [hvalue], hext.imp (by omega) fun hext => ?_⟩
    omega
  · -- the escape ends the name, and takes whitespace with it
    have htail := hr'.2.length_pos
    have hdrop : (d :: cs ++ r').drop ((d :: cs).length + escapeTail r') =
        r'.drop (escapeTail r') := by
      rw [← List.drop_drop, List.drop_left]
    rw [hdrop, List.drop_left, scanName_of_stop hr, scanName_of_stop hr'.2]
    refine ⟨rfl, .inr ⟨?_, ?_⟩⟩ <;>
      simp only [List.length_drop, List.length_append, List.length_cons] at * <;> omega

/-- A backslash at the end of a name stands for itself, or it takes what follows. -/
theorem swapsName_backslash (hr : Stop r) : SwapsName r r' ['\\'] := by
  intro h hlone
  have hscan : ∀ x : List Char, newlineAhead x = true → scanName (['\\'] ++ x) = ([], 0) := by
    intro x hx
    rw [List.singleton_append, scanName_cons, hx]
    rfl
  cases hline : newlineAhead r with
  | true =>
      rw [hscan r hline] at hlone ⊢
      rw [hscan r' (by rw [← hlone rfl, hline])]
      exact ⟨rfl, .inl rfl⟩
  | false =>
      obtain ⟨d, rest, rfl, -⟩ := hr
      have := scanEscape_pos d rest
      rw [List.singleton_append, scanName_cons, hline, if_neg (by decide), if_neg (by decide),
        if_pos (by decide)] at h
      simp only [List.length_cons, List.length_nil] at h
      omega

/-- A name that begins with a character of its own goes on with the name after it. -/
theorem swapsName_cons {c d : Char} (ih : SwapsName r r' cs)
    (hscan : ∀ x : List Char, scanName (c :: cs ++ x) =
      (d :: (scanName (cs ++ x)).1, (scanName (cs ++ x)).2 + 1)) : SwapsName r r' (c :: cs) := by
  intro h hlone
  rw [hscan] at h hlone ⊢
  rw [hscan]
  obtain ⟨hvalue, hext⟩ := ih (by simpa using h) hlone
  refine ⟨by rw [hvalue], hext.imp (by omega) fun hext => ?_⟩
  rw [List.length_cons]
  omega

/-- **A name** is the same whatever follows, up to the whitespace that ends an escape, unless a
backslash stands for itself before what follows. -/
theorem scanName_swap (hr : Stop r) (hr' : Stops r') : SwapsName r r' cs := by
  induction hn : cs.length using Nat.strong_induction_on generalizing cs with
  | _ n ih =>
      cases cs with
      | nil =>
          intro _ _
          rw [List.nil_append, List.nil_append, scanName_of_stop hr, scanName_of_stop hr'.1]
          exact ⟨rfl, .inl rfl⟩
      | cons c cs =>
          have hrest : ∀ k, SwapsName r r' (cs.drop k) := fun k =>
            ih (cs.drop k).length (by rw [← hn, List.length_drop, List.length_cons]; omega) rfl
          by_cases hpart : isNamePart c = true
          · exact swapsName_cons (d := c) (hrest 0) fun x => by
              rw [List.cons_append, scanName_cons, if_pos hpart]
          · by_cases hnull : c = '\x00'
            · -- a null is read as the replacement character
              exact swapsName_cons (d := replacement) (hrest 0) fun x => by
                rw [List.cons_append, scanName_cons, if_neg hpart, if_pos hnull]
            · by_cases hback : c = '\\'
              · subst hback
                cases cs with
                | nil => exact swapsName_backslash hr
                | cons d cs =>
                    cases hline : newlineAhead (d :: cs) with
                    | false => exact swapsName_escape hr hr' hline hrest
                    | true =>
                        -- a backslash before a newline ends the name
                        have hscan : ∀ x, scanName ('\\' :: d :: cs ++ x) = ([], 0) := by
                          intro x
                          rw [List.cons_append, scanName_cons, newlineAhead_append, hline]
                          rfl
                        intro _ _
                        rw [hscan, hscan]
                        exact ⟨rfl, .inl rfl⟩
              · -- and so does any other character
                have hscan : ∀ x, scanName (c :: cs ++ x) = ([], 0) := by
                  intro x
                  rw [List.cons_append, scanName_cons]
                  simp [hpart, hnull, hback]
                intro _ _
                rw [hscan, hscan]
                exact ⟨rfl, .inl rfl⟩

/-- A stop neither begins an identifier nor completes the start of one, unless a backslash comes
right before it. -/
theorem identAhead_append (hr : Stop r) (h : cs ≠ ['\\']) :
    identAhead (cs ++ r) = identAhead cs := by
  obtain ⟨d, rest, rfl, hd⟩ := hr
  obtain ⟨-, hstart, -, -, hnot⟩ := isStop_facts hd
  simp only [List.mem_cons, not_or] at hnot
  obtain ⟨-, hback, hhyphen, -⟩ := hnot
  match cs, h with
  | [], _ => simp [identAhead, hhyphen, hstart]
  | [c], h =>
      have hc : c ≠ '\\' := fun heq => h (by rw [heq])
      by_cases hminus : c = '-'
      · simp [identAhead, hminus, hstart, hback, hhyphen]
      · simp [identAhead, hminus]
  | c :: e :: cs, _ =>
      by_cases hminus : c = '-'
      · simp [identAhead, hminus]
      · by_cases hc : c = '\\'
        · simp [identAhead, hc, newlineAhead]
        · simp [identAhead, hminus]

/-- A backslash that no line break follows takes what follows. -/
theorem one_lt_scanName (hr : Stop r) (h : newlineAhead r = false) :
    1 < (scanName ('\\' :: r)).2 := by
  obtain ⟨d, rest, rfl, -⟩ := hr
  have := scanEscape_pos d rest
  have hpart : isNamePart '\\' = false := by decide
  simp [scanName_cons, hpart, h]
  omega

/-- Whether an identifier is ahead does not depend on what follows, if a backslash at the end has a
line break after it in either case. -/
theorem identAhead_swap (hr : Stop r) (hr' : Stop r')
    (h : cs = ['\\'] → newlineAhead r = newlineAhead r') :
    identAhead (cs ++ r') = identAhead (cs ++ r) := by
  by_cases hback : cs = ['\\']
  · simp [hback, identAhead, h hback]
  · rw [identAhead_append hr' hback, identAhead_append hr hback]

/-- Whether a name is read does not depend on what follows, if it is read in `cs`: a backslash at the
end does not take what follows, so it stands for itself. -/
theorem identAhead_swap_of_le (hr : Stop r) (hr' : Stop r')
    (hle : identAhead (cs ++ r) = true → (scanName (cs ++ r)).2 ≤ cs.length)
    (hlone : identAhead (cs ++ r) = false → cs = ['\\'] → newlineAhead r = newlineAhead r') :
    identAhead (cs ++ r') = identAhead (cs ++ r) := by
  refine identAhead_swap hr hr' ?_
  rintro rfl
  cases hline : newlineAhead r with
  | true => rw [← hlone (by simp [identAhead, hline]) rfl, hline]
  | false =>
      have hone := one_lt_scanName hr hline
      have hname := hle (by simp [identAhead, hline])
      simp only [List.singleton_append, List.length_singleton] at hname
      omega

/-! ## Numbers with units -/

/-- The number that a text begins with, and its size without a unit. -/
def numeralOf (cs : List Char) : Numeral × Nat :=
  let sign := cs.head?.filter (fun c => c == '+' || c == '-')
  let signSize := sign.elim 0 fun _ => 1
  let afterSign := cs.drop signSize
  let whole := digits afterSign
  let afterWhole := afterSign.drop whole.length
  let fraction := scanFraction afterWhole
  let exponent := scanExponent (afterWhole.drop fraction.2)
  (⟨sign, whole, fraction.1, exponent.1⟩, signSize + whole.length + fraction.2 + exponent.2)

/-- The unit or percent sign that follows a number of the given size. -/
def scanUnit (value : Numeral) (size : Nat) (rest : List Char) : Token × Nat :=
  if rest.head? = some '%' then (.percentage value, size + 1)
  else if identAhead rest then
    (.dimension value (scanName rest).1, size + (scanName rest).2)
  else (.number value, size)

/-- A number is read, and then its unit. -/
theorem scanNumeric_eq (cs : List Char) :
    scanNumeric cs =
      scanUnit (numeralOf cs).1 (numeralOf cs).2 (cs.drop (numeralOf cs).2) := by
  simp only [scanNumeric, numeralOf, ← List.drop_drop, scanUnit]
  generalize List.drop _ (List.drop _ (List.drop _ (List.drop _ cs))) = rest
  split
  · rfl
  · rename_i hne
    have hhead : rest.head? ≠ some '%' := by
      intro hhead
      obtain ⟨tail, htail⟩ := List.head?_eq_some_iff.1 hhead
      exact hne tail htail
    rw [if_neg hhead]

/-- The number does not depend on a stop after it. -/
theorem numeralOf_append (hr : Stop r) (cs : List Char) :
    numeralOf (cs ++ r) = numeralOf cs ∧ (numeralOf cs).2 ≤ cs.length := by
  have hsign : (cs ++ r).head?.filter (fun c => c == '+' || c == '-') =
      cs.head?.filter fun c => c == '+' || c == '-' := by
    cases cs with
    | nil =>
        obtain ⟨d, rest, rfl, hd⟩ := hr
        have hd' := (isStop_facts hd).2.2.2.2
        simp only [List.mem_cons, not_or] at hd'
        simp [hd'.2.2.1, hd'.2.2.2.1]
    | cons c cs => rfl
  have hle : (cs.head?.filter fun c => c == '+' || c == '-').elim 0 (fun _ => 1) ≤ cs.length := by
    cases cs with
    | nil => simp
    | cons c cs => cases (Option.filter _ _) <;> simp
  -- after the sign, each scan stops in `cs` and leaves the rest of it to the next one
  simp only [numeralOf, hsign]
  generalize (cs.head?.filter fun c => c == '+' || c == '-') = sign at hle ⊢
  generalize sign.elim 0 (fun _ => 1) = k at hle ⊢
  have hwhole := length_digits_le (cs.drop k)
  have hfraction := scanFraction_le ((cs.drop k).drop (digits (cs.drop k)).length)
  rw [List.drop_append_of_le_length hle, digits_append hr, List.drop_append_of_le_length hwhole,
    scanFraction_append hr, List.drop_append_of_le_length hfraction, scanExponent_append hr]
  have hexponent := scanExponent_le (((cs.drop k).drop (digits (cs.drop k)).length).drop
    (scanFraction ((cs.drop k).drop (digits (cs.drop k)).length)).2)
  refine ⟨rfl, ?_⟩
  simp only [List.length_drop] at hwhole hfraction hexponent ⊢
  omega

/-- What begins a text that is not empty begins it whatever follows. -/
theorem head?_append (hr : Stop r) {c : Char} (hc : isStop c = false) (cs : List Char) :
    (cs ++ r).head? = some c ↔ cs.head? = some c := by
  cases cs with
  | nil =>
      obtain ⟨d, rest, rfl, hd⟩ := hr
      simp only [List.nil_append, List.head?_cons, Option.some.injEq, List.head?_nil,
        reduceCtorEq, iff_false]
      rintro rfl
      rw [hd] at hc
      exact absurd hc (by decide)
  | cons d cs => simp

/-- **A number with its unit** is the same whatever follows, up to the whitespace that ends an
escape. -/
theorem scanNumeric_swap (hr : Stop r) (hr' : Stops r')
    (h : (scanNumeric (cs ++ r)).2 ≤ cs.length)
    (hlone : cs.drop (scanNumeric (cs ++ r)).2 = ['\\'] → newlineAhead r = newlineAhead r') :
    (scanNumeric (cs ++ r')).1 = (scanNumeric (cs ++ r)).1 ∧
      Extends cs r' (scanNumeric (cs ++ r)).2 (scanNumeric (cs ++ r')).2 := by
  obtain ⟨hnumeral, hle⟩ := numeralOf_append hr cs
  obtain ⟨hnumeral', -⟩ := numeralOf_append hr'.1 cs
  have hread := scanNumeric_eq (cs ++ r)
  have hread' := scanNumeric_eq (cs ++ r')
  rw [hnumeral, List.drop_append_of_le_length hle] at hread
  rw [hnumeral', List.drop_append_of_le_length hle] at hread'
  rw [hread] at h hlone ⊢
  rw [hread']
  generalize numeralOf cs = numeral at h hlone hle ⊢
  obtain ⟨value, size⟩ := numeral
  have hlen : (cs.drop size).length = cs.length - size := List.length_drop
  have hhead := head?_append hr (show isStop '%' = false by decide) (cs.drop size)
  have hhead' := head?_append hr'.1 (show isStop '%' = false by decide) (cs.drop size)
  simp only [scanUnit, hhead, hhead'] at h hlone ⊢
  by_cases hpercent : (cs.drop size).head? = some '%'
  · -- a percentage, a unit that is read like a name, or no unit
    rw [if_pos hpercent, if_pos hpercent]
    exact ⟨rfl, .inl rfl⟩
  · rw [if_neg hpercent] at h hlone ⊢
    rw [if_neg hpercent]
    have hahead : identAhead (cs.drop size ++ r') = identAhead (cs.drop size ++ r) :=
      identAhead_swap_of_le hr hr'.1 (fun hread => by rw [if_pos hread] at h; simp only at h; omega)
        fun hread hback => hlone (by rw [hread]; exact hback)
    rw [hahead]
    by_cases hread : identAhead (cs.drop size ++ r) = true
    · simp only [if_pos hread] at h hlone ⊢
      rw [← List.drop_drop] at hlone
      obtain ⟨hvalue, hext⟩ := scanName_swap hr hr' (by omega) hlone
      refine ⟨by rw [hvalue], hext.imp (by omega) fun hext => ?_⟩
      omega
    · rw [if_neg hread, if_neg hread]
      exact ⟨rfl, .inl rfl⟩

/-! ## Strings, comments and addresses

These have an end of their own. One that ends in `cs` is the same whatever follows. -/

/-- Passing over characters of a string is dropping them. -/
theorem scanStringFrom_eq_drop (quote : Char) (skip : Nat) (cs : List Char) :
    scanStringFrom quote skip cs =
      ((scanStringFrom quote 0 (cs.drop skip)).1,
        (scanStringFrom quote 0 (cs.drop skip)).2 + min skip cs.length) := by
  induction cs generalizing skip with
  | nil => cases skip <;> simp [scanStringFrom]
  | cons c cs ih =>
      cases skip with
      | zero => simp
      | succ n =>
          rw [scanStringFrom, ih, List.drop_succ_cons, List.length_cons, Nat.succ_min_succ]
          rfl

/-- What a backslash in a string stands for, if anything, and how many characters it takes. -/
def scanBackslash (cs : List Char) : Option Char × Nat :=
  if newlineAhead cs then (none, newlineSize cs) else (some (scanEscape cs).1, (scanEscape cs).2)

/-- What a backslash takes before the end of `cs` does not depend on what follows. -/
theorem scanBackslash_swap (hr : Stop r) (hr' : Stop r')
    (h : (scanBackslash (cs ++ r)).2 < cs.length) :
    scanBackslash (cs ++ r') = scanBackslash (cs ++ r) := by
  cases cs with
  | nil => simp at h
  | cons c cs =>
      rw [scanBackslash, newlineAhead_append] at h ⊢
      rw [scanBackslash, newlineAhead_append]
      cases hline : newlineAhead (c :: cs) with
      | true =>
          rw [hline, if_pos rfl] at h
          rw [if_pos rfl, if_pos rfl, newlineSize_swap h]
      | false =>
          rw [hline] at h
          simp only [Bool.false_eq_true, if_false] at h ⊢
          obtain ⟨hchar, hext⟩ := scanEscape_swap hr hr' h.le
          rw [hchar, hext.resolve_right (by omega)]

/-- Cons reading of `scanStringFrom`. -/
theorem scanString_cons (quote c : Char) (cs : List Char) :
    scanStringFrom quote 0 (c :: cs) =
      if c = quote then (some [], 1)
      else if isNewline c then (none, 0)
      else if c = '\\' then
        if cs.isEmpty then (some [], 1)
        else
          ((scanStringFrom quote 0 (cs.drop (scanBackslash cs).2)).1.map
            ((scanBackslash cs).1.toList ++ ·),
            (scanStringFrom quote 0 (cs.drop (scanBackslash cs).2)).2 +
              min (scanBackslash cs).2 cs.length + 1)
      else
        ((scanStringFrom quote 0 cs).1.map ((if c = '\x00' then replacement else c) :: ·),
          (scanStringFrom quote 0 cs).2 + 1) := by
  rw [scanStringFrom, scanBackslash]
  obtain ⟨d, n⟩ := scanEscape cs
  simp only
  rw [scanStringFrom_eq_drop quote (newlineSize cs) cs, scanStringFrom_eq_drop quote n cs]
  cases hline : newlineAhead cs with
  | true =>
      cases cs with
      | nil => simp [newlineAhead] at hline
      | cons e cs => simp
  | false => simp

/-- A string takes a character, unless a line break cuts it off at once. -/
theorem scanString_pos {quote c : Char} {cs : List Char}
    (h : (scanStringFrom quote 0 (c :: cs)).1.isSome = true ∨ newlineAhead (c :: cs) = false) :
    0 < (scanStringFrom quote 0 (c :: cs)).2 := by
  rw [newlineAhead] at h
  rw [scanString_cons] at h ⊢
  split_ifs at h ⊢ <;> simp_all

/-- A string ends in `cs`, which `r` follows. Where a line break at the start of `r` cuts it off, it
does not end with `cs`. -/
def EndsString (quote : Char) (r cs : List Char) : Prop :=
  (scanStringFrom quote 0 (cs ++ r)).2 < cs.length ∨
    ((scanStringFrom quote 0 (cs ++ r)).2 = cs.length ∧
      ((scanStringFrom quote 0 (cs ++ r)).1.isSome = true ∨ newlineAhead r = false))

/-- A string that ends in `cs` before `r` is the same before `r'`. -/
def SwapsString (quote : Char) (r r' cs : List Char) : Prop :=
  EndsString quote r cs → scanStringFrom quote 0 (cs ++ r') = scanStringFrom quote 0 (cs ++ r)

/-- No string ends before its first character. -/
theorem EndsString.ne_nil {quote : Char} (hr : Stop r) (h : EndsString quote r cs) : cs ≠ [] := by
  rintro rfl
  obtain ⟨d, rest, rfl, -⟩ := hr
  rcases h with h | ⟨h, hsome⟩
  · simp at h
  · have := scanString_pos hsome
    simp only [List.nil_append, List.length_nil] at h
    omega

/-- What is left of a string after its first characters ends where the string does. -/
theorem EndsString.drop {quote c : Char} {k : Nat} {f : List Char → List Char} (hk : k ≤ cs.length)
    (hscan : scanStringFrom quote 0 (c :: cs ++ r) =
      ((scanStringFrom quote 0 (cs.drop k ++ r)).1.map f,
        (scanStringFrom quote 0 (cs.drop k ++ r)).2 + k + 1))
    (h : EndsString quote r (c :: cs)) : EndsString quote r (cs.drop k) := by
  rw [EndsString, hscan] at h
  rw [EndsString, List.length_drop]
  simp only [List.length_cons, Option.isSome_map] at h
  exact h.imp (by omega) fun h => ⟨by omega, h.2⟩

/-- A string that goes on with a character of its own. -/
theorem swapsString_cons {quote c d : Char} (ih : SwapsString quote r r' cs)
    (hscan : ∀ x : List Char, scanStringFrom quote 0 (c :: cs ++ x) =
      ((scanStringFrom quote 0 (cs ++ x)).1.map (d :: ·),
        (scanStringFrom quote 0 (cs ++ x)).2 + 1)) : SwapsString quote r r' (c :: cs) := by
  intro h
  rw [hscan, hscan, ih (h.drop (Nat.zero_le _) (hscan r))]

/-- A string that goes on with a backslash. What that takes ends in `cs`, since the string does. -/
theorem swapsString_backslash {quote : Char} (hr : Stop r) (hr' : Stop r') (hquote : '\\' ≠ quote)
    (ih : ∀ k, SwapsString quote r r' (cs.drop k)) : SwapsString quote r r' ('\\' :: cs) := by
  intro h
  have hscan : ∀ x : List Char, Stop x → scanStringFrom quote 0 ('\\' :: cs ++ x) =
      ((scanStringFrom quote 0 ((cs ++ x).drop (scanBackslash (cs ++ x)).2)).1.map
          ((scanBackslash (cs ++ x)).1.toList ++ ·),
        (scanStringFrom quote 0 ((cs ++ x).drop (scanBackslash (cs ++ x)).2)).2 +
          min (scanBackslash (cs ++ x)).2 (cs ++ x).length + 1) := by
    rintro x ⟨d, rest, rfl, -⟩
    rw [List.cons_append, scanString_cons, if_neg hquote, if_neg (by decide), if_pos rfl,
      if_neg (by simp)]
  -- what the backslash takes ends in `cs`, and something of the string is left after it
  have hle : (scanBackslash (cs ++ r)).2 ≤ cs.length := by
    have hpos := hr.length_pos
    rw [EndsString, hscan r hr] at h
    simp only [List.length_append, List.length_cons] at h
    omega
  have hmin : ∀ x : List Char, min (scanBackslash (cs ++ r)).2 (cs ++ x).length =
      (scanBackslash (cs ++ r)).2 := by
    intro x
    rw [List.length_append]
    omega
  have hread := hscan r hr
  rw [hmin, List.drop_append_of_le_length hle] at hread
  have hends := h.drop hle hread
  have hlt : (scanBackslash (cs ++ r)).2 < cs.length := by
    have := List.length_pos_of_ne_nil (hends.ne_nil hr)
    rw [List.length_drop] at this
    omega
  rw [hread, hscan r' hr', scanBackslash_swap hr hr' hlt, hmin, List.drop_append_of_le_length hle,
    ih _ hends]

/-- **A string** that ends in `cs` is the same whatever follows. -/
theorem scanString_swap {quote : Char} (hr : Stop r) (hr' : Stop r') :
    SwapsString quote r r' cs := by
  induction hn : cs.length using Nat.strong_induction_on generalizing cs with
  | _ n ih =>
      cases cs with
      | nil => exact fun h => absurd rfl (h.ne_nil hr)
      | cons c cs =>
          have hrest : ∀ k, SwapsString quote r r' (cs.drop k) := fun k =>
            ih (cs.drop k).length (by rw [← hn, List.length_drop, List.length_cons]; omega) rfl
          by_cases hquote : c = quote
          · intro _
            simp [scanString_cons, hquote]
          by_cases hline : isNewline c = true
          · intro _
            simp [scanString_cons, hquote, hline]
          by_cases hback : c = '\\'
          · subst hback
            exact swapsString_backslash hr hr' hquote hrest
          · exact swapsString_cons (hrest 0) fun x => by
              rw [List.cons_append, scanString_cons, if_neg hquote, if_neg hline, if_neg hback]

/-- Cons reading of `scanComment`. -/
theorem scanComment_cons (c : Char) (cs : List Char) :
    scanComment (c :: cs) =
      if c = '*' ∧ cs.head? = some '/' then (true, 2)
      else ((scanComment cs).1, (scanComment cs).2 + 1) := by
  by_cases hend : c = '*' ∧ cs.head? = some '/'
  · obtain ⟨rfl, hhead⟩ := hend
    obtain ⟨rest, rfl⟩ := List.head?_eq_some_iff.1 hhead
    rw [if_pos ⟨rfl, hhead⟩, scanComment]
  · rw [if_neg hend, scanComment.eq_2]
    rintro rest rfl heq
    exact hend ⟨rfl, by rw [heq]; rfl⟩

/-- **A comment** that ends in `cs` is the same whatever follows. -/
theorem scanComment_swap (hr : Stop r) (h : (scanComment (cs ++ r)).2 ≤ cs.length)
    (r' : List Char) : scanComment (cs ++ r') = scanComment (cs ++ r) := by
  have hpos : ∀ c rest, 0 < (scanComment (c :: rest)).2 := by
    intro c rest
    rw [scanComment_cons]
    split <;> simp
  induction cs with
  | nil =>
      obtain ⟨d, rest, rfl, -⟩ := hr
      have := hpos d rest
      simp only [List.nil_append, List.length_nil] at h
      omega
  | cons c cs ih =>
      rw [List.cons_append, scanComment_cons] at h
      rw [List.cons_append, List.cons_append, scanComment_cons, scanComment_cons]
      cases cs with
      | nil =>
          -- the comment would have to end where `r` begins
          obtain ⟨d, rest, rfl, -⟩ := hr
          have := hpos d rest
          simp only [List.nil_append, List.length_singleton] at h
          split at h <;> omega
      | cons d cs =>
          simp only [List.cons_append, List.head?_cons, Option.some.injEq,
            List.length_cons] at h ih ⊢
          by_cases hend : c = '*' ∧ d = '/'
          · rw [if_pos hend, if_pos hend]
          · rw [if_neg hend] at h ⊢
            rw [if_neg hend, ih (by omega)]

/-- The rest of a malformed address that ends in `cs` is the same whatever follows. -/
theorem badUrlSize_swap (hr : Stop r) {escaped : Bool}
    (h : badUrlSize escaped (cs ++ r) ≤ cs.length) (r' : List Char) :
    badUrlSize escaped (cs ++ r') = badUrlSize escaped (cs ++ r) := by
  induction cs generalizing escaped with
  | nil =>
      obtain ⟨d, rest, rfl, -⟩ := hr
      cases escaped with
      | true => simp [badUrlSize] at h
      | false =>
          simp only [List.nil_append, badUrlSize, List.length_nil] at h
          split at h <;> omega
  | cons c cs ih =>
      cases escaped with
      | true =>
          simp only [List.cons_append, badUrlSize, List.length_cons] at h ⊢
          rw [ih (by omega)]
      | false =>
          simp only [List.cons_append, badUrlSize, List.length_cons] at h ⊢
          by_cases hend : c = ')'
          · rw [if_pos hend, if_pos hend]
          · rw [if_neg hend] at h ⊢
            rw [if_neg hend, ih (by omega)]

/-- The end of an address that lies in `cs` is the same whatever follows. -/
theorem scanUrlEnd_swap (hr : Stop r) (h : (scanUrlEnd (cs ++ r)).2 ≤ cs.length)
    (r' : List Char) : scanUrlEnd (cs ++ r') = scanUrlEnd (cs ++ r) := by
  induction cs with
  | nil =>
      obtain ⟨d, rest, rfl, -⟩ := hr
      simp only [List.nil_append, scanUrlEnd, List.length_nil] at h
      split_ifs at h <;> simp at h
  | cons c cs ih =>
      simp only [List.cons_append, scanUrlEnd, List.length_cons] at h ⊢
      by_cases hend : c = ')'
      · rw [if_pos hend, if_pos hend]
      · rw [if_neg hend] at h ⊢
        rw [if_neg hend]
        by_cases hspace : isSpace c = true
        · simp only [if_pos hspace] at h ⊢
          rw [ih (by omega)]
        · rw [if_neg hspace] at h ⊢
          rw [if_neg hspace, badUrlSize_swap hr (by omega)]

/-- Passing over characters of an address is dropping them. -/
theorem scanUrlFrom_eq_drop (skip : Nat) (cs : List Char) :
    scanUrlFrom skip cs =
      ((scanUrlFrom 0 (cs.drop skip)).1, (scanUrlFrom 0 (cs.drop skip)).2 + min skip cs.length) := by
  induction cs generalizing skip with
  | nil => cases skip <;> simp [scanUrlFrom]
  | cons c cs ih =>
      cases skip with
      | zero => simp
      | succ n =>
          rw [scanUrlFrom, ih, List.drop_succ_cons, List.length_cons, Nat.succ_min_succ]
          rfl

/-- Cons reading of `scanUrlFrom`. -/
theorem scanUrlFrom_cons (c : Char) (cs : List Char) :
    scanUrlFrom 0 (c :: cs) =
      if c = ')' then (some [], 1)
      else if isSpace c then
        (if (scanUrlEnd cs).1 then some [] else none, (scanUrlEnd cs).2 + 1)
      else if isUrlBreaker c then (none, badUrlSize false cs + 1)
      else if c = '\\' then
        if newlineAhead cs then (none, badUrlSize false cs + 1)
        else
          ((scanUrlFrom 0 (cs.drop (scanEscape cs).2)).1.map ((scanEscape cs).1 :: ·),
            (scanUrlFrom 0 (cs.drop (scanEscape cs).2)).2 + min (scanEscape cs).2 cs.length + 1)
      else
        ((scanUrlFrom 0 cs).1.map ((if c = '\x00' then replacement else c) :: ·),
          (scanUrlFrom 0 cs).2 + 1) := by
  rw [scanUrlFrom]
  obtain ⟨d, n⟩ := scanEscape cs
  simp only
  rw [scanUrlFrom_eq_drop n cs]

/-- An address takes a character. -/
theorem scanUrlFrom_pos (c : Char) (cs : List Char) : 0 < (scanUrlFrom 0 (c :: cs)).2 := by
  rw [scanUrlFrom_cons]
  split_ifs <;> simp

/-- An address that ends in `cs` before `r` is the same before `r'`. -/
def SwapsUrl (r r' cs : List Char) : Prop :=
  (scanUrlFrom 0 (cs ++ r)).2 ≤ cs.length → scanUrlFrom 0 (cs ++ r') = scanUrlFrom 0 (cs ++ r)

/-- An address that goes on with an escape. The escape ends in `cs`, since the address does. -/
theorem swapsUrl_escape {d : Char} (hr : Stop r) (hr' : Stop r')
    (hline : newlineAhead (d :: cs) = false) (ih : ∀ k, SwapsUrl r r' ((d :: cs).drop k)) :
    SwapsUrl r r' ('\\' :: d :: cs) := by
  intro h
  have hscan : ∀ x : List Char, scanUrlFrom 0 ('\\' :: d :: cs ++ x) =
      ((scanUrlFrom 0 ((d :: cs ++ x).drop (scanEscape (d :: cs ++ x)).2)).1.map
          ((scanEscape (d :: cs ++ x)).1 :: ·),
        (scanUrlFrom 0 ((d :: cs ++ x).drop (scanEscape (d :: cs ++ x)).2)).2 +
          min (scanEscape (d :: cs ++ x)).2 (d :: cs ++ x).length + 1) := by
    intro x
    rw [List.cons_append, scanUrlFrom_cons, if_neg (by decide), if_neg (by decide),
      if_neg (by decide), if_pos rfl, newlineAhead_append, hline]
    rfl
  rw [hscan] at h ⊢
  rw [hscan]
  have hpos := hr.length_pos
  have hle : (scanEscape (d :: cs ++ r)).2 ≤ (d :: cs).length := by
    simp only [List.length_append, List.length_cons] at h ⊢
    omega
  have hmin : ∀ x : List Char, min (scanEscape (d :: cs ++ r)).2 (d :: cs ++ x).length =
      (scanEscape (d :: cs ++ r)).2 := by
    intro x
    rw [List.length_append]
    omega
  have hcons : ('\\' :: d :: cs).length = (d :: cs).length + 1 := rfl
  have hlen : ((d :: cs).drop (scanEscape (d :: cs ++ r)).2).length =
      (d :: cs).length - (scanEscape (d :: cs ++ r)).2 := List.length_drop
  rw [hmin, List.drop_append_of_le_length hle] at h
  -- an escape that reaches the end of `cs` leaves the address unfinished there
  have hlt : (scanEscape (d :: cs ++ r)).2 < (d :: cs).length := by
    by_contra hend
    obtain ⟨e, rest, rfl, -⟩ := hr
    have := scanUrlFrom_pos e rest
    rw [List.drop_eq_nil_of_le (by omega), List.nil_append] at h
    omega
  obtain ⟨hchar, hext⟩ := scanEscape_swap hr hr' hle
  have hsame : scanEscape (d :: cs ++ r') = scanEscape (d :: cs ++ r) :=
    Prod.ext hchar (hext.resolve_right (by omega))
  rw [hsame, hmin, hmin, List.drop_append_of_le_length hle, List.drop_append_of_le_length hle,
    ih _ (by omega)]

/-- An address that goes on with a backslash: an escape, or the start of a malformed rest. -/
theorem swapsUrl_backslash (hr : Stop r) (hr' : Stop r')
    (ih : ∀ k, SwapsUrl r r' (cs.drop k)) : SwapsUrl r r' ('\\' :: cs) := by
  cases cs with
  | nil =>
      -- the backslash takes a character of what follows
      intro h
      obtain ⟨d, rest, rfl, -⟩ := hr
      have hescape := scanEscape_pos d rest
      have hbad : 0 < badUrlSize false (d :: rest) := by
        rw [badUrlSize]
        split <;> simp
      rw [List.singleton_append, scanUrlFrom_cons, if_neg (by decide), if_neg (by decide),
        if_neg (by decide), if_pos rfl] at h
      simp only [List.length_singleton] at h
      split at h
      · simp only at h
        omega
      · simp only [List.length_cons] at h
        omega
  | cons d cs =>
      cases hline : newlineAhead (d :: cs) with
      | false => exact swapsUrl_escape hr hr' hline ih
      | true =>
          intro h
          have hscan : ∀ x : List Char, scanUrlFrom 0 ('\\' :: d :: cs ++ x) =
              (none, badUrlSize false (d :: cs ++ x) + 1) := by
            intro x
            rw [List.cons_append, scanUrlFrom_cons, if_neg (by decide), if_neg (by decide),
              if_neg (by decide), if_pos rfl, newlineAhead_append, hline]
            rfl
          rw [hscan] at h ⊢
          rw [hscan, badUrlSize_swap hr (Nat.le_of_succ_le_succ h)]

/-- **An address** that ends in `cs` is the same whatever follows. -/
theorem scanUrlFrom_swap (hr : Stop r) (hr' : Stop r') : SwapsUrl r r' cs := by
  induction hn : cs.length using Nat.strong_induction_on generalizing cs with
  | _ n ih =>
      cases cs with
      | nil =>
          intro h
          -- nothing is left of `cs`, so that the address would end in what follows
          obtain ⟨d, rest, rfl, -⟩ := hr
          have := scanUrlFrom_pos d rest
          simp only [List.nil_append, List.length_nil] at h
          omega
      | cons c cs =>
          have hrest : ∀ k, SwapsUrl r r' (cs.drop k) := fun k =>
            ih (cs.drop k).length (by rw [← hn, List.length_drop, List.length_cons]; omega) rfl
          by_cases hback : c = '\\'
          · rw [hback]
            exact swapsUrl_backslash hr hr' hrest
          -- the one character decides what is scanned next, and that ends in `cs` again
          intro h
          rw [List.cons_append, scanUrlFrom_cons, List.length_cons] at h
          rw [List.cons_append, List.cons_append, scanUrlFrom_cons, scanUrlFrom_cons]
          by_cases hend : c = ')'
          · rw [if_pos hend, if_pos hend]
          rw [if_neg hend] at h ⊢
          rw [if_neg hend]
          by_cases hspace : isSpace c = true
          · rw [if_pos hspace] at h ⊢
            rw [if_pos hspace, scanUrlEnd_swap hr (by simpa using h)]
          rw [if_neg hspace] at h ⊢
          rw [if_neg hspace]
          by_cases hbreak : isUrlBreaker c = true
          · rw [if_pos hbreak] at h ⊢
            rw [if_pos hbreak, badUrlSize_swap hr (by simpa using h)]
          · have hcs : SwapsUrl r r' cs := hrest 0
            rw [if_neg hbreak, if_neg hback] at h ⊢
            rw [if_neg hbreak, if_neg hback, hcs (by simpa using h)]

/-- Cons reading of `scanUrl`. -/
theorem scanUrl_cons (c : Char) (cs : List Char) :
    scanUrl (c :: cs) =
      if isSpace c then ((scanUrl cs).1, (scanUrl cs).2 + 1)
      else if c = '"' || c = '\'' then (none, 0)
      else
        (some ((scanUrlFrom 0 (c :: cs)).1.elim .badUrl .url), (scanUrlFrom 0 (c :: cs)).2) := by
  rw [scanUrl]
  split
  · rfl
  · split
    · rfl
    · cases hread : scanUrlFrom 0 (c :: cs) with
      | mk value n => cases value <;> rfl

/-- What follows `url(` is the same whatever follows, if it ends in `cs` or a character that is seen
before the change makes it a function. -/
theorem scanUrl_swap (hr : Stop r) (hr' : Stop r')
    (h : ((scanUrl (cs ++ r)).1.isSome = true ∧ (scanUrl (cs ++ r)).2 ≤ cs.length) ∨
      ((scanUrl (cs ++ r)).1 = none ∧ ∃ c ∈ cs ++ r.take 1, isSpace c = false)) :
    scanUrl (cs ++ r') = scanUrl (cs ++ r) := by
  induction cs with
  | nil =>
      obtain ⟨d, rest, rfl, hd⟩ := hr
      rcases h with ⟨hsome, hle⟩ | ⟨hnone, c, hc, hspace⟩
      · -- something of what follows would have to be taken
        have hpos := scanUrlFrom_pos d rest
        rw [List.nil_append, scanUrl_cons] at hsome hle
        rw [List.length_nil] at hle
        split_ifs at hsome hle
        · simp at hle
        · simp at hsome
        · omega
      · -- a stop that is no whitespace begins an address
        rw [List.nil_append, List.take_succ_cons, List.take_zero, List.mem_singleton] at hc
        subst hc
        have hquote : ¬ (decide (c = '"') || decide (c = '\'')) = true := by
          have := (isStop_facts hd).2.2.2.2
          simp_all
        rw [List.nil_append, scanUrl_cons, hspace, if_neg (by simp), if_neg hquote] at hnone
        simp at hnone
  | cons c cs ih =>
      rw [List.cons_append, scanUrl_cons] at h
      rw [List.cons_append, List.cons_append, scanUrl_cons, scanUrl_cons]
      by_cases hspace : isSpace c = true
      · simp only [if_pos hspace, List.cons_append, List.mem_cons, List.length_cons] at h ⊢
        have hrest := ih (h.imp (fun h => ⟨h.1, by omega⟩) ?_)
        · rw [hrest]
        · rintro ⟨hnone, d, rfl | hd, hd'⟩
          · rw [hspace] at hd'
            exact absurd hd' (by decide)
          · exact ⟨hnone, d, hd, hd'⟩
      · rw [if_neg hspace] at h ⊢
        rw [if_neg hspace]
        split
        · rfl
        · rename_i hquote
          rw [if_neg hquote] at h
          have hle : (scanUrlFrom 0 (c :: cs ++ r)).2 ≤ (c :: cs).length := by
            rcases h with ⟨-, hle⟩ | ⟨hnone, -⟩
            · exact hle
            · simp at hnone
          have hsame := scanUrlFrom_swap hr hr' hle
          rw [List.cons_append, List.cons_append] at hsame
          rw [hsame]

/-! ## Names and what they lead to -/

/-- What a name of the given size leads to. -/
def scanParen (name : List Char) (size : Nat) (rest : List Char) : Token × Nat :=
  if rest.head? = some '(' then
    if name.map Char.toLower = ['u', 'r', 'l'] then
      (scanUrl rest.tail).1.elim (.function name, size + 1)
        fun t => (t, size + 1 + (scanUrl rest.tail).2)
    else (.function name, size + 1)
  else (.ident name, size)

/-- A name is read, and then what it leads to. -/
theorem scanIdentLike_eq (cs : List Char) :
    scanIdentLike cs =
      scanParen (scanName cs).1 (scanName cs).2 (cs.drop (scanName cs).2) := by
  simp only [scanIdentLike, scanParen]
  generalize cs.drop (scanName cs).2 = rest
  split
  · rename_i rest
    rw [List.head?_cons, if_pos rfl, List.tail_cons]
    split
    · obtain ⟨token, n⟩ := scanUrl rest
      cases token <;> rfl
    · rfl
  · rename_i hne
    have hhead : rest.head? ≠ some '(' := by
      intro hhead
      obtain ⟨tail, htail⟩ := List.head?_eq_some_iff.1 hhead
      exact hne tail htail
    rw [if_neg hhead]

/-- A name comes first. -/
theorem le_scanParen (name : List Char) (size : Nat) (rest : List Char) :
    size ≤ (scanParen name size rest).2 := by
  rw [scanParen]
  split_ifs
  · cases (scanUrl rest.tail).1 with
    | none => simp
    | some t =>
        simp only [Option.elim_some]
        omega
  · simp
  · simp

/-- What a parenthesis after a name leads to is the same whatever follows, if it ends in `rest` or a
character before the change decides whether `url(` begins an address. -/
theorem scanParen_swap {name rest : List Char} {size : Nat} (hr : Stop r) (hr' : Stop r')
    (h : (scanParen name size ('(' :: rest ++ r)).2 ≤ size + 1 + rest.length)
    (hopen : (scanParen name size ('(' :: rest ++ r)).2 = size + 1 →
      (scanParen name size ('(' :: rest ++ r)).1.opens? ≠ none →
        ∃ c ∈ rest ++ r.take 1, isSpace c = false) :
    scanParen name size ('(' :: rest ++ r') = scanParen name size ('(' :: rest ++ r) := by
  simp only [scanParen, List.cons_append, List.head?_cons, if_true, List.tail_cons] at h hopen ⊢
  by_cases hurl : name.map Char.toLower = ['u', 'r', 'l']
  · simp only [if_pos hurl] at h hopen ⊢
    have hsame : scanUrl (rest ++ r') = scanUrl (rest ++ r) := by
      refine scanUrl_swap hr hr' ?_
      cases htoken : (scanUrl (rest ++ r)).1 with
      | some t =>
          rw [htoken] at h
          simp only [Option.elim_some] at h
          exact .inl ⟨rfl, by omega⟩
      | none =>
          rw [htoken] at hopen
          exact .inr ⟨rfl, hopen rfl (by simp [Token.opens?])⟩
    rw [hsame]
  · rw [if_neg hurl, if_neg hurl]

/-- **A name and what it leads to** are the same whatever follows, up to the whitespace that ends an
escape, if a character before the change decides whether `url(` begins an address. -/
theorem scanIdentLike_swap (hr : Stop r) (hr' : Stops r')
    (h : (scanIdentLike (cs ++ r)).2 ≤ cs.length)
    (hlone : cs.drop (scanIdentLike (cs ++ r)).2 = ['\\'] → newlineAhead r = newlineAhead r')
    (hopen : (scanIdentLike (cs ++ r)).1.opens? ≠ none →
      ∃ c ∈ cs.drop (scanIdentLike (cs ++ r)).2 ++ r.take 1, isSpace c = false) :
    (scanIdentLike (cs ++ r')).1 = (scanIdentLike (cs ++ r)).1 ∧
      Extends cs r' (scanIdentLike (cs ++ r)).2 (scanIdentLike (cs ++ r')).2 := by
  have hparen : isStop '(' = false := by decide
  have hread := scanIdentLike_eq (cs ++ r)
  have hread' := scanIdentLike_eq (cs ++ r')
  have hname := @scanName_swap cs r r' hr hr'
  rw [SwapsName] at hname
  generalize scanName (cs ++ r) = name at hread hname
  generalize scanName (cs ++ r') = name' at hread' hname
  obtain ⟨value, k⟩ := name
  obtain ⟨value', k'⟩ := name'
  simp only at hread hread' hname
  have hk : k ≤ cs.length := by
    have := le_scanParen value k ((cs ++ r).drop k)
    rw [← hread] at this
    omega
  have hlen : (cs.drop k).length = cs.length - k := List.length_drop
  rw [List.drop_append_of_le_length hk] at hread
  rw [hread] at h hlone hopen ⊢
  rw [hread']
  by_cases hhead : (cs.drop k).head? = some '('
  · -- the parenthesis lies in `cs`, so the name ends there
    obtain ⟨rest, hrest⟩ := List.head?_eq_some_iff.1 hhead
    obtain ⟨rfl, hext⟩ := hname hk (by simp [hrest])
    rw [hrest, List.length_cons] at hlen
    obtain rfl := hext.resolve_right (by omega)
    have hrest' : cs.drop (k' + 1) = rest := by
      rw [← List.drop_drop, hrest]
      rfl
    rw [hrest] at h hopen ⊢
    rw [List.drop_append_of_le_length hk, hrest, scanParen_swap hr hr'.1 (by omega)
      fun hsize hopens => by
        have := hopen hopens
        rwa [hsize, hrest'] at this]
    exact ⟨rfl, .inl rfl⟩
  · -- the name stands alone, before `r` and before `r'`
    simp only [scanParen, head?_append hr hparen, if_neg hhead] at hlone ⊢
    obtain ⟨rfl, hext⟩ := hname hk hlone
    have hhead' : ((cs ++ r').drop k').head? ≠ some '(' := by
      rcases hext with rfl | ⟨rfl, rfl⟩
      · rw [List.drop_append_of_le_length hk, Ne, head?_append hr'.1 hparen]
        exact hhead
      · rw [← List.drop_drop, List.drop_left]
        intro hstop
        simpa using (head?_append hr'.2 hparen []).1 hstop
    rw [if_neg hhead']
    exact ⟨rfl, hext⟩

/-! ## Tokens -/

/-- What a scanner reads in `cs` when `r` follows it also reads when `r'` follows, up to the
whitespace that ends an escape. A string must not be cut off where `r` begins, a character of `cs`
or the first one of `r` must decide whether `url(` begins an address, and a backslash at the end of
`cs` that stands for itself must have a line break after it in either case. -/
def Keeps (cs r r' : List Char) (scan : List Char → Token × Nat) : Prop :=
  (scan (cs ++ r)).2 ≤ cs.length →
  ((scan (cs ++ r)).1 = .badString → (scan (cs ++ r)).2 < cs.length ∨ newlineAhead r = false) →
  ((scan (cs ++ r)).1.opens? ≠ none →
    ∃ c ∈ cs.drop (scan (cs ++ r)).2 ++ r.take 1, isSpace c = false) →
  (cs.drop (scan (cs ++ r)).2 = ['\\'] → newlineAhead r = newlineAhead r') →
  (scan (cs ++ r')).1 = (scan (cs ++ r)).1 ∧
    Extends cs r' (scan (cs ++ r)).2 (scan (cs ++ r')).2

/-- A scanner that looks at nothing. -/
theorem keeps_const (t : Token) (n : Nat) : Keeps cs r r' fun _ => (t, n) :=
  fun _ _ _ _ => ⟨rfl, .inl rfl⟩

/-- Scanners that read the same are kept alike. -/
theorem Keeps.congr {scan other : List Char → Token × Nat} (h : Keeps cs r r' other)
    (hr : scan (cs ++ r) = other (cs ++ r)) (hr' : scan (cs ++ r') = other (cs ++ r')) :
    Keeps cs r r' scan := by
  unfold Keeps
  rw [hr, hr']
  exact h

/-- A scanner whose reading does not change. -/
theorem keeps_of_eq {scan : List Char → Token × Nat}
    (h : (scan (cs ++ r)).2 ≤ cs.length → scan (cs ++ r') = scan (cs ++ r)) :
    Keeps cs r r' scan := by
  intro hle _ _ _
  rw [h hle]
  exact ⟨rfl, .inl rfl⟩

/-- A choice that looks at nothing past `cs`. -/
theorem keeps_ite {test : List Char → Bool} {a b : List Char → Token × Nat}
    (htest : test (cs ++ r') = test (cs ++ r)) (ha : test (cs ++ r) = true → Keeps cs r r' a)
    (hb : test (cs ++ r) = false → Keeps cs r r' b) :
    Keeps cs r r' fun x => if test x then a x else b x := by
  cases hread : test (cs ++ r) with
  | true => exact (ha hread).congr (by simp [hread]) (by simp [htest, hread])
  | false => exact (hb hread).congr (by simp [hread]) (by simp [htest, hread])

/-- A scanner that has counted the first character. -/
theorem keeps_afterFirst {scan : List Char → Token × Nat} {c : Char} (hc : isSpace c = false)
    (h : Keeps (c :: cs) r r' scan)
    (hlone : c :: cs = ['\\'] → newlineAhead r = newlineAhead r') :
    Keeps cs r r' fun x => afterFirst (scan (c :: x)) := by
  intro hle hbad hopen hlone'
  simp only [afterFirst, ← List.cons_append] at hle hbad hopen hlone' ⊢
  have hdrop : ∀ n, (c :: cs).drop n = if n = 0 then c :: cs else cs.drop (n - 1) := by
    intro n
    cases n <;> rfl
  obtain ⟨htoken, hext⟩ := h (by rw [List.length_cons]; omega)
    (fun hread => (hbad hread).imp_left fun h => by rw [List.length_cons]; omega)
    (fun hread => by
      rw [hdrop]
      split
      · exact ⟨c, by simp, hc⟩
      · exact hopen hread)
    (fun hread => by
      rw [hdrop] at hread
      split at hread
      · exact hlone hread
      · exact hlone' hread)
  refine ⟨htoken, hext.imp (by omega) fun hext => ?_⟩
  rw [List.length_cons] at hext
  omega

/-- A name. -/
theorem keeps_name (hr : Stop r) (hr' : Stops r') (token : List Char → Token) :
    Keeps cs r r' fun x => (token (scanName x).1, (scanName x).2) := by
  intro hle _ _ hlone
  obtain ⟨hvalue, hext⟩ := scanName_swap hr hr' hle hlone
  exact ⟨congrArg token hvalue, hext⟩

/-- A name where an identifier begins, and something else where none does. -/
theorem keeps_named (hr : Stop r) (hr' : Stops r') {token : List Char → Token}
    {other : List Char → Token × Nat} (hother : Keeps cs r r' other)
    (hzero : (other ('\\' :: r)).2 = 0) :
    Keeps cs r r' fun x =>
      if identAhead x then (token (scanName x).1, (scanName x).2) else other x := by
  intro hle hbad hopen hlone
  have hahead : identAhead (cs ++ r') = identAhead (cs ++ r) :=
    identAhead_swap_of_le hr hr'.1 (fun hread => by simpa [hread] using hle)
      fun hread hback => hlone (by
        subst hback
        rw [List.singleton_append] at hread ⊢
        simp [hread, hzero])
  exact keeps_ite hahead (fun _ => keeps_name hr hr' token) (fun _ => hother) hle hbad hopen hlone

/-- A number with its unit. -/
theorem keeps_numeric (hr : Stop r) (hr' : Stops r') : Keeps cs r r' scanNumeric :=
  fun hle _ _ hlone => scanNumeric_swap hr hr' hle hlone

/-- A name and what it leads to. -/
theorem keeps_identLike (hr : Stop r) (hr' : Stops r') : Keeps cs r r' scanIdentLike :=
  fun hle _ hopen hlone => scanIdentLike_swap hr hr' hle hlone hopen

/-- A string. -/
theorem keeps_string (hr : Stop r) (hr' : Stop r') (quote : Char) :
    Keeps cs r r' fun x =>
      ((scanStringFrom quote 0 x).1.elim .badString .string, (scanStringFrom quote 0 x).2) := by
  intro hle hbad _ _
  simp only at hle hbad ⊢
  have hend : EndsString quote r cs := by
    refine (Nat.lt_or_eq_of_le hle).imp_right fun heq => ⟨heq, ?_⟩
    cases hvalue : (scanStringFrom quote 0 (cs ++ r)).1 with
    | none => exact .inr ((hbad (by rw [hvalue]; rfl)).resolve_left (by omega))
    | some v => exact .inl rfl
  rw [scanString_swap hr hr' hend]
  exact ⟨rfl, .inl rfl⟩

/-- A text that holds no stop begins `cs` and what follows only if it begins `cs`. -/
theorem isPrefixOf_append (hr : Stop r) {start : List Char} (hstart : start.any isStop = false)
    (cs : List Char) : start.isPrefixOf (cs ++ r) = start.isPrefixOf cs := by
  induction start generalizing cs with
  | nil => simp
  | cons a start ih =>
      cases cs with
      | nil =>
          obtain ⟨d, rest, rfl, hd⟩ := hr
          have hne : a ≠ d := by
            rintro rfl
            simp [hd] at hstart
          simp [List.isPrefixOf_cons_cons, hne]
      | cons c cs =>
          rw [List.cons_append, List.isPrefixOf_cons_cons, List.isPrefixOf_cons_cons,
            ih (by simp_all)]

/-- A slash begins a comment before a `*`. -/
theorem next_slash (cs : List Char) :
    Token.next '/' cs =
      if ['*'].isPrefixOf cs then (.comment (scanComment cs.tail).1, (scanComment cs.tail).2 + 1)
      else (.delim '/', 0) := by
  unfold Token.next
  simp only [show isSpace '/' = false from rfl, show Char.isDigit '/' = false from rfl,
    Bool.false_eq_true, if_false]
  split
  · simp
  · rename_i hne
    cases cs with
    | nil => simp
    | cons c cs =>
        have hc : '*' ≠ c := by
          rintro rfl
          exact hne cs rfl
        simp [List.isPrefixOf_cons_cons, hc]

/-- A hyphen begins a number, the mark `-->`, a name, or it stands for itself. -/
theorem next_hyphen (cs : List Char) :
    Token.next '-' cs =
      if unsignedAhead cs then afterFirst (scanNumeric ('-' :: cs))
      else if ['-', '>'].isPrefixOf cs then (.commentClose, 2)
      else if identAhead ('-' :: cs) then afterFirst (scanIdentLike ('-' :: cs))
      else (.delim '-', 0) := by
  unfold Token.next
  simp only [show isSpace '-' = false from rfl, show Char.isDigit '-' = false from rfl,
    Bool.false_eq_true, if_false]
  congr 1
  split
  · simp
  · rename_i hne
    have hpre : ['-', '>'].isPrefixOf cs = false := by
      rw [← Bool.not_eq_true, List.isPrefixOf_iff_prefix]
      rintro ⟨rest, rfl⟩
      exact hne rest rfl
    rw [hpre]
    rfl

/-- The mark `<!--`, or a `<` that stands for itself. -/
theorem next_less (cs : List Char) :
    Token.next '<' cs =
      if ['!', '-', '-'].isPrefixOf cs then (.commentOpen, 3) else (.delim '<', 0) := by
  unfold Token.next
  simp only [show isSpace '<' = false from rfl, show Char.isDigit '<' = false from rfl,
    Bool.false_eq_true, if_false]
  split
  · simp
  · rename_i hne
    have hpre : ['!', '-', '-'].isPrefixOf cs = false := by
      rw [← Bool.not_eq_true, List.isPrefixOf_iff_prefix]
      rintro ⟨rest, rfl⟩
      exact hne rest rfl
    rw [hpre]
    rfl

/-- A string with its quote. -/
theorem next_quote {c : Char} (hc : c = '"' ∨ c = '\'') (cs : List Char) :
    Token.next c cs =
      ((scanStringFrom c 0 cs).1.elim .badString .string, (scanStringFrom c 0 cs).2) := by
  have hspace : isSpace c = false := by rcases hc with rfl | rfl <;> rfl
  have hdigit : c.isDigit = false := by rcases hc with rfl | rfl <;> rfl
  unfold Token.next
  simp only [hspace, hdigit, Bool.false_eq_true, if_false]
  obtain ⟨value, k⟩ := scanStringFrom c 0 cs
  rcases hc with rfl | rfl <;> cases value <;> rfl

/-- The characters that `Token.next` treats apart. -/
def specialChars : List Char :=
  ['"', '\'', '#', '$', '*', '^', '|', '~', '(', ')', '[', ']', '{', '}', ',', ':', ';', '+', '-',
    '.', '/', '<', '@']

/-- Any other character begins a name, or it stands for itself. -/
theorem next_other {c : Char} (hspace : isSpace c = false) (hdigit : c.isDigit = false)
    (hc : c ∉ specialChars) (cs : List Char) :
    Token.next c cs =
      if identAhead (c :: cs) then afterFirst (scanIdentLike (c :: cs)) else (.delim c, 0) := by
  unfold Token.next
  rw [if_neg (by simp [hspace]), if_neg (by simp [hdigit])]
  split
  all_goals first
    | rfl
    | exact absurd (by simp [specialChars]) hc

/-- A slash. -/
theorem keeps_slash (hr : Stop r) (hr' : Stop r') : Keeps cs r r' (Token.next '/') := by
  have hnext : Token.next '/' = _ := funext next_slash
  have hstar : ['*'].any isStop = false := by decide
  rw [hnext]
  refine keeps_ite ?_ (fun hread => ?_) fun _ => keeps_const _ _
  · rw [isPrefixOf_append hr' hstar, isPrefixOf_append hr hstar]
  · rw [isPrefixOf_append hr hstar, List.isPrefixOf_iff_prefix] at hread
    obtain ⟨rest, rfl⟩ := hread
    refine keeps_of_eq fun hle => ?_
    simp only [List.cons_append, List.tail_cons, List.length_cons] at hle ⊢
    rw [scanComment_swap hr (by omega)]

/-- A hyphen. -/
theorem keeps_hyphen (hr : Stop r) (hr' : Stops r') : Keeps cs r r' (Token.next '-') := by
  have hnext : Token.next '-' = _ := funext next_hyphen
  have harrow : ['-', '>'].any isStop = false := by decide
  have hapart : '-' :: cs ≠ ['\\'] := by simp
  rw [hnext]
  refine keeps_ite ?_ (fun _ => ?_) fun _ => keeps_ite ?_ (fun _ => keeps_const _ _) fun _ => ?_
  · rw [unsignedAhead_append hr'.1, unsignedAhead_append hr]
  · exact keeps_afterFirst (by decide) (keeps_numeric hr hr') fun h => absurd h hapart
  · rw [isPrefixOf_append hr'.1 harrow, isPrefixOf_append hr harrow]
  · refine @keeps_ite cs r r' (fun x => identAhead ('-' :: x)) _ _ ?_ (fun _ => ?_)
      fun _ => keeps_const _ _
    · exact (identAhead_append hr'.1 hapart).trans (identAhead_append hr hapart).symm
    · exact keeps_afterFirst (by decide) (keeps_identLike hr hr') fun h => absurd h hapart

/-- A character that begins a name or stands for itself. -/
theorem keeps_other (hr : Stop r) (hr' : Stops r') {c : Char} (hspace : isSpace c = false)
    (hdigit : c.isDigit = false) (hc : c ∉ specialChars)
    (hlone : c :: cs = ['\\'] → newlineAhead r = newlineAhead r') :
    Keeps cs r r' (Token.next c) := by
  have hnext : Token.next c = _ := funext (next_other hspace hdigit hc)
  rw [hnext]
  refine @keeps_ite cs r r' (fun x => identAhead (c :: x)) _ _ ?_ (fun _ => ?_)
    fun _ => keeps_const _ _
  · exact identAhead_swap hr hr'.1 hlone
  · exact keeps_afterFirst hspace (keeps_identLike hr hr') hlone

/-- A hash. -/
theorem keeps_hash (hr : Stop r) (hr' : Stops r') : Keeps cs r r' (Token.next '#') := by
  refine @keeps_named cs r r' hr hr' (Token.hash · true) (fun x =>
    if digitAhead x || x.head? == some '-' then (.hash (scanName x).1 false, (scanName x).2)
    else (.delim '#', 0)) ?_ ?_
  · refine keeps_ite ?_ (fun _ => keeps_name hr hr' (Token.hash · false)) fun _ => keeps_const _ _
    have hhyphen : isStop '-' = false := by decide
    rw [digitAhead_append hr'.1, digitAhead_append hr, Bool.eq_iff_iff]
    simp only [Bool.or_eq_true, beq_iff_eq, head?_append hr hhyphen, head?_append hr'.1 hhyphen]
  · simp [digitAhead]

/-- The mark `<!--`. -/
theorem keeps_less (hr : Stop r) (hr' : Stop r') : Keeps cs r r' (Token.next '<') := by
  have hnext : Token.next '<' = _ := funext next_less
  have hmark : ['!', '-', '-'].any isStop = false := by decide
  rw [hnext]
  refine keeps_ite ?_ (fun _ => keeps_const _ _) fun _ => keeps_const _ _
  rw [isPrefixOf_append hr' hmark, isPrefixOf_append hr hmark]

/-- A matcher, or a delimiter that stands for itself. -/
theorem keeps_matcher (hr : Stop r) (hr' : Stop r') (c : Char) : Keeps cs r r' (matcherOr c) :=
  keeps_of_eq fun _ => (matcherOr_append hr' c cs).trans (matcherOr_append hr c cs).symm

/-- A sign or a point, which begins a number where digits follow. -/
theorem keeps_number (hr : Stop r) (hr' : Stops r') {c : Char} (hspace : isSpace c = false)
    (hback : c ≠ '\\') {test : List Char → Bool} (htest : test (cs ++ r') = test (cs ++ r)) :
    Keeps cs r r' fun x => if test x then afterFirst (scanNumeric (c :: x)) else (.delim c, 0) := by
  refine keeps_ite htest (fun _ => ?_) fun _ => keeps_const _ _
  exact keeps_afterFirst hspace (keeps_numeric hr hr') fun h => absurd (List.cons.inj h).1 hback

/-- A character that `Token.next` treats apart. -/
theorem keeps_special (hr : Stop r) (hr' : Stops r') {c : Char} (hc : c ∈ specialChars) :
    Keeps cs r r' (Token.next c) := by
  simp only [specialChars, List.mem_cons, List.not_mem_nil, or_false] at hc
  rcases hc with rfl | rfl | rfl | rfl | rfl | rfl | rfl | rfl | rfl | rfl | rfl | rfl | rfl |
    rfl | rfl | rfl | rfl | rfl | rfl | rfl | rfl | rfl | rfl
  -- strings and names after a `#`
  · exact (keeps_string hr hr'.1 _).congr (next_quote (.inl rfl) _) (next_quote (.inl rfl) _)
  · exact (keeps_string hr hr'.1 _).congr (next_quote (.inr rfl) _) (next_quote (.inr rfl) _)
  · exact keeps_hash hr hr'
  -- matchers
  · exact keeps_matcher hr hr'.1 '$'
  · exact keeps_matcher hr hr'.1 '*'
  · exact keeps_matcher hr hr'.1 '^'
  · exact keeps_matcher hr hr'.1 '|'
  · exact keeps_matcher hr hr'.1 '~'
  -- brackets and punctuation
  · exact keeps_const _ _
  · exact keeps_const _ _
  · exact keeps_const _ _
  · exact keeps_const _ _
  · exact keeps_const _ _
  · exact keeps_const _ _
  · exact keeps_const _ _
  · exact keeps_const _ _
  · exact keeps_const _ _
  -- signs, points, comments and marks
  · exact keeps_number hr hr' (by decide) (by decide)
      ((unsignedAhead_append hr'.1 cs).trans (unsignedAhead_append hr cs).symm)
  · exact keeps_hyphen hr hr'
  · exact keeps_number hr hr' (by decide) (by decide)
      ((digitAhead_append hr'.1 cs).trans (digitAhead_append hr cs).symm)
  · exact keeps_slash hr hr'.1
  · exact keeps_less hr hr'.1
  -- names after an `@`
  · exact @keeps_named cs r r' hr hr' Token.atKeyword (fun _ => (.delim '@', 0)) (keeps_const _ _) rfl

/-- **A token** is the same whatever follows, up to the whitespace that ends an escape. -/
theorem keeps_next (hr : Stop r) (hr' : Stops r') {c : Char} (hspace : isSpace c = false)
    (hlone : c :: cs = ['\\'] → newlineAhead r = newlineAhead r') :
    Keeps cs r r' (Token.next c) := by
  by_cases hdigit : c.isDigit = true
  · have hnext : Token.next c = fun x => afterFirst (scanNumeric (c :: x)) := by
      funext x
      unfold Token.next
      rw [if_neg (by simp [hspace]), if_pos hdigit]
    rw [hnext]
    exact keeps_afterFirst hspace (keeps_numeric hr hr') hlone
  by_cases hc : c ∈ specialChars
  · exact keeps_special hr hr' hc
  · exact keeps_other hr hr' hspace (by simpa using hdigit) hc hlone

/-! ## Lexemes -/

/-- The whitespace that ends an escape is whitespace. -/
theorem isSpace_of_mem_escapeTail {c : Char} (h : c ∈ r.take (escapeTail r)) :
    isSpace c = true := by
  cases r with
  | nil => simp at h
  | cons d r =>
      rw [escapeTail_cons] at h
      split at h
      · rename_i hd
        rw [List.take_succ_cons, List.take_zero, List.mem_singleton] at h
        rcases hd with rfl | rfl <;> (rw [h]; decide)
      · rw [newlineSize_cons] at h
        split at h
        · rename_i hd
          obtain ⟨rfl, hhead⟩ := hd
          obtain ⟨rest, rfl⟩ := List.head?_eq_some_iff.1 hhead
          simp only [List.take_succ_cons, List.take_zero, List.mem_cons, List.not_mem_nil,
            or_false] at h
          rcases h with rfl | rfl <;> decide
        · split at h
          · rename_i hline
            rw [List.take_succ_cons, List.take_zero, List.mem_singleton] at h
            rw [h, isSpace, hline, Bool.or_true]
          · simp at h

/-- **A lexeme is read whichever text follows**, up to the whitespace that ends an escape. Between the
lexeme and the change stands `x`. -/
theorem Lexeme.Reads.swap {l : Lexeme} {x : List Char} (h : l.Reads (x ++ r)) (hr : Stop r)
    (hr' : Stops r') (hspace : l.token ≠ .whitespace)
    (hbad : l.token = .badString → x ≠ [] ∨ newlineAhead r = false)
    (hopen : l.token.opens? ≠ none → ∃ c ∈ x ++ r.take 1, StyleAudit.Sheet.isSpace c = false)
    (hlone : newlineAhead r = newlineAhead r' ∨ (x ≠ ['\\'] ∧ (x = [] → l.chars ≠ ['\\']))) :
    l.Reads (x ++ r') ∨ (x = [] ∧
      (⟨l.token, l.chars ++ r'.take (escapeTail r')⟩ : Lexeme).Reads (r'.drop (escapeTail r'))) := by
  have hreads := h
  obtain ⟨c, cs, hchars, htoken, hdrop⟩ := h
  rw [← List.append_assoc] at htoken hdrop
  -- the scanner stops between `cs` and `x`
  have hsize : (Token.next c (cs ++ x ++ r)).2 = cs.length := by
    have hpos := hr.length_pos
    have hlen := congrArg List.length hdrop
    simp only [List.length_drop, List.length_append] at hlen
    omega
  have hx : (cs ++ x).drop cs.length = x := List.drop_left
  have hkeeps := @keeps_next (cs ++ x) r r' hr hr' c (hreads.not_isSpace hspace hchars) (by
    intro heq
    obtain ⟨rfl, hnil⟩ := List.cons.inj heq
    obtain ⟨rfl, rfl⟩ := List.append_eq_nil_iff.1 hnil
    exact hlone.resolve_right fun h => h.2 rfl hchars)
  rw [Keeps, hsize, htoken, hx] at hkeeps
  obtain ⟨htoken', hext⟩ := hkeeps (by simp)
    (fun ht => (hbad ht).imp_left fun hne => by
      have := List.length_pos_of_ne_nil hne
      rw [List.length_append]
      omega)
    hopen (fun heq => hlone.resolve_right fun h => h.1 heq)
  rcases hext with hsame | ⟨hend, hmore⟩
  · refine .inl ⟨c, cs, hchars, ?_, ?_⟩
    · rw [← List.append_assoc, htoken']
    · rw [← List.append_assoc, hsame, List.append_assoc, List.drop_left]
  · have hnil : x = [] := by
      rw [List.length_append] at hend
      exact List.eq_nil_of_length_eq_zero (by omega)
    subst hnil
    rw [List.append_nil] at htoken' hmore
    have hcut : cs ++ r'.take (escapeTail r') ++ r'.drop (escapeTail r') = cs ++ r' := by
      rw [List.append_assoc, List.take_append_drop]
    refine .inr ⟨rfl, c, cs ++ r'.take (escapeTail r'), by simp [hchars], ?_, ?_⟩
    · rw [hcut, htoken']
    · rw [hcut, hmore, ← List.drop_drop, List.drop_left]

end StyleAudit.Sheet
