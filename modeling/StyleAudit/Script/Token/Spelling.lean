import StyleAudit.Script.Token.Scan

/-! # Words as they are written

A token holds a word with its escapes resolved. An element is named by the word as it is written.

* **`spelledWord`** — the characters of the word that a text begins with.
* **`isBlank_of_mem_spelledWord`** — no blank is among them. -/

namespace StyleAudit.Script

/-- Whether a character may stand in a word without an escape. -/
def mayStand (first : Bool) (c : Char) : Bool :=
  if first then Text.isIdentifierStart c else Text.isIdentifierPart c

/-- The characters of a word, after `skip` characters of an escape that belong to it too. -/
def spelledWordFrom (first : Bool) : (skip : Nat) → List Char → List Char
  | _, [] => []
  | skip + 1, c :: cs => c :: spelledWordFrom first skip cs
  | 0, c :: cs =>
      if mayStand first c then c :: spelledWordFrom false 0 cs
      else if c = '\\' then
        match scanUnicodeEscape cs with
        | some (_, size) => c :: spelledWordFrom false size cs
        | none => []
      else []

/-- The characters of the word that a text begins with, as they are written. -/
def spelledWord (cs : List Char) : List Char := spelledWordFrom true 0 cs

/-! ## No blanks -/

/-- The digits of `\u{…}` and its brace are no blanks. -/
theorem isBlank_of_scanBraced {acc n size : Nat} {cs : List Char}
    (h : scanBraced acc cs = some (n, size)) : ∀ c ∈ cs.take size, Text.isBlank c = false := by
  induction cs generalizing acc n size with
  | nil => simp
  | cons d cs ih =>
      unfold scanBraced at h
      split at h
      · cases h
      · next heq =>
        cases heq
        cases h
        simp only [List.take_succ_cons, List.take_zero, List.mem_singleton, forall_eq]
        decide
      · next heq =>
        cases heq
        split at h
        · next hd =>
          split at h
          · obtain ⟨⟨v, k⟩, hrest, heq⟩ := Option.map_eq_some_iff.1 h
            cases heq
            intro c hc
            rw [List.take_succ_cons, List.mem_cons] at hc
            rcases hc with rfl | hc
            · exact Text.isBlank_of_hexDigit? hd
            · exact ih hrest c hc
          · cases h
        · cases h

/-- The characters of a Unicode escape are no blanks. -/
theorem isBlank_of_scanUnicodeEscape {cs : List Char} {n size : Nat}
    (h : scanUnicodeEscape cs = some (n, size)) :
    ∀ c ∈ cs.take size, Text.isBlank c = false := by
  unfold scanUnicodeEscape at h
  split at h
  · cases h
  · obtain ⟨⟨v, k⟩, hrest, heq⟩ := Option.map_eq_some_iff.1 h
    cases heq
    simp only [List.take_succ_cons, List.mem_cons]
    rintro c (rfl | rfl | hc)
    · decide
    · decide
    · exact isBlank_of_scanBraced hrest c hc
  · obtain ⟨v, hvalue, heq⟩ := Option.map_eq_some_iff.1 h
    cases heq
    intro c hc
    rw [List.take_succ_cons, List.mem_cons] at hc
    rcases hc with rfl | hc
    · decide
    · exact Text.isBlank_of_hexValue? hvalue c (by simpa using hc)
  · cases h

/-- A character that may stand in a word is no blank. -/
theorem isBlank_of_mayStand {first : Bool} {c : Char} (h : mayStand first c = true) :
    Text.isBlank c = false := by
  cases first with
  | true =>
      exact Text.isBlank_eq_false_of_isIdentifierPart
        (Text.isIdentifierPart_of_isIdentifierStart h)
  | false => exact Text.isBlank_eq_false_of_isIdentifierPart h

/-- The rest of a word holds no blank if the characters of its escape do not. -/
theorem isBlank_of_mem_spelledWordFrom {first : Bool} {skip : Nat} {cs : List Char}
    (hskip : ∀ c ∈ cs.take skip, Text.isBlank c = false) :
    ∀ c ∈ spelledWordFrom first skip cs, Text.isBlank c = false := by
  induction cs generalizing first skip with
  | nil => cases skip <;> simp [spelledWordFrom]
  | cons d cs ih =>
      cases skip with
      | succ skip =>
          rw [List.take_succ_cons] at hskip
          rw [spelledWordFrom]
          refine List.forall_mem_cons.2 ⟨hskip d List.mem_cons_self, ?_⟩
          exact ih fun c hc => hskip c (List.mem_cons_of_mem _ hc)
      | zero =>
          rw [spelledWordFrom]
          split
          · next hstands =>
            exact List.forall_mem_cons.2 ⟨isBlank_of_mayStand hstands, ih (by simp)⟩
          · split
            · next hslash =>
              split
              · next hescape =>
                refine List.forall_mem_cons.2 ⟨by rw [hslash]; decide, ?_⟩
                exact ih (isBlank_of_scanUnicodeEscape hescape)
              · simp
            · simp

/-- **No blank is in a word as it is written.** -/
theorem isBlank_of_mem_spelledWord {cs : List Char} :
    ∀ c ∈ spelledWord cs, Text.isBlank c = false :=
  isBlank_of_mem_spelledWordFrom (by simp)

end StyleAudit.Script
