import StyleAudit.Text.Blank

/-! # Hexadecimal digits -/

namespace StyleAudit.Text

/-- The value of a hexadecimal digit. -/
def hexDigit? (c : Char) : Option Nat :=
  if c.isDigit then some (c.toNat - 48)
  else if 'a' ≤ c && c ≤ 'f' then some (c.toNat - 87)
  else if 'A' ≤ c && c ≤ 'F' then some (c.toNat - 55)
  else none

/-- The value of a run of hexadecimal digits, none if a character is not one. -/
def hexValue? (acc : Nat) : List Char → Option Nat
  | [] => some acc
  | c :: cs => (hexDigit? c).bind fun d => hexValue? (acc * 16 + d) cs

/-- No hexadecimal digit is a blank. -/
theorem isBlank_of_hexDigit? {c : Char} {d : Nat} (h : hexDigit? c = some d) :
    isBlank c = false := by
  have hrange : 0x20 < c.toNat ∧ c.toNat < 0x7F := by
    simp only [hexDigit?, Char.isDigit, Char.le_def, UInt32.le_iff_toNat_le, Bool.and_eq_true,
      decide_eq_true_eq, ge_iff_le] at h
    have h0 : '0'.val.toNat = 48 := rfl
    have h9 : '9'.val.toNat = 57 := rfl
    have ha : 'a'.val.toNat = 97 := rfl
    have hf : 'f'.val.toNat = 102 := rfl
    have hA : 'A'.val.toNat = 65 := rfl
    have hF : 'F'.val.toNat = 70 := rfl
    have hc : c.toNat = c.val.toNat := rfl
    split at h
    · omega
    · split at h
      · omega
      · split at h
        · omega
        · cases h
  exact isBlank_eq_false hrange.1 hrange.2

/-- The characters of a run of hexadecimal digits are no blanks. -/
theorem isBlank_of_hexValue? {acc n : Nat} {cs : List Char} (h : hexValue? acc cs = some n) :
    ∀ c ∈ cs, isBlank c = false := by
  induction cs generalizing acc with
  | nil => simp
  | cons c cs ih =>
      obtain ⟨d, hd, hrest⟩ := Option.bind_eq_some_iff.1 h
      intro b hb
      rcases List.mem_cons.1 hb with rfl | hb
      · exact isBlank_of_hexDigit? hd
      · exact ih hrest b hb

/-- The value of a hexadecimal digit in upper case. -/
def tableDigit (c : Char) : Nat := if c.isDigit then c.toNat - 48 else c.toNat - 55

end StyleAudit.Text
