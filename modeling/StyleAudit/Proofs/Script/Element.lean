import Mathlib
import StyleAudit.Script.Grammar
import StyleAudit.Proofs.Script.Run

/-! # Elements with one attribute

An element that has one attribute with a string for its value, and nothing in it. Whatever stands
between the quotes is the value.

* **`scanRaw_append`**, **`attributeValue_quoted`** — the value.
* **`elementAttribute_value`** — the attribute.
* **`parseElement_void`** — the element. -/

namespace StyleAudit.Script

variable {call : Grammar} {c c' c₁ c₂ : Cursor} {e : Tree}

/-- Nothing is escaped in a string of an element. -/
theorem scanRaw_append {quote : Char} {value rest : List Char} (h : quote ∉ value) :
    scanRaw quote (value ++ quote :: rest) = some (value, rest) := by
  induction value with
  | nil => simp [scanRaw]
  | cons d value ih =>
      obtain ⟨hd, hvalue⟩ := not_or.1 (mt List.mem_cons.2 h)
      simp [scanRaw, Ne.symm hd, ih hvalue]

/-- The value of an attribute is what stands between its quotes. -/
theorem attributeValue_quoted {key : String} {value rest : List Char} (h : '"' ∉ value)
    (hafter : c.after = '"' :: (value ++ '"' :: rest)) :
    attributeValue call key c =
      some (.leaf (.attribute key (String.ofList value)), c.moveTo rest) := by
  have htrivia : skipTrivia .gap false ('"' :: (value ++ '"' :: rest)) =
      some (false, '"' :: (value ++ '"' :: rest)) :=
    skipTrivia_of_visible false (by decide) (by decide) (by decide)
  simp [attributeValue, hafter, htrivia, scanRaw_append h]

/-- An attribute is a name, `=` and a value. -/
theorem elementAttribute_value {word : Unbroken} {name : String}
    (hname : c.token = .word name false) (hbrace : name ≠ openBrace)
    (hword : elementWord c = some (word, c₁)) (hequals : c₁.token = .mark "=")
    (hvalue : attributeValue call word.text c₁ = some (e, c')) :
    elementAttribute call c = some (e, c') := by
  simp [elementAttribute, hname, hbrace, hword, hequals, hvalue]

/-- **An element with one attribute and nothing in it.** -/
theorem parseElement_void {name : ElementName} {key : String} (hopen : c.token = .mark "<")
    (hbegin : c.next.token.isText ">" = false) (hname : elementName c.next = some (name, c₁))
    (hkey : c₁.token = .word key false) (hsign : key ∉ ["<", "<<", "/", ">"])
    (hattribute : elementAttribute call c₁ = some (e, c₂)) (hslash : c₂.token = .mark "/")
    (hclose : c₂.next.token = .mark ">") :
    parseElement call c = some (.node (.element name.tag) [e], c₂.next) := by
  simp only [List.mem_cons, List.not_mem_nil, or_false, not_or] at hsign
  have htypes : typeArguments? call c₁ = some ([], c₁) := by
    simp [typeArguments?, hkey, hsign]
  have hattributes : Parse.many (do
      if (← sees "/") || (← sees ">") then return none
      return some (← elementAttribute call)) c₁ = some ([e], c₂) :=
    run_many_singleton (by simp [hkey, hsign, hattribute]) (by simp [hslash])
  simp only [parseElement, run_bind, run_need, run_sees, run_take, run_ite, run_pure, hopen, hbegin,
    hname, htypes, hattributes, hslash, hclose, Token.isText_mark, beq_self_eq_true, if_true,
    Option.bind_some, Bool.false_eq_true, if_false, List.nil_append]

end StyleAudit.Script
