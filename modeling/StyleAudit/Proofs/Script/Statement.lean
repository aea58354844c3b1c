import Mathlib
import StyleAudit.Script.Grammar
import StyleAudit.Proofs.Script.Run

/-! # Scripts of one statement

* **`parseStatement_expression`** — a statement that is an expression.
* **`parseStatement_const`** — the declaration of a constant.
* **`parse?_statement`** — scripts of one statement. -/

namespace StyleAudit.Script

variable {call : Grammar} {c c' c₁ : Cursor} {e : Tree}

/-! ## Expressions -/

/-- A statement that is an expression. -/
theorem parseStatement_expression {single : Bool} {text : String}
    (htoken : c.token = .word text false)
    (hkeyword : keywordStatement? call single text = pure none)
    (hcontext : contextualStatement? call single text = pure none)
    (hsetting : c.setting = {}) (he : call (.assignment true) c = some (e, c'))
    (hname : e.isName = false) (hend : c'.token = .mark ";") (hkeep : c'.setting = {}) :
    parseStatement call single c = some (e, c'.next) := by
  have hexpression : expression call c = some (e, c') := by
    simp [expression, he, hend, run_many_nil]
  have hfull : fullExpression call c = some (e, c') :=
    run_within (by rw [hsetting]) hexpression (by rw [hkeep, hsetting])
  simp [parseStatement, htoken, hkeyword, hcontext, expressionStatement, hfull, hname, endStatement,
    hend]

/-! ## Constants -/

/-- A list that no comma goes on has one item. -/
theorem commaRun_singleton {α : Type} {item : Parse α} {a : α} (hitem : item c = some (a, c'))
    (hend : c'.token.isText "," = false) : commaRun item c = some ([a], c') := by
  simp [commaRun, hitem, hend, run_many_nil]

/-- A constant with its value. -/
theorem variableList_constant (hbinding : call .binding c = some (.blank, c₁))
    (hequals : c₁.token = .mark "=") (he : call (.assignment true) c₁.next = some (e, c'))
    (hend : c'.token = .mark ";") :
    variableList call true c = some (.plain [.plain [.blank, e]], c') := by
  have hdeclarator : declarator call true c = some ((.plain [.blank, e], false), c') := by
    simp [declarator, hbinding, hequals, he, annotation?]
  have hrun := commaRun_singleton hdeclarator (by simp [hend])
  simp [variableList, declarators, hrun]

/-- The declaration of a constant. -/
theorem parseStatement_const (htoken : c.token = .word "const" false)
    (henum : c.next.token.isText "enum" = false)
    (hbinding : call .binding c.next = some (.blank, c₁)) (hequals : c₁.token = .mark "=")
    (he : call (.assignment true) c₁.next = some (e, c')) (hend : c'.token = .mark ";") :
    parseStatement call false c = some (.plain [.plain [.blank, e]], c'.next) := by
  have hvariables := variableList_constant hbinding hequals he hend
  have hkeyword : keywordStatement? call false "const" c =
      some (some (.plain [.plain [.blank, e]]), c'.next) := by
    simp [keywordStatement?, henum, hvariables, endStatement, hend]
  simp [parseStatement, htoken, hkeyword]

/-! ## Scripts -/

/-- **A script of one statement.** -/
theorem parse?_statement {elements : Bool} {cs : List Char} {tree : Tree}
    (hstart : (Cursor.start elements cs).token ≠ .done)
    (h : ∀ n, grammar (n + 16) (.statement false) (.start elements cs) = some (tree, c'))
    (hdone : c'.token = .done) (hsound : c'.sound = true) (hsettled : tree.isSettled = true) :
    parse? elements cs = some (.plain [tree]) := by
  have hdepth : depthFor cs = 16 * cs.length + 16 + 16 := by unfold depthFor; omega
  have hscript : script (grammar (depthFor cs)) (.start elements cs) =
      some (.plain [tree], c') := by
    rw [hdepth]
    have := h (16 * cs.length + 16)
    simp [script, Parse.many, collect, hstart, this, hdone]
  have hplain : (Tree.plain [tree]).isSettled = true := by
    simp [Tree.plain, Tree.isSettled, Tree.areSettled, hsettled]
  simp [parse?, hscript, hsound, hplain]

end StyleAudit.Script
