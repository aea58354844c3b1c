import Mathlib
import StyleAudit.Script.Grammar
import StyleAudit.Proofs.Script.Run

/-! # Expressions of one operand

An expression without operators is asked for through all levels of the grammar: each production asks
for the next one and finds that nothing is added to what it reads.

* **`Token.StartsOperand`**, **`Token.EndsOperand`** — the tokens around such an operand.
* **`grammar_assignment_of_leftSide`**, **`grammar_assignment_of_element`** — the expression that is
  an operand.
* **`callArguments_singleton`**, **`parseLeftSide_call`** — calls with one argument. -/

namespace StyleAudit.Script

variable {call : Grammar} {c c' c₁ c₂ c₃ : Cursor} {e : Tree} {n : Nat}

/-! ## Tokens around an operand -/

/-- The words and marks that are no operand where an expression begins. -/
def operandSigns : List String :=
  ["await", "async", "yield", "(", "<", "++", "--"] ++ unaryOperators

/-- A token that is an operand or the beginning of one: a string, or a word that is no operator. -/
inductive Token.StartsOperand : Token → Prop
  | string (value : String) : StartsOperand (.string value)
  | word {text : String} (h : text ∉ operandSigns) : StartsOperand (.word text false)

/-- A token after which an operand, and the expression that it is, cannot go on. -/
inductive Token.EndsOperand : Token → Prop
  | paren : EndsOperand (.mark ")")
  | semicolon : EndsOperand (.mark ";")

/-- An operand does not begin with a word or mark that is none. -/
theorem Token.StartsOperand.isText_eq_false {t : Token} (h : t.StartsOperand) {s : String}
    (hs : s ∈ operandSigns) : t.isText s = false := by
  cases h with
  | string value => rfl
  | word htext =>
      simp only [isText, Bool.not_false, Bool.true_and, beq_eq_false_iff_ne]
      rintro rfl
      exact htext hs

/-- An operand does not begin with a private name. -/
theorem Token.StartsOperand.ne_privateName {t : Token} (h : t.StartsOperand) (s : String) :
    t ≠ .privateName s := by
  rintro rfl
  cases h

/-- What ends an operand is one of two marks. -/
theorem Token.EndsOperand.isText_eq_false {t : Token} (h : t.EndsOperand) {s : String}
    (hs : s ∉ [")", ";"]) : t.isText s = false := by
  simp only [List.mem_cons, List.not_mem_nil, or_false, not_or] at hs
  cases h with
  | paren => simpa [isText] using Ne.symm hs.1
  | semicolon => simpa [isText] using Ne.symm hs.2

/-! ## Operators that are not there -/

/-- The test for an operand on the same line has a result. -/
theorem exists_operandFollowsInline (c : Cursor) : ∃ b, operandFollowsInline c = some (b, c) :=
  ⟨_, run_nextIs c _⟩

/-- A member access or call is an operand if neither side has an operator. -/
theorem parseUnary_leftSide (hstart : c.token.StartsOperand)
    (he : call .leftSide c = some (e, c')) (hend : c'.token.EndsOperand) :
    parseUnary call c = some (e, c') := by
  obtain ⟨b, hinline⟩ := exists_operandFollowsInline c
  have hunary : unaryOperators.any c.token.isText = false := List.any_eq_false.2 fun s hs => by
    rw [hstart.isText_eq_false (List.mem_append_right _ hs)]
    exact Bool.false_ne_true
  have hangle := hstart.isText_eq_false (s := "<") (by decide)
  have hawait := hstart.isText_eq_false (s := "await") (by decide)
  have hplus := hstart.isText_eq_false (s := "++") (by decide)
  have hminus := hstart.isText_eq_false (s := "--") (by decide)
  have hplusEnd := hend.isText_eq_false (s := "++") (by decide)
  have hminusEnd := hend.isText_eq_false (s := "--") (by decide)
  simp [parseUnary, hinline, hunary, hangle, hawait, hplus, hminus, he, hplusEnd, hminusEnd]

/-- An element is an operand. -/
theorem parseUnary_element (hopen : c.token = .mark "<") (helements : c.elements = true)
    (he : call .element c = some (e, c')) : parseUnary call c = some (e, c'.next) := by
  simp [parseUnary, hopen, unaryOperators, helements, he]

/-- An operand before the end of an expression has no binary operator after it. -/
theorem parseBinary_unary {level : Nat} (hstart : ∀ s, c.token ≠ .privateName s)
    (he : call .unary c = some (e, c')) (hend : c'.token.EndsOperand) :
    parseBinary call level c = some (e, c') := by
  have hlast : binaryStep call level e c' = some (none, c') := by
    generalize htoken : c'.token = t at hend
    cases hend <;>
      simp [binaryStep, currentLevel?, widenAngle, htoken, Token.text?, operatorLevel]
  unfold parseBinary
  cases htoken : c.token with
  | privateName s => exact absurd htoken (hstart s)
  | _ => simp [htoken, run_fold_self hlast, he]

/-- No arrow function begins with an operand. -/
theorem judgeArrow_operand (hstart : c.token.StartsOperand) : judgeArrow c = some (.no, c) := by
  have hasync := hstart.isText_eq_false (s := "async") (by decide)
  have hparen := hstart.isText_eq_false (s := "(") (by decide)
  have hangle := hstart.isText_eq_false (s := "<") (by decide)
  simp [judgeArrow, hasync, hparen, hangle]

/-- No arrow function begins with a tag that has an attribute. -/
theorem judgeArrow_tag {name key : String} (hopen : c.token = .mark "<")
    (helements : c.elements = true) (hname : c.next.token = .word name false)
    (hreserved : name ∉ reservedWords) (hkey : c.next.next.token = .word key false)
    (hsign : key ∉ ["extends", ",", "="]) : judgeArrow c = some (.no, c) := by
  have hconst : name ≠ "const" := by
    rintro rfl
    exact hreserved (by decide)
  simp only [List.mem_cons, List.not_mem_nil, or_false, not_or] at hsign
  simp [judgeArrow, judgeAngle, hopen, helements, seesVariable, hname,
    Token.isVariable, hreserved, hconst, hkey, hsign]

/-- An operand before the end of an expression is the expression. -/
theorem parseAssignment_binary {returnTypes : Bool} (hyield : c.token.isText "yield" = false)
    (hasync : c.token.isText "async" = false) (harrow : judgeArrow c = some (.no, c))
    (he : call (.binary 0) c = some (e, c')) (hend : c'.token.EndsOperand) :
    parseAssignment call returnTypes c = some (e, c') := by
  obtain ⟨b, hinline⟩ := exists_operandFollowsInline c
  have hrest : assignmentRest call returnTypes e c' = some (e, c') := by
    generalize htoken : c'.token = t at hend
    cases hend <;>
      simp [assignmentRest, conditionalRest, htoken, Token.text?, assignOperators]
  simp [parseAssignment, hyield, hasync, hinline, arrowFunction?, harrow, asyncArrow?, he, hrest]

/-- **A member access or call is an expression** if no operator follows it. -/
theorem grammar_assignment_of_leftSide (hstart : c.token.StartsOperand)
    (he : grammar n .leftSide c = some (e, c')) (hend : c'.token.EndsOperand) :
    grammar (n + 3) (.assignment true) c = some (e, c') := by
  have hunary : grammar (n + 1) .unary c = some (e, c') := parseUnary_leftSide hstart he hend
  have hbinary : grammar (n + 2) (.binary 0) c = some (e, c') :=
    parseBinary_unary hstart.ne_privateName hunary hend
  exact parseAssignment_binary (hstart.isText_eq_false (by decide))
    (hstart.isText_eq_false (by decide)) (judgeArrow_operand hstart) hbinary hend

/-- **An element is an expression** if no operator follows it. -/
theorem grammar_assignment_of_element (hopen : c.token = .mark "<") (helements : c.elements = true)
    (harrow : judgeArrow c = some (.no, c)) (he : grammar n .element c = some (e, c'))
    (hend : c'.next.token.EndsOperand) :
    grammar (n + 3) (.assignment true) c = some (e, c'.next) := by
  have hunary : grammar (n + 1) .unary c = some (e, c'.next) :=
    parseUnary_element hopen helements he
  have hbinary : grammar (n + 2) (.binary 0) c = some (e, c'.next) :=
    parseBinary_unary (by simp [hopen]) hunary hend
  exact parseAssignment_binary (by rw [hopen]; rfl) (by rw [hopen]; rfl) harrow hbinary hend

/-! ## Strings and calls -/

/-- No member access follows an operand at its end. -/
theorem memberRest_end {chain : Chain} (hend : c.token.EndsOperand) :
    memberRest call chain c = some (chain, c) := by
  refine run_fold_self ?_
  generalize htoken : c.token = t at hend
  cases hend <;> simp [memberStep, htoken]

/-- No call follows an operand at its end. -/
theorem callStep_end {chain : Chain} (hend : c.token.EndsOperand) :
    callStep call chain c = some (none, c) := by
  have hparen := hend.isText_eq_false (s := "(") (by decide)
  have hchain := hend.isText_eq_false (s := "?.") (by decide)
  simp [callStep, hparen, hchain]

/-- A string is an operand. -/
theorem parseLeftSide_string {value : String} (hstring : c.token = .string value)
    (hend : c.next.token.EndsOperand) :
    parseLeftSide call c = some (.leaf (.string value), c.next) := by
  simp [parseLeftSide, primary, hstring, memberRest_end hend, run_fold_self (callStep_end hend),
    Chain.toTree]

/-- An expression in parentheses after a callee is its argument. -/
theorem callArguments_singleton (hopen : c.token = .mark "(") (hsetting : c.setting = {})
    (hspread : c.next.token.isText "..." = false) (hempty : c.next.token.isText ")" = false)
    (he : call (.assignment true) c.next = some (e, c')) (hclose : c'.token = .mark ")")
    (hkeep : c'.setting = {}) : callArguments call c = some ([e], c'.next) := by
  have hnext : c.next.setting = {} := by rw [c.setting_next, hsetting]
  have hitem : assignment call c.next = some (e, c') :=
    run_within (by rw [hnext]) he (by rw [hkeep, hnext])
  have hlist : commaListTo ")" (do
      if ← take "..." then return .node .spread [← assignment call] else assignment call) c.next =
        some ([e], c'.next) :=
    run_commaListTo_singleton hempty (by simp [hspread, hitem]) (by simp [hclose])
  have hkept : c'.next.setting = c.next.setting := by rw [c'.setting_next, hkeep, hnext]
  simp only [callArguments, run_bind, run_need, hopen, Token.isText_mark, beq_self_eq_true, if_true,
    Option.bind_some]
  exact run_within (by rw [hnext]) hlist hkept

/-- **A call with one argument.** -/
theorem parseLeftSide_call {first arg : Tree} {callee : Chain}
    (hfirst : primary call c = some (first, c₁))
    (hcallee : memberRest call ⟨first, false⟩ c₁ = some (callee, c₂))
    (hplain : callee.optional = false) (hopen : c₂.token = .mark "(")
    (harg : callArguments call c₂ = some ([arg], c')) (hend : c'.token.EndsOperand) :
    parseLeftSide call c = some (callOf callee.tree [] [arg], c') := by
  have hstep : callStep call callee c₂ =
      some (some { callee with tree := callOf callee.tree [] [arg] }, c') := by
    simp [callStep, hopen, harg, memberRest_end hend]
  simp [parseLeftSide, hfirst, hcallee, run_fold_step hstep (callStep_end hend), Chain.toTree,
    hplain]

end StyleAudit.Script
