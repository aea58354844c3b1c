import Mathlib
import StyleAudit.Script.Usage
import StyleAudit.Proofs.Script.Operand
import StyleAudit.Proofs.Script.Element
import StyleAudit.Proofs.Script.Statement

/-! # What a single name is used for

The shortest texts that refer to a selector: a call with one string, and a constant that is an
element with one attribute. What they use is read off the string alone, whatever it is.

* **`Cursor.moveTo_string`** — the token of a string in which nothing is escaped.
* **`Calls`**, **`parse?_call`** — scripts that are a call.
* **`grammar_assignment_atTag`**, **`parse?_constElement`** — components that are an element.
* **`usedByScript_classListAdd`**, **`usedByScript_getElementById`**,
  **`usedByComponent_attribute`** — what they use. -/

namespace StyleAudit.Script

variable {c c' c₁ : Cursor} {cs rest : List Char} {v word : String}

/-! ## Strings -/

/-- Whether a character stands for itself in a string with double quotes. -/
def IsPlain (d : Char) : Prop := d ∉ ['"', '\\', '\n', '\r']

/-- A string up to its quote is read as its characters. -/
theorem scanStringFrom_append {value : List Char} (h : ∀ d ∈ value, IsPlain d) :
    scanStringFrom '"' 0 (value ++ '"' :: rest) = some (value.map Char.toNat, rest) := by
  induction value with
  | nil => simp [scanStringFrom]
  | cons d value ih =>
      obtain ⟨hd, hvalue⟩ := List.forall_mem_cons.1 h
      simp only [IsPlain, List.mem_cons, List.not_mem_nil, or_false, not_or] at hd
      obtain ⟨hquote, hslash, hfeed, hreturn⟩ := hd
      simp [scanStringFrom, hquote, hslash, hfeed, hreturn, ih hvalue]

/-- No character is half a pair. -/
theorem isHalf_toNat (d : Char) : (isHighHalf d.toNat || isLowHalf d.toNat) = false := by
  have hvalid : d.toNat < 0xD800 ∨ (0xDFFF < d.toNat ∧ d.toNat < 0x110000) := d.valid
  simp only [isHighHalf, isLowHalf, Bool.or_eq_false_iff, Bool.and_eq_false_iff,
    decide_eq_false_iff_not, not_le]
  omega

/-- The text of the code points of characters is these characters. -/
theorem textOfPoints_map_toNat (value : List Char) :
    textOfPoints (value.map Char.toNat) = value := by
  have hany : (value.map Char.toNat).any (fun n => isHighHalf n || isLowHalf n) = false := by
    rw [List.any_map, List.any_eq_false]
    exact fun d _ => by simp [isHalf_toNat]
  have hback : Char.ofNat ∘ Char.toNat = id := funext Char.ofNat_toNat
  simp only [textOfPoints, hany, Bool.false_eq_true, if_false, List.map_map, hback, List.map_id]

/-- **A string in which nothing is escaped is one token.** -/
theorem Cursor.moveTo_string (h : ∀ d ∈ v.toList, IsPlain d) :
    c.moveTo ('"' :: (v.toList ++ '"' :: rest)) =
      { c with
        token := .string v, here := '"' :: (v.toList ++ '"' :: rest), after := rest,
        newline := false } := by
  have hskip : skipTrivia .gap false ('"' :: (v.toList ++ '"' :: rest)) =
      some (false, '"' :: (v.toList ++ '"' :: rest)) :=
    skipTrivia_of_visible false (by decide) (by decide) (by decide)
  have hscan : scanToken ('"' :: (v.toList ++ '"' :: rest)) = (.string v, rest) := by
    have hstart : Text.isIdentifierStart '"' = false := by decide
    have hdigit : Char.isDigit '"' = false := by decide
    simp [scanToken, hstart, hdigit, scanStringFrom_append h, textOfPoints_map_toNat]
  simp only [moveTo, hskip, hscan]

/-! ## Calls -/

/-- The arguments of a call with one string. -/
theorem callArguments_string {n : Nat} (hopen : c.token = .mark "(") (hsetting : c.setting = {})
    (hstring : c.next.token = .string v) (hclose : c.next.next.token = .mark ")") :
    callArguments (grammar (n + 4)) c = some ([.leaf (.string v)], c.next.next.next) := by
  have hstart : c.next.token.StartsOperand := hstring ▸ .string v
  have hend : c.next.next.token.EndsOperand := hclose ▸ .paren
  have harg : grammar (n + 4) (.assignment true) c.next =
      some (.leaf (.string v), c.next.next) :=
    grammar_assignment_of_leftSide hstart (parseLeftSide_string hstring hend) hend
  exact callArguments_singleton hopen hsetting (by rw [hstring]; rfl) (by rw [hstring]; rfl) harg
    hclose (by simpa using hsetting)

/-- How a script begins up to the parenthesis of a call, whatever follows: with a word, and the
member access that is called. -/
structure Calls (opening : String) (method : String) (object : Tree) where
  word : String
  first : Tree
  word_not_mem : word ∉ operandSigns
  keyword (call : Grammar) : keywordStatement? call false word = pure none
  context (call : Grammar) : contextualStatement? call false word = pure none
  token (tail : List Char) :
    (Cursor.start false (opening.toList ++ '(' :: tail)).token = .word word false
  setting (tail : List Char) : (Cursor.start false (opening.toList ++ '(' :: tail)).setting = {}
  primary (call : Grammar) (tail : List Char) :
    primary call (.start false (opening.toList ++ '(' :: tail)) =
      some (first, (Cursor.start false (opening.toList ++ '(' :: tail)).next)
  callee (call : Grammar) (tail : List Char) :
    memberRest call ⟨first, false⟩ (Cursor.start false (opening.toList ++ '(' :: tail)).next =
      some (⟨.node (.member method) [object], false⟩,
        ⟨.mark "(", '(' :: tail, tail, false, {}, false, true⟩)
  isSettled : object.isSettled = true

/-- **A script that is the call of a member with one string.** -/
theorem parse?_call {opening method : String} {object : Tree} (hcalls : Calls opening method object)
    (h : ∀ d ∈ v.toList, IsPlain d) :
    parse? false (opening.toList ++ '(' :: '"' :: (v.toList ++ "\");".toList)) = some (.plain
      [.node .call [.node (.member method) [object], .leaf (.string v)]]) := by
  let quoted := v.toList ++ "\");".toList
  let text := opening.toList ++ '(' :: '"' :: quoted
  let c : Cursor := ⟨.mark "(", '(' :: '"' :: quoted, '"' :: quoted, false, {}, false, true⟩
  let tree : Tree := .node .call [.node (.member method) [object], .leaf (.string v)]
  have hstring : c.next = ⟨.string v, '"' :: quoted, ");".toList, false, {}, false, true⟩ :=
    Cursor.moveTo_string h
  have hclose : c.next.next.token = .mark ")" := by rw [hstring]; rfl
  have hend : c.next.next.next.token = .mark ";" := by rw [hstring]; rfl
  have hstop : c.next.next.next.token.EndsOperand := hend ▸ .semicolon
  -- from the inside out: each goal needs the one before, at a depth that is left open
  have hcall (n : Nat) : grammar (n + 5) .leftSide (.start false text) =
      some (tree, c.next.next.next) :=
    parseLeftSide_call (hcalls.primary _ _) (hcalls.callee _ _) rfl rfl
      (callArguments_string rfl rfl (by rw [hstring]) hclose) hstop
  have hexpression (n : Nat) : grammar (n + 8) (.assignment true) (.start false text) =
      some (tree, c.next.next.next) :=
    grammar_assignment_of_leftSide (hcalls.token _ ▸ .word hcalls.word_not_mem) (hcall n) hstop
  have hstatement (n : Nat) : grammar (n + 9) (.statement false) (.start false text) =
      some (tree, c.next.next.next.next) :=
    parseStatement_expression (hcalls.token _) (hcalls.keyword _) (hcalls.context _)
      (hcalls.setting _) (hexpression n) rfl hend (by rw [hstring]; rfl)
  refine parse?_statement (by simp [hcalls.token]) (fun n => hstatement (n + 7))
    (by rw [hstring]; rfl) (by rw [hstring]; rfl) ?_
  simp [Tree.isSettled, Tree.areSettled, Tree.leaf, hcalls.isSettled]

/-- A script that can be read uses what its calls do. -/
theorem usedByScript_of_parse? {text : String} {tree : Tree}
    (h : parse? false text.toList = some tree) :
    usedByScript text = .ofList (tree.gather visitCall) := by
  unfold usedByScript
  rw [h]

/-- **A call with one string** uses what the call does. -/
theorem usedByScript_call {opening method text : String} {object : Tree}
    (hcalls : Calls opening method object) (hobject : object.gather visitCall = [])
    (htext : text.toList = opening.toList ++ '(' :: '"' :: (v.toList ++ "\");".toList))
    (h : ∀ d ∈ v.toList, IsPlain d) :
    usedByScript text =
      .ofList (callSelectors (.node (.member method) [object]) [.leaf (.string v)]) := by
  have hparse := parse?_call hcalls h
  rw [← htext] at hparse
  rw [usedByScript_of_parse? hparse]
  simp [Tree.plain, Tree.leaf, Tree.gather, Tree.gatherAll, visitCall, hobject]

/-- A call of `add` on the classes of a variable. -/
def callsClassListAdd :
    Calls "e.classList.add" "add" (.node (.member "classList") [.leaf (.name "e")]) where
  word := "e"
  first := .leaf (.name "e")
  word_not_mem := by decide
  keyword _ := rfl
  context _ := rfl
  token _ := rfl
  setting _ := rfl
  primary _ _ := by cbv
  callee _ _ := by cbv
  isSettled := rfl

/-- A call of `getElementById` on the document. -/
def callsGetElementById :
    Calls "document.getElementById" "getElementById" (.leaf (.name "document")) where
  word := "document"
  first := .leaf (.name "document")
  word_not_mem := by decide
  keyword _ := rfl
  context _ := rfl
  token _ := rfl
  setting _ := rfl
  primary _ _ := by cbv
  callee _ _ := by cbv
  isSettled := rfl

/-- **Adding a class** to the classes of a variable uses the class. -/
theorem usedByScript_classListAdd (h : ∀ d ∈ v.toList, IsPlain d) :
    usedByScript ("e.classList.add(\"" ++ v ++ "\");") = .ofList (classSelectors v) := by
  have htext : ("e.classList.add(\"" ++ v ++ "\");").toList =
      "e.classList.add".toList ++ '(' :: '"' :: (v.toList ++ "\");".toList) := by simp
  rw [usedByScript_call callsClassListAdd rfl htext h]
  simp [callSelectors, stringValue?, Tree.leaf, Tree.label]

/-- **Looking up an element by its id** uses the id. -/
theorem usedByScript_getElementById (h : ∀ d ∈ v.toList, IsPlain d) :
    usedByScript ("document.getElementById(\"" ++ v ++ "\");") = .ofList (idSelectors v) := by
  have htext : ("document.getElementById(\"" ++ v ++ "\");").toList =
      "document.getElementById".toList ++ '(' :: '"' :: (v.toList ++ "\");".toList) := by simp
  rw [usedByScript_call callsGetElementById rfl htext h]
  simp [callSelectors, documentSelectors, stringValue?, Tree.leaf, Tree.label]

/-! ## Elements -/

/-- A plain name that is a tag is the name of an element. -/
theorem elementName_tag {w : Unbroken} {tag : TagName} (hword : elementWord c = some (w, c₁))
    (htext : w.text = tag.text) (htag : isTagName tag.text = true)
    (hcolon : c₁.token.isText ":" = false) (hpoint : c₁.token.isText "." = false) :
    elementName c = some (⟨tag.text, some tag⟩, c₁) := by
  have hsame : w.tag? = some tag := by
    have hw : isTagName w.text = true := by rw [htext, htag]
    rw [Unbroken.tag?, dif_pos hw]
    congr 2
  simp [elementName, hword, hcolon, hpoint, htext, hsame]

/-- The tag of the elements here. -/
def divTag : TagName := ⟨"div", by decide⟩

/-- What follows the `<` of an element with one attribute, up to the end of the statement. -/
def tagChars (key v : String) : List Char :=
  ['d', 'i', 'v', ' '] ++ (key.toList ++ '=' :: '"' :: (v.toList ++ ['"', ' ', '/', '>', ';']))

/-- The cursor at the `<` of the element. -/
def atTag (key v : String) : Cursor :=
  ⟨.mark "<", '<' :: tagChars key v, tagChars key v, false, {}, true, true⟩

/-- The cursor at the `/` of the element. -/
def atSlash : Cursor := ⟨.mark "/", ['/', '>', ';'], ['>', ';'], false, {}, true, true⟩

variable {key : String}

/-- The key of the attribute is the second word of the tag. -/
theorem token_atTag (hkey : key = "className" ∨ key = "id") :
    (atTag key v).next.next.token = .word key false := by
  rcases hkey with rfl | rfl <;> rfl

/-- The first word of the tag is its name. -/
theorem elementName_atTag (hkey : key = "className" ∨ key = "id") :
    elementName (atTag key v).next = some (⟨"div", some divTag⟩, (atTag key v).next.next) := by
  obtain ⟨w, hword, hw⟩ : ∃ w : Unbroken, elementWord (atTag key v).next =
      some (w, (atTag key v).next.next) ∧ w.text = divTag.text := by
    rcases hkey with rfl | rfl <;> exact ⟨_, rfl, rfl⟩
  refine elementName_tag hword hw (by decide) ?_ ?_ <;> rcases hkey with rfl | rfl <;> rfl

/-- The attribute is read up to its closing quote, whatever stands before that. -/
theorem elementAttribute_atTag (call : Grammar) (hkey : key = "className" ∨ key = "id")
    (h : '"' ∉ v.toList) :
    elementAttribute call (atTag key v).next.next = some (.leaf (.attribute key v), atSlash) := by
  let quoted := v.toList ++ ['"', ' ', '/', '>', ';']
  let c : Cursor := ⟨.mark "=", '=' :: '"' :: quoted, '"' :: quoted, false, {}, true, true⟩
  obtain ⟨w, hword, hw⟩ : ∃ w : Unbroken,
      elementWord (atTag key v).next.next = some (w, c) ∧ w.text = key := by
    rcases hkey with rfl | rfl <;> exact ⟨_, rfl, rfl⟩
  have hbrace : key ≠ openBrace := by
    rcases hkey with rfl | rfl <;> decide
  have hquoted : c.after = '"' :: (v.toList ++ '"' :: [' ', '/', '>', ';']) := rfl
  have hrest : c.moveTo [' ', '/', '>', ';'] = atSlash := rfl
  have hvalue : attributeValue call w.text c = some (.leaf (.attribute key v), atSlash) := by
    rw [attributeValue_quoted h hquoted, String.ofList_toList, hw, hrest]
  exact elementAttribute_value (token_atTag hkey) hbrace hword rfl hvalue

/-- **The element is an expression** up to the end of the statement. -/
theorem grammar_assignment_atTag (n : Nat) (hkey : key = "className" ∨ key = "id")
    (h : '"' ∉ v.toList) :
    grammar (n + 4) (.assignment true) (atTag key v) =
      some (.node (.element (some divTag)) [.leaf (.attribute key v)], atSlash.next.next) := by
  have hsigns : key ∉ ["extends", ",", "="] ∧ key ∉ ["<", "<<", "/", ">"] := by
    rcases hkey with rfl | rfl <;> decide
  have hname : (atTag key v).next.token = .word "div" false := rfl
  have harrow : judgeArrow (atTag key v) = some (.no, atTag key v) :=
    judgeArrow_tag rfl rfl hname (by decide) (token_atTag hkey) hsigns.1
  have helement : grammar (n + 1) .element (atTag key v) =
      some (.node (.element (some divTag)) [.leaf (.attribute key v)], atSlash.next) :=
    parseElement_void rfl rfl (elementName_atTag hkey) (token_atTag hkey) hsigns.2
      (elementAttribute_atTag _ hkey h) rfl rfl
  exact grammar_assignment_of_element rfl rfl harrow helement .semicolon

/-- **A constant that is an element with one attribute.** -/
theorem parse?_constElement (hkey : key = "className" ∨ key = "id") (h : '"' ∉ v.toList) :
    parse? true ("const x = <".toList ++ tagChars key v) =
      some (.plain [.plain [.plain [.blank,
        .node (.element (some divTag)) [.leaf (.attribute key v)]]]]) := by
  let c : Cursor := .start true ("const x = <".toList ++ tagChars key v)
  let e : Tree := .node (.element (some divTag)) [.leaf (.attribute key v)]
  have hbinding (n : Nat) : grammar (n + 4) .binding c.next = some (.blank, c.next.next) := rfl
  have hequals : c.next.next.token = .mark "=" := rfl
  -- the words in front of the element do not depend on what is in it
  have htag : c.next.next.next = atTag key v := rfl
  have hstatement (n : Nat) : grammar (n + 5) (.statement false) c =
      some (.plain [.plain [.blank, e]], atSlash.next.next.next) :=
    parseStatement_const rfl rfl (hbinding n) hequals
      (htag ▸ grammar_assignment_atTag n hkey h) rfl
  exact parse?_statement (by exact nofun) (fun n => hstatement (n + 11)) rfl rfl rfl

/-- A component that can be read uses what its elements do. -/
theorem usedByComponent_of_parse? {text : String} {tree : Tree}
    (h : parse? true text.toList = some tree) :
    usedByComponent text = .ofList (tree.gather visitElement) := by
  unfold usedByComponent
  rw [h]

/-- **An attribute of an element** is used as its key says, together with the tag. -/
theorem usedByComponent_attribute (hkey : key = "className" ∨ key = "id") (h : '"' ∉ v.toList) :
    usedByComponent ("const x = <div " ++ key ++ "=\"" ++ v ++ "\" />;") =
      .ofList ("div" :: attributeSelectors key v) := by
  have htext : ("const x = <div " ++ key ++ "=\"" ++ v ++ "\" />;").toList =
      "const x = <".toList ++ tagChars key v := by simp [tagChars]
  have hparse := parse?_constElement hkey h
  rw [← htext] at hparse
  rw [usedByComponent_of_parse? hparse]
  simp [Tree.plain, Tree.leaf, Tree.blank, Tree.gather, Tree.gatherAll, visitElement, divTag]

end StyleAudit.Script
