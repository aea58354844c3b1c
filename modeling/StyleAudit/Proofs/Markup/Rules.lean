import Mathlib
import StyleAudit.Markup.Document
import StyleAudit.Proofs.Markup.Named

/-! # The rules keep the names of elements

Each rule is a chain of steps of the builder, so it keeps what the steps keep. What a rule puts into
a document is named by the tag that is read, by a corrected spelling of it, or is one of the elements
whose tags may be left out.

* **`Admits`** — the names that rules put in of their own have the property.
* **`Builder.Named.bodyTag`, …** — what the rules do with a tag.
* **`Builder.Named.byMode`**, **`Builder.Named.inForeign`** — the rules.
* **`Builder.Named.process`** — the whole treatment of a token. -/

namespace StyleAudit.Markup

open Builder

variable {P : String → Prop} {b : Builder}

/-- The names of the elements that rules put in without a tag of theirs. -/
def impliedNames : List String :=
  ["html", "head", "body", "p", "br", "img", "colgroup", "tbody", "tr"]

/-- The property holds of the names that rules put in, and of corrected spellings. -/
structure Admits (P : String → Prop) : Prop where
  implied : ∀ name ∈ impliedNames, P name
  drawing : ∀ name, P name → P (drawingName name)

/-- The name of a start tag has the property. -/
def Token.Named (P : String → Prop) : Token → Prop
  | .opening name _ _ => P name
  | _ => True

/-- What a rule leaves has the property. -/
def Step.Named (P : String → Prop) : Step → Prop
  | .done b => b.Named P
  | .again b => b.Named P

/-- What both branches have, a choice has. -/
theorem Step.Named.ite {s s' : Step} {c : Prop} [Decidable c] (h : s.Named P) (h' : s'.Named P) :
    (if c then s else s').Named P := by
  split
  · exact h
  · exact h'

namespace Builder.Named

/-- What is neither the document nor a list of its elements does not matter. -/
theorem same {b' : Builder} (h : b.Named P) (hdom : b'.dom = b.dom) (hstack : b'.stack = b.stack)
    (hformatting : b'.formatting = b.formatting) (hhead : b'.head = b.head) : b'.Named P :=
  h.congr hdom (fun _ he => hstack ▸ he) (fun _ hf => hformatting ▸ hf) hhead

/-- What both branches have, a choice has. -/
theorem ite {b' : Builder} {c : Prop} [Decidable c] (h : b.Named P) (h' : b'.Named P) :
    (if c then b else b').Named P := by
  split
  · exact h
  · exact h'

theorem done (h : b.Named P) : b.done.Named P := h

theorem again (h : b.Named P) (m : Mode) : (b.again m).Named P := h.enter m

theorem againReset (h : b.Named P) : b.againReset.Named P := h.resetMode

/-! ## Heads -/

theorem headTag (h : b.Named P) {t : Tag} (ht : P t.name) : (headTag b t).Named P := by
  unfold Markup.headTag
  split
  case h_6 => exact (((h.insert ht).mark.noFrameset).enter .inTemplate).same rfl rfl rfl rfl
  case h_7 => exact h.insertVoid ht
  all_goals exact h.insertText ht _

theorem endTemplate (h : b.Named P) : (endTemplate b).Named P := by
  unfold Markup.endTemplate
  split
  · extract_lets b₁ b₂
    have h₁ : b₁.Named P :=
      h.congr rfl (fun _ he => (List.dropWhile_sublist _).subset he) (fun _ hf => hf) rfl
    have h₂ : b₂.Named P := (h₁.popNamed "template").clearFormatting
    have h₃ : Builder.Named P { b₂ with templates := b₂.templates.tail } := h₂.same rfl rfl rfl rfl
    exact h₃.resetMode
  · exact h

theorem keepHead (h : b.Named P) (hstack : b.stack ≠ []) : (keepHead b).Named P where
  dom := h.dom
  stack := h.stack
  formatting := h.formatting
  head id hid := by
    obtain rfl := Option.mem_some.1 hid
    exact h.currentId hstack

/-- The head is recorded right after it was inserted. -/
theorem keepHead_insert (h : b.Named P) {t : Tag} (ht : P t.name) :
    (Markup.keepHead (b.insert t)).Named P :=
  (h.insert ht).keepHead (stack_insert_ne_nil b t)

theorem keepHead_insertImplied (h : b.Named P) {name : String} (hname : P name) :
    (Markup.keepHead (b.insertImplied name)).Named P :=
  h.keepHead_insert hname

theorem intoHead (h : b.Named P) {t : Tag} (ht : P t.name) : (intoHead b t).Named P := by
  unfold Markup.intoHead
  split
  · next id hid =>
    have hopened : Builder.Named P { b with stack := ⟨id, .html "head", id, false⟩ :: b.stack } :=
      h.push (h.head id hid)
    exact (hopened.headTag ht).forget id
  · exact h.headTag ht

/-- Whether a document has quirks does not matter for its names. -/
theorem withQuirks (h : b.Named P) (quirks : Bool) : Builder.Named P { b with quirks := quirks } :=
  h.same rfl rfl rfl rfl

theorem initial (h : b.Named P) (token : Token) : (initial b token).Named P := by
  have hmissing := (h.withQuirks true).again .beforeRoot
  unfold Markup.initial
  cases token with
  | doctype d => exact ((h.withQuirks d.isQuirky).enter _).done
  | char c => exact .ite h.done hmissing
  | nothing => exact h.done
  | opening name attributes selfClosing => exact hmissing
  | closing name => exact hmissing
  | done => exact hmissing

theorem beforeRoot (hP : Admits P) (h : b.Named P) {token : Token} (ht : token.Named P) :
    (beforeRoot b token).Named P := by
  have himplied := (h.insertImplied (hP.implied "html" (by decide))).again .beforeHead
  unfold Markup.beforeRoot
  cases token with
  | char c => exact .ite h.done himplied
  | opening name attributes selfClosing =>
      exact .ite ((@insert P b h ⟨name, _, _⟩ ht).enter _).done himplied
  | closing name => exact .ite himplied h.done
  | doctype _ | nothing => exact h.done
  | done => exact himplied

theorem beforeHead (hP : Admits P) (h : b.Named P) {token : Token} (ht : token.Named P) :
    (beforeHead b token).Named P := by
  have himplied := (h.keepHead_insertImplied (hP.implied "head" (by decide))).again .inHead
  unfold Markup.beforeHead
  cases token with
  | char c => exact .ite h.done himplied
  | opening name attributes selfClosing =>
      have hhead := ((@keepHead_insert P b h ⟨name, attributes, selfClosing⟩ ht).enter .inHead).done
      exact .ite (h.mergeRoot _).done (.ite hhead himplied)
  | closing name => exact .ite himplied h.done
  | doctype _ | nothing => exact h.done
  | done => exact himplied

theorem inHead (h : b.Named P) {token : Token} (ht : token.Named P) :
    (inHead b token).Named P := by
  have hleave := h.pop.again .afterHead
  unfold Markup.inHead
  cases token with
  | char c => exact .ite h.done hleave
  | opening name attributes selfClosing =>
      have htag := (@headTag P b h ⟨name, attributes, selfClosing⟩ ht).done
      exact .ite (h.mergeRoot _).done (.ite h.done (.ite htag hleave))
  | closing name =>
      exact .ite (h.pop.enter _).done (.ite hleave (.ite h.endTemplate.done h.done))
  | doctype _ | nothing => exact h.done
  | done => exact hleave

theorem afterHead (hP : Admits P) (h : b.Named P) {token : Token} (ht : token.Named P) :
    (afterHead b token).Named P := by
  have himplied := (h.insertImplied (hP.implied "body" (by decide))).again .inBody
  unfold Markup.afterHead
  cases token with
  | char c => exact .ite h.done himplied
  | opening name attributes selfClosing =>
      have hopen := @insert P b h ⟨name, attributes, selfClosing⟩ ht
      have hinto := (@intoHead P b h ⟨name, attributes, selfClosing⟩ ht).done
      exact .ite (h.mergeRoot _).done (.ite (hopen.noFrameset.enter _).done
        (.ite (hopen.enter _).done (.ite hinto (.ite h.done himplied))))
  | closing name => exact .ite himplied (.ite h.endTemplate.done h.done)
  | doctype _ | nothing => exact h.done
  | done => exact himplied

/-! ## The body -/

theorem closeItem (h : b.Named P) (names : List String) : (closeItem b names).Named P := by
  unfold Markup.closeItem
  split
  · exact h.close _
  · exact h

theorem insertForeign (h : b.Named P) (v : Vocabulary) {t : Tag} (ht : P t.name) :
    (insertForeign b v t).Named P := by
  unfold Markup.insertForeign
  have hinserted := @insertKind P b h ⟨v, t.name⟩ ht t.attributes
  split
  · exact hinserted.pop
  · exact hinserted

theorem insertLink (h : b.Named P) {t : Tag} (ht : P t.name) : (insertLink b t).Named P := by
  unfold Markup.insertLink
  split
  · next id _ _ => exact (((h.endFormatting "a").unlist id).forget id).reopenFormatting.insertFormatting ht
  · exact h.reopenFormatting.insertFormatting ht

theorem mergeBody (h : b.Named P) (t : Tag) : (mergeBody b t).Named P := by
  unfold Markup.mergeBody
  split
  · split
    · exact h
    · exact h.noFrameset.withDom (Dom.keeps_addAttributes _ _ _) (h.dom.addAttributes _ _)
  · exact h

theorem replaceBody (h : b.Named P) {t : Tag} (ht : P t.name) : (replaceBody b t).Named P := by
  unfold Markup.replaceBody
  split
  · next id _ _ =>
    have hdetached := h.withDom (Dom.keeps_detach b.dom id) (h.dom.detach id)
    have hroot : ∀ e ∈ b.stack.getLast?.toList, e ∈ b.stack := fun e he =>
      List.mem_of_getLast? (by simpa using he)
    have hemptied : Builder.Named P { b with
        dom := b.dom.detach id, stack := b.stack.getLast?.toList } :=
      hdetached.congr rfl hroot (fun _ hf => hf) rfl
    exact (hemptied.insert ht).enter .inFrameset
  · exact h

/-- A form is recorded when it is opened. -/
theorem withForm (h : b.Named P) (form : Option Nat) : Builder.Named P { b with form := form } :=
  h.same rfl rfl rfl rfl

theorem bodyTag (hP : Admits P) (h : b.Named P) {t : Tag} (ht : P t.name) :
    (bodyTag b t).Named P := by
  -- most tags put an element in after they closed a paragraph or opened formatting elements anew
  have hblock := h.closeParagraph.insert ht
  have hinline := h.reopenFormatting.insert ht
  have hvoid := h.reopenFormatting.insertVoid ht
  have himage := @insertVoid P _ h.reopenFormatting { t with name := "img" }
    (hP.implied "img" (by decide))
  unfold Markup.bodyTag
  split
  case h_12 =>
    -- a form, which is recorded
    exact ite h (ite hblock (hblock.withForm _))
  case h_16 =>
    -- text that has no end
    exact hblock.same rfl rfl rfl rfl
  all_goals with_reducible first
    | exact h
    | exact h.mergeRoot t
    | exact h.mergeBody t
    | exact h.replaceBody ht
    | exact insert (ite h.closeParagraph.pop h.closeParagraph) ht
    | exact hblock.noFrameset
    | exact (h.noFrameset.closeItem _).closeParagraph.insert ht
    | exact noFrameset (insert (reopenFormatting (ite (h.close _) h)) ht)
    | exact h.insertLink ht
    | exact insertFormatting (ite (h.reopenFormatting.endFormatting _).reopenFormatting
        h.reopenFormatting) ht
    | exact hinline.mark.noFrameset
    | exact hinline.noFrameset.enter _
    | exact (insert (ite h h.closeParagraph) ht).noFrameset.enter _
    | exact hvoid.noFrameset
    | exact himage.noFrameset
    | exact ite hvoid hvoid.noFrameset
    | exact h.insertVoid ht
    | exact (h.closeParagraph.insertVoid ht).noFrameset
    | exact h.insertText ht _
    | exact h.noFrameset.insertText ht _
    | exact h.closeParagraph.reopenFormatting.noFrameset.insertText ht _
    | exact insert (reopenFormatting (ite h.pop h)) ht
    | exact insert (ite (h.endImplied _) h) ht
    | exact h.insertForeign _ ht
    | exact ite (h.headTag ht) (ite hblock (ite (h.reopenFormatting.insertFormatting ht) hinline))

theorem endForm (h : b.Named P) : (endForm b).Named P := by
  unfold Markup.endForm
  split
  · exact ite (h.close "form") h
  · split
    · exact h
    · exact ite (((h.withForm none).endImplied "").forget _) (h.withForm none)

theorem bodyEndTag (hP : Admits P) (h : b.Named P) (name : String) : (bodyEndTag b name).Named P := by
  have hp := h.insertImplied (hP.implied "p" (by decide))
  have hbr := @bodyTag P b hP h ⟨"br", [], false⟩ (hP.implied "br" (by decide))
  unfold Markup.bodyEndTag
  split
  all_goals with_reducible first
    | exact h.endTemplate
    | exact h.endForm
    | exact hbr
    | exact close (ite h hp) _
    | exact ite (h.close _) h
    | exact ite ((h.endImplied _).popThrough _) h
    | exact ite (h.close _).clearFormatting h
    | exact ite (ite (h.close _) h) (ite (h.endFormatting _) (h.endOther _))

theorem closeTemplate (h : b.Named P) : (closeTemplate b).Named P := by
  unfold Markup.closeTemplate
  split
  · extract_lets b'
    have hb' : b'.Named P := (h.popNamed "template").clearFormatting
    have hclosed : Builder.Named P { b' with templates := b'.templates.tail } :=
      hb'.same rfl rfl rfl rfl
    exact hclosed.againReset
  · exact h

theorem inBody (hP : Admits P) (h : b.Named P) {token : Token} (ht : token.Named P) :
    (inBody b token).Named P := by
  unfold Markup.inBody
  cases token with
  | char c => exact .ite h.done (done (ite h.reopenFormatting h.reopenFormatting.noFrameset))
  | opening name attributes selfClosing => exact (@bodyTag P b hP h ⟨name, _, _⟩ ht).done
  | closing name =>
      exact .ite (done (ite (h.enter _) h)) (.ite (.ite (h.again _) h.done) (h.bodyEndTag hP name).done)
  | done => exact .ite h.done h.closeTemplate
  | doctype _ | nothing => exact h.done

/-! ## Tables -/

theorem fosterInBody (hP : Admits P) (h : b.Named P) {token : Token} (ht : token.Named P) :
    (fosterInBody b token).Named P := by
  have hbody := (h.same rfl rfl rfl rfl : Builder.Named P { b with fostering := true }).inBody hP ht
  unfold Markup.fosterInBody
  split
  · next b' heq =>
    rw [heq] at hbody
    exact Builder.Named.same hbody rfl rfl rfl rfl
  · next b' heq =>
    rw [heq] at hbody
    exact Builder.Named.same hbody rfl rfl rfl rfl

theorem backToTable (h : b.Named P) : (backToTable b).Named P := h.popTo _

theorem backToTableBody (h : b.Named P) : (backToTableBody b).Named P := h.popTo _

theorem backToRow (h : b.Named P) : (backToRow b).Named P := h.popTo _

theorem inTable (hP : Admits P) (h : b.Named P) {token : Token} (ht : token.Named P) :
    (inTable b token).Named P := by
  have hfoster := h.fosterInBody hP ht
  unfold Markup.inTable
  cases token with
  | char c => exact .ite h.done hfoster
  | opening name attributes selfClosing =>
      have hcolgroup := h.backToTable.insertImplied (hP.implied "colgroup" (by decide))
      have htbody := h.backToTable.insertImplied (hP.implied "tbody" (by decide))
      have hpart := @insert P _ h.backToTable ⟨name, attributes, selfClosing⟩ ht
      have hmarked := @insert P _ h.backToTable.mark ⟨name, attributes, selfClosing⟩ ht
      have hhead := (@headTag P b h ⟨name, attributes, selfClosing⟩ ht).done
      have hinput := (@insertVoid P b h ⟨name, attributes, selfClosing⟩ ht).done
      have hopen := @insert P b h ⟨name, attributes, selfClosing⟩ ht
      dsimp only
      split
      case h_15 =>
        -- a form, which is recorded and stays empty
        exact .ite h.done (hopen.withForm _).pop.done
      all_goals with_reducible first
        | exact hfoster
        | exact hhead
        | exact (hmarked.enter _).done
        | exact (hpart.enter _).done
        | exact hcolgroup.again _
        | exact htbody.again _
        | exact .ite (h.popNamed _).againReset h.done
        | exact .ite hinput hfoster
  | closing name =>
      dsimp only
      split
      all_goals with_reducible first
        | exact h.done
        | exact hfoster
        | exact h.endTemplate.done
        | exact done (ite (h.popNamed _).resetMode h)
  | done => exact h.inBody hP ht
  | doctype _ | nothing => exact h.done

theorem inCaption (hP : Admits P) (h : b.Named P) {token : Token} (ht : token.Named P) :
    (inCaption b token).Named P := by
  have hbody := h.inBody hP ht
  have hclosed := (h.close "caption").clearFormatting
  have hleave := @Step.Named.ite P _ _ (b.inScope .table "caption" = true) _
    (hclosed.again .inTable) h.done
  unfold Markup.inCaption
  cases token with
  | opening name attributes selfClosing => exact .ite hleave hbody
  | closing name =>
      exact .ite (done (ite (hclosed.enter _) h)) (.ite hleave (.ite h.done hbody))
  | char c => exact hbody
  | done => exact hbody
  | doctype _ | nothing => exact hbody

theorem inColumns (hP : Admits P) (h : b.Named P) {token : Token} (ht : token.Named P) :
    (inColumns b token).Named P := by
  -- what does not belong to the columns ends them, and is looked at in the table
  have hleave := @Step.Named.ite P _ _ (b.isIn "colgroup" = true) _ (h.pop.again .inTable) h.done
  unfold Markup.inColumns
  cases token with
  | char c => exact .ite h.done hleave
  | opening name attributes selfClosing =>
      have hvoid := (@insertVoid P b h ⟨name, attributes, selfClosing⟩ ht).done
      have hhead := (@headTag P b h ⟨name, attributes, selfClosing⟩ ht).done
      dsimp only
      split
      all_goals with_reducible first
        | exact hleave
        | exact hvoid
        | exact hhead
        | exact (h.mergeRoot _).done
  | closing name =>
      dsimp only
      split
      all_goals with_reducible first
        | exact hleave
        | exact h.done
        | exact h.endTemplate.done
        | exact done (ite (h.pop.enter _) h)
  | done => exact h.inBody hP ht
  | doctype _ | nothing => exact h.done

theorem inTableBody (hP : Admits P) (h : b.Named P) {token : Token} (ht : token.Named P) :
    (inTableBody b token).Named P := by
  have htable := h.inTable hP ht
  -- the end of the body, before the token is looked at in the table
  have hleave := h.backToTableBody.pop.again .inTable
  unfold Markup.inTableBody
  cases token with
  | opening name attributes selfClosing =>
      have hrow := @insert P _ h.backToTableBody ⟨name, attributes, selfClosing⟩ ht
      -- a cell without a row gets a row that no tag of the text names
      have hcell := h.backToTableBody.insertImplied (hP.implied "tr" (by decide))
      dsimp only
      split
      all_goals with_reducible first
        | exact htable
        | exact (hrow.enter _).done
        | exact hcell.again _
        | exact .ite hleave h.done
  | closing name =>
      dsimp only
      split
      all_goals with_reducible first
        | exact htable
        | exact h.done
        | exact done (ite (h.backToTableBody.pop.enter _) h)
        | exact .ite hleave h.done
  | char c => exact htable
  | done => exact htable
  | doctype _ | nothing => exact htable

theorem inRow (hP : Admits P) (h : b.Named P) {token : Token} (ht : token.Named P) :
    (inRow b token).Named P := by
  have htable := h.inTable hP ht
  -- the end of the row, before the token is looked at in the body
  have hclosed := h.backToRow.pop
  unfold Markup.inRow
  cases token with
  | opening name attributes selfClosing =>
      have hcell := @insert P _ h.backToRow ⟨name, attributes, selfClosing⟩ ht
      dsimp only
      split
      all_goals with_reducible first
        | exact htable
        | exact (hcell.enter _).mark.done
        | exact .ite (hclosed.again _) h.done
  | closing name =>
      dsimp only
      split
      all_goals with_reducible first
        | exact htable
        | exact h.done
        | exact done (ite (hclosed.enter _) h)
        | exact .ite (hclosed.again _) h.done
        | exact .ite (.ite (hclosed.again _) h.done) h.done
  | char c => exact htable
  | done => exact htable
  | doctype _ | nothing => exact htable

theorem inCell (hP : Admits P) (h : b.Named P) {token : Token} (ht : token.Named P) :
    (inCell b token).Named P := by
  have hbody := h.inBody hP ht
  have hclosed := ((h.endImplied "").popThrough (·.isCell)).clearFormatting
  unfold Markup.inCell
  cases token with
  | opening name attributes selfClosing => exact .ite (.ite (hclosed.again _) h.done) hbody
  | closing name =>
      dsimp only
      split
      all_goals with_reducible first
        | exact hbody
        | exact h.done
        | exact done (ite ((h.close _).clearFormatting.enter _) h)
        | exact .ite (hclosed.again _) h.done
  | char c => exact hbody
  | done => exact hbody
  | doctype _ | nothing => exact hbody

/-! ## Lists of choices and templates -/

theorem closeGroup (h : b.Named P) : (closeGroup b).Named P := by
  have hoption := @ite P b.pop b (b.isIn "option" = true) _ h.pop h
  exact ite hoption.pop hoption

theorem inSelect (hP : Admits P) (h : b.Named P) {token : Token} (ht : token.Named P) :
    (inSelect b token).Named P := by
  unfold Markup.inSelect
  cases token with
  | opening name attributes selfClosing =>
      have hhead := (@headTag P b h ⟨name, attributes, selfClosing⟩ ht).done
      have hgroup := (@insert P _ h.closeGroup ⟨name, attributes, selfClosing⟩ ht).done
      have hvoid := (@insertVoid P _ h.closeGroup ⟨name, attributes, selfClosing⟩ ht).done
      have hname : P name := ht
      dsimp only
      split
      all_goals with_reducible first
        | exact h.done
        | exact hhead
        | exact hgroup
        | exact hvoid
        | exact (h.mergeRoot _).done
        | exact done (insert (ite h.pop h) hname)
        | exact done (ite (h.popNamed _).resetMode h)
        | exact .ite (h.popNamed _).againReset h.done
  | closing name =>
      dsimp only
      split
      all_goals with_reducible first
        | exact h.done
        | exact h.endTemplate.done
        | exact done (ite h.pop h)
        | exact done (ite (pop (ite h.pop h)) (ite h.pop h))
        | exact done (ite (h.popNamed _).resetMode h)
  | char c => exact h.done
  | done => exact h.inBody hP ht
  | doctype _ | nothing => exact h.done

theorem inSelectInTable (hP : Admits P) (h : b.Named P) {token : Token} (ht : token.Named P) :
    (inSelectInTable b token).Named P := by
  have hselect := h.inSelect hP ht
  have hclosed := (h.popNamed "select").againReset
  unfold Markup.inSelectInTable
  cases token with
  | opening name attributes selfClosing => exact .ite hclosed hselect
  | closing name => exact .ite (.ite hclosed h.done) hselect
  | char c => exact hselect
  | done => exact hselect
  | doctype _ | nothing => exact hselect

theorem enterTemplate (h : b.Named P) (m : Mode) : (enterTemplate b m).Named P :=
  (h.same rfl rfl rfl rfl : Builder.Named P { b with templates := m :: b.templates.tail }).again m

theorem inTemplate (hP : Admits P) (h : b.Named P) {token : Token} (ht : token.Named P) :
    (inTemplate b token).Named P := by
  have hbody := h.inBody hP ht
  unfold Markup.inTemplate
  cases token with
  | char c => exact .ite h.done hbody
  | opening name attributes selfClosing =>
      have hhead := (@headTag P b h ⟨name, attributes, selfClosing⟩ ht).done
      dsimp only
      split
      all_goals with_reducible first
        | exact h.enterTemplate _
        | exact .ite hhead (h.enterTemplate _)
  | closing name => exact done (ite h.endTemplate h)
  | done => exact h.closeTemplate
  | doctype _ | nothing => exact h.done

/-! ## After the body and in framesets -/

theorem afterBody (hP : Admits P) (h : b.Named P) {token : Token} (ht : token.Named P) :
    (afterBody b token).Named P := by
  have hback := h.again .inBody
  unfold Markup.afterBody
  cases token with
  | char c => exact .ite (h.inBody hP ht) hback
  | opening name attributes selfClosing => exact .ite (h.mergeRoot _).done hback
  | closing name => exact .ite (h.enter _).done hback
  | done => exact h.done
  | doctype _ | nothing => exact h.done

theorem afterRoot (hP : Admits P) (h : b.Named P) {token : Token} (ht : token.Named P) :
    (afterRoot b token).Named P := by
  have hback := h.again .inBody
  unfold Markup.afterRoot
  cases token with
  | char c => exact .ite (h.inBody hP ht) hback
  | opening name attributes selfClosing => exact .ite (h.mergeRoot _).done hback
  | closing name => exact hback
  | done => exact h.done
  | doctype _ | nothing => exact h.done

theorem inFrameset (h : b.Named P) {token : Token} (ht : token.Named P) :
    (inFrameset b token).Named P := by
  unfold Markup.inFrameset
  cases token with
  | opening name attributes selfClosing =>
      have hhead := (@headTag P b h ⟨name, attributes, selfClosing⟩ ht).done
      have hset := (@insert P b h ⟨name, attributes, selfClosing⟩ ht).done
      have hframe := (@insertVoid P b h ⟨name, attributes, selfClosing⟩ ht).done
      dsimp only
      split
      all_goals with_reducible first
        | exact h.done
        | exact hhead
        | exact hset
        | exact hframe
        | exact (h.mergeRoot _).done
  | closing name => exact .ite (done (ite h.pop (h.pop.enter _))) h.done
  | char c => exact h.done
  | done => exact h.done
  | doctype _ | nothing => exact h.done

theorem afterFrameset (h : b.Named P) {token : Token} (ht : token.Named P) :
    (afterFrameset b token).Named P := by
  unfold Markup.afterFrameset
  cases token with
  | opening name attributes selfClosing =>
      have hhead := (@headTag P b h ⟨name, attributes, selfClosing⟩ ht).done
      dsimp only
      split
      all_goals with_reducible first
        | exact h.done
        | exact hhead
        | exact (h.mergeRoot _).done
  | closing name => exact done (ite (h.enter _) h)
  | char c => exact h.done
  | done => exact h.done
  | doctype _ | nothing => exact h.done

theorem afterFramesetRoot (hP : Admits P) (h : b.Named P) {token : Token} (ht : token.Named P) :
    (afterFramesetRoot b token).Named P := by
  unfold Markup.afterFramesetRoot
  cases token with
  | char c => exact .ite (h.inBody hP ht) h.done
  | opening name attributes selfClosing => exact h.afterFrameset ht
  | closing name => exact h.done
  | done => exact h.done
  | doctype _ | nothing => exact h.done

theorem inText (h : b.Named P) (token : Token) : (inText b token).Named P := by
  unfold Markup.inText
  cases token with
  | closing name => exact (h.pop.enter _).done
  | done => exact h.pop.again _
  | char c => exact h.done
  | opening name attributes selfClosing => exact h.done
  | doctype _ | nothing => exact h.done

/-- **The rules keep the names.** -/
theorem byMode (hP : Admits P) (h : b.Named P) {token : Token} (ht : token.Named P) :
    (b.byMode token).Named P := by
  unfold Builder.byMode
  split
  · exact h.initial token
  · exact h.beforeRoot hP ht
  · exact h.beforeHead hP ht
  · exact h.inHead ht
  · exact h.afterHead hP ht
  · exact h.inBody hP ht
  · exact h.inText token
  · exact h.inTable hP ht
  · exact h.inCaption hP ht
  · exact h.inColumns hP ht
  · exact h.inTableBody hP ht
  · exact h.inRow hP ht
  · exact h.inCell hP ht
  · exact h.inSelect hP ht
  · exact h.inSelectInTable hP ht
  · exact h.inTemplate hP ht
  · exact h.afterBody hP ht
  · exact h.inFrameset ht
  · exact h.afterFrameset ht
  · exact h.afterRoot hP ht
  · exact h.afterFramesetRoot hP ht

/-! ## Foreign elements -/

theorem leaveForeign (h : b.Named P) : (leaveForeign b).Named P := h.popTo _

/-- What a foreign end tag leaves open was open. -/
theorem mem_of_closeForeign {name : String} {es stack : List OpenElement}
    (h : closeForeign name es = some stack) : ∀ e ∈ stack, e ∈ es := by
  induction es with
  | nil => cases h
  | cons e es ih =>
      unfold closeForeign at h
      intro e' he'
      split at h
      · cases h
      · split at h
        · cases h
          exact List.mem_cons_of_mem _ he'
        · exact List.mem_cons_of_mem _ (ih h e' he')

/-- The rules in foreign elements keep the names. -/
theorem inForeign (hP : Admits P) (h : b.Named P) {token : Token} (ht : token.Named P) :
    (Markup.inForeign b token).Named P := by
  unfold Markup.inForeign
  cases token with
  | char c => exact done (ite h h.noFrameset)
  | opening name attributes selfClosing =>
      have hname : P name := ht
      dsimp only
      split
      · exact h.leaveForeign.byMode hP ht
      · refine (h.insertForeign _ ?_).done
        split
        · exact hP.drawing name hname
        · exact hname
  | closing name =>
      dsimp only
      split
      · exact h.leaveForeign.byMode hP ht
      · split
        · next stack hstack =>
          have hclosed : Builder.Named P { b with stack := stack } :=
            h.congr rfl (mem_of_closeForeign hstack) (fun _ hf => hf) rfl
          exact hclosed.done
        · exact h.byMode hP ht
  | _ => exact h.done

/-- **A token keeps the names**, however often it is read again. -/
theorem process (hP : Admits P) {token : Token} (ht : token.Named P) (fuel : Nat) (h : b.Named P) :
    (process token fuel b).Named P := by
  induction fuel generalizing b with
  | zero => exact h
  | succ fuel ih =>
      have hrule : Step.Named P
          (if isForeign b token then Markup.inForeign b token else b.byMode token) := by
        split
        · exact h.inForeign hP ht
        · exact h.byMode hP ht
      unfold Markup.process
      split
      · next b' heq =>
        rw [heq] at hrule
        exact hrule
      · next b' heq =>
        rw [heq] at hrule
        exact ih hrule

end Builder.Named

end StyleAudit.Markup
