import Mathlib
import StyleAudit.Proofs.Markup.TagNames
import StyleAudit.Proofs.Text.Words

/-! # Pages of one element

A page that is one element with one attribute. What stands between the quotes of the attribute is
its value, but for the ends of lines, which are read in one way. As they are blanks, the words of
the value are those of the text between the quotes.

* **`words_normalizeLines`** — reading the ends of lines in one way keeps the words.
* **`scanTag_quoted`**, **`decode_of_not_mem`** — the value of an attribute.
* **`elementsOf_page`** — the elements of the page.
* **`mem_usedByMarkup_page`** — the selectors that it uses. -/

namespace StyleAudit.Markup

variable {cs xs ys value rest : List Char}

/-! ## Ends of lines -/

/-- Two texts are read one after the other if no line end is cut between them. -/
theorem normalizeLines_append (h : ys.head? ≠ some '\n') :
    normalizeLines (xs ++ ys) = normalizeLines xs ++ normalizeLines ys := by
  induction xs using normalizeLines.induct with
  | case1 xs ih => simp [normalizeLines, ih]
  | case2 xs hfeed ih =>
      have hnext : ∀ zs, xs ++ ys = '\n' :: zs → False := by
        intro zs hzs
        cases xs with
        | nil => exact h (by rw [← List.nil_append ys, hzs]; rfl)
        | cons x xs => exact hfeed xs (by rw [(List.cons.inj hzs).1])
      -- the return ends a line alone on both sides
      rw [List.cons_append, normalizeLines, normalizeLines, ih, List.cons_append]
      · exact hfeed
      · exact hnext
  | case3 x xs hfeed hreturn ih =>
      rw [List.cons_append, normalizeLines, normalizeLines, ih, List.cons_append]
      · exact hfeed
      · exact hreturn
      · exact fun _ hx _ => hreturn hx
      · exact hreturn
  | case4 => simp [normalizeLines]

/-- What has no returns in it is kept. -/
theorem normalizeLines_append_of_not_mem (h : '\r' ∉ xs) :
    normalizeLines (xs ++ ys) = xs ++ normalizeLines ys := by
  induction xs with
  | nil => rfl
  | cons x xs ih =>
      obtain ⟨hx, hxs⟩ := not_or.1 (mt List.mem_cons.2 h)
      rw [List.cons_append, normalizeLines, ih hxs, List.cons_append]
      · exact fun _ hreturn _ => hx hreturn.symm
      · exact fun hreturn => hx hreturn.symm

/-- Reading the ends of lines in one way keeps the first word and the others. -/
theorem wordsFrom_normalizeLines (cs : List Char) :
    Text.wordsFrom (normalizeLines cs) = Text.wordsFrom cs := by
  have hreturn : Text.isBlank '\r' = true := by decide
  have hfeed : Text.isBlank '\n' = true := by decide
  induction cs using normalizeLines.induct with
  | case1 cs ih =>
      rw [normalizeLines, Text.wordsFrom_cons_blank hfeed, Text.wordsFrom_cons_blank hreturn,
        Text.words_cons_blank hfeed, Text.words_eq, Text.words_eq, ih]
  | case2 cs hnext ih =>
      rw [normalizeLines, Text.wordsFrom_cons_blank hfeed, Text.wordsFrom_cons_blank hreturn,
        Text.words_eq, Text.words_eq, ih]
      exact hnext
  | case3 c cs hnext hother ih =>
      rw [normalizeLines]
      · cases hc : Text.isBlank c with
        | true =>
            rw [Text.wordsFrom_cons_blank hc, Text.wordsFrom_cons_blank hc, Text.words_eq,
              Text.words_eq, ih]
        | false => rw [Text.wordsFrom_cons hc, Text.wordsFrom_cons hc, ih]
      · exact hnext
      · exact hother
  | case4 => rfl

/-- **Reading the ends of lines in one way keeps the words.** -/
theorem words_normalizeLines (cs : List Char) : Text.words (normalizeLines cs) = Text.words cs := by
  rw [Text.words_eq, Text.words_eq, wordsFrom_normalizeLines]

/-! ## The value of an attribute -/

/-- Without references, a value is what is written. -/
theorem decode_of_not_mem (h : '&' ∉ cs) : decode cs = cs := by
  unfold decode
  induction cs with
  | nil => rfl
  | cons c cs ih =>
      obtain ⟨hc, hcs⟩ := not_or.1 (mt List.mem_cons.2 h)
      rw [decodeFrom, if_neg (Ne.symm hc), ih hcs]

/-- Between quotes, all characters belong to the value. -/
theorem scanTag_quoted {t : TagSoFar} (hstate : t.state = .quoted '"') (hquote : '"' ∉ value)
    (hnull : '\x00' ∉ value) :
    scanTag t (value ++ rest) =
      ((scanTag { t with value := value.reverse ++ t.value } rest).1,
        (scanTag { t with value := value.reverse ++ t.value } rest).2 + value.length) := by
  induction value generalizing t with
  | nil => simp
  | cons c value ih =>
      obtain ⟨hc, hvalue⟩ := not_or.1 (mt List.mem_cons.2 hquote)
      obtain ⟨hc', hvalue'⟩ := not_or.1 (mt List.mem_cons.2 hnull)
      have hstep : t.step c = some { t with value := c :: t.value } := by
        simp [TagSoFar.step, hstate, Ne.symm hc, keepChar, Ne.symm hc']
      have hrest := ih (t := { t with value := c :: t.value }) hstate hvalue hvalue'
      rw [List.cons_append, scanTag, hstep]
      simp only [hrest, List.reverse_cons, List.append_assoc, List.singleton_append,
        List.length_cons, Nat.add_assoc]

/-! ## The page -/

/-- The start tag of the element after its `<`. -/
def pageTag (key : String) (value : List Char) : List Char :=
  ['d', 'i', 'v', ' '] ++ key.toList ++ ['=', '"'] ++ value ++ ['"', '>']

/-- **The start tag** has one attribute, whose value is what stands between the quotes. -/
theorem scanOpening_pageTag {key : String} (hkey : key = "class" ∨ key = "id")
    (hquote : '"' ∉ value) (hnull : '\x00' ∉ value) (hreference : '&' ∉ value) :
    scanOpening (pageTag key value ++ rest) =
      (.opening "div" [⟨key, String.ofList value⟩] false, (pageTag key value).length) := by
  let t : TagSoFar := ⟨.quoted '"', "vid".toList, key.toList.reverse, [], [], false⟩
  have hsplit : pageTag key value ++ rest =
      ['d', 'i', 'v', ' '] ++ (key.toList ++ (['=', '"'] ++ (value ++ '"' :: '>' :: rest))) := by
    simp [pageTag]
  have hstart : scanTag .start (pageTag key value ++ rest) =
      ((scanTag t (value ++ '"' :: '>' :: rest)).1,
        (scanTag t (value ++ '"' :: '>' :: rest)).2 + (key.toList.length + 6)) := by
    rw [hsplit]
    rcases hkey with rfl | rfl <;> rfl
  have hend : scanTag { t with value := value.reverse ++ t.value } ('"' :: '>' :: rest) =
      (some { { t with value := value.reverse ++ t.value }.finishAttribute with
        state := .afterQuoted }, 2) := rfl
  have hattribute : { t with value := value.reverse ++ t.value }.finishAttribute.attributes =
      [⟨key, String.ofList value⟩] := by
    simp [t, TagSoFar.finishAttribute, TagSoFar.textOf, decode_of_not_mem hreference]
  have hlength : 2 + value.length + (key.toList.length + 6) = (pageTag key value).length := by
    simp [pageTag]
    omega
  rw [scanOpening, hstart, scanTag_quoted rfl hquote hnull, hend, hlength]
  simp only [hattribute]
  rfl

/-- What is left when the document ends after the element. -/
theorem forest_page (attributes : List Attribute) :
    (build 0 (.afterFirst "div" attributes) "</div>".toList).dom.forest =
      [.mk "html" [] [.mk "head" [] [], .mk "body" [] [.mk "div" attributes []]]] := by
  cbv

/-- **The elements of the page.** -/
theorem elementsOf_page {key v : String} (hkey : key = "class" ∨ key = "id")
    (hquote : '"' ∉ v.toList) (hnull : '\x00' ∉ v.toList) (hreference : '&' ∉ v.toList) :
    elementsOf ("<div " ++ key ++ "=\"" ++ v ++ "\"></div>") =
      [.mk "html" [] [.mk "head" [] [], .mk "body" []
        [.mk "div" [⟨key, String.ofList (normalizeLines v.toList)⟩] []]]] := by
  let opening := "<div ".toList ++ key.toList ++ ['=', '"']
  let lines := normalizeLines v.toList
  let attributes : List Attribute := [⟨key, String.ofList lines⟩]
  have htext : ("<div " ++ key ++ "=\"" ++ v ++ "\"></div>").toList =
      opening ++ (v.toList ++ "\"></div>".toList) := by simp [opening]
  have hnormal : normalizeLines (opening ++ (v.toList ++ "\"></div>".toList)) =
      '<' :: (pageTag key lines ++ "</div>".toList) := by
    have hopening : '\r' ∉ opening := by
      rcases hkey with rfl | rfl <;> decide
    have hclosing : normalizeLines "\"></div>".toList = "\"></div>".toList := by decide
    rw [normalizeLines_append_of_not_mem hopening, normalizeLines_append (by decide), hclosing]
    simp [opening, pageTag, lines]
  -- normalized lines hold nothing new but line feeds, so the value still ends at the quote
  have hkept : ∀ c, c ≠ '\n' → c ∉ v.toList → c ∉ lines := fun c hfeed hc hline =>
    (mem_of_mem_normalizeLines c hline).elim hfeed hc
  have hscan := @scanOpening_pageTag lines "</div>".toList key hkey (hkept _ (by decide) hquote)
    (hkept _ (by decide) hnull) (hkept _ (by decide) hreference)
  have htoken : nextToken .data false '<' (pageTag key lines ++ "</div>".toList) =
      (.opening "div" attributes false, (pageTag key lines).length, .data) :=
    congrArg (fun r : Token × Nat => (r.1, r.2, TextMode.data)) hscan
  rw [elementsOf_opening (by rw [htext, hnormal]) htoken]
  exact forest_page attributes

/-- **What the page uses**: its tags, and what the attribute is used for. -/
theorem mem_usedByMarkup_page {key v s : String} (hkey : key = "class" ∨ key = "id")
    (hquote : '"' ∉ v.toList) (hnull : '\x00' ∉ v.toList) (hreference : '&' ∉ v.toList) :
    s ∈ usedByMarkup ("<div " ++ key ++ "=\"" ++ v ++ "\"></div>") ↔
      s ∈ ["html", "head", "body", "div"] ∨
        s ∈ attributeSelectors ⟨key, String.ofList (normalizeLines v.toList)⟩ := by
  have hnone : ∀ e, ¬ Occurs [] e := by
    rintro e (h | ⟨h, -⟩) <;> simp at h
  rw [usedByMarkup, elementsOf_page hkey hquote hnull hreference, mem_usedBy]
  simp [occurs_cons, hnone, Element.children, Element.own, Element.name, Element.attributes,
    or_assoc]

end StyleAudit.Markup
