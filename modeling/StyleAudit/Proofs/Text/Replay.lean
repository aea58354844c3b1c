import Mathlib
import StyleAudit.Proofs.Text.Offset
import StyleAudit.Proofs.Text.Cover
import StyleAudit.Text.Edit

/-! # Replaying edits character by character

A list of edits that do not overlap can be read off a text one character at a time: a covered
character goes, and a replacement is written where its span begins. This reading sees neither
the order of the edits nor how neighbouring deletions are joined, so it is the form in which a plan
and its outcome are compared.

* **`replay edits pos cs`** — what the edits make of the characters `cs` that begin at `pos`.
* **`replay_append`, `replay_congr`, `replay_eq_self`** — replaying is local.
* **`replay_append_append`** — the edits of two texts are replayed apart.
* **`applyAll_eq_replay`** — applying ordered edits is replaying them. -/

namespace StyleAudit.Edit

open Text

/-- Whether the span of some edit holds offset `n`. -/
def covers (edits : List Edit) (n : Nat) : Bool := edits.any fun e => decide (e.span.Covers n)

/-- What the edits write at offset `n`. -/
def inserts (edits : List Edit) (n : Nat) : List Char :=
  edits.flatMap fun e => if e.span.start = n then e.replacement.toList else []

/-- What the edits make of the characters `cs` that begin at offset `pos`. -/
def replay (edits : List Edit) : (pos : Nat) → List Char → List Char
  | _, [] => []
  | pos, c :: cs =>
      inserts edits pos ++ (if covers edits pos then [] else [c]) ++
        replay edits (pos + c.utf8Size) cs

/-- An offset is covered when it lies in the span of an edit. -/
theorem covers_iff {edits : List Edit} {n : Nat} :
    covers edits n = true ↔ ∃ e ∈ edits, e.span.Covers n := by
  simp [covers]

/-- An offset is not covered when it lies in no span. -/
theorem covers_eq_false_iff {edits : List Edit} {n : Nat} :
    covers edits n = false ↔ ∀ e ∈ edits, ¬ e.span.Covers n := by
  simp [covers]

/-- Edits one after the other cover what either list covers. -/
@[simp] theorem covers_append (es fs : List Edit) (n : Nat) :
    covers (es ++ fs) n = (covers es n || covers fs n) := by
  simp [covers]

/-- Edits one after the other write what either list writes. -/
@[simp] theorem inserts_append (es fs : List Edit) (n : Nat) :
    inserts (es ++ fs) n = inserts es n ++ inserts fs n := by
  simp [inserts]

/-- Nothing is written at an offset where no edit begins. -/
theorem inserts_eq_nil {edits : List Edit} {n : Nat} (h : ∀ e ∈ edits, e.span.start ≠ n) :
    inserts edits n = [] := by
  rw [inserts, List.flatMap_eq_nil_iff]
  intro e he
  rw [if_neg (h e he)]

/-! ## Locality -/

/-- Replaying two texts that follow each other. -/
theorem replay_append (edits : List Edit) (pos : Nat) (a b : List Char) :
    replay edits pos (a ++ b) = replay edits pos a ++ replay edits (pos + byteSize a) b := by
  induction a generalizing pos with
  | nil => simp [replay]
  | cons c a ih => simp [replay, ih, Nat.add_assoc]

/-- Edits that cover and write the same on a stretch make the same of it. -/
theorem replay_congr {es fs : List Edit} {pos : Nat} {cs : List Char}
    (h : ∀ n, pos ≤ n → n < pos + byteSize cs →
      covers es n = covers fs n ∧ inserts es n = inserts fs n) :
    replay es pos cs = replay fs pos cs := by
  induction cs generalizing pos with
  | nil => rfl
  | cons c cs ih =>
      have hpos := c.utf8Size_pos
      rw [byteSize_cons] at h
      obtain ⟨hc, hi⟩ := h pos (Nat.le_refl _) (by omega)
      rw [replay, replay, hc, hi, ih fun n hn hlt => h n (by omega) (by omega)]

/-- Edits that neither cover nor begin anywhere on a stretch leave it alone. -/
theorem replay_eq_self {edits : List Edit} {pos : Nat} {cs : List Char}
    (h : ∀ e ∈ edits, e.span.start < e.span.stop)
    (happart : ∀ e ∈ edits, e.span.stop ≤ pos ∨ pos + byteSize cs ≤ e.span.start) :
    replay edits pos cs = cs := by
  induction cs generalizing pos with
  | nil => rfl
  | cons c cs ih =>
      have hpos := c.utf8Size_pos
      rw [byteSize_cons] at happart
      have hcov : covers edits pos = false := by
        refine covers_eq_false_iff.2 fun e he hc => ?_
        have := happart e he
        simp only [Span.Covers] at hc
        omega
      have hins : inserts edits pos = [] := by
        refine inserts_eq_nil fun e he hstart => ?_
        have := happart e he
        have := h e he
        omega
      rw [replay, hcov, hins, ih fun e he => by have := happart e he; omega]
      simp

/-- Edits that end before a stretch or begin after it do not touch it. -/
theorem replay_middle (as es bs : List Edit) {pos : Nat} {cs : List Char}
    (ha : ∀ e ∈ as, e.span.start < e.span.stop ∧ e.span.stop ≤ pos)
    (hb : ∀ e ∈ bs, pos + byteSize cs ≤ e.span.start) :
    replay (as ++ (es ++ bs)) pos cs = replay es pos cs := by
  refine replay_congr fun n hlow hhigh => ?_
  have hca : covers as n = false := covers_eq_false_iff.2 fun e he hn => by
    have := ha e he
    simp only [Span.Covers] at hn
    omega
  have hcb : covers bs n = false := covers_eq_false_iff.2 fun e he hn => by
    have := hb e he
    simp only [Span.Covers] at hn
    omega
  have hia : inserts as n = [] := inserts_eq_nil fun e he hn => by
    have := ha e he
    omega
  have hib : inserts bs n = [] := inserts_eq_nil fun e he hn => by
    have := hb e he
    omega
  simp [hca, hcb, hia, hib]

/-- Edits before and after a stretch leave it alone. -/
theorem replay_outside (es fs : List Edit) {pos : Nat} {cs : List Char}
    (he : ∀ e ∈ es, e.span.start < e.span.stop ∧ e.span.stop ≤ pos)
    (hf : ∀ e ∈ fs, pos + byteSize cs ≤ e.span.start) : replay (es ++ fs) pos cs = cs := by
  have hmiddle := replay_middle es [] fs he hf
  rw [List.nil_append] at hmiddle
  rw [hmiddle]
  exact replay_eq_self (by simp) (by simp)

/-- Edits that end before a text leave it to the others. -/
theorem replay_append_left {es : List Edit} {pos : Nat}
    (h : ∀ e ∈ es, e.span.start < e.span.stop ∧ e.span.stop ≤ pos) (fs : List Edit)
    (cs : List Char) : replay (es ++ fs) pos cs = replay fs pos cs := by
  have hmiddle := @replay_middle es fs [] pos cs h (by simp)
  rwa [List.append_nil] at hmiddle

/-- Edits that begin after the first characters of a text leave these alone. -/
theorem replay_append_of_le {edits : List Edit} {pos : Nat} {a : List Char}
    (h : ∀ e ∈ edits, pos + byteSize a ≤ e.span.start) (b : List Char) :
    replay edits pos (a ++ b) = a ++ replay edits (pos + byteSize a) b := by
  have hself := replay_outside [] edits (by simp) h
  rw [List.nil_append] at hself
  rw [replay_append, hself]

/-- **Edits of two texts** that follow each other are replayed apart. -/
theorem replay_append_append {es fs : List Edit} {pos : Nat} {a : List Char}
    (he : ∀ e ∈ es, e.span.start < e.span.stop ∧ e.span.stop ≤ pos + byteSize a)
    (hf : ∀ f ∈ fs, pos + byteSize a ≤ f.span.start) (b : List Char) :
    replay (es ++ fs) pos (a ++ b) = replay es pos a ++ replay fs (pos + byteSize a) b := by
  have hmiddle := replay_middle [] es fs (by simp) hf
  rw [List.nil_append] at hmiddle
  rw [replay_append, hmiddle, replay_append_left he]

/-- Edits that cover a whole stretch and write nothing on it delete it. -/
theorem replay_eq_nil {edits : List Edit} {pos : Nat} {cs : List Char}
    (hcov : ∀ n, pos ≤ n → n < pos + byteSize cs → covers edits n = true)
    (hins : ∀ n, pos ≤ n → n < pos + byteSize cs → inserts edits n = []) :
    replay edits pos cs = [] := by
  induction cs generalizing pos with
  | nil => rfl
  | cons c cs ih =>
      have hpos := c.utf8Size_pos
      rw [byteSize_cons] at hcov hins
      rw [replay, hcov pos (Nat.le_refl _) (by omega), hins pos (Nat.le_refl _) (by omega),
        ih (fun n hn hlt => hcov n (by omega) (by omega))
          (fun n hn hlt => hins n (by omega) (by omega))]
      rfl

/-- Edits that write nothing on a stretch leave characters of it. -/
theorem mem_of_mem_replay {edits : List Edit} {pos : Nat} {cs : List Char}
    (hins : ∀ n, pos ≤ n → n < pos + byteSize cs → inserts edits n = []) {c : Char}
    (hc : c ∈ replay edits pos cs) : c ∈ cs := by
  induction cs generalizing pos with
  | nil => simp [replay] at hc
  | cons d cs ih =>
      have hpos := d.utf8Size_pos
      rw [byteSize_cons] at hins
      rw [replay, hins pos (Nat.le_refl _) (by omega), List.nil_append, List.mem_append] at hc
      rcases hc with hc | hc
      · split at hc
        · simp at hc
        · simp [List.mem_singleton.1 hc]
      · exact List.mem_cons_of_mem _ (ih (fun n hn hlt => hins n (by omega) (by omega)) hc)

/-- Edits that cover a whole stretch and write only at its start replace it. -/
theorem replay_eq_inserts {edits : List Edit} {pos : Nat} {cs : List Char} (hne : cs ≠ [])
    (hcov : ∀ n, pos ≤ n → n < pos + byteSize cs → covers edits n = true)
    (hins : ∀ n, pos < n → n < pos + byteSize cs → inserts edits n = []) :
    replay edits pos cs = inserts edits pos := by
  cases cs with
  | nil => exact absurd rfl hne
  | cons c cs =>
      have hpos := c.utf8Size_pos
      rw [byteSize_cons] at hcov hins
      rw [replay, hcov pos (Nat.le_refl _) (by omega),
        replay_eq_nil (fun n hn hlt => hcov n (by omega) (by omega))
          (fun n hn hlt => hins n (by omega) (by omega))]
      simp

/-- **A single edit** replaces its span. -/
theorem replay_singleton {e : Edit} {pos : Nat} {a m b : List Char} (hm : m ≠ [])
    (he : e.span = ⟨pos + byteSize a, pos + byteSize a + byteSize m⟩) :
    replay [e] pos (a ++ (m ++ b)) = a ++ (e.replacement.toList ++ b) := by
  have hpos := byteSize_pos_of_ne_nil hm
  have hcovers : ∀ n, covers [e] n = true ↔
      pos + byteSize a ≤ n ∧ n < pos + byteSize a + byteSize m := by
    intro n
    simp [covers, he, Span.Covers]
  have hspan : replay [e] (pos + byteSize a) m = e.replacement.toList := by
    rw [replay_eq_inserts hm (fun n hlow hhigh => (hcovers n).2 ⟨hlow, hhigh⟩)
      fun n hlow _ => inserts_eq_nil fun f hf => ?_]
    · simp [inserts, he]
    · rw [List.mem_singleton.1 hf, he]
      simp only
      omega
  have hself : ∀ f ∈ [e], f.span.start < f.span.stop := by
    simp only [List.mem_singleton, forall_eq, he]
    omega
  rw [replay_append, replay_append, hspan, replay_eq_self hself, replay_eq_self hself]
  · simp [he]
  · simp [he]

/-- **A deletion and the edits after it.** They may begin on the end `t` of what is deleted, but they
write nothing there. -/
theorem replay_delete {span : Span} {edits : List Edit} {pos : Nat} {a m t u : List Char}
    (hspan : span = ⟨pos + byteSize a, pos + byteSize a + byteSize m + byteSize t⟩) (hm : m ≠ [])
    (hedits : ∀ e ∈ edits, pos + byteSize a + byteSize m ≤ e.span.start ∧
      e.span.start < e.span.stop)
    (hins : ∀ n, pos + byteSize a + byteSize m ≤ n →
      n < pos + byteSize a + byteSize m + byteSize t → inserts edits n = []) :
    replay ([delete span] ++ edits) pos (a ++ (m ++ (t ++ u))) =
      a ++ replay edits (pos + byteSize a + byteSize m + byteSize t) u := by
  have hpos := byteSize_pos_of_ne_nil hm
  have hall : ∀ e ∈ [delete span] ++ edits, pos + byteSize a ≤ e.span.start := by
    intro e he
    rcases List.mem_append.1 he with he | he
    · rw [List.mem_singleton.1 he, delete, hspan]
    · have := hedits e he
      omega
  have hcovers : ∀ n, pos + byteSize a ≤ n → n < pos + byteSize a + byteSize m + byteSize t →
      covers ([delete span] ++ edits) n = true := fun n hlow hhigh =>
    covers_iff.2 ⟨delete span, by simp, by simp only [delete, hspan, Span.Covers]; omega⟩
  have hwrites : ∀ n, inserts ([delete span] ++ edits) n = inserts edits n := by
    intro n
    have hnil : inserts [delete span] n = [] := by simp [inserts, delete]
    rw [inserts_append, hnil, List.nil_append]
  -- the rule goes, and so does the end of what is deleted
  have hrule : replay ([delete span] ++ edits) (pos + byteSize a) m = [] := by
    refine replay_eq_nil (fun n hlow hhigh => hcovers n hlow (by omega)) fun n hlow hhigh => ?_
    rw [hwrites]
    exact inserts_eq_nil fun e he => by have := (hedits e he).1; omega
  have htail : replay ([delete span] ++ edits) (pos + byteSize a + byteSize m) t = [] := by
    refine replay_eq_nil (fun n hlow hhigh => hcovers n (by omega) hhigh) fun n hlow hhigh => ?_
    rw [hwrites]
    exact hins n hlow hhigh
  have hspan' : ∀ e ∈ [delete span], e.span.start < e.span.stop ∧
      e.span.stop ≤ pos + byteSize a + byteSize m + byteSize t := by
    simp only [List.mem_singleton, forall_eq, delete, hspan]
    omega
  rw [replay_append_of_le hall, replay_append, replay_append, hrule, htail,
    replay_append_left hspan', List.nil_append, List.nil_append]

/-! ## Applying ordered edits -/

/-- A fitting edit cuts the text at both ends of its span. -/
theorem exists_cuts_of_fits {text : List Char} {e : Edit} (h : e.fits text = true) :
    ∃ a m b, text = a ++ (m ++ b) ∧ byteSize a = e.span.start ∧
      byteSize a + byteSize m = e.span.stop := by
  simp only [fits, Bool.and_eq_true, decide_eq_true_eq] at h
  obtain ⟨⟨hle, hstart⟩, hstop⟩ := h
  obtain ⟨a, b, rfl, ha⟩ := isBoundary_iff.1 hstart
  obtain ⟨a', b', hab, ha'⟩ := isBoundary_iff.1 hstop
  obtain ⟨m, rfl, rfl⟩ := exists_append_of_byteSize_le hab (by omega)
  rw [byteSize_append] at ha'
  exact ⟨a, m, b', rfl, ha, ha'⟩

/-- Splicing ordered edits into the rest of a text is replaying them over it. -/
theorem splice_eq_replay {edits : List Edit} {a b : List Char}
    (horder : edits.Pairwise fun e f => e.span.stop ≤ f.span.start)
    (hne : ∀ e ∈ edits, e.span.start < e.span.stop)
    (hfits : ∀ e ∈ edits, e.fits (a ++ b) = true)
    (hlow : ∀ e ∈ edits, byteSize a ≤ e.span.start) :
    splice (byteSize a) edits b = replay edits (byteSize a) b := by
  induction edits generalizing a b with
  | nil => exact (replay_eq_self (by simp) (by simp)).symm
  | cons e edits ih =>
      obtain ⟨hnext, horder⟩ := List.pairwise_cons.1 horder
      obtain ⟨x, m, y, hxy, hx, hm⟩ := exists_cuts_of_fits (hfits e (by simp))
      obtain ⟨k, rfl, rfl⟩ := exists_append_of_byteSize_le hxy (by rw [hx]; exact hlow e (by simp))
      rw [byteSize_append] at hx hm
      have hm' : 0 < byteSize m := by have := hne e (by simp); omega
      have hlow' : ∀ f ∈ edits, e.span.stop ≤ f.span.start := fun f hf => hnext f hf
      have hne' : ∀ f ∈ edits, f.span.start < f.span.stop := fun f hf => hne f (by simp [hf])
      have hrest := ih (a := a ++ k ++ m) (b := y) horder hne'
        (fun f hf => by simpa using hfits f (by simp [hf]))
        (fun f hf => by have := hlow' f hf; simp only [byteSize_append]; omega)
      simp only [byteSize_append] at hrest
      -- the text before the span stays, the span is replaced, and the other edits see the rest
      have hbefore : ∀ f ∈ e :: edits, byteSize a + byteSize k ≤ f.span.start := by
        intro f hf
        rcases List.mem_cons.1 hf with rfl | hf
        · exact hx.le
        · have := hlow' f hf
          omega
      have hspan : replay [e] (byteSize a + byteSize k) m = e.replacement.toList := by
        have hcut : e.span = ⟨byteSize a + byteSize k + byteSize [],
            byteSize a + byteSize k + byteSize [] + byteSize m⟩ := by
          rw [byteSize_nil, Nat.add_zero, hm, hx]
        have hne : m ≠ [] := fun h => by simp [h] at hm'
        simpa using @replay_singleton e (byteSize a + byteSize k) [] m [] hne hcut
      have hmiddle : replay ([e] ++ edits) (byteSize a + byteSize k) (m ++ y) =
          e.replacement.toList ++ replay edits (byteSize a + byteSize k + byteSize m) y := by
        refine (replay_append_append (fun f hf => ?_) (fun f hf => ?_) y).trans (by rw [hspan])
        · rw [List.mem_singleton.1 hf]
          omega
        · have := hlow' f hf
          omega
      rw [List.singleton_append] at hmiddle
      rw [splice, replay_append_of_le hbefore, hmiddle, ← hrest]
      rw [show e.span.start - byteSize a = byteSize k by omega, takeBytes_append,
        show e.span.stop - byteSize a = byteSize (k ++ m) by rw [byteSize_append]; omega,
        ← List.append_assoc k m y, dropBytes_append,
        show e.span.stop = byteSize a + byteSize k + byteSize m by omega]
      simp

/-- Ordered edits have no overlapping neighbours. -/
theorem firstOverlap?_eq_none {edits : List Edit}
    (h : edits.Pairwise fun e f => e.span.stop ≤ f.span.start) : firstOverlap? edits = none := by
  induction edits with
  | nil => rfl
  | cons e edits ih =>
      obtain ⟨hnext, hrest⟩ := List.pairwise_cons.1 h
      cases edits with
      | nil => rfl
      | cons f edits =>
          have := hnext f (by simp)
          rw [firstOverlap?, if_neg (by omega)]
          exact ih hrest

/-- **Applying ordered edits is replaying them.** -/
theorem applyAll_eq_replay {edits : List Edit} {text : String}
    (horder : edits.Pairwise fun e f => e.span.stop ≤ f.span.start)
    (hne : ∀ e ∈ edits, e.span.start < e.span.stop)
    (hfits : ∀ e ∈ edits, e.fits text.toList = true) :
    applyAll edits text = .ok (String.ofList (replay edits 0 text.toList)) := by
  have hsorted : edits.mergeSort (fun e f => Span.le e.span f.span) = edits := by
    refine List.mergeSort_of_pairwise (List.Pairwise.imp_of_mem (fun {e f} he _ hef => ?_) horder)
    have := hne e he
    simp only [Span.le, Bool.or_eq_true, decide_eq_true_eq]
    omega
  have hfind : edits.find? (fun e => !e.fits text.toList) = none := by
    rw [List.find?_eq_none]
    intro e he
    simp [hfits e he]
  have hsplice := splice_eq_replay (a := []) (b := text.toList) horder hne hfits (by simp)
  simp only [byteSize_nil] at hsplice
  simp only [applyAll, hsorted, hfind, firstOverlap?_eq_none horder, hsplice]

end StyleAudit.Edit
