import Mathlib
import StyleAudit.Markup.Formatting

/-! # Documents whose elements have names of one kind

A document is built in many steps, but the names of its elements are the names of tags, corrected
spellings of them, and those of the few elements that are put in. So what holds of the names in the
text holds of the names in the document. Only elements become children; the document itself and the
contents of a template, which have no name, do not.

* **`Dom.HasName`**, **`Dom.Named`** — a node, and every child, has a name with the property.
* **`Dom.Keeps`** — a change keeps the nodes and their names.
* **`Builder.Named`** — the property holds of all that the builder may put into the document.
* **`Builder.Named.insertKind`**, **`Builder.Named.endFormatting`** — steps keep it. -/

namespace StyleAudit.Markup

variable {P : String → Prop}

/-! ## Tables of nodes -/

namespace Dom

/-- A node exists, and its name has the property. -/
def HasName (P : String → Prop) (d : Dom) (id : Nat) : Prop :=
  id < d.nodes.size ∧ P (d.node id).name

/-- Every child of a node has a name with the property. -/
def Named (P : String → Prop) (d : Dom) : Prop :=
  ∀ id, ∀ c ∈ (d.node id).children, d.HasName P c

/-- The nodes of the one table are those of the other with the same names, and perhaps more. -/
def Keeps (d d' : Dom) : Prop :=
  d.nodes.size ≤ d'.nodes.size ∧ ∀ id < d.nodes.size, (d'.node id).name = (d.node id).name

theorem Keeps.refl (d : Dom) : d.Keeps d := ⟨Nat.le_refl _, fun _ _ => rfl⟩

theorem Keeps.trans {d d' d'' : Dom} (h : d.Keeps d') (h' : d'.Keeps d'') : d.Keeps d'' :=
  ⟨Nat.le_trans h.1 h'.1, fun id hid =>
    (h'.2 id (Nat.lt_of_lt_of_le hid h.1)).trans (h.2 id hid)⟩

/-- A node keeps its name. -/
theorem HasName.of_keeps {d d' : Dom} {id : Nat} (h : d.HasName P id) (hkeeps : d.Keeps d') :
    d'.HasName P id :=
  ⟨Nat.lt_of_lt_of_le h.1 hkeeps.1, by rw [hkeeps.2 id h.1]; exact h.2⟩

/-- A change to one node is seen at that node only. -/
theorem node_update (d : Dom) (id : Nat) (f : Node → Node) (i : Nat) :
    (d.update id f).node i = if id = i ∧ i < d.nodes.size then f (d.node i) else d.node i := by
  unfold node update
  rw [Array.getD_eq_getD_getElem?, Array.getD_eq_getD_getElem?, Array.getElem?_modify]
  by_cases hid : id = i
  · by_cases hi : i < d.nodes.size <;> simp [hid, hi]
  · simp [hid]

/-- A change that keeps the name of a node keeps all names. -/
theorem keeps_update {d : Dom} {id : Nat} {f : Node → Node} (hf : ∀ n, (f n).name = n.name) :
    d.Keeps (d.update id f) := by
  refine ⟨by simp [update], fun i _ => ?_⟩
  rw [node_update]
  split
  · exact hf _
  · rfl

/-- A change that keeps the names and adds no child but `c` keeps the property if `c` has it. -/
theorem Named.of_keeps {d d' : Dom} (h : d.Named P) (hkeeps : d.Keeps d')
    (hchildren : ∀ id, ∀ c ∈ (d'.node id).children,
      c ∈ (d.node id).children ∨ d'.HasName P c) : d'.Named P := by
  intro id c hc
  rcases hchildren id c hc with hc | hc
  · exact (h id c hc).of_keeps hkeeps
  · exact hc

/-- A change to a node that keeps its name and adds no child but ones with the property. -/
theorem Named.update {d : Dom} {id : Nat} {f : Node → Node} (h : d.Named P)
    (hname : ∀ n, (f n).name = n.name)
    (hchildren : ∀ n, ∀ c ∈ (f n).children, c ∈ n.children ∨ d.HasName P c) :
    (d.update id f).Named P := by
  refine h.of_keeps (keeps_update hname) fun i c hc => ?_
  rw [node_update] at hc
  split at hc
  · rcases hchildren _ c hc with hc | hc
    · exact .inl hc
    · exact .inr (hc.of_keeps (keeps_update hname))
  · exact .inl hc

theorem keeps_detach (d : Dom) (id : Nat) : d.Keeps (d.detach id) := by
  unfold detach
  split
  · refine Keeps.trans (keeps_update ?_) (keeps_update ?_)
    · intro n
      rfl
    · intro n
      rfl
  · exact .refl d

theorem Named.detach {d : Dom} (h : d.Named P) (id : Nat) : (d.detach id).Named P := by
  unfold Dom.detach
  split
  · refine Named.update (Named.update h ?_ ?_) ?_ ?_
    · exact fun n => rfl
    · exact fun n c hc => .inl (List.mem_of_mem_filter hc)
    · exact fun n => rfl
    · exact fun n c hc => .inl hc
  · exact h

/-- Gives a node a parent, whose children become `f` of what they were. -/
theorem keeps_link {d : Dom} (parent id : Nat) (f : List Nat → List Nat) :
    d.Keeps ((d.update parent fun n => { n with children := f n.children }).update id
      fun n => { n with parent := some parent }) := by
  refine Keeps.trans (keeps_update ?_) (keeps_update ?_)
  · exact fun n => rfl
  · exact fun n => rfl

theorem Named.link {d : Dom} (h : d.Named P) {id : Nat} (hid : d.HasName P id) (parent : Nat)
    {f : List Nat → List Nat} (hf : ∀ cs, ∀ c ∈ f cs, c ∈ cs ∨ c = id) :
    ((d.update parent fun n => { n with children := f n.children }).update id
      fun n => { n with parent := some parent }).Named P := by
  refine Named.update (Named.update h ?_ ?_) ?_ ?_
  · exact fun n => rfl
  · intro n c hc
    rcases hf n.children c hc with hc | rfl
    · exact .inl hc
    · exact .inr hid
  · exact fun n => rfl
  · exact fun n c hc => .inl hc

theorem keeps_append (d : Dom) (parent id : Nat) : d.Keeps (d.append parent id) := by
  unfold append
  exact (keeps_detach d id).trans (keeps_link parent id (· ++ [id]))

theorem Named.append {d : Dom} (h : d.Named P) {id : Nat} (hid : d.HasName P id) (parent : Nat) :
    (d.append parent id).Named P := by
  unfold Dom.append
  refine Named.link (h.detach id) (hid.of_keeps (keeps_detach d id)) parent
    (f := (· ++ [id])) ?_
  intro cs c hc
  rcases List.mem_append.1 hc with hc | hc
  · exact .inl hc
  · exact .inr (List.mem_singleton.1 hc)

theorem keeps_insertBefore (d : Dom) (parent sibling id : Nat) :
    d.Keeps (d.insertBefore parent sibling id) := by
  unfold insertBefore
  exact (keeps_detach d id).trans (keeps_link parent id fun cs =>
    cs.takeWhile (· != sibling) ++ id :: cs.dropWhile (· != sibling))

theorem Named.insertBefore {d : Dom} (h : d.Named P) {id : Nat} (hid : d.HasName P id)
    (parent sibling : Nat) : (d.insertBefore parent sibling id).Named P := by
  unfold Dom.insertBefore
  refine Named.link (h.detach id) (hid.of_keeps (keeps_detach d id)) parent
    (f := fun cs => cs.takeWhile (· != sibling) ++ id :: cs.dropWhile (· != sibling)) ?_
  intro cs c hc
  rcases List.mem_append.1 hc with hc | hc
  · exact .inl ((List.takeWhile_sublist _).subset hc)
  · rcases List.mem_cons.1 hc with rfl | hc
    · exact .inr rfl
    · exact .inl ((List.dropWhile_sublist _).subset hc)

/-- Nodes that are appended one after the other. -/
theorem named_foldl_append {d : Dom} (h : d.Named P) {ids : List Nat}
    (hids : ∀ id ∈ ids, d.HasName P id) (parent : Nat) :
    (ids.foldl (fun d id => d.append parent id) d).Named P ∧
      d.Keeps (ids.foldl (fun d id => d.append parent id) d) := by
  induction ids generalizing d with
  | nil => exact ⟨h, .refl d⟩
  | cons id ids ih =>
      have hid := hids id List.mem_cons_self
      have hkeeps := keeps_append d parent id
      obtain ⟨hnamed, hrest⟩ := ih (h.append hid parent) fun i hi =>
        (hids i (List.mem_cons_of_mem _ hi)).of_keeps hkeeps
      exact ⟨hnamed, hkeeps.trans hrest⟩

theorem Named.moveChildren {d : Dom} (h : d.Named P) (source target : Nat) :
    (d.moveChildren source target).Named P :=
  (named_foldl_append h (h source) target).1

theorem keeps_moveChildren {d : Dom} (h : d.Named P) (source target : Nat) :
    d.Keeps (d.moveChildren source target) :=
  (named_foldl_append h (h source) target).2

theorem keeps_addAttributes (d : Dom) (id : Nat) (attributes : List Attribute) :
    d.Keeps (d.addAttributes id attributes) :=
  keeps_update (by intro n; rfl)

theorem Named.addAttributes {d : Dom} (h : d.Named P) (id : Nat) (attributes : List Attribute) :
    (d.addAttributes id attributes).Named P :=
  Named.update h (by intro n; rfl) (by intro n c hc; exact .inl hc)

/-- The nodes after one was made. -/
theorem node_create (d : Dom) (name : String) (attributes : List Attribute) (i : Nat) :
    (d.create name attributes).2.node i =
      if i = d.nodes.size then ⟨name, attributes, [], none⟩ else d.node i := by
  unfold node create
  rw [Array.getD_eq_getD_getElem?, Array.getD_eq_getD_getElem?, Array.getElem?_push]
  by_cases hi : i = d.nodes.size <;> simp [hi]

theorem keeps_create (d : Dom) (name : String) (attributes : List Attribute) :
    d.Keeps (d.create name attributes).2 := by
  refine ⟨by simp [create], fun i hi => ?_⟩
  rw [node_create, if_neg (Nat.ne_of_lt hi)]

theorem hasName_create {d : Dom} {name : String} (hname : P name) (attributes : List Attribute) :
    (d.create name attributes).2.HasName P (d.create name attributes).1 := by
  refine ⟨by simp [create], ?_⟩
  rw [node_create]
  simpa [create] using hname

theorem Named.create {d : Dom} (h : d.Named P) (name : String) (attributes : List Attribute) :
    (d.create name attributes).2.Named P := by
  refine h.of_keeps (keeps_create d name attributes) fun i c hc => ?_
  rw [node_create] at hc
  split at hc
  · cases hc
  · exact .inl hc

end Dom

/-! ## Builders -/

namespace Builder

/-- All that a builder may put into the document has a name with the property: the elements that are
in it or open, the head, and the tags of formatting elements. -/
structure Named (P : String → Prop) (b : Builder) : Prop where
  dom : b.dom.Named P
  stack : ∀ e ∈ b.stack, b.dom.HasName P e.id
  formatting : ∀ id t, .element id t ∈ b.formatting → P t.name
  head : ∀ id ∈ b.head, b.dom.HasName P id

namespace Named

variable {b : Builder}

/-! ### Steps that make no element -/

/-- Only the document, the open elements, the formatting elements and the head matter. -/
theorem congr {b' : Builder} (h : b.Named P) (hdom : b'.dom = b.dom)
    (hstack : ∀ e ∈ b'.stack, e ∈ b.stack) (hformatting : ∀ f ∈ b'.formatting, f ∈ b.formatting)
    (hhead : b'.head = b.head) : b'.Named P where
  dom := hdom ▸ h.dom
  stack e he := hdom ▸ h.stack e (hstack e he)
  formatting id t ht := h.formatting id t (hformatting _ ht)
  head id hid := hdom ▸ h.head id (hhead ▸ hid)

/-- A change of the document that keeps the names. -/
theorem withDom {dom : Dom} (h : b.Named P) (hkeeps : b.dom.Keeps dom) (hdom : dom.Named P) :
    Named P { b with dom := dom } where
  dom := hdom
  stack e he := (h.stack e he).of_keeps hkeeps
  formatting := h.formatting
  head id hid := (h.head id hid).of_keeps hkeeps

theorem enter (h : b.Named P) (m : Mode) : (b.enter m).Named P :=
  h.congr rfl (fun _ => id) (fun _ => id) rfl

theorem noFrameset (h : b.Named P) : b.noFrameset.Named P :=
  h.congr rfl (fun _ => id) (fun _ => id) rfl

theorem pop (h : b.Named P) : b.pop.Named P :=
  h.congr rfl (fun _ => List.mem_of_mem_tail) (fun _ => id) rfl

theorem popThrough (h : b.Named P) (p : Kind → Bool) : (b.popThrough p).Named P :=
  h.congr rfl (fun _ he => (List.dropWhile_sublist _).subset (List.mem_of_mem_tail he))
    (fun _ => id) rfl

theorem popNamed (h : b.Named P) (name : String) : (b.popNamed name).Named P := h.popThrough _

theorem popTo (h : b.Named P) (p : Kind → Bool) : (b.popTo p).Named P :=
  h.congr rfl (fun _ he => (List.dropWhile_sublist _).subset he) (fun _ => id) rfl

theorem endImplied (h : b.Named P) (except : String) : (b.endImplied except).Named P :=
  h.congr rfl (fun _ he => (List.dropWhile_sublist _).subset he) (fun _ => id) rfl

theorem close (h : b.Named P) (name : String) : (b.close name).Named P :=
  (h.endImplied name).popNamed name

theorem closeParagraph (h : b.Named P) : b.closeParagraph.Named P := by
  unfold Builder.closeParagraph
  split
  · exact h.close "p"
  · exact h

theorem forget (h : b.Named P) (id : Nat) : (b.forget id).Named P :=
  h.congr rfl (fun _ => List.mem_of_mem_eraseP) (fun _ he => he) rfl

theorem clearFormatting (h : b.Named P) : b.clearFormatting.Named P :=
  h.congr rfl (fun _ => id)
    (fun _ hf => (List.dropWhile_sublist _).subset (List.mem_of_mem_tail hf)) rfl

theorem mark (h : b.Named P) : b.mark.Named P where
  dom := h.dom
  stack := h.stack
  formatting id t ht := by
    rcases List.mem_cons.1 ht with ht | ht
    · cases ht
    · exact h.formatting id t ht
  head := h.head

theorem mergeRoot (h : b.Named P) (t : Tag) : (b.mergeRoot t).Named P := by
  unfold Builder.mergeRoot
  split
  · exact h.withDom (Dom.keeps_addAttributes _ _ _) (h.dom.addAttributes _ _)
  · exact h

theorem resetMode (h : b.Named P) : b.resetMode.Named P := h.enter _

/-! ### Elements -/

theorem putAt (h : b.Named P) {id : Nat} (hid : b.dom.HasName P id) (place : Place) :
    (b.putAt id place).Named P := by
  cases place with
  | lastIn p => exact h.withDom (Dom.keeps_append _ _ _) (h.dom.append hid p)
  | before p s => exact h.withDom (Dom.keeps_insertBefore _ _ _ _) (h.dom.insertBefore hid p s)

theorem keeps_putAt (b : Builder) (id : Nat) (place : Place) : b.dom.Keeps (b.putAt id place).dom := by
  cases place with
  | lastIn p => exact Dom.keeps_append _ _ _
  | before p s => exact Dom.keeps_insertBefore _ _ _ _

/-- A new element has its name, and nothing else has changed. -/
theorem create (h : b.Named P) {k : Kind} (hk : P k.name) (attributes : List Attribute) :
    (b.create k attributes).2.Named P ∧
      (b.create k attributes).2.dom.HasName P (b.create k attributes).1.id ∧
      b.dom.Keeps (b.create k attributes).2.dom ∧
      (b.create k attributes).2.stack = b.stack := by
  have hkeeps := Dom.keeps_create b.dom k.name attributes
  have hdom := h.dom.create k.name attributes
  have hnew := @Dom.hasName_create P b.dom k.name hk attributes
  rcases hcreate : b.dom.create k.name attributes with ⟨id, dom⟩
  rw [hcreate] at hkeeps hdom hnew
  simp only [Builder.create, hcreate]
  split
  · -- the contents of a template are a node of their own, without a name
    have hinside := Dom.keeps_create dom "" []
    exact ⟨h.withDom (hkeeps.trans hinside) (hdom.create "" []), hnew.of_keeps hinside,
      hkeeps.trans hinside, rfl⟩
  · exact ⟨h.withDom hkeeps hdom, hnew, hkeeps, rfl⟩

/-- An element that is put at a place is left open. -/
theorem push (h : b.Named P) {e : OpenElement} (he : b.dom.HasName P e.id) :
    Named P { b with stack := e :: b.stack } where
  dom := h.dom
  stack := List.forall_mem_cons.2 ⟨he, h.stack⟩
  formatting := h.formatting
  head := h.head

theorem insertKind (h : b.Named P) {k : Kind} (hk : P k.name) (attributes : List Attribute) :
    (b.insertKind k attributes).Named P := by
  obtain ⟨hnamed, hnew, -, -⟩ := h.create hk attributes
  rcases hcreate : b.create k attributes with ⟨e, b'⟩
  rw [hcreate] at hnamed hnew
  simp only [Builder.insertKind, hcreate]
  exact (hnamed.putAt hnew _).push (hnew.of_keeps (keeps_putAt b' e.id _))

/-- The innermost open element has a name with the property. -/
theorem currentId (h : b.Named P) (hstack : b.stack ≠ []) : b.dom.HasName P b.currentId := by
  obtain ⟨e, es, hstack⟩ := List.exists_cons_of_ne_nil hstack
  have hcurrent : b.currentId = e.id := by simp [Builder.currentId, hstack]
  rw [hcurrent]
  exact h.stack e (hstack ▸ List.mem_cons_self)

theorem insert (h : b.Named P) {t : Tag} (ht : P t.name) : (b.insert t).Named P :=
  h.insertKind ht _

theorem insertVoid (h : b.Named P) {t : Tag} (ht : P t.name) : (b.insertVoid t).Named P :=
  (h.insert ht).pop

theorem insertImplied (h : b.Named P) {name : String} (hname : P name) :
    (b.insertImplied name).Named P :=
  h.insert hname

theorem insertText (h : b.Named P) {t : Tag} (ht : P t.name) (reading : TextMode) :
    (b.insertText t reading).Named P :=
  (h.insert ht).congr rfl (fun _ => id) (fun _ => id) rfl

/-- After an element was inserted, an element is open. -/
theorem stack_insert_ne_nil (b : Builder) (t : Tag) : (b.insert t).stack ≠ [] := by
  unfold Builder.insert Builder.insertKind
  rcases b.create (.html t.name) t.attributes with ⟨e, b'⟩
  exact List.cons_ne_nil _ _

/-! ### Formatting elements -/

/-- A tag among the formatting entries since the last marker. -/
theorem of_mem_recentFormatting (h : b.Named P) {entry : Nat × Tag}
    (hentry : entry ∈ b.recentFormatting) : P entry.2.name := by
  have hentries : ∀ fs : List Formatting, entry ∈ recentFormatting.entries fs →
      .element entry.1 entry.2 ∈ fs := by
    intro fs
    induction fs with
    | nil => simp [recentFormatting.entries]
    | cons f fs ih =>
        cases f with
        | marker => simp [recentFormatting.entries]
        | element id t =>
            rw [recentFormatting.entries, List.mem_cons]
            rintro (rfl | hmem)
            · exact List.mem_cons_self
            · exact List.mem_cons_of_mem _ (ih hmem)
  exact h.formatting _ _ (hentries _ hentry)

theorem unlist (h : b.Named P) (id : Nat) : (b.unlist id).Named P :=
  h.congr rfl (fun _ he => he) (fun _ => List.mem_of_mem_eraseP) rfl

theorem relist (h : b.Named P) (id new : Nat) {t : Tag} (ht : P t.name) :
    (b.relist id (.element new t)).Named P where
  dom := h.dom
  stack := h.stack
  formatting i u hu := by
    obtain ⟨f, hf, heq⟩ := List.mem_map.1 hu
    split at heq
    · cases heq
      exact ht
    · exact h.formatting i u (heq ▸ hf)
  head := h.head

theorem reopenFormatting (h : b.Named P) : b.reopenFormatting.Named P := by
  unfold Builder.reopenFormatting
  refine List.foldlRecOn _ _ h fun b' hb' entry hentry => ?_
  have hrecent : entry ∈ b.recentFormatting :=
    (List.takeWhile_sublist _).subset (List.mem_reverse.1 hentry)
  have ht : P entry.2.name := h.of_mem_recentFormatting hrecent
  exact (hb'.insert ht).relist _ _ ht

theorem insertFormatting (h : b.Named P) {t : Tag} (ht : P t.name) :
    (b.insertFormatting t).Named P := by
  -- an entry for the new element joins the list, from which an equal one may have gone before
  have hlist : ∀ {b' : Builder}, b'.Named P → ∀ id,
      Named P { b' with formatting := .element id t :: b'.formatting } := fun hb' id =>
    ⟨hb'.dom, hb'.stack, fun i u hu => by
      rcases List.mem_cons.1 hu with heq | hu
      · cases heq
        exact ht
      · exact hb'.formatting i u hu, hb'.head⟩
  unfold Builder.insertFormatting
  refine hlist (insert ?_ ht) _
  split
  · split
    · exact h.unlist _
    · exact h
  · exact h

theorem endOther (h : b.Named P) (name : String) : (b.endOther name).Named P := by
  unfold Builder.endOther
  split
  · exact (h.endImplied name).popNamed name
  · exact h

/-! ### Splitting a formatting element -/

/-- What a split has done so far leaves the open elements as they were, and what it keeps and moves
has a name with the property. -/
structure Splits (P : String → Prop) (b : Builder) (s : Split) : Prop where
  builder : s.builder.Named P
  stack : s.builder.stack = b.stack
  kept : ∀ e ∈ s.kept, s.builder.dom.HasName P e.id
  last : s.builder.dom.HasName P s.last

/-- The tag of a listed element. -/
theorem of_findSome? (h : b.Named P) {id : Nat} {t : Tag}
    (ht : (b.formatting.findSome? fun
      | .element i t => if i == id then some t else none
      | .marker => none) = some t) : P t.name := by
  obtain ⟨f, hf, heq⟩ := List.exists_of_findSome?_eq_some ht
  cases f with
  | marker => cases heq
  | element i u =>
      simp only at heq
      split at heq
      · cases heq
        exact h.formatting i t hf
      · cases heq

theorem Splits.step {s : Split} (h : Splits P b s) (block : Nat) (e : OpenElement × Nat) :
    Splits P b (splitStep block s e) := by
  obtain ⟨e, position⟩ := e
  unfold splitStep
  simp only
  split
  · next t htag =>
    have ht : P t.name := h.builder.of_findSome? htag
    split
    · exact ⟨h.builder.unlist _, h.stack, h.kept, h.last⟩
    · obtain ⟨hnamed, hnew, hkeeps, hstack⟩ :=
        @Named.create P s.builder h.builder (.html t.name) ht t.attributes
      rcases hcreate : s.builder.create (.html t.name) t.attributes with ⟨f, b'⟩
      rw [hcreate] at hnamed hnew hkeeps hstack
      have hlast := h.last.of_keeps hkeeps
      have happend := Dom.keeps_append b'.dom f.id s.last
      exact ⟨(hnamed.relist e.id f.id ht).withDom happend (hnamed.dom.append hlast f.id),
        hstack.trans h.stack,
        List.forall_mem_cons.2 ⟨hnew.of_keeps happend, fun e he =>
          ((h.kept e he).of_keeps hkeeps).of_keeps happend⟩,
        hnew.of_keeps happend⟩
  · exact h

theorem splitAt (h : b.Named P) (format : Nat) {tag : Tag} (htag : P tag.name)
    {inner between outer : List OpenElement} {block : OpenElement}
    (hinner : ∀ e ∈ inner, e ∈ b.stack) (hblock : block ∈ b.stack)
    (houter : ∀ e ∈ outer, e ∈ b.stack) :
    (b.splitAt format tag inner block between outer).Named P := by
  have hsplits : Splits P b (between.zipIdx.foldl (splitStep block.id) ⟨b, [], block.id, none⟩) :=
    List.foldlRecOn _ _ ⟨h, rfl, by simp, h.stack block hblock⟩
      fun s hs e _ => hs.step block.id e
  unfold Builder.splitAt
  generalize between.zipIdx.foldl (splitStep block.id) ⟨b, [], block.id, none⟩ = s at hsplits ⊢
  have hopen : ∀ e ∈ b.stack, s.builder.dom.HasName P e.id := fun e he =>
    hsplits.builder.stack e (hsplits.stack ▸ he)
  extract_lets s' b₀ b'
  -- the block goes where the element around the formatting element wants it
  have hplaced : b'.Named P ∧ s.builder.dom.Keeps b'.dom := by
    unfold b'
    split
    · exact ⟨hsplits.builder.putAt hsplits.last _, keeps_putAt _ _ _⟩
    · exact ⟨hsplits.builder, .refl _⟩
  clear_value b'
  obtain ⟨hnamed, hkeeps⟩ := hplaced
  obtain ⟨hnamed', hnew, hkeeps', -⟩ := @create P b' hnamed (.html tag.name) htag tag.attributes
  rcases hcreate : b'.create (.html tag.name) tag.attributes with ⟨new, b''⟩
  rw [hcreate] at hnamed' hnew hkeeps'
  dsimp -zeta only at hnamed' hnew hkeeps' ⊢
  extract_lets dom entry formatting
  have hmove := Dom.keeps_moveChildren hnamed'.dom block.inside new.id
  have hmoved := hnamed'.dom.moveChildren block.inside new.id
  have happend := Dom.keeps_append (b''.dom.moveChildren block.inside new.id) block.inside new.id
  have hall := hmove.trans happend
  have hbefore := hkeeps.trans (hkeeps'.trans hall)
  refine ⟨hmoved.append (hnew.of_keeps hmove) block.inside, ?stack, ?formatting,
    fun id hid => (hnamed'.head id hid).of_keeps hall⟩
  case stack =>
    intro e he
    simp only [List.mem_append, List.mem_cons, List.mem_reverse] at he
    rcases he with (he | rfl | rfl | he) | he
    · exact (hopen e (hinner e he)).of_keeps hbefore
    · exact hnew.of_keeps hall
    · exact (hopen _ hblock).of_keeps hbefore
    · exact (hsplits.kept e he).of_keeps hbefore
    · exact (hopen e (houter e he)).of_keeps hbefore
  case formatting =>
    intro i u (hu : _ ∈ formatting)
    unfold formatting entry at hu
    split at hu
    · obtain ⟨f, hf, heq⟩ := List.mem_map.1 hu
      split at heq
      · cases heq
        exact htag
      · exact hnamed'.formatting i u (heq ▸ hf)
    · obtain ⟨f, hf, hu⟩ := List.mem_flatMap.1 hu
      have hlisted := List.mem_of_mem_eraseP hf
      split at hu
      · rcases List.mem_cons.1 hu with heq | hu
        · cases heq
          exact htag
        · obtain rfl := List.mem_singleton.1 hu
          exact hnamed'.formatting i u hlisted
      · obtain rfl := List.mem_singleton.1 hu
        exact hnamed'.formatting i u hlisted

theorem endFormattingOnce (h : b.Named P) (name : String) :
    (b.endFormattingOnce name).1.Named P := by
  unfold Builder.endFormattingOnce
  split
  · exact h.endOther name
  · next id tag hfind =>
    have htag : P tag.name := @of_mem_recentFormatting P b h (id, tag) (List.mem_of_find?_eq_some hfind)
    have houter : ∀ e ∈ (b.stack.dropWhile (·.id != id)).tail, e ∈ b.stack := fun e he =>
      (List.dropWhile_sublist _).subset (List.mem_of_mem_tail he)
    split
    · exact h.unlist id
    · split
      · exact h
      · extract_lets above outer between
        split
        · exact (h.unlist id).congr rfl houter (fun _ hf => hf) rfl
        · next block inner hdrop =>
          have habove : ∀ e ∈ block :: inner, e ∈ b.stack := fun e he => by
            rw [← hdrop] at he
            exact (List.takeWhile_sublist _).subset
              (List.mem_reverse.1 ((List.drop_sublist _ _).subset he))
          exact h.splitAt id htag
            (fun e he => habove e (List.mem_cons_of_mem _ (List.mem_reverse.1 he)))
            (habove block List.mem_cons_self) houter

theorem endFormattingTimes (h : b.Named P) (name : String) (n : Nat) :
    (b.endFormattingTimes name n).Named P := by
  induction n generalizing b with
  | zero => exact h
  | succ n ih =>
      have honce := h.endFormattingOnce name
      unfold Builder.endFormattingTimes
      split
      · next b' heq => exact ih (by rw [heq] at honce; exact honce)
      · next b' heq => exact (by rw [heq] at honce; exact honce)

theorem endFormatting (h : b.Named P) (name : String) : (b.endFormatting name).Named P := by
  unfold Builder.endFormatting
  split
  · exact h.pop
  · exact h.endFormattingTimes name 8

end Named

end Builder

end StyleAudit.Markup
