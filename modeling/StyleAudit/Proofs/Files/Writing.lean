import Mathlib
import StyleAudit.Files.Tree

/-! # Writing files

Writing a text to a file leaves all other places as they were. It makes no place and takes none
away, so that every path leads where it led before.

* **`get?_put`** — what stands where after something was put at a place.
* **`Alike`** — trees in which files and directories stand at the same places.
* **`rewrite`** — a tree after texts have been written to files, one after the other. -/

namespace StyleAudit.Files.FileTree

variable {t u : FileTree} {here l k : Location} {p : Path} {text : String}

/-! ## One change -/

/-- There is an entry for a place exactly when something stands there. -/
theorem isSome_lookup_eq_any (entries : List (Location × Entry)) (l : Location) :
    (entries.lookup l).isSome = entries.any (·.1 == l) := by
  induction entries with
  | nil => rfl
  | cons e entries ih =>
      obtain ⟨k, e⟩ := e
      rw [List.lookup_cons, List.any_cons, ← ih, BEq.comm]
      show _ = (k == l || _)
      cases k == l <;> rfl

/-- The entries after the one for a place was exchanged. -/
theorem lookup_map_put (entries : List (Location × Entry)) (l : Location) (e : Entry)
    (k : Location) :
    (entries.map fun (k, f) => if k = l then (k, e) else (k, f)).lookup k =
      if k = l then (entries.lookup k).map fun _ => e else entries.lookup k := by
  induction entries with
  | nil => simp
  | cons first entries ih =>
      obtain ⟨j, f⟩ := first
      by_cases hj : k = j
      · subst hj
        by_cases hl : k = l <;> simp [hl]
      · have hne : (k == j) = false := beq_eq_false_iff_ne.2 hj
        rw [List.lookup_cons, hne, ← ih, List.map_cons]
        by_cases hl : j = l
        · simp only [if_pos hl, List.lookup_cons, hne]
        · simp only [if_neg hl, List.lookup_cons, hne]

/-- **What stands where** after something was put at a place. -/
theorem get?_put (hl : l ≠ []) (e : Entry) (k : Location) :
    (t.put l e).get? k = if k = l then some e else t.get? k := by
  by_cases hk : k = []
  · subst hk
    rw [if_neg (Ne.symm hl)]
    rfl
  · have hempty : k.isEmpty = false := List.isEmpty_eq_false_iff.2 hk
    rw [get?, get?, hempty, put]
    cases hany : t.entries.any (·.1 == l) with
    | true =>
        -- the entry for the place is exchanged
        have hsome : (t.entries.lookup l).isSome = true := (isSome_lookup_eq_any _ _).trans hany
        obtain ⟨f, hf⟩ := Option.isSome_iff_exists.1 hsome
        simp only [if_true, Bool.false_eq_true, if_false]
        rw [lookup_map_put]
        by_cases hkl : k = l
        · rw [if_pos hkl, if_pos hkl, hkl, hf, Option.map_some]
        · rw [if_neg hkl, if_neg hkl]
    | false =>
        -- there is none, and a new one comes last
        have hnone : t.entries.lookup l = none := by
          rw [← Option.not_isSome_iff_eq_none, isSome_lookup_eq_any, hany]
          exact Bool.false_ne_true
        simp only [Bool.false_eq_true, if_false]
        rw [List.lookup_append]
        by_cases hkl : k = l
        · rw [if_pos hkl, hkl, hnone]
          simp
        · rw [if_neg hkl, List.lookup_cons, beq_eq_false_iff_ne.2 hkl]
          simp

/-! ## Trees that are alike -/

/-- In both trees, files and directories stand at the same places. -/
def Alike (t u : FileTree) : Prop :=
  ∀ l, t.has l = u.has l ∧ t.isDirectory l = u.isDirectory l

theorem Alike.refl (t : FileTree) : t.Alike t := fun _ => ⟨rfl, rfl⟩

theorem Alike.trans {v : FileTree} (h : t.Alike u) (h' : u.Alike v) : t.Alike v :=
  fun l => ⟨(h l).1.trans (h' l).1, (h l).2.trans (h' l).2⟩

/-- In trees that are alike, a part of a path leads to the same place. -/
theorem Alike.follow_eq (h : t.Alike u) : t.follow = u.follow := by
  funext l p
  cases p with
  | root => rfl
  | current => rw [follow, follow, (h l).2]
  | parent => rw [follow, follow, (h l).2]
  | name n => rw [follow, follow, (h l).2, (h (l ++ [n])).1]

/-- **In trees that are alike**, a path leads to the same place. -/
theorem Alike.resolve_eq (h : t.Alike u) (here : Location) (p : Path) :
    t.resolve here p = u.resolve here p := by
  have hdirectory : t.isDirectory = u.isDirectory := funext fun l => (h l).2
  rw [resolve, resolve, h.follow_eq, hdirectory]

/-- A file does not stand at the root. -/
theorem ne_nil_of_get? {c : Content} (h : t.get? l = some (.file c)) : l ≠ [] := by
  rintro rfl
  cases h

/-- Where a file stands, there is no directory. -/
theorem isDirectory_of_get? {c : Content} (h : t.get? l = some (.file c)) :
    t.isDirectory l = false := by
  rw [isDirectory, h]
  rfl

/-- A tree stays alike when a file is put in the place of a file. -/
theorem alike_put {c : Content} (h : t.get? l = some (.file c)) (d : Content) :
    (t.put l (.file d)).Alike t := by
  intro k
  rw [has, has, isDirectory, isDirectory, get?_put (ne_nil_of_get? h)]
  by_cases hk : k = l
  · rw [if_pos hk, hk, h]
    exact ⟨rfl, rfl⟩
  · rw [if_neg hk]
    exact ⟨rfl, rfl⟩

/-! ## Reading and writing -/

/-- The text that a path leads to stands at a place. -/
theorem read?_eq_some_iff :
    t.read? here p = some text ↔
      ∃ l, t.resolve here p = .ok l ∧ t.get? l = some (.file (.text text)) := by
  rw [read?]
  cases t.resolve here p with
  | error e => simp
  | ok l =>
      simp only [textAt?, file?, Except.ok.injEq, exists_eq_left']
      cases t.get? l with
      | none => simp
      | some e =>
          cases e with
          | directory => simp
          | file c => cases c <;> simp

/-- A path that leads to a place leads where its parts lead. -/
theorem foldlM_parts_of_resolve {t : FileTree} {here l : Location} {p : Path}
    (h : t.resolve here p = .ok l) : p.parts.foldlM t.follow here = .ok l := by
  rw [resolve] at h
  split at h
  · cases h
  · cases hfold : p.parts.foldlM t.follow here with
    | error e =>
        rw [hfold] at h
        cases h
    | ok k =>
        rw [hfold] at h
        simp only [bind, Except.bind] at h
        split at h
        · cases h
        · exact h

/-- Paths with the same parts that lead to files lead to the same text. -/
theorem read?_congr {t : FileTree} {here : Location} {p q : Path} {a b : String}
    (hparts : p.parts = q.parts) (hp : t.read? here p = some a) (hq : t.read? here q = some b) :
    a = b := by
  rw [read?] at hp hq
  split at hp
  · rename_i k hk
    split at hq
    · rename_i l hl
      have hplace := foldlM_parts_of_resolve hk
      rw [hparts, foldlM_parts_of_resolve hl] at hplace
      cases hplace
      exact Option.some.inj (hp.symm.trans hq)
    · cases hq
  · cases hp

/-- Writing to a file puts the text in its place. -/
theorem write?_eq_some {c : Content} (hresolve : t.resolve here p = .ok l)
    (h : t.get? l = some (.file c)) : t.write? here p text = some (t.put l (.file (.text text))) := by
  rw [write?, hresolve]
  simp [isDirectory_of_get? h]

/-! ## Many files -/

/-- A tree after texts have been written to places, one after the other. -/
def rewrite (t : FileTree) (writes : List (Location × String)) : FileTree :=
  writes.foldl (fun t w => t.put w.1 (.file (.text w.2))) t

@[simp] theorem rewrite_cons (t : FileTree) (l : Location) (text : String)
    (writes : List (Location × String)) :
    t.rewrite ((l, text) :: writes) = (t.put l (.file (.text text))).rewrite writes := rfl

/-- Files stand at all places that are written to. -/
def HasFiles (t : FileTree) (writes : List (Location × String)) : Prop :=
  ∀ w ∈ writes, ∃ c, t.get? w.1 = some (.file c)

/-- Files are still there after one of them was written. -/
theorem HasFiles.put {writes : List (Location × String)} (h : t.HasFiles writes) (hl : l ≠ [])
    (c : Content) : (t.put l (.file c)).HasFiles writes := by
  intro w hw
  rw [get?_put hl]
  by_cases hwl : w.1 = l
  · exact ⟨c, if_pos hwl⟩
  · rw [if_neg hwl]
    exact h w hw

/-- Writing to files leaves a tree alike. -/
theorem HasFiles.alike_rewrite {writes : List (Location × String)} (h : t.HasFiles writes) :
    (t.rewrite writes).Alike t := by
  induction writes generalizing t with
  | nil => exact .refl t
  | cons w writes ih =>
      obtain ⟨l, text⟩ := w
      obtain ⟨c, hc⟩ := h (l, text) List.mem_cons_self
      have hrest : t.HasFiles writes := fun w hw => h w (List.mem_cons_of_mem _ hw)
      exact (ih (hrest.put (ne_nil_of_get? hc) _)).trans (alike_put hc _)

/-- **Places that are not written to** stay as they were. -/
theorem HasFiles.get?_rewrite_of_not_mem {writes : List (Location × String)}
    (h : t.HasFiles writes) (hk : k ∉ writes.map Prod.fst) :
    (t.rewrite writes).get? k = t.get? k := by
  induction writes generalizing t with
  | nil => rfl
  | cons w writes ih =>
      obtain ⟨l, text⟩ := w
      rw [List.map_cons, List.mem_cons, not_or] at hk
      obtain ⟨c, hc⟩ := h (l, text) List.mem_cons_self
      have hrest : t.HasFiles writes := fun w hw => h w (List.mem_cons_of_mem _ hw)
      rw [rewrite_cons, ih (hrest.put (ne_nil_of_get? hc) _) hk.2, get?_put (ne_nil_of_get? hc),
        if_neg hk.1]

/-- **A place that is written to** holds what was written, if nothing else was written there. -/
theorem HasFiles.get?_rewrite_of_mem {writes : List (Location × String)} (h : t.HasFiles writes)
    (hmem : (k, text) ∈ writes) (honly : ∀ w ∈ writes, w.1 = k → w.2 = text) :
    (t.rewrite writes).get? k = some (.file (.text text)) := by
  induction writes generalizing t with
  | nil => cases hmem
  | cons w writes ih =>
      obtain ⟨l, text'⟩ := w
      obtain ⟨c, hc⟩ := h (l, text') List.mem_cons_self
      have hrest : (t.put l (.file (.text text'))).HasFiles writes :=
        HasFiles.put (fun w hw => h w (List.mem_cons_of_mem _ hw)) (ne_nil_of_get? hc) _
      rw [rewrite_cons]
      by_cases hlater : k ∈ writes.map Prod.fst
      · -- what counts is a later write
        obtain ⟨⟨k', text''⟩, hw, rfl⟩ := List.mem_map.1 hlater
        obtain rfl := honly _ (List.mem_cons_of_mem _ hw) rfl
        exact ih hrest hw fun w hw => honly w (List.mem_cons_of_mem _ hw)
      · rcases List.mem_cons.1 hmem with hfirst | hw
        · obtain ⟨rfl, rfl⟩ := Prod.mk.inj hfirst
          rw [hrest.get?_rewrite_of_not_mem hlater, get?_put (ne_nil_of_get? hc), if_pos rfl]
        · exact absurd (List.mem_map_of_mem hw) hlater

end StyleAudit.Files.FileTree
