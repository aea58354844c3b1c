import Mathlib
import StyleAudit.Ignore.Rule
import StyleAudit.Proofs.Files.Within
import StyleAudit.Proofs.Text.Encoding

/-! # What rules cover

A rule is about the paths that its pattern matches, byte by byte. What may be left of a path after
some parts of a pattern is told part by part, and a path of several names is the bytes of these names
with slashes between them.

* **`judge_ne_silent_iff`** — rules say something about a path when one of them is about it.
* **`mem_restsOfAll_append`** — what is left after one pattern and another.
* **`pathBytes_append`** — the bytes of a path of several names.
* **`belowPattern`**, **`accepts_belowPattern`** — the pattern of all that lies below the
  directories of some name. -/

namespace StyleAudit.Ignore

open Files

/-! ## Rules -/

/-- **Rules say something about a path** when one of them is about it. -/
theorem judge_ne_silent_iff {rules : List Rule} {l : Location} {isDirectory : Bool} :
    judge rules l isDirectory ≠ .silent ↔
      ∃ r ∈ rules, r.covers (pathBytes l) isDirectory = true := by
  rw [judge]
  cases hfind : rules.reverse.find? (·.covers (pathBytes l) isDirectory) with
  | none =>
      rw [List.find?_eq_none] at hfind
      simpa using hfind
  | some r =>
      have hcovers : r.covers (pathBytes l) isDirectory = true := by
        simpa using List.find?_some hfind
      have hsays : (if r.restores then Verdict.shown else .hidden) ≠ .silent := by
        cases r.restores <;> simp
      exact iff_of_true hsays
        ⟨r, List.mem_reverse.1 (List.mem_of_find?_eq_some hfind), hcovers⟩

/-! ## Patterns -/

variable {bs rest : List UInt8} {ps qs : List GlobPart}

/-- What may be left after the first part of a pattern and the others. -/
theorem mem_restsOfAll_cons {p : GlobPart} : rest ∈ restsOfAll bs (p :: ps) ↔
    ∃ between ∈ p.rests bs, rest ∈ restsOfAll between ps := by
  rw [restsOfAll, List.mem_eraseDups, List.mem_flatMap]

/-- **What may be left after one pattern and another.** -/
theorem mem_restsOfAll_append : rest ∈ restsOfAll bs (ps ++ qs) ↔
    ∃ between ∈ restsOfAll bs ps, rest ∈ restsOfAll between qs := by
  induction ps generalizing bs with
  | nil => simp [restsOfAll]
  | cons p ps ih =>
      simp only [List.cons_append, mem_restsOfAll_cons, ih]
      constructor
      · rintro ⟨first, hfirst, between, hbetween, hrest⟩
        exact ⟨between, ⟨first, hfirst, hbetween⟩, hrest⟩
      · rintro ⟨between, ⟨first, hfirst, hbetween⟩, hrest⟩
        exact ⟨first, hfirst, between, hbetween, hrest⟩

/-- The bytes of a character are those of its encoding. -/
theorem bytesOf_eq (c : Char) : bytesOf c = String.utf8EncodeChar c := by
  rw [bytesOf, Text.toList_toUTF8, String.toList_singleton, Text.encode_cons, Text.encode_nil,
    List.append_nil]

/-- A text that is matched by its characters leaves what follows it. -/
theorem mem_restsOfAll_literal (cs : List Char) (bs : List UInt8) :
    bs ∈ restsOfAll (Text.encode cs ++ bs) (cs.map .literal) := by
  induction cs with
  | nil => simp [restsOfAll]
  | cons c cs ih =>
      rw [List.map_cons, mem_restsOfAll_cons, Text.encode_cons, List.append_assoc]
      refine ⟨Text.encode cs ++ bs, ?_, ih⟩
      simp [GlobPart.rests, bytesOf_eq]

/-- What follows a slash. -/
theorem mem_afterSlashes (as bs : List UInt8) : bs ∈ afterSlashes (as ++ slash :: bs) := by
  induction as with
  | nil => simp [afterSlashes]
  | cons a as ih =>
      rw [List.cons_append, afterSlashes]
      split
      · exact List.mem_cons_of_mem _ ih
      · exact ih

/-- Bytes without a slash may all be passed over. -/
theorem nil_mem_endingsInPart (h : slash ∉ bs) : [] ∈ endingsInPart bs := by
  induction bs with
  | nil => simp [endingsInPart]
  | cons b bs ih =>
      obtain ⟨hb, hrest⟩ := not_or.1 (mt List.mem_cons.2 h)
      rw [endingsInPart, if_neg (Ne.symm hb)]
      exact List.mem_cons_of_mem _ (ih hrest)

/-! ## Paths -/

/-- The bytes of a name. -/
theorem pathBytes_singleton (n : String) : pathBytes [n] = Text.encode n.toList := by
  rw [pathBytes, String.intercalate_singleton, Text.toList_toUTF8]

/-- **The bytes of a path** of several names. -/
theorem pathBytes_append {a b : Location} (ha : a ≠ []) (hb : b ≠ []) :
    pathBytes (a ++ b) = pathBytes a ++ slash :: pathBytes b := by
  have hslash : Text.encode "/".toList = [slash] := by decide
  rw [pathBytes, pathBytes, pathBytes, intercalate_append "/" ha hb]
  simp only [Text.toList_toUTF8, String.toList_append, Text.encode_append, hslash]
  rw [List.append_assoc, List.singleton_append]

/-- The names at the end of a path are all of it, or follow a slash. -/
theorem pathBytes_eq_or_mem_afterSlashes (a : Location) {b : Location} (hb : b ≠ []) :
    pathBytes b = pathBytes (a ++ b) ∨ pathBytes b ∈ afterSlashes (pathBytes (a ++ b)) := by
  by_cases ha : a = []
  · exact .inl (by rw [ha, List.nil_append])
  · rw [pathBytes_append ha hb]
    exact .inr (mem_afterSlashes _ _)

/-- A name without a slash has no byte of a slash. -/
theorem slash_not_mem_pathBytes {n : String} (h : '/' ∉ n.toList) : slash ∉ pathBytes [n] := by
  rw [pathBytes_singleton, Text.encode, List.mem_flatMap]
  rintro ⟨c, hc, hbyte⟩
  have hslash : c = '/' := (Text.mem_utf8EncodeChar_iff (a := '/') (by decide)).1 hbyte
  exact h (hslash ▸ hc)

/-! ## All that lies below a directory -/

/-- The pattern of all that lies below the directories of some name, at any depth. -/
def belowPattern (name : List Char) : List GlobPart :=
  .anyDepth :: (name.map .literal ++ [.between, .many])

/-- **The pattern matches all that lies below such a directory.** -/
theorem accepts_belowPattern {name : String} {names : Location} (h : name ∈ names.dropLast)
    (hslash : ∀ n ∈ names, '/' ∉ n.toList) :
    Glob.accepts ⟨belowPattern name.toList⟩ (pathBytes names) = true := by
  obtain rfl | ⟨front, last, rfl⟩ := List.eq_nil_or_concat' names
  · exact absurd h List.not_mem_nil
  rw [List.dropLast_concat] at h
  obtain ⟨before, after, rfl⟩ := List.append_of_mem h
  -- the directory, and what lies below it
  have hbelow : pathBytes (name :: (after ++ [last])) =
      Text.encode name.toList ++ slash :: pathBytes (after ++ [last]) := by
    rw [← List.singleton_append, pathBytes_append (by simp) (by simp), pathBytes_singleton]
  have hdepth : pathBytes (name :: (after ++ [last])) ∈
      GlobPart.anyDepth.rests (pathBytes (before ++ name :: after ++ [last])) := by
    rw [GlobPart.rests, List.mem_eraseDups, List.mem_cons, List.append_assoc, List.cons_append]
    exact pathBytes_eq_or_mem_afterSlashes before (by simp)
  have hbetween : pathBytes [last] ∈
      GlobPart.between.rests (slash :: pathBytes (after ++ [last])) := by
    rw [GlobPart.rests]
    exact List.mem_cons.2 (pathBytes_eq_or_mem_afterSlashes after (by simp))
  have hmany : [] ∈ GlobPart.many.rests (pathBytes [last]) := by
    rw [GlobPart.rests]
    exact nil_mem_endingsInPart (slash_not_mem_pathBytes (hslash last (by simp)))
  have haccepts : [] ∈ restsOfAll (pathBytes (before ++ name :: after ++ [last]))
      (belowPattern name.toList) := by
    rw [belowPattern, mem_restsOfAll_cons]
    refine ⟨_, hdepth, mem_restsOfAll_append.2 ⟨_, hbelow ▸ mem_restsOfAll_literal _ _, ?_⟩⟩
    rw [mem_restsOfAll_cons]
    refine ⟨_, hbetween, ?_⟩
    rw [mem_restsOfAll_cons]
    exact ⟨[], hmany, by simp [restsOfAll]⟩
  rw [Glob.accepts]
  split
  · rfl
  · rw [List.contains_iff_mem]
    exact haccepts

end StyleAudit.Ignore
