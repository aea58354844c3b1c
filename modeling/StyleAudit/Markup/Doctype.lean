import StyleAudit.Markup.Reference

/-! # Doctypes

The declaration of its document type that a text may begin with. Documents without one, or with one
of the time before browsers agreed on the rules, are read with the quirks of that time.

* **`isBlank`, `keepChar`** — the characters of markup.
* **`Doctype`** — a document type.
* **`Doctype.read`** — the document type that is written in a declaration.
* **`Doctype.isQuirky`** — whether its documents are read with quirks. -/

namespace StyleAudit.Markup

/-- The blanks of markup. -/
def isBlank (c : Char) : Bool := c == ' ' || c == '\t' || c == '\n' || c == '\x0c'

/-- A character as it is kept in names and values: null is replaced. -/
def keepChar (c : Char) : Char := if c = '\x00' then '\ufffd' else c

/-- What follows a word at the beginning of `cs`, in whatever case the word is written. -/
def afterWord? (word : String) (cs : List Char) : Option (List Char) :=
  let n := word.toList.length
  if (cs.take n).map Char.toLower == word.toList then some (cs.drop n) else none

/-! ## Declarations -/

/-- The identifiers of a document type. -/
structure Identifiers where
  publicId : Option String
  systemId : Option String
  deriving DecidableEq, Repr, Inhabited

/-- A document type. -/
structure Doctype where
  name : String
  /-- None if they are not written as they should be. -/
  identifiers : Option Identifiers
  deriving DecidableEq, Repr, Inhabited

/-- Reads an identifier between quotes, after blanks: the identifier, and what follows it. -/
def readIdentifier? (cs : List Char) : Option (String × List Char) :=
  match cs.dropWhile isBlank with
  | [] => none
  | quote :: cs =>
      let value := cs.takeWhile (· != quote)
      if (quote == '"' || quote == '\'') && cs.contains quote then
        some (String.ofList (value.map keepChar), cs.drop (value.length + 1))
      else none

/-- Reads the identifiers of a document type, after its name and blanks. What follows a system
identifier is passed over. -/
def readIdentifiers? (cs : List Char) : Option Identifiers :=
  if cs.isEmpty then some ⟨none, none⟩
  else
    match afterWord? "public" cs, afterWord? "system" cs with
    | some rest, _ => do
        let (publicId, rest) ← readIdentifier? rest
        if rest.all isBlank then return ⟨publicId, none⟩
        let (systemId, _) ← readIdentifier? rest
        return ⟨publicId, systemId⟩
    | none, some rest => do
        let (systemId, _) ← readIdentifier? rest
        return ⟨none, systemId⟩
    | none, none => none

/-- The document type that stands between the word `doctype` and the next `>`. -/
def Doctype.read (cs : List Char) : Doctype :=
  let cs := cs.dropWhile isBlank
  let name := cs.takeWhile (!isBlank ·)
  ⟨String.ofList (name.map (keepChar ·.toLower)),
    readIdentifiers? ((cs.drop name.length).dropWhile isBlank)⟩

/-! ## Quirks -/

/-- Titles of document types whose documents are read with quirks. -/
def quirkyTitles : List String :=
  ["html 3.0 aswedit + extensions", "html 2.0 level 1", "html 2.0 level 2",
    "html 2.0 strict level 1", "html 2.0 strict level 2", "html 2.0 strict", "html 2.0",
    "html 2.1e", "html 3.0", "html 3.2 final", "html 3.2", "html 3", "html level 0",
    "html level 1", "html level 2", "html level 3", "html strict level 0",
    "html strict level 1", "html strict level 2", "html strict level 3", "html strict", "html",
    "metrius presentational", "internet explorer 2.0 html strict", "internet explorer 2.0 html",
    "internet explorer 2.0 tables", "internet explorer 3.0 html strict",
    "internet explorer 3.0 html", "internet explorer 3.0 tables", "strict html",
    "html extended 1.0", "html extended relaxed 1.0",
    "hotmetal pro 6.0::19990601::extensions to html 4.0",
    "hotmetal pro 4.0::19971010::extensions to html 4.0", "html 2.0 extended",
    "html 2.0 hotmetal + extensions", "hotjava html", "hotjava strict html",
    "html 3 1995-03-24", "html 3.2 draft", "html 3.2s draft", "html 4.0 frameset",
    "html 4.0 transitional", "html experimental 19960712", "html experimental 970421", "w3 html",
    "w3 html 3.0", "mozilla html 2.0", "mozilla html"]

/-- Titles of document types whose documents are read with quirks if no system identifier is
given. -/
def transitionalTitles : List String := ["html 4.01 frameset", "html 4.01 transitional"]

/-- Whether a public identifier asks for quirks. Its parts are an owner, who may be anyone, a title
and a language. -/
def isQuirkyPublic (hasSystem : Bool) (id : String) : Bool :=
  match id.toLower.splitOn "/" with
  | ["html"] => true
  | ["-", _, "dtd html 4.0 transitional", "en"] => true
  | ["-", "", _, "", "dtd w3 html strict 3.0", "", "en", "", ""] => true
  | "-" :: "" :: _ :: "" :: title :: "" :: _ :: _ =>
      quirkyTitles.any (title == "dtd " ++ ·) ||
        (!hasSystem && transitionalTitles.any (title == "dtd " ++ ·))
  | _ => false

/-- Whether a system identifier asks for quirks. -/
def isQuirkySystem (id : String) : Bool :=
  match id.toLower.splitOn "/" with
  | ["http:", "", _, "data", "dtd", "v11", _] => true
  | _ => false

/-- Whether documents of a type are read with quirks. -/
def Doctype.isQuirky (d : Doctype) : Bool :=
  match d.identifiers with
  | none => true
  | some ids =>
      d.name != "html" || ids.publicId.any (isQuirkyPublic ids.systemId.isSome) ||
        ids.systemId.any isQuirkySystem

end StyleAudit.Markup
