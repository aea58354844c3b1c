import StyleAudit.Markup.Element

/-! # Documents under construction

While a document is read, elements are moved: out of tables, under other parents, or away. So the
document is kept as a table of nodes that refer to each other by number, and becomes a tree at the
end.

* **`Dom`** — a table of nodes; node `0` is the document.
* **`Dom.create`, `append`, `insertBefore`, `detach`, `moveChildren`** — changes.
* **`Dom.forest`** — the elements of the finished document. -/

namespace StyleAudit.Markup

/-- The vocabulary that an element belongs to. -/
inductive Vocabulary where
  | html
  | svg
  | mathml
  deriving DecidableEq, Repr, Inhabited

/-- A node of a document under construction. -/
structure Node where
  name : String
  attributes : List Attribute
  /-- The nodes in it, in order. -/
  children : List Nat
  parent : Option Nat
  deriving Repr, Inhabited

/-- The nodes of a document under construction. -/
structure Dom where
  nodes : Array Node
  deriving Repr, Inhabited

namespace Dom

/-- The document. -/
def root : Nat := 0

/-- A document without elements. -/
def empty : Dom := ⟨#[⟨"", [], [], none⟩]⟩

/-- The node with the given number. -/
def node (d : Dom) (id : Nat) : Node := d.nodes.getD id ⟨"", [], [], none⟩

/-- Changes the node with the given number. -/
def update (d : Dom) (id : Nat) (f : Node → Node) : Dom := ⟨d.nodes.modify id f⟩

/-- Adds a node without parent: its number, and the document with it. -/
def create (d : Dom) (name : String) (attributes : List Attribute) : Nat × Dom :=
  (d.nodes.size, ⟨d.nodes.push ⟨name, attributes, [], none⟩⟩)

/-- Takes a node away from its parent. -/
def detach (d : Dom) (id : Nat) : Dom :=
  match (d.node id).parent with
  | some p =>
      (d.update p fun n => { n with children := n.children.filter (· != id) }).update id
        fun n => { n with parent := none }
  | none => d

/-- Puts a node behind the children of `parent`. -/
def append (d : Dom) (parent id : Nat) : Dom :=
  ((d.detach id).update parent fun n => { n with children := n.children ++ [id] }).update id
    fun n => { n with parent := some parent }

/-- Puts a node right before its new sibling. -/
def insertBefore (d : Dom) (parent sibling id : Nat) : Dom :=
  ((d.detach id).update parent fun n =>
      { n with children := n.children.takeWhile (· != sibling) ++ id ::
          n.children.dropWhile (· != sibling) }).update id
    fun n => { n with parent := some parent }

/-- Moves all children of one node to another. -/
def moveChildren (d : Dom) (source target : Nat) : Dom :=
  (d.node source).children.foldl (fun d c => d.append target c) d

/-- Adds the attributes that a node lacks. -/
def addAttributes (d : Dom) (id : Nat) (attributes : List Attribute) : Dom :=
  d.update id fun n =>
    { n with attributes := n.attributes ++
        attributes.filter fun a => !n.attributes.any (·.key == a.key) }

/-- The tree below a node, to a depth of at most `fuel`. -/
def treeFrom (d : Dom) : (fuel : Nat) → Nat → Element
  | 0, id => .mk (d.node id).name (d.node id).attributes []
  | fuel + 1, id =>
      .mk (d.node id).name (d.node id).attributes ((d.node id).children.map (treeFrom d fuel))

/-- The elements of the document. No tree is deeper than there are nodes. -/
def forest (d : Dom) : List Element := (d.node root).children.map (d.treeFrom d.nodes.size)

end Dom

end StyleAudit.Markup
