/-
The nodes of XML documents.

A document is its root node, whose children are the one root element and the comments and
processing instructions around it.
-/
namespace XmlHarvest.Xml

/-! ### Nodes -/

/-- A name with the namespace it is in, if any. -/
structure Name where
  space : Option String
  label : String
  deriving DecidableEq, Repr

structure Attribute where
  name : Name
  value : String
  deriving DecidableEq, Repr

/-- A node of a document.  Only the top of a document is a `root`. -/
inductive Node
  | root (children : List Node)
  | element (name : Name) (attributes : List Attribute) (children : List Node)
  | text (content : String)
  | comment (content : String)
  | instruction
  deriving Repr, Inhabited

/-- The children; only elements and the root have any. -/
def Node.children : Node → List Node
  | root ns | element _ _ ns => ns
  | text _ | comment _ | instruction => []

/-- The attributes of an element; namespace declarations are none. -/
def Node.attributes : Node → List Attribute
  | element _ as _ => as
  | root _ | text _ | comment _ | instruction => []

def Node.isElement : Node → Bool
  | element .. => true
  | _ => false

def Node.isText : Node → Bool
  | text _ => true
  | _ => false

/-- The name of an element without its namespace. -/
def Node.label? : Node → Option String
  | element n _ _ => some n.label
  | _ => none

/-- The value of the attribute that has this name and no namespace. -/
def Node.attribute? (n : Node) (name : String) : Option String :=
  (n.attributes.find? fun a => a.name == ⟨none, name⟩).map (·.value)

/-! ### Texts -/

mutual

/-- The characters of the text nodes at and below a node. -/
def Node.innerText : Node → String
  | .root ns | .element _ _ ns => Node.innerTexts ns
  | .text s => s
  | .comment _ | .instruction => ""

/-- The characters of the text nodes at and below some nodes. -/
def Node.innerTexts : List Node → String
  | [] => ""
  | n :: ns => n.innerText ++ Node.innerTexts ns

end

/-- The text that stands for a node: what its text nodes hold, and the text of a comment. -/
def Node.stringValue : Node → String
  | .comment s => s
  | n => n.innerText

end XmlHarvest.Xml
