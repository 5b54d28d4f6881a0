/-
Building the tree of a document from its events.
-/
import XmlHarvest.Xml.Namespace
import XmlHarvest.Xml.Tree

namespace XmlHarvest.Xml

/-- An element whose end tag has not come yet, with its children so far, the latest first. -/
structure Pending where
  written : QualifiedName
  name : Name
  attributes : List Attribute
  scope : Scope
  children : List Node

/-- Add characters to the children of an element: to the text node that came last, if one did. -/
def addText (s : String) : List Node → List Node
  | .text t :: ns => .text (t ++ s) :: ns
  | ns => .text s :: ns

/-- Put a finished node under the innermost pending element, or at the top. -/
def addNode (n : Node) : List Pending → List Node → List Pending × List Node
  | [], top => ([], n :: top)
  | p :: ps, top => ({ p with children := n :: p.children } :: ps, top)

/-- The nodes at the top of a document whose remaining events are given, the latest first.  The
innermost pending element comes first.  Around the root element there is white space only. -/
def build : List Event → List Pending → List Node → Option (List Node)
  | [], [], top => some top
  | [], _ :: _, _ => none
  | .opened written settings empty :: es, ps, top => do
    if ps.isEmpty && top.any Node.isElement then none
    else
      let declared ← Scope.ofSettings? settings
      let scope := declared ++ ((ps.head?.map (·.scope)).getD [])
      let name ← scope.element? written
      let attributes ← scope.attributes? settings
      if empty then
        let (ps, top) := addNode (.element name attributes []) ps top
        build es ps top
      else build es (⟨written, name, attributes, scope, []⟩ :: ps) top
  | .closed written :: es, p :: ps, top =>
    if written == p.written then
      let (ps, top) := addNode (.element p.name p.attributes p.children.reverse) ps top
      build es ps top
    else none
  | .closed _ :: _, [], _ => none
  | .text raw :: es, p :: ps, top => do
    let content := Piece.content (← Piece.ofText? raw)
    build es ({ p with children := addText (String.ofList content) p.children } :: ps) top
  | .text raw :: es, [], top => if raw.all isSpace then build es [] top else none
  | .section raw :: es, p :: ps, top =>
    let content := Piece.content (raw.map .literal)
    build es ({ p with children := addText (String.ofList content) p.children } :: ps) top
  | .section _ :: _, [], _ => none
  | .comment content :: es, ps, top =>
    let (ps, top) := addNode (.comment (String.ofList content)) ps top
    build es ps top
  | .instruction :: es, ps, top =>
    let (ps, top) := addNode .instruction ps top
    build es ps top

/-- The document that a text writes; nothing if the text is not well formed. -/
def read? (text : String) : Option Tree := do
  let events ← Event.ofDocument? text.toList
  let top ← build events [] []
  if top.any Node.isElement then some (.ofRoot (.root top.reverse)) else none

end XmlHarvest.Xml
