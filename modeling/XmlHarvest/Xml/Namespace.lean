/-
Namespaces: which names the declarations around an element give to labels.

The label `xml` is bound from the start, for attributes; nothing else may be bound to its
namespace.  An attribute without a label is in no namespace, whatever the default.
-/
import XmlHarvest.Xml.Markup
import XmlHarvest.Xml.Node

namespace XmlHarvest.Xml

/-- The namespace of the label `xml`. -/
def xmlSpace : String := "http://www.w3.org/XML/1998/namespace"

/-- The namespace of declarations themselves, to which nothing may be bound. -/
def declarationSpace : String := "http://www.w3.org/2000/xmlns/"

/-- The bindings in force, the latest first.  The empty label is the default namespace. -/
abbrev Scope := List (String × String)

/-- The label that an attribute binds, if it is a declaration. -/
def Setting.binds? (s : Setting) : Option String :=
  if s.name.label == "xmlns" then some s.name.base
  else if s.name.base == "xmlns" then some ""
  else none

/-- Whether a declaration is a permitted one. -/
def permitted (label space : String) : Bool :=
  space != declarationSpace && (label == "xml") == (space == xmlSpace)

/-- The declarations among the attributes of an element, each permitted.  No label is declared
twice, but for `xml`, whose declarations say nothing new, and the default, for which the first
declaration counts. -/
def Scope.ofSettings? (settings : List Setting) : Option Scope :=
  let declared := settings.filterMap fun s => s.binds?.map fun l => (l, s.value)
  let bound := declared.filter (·.1 != "xml")
  let labels := (bound.map (·.1)).filter (· != "")
  if declared.all (fun b => permitted b.1 b.2) && labels.eraseDups.length == labels.length then
    some bound
  else none

/-- The namespace of an element's label; a label that is not bound has none to give. -/
def Scope.element? (scope : Scope) (name : QualifiedName) : Option Name :=
  if name.label == "xmlns" then none
  else
    match scope.lookup name.label with
    | some space => some ⟨some space, name.base⟩
    | none => if name.label == "" then some ⟨none, name.base⟩ else none

/-- The name of an attribute. -/
def Scope.attribute? (scope : Scope) (name : QualifiedName) : Option Name :=
  if name.label == "xml" then some ⟨some xmlSpace, name.base⟩
  else if name.label == "" then some ⟨none, name.base⟩
  else (scope.lookup name.label).map fun space => ⟨some space, name.base⟩

/-- The attributes of an element that are no declarations, their names all different. -/
def Scope.attributes? (scope : Scope) (settings : List Setting) : Option (List Attribute) := do
  let attributes ← (settings.filter (·.binds?.isNone)).mapM fun s =>
    (scope.attribute? s.name).map fun n => (⟨n, s.value⟩ : Attribute)
  let names := attributes.map (·.name)
  if names.eraseDups.length == names.length then some attributes else none

end XmlHarvest.Xml
