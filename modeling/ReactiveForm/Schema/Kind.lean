/-!
# Kinds of fields

A field says by which widget it is shown, and widget kits disagree on the names.  All the library
needs is the kind of value behind the widget, which `Kind.ofComponent` reads off the name; a widget
with an unknown name belongs to the host.
-/

set_option autoImplicit false
namespace ReactiveForm

/-- **The kind of a field**, which decides what counts as a value and how it is checked. -/
inductive Kind where
  /-- Free text. -/
  | text
  /-- A number, in whatever widget. -/
  | numeric
  /-- A single yes or no. -/
  | boolean
  /-- A choice among options. -/
  | enumerated
  /-- A container that has no value of its own. -/
  | group
  /-- Rows of columns. -/
  | list
  /-- Files, of which only the number is checked. -/
  | upload
  /-- A widget of the host, of which only presence is checked. -/
  | custom
  /-- Neither shown nor checked. -/
  | hidden
deriving DecidableEq, Inhabited

namespace Kind

/-- All kinds. -/
def all : List Kind :=
  [.text, .numeric, .boolean, .enumerated, .group, .list, .upload, .custom, .hidden]

/-- The name of a kind in a schema. -/
def key : Kind → String
  | .text => "text"
  | .numeric => "numeric"
  | .boolean => "boolean"
  | .enumerated => "enumerated"
  | .group => "group"
  | .list => "list"
  | .upload => "upload"
  | .custom => "custom"
  | .hidden => "hidden"

/-- The kind with a name. -/
def ofKey? (key : String) : Option Kind := all.find? fun k ↦ k.key == key

/-- The names of the widgets of a kind; the host's own have none. -/
def components : Kind → List String
  | .text => ["input", "text", "textarea", "password", "email", "url", "tel", "search"]
  | .numeric => ["number", "inputnumber", "input-number", "numeric", "slider", "rate"]
  | .boolean => ["switch", "checkbox", "boolean", "toggle"]
  | .enumerated => ["select", "radio", "radiogroup", "checkboxgroup", "autocomplete", "cascader",
      "treeselect", "remoteselect"]
  | .group => ["group", "fieldset", "object"]
  | .list => ["list", "table", "array", "formlist"]
  | .upload => ["upload", "file", "image"]
  | .custom => []
  | .hidden => ["hidden"]

/-- **The kind of the field that a widget shows.**  Capital letters of the basic alphabet count as
small ones. -/
def ofComponent (component : String) : Kind :=
  let name := String.ofList (component.toList.map Char.toLower)
  (all.find? fun k ↦ k.components.contains name).getD .custom

end Kind

end ReactiveForm
