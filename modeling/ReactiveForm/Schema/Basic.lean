import ReactiveForm.Graph.Order
import ReactiveForm.Pattern.Literal
import ReactiveForm.Schema.Field

/-!
# Schemas

A schema is a tree of fields that has been found to be in order, together with the order in which
its computed fields are evaluated.  It is refused at the first fault in the order of the tree, a
field before those inside it: a name that is blank or taken by a sibling, a condition that is too
deep, a pattern that is none.  Only when there is no such fault are computations refused that read
each other in a circle.  A computation whose text is no expression is no fault.

Names need to differ among siblings only.  Where a name is declared several times, the last
declaration in the order of the tree is the one that counts: for looking up the field, for its
default value, and for what its computation reads.
-/

set_option autoImplicit false
namespace ReactiveForm

/-- **Why a schema is refused.** -/
inductive SchemaError where
  /-- A blank name among the fields inside `parent`. -/
  | emptyName (parent : String)
  /-- Two fields of one name inside `parent`. -/
  | duplicateName (name parent : String)
  /-- Computations that read each other; the path ends where it begins. -/
  | computeCycle (path : List String)
  | invalidPattern (field pattern : String)
  | conditionTooDeep (field : String) (depth limit : Nat)
deriving DecidableEq

/-- The message of a fault, apart from what is wrong with a pattern. -/
def SchemaError.message : SchemaError → String
  | .emptyName parent => "field name must be non-empty (under " ++ parent ++ ")"
  | .duplicateName name parent => "duplicate field name `" ++ name ++ "` under " ++ parent
  | .computeCycle path => "compute dependency cycle: " ++ " -> ".intercalate path
  | .invalidPattern field pattern => "invalid pattern `" ++ pattern ++ "` on `" ++ field ++ "`"
  | .conditionTooDeep field depth limit =>
    "condition on `" ++ field ++ "` is nested " ++ toString depth ++ " levels deep (max " ++
      toString limit ++ ")"

/-- What the fields at the top of a form are said to be inside of. -/
def rootName : String := "<root>"

/-! ## Faults of single fields -/

/-- Whether a text is a pattern. -/
def isPattern (text : String) : Bool := (Pattern.ofText? text).isSome

namespace Declaration

/-- The sources of the patterns among the rules of a field. -/
def patternSources (d : Declaration) : List String := d.rules.filterMap Rule.patternSource?

/-- The first fault of a declaration in itself, if there is one. -/
def fault? (limit : Nat) (d : Declaration) (compiles : String → Bool := isPattern) :
    Option SchemaError :=
  match d.conditions.find? fun c ↦ limit < c.depth with
  | some c => some (.conditionTooDeep d.name c.depth limit)
  | none =>
    (d.patternSources.find? fun p ↦ !compiles (Pattern.ofLiteral p)).map (.invalidPattern d.name)

/-- The first fault of a declaration after siblings with the given names. -/
def faultAmong? (limit : Nat) (parent : String) (taken : List String) (d : Declaration)
    (compiles : String → Bool := isPattern) : Option SchemaError :=
  if isBlankText d.name then some (.emptyName parent)
  else if taken.contains d.name then some (.duplicateName d.name parent)
  else d.fault? limit compiles

end Declaration

/-! ## Faults of trees -/

mutual

/-- The first fault of a field after siblings with the given names, or of the fields inside it. -/
def Field.treeFault? (limit : Nat) (parent : String) (taken : List String) (f : Field)
    (compiles : String → Bool := isPattern) : Option SchemaError :=
  match f with
  | ⟨d, columns⟩ =>
    (d.faultAmong? limit parent taken compiles).or (treeFaultOf? limit d.name [] columns compiles)

/-- **The first fault of some trees** after siblings with the given names. -/
def treeFaultOf? (limit : Nat) (parent : String) (taken : List String) (fields : List Field)
    (compiles : String → Bool := isPattern) : Option SchemaError :=
  match fields with
  | [] => none
  | f :: fs =>
    (f.treeFault? limit parent taken compiles).or
      (treeFaultOf? limit parent (f.name :: taken) fs compiles)

end

/-! ## What computations read -/

/-- Of each computed field the set of paths it reads. -/
def computeGraph (fields : List Field) : Graph :=
  Table.ofList ((preorder fields).filterMap fun f ↦
    f.computation.map fun c ↦ (f.name, Names.ofList c.inputs))

/-! ## Schemas -/

/-- **A schema.** -/
structure Schema where
  /-- The fields at the top of the form. -/
  fields : List Field
  /-- The names of the computed fields, each after those it reads. -/
  computeOrder : List String

namespace Schema

/-- The greatest depth of conditions, unless configured otherwise. -/
def defaultDepthLimit : Nat := 32

/-- The schema with the given fields, or why there is none, where `compiles` tells which texts are
patterns. -/
def ofFieldsBy (compiles : String → Bool) (limit : Nat) (fields : List Field) :
    Except SchemaError Schema :=
  match treeFaultOf? limit rootName [] fields compiles with
  | some fault => .error fault
  | none =>
    match (computeGraph fields).order with
    | .ok order => .ok ⟨fields, order⟩
    | .error cycle => .error (.computeCycle cycle)

/-- **The schema with the given fields**, or why there is none. -/
def ofFields (limit : Nat) (fields : List Field) : Except SchemaError Schema :=
  ofFieldsBy isPattern limit fields

/-- All fields, each before those inside it. -/
def allFields (s : Schema) : List Field := preorder s.fields

/-- **The field with a name**, by its last declaration. -/
def field? (s : Schema) (name : String) : Option Field :=
  s.allFields.reverse.find? fun f ↦ f.name == name

/-- **Which fields react to a path.** -/
def dependents (s : Schema) : Graph :=
  s.allFields.foldl (fun g f ↦ f.reactsTo.foldl (fun g path ↦ g.connect path f.name) g) []

/-- The default values, by name. -/
def defaults (s : Schema) : Record :=
  Table.ofList (s.allFields.filterMap fun f ↦ f.defaultValue.map fun v ↦ (f.name, v))

/-- **The values a form starts with**: the given ones laid over the defaults. -/
def initialValues (s : Schema) (given : Record) : Record := s.defaults.overlay given

/-- The names that are those of columns of a list. -/
def rowNames (s : Schema) : Names := Names.ofList (rowNamesOf false s.fields)

/-- **The set of paths on which anything in the form depends.** -/
def watched (s : Schema) : Names := Names.ofList (s.allFields.flatMap fun f ↦ f.reactsTo)

end Schema

end ReactiveForm
