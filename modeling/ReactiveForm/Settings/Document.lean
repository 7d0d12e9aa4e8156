import ReactiveForm.Settings.Scalar

/-!
# The text of settings

Settings are written as TOML, of which they need little: sections with single settings in them.  A
section can be opened by a header, be written out behind an equals sign (as entries in braces, or
as items in brackets), or come about from settings whose names have a point in them.  What nests
more deeply has no meaning as settings; it is refused here, as is everything else that could not
mean anything: arrays of sections, and dates.

`Draft.openSection` and `Draft.put` hold the rules on what may be said twice: nothing.  A section is
opened once, a setting is given once, and only a section that came about from names with a point
can be added to in the same way.
-/

set_option autoImplicit false
namespace ReactiveForm

/-- What a section holds. -/
inductive Section where
  | entries (given : List (String × Scalar))
  | items (given : List Scalar)

/-- **A document**: sections by name. -/
abbrev Document := List (String × Section)

namespace Document

/-! ## Saying nothing twice -/

/-- A document as it is being read. -/
structure Draft where
  sections : Document := []
  /-- The sections that came about from names with a point. -/
  dotted : List String := []
  /-- The section whose header was read last. -/
  current : Option String := none

/-- What follows an equals sign. -/
inductive Content where
  | single (s : Scalar)
  | whole (s : Section)

namespace Draft

/-- A header: the section must be new. -/
def openSection (d : Draft) (name : String) : Option Draft :=
  if (d.sections.lookup name).isSome then none
  else some { d with sections := d.sections ++ [(name, .entries [])], current := some name }

/-- Adds an entry to a section that has none of that name. -/
def addEntry (d : Draft) (name key : String) (s : Scalar) : Option Draft :=
  match d.sections.lookup name with
  | some (.entries given) =>
    if (given.lookup key).isSome then none
    else
      let renewed := Section.entries (given ++ [(key, s)])
      some { d with
        sections := d.sections.map fun e ↦ if e.1 = name then (name, renewed) else e }
  | _ => none

/-- A setting under a name, which may have points in it. -/
def put (d : Draft) (path : List String) (content : Content) : Option Draft :=
  match d.current, path, content with
  | some name, [key], .single s => d.addEntry name key s
  | none, [name], .whole s =>
    if (d.sections.lookup name).isSome then none
    else some { d with sections := d.sections ++ [(name, s)] }
  | none, [name, key], .single s =>
    if d.dotted.contains name then d.addEntry name key s
    else if (d.sections.lookup name).isSome then none
    else some { d with
      sections := d.sections ++ [(name, .entries [(key, s)])], dotted := name :: d.dotted }
  | _, _, _ => none

end Draft

/-! ## Blanks, comments and names -/

/-- The text without the blanks at its front. -/
def skipInline (cs : List Char) : List Char := cs.dropWhile Scalar.isInlineBlank

/-- What follows the end of a line, a comment in front of it included. -/
def afterLine? (cs : List Char) : Option (List Char) :=
  let rest := match skipInline cs with
    | '#' :: comment => comment.dropWhile Scalar.isPlain
    | rest => rest
  match rest with
  | [] => some []
  | '\n' :: rest => some rest
  | '\r' :: '\n' :: rest => some rest
  | _ => none

/-- The text without the blanks, comments and line breaks at its front.  The bound is that of its
length. -/
def skipLines : Nat → List Char → List Char
  | 0, cs => cs
  | bound + 1, cs =>
    match skipInline cs with
    | [] => []
    | rest =>
      match afterLine? rest with
      | some rest => skipLines bound rest
      | none => rest

/-- Whether a character may stand in a name without quotes. -/
def isNameChar (c : Char) : Bool := c.isAlphanum || c = '_' || c = '-'

/-- The part of a name between two points, and what follows it. -/
def readPart? (cs : List Char) : Option (String × List Char) :=
  match cs with
  | '"' :: rest => (Scalar.readLine '"' 0 [] rest).map fun (s, rest) ↦ (String.ofList s, rest)
  | '\'' :: rest => (Scalar.readLine '\'' 0 [] rest).map fun (s, rest) ↦ (String.ofList s, rest)
  | cs =>
    let part := cs.takeWhile isNameChar
    if part.isEmpty then none else some (String.ofList part, cs.dropWhile isNameChar)

/-- The parts of a name, and what follows it and the blanks behind it.  The bound is that of the
length of the text. -/
def readName? : Nat → List Char → Option (List String × List Char)
  | 0, _ => none
  | bound + 1, cs =>
    (readPart? (skipInline cs)).bind fun (part, rest) ↦
      match skipInline rest with
      | '.' :: rest => (readName? bound rest).map fun (parts, rest) ↦ (part :: parts, rest)
      | rest => some ([part], rest)

/-! ## Sections behind an equals sign -/

/-- The items up to a closing bracket, given those before in reverse. -/
def readItems? : Nat → List Scalar → List Char → Option (Section × List Char)
  | 0, _, _ => none
  | bound + 1, items, cs =>
    match skipLines cs.length cs with
    | ']' :: rest => some (.items items.reverse, rest)
    | rest =>
      (Scalar.read? rest).bind fun (s, rest) ↦
        match skipLines rest.length rest with
        | ',' :: rest => readItems? bound (s :: items) rest
        | ']' :: rest => some (.items (s :: items).reverse, rest)
        | _ => none

/-- The entries up to a closing brace, given those before in reverse. -/
def readEntries? : Nat → List (String × Scalar) → List Char → Option (Section × List Char)
  | 0, _, _ => none
  | bound + 1, given, cs =>
    match skipLines cs.length cs with
    | '}' :: rest => some (.entries given.reverse, rest)
    | rest =>
      match readName? rest.length rest with
      | some ([key], '=' :: rest) =>
        (Scalar.read? (skipInline rest)).bind fun (s, rest) ↦
          if (given.lookup key).isSome then none
          else
            match skipLines rest.length rest with
            | ',' :: rest => readEntries? bound ((key, s) :: given) rest
            | '}' :: rest => some (.entries ((key, s) :: given).reverse, rest)
            | _ => none
      | _ => none

/-- What stands behind an equals sign, and what follows it. -/
def readContent? (cs : List Char) : Option (Content × List Char) :=
  match cs with
  | '[' :: rest => (readItems? cs.length [] rest).map fun (s, rest) ↦ (.whole s, rest)
  | '{' :: rest => (readEntries? cs.length [] rest).map fun (s, rest) ↦ (.whole s, rest)
  | cs => (Scalar.read? cs).map fun (s, rest) ↦ (.single s, rest)

/-! ## Whole texts -/

/-- The draft after a header or a setting, and what follows its line. -/
def readStatement? (d : Draft) (cs : List Char) : Option (Draft × List Char) :=
  match cs with
  | '[' :: rest =>
    match readName? rest.length rest with
    | some ([name], ']' :: rest) =>
      (afterLine? rest).bind fun rest ↦ (d.openSection name).map (·, rest)
    | _ => none
  | cs =>
    match readName? cs.length cs with
    | some (path, '=' :: rest) =>
      (readContent? (skipInline rest)).bind fun (content, rest) ↦
        (afterLine? rest).bind fun rest ↦ (d.put path content).map (·, rest)
    | _ => none

/-- The document that the rest of a text makes of a draft.  The bound is that of its length. -/
def readStatements? : Nat → Draft → List Char → Option Document
  | 0, d, cs => if cs.isEmpty then some d.sections else none
  | bound + 1, d, cs =>
    match skipLines cs.length cs with
    | [] => some d.sections
    | rest =>
      match readStatement? d rest with
      | some (d, rest) => readStatements? bound d rest
      | none => none

/-- **The document a text writes.**  A byte order mark at its front is no part of it. -/
def ofText? (text : String) : Option Document :=
  let cs := match text.toList with
    | '\uFEFF' :: rest => rest
    | cs => cs
  readStatements? cs.length {} cs

end Document

end ReactiveForm
