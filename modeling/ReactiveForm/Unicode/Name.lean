import ReactiveForm.Unicode.Property
import ReactiveForm.Unicode.Script

/-!
# Sets of characters by name

Properties, categories and scripts are named loosely: capitals, spaces, hyphens and underscores make
no difference, nor does the word `is` in front.  A name alone is looked for among the properties,
then the categories, then the scripts; three short names of categories are names of properties as
well, and stand for the categories.
-/

set_option autoImplicit false
namespace ReactiveForm

/-- A name without what makes no difference.  One short name of a property would be lost with the
word `is` and is not cut. -/
def looseName (name : List Char) : String :=
  let rest := match name with
    | a :: b :: rest => if a.toLower = 'i' && b.toLower = 's' then rest else name
    | name => name
  let plain := (rest.filter fun c ↦ c != ' ' && c != '_' && c != '-' && c.toNat < 128).map
    Char.toLower
  if plain == ['c'] && rest.length < name.length then "isc" else String.ofList plain

/-- The categories and groups of categories: their names, and the categories they stand for. -/
def categoryGroups : List (List String × List String) :=
  [(["c", "other"], ["Cc", "Cf", "Cn", "Co"]),
   (["cc", "control", "cntrl"], ["Cc"]),
   (["cf", "format"], ["Cf"]),
   (["cn", "unassigned"], ["Cn"]),
   (["co", "privateuse"], ["Co"]),
   (["l", "letter"], ["Lu", "Ll", "Lt", "Lm", "Lo"]),
   (["lc", "casedletter"], ["Lu", "Ll", "Lt"]),
   (["ll", "lowercaseletter"], ["Ll"]),
   (["lm", "modifierletter"], ["Lm"]),
   (["lo", "otherletter"], ["Lo"]),
   (["lt", "titlecaseletter"], ["Lt"]),
   (["lu", "uppercaseletter"], ["Lu"]),
   (["m", "mark", "combiningmark"], ["Mn", "Mc", "Me"]),
   (["mc", "spacingmark"], ["Mc"]),
   (["me", "enclosingmark"], ["Me"]),
   (["mn", "nonspacingmark"], ["Mn"]),
   (["n", "number"], ["Nd", "Nl", "No"]),
   (["nd", "decimalnumber", "digit"], ["Nd"]),
   (["nl", "letternumber"], ["Nl"]),
   (["no", "othernumber"], ["No"]),
   (["p", "punctuation", "punct"], ["Pc", "Pd", "Ps", "Pe", "Pi", "Pf", "Po"]),
   (["pc", "connectorpunctuation"], ["Pc"]),
   (["pd", "dashpunctuation"], ["Pd"]),
   (["pe", "closepunctuation"], ["Pe"]),
   (["pf", "finalpunctuation"], ["Pf"]),
   (["pi", "initialpunctuation"], ["Pi"]),
   (["po", "otherpunctuation"], ["Po"]),
   (["ps", "openpunctuation"], ["Ps"]),
   (["s", "symbol"], ["Sm", "Sc", "Sk", "So"]),
   (["sc", "currencysymbol"], ["Sc"]),
   (["sk", "modifiersymbol"], ["Sk"]),
   (["sm", "mathsymbol"], ["Sm"]),
   (["so", "othersymbol"], ["So"]),
   (["z", "separator"], ["Zs", "Zl", "Zp"]),
   (["zl", "lineseparator"], ["Zl"]),
   (["zp", "paragraphseparator"], ["Zp"]),
   (["zs", "spaceseparator"], ["Zs"])]

namespace CharSet

/-- The characters of the category, or group of categories, with a loose name. -/
def ofCategoryName? (name : String) : Option CharSet :=
  match name with
  | "any" => some [(0, lastCodePoint)]
  | "ascii" => some [(0, 127)]
  | "assigned" => some (complement lastCodePoint (ofCategories ["Cn"]))
  | name => (categoryGroups.find? fun g ↦ g.1.contains name).map fun g ↦ ofCategories g.2

/-- The number and the short name of the script with a loose name. -/
def scriptNamed? (name : String) : Option (Nat × String) :=
  (scriptNames.zipIdx.find? fun (names, _) ↦
    (names.splitOn " ").any fun n ↦ looseName n.toList == name).map fun (names, i) ↦
      (i, (names.splitOn " ").headD "")

/-- **The characters that a name alone stands for.** -/
def named? (name : List Char) : Option CharSet :=
  let name := looseName name
  let property := if name == "cf" || name == "sc" || name == "lc" then none else ofProperty? name
  property.or ((ofCategoryName? name).or ((scriptNamed? name).map fun s ↦ ofScript s.1))

/-- **The characters for which a property has a value.** -/
def valued? (property value : List Char) : Option CharSet :=
  let value := looseName value
  match looseName property with
  | "gc" | "generalcategory" => ofCategoryName? value
  | "sc" | "script" => (scriptNamed? value).map fun s ↦ ofScript s.1
  | "scx" | "scriptextensions" => (scriptNamed? value).map fun s ↦ ofScriptExtensions s.1 s.2
  | _ => none

end CharSet

end ReactiveForm
