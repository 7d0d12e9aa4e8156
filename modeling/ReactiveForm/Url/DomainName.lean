import ReactiveForm.Text.Word
import ReactiveForm.Url.Direction
import ReactiveForm.Url.Joiner
import ReactiveForm.Url.NameChar
import ReactiveForm.Url.Punycode

/-!
# Domain names

A domain name is a row of labels with points between them.  It is read in three steps: each
character is replaced by what it stands for, the labels that are written in basic letters are
decoded, and each label is checked.  Whether a label has the right length, or hyphens in odd places,
is not asked.
-/

set_option autoImplicit false
namespace ReactiveForm
namespace DomainName

/-- What the characters of a text stand for, unless one must not occur. -/
def spelled? : List Char → Option (List Char)
  | [] => some []
  | c :: cs =>
    match NameChar.ofChar c with
    | .plain | .variant => (spelled? cs).map (c :: ·)
    | .spelled text => (spelled? cs).map (text ++ ·)
    | .ignored => spelled? cs
    | .refused => none

/-- Whether all characters of a text are basic. -/
def isBasic (cs : List Char) : Bool := cs.all (·.toNat < 128)

/-- The characters of a label.  An encoded one is written in basic characters; it has one that is
not basic, and none that stands for others. -/
def decoded? (label : List Char) : Option (List Char) :=
  match afterWord? ['x', 'n', '-', '-'] label with
  | none => some label
  | some encoded =>
    if !isBasic encoded then none
    else (Punycode.decode? encoded).bind fun cs ↦
      if isBasic cs || cs.any (NameChar.ofChar · != .plain) then none else some cs

/-- The marks that must not begin a label. -/
def marks : CharSet := .ofCategories ["Mn", "Mc", "Me"]

/-- Whether a label may stand in a name of rightward labels. -/
def isLabel (cs : List Char) : Bool := !cs.head?.any marks.contains && Joiner.areFine cs

/-- **The labels of the domain name that a text writes**, if it writes one. -/
def labels? (text : List Char) : Option (List (List Char)) :=
  (spelled? text).bind fun cs ↦
    ((partsAt '.' cs).mapM decoded?).bind fun labels ↦
      let directions := labels.map (·.map Direction.ofChar)
      let isMixed := directions.any (·.any Direction.isLeftward)
      if labels.all isLabel && (!isMixed || directions.all isOneDirection) then some labels
      else none

end DomainName
end ReactiveForm
