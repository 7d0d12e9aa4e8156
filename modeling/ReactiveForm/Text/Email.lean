import ReactiveForm.Text.Blank

/-!
# Addresses of mail

The shape asked of an address is loose on purpose: one at sign, something before it, and behind it
a point with something on both sides; and no white space anywhere.
-/

set_option autoImplicit false
namespace ReactiveForm

/-- Whether a text has a point with something before and behind it. -/
def hasInnerPoint : List Char → Bool
  | [] => false
  | _ :: cs => cs.dropLast.contains '.'

/-- **Whether a text has the shape of an address of mail.** -/
def isEmail (s : String) : Bool :=
  let cs := s.toList
  let name := cs.takeWhile (· != '@')
  let domain := (cs.dropWhile (· != '@')).drop 1
  !cs.any isBlank && !name.isEmpty && !domain.contains '@' && hasInnerPoint domain

end ReactiveForm
