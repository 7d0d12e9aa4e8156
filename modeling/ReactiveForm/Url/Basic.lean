import ReactiveForm.Numeric.Numeral
import ReactiveForm.Url.Host

/-!
# Addresses of resources

A text is the address of a resource, a URL, if it begins with a scheme and what follows has no fault
in it.  Only the part with the user, the host and the port can have one; in paths, queries and
fragments anything goes.

Schemes of the web need a host, and take any number of slashes of both kinds in front of it.  The
scheme for files has a host between two and three slashes, or none.  For all other schemes a host
follows two slashes.
-/

set_option autoImplicit false
namespace ReactiveForm
namespace Url

/-- The schemes that need a host. -/
def hostSchemes : List String := ["http", "https", "ws", "wss", "ftp"]

/-- Whether a character is a slash of either kind. -/
def isSlash (c : Char) : Bool := c = '/' || c = '\\'

/-- Whether a character ends the part with the host; a backslash does so for some schemes only. -/
def endsHost (backslash : Bool) (c : Char) : Bool :=
  c = '/' || c = '?' || c = '#' || (backslash && c = '\\')

/-- The text without what makes no difference: control characters and spaces around it, tabs and
line breaks within. -/
def plainText (cs : List Char) : List Char :=
  let isOuter (c : Char) : Bool := c.toNat ≤ 32
  (((cs.dropWhile isOuter).reverse.dropWhile isOuter).reverse).filter fun c ↦
    c != '\t' && c != '\n' && c != '\r'

/-- The scheme of a text in small letters, and what follows its colon. -/
def scheme? (cs : List Char) : Option (String × List Char) :=
  let goesOn (c : Char) : Bool := c.isAlphanum || c = '+' || c = '-' || c = '.'
  match cs.takeWhile goesOn, cs.dropWhile goesOn with
  | c :: scheme, ':' :: rest =>
    if c.isAlpha then some (String.ofList ((c :: scheme).map Char.toLower), rest) else none
  | _, _ => none

/-! ## User, host and port -/

/-- The parts of a text before and behind the last at sign, if there is one. -/
def splitUser (cs : List Char) : Option (List Char) × List Char :=
  if cs.contains '@' then
    let host := (cs.reverse.takeWhile (· != '@')).reverse
    (some (cs.take (cs.length - host.length - 1)), host)
  else (none, cs)

/-- The parts of a text before and behind the first colon outside of brackets. -/
def splitPort (inBrackets : Bool) : List Char → List Char × Option (List Char)
  | [] => ([], none)
  | c :: cs =>
    if c = ':' && !inBrackets then ([], some cs)
    else
      let (host, port) := splitPort (c = '[' || (inBrackets && c != ']')) cs
      (c :: host, port)

/-- Whether a text is a port: none at all, or a number of sixteen bits. -/
def isPort (cs : List Char) : Bool := cs.all Char.isDigit && natOfDigits cs < UInt16.size

/-- Whether a host, and a port if there is a colon, are in order.  Where a host is needed it is a
domain name or an address; where it is not, it may be empty if there is neither user nor port, and a
backslash ends the port. -/
def isHostAndPort (needsHost hasUser : Bool) (cs : List Char) : Bool :=
  let (host, port) := splitPort false cs
  if host.isEmpty then !needsHost && !hasUser && port.isNone
  else
    (if needsHost then Host.isNamed host else Host.isOpaque host) &&
      port.all fun p ↦ isPort (if needsHost then p else p.takeWhile (· != '\\'))

/-- **Whether what follows the slashes in front of a host is in order.**  A user without a name and
a password counts as none; behind an at sign with nothing before it, the host must not end at
once. -/
def isAuthority (needsHost : Bool) (cs : List Char) : Bool :=
  let authority := cs.takeWhile (!endsHost needsHost ·)
  let rest := cs.dropWhile (!endsHost needsHost ·)
  let (user, host) := splitUser authority
  if user == some [] && host.isEmpty && !rest.isEmpty then false
  else isHostAndPort needsHost (user.any fun u ↦ u != [] && u != [':']) host

/-! ## Files -/

/-- Whether a text is the letter of a drive, which is the beginning of a path and no host. -/
def isDrive : List Char → Bool
  | [c, mark] => c.isAlpha && (mark = ':' || mark = '|')
  | _ => false

/-- Whether what follows the scheme for files is in order. -/
def isFile : List Char → Bool
  | a :: b :: rest =>
    if isSlash a && isSlash b then
      let host := rest.takeWhile (!endsHost true ·)
      host.isEmpty || isDrive host || Host.isNamed host
    else true
  | _ => true

end Url

/-- **Whether a text is the address of a resource.** -/
def isUrl (text : String) : Bool :=
  match Url.scheme? (Url.plainText text.toList) with
  | none => false
  | some (scheme, rest) =>
    if scheme == "file" then Url.isFile rest
    else if Url.hostSchemes.contains scheme then Url.isAuthority true (rest.dropWhile Url.isSlash)
    else
      match rest with
      | '/' :: '/' :: rest => Url.isAuthority false rest
      | _ => true

end ReactiveForm
