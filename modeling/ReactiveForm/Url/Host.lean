import ReactiveForm.Url.Address
import ReactiveForm.Url.DomainName

/-!
# Hosts

A host in brackets is an address.  Anything else is a domain name where the scheme has one, with the
bytes that are written in base sixteen behind a percent sign read as such; if its last label is a
number, it is an address as well.  For other schemes the host has no meaning and only must not have
certain characters.
-/

set_option autoImplicit false
namespace ReactiveForm
namespace Host

/-- Some bytes with those read that are written behind a percent sign. -/
def percentDecoded : List UInt8 → List UInt8
  | 37 :: a :: b :: rest =>
    match hexNumber? [Char.ofNat a.toNat, Char.ofNat b.toNat] with
    | some n => UInt8.ofNat n :: percentDecoded rest
    | none => 37 :: percentDecoded (a :: b :: rest)
  | a :: rest => a :: percentDecoded rest
  | [] => []

/-- The text of a host with its encoded bytes read. -/
def decodedText? (cs : List Char) : Option (List Char) :=
  let bytes := percentDecoded (String.ofList cs).toUTF8.toList
  (String.fromUTF8? ⟨bytes.toArray⟩).map String.toList

/-- What is in the brackets around a text, if it begins with one, and if the other is there. -/
def bracketed? (cs : List Char) : Option (Option (List Char)) :=
  match cs with
  | '[' :: rest => some (if rest.getLast? == some ']' then some rest.dropLast else none)
  | _ => none

/-- **Whether a text is a domain name or an address.** -/
def isNamed (cs : List Char) : Bool :=
  match bracketed? cs with
  | some address => address.any Address.isLong
  | none =>
    match (decodedText? cs).bind DomainName.labels? with
    | none | some [[]] => false
    | some labels => !Address.endsInNumber labels || Address.isShort labels

/-- Whether a character must not occur in a host without meaning. -/
def isForbidden (c : Char) : Bool :=
  c = Char.ofNat 0 || " #/:<>?@[\\]^|".toList.contains c

/-- **Whether a text is a host** for a scheme without domain names. -/
def isOpaque (cs : List Char) : Bool :=
  match bracketed? cs with
  | some address => address.any Address.isLong
  | none => !cs.any isForbidden

end Host
end ReactiveForm
