/-!
# Labels in basic letters

A label of a domain name that has other than basic characters is also written in basic ones: first
its own basic characters, then, behind the last hyphen, where the others are to be put in.  Each of
them is one number, which counts on from the one before through all places of the label so far and
all code points.

The number is written in base 36 with the digits of lowest value first.  A digit below a threshold
ends it; the thresholds follow the size of the numbers so far.
-/

set_option autoImplicit false
namespace ReactiveForm
namespace Punycode

/-- The value of a digit. -/
def digit? (c : Char) : Option Nat :=
  if 'a' ≤ c && c ≤ 'z' then some (c.toNat - 'a'.toNat)
  else if c.isDigit then some (c.toNat - '0'.toNat + 26)
  else none

/-- The threshold for a digit, given 36 times its place from one on. -/
def threshold (k bias : Nat) : Nat := max 1 (min 26 (k - bias))

/-- A number at the front of a text, given the value of the digits before and the weight of the
next, and what follows it. -/
def readNumber? (bias value weight k : Nat) : List Char → Option (Nat × List Char)
  | [] => none
  | c :: cs =>
    (digit? c).bind fun d ↦
      let value := value + d * weight
      let t := threshold k bias
      if d < t then some (value, cs) else readNumber? bias value (weight * (36 - t)) (k + 36) cs

/-- The bias for a number scaled down, given what was counted while scaling. -/
def biasOf (delta k : Nat) : Nat :=
  if 455 < delta then biasOf (delta / 35) (k + 36) else k + 36 * delta / (delta + 38)
termination_by delta
decreasing_by omega

/-- The bias after a number, given the length of the label with what it put in. -/
def nextBias (number length : Nat) (isFirst : Bool) : Nat :=
  let scaled := if isFirst then number / 700 else number / 2
  biasOf (scaled + scaled / length) 0

/-- The label with the rest of its characters put in: the next code point and the next place in the
label are those to count on from.  The bound is that of the length of the text. -/
def insertFrom? : Nat → Nat → Nat → Nat → List Char → List Char → Option (List Char)
  | _, _, _, _, label, [] => some label
  | 0, _, _, _, _, _ => none
  | bound + 1, point, place, bias, label, cs =>
    (readNumber? bias 0 1 36 cs).bind fun (number, rest) ↦
      let length := label.length + 1
      let point := point + (place + number) / length
      let next := (place + number) % length
      if point.isValidChar then
        insertFrom? bound point (next + 1) (nextBias number length (place == 0))
          (label.take next ++ Char.ofNat point :: label.drop next) rest
      else none

/-- **The label that a text in small basic letters encodes.** -/
def decode? (cs : List Char) : Option (List Char) :=
  let tail := (cs.reverse.takeWhile (· != '-')).reverse
  let basic := cs.take (cs.length - tail.length - 1)
  if basic.isEmpty then insertFrom? cs.length 128 0 72 [] cs
  else insertFrom? tail.length 128 0 72 basic tail

end Punycode
end ReactiveForm
