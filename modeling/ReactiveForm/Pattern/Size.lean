import ReactiveForm.Pattern.Node

/-!
# The size of patterns

A pattern is refused if it is too large to be searched for with little memory.  Its size is that of
the table of states a search would keep, in which a counted repetition stands for its node as many
times as it counts, and a set of characters for all the sequences of bytes that its characters are
encoded as.

The encoding of a character is a byte for its leading part and further bytes of six bits each.  A
range of characters is cut into sequences of ranges of bytes; sequences that begin alike share the
states of what they have in common.
-/

set_option autoImplicit false
namespace ReactiveForm

/-- The bytes that one state takes. -/
def stateSize : Nat := 32

/-- The greatest size of a pattern in bytes. -/
def sizeLimit : Nat := 10 * 1024 * 1024

namespace CharSet

/-- The sequences of ranges for the numbers from `a` to `b`, written as a leading part and
`further` digits in base 64. -/
def sequences : Nat → Nat → Nat → List (List (Nat × Nat))
  | 0, a, b => [[(a, b)]]
  | further + 1, a, b =>
    let block := 1 <<< (6 * (further + 1))
    let (first, last) := (a / block, b / block)
    if first = last then (sequences further (a % block) (b % block)).map ((first, first) :: ·)
    else
      let low := if a % block = 0 then []
        else (sequences further (a % block) (block - 1)).map ((first, first) :: ·)
      let high := if b % block = block - 1 then []
        else (sequences further 0 (b % block)).map ((last, last) :: ·)
      let (next, back) := (first + (!low.isEmpty).toNat, last - (!high.isEmpty).toNat)
      let middle := if next ≤ back then [(next, back) :: List.replicate (further + 1) (0, 63)]
        else []
      low ++ middle ++ high

/-- The ranges of characters that are encoded with the same number of bytes: the number of further
bytes, what is added to the leading part, and the ends of the range. -/
def encodedRanges : List (Nat × Nat × Nat × Nat) :=
  [(0, 0, 0, 0x7F), (1, 0xC0, 0x80, 0x7FF), (2, 0xE0, 0x800, 0xD7FF), (2, 0xE0, 0xE000, 0xFFFF),
   (3, 0xF0, 0x10000, 0x10FFFF)]

/-- The sequences of ranges of bytes for a range of characters. -/
def encodings (r : Nat × Nat) : List (List (Nat × Nat)) :=
  encodedRanges.flatMap fun (further, mark, first, last) ↦
    let (a, b) := (max r.1 first, min r.2 last)
    if a ≤ b then (sequences further a b).map (List.modifyHead fun r ↦ (mark + r.1, mark + r.2))
    else []

/-- The number of ranges in which each sequence differs from the one before it, put together. -/
def newRanges : List (Nat × Nat) → List (Nat × Nat) → Nat
  | a :: as, b :: bs => if a = b then newRanges as bs else bs.length + 1
  | _, bs => bs.length

/-- The number of states for some sequences after another one. -/
def statesAfter (previous : List (Nat × Nat)) : List (List (Nat × Nat)) → Nat
  | [] => 0
  | next :: rest => newRanges previous next + statesAfter next rest

/-- The number of bytes of the characters with a number of their further bytes. -/
def encodedLength (n : Nat) : Nat :=
  if n ≤ 0x7F then 1 else if n ≤ 0x7FF then 2 else if n ≤ 0xFFFF then 3 else 4

/-- **The size of a set of characters** in bytes. -/
def size (s : CharSet) : Nat :=
  match s with
  | [(a, b)] => if a = b then stateSize * encodedLength a else general s
  | s => general s
where
  general (s : CharSet) : Nat :=
    if s.isWithin 0x7F then 2 * stateSize + 8 * s.length
    else
      let all := s.flatMap encodings
      2 * stateSize + stateSize * statesAfter [] all + 4 * all.length

end CharSet

/-- **The size of a node** in bytes. -/
def Node.size : Node → Nat
  | .empty | .look _ => stateSize
  | .chars set => set.size
  | .seq a b => a.size + b.size
  | .alt a b => a.size + b.size + 2 * stateSize + 8
  | .group a => a.size + 2 * stateSize
  | .times a least most =>
    let fork := stateSize + 8
    if a.isStill then a.size + fork
    else
      match least, most with
      | 0, none => a.size + fork + if a.mayStay then fork + stateSize else 0
      | least, none => least * a.size + fork
      | _, some 0 => stateSize
      | least, some most => least * a.size + (most - least) * (a.size + fork) + stateSize

end ReactiveForm
