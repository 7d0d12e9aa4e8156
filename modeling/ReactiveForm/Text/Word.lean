/-!
# Words in a text

Finding, splitting at and replacing a word, which here is any text that is not empty, and the parts
of a text between the places of a character.  Replacing goes from left to right, and goes on behind
what it has replaced: what is put in is not searched.
-/

set_option autoImplicit false
namespace ReactiveForm

/-- The text after a word it begins with. -/
def afterWord? : List Char → List Char → Option (List Char)
  | [], cs => some cs
  | w :: ws, c :: cs => if w = c then afterWord? ws cs else none
  | _ :: _, [] => none

theorem afterWord?_eq_some_iff {word cs rest : List Char} :
    afterWord? word cs = some rest ↔ cs = word ++ rest := by
  fun_induction afterWord? word cs with
  | case1 cs => simp [eq_comm]
  | case2 _ _ _ ih => simp [ih]
  | case3 w ws c cs h => simp [Ne.symm h]
  | case4 => simp

/-- The parts of a text before and behind the first occurrence of a word that is not empty. -/
def splitAtWord? (word : List Char) : List Char → Option (List Char × List Char)
  | [] => none
  | c :: cs =>
    match afterWord? word (c :: cs) with
    | some rest => some ([], rest)
    | none => (splitAtWord? word cs).map fun (before, rest) ↦ (c :: before, rest)

/-- The parts of a text between the places where a character occurs. -/
def partsAt (separator : Char) : List Char → List (List Char)
  | [] => [[]]
  | c :: cs =>
    if c = separator then [] :: partsAt separator cs
    else (partsAt separator cs).modifyHead (c :: ·)

/-- **The text with another in place of a word**, wherever the word occurs. -/
def replaceWord (word other cs : List Char) : List Char :=
  match cs with
  | [] => []
  | c :: cs =>
    match afterWord? word (c :: cs) with
    | some rest =>
      if _h : rest.length ≤ cs.length then other ++ replaceWord word other rest
      else c :: replaceWord word other cs
    | none => c :: replaceWord word other cs
termination_by cs.length
decreasing_by all_goals (simp only [List.length_cons]; omega)

end ReactiveForm
