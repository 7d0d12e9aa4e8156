import ReactiveForm.Pattern.Basic

/-!
# Pattern literals

A rule may write its pattern between slashes, with flags behind the second one.  Such a literal
stands for the pattern between its first and its last slash, after a group that sets those of the
flags that a pattern knows; other letters behind the slash mean nothing.  A text that does not begin
with a slash, or has no second one, is a pattern as it is.
-/

set_option autoImplicit false
namespace ReactiveForm
namespace Pattern

/-- The parts of a text before and behind its last slash, if it has one. -/
def splitLastSlash? (cs : List Char) : Option (List Char × List Char) :=
  if cs.contains '/' then
    let flags := cs.reverse.takeWhile (· != '/')
    some (cs.take (cs.length - flags.length - 1), flags.reverse)
  else none

/-- Whether a letter behind a literal is a flag. -/
def isFlag (c : Char) : Bool := c = 'i' || c = 'm' || c = 's'

/-- **The pattern that a rule writes**, as a literal or as it is. -/
def ofLiteral (source : String) : String :=
  match source.toList with
  | '/' :: rest =>
    match splitLastSlash? rest with
    | some (body, behind) =>
      match behind.filter isFlag with
      | [] => String.ofList body
      | flags => String.ofList ('(' :: '?' :: flags ++ ')' :: body)
    | none => source
  | _ => source

/-! ## What a literal is rewritten to -/

/-- The group that sets the flags among some letters, which is left out if there are none. -/
def flagGroup (behind : List Char) : List Char :=
  match behind.filter isFlag with
  | [] => []
  | flags => '(' :: '?' :: flags ++ [')']

theorem splitLastSlash?_append (body : List Char) {behind : List Char} (h : '/' ∉ behind) :
    splitLastSlash? (body ++ '/' :: behind) = some (body, behind) := by
  have hbehind : ∀ c ∈ behind.reverse, (c != '/') = true := fun c hc ↦
    bne_iff_ne.2 fun heq ↦ h (heq ▸ List.mem_reverse.1 hc)
  have hflags : (body ++ '/' :: behind).reverse.takeWhile (· != '/') = behind.reverse := by
    rw [List.reverse_append, List.reverse_cons, List.append_assoc,
      List.takeWhile_append_of_pos hbehind]
    simp
  have hlength : (body ++ '/' :: behind).length - behind.reverse.length - 1 = body.length := by
    simp only [List.length_append, List.length_cons, List.length_reverse]
    omega
  rw [splitLastSlash?, if_pos (by simp)]
  dsimp only
  rw [hflags, hlength, List.take_left, List.reverse_reverse]

theorem splitLastSlash?_of_notMem {cs : List Char} (h : '/' ∉ cs) : splitLastSlash? cs = none :=
  if_neg (by simpa using h)

/-- **A literal is rewritten** to what is between its first and its last slash, after the group that
sets the flags behind it.  There may be slashes in between, but none behind. -/
theorem ofLiteral_literal (body : List Char) {behind : List Char} (h : '/' ∉ behind) :
    ofLiteral (String.ofList ('/' :: (body ++ '/' :: behind))) =
      String.ofList (flagGroup behind ++ body) := by
  unfold ofLiteral
  split
  · rename_i rest heq
    rw [String.toList_ofList] at heq
    obtain rfl := (List.cons.inj heq).2
    rw [splitLastSlash?_append body h, flagGroup]
    dsimp only
    generalize behind.filter isFlag = flags
    cases flags with
    | nil => rfl
    | cons flag flags => simp
  · rename_i hslash
    exact absurd String.toList_ofList (hslash _)

/-- **Any other text is a pattern as it is**: one that does not begin with a slash, or has no other
slash behind that one. -/
theorem ofLiteral_of_no_literal {source : String}
    (h : ∀ rest, source.toList = '/' :: rest → '/' ∉ rest) : ofLiteral source = source := by
  unfold ofLiteral
  split
  · rename_i rest heq
    rw [splitLastSlash?_of_notMem (h rest heq)]
  · rfl

example : ofLiteral "/^a/b+$/gi" = "(?i)^a/b+$" := by decide

end Pattern
end ReactiveForm
