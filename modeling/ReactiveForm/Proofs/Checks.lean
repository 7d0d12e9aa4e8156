import ReactiveForm.Proofs.Failures
import Mathlib.Data.List.TakeWhile

/-!
# The checks of a field

What a field asks of its value can be said as a list of checks, each of which looks at the value by
itself: whether it is there, if it must be; whether it is of the type of the field; what the rules
of the field ask, one after the other; and how many items it has.  Each kind of field has its own
notion of a value that is there, its own type, and its own rules that it knows
(`Declaration.checks`).

A validation does not make all of these checks.  It stops at the first one that fails, and makes
none that the answer of an earlier one has settled.  That comes to the same
(`Declaration.failure?_eq`, `Declaration.head?_ownFailures`): a field fails with the message of the
first check of the list that fails.
-/

set_option autoImplicit false
namespace ReactiveForm

/-- **A check** of a value: whether the value fails it, and what is said then. -/
structure Check where
  fails : Bool
  message : String
deriving DecidableEq

/-- **What some checks come to**: the message of the first one that fails. -/
def firstFailure? (checks : List Check) : Option String :=
  (checks.find? (·.fails)).map (·.message)

theorem firstFailure?_cons (c : Check) (checks : List Check) :
    firstFailure? (c :: checks) = if c.fails then some c.message else firstFailure? checks := by
  rw [firstFailure?, List.find?_cons]
  cases c.fails <;> rfl

theorem firstFailure?_append (checks more : List Check) :
    firstFailure? (checks ++ more) = (firstFailure? checks).or (firstFailure? more) := by
  rw [firstFailure?, List.find?_append, Option.map_or]
  rfl

theorem firstFailure?_map {α : Type} (g : α → Check) (xs : List α) :
    firstFailure? (xs.map g) =
      xs.findSome? fun x ↦ if (g x).fails then some (g x).message else none := by
  induction xs with
  | nil => rfl
  | cons x xs ih =>
    rw [List.map_cons, firstFailure?_cons, List.findSome?_cons, ih]
    cases (g x).fails <;> rfl

/-- The number that a value reads as: a number, or a text that looks like one. -/
def Value.reading? : Value → Option Binary64
  | .text s => numericText? s
  | v => v.number?

/-- A blank text looks like no number. -/
theorem numericText?_of_isBlankText {s : String} (h : isBlankText s = true) :
    numericText? s = none := by
  have htrim : trimBlank s.toList = [] := by
    have hdrop : s.toList.dropWhile isBlank = [] := by
      rw [List.dropWhile_eq_nil_iff]
      simpa [isBlankText] using h
    rw [trimBlank, hdrop]
    rfl
  rw [numericText?, htrim]
  rfl

/-- A value that reads as a number is there. -/
theorem Value.isReady_of_reading? {v : Value} (h : v.reading?.isSome = true) :
    Value.isReady (some v) = true := by
  cases v with
  | text s =>
    cases hblank : isBlankText s with
    | false => simp [Value.isReady, hblank]
    | true => simp [Value.reading?, numericText?_of_isBlankText hblank] at h
  | null => simp [Value.reading?, Value.number?] at h
  | _ => rfl

/-! ## Rules that a text or a number breaks -/

/-- **What it is for a text to break a rule**: it is shorter or longer than the rule allows, does
not match its pattern, or is no address of the kind it asks for.  A rule that lacks the argument for
its kind is broken by no text, and neither is a rule about numbers. -/
inductive Rule.BrokenByText (m : Criteria) (s : String) (r : Rule) : Prop where
  | tooShort {least : Nat} (hkind : r.kind = .minLength) (hcount : r.count? = some least)
      (h : s.length < least)
  | tooLong {most : Nat} (hkind : r.kind = .maxLength) (hcount : r.count? = some most)
      (h : most < s.length)
  | noMatch {source : String} (hkind : r.kind = .pattern)
      (hsource : r.patternSource? = some source)
      (h : m.matchesPattern (Pattern.ofLiteral source) s = false)
  | noEmail (hkind : r.kind = .email) (h : m.isEmail s = false)
  | noUrl (hkind : r.kind = .url) (h : m.isUrl s = false)

/-- **What it is for a number to break a rule**: it is below or above the bound of the rule. -/
inductive Rule.BrokenByNumber (x : Binary64) (r : Rule) : Prop where
  | tooLow {least : Binary64} (hkind : r.kind = .min) (hbound : r.number? = some least)
      (h : x.compare? least = some .lt)
  | tooHigh {most : Binary64} (hkind : r.kind = .max) (hbound : r.number? = some most)
      (h : x.compare? most = some .gt)

/-- The check of a text finds just the rules that the text breaks. -/
theorem textFails_iff {m : Criteria} {s : String} {r : Rule} :
    textFails m s r = true ↔ r.BrokenByText m s := by
  constructor
  · intro h
    unfold textFails at h
    split at h
    · rename_i hkind
      obtain ⟨least, hcount, hlt⟩ := (Option.any_eq_true _ _).1 h
      exact .tooShort hkind hcount (of_decide_eq_true hlt)
    · rename_i hkind
      obtain ⟨most, hcount, hlt⟩ := (Option.any_eq_true _ _).1 h
      exact .tooLong hkind hcount (of_decide_eq_true hlt)
    · rename_i hkind
      obtain ⟨source, hsource, hmatch⟩ := (Option.any_eq_true _ _).1 h
      exact .noMatch hkind hsource (Bool.not_eq_true' _ ▸ hmatch)
    · rename_i hkind
      exact .noEmail hkind (Bool.not_eq_true' _ ▸ h)
    · rename_i hkind
      exact .noUrl hkind (Bool.not_eq_true' _ ▸ h)
    · cases h
  · rintro (⟨hkind, hcount, h⟩ | ⟨hkind, hcount, h⟩ | ⟨hkind, hsource, h⟩ | ⟨hkind, h⟩ | ⟨hkind, h⟩)
    · simp [textFails, hkind, hcount, h]
    · simp [textFails, hkind, hcount, h]
    · simp [textFails, hkind, hsource, h]
    · simp [textFails, hkind, h]
    · simp [textFails, hkind, h]

/-- The check of a number finds just the rules that the number breaks. -/
theorem numberFails_iff {x : Binary64} {r : Rule} :
    numberFails x r = true ↔ r.BrokenByNumber x := by
  constructor
  · intro h
    unfold numberFails at h
    split at h
    · rename_i hkind
      obtain ⟨least, hbound, hlt⟩ := (Option.any_eq_true _ _).1 h
      exact .tooLow hkind hbound (eq_of_beq hlt)
    · rename_i hkind
      obtain ⟨most, hbound, hgt⟩ := (Option.any_eq_true _ _).1 h
      exact .tooHigh hkind hbound (eq_of_beq hgt)
    · cases h
  · rintro (⟨hkind, hbound, h⟩ | ⟨hkind, hbound, h⟩)
    · simp [numberFails, Binary64.lt, hkind, hbound, h]
    · simp [numberFails, Binary64.gt, hkind, hbound, h]

instance (m : Criteria) (s : String) (r : Rule) : Decidable (r.BrokenByText m s) :=
  decidable_of_iff _ textFails_iff

instance (x : Binary64) (r : Rule) : Decidable (r.BrokenByNumber x) :=
  decidable_of_iff _ numberFails_iff

@[simp]
theorem decide_brokenByText (m : Criteria) (s : String) (r : Rule) :
    decide (r.BrokenByText m s) = textFails m s r := by
  rw [Bool.eq_iff_iff, decide_eq_true_iff, textFails_iff]

@[simp]
theorem decide_brokenByNumber (x : Binary64) (r : Rule) :
    decide (r.BrokenByNumber x) = numberFails x r := by
  rw [Bool.eq_iff_iff, decide_eq_true_iff, numberFails_iff]

/-- A text of two characters breaks a rule that asks for three, but not one that asks for a number
of three or more. -/
example : Rule.BrokenByText {} "ab" ⟨.minLength, some (.integer 3), none, none⟩ ∧
    ¬Rule.BrokenByText {} "ab" ⟨.min, some (.integer 3), none, none⟩ := by decide

namespace Declaration

/-! ## What each kind of field asks for -/

/-- **Whether there is no value**, by the notion of each kind of field.  An upload with a rule for
the least number of files leaves it to that rule. -/
def isMissing (d : Declaration) (value : Option Value) : Bool :=
  match d.kind with
  | .text =>
    match value with
    | none | some .null => true
    | some (.text s) => s == ""
    | some _ => false
  | .numeric => !Value.isReady value
  | .boolean => !value.any (· == .bool true)
  | .enumerated =>
    match d.multiple, value with
    | true, some (.list items) => items.isEmpty
    | true, _ => true
    | false, none | false, some .null => true
    | false, some (.text s) => s == ""
    | false, some _ => false
  | .upload => (d.rule? .array).isNone && fileCount value == 0
  | .list => fileCount value == 0
  | .custom => Value.isEmpty value
  | .group | .hidden => false

/-- **Whether a value is of the wrong type**: texts, numbers and lists of records are asked for, and
no other kind of field has a type. -/
def isMistyped (d : Declaration) (value : Option Value) : Bool :=
  match d.kind with
  | .text =>
    match value with
    | none | some .null | some (.text _) => false
    | some _ => true
  | .numeric => Value.isReady value && (value.bind Value.reading?).isNone
  | .list =>
    match value with
    | none | some .null => false
    | some (.list items) => !items.all Value.isRecord
    | some _ => true
  | _ => false

/-- The template for a value of the wrong type. -/
def typeTemplate (m : Messages) (d : Declaration) : String :=
  match d.kind with
  | .numeric => m.number
  | .list => m.listType
  | _ => m.text

/-- **Whether the rules of a field are asked of a value.**  They are asked only of one that is there
and of the right type. -/
def asksRulesOf (d : Declaration) (v : Value) : Bool :=
  match d.kind with
  | .text =>
    match v with
    | .text s => s != ""
    | _ => false
  | .numeric => v.reading?.isSome
  | .boolean | .enumerated | .custom => !v.isNull
  | .upload | .list | .group | .hidden => false

/-- Whether a value breaks a rule that the kind of its field knows, the host's own rules apart. -/
def breaks (m : Criteria) (d : Declaration) (v : Value) (r : Rule) : Bool :=
  match d.kind, v with
  | .text, .text s => decide (r.BrokenByText m s)
  | .numeric, v => v.reading?.any fun x ↦ decide (r.BrokenByNumber x)
  | _, _ => false

/-- The check that a verdict of the host stands for. -/
def verdictCheck (m : Criteria) (d : Declaration) (r : Rule) : Verdict → Check
  | .passes => ⟨false, d.ruleMessage m r⟩
  | .fails => ⟨true, d.ruleMessage m r⟩
  | .failsWith message => ⟨true, message⟩
  | .breaksDown => ⟨true, d.expand m.customError ""⟩

/-- The check that a rule asks for. -/
def ruleCheck (m : Criteria) (d : Declaration) (v : Value) (scope : Record) (r : Rule) : Check :=
  if r.kind = .custom then
    verdictCheck m d r ((r.validator.map fun validator ↦ validator v scope).getD .passes)
  else ⟨d.breaks m v r, d.ruleMessage m r⟩

/-- The checks that the rules of a field ask for, in their order. -/
def ruleChecks (m : Criteria) (d : Declaration) (value : Option Value) (scope : Record) :
    List Check :=
  match value.filter d.asksRulesOf with
  | some v => d.rules.map (d.ruleCheck m v scope)
  | none => []

/-- The checks of the number of items: first that there are enough, then that there are not too
many. -/
def countChecks (m : Criteria) (d : Declaration) (value : Option Value) : List Check :=
  let count := fileCount value
  let tooMany := d.maxItems.toList.map fun bound ↦
    ⟨bound < count, d.expand m.maxItems (toString bound)⟩
  match d.kind with
  | .upload =>
    (d.rule? .array).toList.map (fun r ↦ ⟨r.count?.any (count < ·), d.ruleMessage m r⟩) ++ tooMany
  | .list =>
    d.minItems.toList.map (fun bound ↦ ⟨count < bound, d.expand m.minItems (toString bound)⟩) ++
      tooMany
  | _ => []

/-- **The checks of a field**, in their order. -/
def checks (m : Criteria) (d : Declaration) (value : Option Value) (required : Bool)
    (scope : Record) : List Check :=
  ⟨required && d.isMissing value, d.requiredMessage m⟩ ::
    ⟨d.isMistyped value, d.expand (d.typeTemplate m) ""⟩ ::
      (d.ruleChecks m value scope ++ d.countChecks m value)

/-! ## Rules -/

variable {m : Criteria} {d : Declaration} {value : Option Value} {required : Bool} {scope : Record}

/-- A validator of the host refuses a value if the check of its rule fails. -/
theorem customFailure?_eq (v : Value) {r : Rule} (h : r.kind = .custom) :
    customFailure? m d v scope r =
      if (d.ruleCheck m v scope r).fails then some (d.ruleCheck m v scope r).message else none := by
  rw [customFailure?, ruleCheck, if_pos h]
  cases r.validator with
  | none => rfl
  | some validator =>
    simp only [Option.map_some, Option.getD_some]
    cases validator v scope <;> rfl

/-- The rules of a field fail with the first of their checks that fails. -/
theorem ruleFailure?_eq {v : Value} {fails : Rule → Bool} (h : ∀ r, fails r = d.breaks m v r) :
    ruleFailure? m d fails v scope = firstFailure? (d.rules.map (d.ruleCheck m v scope)) := by
  rw [ruleFailure?, firstFailure?_map]
  congr 1
  funext r
  by_cases hr : r.kind = .custom
  · rw [if_pos hr, customFailure?_eq v hr]
  · rw [if_neg hr, h, ruleCheck, if_neg hr]

theorem ruleChecks_of_asked {v : Value} (h : d.asksRulesOf v = true) :
    d.ruleChecks m (some v) scope = d.rules.map (d.ruleCheck m v scope) := by
  rw [ruleChecks, Option.filter_some, if_pos h]

theorem ruleChecks_of_not_asked (h : ∀ v, value = some v → d.asksRulesOf v = false) :
    d.ruleChecks m value scope = [] := by
  cases value with
  | none => rfl
  | some v => rw [ruleChecks, Option.filter_some, h v rfl]; rfl

/-! ## What some of the checks come to -/

/-- The checks of a field whose value is there and of the right type, and is not counted, are those
that its rules ask for. -/
theorem firstFailure?_checks (hmissing : (required && d.isMissing value) = false)
    (htype : d.isMistyped value = false) (hcounts : d.countChecks m value = []) :
    firstFailure? (d.checks m value required scope) =
      firstFailure? (d.ruleChecks m value scope) := by
  rw [checks, firstFailure?_cons, firstFailure?_cons, hmissing, htype, hcounts, List.append_nil]
  rfl

/-- The checks of a field without a value that could break a rule and that is not counted. -/
theorem firstFailure?_checks_of_not_asked (hasked : ∀ v, value = some v → d.asksRulesOf v = false)
    (hcounts : d.countChecks m value = []) :
    firstFailure? (d.checks m value required scope) =
      if required && d.isMissing value then some (d.requiredMessage m)
      else if d.isMistyped value then some (d.expand (d.typeTemplate m) "") else none := by
  rw [checks, firstFailure?_cons, firstFailure?_cons, ruleChecks_of_not_asked hasked, hcounts]
  rfl

/-- A value that is there and of the right type fails with the first rule that it breaks. -/
theorem ruleFailure?_eq_checks {v : Value} {fails : Rule → Bool}
    (hfails : ∀ r, fails r = d.breaks m v r) (hasked : d.asksRulesOf v = true)
    (hmissing : (required && d.isMissing (some v)) = false)
    (htype : d.isMistyped (some v) = false) (hcounts : d.countChecks m (some v) = []) :
    ruleFailure? m d fails v scope = firstFailure? (d.checks m (some v) required scope) := by
  rw [firstFailure?_checks hmissing htype hcounts, ruleChecks_of_asked hasked,
    ruleFailure?_eq hfails]

/-! ## Each kind of field -/

theorem textFailure?_eq (h : d.kind = .text) :
    textFailure? m d value required scope = firstFailure? (d.checks m value required scope) := by
  have hcounts : d.countChecks m value = [] := by rw [countChecks, h]
  rw [textFailure?.eq_def]
  split
  · rw [firstFailure?_checks_of_not_asked (by simp) hcounts]
    simp [isMissing, isMistyped, h]
  · rw [firstFailure?_checks_of_not_asked (by simp [asksRulesOf, h]) hcounts]
    simp [isMissing, isMistyped, h]
  · rw [firstFailure?_checks_of_not_asked (by simp [asksRulesOf, h]) hcounts]
    simp [isMissing, isMistyped, h]
  · rename_i s hne
    refine ruleFailure?_eq_checks (fun r ↦ by simp [breaks, h]) ?_ ?_ ?_ hcounts
    · simpa [asksRulesOf, h] using hne
    · simpa [isMissing, h] using fun _ ↦ hne
    · simp [isMistyped, h]
  · rename_i v hnull hempty htext
    have hasked : ∀ w, some v = some w → d.asksRulesOf w = false := by
      rintro w ⟨⟩
      cases v <;> simp_all [asksRulesOf]
    rw [firstFailure?_checks_of_not_asked hasked hcounts]
    have hmissing : d.isMissing (some v) = false := by
      cases v <;> simp_all [isMissing]
    have htype : d.isMistyped (some v) = true := by
      cases v <;> simp_all [isMistyped]
    rw [hmissing, htype, typeTemplate, h]
    simp

/-- A numeric field looks at what its value reads as. -/
theorem numericFailure?_eq_elim : numericFailure? m d value required scope =
    if Value.isReady value then
      (value.bind Value.reading?).elim (some (d.expand m.number ""))
        fun x ↦ ruleFailure? m d (numberFails x) (value.getD .null) scope
    else if required then some (d.requiredMessage m) else none := by
  cases value with
  | none => rfl
  | some v =>
    cases v with
    | text s =>
      rw [numericFailure?, Option.bind_some, Value.reading?]
      cases numericText? s <;> rfl
    | _ => rfl

theorem numericFailure?_eq (h : d.kind = .numeric) :
    numericFailure? m d value required scope =
      firstFailure? (d.checks m value required scope) := by
  have hcounts : d.countChecks m value = [] := by rw [countChecks, h]
  have hmissing : d.isMissing value = !Value.isReady value := by rw [isMissing.eq_def, h]
  rw [numericFailure?_eq_elim]
  cases hready : Value.isReady value with
  | false =>
    -- a value that is not there reads as no number, so no rule is asked of it
    have hasked : ∀ v, value = some v → d.asksRulesOf v = false := by
      rintro v rfl
      have := mt Value.isReady_of_reading? (by simpa using hready)
      simpa [asksRulesOf, h] using this
    rw [firstFailure?_checks_of_not_asked hasked hcounts, hmissing]
    simp [isMistyped, h, hready]
  | true =>
    obtain _ | v := value
    · simp [Value.isReady] at hready
    cases hreading : v.reading? with
    | none =>
      have hasked : ∀ w, some v = some w → d.asksRulesOf w = false := by
        rintro w ⟨⟩
        simp [asksRulesOf, h, hreading]
      rw [firstFailure?_checks_of_not_asked hasked hcounts, hmissing]
      simp [isMistyped, typeTemplate, h, hready, hreading]
    | some x =>
      simp only [Option.bind_some, hreading, Option.getD_some, if_true]
      refine ruleFailure?_eq_checks (fun r ↦ ?_) ?_ ?_ ?_ hcounts
      · rw [breaks.eq_def, h]
        simp [hreading]
      · simp [asksRulesOf, h, hreading]
      · simp [hmissing, hready]
      · simp [isMistyped, h, hreading]

/-- A field whose value only has to be there fails if it is not, or by a rule of the host. -/
theorem presenceFailure?_eq {present : Bool}
    (h : d.kind = .boolean ∨ d.kind = .enumerated ∨ d.kind = .custom)
    (hmissing : d.isMissing value = !present) :
    presenceFailure? m d value required present scope =
      firstFailure? (d.checks m value required scope) := by
  have hcounts : d.countChecks m value = [] := by rcases h with h | h | h <;> rw [countChecks, h]
  have htype : d.isMistyped value = false := by
    rcases h with h | h | h <;> rw [isMistyped.eq_def, h]
  have hasks : ∀ v, d.asksRulesOf v = !v.isNull := by
    intro v
    rcases h with h | h | h <;> rw [asksRulesOf.eq_def, h]
  have hbreaks : ∀ v r, false = d.breaks m v r := by
    intro v r
    rcases h with h | h | h <;> rw [breaks.eq_def, h]
  rw [presenceFailure?]
  split
  · rename_i hfails
    rw [checks, firstFailure?_cons, hmissing, if_pos hfails]
  · rename_i hpasses
    have hpresent : (required && d.isMissing value) = false := by simpa [hmissing] using hpasses
    rw [hostFailure?.eq_def]
    split
    · rw [firstFailure?_checks hpresent htype hcounts, ruleChecks_of_not_asked (by simp)]
      rfl
    · rw [firstFailure?_checks hpresent htype hcounts,
        ruleChecks_of_not_asked (by simp [hasks, Value.isNull])]
      rfl
    · rename_i v hnull
      refine ruleFailure?_eq_checks (hbreaks v) ?_ hpresent htype hcounts
      rw [hasks]
      cases v <;> simp_all [Value.isNull]

theorem isMissing_enumerated (h : d.kind = .enumerated) :
    d.isMissing value = !hasChoice d.multiple value := by
  rw [isMissing.eq_def, h]
  cases value with
  | none => cases d.multiple <;> rfl
  | some v => cases d.multiple <;> cases v <;> simp [hasChoice, bne]

/-- The check of a bound on the number of items. -/
theorem firstFailure?_bound {bound : Option Nat} {exceeds : Nat → Bool} {message : Nat → String} :
    firstFailure? (bound.toList.map fun n ↦ ⟨exceeds n, message n⟩) =
      (bound.filter exceeds).map message := by
  cases bound with
  | none => rfl
  | some n =>
    rw [Option.toList_some, List.map_singleton, firstFailure?_cons, Option.filter_some]
    cases exceeds n <;> rfl

theorem uploadFailure?_eq (h : d.kind = .upload) :
    uploadFailure? m d value required = firstFailure? (d.checks m value required scope) := by
  have htype : d.isMistyped value = false := by rw [isMistyped.eq_def, h]
  have hrules : d.ruleChecks m value scope = [] :=
    ruleChecks_of_not_asked fun v _ ↦ by rw [asksRulesOf.eq_def, h]
  rw [checks, firstFailure?_cons, firstFailure?_cons, htype, hrules, List.nil_append, countChecks,
    h, firstFailure?_append, firstFailure?_bound, uploadFailure?]
  cases hrule : d.rule? .array with
  | none =>
    have hmissing : d.isMissing value = (fileCount value == 0) := by
      rw [isMissing.eq_def, h, hrule]
      rfl
    rw [hmissing]
    cases required && fileCount value == 0 <;> rfl
  | some r =>
    -- the rule for the least number takes the place of being required
    have hmissing : d.isMissing value = false := by
      rw [isMissing.eq_def, h, hrule]
      rfl
    rw [hmissing, Bool.and_false, Option.toList_some, List.map_singleton, firstFailure?_cons]
    cases hfew : r.count?.any (fileCount value < ·) <;> simp [hfew, firstFailure?]

/-- **What a single value fails with** is the first of the checks of its field that fails. -/
theorem failure?_eq (h : d.kind ≠ .list) :
    d.failure? m value required scope = firstFailure? (d.checks m value required scope) := by
  cases hkind : d.kind with
  | text => rw [failure?, hkind, textFailure?_eq hkind]
  | numeric => rw [failure?, hkind, numericFailure?_eq hkind]
  | boolean =>
    rw [failure?, hkind]
    exact presenceFailure?_eq (.inl hkind) (by rw [isMissing.eq_def, hkind])
  | enumerated =>
    rw [failure?, hkind]
    exact presenceFailure?_eq (.inr (.inl hkind)) (isMissing_enumerated hkind)
  | custom =>
    rw [failure?, hkind]
    refine presenceFailure?_eq (.inr (.inr hkind)) ?_
    rw [isMissing.eq_def, hkind, Bool.not_not]
  | upload => rw [failure?, hkind, uploadFailure?_eq hkind]
  | list => exact absurd hkind h
  | group | hidden =>
    rw [failure?, hkind, firstFailure?_checks_of_not_asked]
    · simp [isMissing.eq_def, isMistyped.eq_def, hkind]
    · simp [asksRulesOf.eq_def, hkind]
    · rw [countChecks, hkind]

/-! ## Lists -/

/-- The failures of a field itself, what is in the rows of a list apart. -/
def ownFailures (m : Criteria) (d : Declaration) (value : Option Value) (required : Bool)
    (scope : Record) : List String :=
  if d.kind = .list then
    match rowsOf? value with
    | none => [d.expand m.listType ""]
    | some rows =>
      if required && rows.isEmpty then [d.requiredMessage m] else rowCountFailures m d rows.length
  else (d.failure? m value required scope).toList

/-- The rows that are checked one by one: those of a list of records. -/
def rowsIn (d : Declaration) (value : Option Value) : List Record :=
  if d.kind = .list then (rowsOf? value).getD [] else []

theorem getElem?_rowsIn_eq_some_iff {j : Nat} {row : Record} :
    (d.rowsIn value)[j]? = some row ↔ d.kind = .list ∧
      ∃ rows : List Record, value = some (.list (rows.map .record)) ∧ rows[j]? = some row := by
  rw [rowsIn]
  split
  · rename_i hlist
    constructor
    · intro hrow
      cases hrows : rowsOf? value with
      | none => simp [hrows] at hrow
      | some rows =>
        rw [hrows, Option.getD_some] at hrow
        rcases rowsOf?_eq_some_iff.1 hrows with hvalue | ⟨rfl, -⟩
        · exact ⟨hlist, rows, hvalue, hrow⟩
        · simp at hrow
    · rintro ⟨-, rows, hvalue, hrow⟩
      rwa [rowsOf?_eq_some_iff.2 (.inl hvalue), Option.getD_some]
  · rename_i hlist
    simp [hlist]

/-- **The failures of a field** are its own, and of a list those of its rows after them. -/
theorem failuresAt_eq (rowFailures : String → Record → Record → Failures) (path : String) :
    d.failuresAt m rowFailures path value required scope =
      (d.ownFailures m value required scope).map (path, ·) ++
        (d.rowsIn value).zipIdx.flatMap fun (row, i) ↦
          rowFailures (rowPath path i) row (scope.overlay row) := by
  rw [failuresAt, ownFailures, rowsIn]
  by_cases h : d.kind = .list
  · rw [if_pos h, if_pos h, if_pos h, listFailures]
    cases rowsOf? value with
    | none => rfl
    | some rows =>
      simp only [Option.getD_some]
      split
      · rename_i hempty
        rw [List.isEmpty_iff.1 (Bool.and_eq_true_iff.1 hempty).2]
        rfl
      · rfl
  · rw [if_neg h, if_neg h, if_neg h]
    cases d.failure? m value required scope <;> rfl

/-- How many rows a list has, if it is one. -/
theorem fileCount_of_rowsOf? {rows : List Record} (h : rowsOf? value = some rows) :
    fileCount value = rows.length := by
  rcases rowsOf?_eq_some_iff.1 h with rfl | ⟨rfl, rfl | rfl⟩
  · rw [fileCount, List.length_map]
  · rfl
  · rfl

theorem not_all_isRecord_eq (items : List Value) :
    (!items.all Value.isRecord) = (rowsOf? (some (.list items))).isNone := by
  induction items with
  | nil => rfl
  | cons v items ih =>
    rw [rowsOf?] at ih
    rw [rowsOf?, List.mapM_cons, List.all_cons]
    cases v with
    | record row => simpa [Value.isRecord, Option.isSome_bind] using ih
    | _ => rfl

/-- A list is of the wrong type unless it is a list of records, or is not there. -/
theorem isMistyped_list (h : d.kind = .list) :
    d.isMistyped value = (rowsOf? value).isNone := by
  rw [isMistyped.eq_def, h]
  cases value with
  | none => rfl
  | some v =>
    cases v with
    | list items => exact not_all_isRecord_eq items
    | _ => rfl

/-- What is no list of records is there. -/
theorem fileCount_ne_zero (h : rowsOf? value = none) : fileCount value ≠ 0 := by
  cases value with
  | none => simp [rowsOf?] at h
  | some v =>
    cases v with
    | null => simp [rowsOf?] at h
    | list items =>
      rintro hcount
      rw [List.eq_nil_of_length_eq_zero hcount] at h
      simp [rowsOf?] at h
    | _ => exact Nat.one_ne_zero

/-- **A field fails with the first of its checks that fails**, what is in the rows of a list
apart. -/
theorem head?_ownFailures :
    (d.ownFailures m value required scope).head? =
      firstFailure? (d.checks m value required scope) := by
  rw [ownFailures]
  by_cases h : d.kind = .list
  · have hrules : d.ruleChecks m value scope = [] :=
      ruleChecks_of_not_asked fun v _ ↦ by simp [asksRulesOf.eq_def, h]
    have hmissing : d.isMissing value = (fileCount value == 0) := by rw [isMissing.eq_def, h]
    rw [if_pos h, checks, firstFailure?_cons, firstFailure?_cons, hrules, List.nil_append,
      isMistyped_list h, countChecks, h, firstFailure?_append, firstFailure?_bound,
      firstFailure?_bound, hmissing]
    cases hrows : rowsOf? value with
    | none => simp [fileCount_ne_zero hrows, typeTemplate, h]
    | some rows =>
      rw [fileCount_of_rowsOf? hrows]
      have hsame : (required && rows.length == 0) = (required && rows.isEmpty) := by
        cases rows <;> rfl
      dsimp only
      rw [hsame]
      cases required && rows.isEmpty with
      | true => rfl
      | false => simp [rowCountFailures, List.head?_append]
  · rw [if_neg h, failure?_eq h, Option.head?_toList]

end Declaration

end ReactiveForm
