import ReactiveForm.Condition.Comparator
import ReactiveForm.Proofs.Decimals
import ReactiveForm.Proofs.Evaluation

/-!
# The laws of comparing

The comparators that ask for equality and those that ask for an order go two ways: the former
compare two values that are not both numbers part by part, the latter do not answer then.  On
numbers they compare the same thing, the rational numbers which the decimals denote
(`Value.quantity?`), and so they fit together, across integers and doubles and however large the
integers are.

`strictEquals_iff` and `Comparator.holds_iff` say that in one line for each of the two ways.  All
that is said of comparators together follows from these two and from the order of the rational
numbers.

Nothing of this is about rounding: an integer is compared with a double as it is, and not as the
double it would be rounded to.  This is why equality stays transitive across both kinds of numbers,
as it would not if two integers next to each other were equal to one double between them.
-/

set_option autoImplicit false
namespace ReactiveForm

namespace Value

variable {u v w : Value}

/-! ## Equality part by part

`Value.same` compares values of the same kind and goes into lists and records.  The proofs go along
the values, with a companion for the items of a list and one for the fields of a record. -/

mutual

theorem same_comm : ∀ v w : Value, v.same w = w.same v
  | .null, w => by cases w <;> rfl
  | .bool a, w => by cases w <;> simp [same, Bool.beq_comm]
  | .integer n, w => by cases w <;> simp [same, Bool.beq_comm]
  | .float x, w => by cases w <;> simp [same, Finite64.same, Bool.beq_comm]
  | .text s, w => by cases w <;> simp [same, Bool.beq_comm]
  | .list items, w => by
    cases w with
    | list items' => rw [same, same, sameItems_comm items items']
    | _ => rfl
  | .record fields, w => by
    cases w with
    | record fields' => rw [same, same, sameFields_comm fields fields']
    | _ => rfl

theorem sameItems_comm : ∀ items items' : List Value,
    sameItems items items' = sameItems items' items
  | [], items' => by cases items' <;> rfl
  | v :: items, [] => rfl
  | v :: items, v' :: items' => by
    rw [sameItems, sameItems, same_comm v v', sameItems_comm items items']

theorem sameFields_comm : ∀ fields fields' : List (String × Value),
    sameFields fields fields' = sameFields fields' fields
  | [], fields' => by cases fields' <;> rfl
  | (n, v) :: fields, [] => rfl
  | (n, v) :: fields, (n', v') :: fields' => by
    rw [sameFields, sameFields, same_comm v v', sameFields_comm fields fields', Bool.beq_comm]

end

mutual

theorem same_trans : ∀ u v w : Value, u.same v = true → v.same w = true → u.same w = true
  | .null, v, w => by cases v <;> cases w <;> simp [same]
  | .bool a, v, w => by cases v <;> cases w <;> simp +contextual [same]
  | .integer n, v, w => by cases v <;> cases w <;> simp +contextual [same]
  | .float x, v, w => by cases v <;> cases w <;> simp +contextual [same, Finite64.same]
  | .text s, v, w => by cases v <;> cases w <;> simp +contextual [same]
  | .list us, v, w => by
    cases v with
    | list vs =>
      cases w with
      | list ws => exact sameItems_trans us vs ws
      | _ => exact fun _ h ↦ h
    | _ => exact fun h ↦ (Bool.false_ne_true h).elim
  | .record us, v, w => by
    cases v with
    | record vs =>
      cases w with
      | record ws => exact sameFields_trans us vs ws
      | _ => exact fun _ h ↦ h
    | _ => exact fun h ↦ (Bool.false_ne_true h).elim

theorem sameItems_trans : ∀ us vs ws : List Value,
    sameItems us vs = true → sameItems vs ws = true → sameItems us ws = true
  | [], vs, ws => by cases vs <;> simp [sameItems]
  | u :: us, [], ws => by simp [sameItems]
  | u :: us, v :: vs, [] => by simp [sameItems]
  | u :: us, v :: vs, w :: ws => by
    simp only [sameItems, Bool.and_eq_true]
    exact fun h h' ↦ ⟨same_trans u v w h.1 h'.1, sameItems_trans us vs ws h.2 h'.2⟩

theorem sameFields_trans : ∀ us vs ws : List (String × Value),
    sameFields us vs = true → sameFields vs ws = true → sameFields us ws = true
  | [], vs, ws => by cases vs <;> simp [sameFields]
  | u :: us, [], ws => by simp [sameFields]
  | u :: us, v :: vs, [] => by simp [sameFields]
  | (k, u) :: us, (l, v) :: vs, (m, w) :: ws => by
    simp only [sameFields, Bool.and_eq_true, beq_iff_eq]
    exact fun h h' ↦ ⟨⟨h.1.1.trans h'.1.1, same_trans u v w h.1.2 h'.1.2⟩,
      sameFields_trans us vs ws h.2 h'.2⟩

end

/-! ## Numbers -/

/-- Whether a value is a number, written either way. -/
def isNumber : Value → Bool
  | .integer _ | .float _ => true
  | _ => false

/-- **The number that is compared**, if the value is one. -/
def quantity? (v : Value) : Option ℚ := v.decimal?.map Decimal.value

/-- The values with a quantity are the numbers. -/
theorem isSome_quantity? (v : Value) : v.quantity?.isSome = v.isNumber := by
  cases v <;> rfl

theorem exists_quantity (h : v.isNumber = true) : ∃ q, v.quantity? = some q :=
  Option.isSome_iff_exists.1 (v.isSome_quantity?.trans h)

/-- A value is only the same as a number if it is a number. -/
theorem isNumber_of_same (h : v.same w = true) : v.isNumber = w.isNumber := by
  cases v <;> cases w <;> first | rfl | cases h

end Value

open Value

variable {u v w v' w' : Value} {p q : ℚ}

/-! ## Equality

Two numbers are equal if their quantities are, whichever way they are held, and all other values if
they are the same part by part.  The two ways do not meet: a number is the same as no other kind of
value. -/

/-- Numbers are equal if their quantities are. -/
theorem strictEquals_of_quantity (hv : v.quantity? = some p) (hw : w.quantity? = some q) :
    strictEquals v w = true ↔ p = q := by
  obtain ⟨x, hx, rfl⟩ := Option.map_eq_some_iff.1 hv
  obtain ⟨y, hy, rfl⟩ := Option.map_eq_some_iff.1 hw
  rw [strictEquals, hx, hy]
  simp only [beq_iff_eq, Decimal.compare_eq_eq]

/-- Where one of them is no number, values are compared part by part. -/
theorem strictEquals_of_no_quantity (h : v.quantity? = none ∨ w.quantity? = none) :
    strictEquals v w = v.same w := by
  rw [quantity?, quantity?, Option.map_eq_none_iff, Option.map_eq_none_iff] at h
  rw [strictEquals]
  split
  · simp_all
  · rfl

/-- **What equality asks**: of two numbers whether they are the same number, and of values without a
number whether they have the same parts. -/
theorem strictEquals_iff : strictEquals v w = true ↔
    v.quantity? = w.quantity? ∧ (v.quantity? = none → v.same w = true) := by
  cases hv : v.quantity? with
  | none =>
    rw [strictEquals_of_no_quantity (.inl hv)]
    refine ⟨fun h ↦ ⟨?_, fun _ ↦ h⟩, fun h ↦ h.2 rfl⟩
    have hw := isNumber_of_same h
    rw [← isSome_quantity?, ← isSome_quantity?, hv] at hw
    exact (Option.isSome_eq_false_iff.1 hw.symm |> Option.isNone_iff_eq_none.1).symm
  | some p =>
    cases hw : w.quantity? with
    | none =>
      rw [strictEquals_of_no_quantity (.inr hw)]
      refine ⟨fun h ↦ ?_, fun h ↦ by simp at h⟩
      have := isNumber_of_same h
      rw [← isSome_quantity?, ← isSome_quantity?, hv, hw] at this
      simp at this
    | some q =>
      rw [strictEquals_of_quantity hv hw]
      simp

theorem strictEquals_self (v : Value) : strictEquals v v = true :=
  strictEquals_iff.2 ⟨rfl, fun _ ↦ v.same_self⟩

theorem strictEquals_symm (h : strictEquals v w = true) : strictEquals w v = true := by
  rw [strictEquals_iff] at h ⊢
  exact ⟨h.1.symm, fun hnone ↦ (same_comm w v).trans (h.2 (h.1.trans hnone))⟩

/-- Equality is transitive, also where integers and doubles meet. -/
theorem strictEquals_trans (h : strictEquals u v = true) (h' : strictEquals v w = true) :
    strictEquals u w = true := by
  rw [strictEquals_iff] at h h' ⊢
  exact ⟨h.1.trans h'.1, fun hnone ↦
    same_trans u v w (h.2 hnone) (h'.2 (h.1.symm.trans hnone))⟩

/-! ## Order

The comparators that ask for an order are told by the relation of quantities that they stand for,
and do not hold if one side has none. -/

namespace Comparator

variable {c : Comparator} {actual : Option Value} {operand : Value}

/-- The comparators that ask for an order. -/
def orderings : List Comparator := [.greaterThan, .atLeast, .lessThan, .atMost]

/-- The orders that such a comparator accepts. -/
def accepts : Comparator → Ordering → Bool
  | .greaterThan, o => o == .gt
  | .atLeast, o => o != .lt
  | .lessThan, o => o == .lt
  | .atMost, o => o != .gt
  | _, _ => false

/-- What such a comparator asks of two numbers. -/
def Relates : Comparator → ℚ → ℚ → Prop
  | .greaterThan, p, q => q < p
  | .atLeast, p, q => q ≤ p
  | .lessThan, p, q => p < q
  | .atMost, p, q => p ≤ q
  | _, _, _ => False

/-- What a comparator accepts of an order of decimals is its relation, of what they denote. -/
theorem accepts_compare (c : Comparator) (x y : Decimal) :
    c.accepts (x.compare y) = true ↔ c.Relates x.value y.value := by
  cases c <;>
    simp [accepts, Relates, Decimal.compare_eq_lt, Decimal.compare_eq_gt, bne_iff_ne]

theorem holds_of_mem_orderings (hc : c ∈ orderings) : c.holds actual operand =
    ((actual.bind fun v ↦ numericOrder? v operand).map c.accepts).getD false := by
  cases c <;> first | rfl | simp [orderings] at hc

theorem numericOrder?_eq_some_iff {o : Ordering} : numericOrder? v w = some o ↔
    ∃ x y, v.decimal? = some x ∧ w.decimal? = some y ∧ x.compare y = o := by
  rw [numericOrder?]
  split
  · simp [*]
  · rename_i hnone
    exact ⟨fun h ↦ (nomatch h), fun ⟨x, y, hx, hy, _⟩ ↦ (hnone x y hx hy).elim⟩

/-- **What an order asks**: that there are two numbers, and that they are in the order. -/
theorem holds_iff (hc : c ∈ orderings) : c.holds actual operand = true ↔
    ∃ v p q, actual = some v ∧ v.quantity? = some p ∧ operand.quantity? = some q ∧
      c.Relates p q := by
  rw [holds_of_mem_orderings hc]
  constructor
  · intro h
    cases actual with
    | none => cases h
    | some v =>
      rw [Option.bind_some] at h
      cases horder : numericOrder? v operand with
      | none =>
        rw [horder] at h
        cases h
      | some o =>
        obtain ⟨x, y, hx, hy, rfl⟩ := numericOrder?_eq_some_iff.1 horder
        rw [horder] at h
        exact ⟨v, x.value, y.value, rfl, congrArg (Option.map Decimal.value) hx,
          congrArg (Option.map Decimal.value) hy, (accepts_compare c x y).1 h⟩
  · rintro ⟨v, p, q, rfl, hv, hw, h⟩
    obtain ⟨x, hx, rfl⟩ := Option.map_eq_some_iff.1 hv
    obtain ⟨y, hy, rfl⟩ := Option.map_eq_some_iff.1 hw
    rw [Option.bind_some, numericOrder?_eq_some_iff.2 ⟨x, y, hx, hy, rfl⟩]
    exact (accepts_compare c x y).2 h

/-- **A comparator that asks for an order** holds between numbers in its relation, and only so. -/
theorem holds_some_iff (hc : c ∈ orderings) : c.holds (some v) w = true ↔
    ∃ p q, v.quantity? = some p ∧ w.quantity? = some q ∧ c.Relates p q := by
  rw [holds_iff hc]
  exact ⟨fun ⟨_, p, q, hsome, h⟩ ↦ ⟨p, q, Option.some.inj hsome ▸ h⟩,
    fun ⟨p, q, h⟩ ↦ ⟨v, p, q, rfl, h⟩⟩

/-- **Two numbers are compared as rational numbers**, by equality and by the orders alike. -/
theorem exists_quantities (hv : v.isNumber = true) (hw : w.isNumber = true) : ∃ p q : ℚ,
    (equals.holds (some v) w = true ↔ p = q) ∧
      ∀ c ∈ orderings, c.holds (some v) w = true ↔ c.Relates p q := by
  obtain ⟨p, hp⟩ := exists_quantity hv
  obtain ⟨q, hq⟩ := exists_quantity hw
  refine ⟨p, q, strictEquals_of_quantity hp hq, fun c hc ↦ ?_⟩
  rw [holds_some_iff hc]
  simp [hp, hq]

theorem Relates.trans {r : ℚ} (h : c.Relates p q) (h' : c.Relates q r) : c.Relates p r := by
  cases c
  case greaterThan => exact lt_trans h' h
  case atLeast => exact le_trans h' h
  case lessThan => exact lt_trans h h'
  case atMost => exact le_trans h h'
  all_goals exact h.elim

/-- **The orders are transitive.** -/
theorem holds_trans (hc : c ∈ orderings) (h : c.holds (some u) v = true)
    (h' : c.holds (some v) w = true) : c.holds (some u) w = true := by
  rw [holds_some_iff hc] at h h' ⊢
  obtain ⟨p, q, hu, hv, hpq⟩ := h
  obtain ⟨q', r, hv', hw, hqr⟩ := h'
  cases hv.symm.trans hv'
  exact ⟨p, r, hu, hw, hpq.trans hqr⟩

/-- Greater is less, the other way round. -/
theorem greaterThan_holds_swap (v w : Value) :
    greaterThan.holds (some v) w = lessThan.holds (some w) v := by
  rw [Bool.eq_iff_iff, holds_some_iff (by decide), holds_some_iff (by decide)]
  exact ⟨fun ⟨p, q, hv, hw, h⟩ ↦ ⟨q, p, hw, hv, h⟩, fun ⟨q, p, hw, hv, h⟩ ↦ ⟨p, q, hv, hw, h⟩⟩

/-- **Equal values are not told apart by an order.** -/
theorem holds_congr (hc : c ∈ orderings) (h : strictEquals v v' = true)
    (h' : strictEquals w w' = true) : c.holds (some v) w = c.holds (some v') w' := by
  rw [Bool.eq_iff_iff, holds_some_iff hc, holds_some_iff hc, (strictEquals_iff.1 h).1,
    (strictEquals_iff.1 h').1]

/-- **Without two numbers there is no order.** -/
theorem holds_eq_false (hc : c ∈ orderings)
    (h : ∀ v, actual = some v → v.isNumber = true → operand.isNumber = false) :
    c.holds actual operand = false := by
  rw [Bool.eq_false_iff, Ne, holds_iff hc]
  rintro ⟨v, p, q, rfl, hv, hw, _⟩
  have hnumber := h v rfl (by rw [← isSome_quantity?, hv]; rfl)
  rw [← isSome_quantity?, hw] at hnumber
  cases hnumber

/-- **Two numbers are in exactly one of the three relations.** -/
theorem existsUnique_holds (hv : v.isNumber = true) (hw : w.isNumber = true) :
    ∃! c, c ∈ [lessThan, equals, greaterThan] ∧ c.holds (some v) w = true := by
  obtain ⟨p, q, hequal, hrelates⟩ := exists_quantities hv hw
  have hless : lessThan.holds (some v) w = true ↔ p < q := hrelates _ (by decide)
  have hgreater : greaterThan.holds (some v) w = true ↔ q < p := hrelates _ (by decide)
  simp only [List.mem_cons, List.not_mem_nil, or_false]
  rcases lt_trichotomy p q with hlt | heq | hgt
  · refine ⟨lessThan, ⟨.inl rfl, hless.2 hlt⟩, ?_⟩
    rintro _ ⟨rfl | rfl | rfl, hholds⟩
    · rfl
    · exact absurd (hequal.1 hholds) hlt.ne
    · exact absurd (hgreater.1 hholds) hlt.not_gt
  · refine ⟨equals, ⟨.inr (.inl rfl), hequal.2 heq⟩, ?_⟩
    rintro _ ⟨rfl | rfl | rfl, hholds⟩
    · exact absurd (hless.1 hholds) heq.not_lt
    · rfl
    · exact absurd (hgreater.1 hholds) heq.not_gt
  · refine ⟨greaterThan, ⟨.inr (.inr rfl), hgreater.2 hgt⟩, ?_⟩
    rintro _ ⟨rfl | rfl | rfl, hholds⟩
    · exact absurd (hless.1 hholds) hgt.not_gt
    · exact absurd (hequal.1 hholds) hgt.ne'
    · rfl

/-- Among numbers, at least is greater or equal. -/
theorem atLeast_holds (hv : v.isNumber = true) (hw : w.isNumber = true) :
    atLeast.holds (some v) w = (greaterThan.holds (some v) w || equals.holds (some v) w) := by
  obtain ⟨p, q, hequal, hrelates⟩ := exists_quantities hv hw
  rw [Bool.eq_iff_iff, Bool.or_eq_true, hequal, hrelates _ (by decide), hrelates _ (by decide),
    eq_comm]
  exact le_iff_lt_or_eq

/-- Among numbers, at most is less or equal. -/
theorem atMost_holds (hv : v.isNumber = true) (hw : w.isNumber = true) :
    atMost.holds (some v) w = (lessThan.holds (some v) w || equals.holds (some v) w) := by
  obtain ⟨p, q, hequal, hrelates⟩ := exists_quantities hv hw
  rw [Bool.eq_iff_iff, Bool.or_eq_true, hequal, hrelates _ (by decide), hrelates _ (by decide)]
  exact le_iff_lt_or_eq

/-! ## Membership -/

/-- Membership is equality with one of the items. -/
theorem isIn_holds_iff {items : List Value} : isIn.holds actual (.list items) = true ↔
    ∃ item ∈ items, equals.holds actual item = true := by
  cases actual with
  | none => simp [holds, memberOf?]
  | some v => simp [holds, memberOf?]

theorem isNotIn_holds (actual : Option Value) (items : List Value) :
    isNotIn.holds actual (.list items) = !isIn.holds actual (.list items) := rfl

end Comparator

/-- **The comparators fit together.**  Equality is an equivalence.  Two numbers, integers and
doubles alike, are in exactly one of the relations below, equal and above; the orders are
transitive, do not tell equal values apart, and the weak ones are the strict ones or equality.
There is no order without two numbers.  Inequality denies equality; being in a list is being equal
to one of its items, and not being in it denies that, whether there is a value or not. -/
theorem comparators_fit :
    (∀ v, strictEquals v v = true) ∧
    (∀ v w, strictEquals v w = true → strictEquals w v = true) ∧
    (∀ u v w, strictEquals u v = true → strictEquals v w = true → strictEquals u w = true) ∧
    (∀ v w, Comparator.equals.holds (some v) w = strictEquals v w) ∧
    (∀ v w : Value, v.isNumber = true → w.isNumber = true →
      (∃! c, c ∈ [Comparator.lessThan, .equals, .greaterThan] ∧ c.holds (some v) w = true) ∧
      Comparator.atLeast.holds (some v) w =
        (Comparator.greaterThan.holds (some v) w || Comparator.equals.holds (some v) w) ∧
      Comparator.atMost.holds (some v) w =
        (Comparator.lessThan.holds (some v) w || Comparator.equals.holds (some v) w)) ∧
    (∀ v w, Comparator.greaterThan.holds (some v) w = Comparator.lessThan.holds (some w) v) ∧
    (∀ c ∈ [Comparator.greaterThan, .atLeast, .lessThan, .atMost],
      (∀ u v w, c.holds (some u) v = true → c.holds (some v) w = true →
        c.holds (some u) w = true) ∧
      (∀ v v' w w', strictEquals v v' = true → strictEquals w w' = true →
        c.holds (some v) w = c.holds (some v') w') ∧
      (∀ actual operand, (∀ v, actual = some v → v.isNumber = true → operand.isNumber = false) →
        c.holds actual operand = false)) ∧
    (∀ actual operand, Comparator.notEquals.holds actual operand =
      !Comparator.equals.holds actual operand) ∧
    (∀ actual items, Comparator.isIn.holds actual (.list items) = true ↔
      ∃ item ∈ items, Comparator.equals.holds actual item = true) ∧
    (∀ actual items, Comparator.isNotIn.holds actual (.list items) =
      !Comparator.isIn.holds actual (.list items)) :=
  ⟨strictEquals_self, fun _ _ ↦ strictEquals_symm, fun _ _ _ ↦ strictEquals_trans, fun _ _ ↦ rfl,
    fun _ _ hv hw ↦ ⟨Comparator.existsUnique_holds hv hw, Comparator.atLeast_holds hv hw,
      Comparator.atMost_holds hv hw⟩,
    Comparator.greaterThan_holds_swap,
    fun _ hc ↦ ⟨fun _ _ _ ↦ Comparator.holds_trans hc, fun _ _ _ _ ↦ Comparator.holds_congr hc,
      fun _ _ ↦ Comparator.holds_eq_false hc⟩,
    fun _ _ ↦ rfl, fun _ _ ↦ Comparator.isIn_holds_iff, Comparator.isNotIn_holds⟩

/-- The laws at work where doubles are no longer exact: an integer and the double that are equal,
and the next integer, which that double is not confused with. -/
theorem comparators_fit_at_large_numbers : ∃ x : Finite64,
    Binary64.ofInt 9007199254740992 = .finite x ∧
      strictEquals (.integer 9007199254740992) (.float x) = true ∧
      strictEquals (.float x) (.integer 9007199254740992) = true ∧
      Comparator.greaterThan.holds (some (.integer 9007199254740993)) (.float x) = true ∧
      ∃! c, c ∈ [Comparator.lessThan, .equals, .greaterThan] ∧
        c.holds (some (.integer 9007199254740993)) (.float x) = true := by
  obtain ⟨_, hsymm, _, _, hnumbers, _⟩ := comparators_fit
  refine ⟨(Binary64.ofInt 9007199254740992).finite?.get (by decide +kernel), by decide +kernel,
    by decide +kernel, hsymm _ _ (by decide +kernel), by decide +kernel, (hnumbers _ _ rfl rfl).1⟩

end ReactiveForm
