import ReactiveForm.Proofs.Outcome
import ReactiveForm.Proofs.Write
import ReactiveForm.Schema.Field

/-!
# What a computation depends on, and what it returns

Three things about a single evaluation that everything said about recomputing rests on.

* **What it depends on.**  A computation reads the values of its inputs and nothing else
  (`Computation.evaluate_congr`).  The expression sees a scope that is made from these values alone,
  and so does the question whether all of them are there.
* **What it returns.**  Among values as a host holds them it returns one
  (`Computation.evaluate_wellFormed`): what an expression does not build itself it takes whole out
  of what it reads, and what it builds are numbers, texts and truth values, of which there are no
  ill-formed ones.
* **When its result counts as new.**  A value never differs materially from itself, if the tolerance
  is a number that is not negative (`changesMaterially_self`).  Without that, a computed field could
  be written again and again.

Nothing is said here about what an expression means; only `Expr.eval_wellFormed` goes through the
syntax, with a case for each way to build an expression.
-/

set_option autoImplicit false
namespace ReactiveForm

/-! ## Equality

Values are compared by a function of their own, not by `=`: floating-point numbers are the same if
they are equal as numbers. -/

namespace Value

mutual

/-- A value is the same as itself. -/
theorem same_self : ∀ v : Value, v.same v = true
  | .null => rfl
  | .bool _ => by simp [same]
  | .integer _ => by simp [same]
  | .float x => by simp [same, Finite64.same]
  | .text _ => by simp [same]
  | .list items => by rw [same, sameItems_self items]
  | .record fields => by rw [same, sameFields_self fields]

theorem sameItems_self : ∀ items : List Value, sameItems items items = true
  | [] => rfl
  | v :: items => by rw [sameItems, same_self v, sameItems_self items]; rfl

theorem sameFields_self : ∀ fields : List (String × Value), sameFields fields fields = true
  | [] => rfl
  | (_, v) :: fields => by simp [sameFields, same_self v, sameFields_self fields]

end

end Value

@[simp] theorem sameValue_self (x : Option Value) : sameValue x x = true := by
  cases x with
  | none => rfl
  | some v => exact v.same_self

/-- The same as an integer is that integer alone, not a floating-point number equal to it. -/
theorem sameValue_integer_iff {x : Option Value} {n : Int} :
    sameValue x (some (.integer n)) = true ↔ x = some (.integer n) := by
  cases x with
  | none => simp [sameValue]
  | some v => cases v <;> simp [sameValue, BEq.beq, Value.same]

/-! ## Material change

Two numbers differ materially if they are further apart than the tolerance, and any other two values
if they are not the same. -/

/-- A finite number minus itself is a zero; its sign does not matter here. -/
theorem Binary64.sub_self_of_finite (a : Finite64) :
    ∃ negative, (finite a).sub (finite a) = zero negative := by
  have hsum : a.signed + a.neg.signed = 0 := by
    rw [Finite64.signed, Finite64.signed, Finite64.neg]
    cases h : a.negative with
    | true => simp only [if_true, Bool.not_true, Bool.false_eq_true, if_false]; omega
    | false => simp only [if_true, Bool.not_false, Bool.false_eq_true, if_false]; omega
  exact ⟨a.negative && a.neg.negative, by simp only [sub, neg, add, hsum, if_true]⟩

/-- A number is no further from itself than any tolerance that is not negative. -/
theorem Binary64.gt_abs_sub_self (x : Binary64) {e : Finite64} (he : 0 ≤ e.signed) :
    (x.sub x).abs.gt (.finite e) = false := by
  cases x with
  | nan => rfl
  -- infinities have no difference, and what is no number exceeds nothing
  | infinite s => cases s <;> rfl
  | finite a =>
    obtain ⟨negative, hzero⟩ := sub_self_of_finite a
    have hgt : compare (0 : Int) e.signed ≠ .gt := by
      rw [ne_eq, Int.compare_eq_gt]
      omega
    rw [hzero, zero, abs, gt, compare?]
    simpa [Finite64.signed] using hgt

/-- **A value does not differ materially from itself.** -/
theorem changesMaterially_self (x : Option Value) {e : Finite64} (he : 0 ≤ e.signed) :
    changesMaterially x x (.finite e) = false := by
  rw [changesMaterially]
  cases x.bind Value.number? with
  | none => simp
  | some n => exact n.gt_abs_sub_self he

/-! ## What is read

An evaluation looks at the values twice: to see whether all inputs are there, and to bring them into
scope. -/

/-- The scope is made from the values at the inputs. -/
theorem scopeOf_congr {values other : Record} {paths : List String}
    (h : ∀ path ∈ paths, values.at? path = other.at? path) :
    scopeOf values paths = scopeOf other paths := by
  rw [scopeOf, scopeOf, List.map_congr_left fun path hpath ↦ by rw [h path hpath]]

/-- Whether the inputs are there depends on the values at the inputs. -/
theorem allReady_congr {values other : Record} {paths : List String}
    (h : ∀ path ∈ paths, values.at? path = other.at? path) :
    allReady values paths = allReady other paths := by
  rw [allReady, allReady, Bool.eq_iff_iff, List.all_eq_true, List.all_eq_true]
  exact forall₂_congr fun path hpath ↦ by rw [h path hpath]

/-- **A computation reads its inputs only.** -/
theorem Computation.evaluate_congr {c : Computation} {values other : Record}
    (h : ∀ path ∈ c.inputs, values.at? path = other.at? path) :
    c.evaluate values = c.evaluate other := by
  rw [evaluate, evaluate]
  split
  · rw [Expression.evaluate, Expression.evaluate, allReady_congr h, scopeOf_congr h]
  · rfl

/-- A computation of one input is told by the value of that input. -/
theorem Computation.evaluate_of_inputs {c : Computation} {values : Record} {name : String}
    {v : Value} {n : Int} (hinputs : c.inputs = [name])
    (hsame : sameValue (c.evaluate [(name, v)]) (some (.integer n)) = true)
    (h : values.at? name = some v) : c.evaluate values = some (.integer n) := by
  have hreads : ∀ path ∈ c.inputs, values.at? path = Record.at? [(name, v)] path := by
    intro path hpath
    rw [hinputs, List.mem_singleton] at hpath
    rw [hpath, h]
    simp [Record.at?, Table.find?]
  rw [evaluate_congr hreads, sameValue_integer_iff.1 hsame]

/-! ## What is returned

Inside an expression there are operands.  Only `Operand.data` holds a value of the form, a list or a
record, so this is the only case in which anything has to be shown. -/

/-- An operand as a host could hold it. -/
def Operand.WellFormed : Operand → Prop
  | .data v => v.WellFormed
  | _ => True

/-- A scope of operands as a host could hold them. -/
def Scope.WellFormed (scope : Scope) : Prop :=
  ∀ name a, Table.find? scope name = some a → a.WellFormed

/-- What is found one step down was there as a whole. -/
theorem Value.WellFormed.child? {v w : Value} (h : v.WellFormed) {segment : String}
    (hw : v.child? segment = some w) : w.WellFormed := by
  cases h with
  | list hlength hitems =>
    obtain ⟨i, -, hi⟩ := Option.bind_eq_some_iff.1 hw
    exact hitems w (List.mem_of_getElem? hi)
  | record hordered hfields => exact Value.WellFormed.find? (.record hordered hfields) hw
  | _ => simp [Value.child?] at hw

/-- What is found any number of steps down was there as a whole. -/
theorem Value.WellFormed.descend? {v w : Value} (h : v.WellFormed) {path : List String}
    (hw : v.descend? path = some w) : w.WellFormed := by
  induction path generalizing v with
  | nil => exact Option.some.inj hw ▸ h
  | cons segment rest ih =>
    obtain ⟨u, hu, hw⟩ := Option.bind_eq_some_iff.1 hw
    exact ih (h.child? hu) hw

/-- What is found under a path is a value as a host could hold it, whether it is held there under
the whole path or inside other values. -/
theorem Record.WellFormed.at? {values : Record} (h : values.WellFormed) {path : String}
    {v : Value} (hv : values.at? path = some v) : v.WellFormed := by
  rw [Record.at?] at hv
  split at hv
  · rename_i w hw
    exact Option.some.inj hv ▸ h.find? hw
  · exact Value.WellFormed.descend? h hv

namespace Operand

theorem wellFormed_ofValue {v : Value} (h : v.WellFormed) : (ofValue v).WellFormed := by
  cases v with
  | list items => exact h
  | record fields => exact h
  | _ => trivial

/-- An input comes into scope as a number if it is the text of one, and otherwise as it is. -/
theorem wellFormed_ofDependency {x : Option Value} (h : ∀ v, x = some v → v.WellFormed) :
    (ofDependency x).WellFormed := by
  cases x with
  | none => trivial
  | some v =>
    cases v with
    | null => trivial
    | text s =>
      rw [ofDependency]
      cases numericText? s <;> trivial
    | _ => exact wellFormed_ofValue (h _ rfl)

/-- A member of an operand is taken out of its data; that of anything else is null, and lengths are
numbers. -/
theorem WellFormed.member {a : Operand} (h : a.WellFormed) (property : String) :
    (a.member property).WellFormed := by
  have hchild : ∀ v : Value, v.WellFormed →
      (((v.child? property).map ofValue).getD .null).WellFormed := by
    intro v hv
    cases hw : v.child? property with
    | none => trivial
    | some w => exact wellFormed_ofValue (hv.child? hw)
  cases a with
  | text s =>
    rw [Operand.member]
    split <;> trivial
  | data v =>
    cases v with
    | list items =>
      rw [Operand.member]
      split
      · trivial
      · exact hchild _ h
    | _ => exact hchild _ h
  | _ => trivial

/-- An operand that can be returned is returned as a value that a host could hold. -/
theorem WellFormed.toValue? {a : Operand} (h : a.WellFormed) {v : Value}
    (hv : a.toValue? = some v) : v.WellFormed := by
  cases a with
  | number x =>
    cases x with
    | finite x =>
      obtain rfl := Option.some.inj hv
      cases x.integer? <;> constructor
    | _ => simp [Operand.toValue?, Binary64.toValue?] at hv
  | null => simp [Operand.toValue?] at hv
  | data w => exact Option.some.inj hv ▸ h
  | _ =>
    obtain rfl := Option.some.inj hv
    constructor

/-- Rounding applies to numbers only, and numbers are always well-formed. -/
theorem WellFormed.settle {a : Operand} (h : a.WellFormed) {places : Option Nat} {mode : Rounding}
    {v : Value} (hv : a.settle places mode = some v) : v.WellFormed := by
  have hnumber : ∀ {x : Binary64}, x.toValue? = some v → v.WellFormed := fun {x} hx ↦
    WellFormed.toValue? (a := .number x) trivial hx
  cases a with
  | number x =>
    simp only [Operand.settle] at hv
    split at hv
    · cases places with
      | none => exact hnumber hv
      | some places =>
        obtain ⟨y, -, hy⟩ := Option.bind_eq_some_iff.1 hv
        exact hnumber hy
    · simp at hv
  | _ => exact h.toValue? hv

end Operand

/-- **Expressions evaluate to operands as a host could hold them.**  The induction is along the
expression.  Data comes from names, members, and the branches that are passed on; a call or an
operator makes a number, a text or a truth value. -/
theorem Expr.eval_wellFormed {scope : Scope} (hscope : scope.WellFormed) :
    ∀ (e : Expr) {a : Operand}, e.eval scope = .ok a → a.WellFormed
  | .literal l, a, h => by
    cases l <;> exact Except.ok.inj h ▸ trivial
  | .name s, a, h => by
    rw [eval] at h
    split at h
    · rename_i b hb
      exact Except.ok.inj h ▸ hscope s b hb
    · cases h
  | .member object property, a, h => by
    rw [eval] at h
    -- a dotted path may be in scope as a whole; otherwise the object is evaluated
    split at h
    · rename_i b hb
      obtain ⟨path, -, hb⟩ := Option.bind_eq_some_iff.1 hb
      exact Except.ok.inj h ▸ hscope path b hb
    · obtain ⟨b, hobject, h⟩ := exists_of_bind_eq_ok h
      exact Except.ok.inj h ▸ (eval_wellFormed hscope object hobject).member property
  | .call f arguments, a, h => by
    rw [eval] at h
    obtain ⟨xs, -, h⟩ := exists_of_bind_eq_ok h
    obtain ⟨x, -, h⟩ := exists_of_bind_eq_ok h
    exact Except.ok.inj h ▸ trivial
  | .unary op operand, a, h => by
    rw [eval] at h
    obtain ⟨b, -, h⟩ := exists_of_bind_eq_ok h
    obtain rfl := Except.ok.inj h
    cases op <;> trivial
  | .binary op left right, a, h => by
    rw [eval] at h
    obtain ⟨b, -, h⟩ := exists_of_bind_eq_ok h
    obtain ⟨c, -, h⟩ := exists_of_bind_eq_ok h
    obtain rfl := Except.ok.inj h
    cases op with
    | add =>
      rw [BinaryOp.apply]
      split <;> trivial
    | _ => trivial
  | .logical op left right, a, h => by
    rw [eval] at h
    obtain ⟨b, hleft, h⟩ := exists_of_bind_eq_ok h
    -- the left side if it decides, and otherwise the right one
    split at h
    · exact Except.ok.inj h ▸ eval_wellFormed hscope left hleft
    · exact Except.ok.inj h ▸ eval_wellFormed hscope left hleft
    · exact eval_wellFormed hscope right h
  | .conditional condition yes no, a, h => by
    rw [eval] at h
    obtain ⟨b, -, h⟩ := exists_of_bind_eq_ok h
    split at h
    · exact eval_wellFormed hscope yes h
    · exact eval_wellFormed hscope no h

/-- Everything in scope was found among the values. -/
theorem scopeOf_wellFormed {values : Record} (h : values.WellFormed) (paths : List String) :
    (scopeOf values paths).WellFormed := by
  intro name a ha
  obtain ⟨path, -, he⟩ := List.mem_map.1 (Table.mem_of_find?_ofList ha)
  obtain ⟨rfl, rfl⟩ := Prod.mk.inj he
  exact Operand.wellFormed_ofDependency fun v hv ↦ h.at? hv

/-- **A computation returns a value as a host could hold it.** -/
theorem Computation.evaluate_wellFormed {c : Computation} {values : Record}
    (h : values.WellFormed) {v : Value} (hv : c.evaluate values = some v) : v.WellFormed := by
  rw [evaluate] at hv
  split at hv
  · rw [Expression.evaluate] at hv
    split at hv
    · split at hv
      · rename_i a ha
        exact (Expr.eval_wellFormed (scopeOf_wellFormed h _) _ ha).settle hv
      · simp at hv
    · simp at hv
  · simp at hv

end ReactiveForm
