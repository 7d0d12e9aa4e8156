import ReactiveForm.Expression.Token

/-!
# What a run returns

A reading or an evaluation returns a result or a fault.  Most of them go on with a result and stop
at a fault, so a run that has a result had one at each step (`exists_of_bind_eq_ok`).

The runs that read an expression have one fault that no grammar knows of: the expression nests too
deep.  `ComesTo` says of a run exactly when that happens, and what the run comes to when it does
not; its lemmas put this together from the steps.
-/

set_option autoImplicit false
namespace ReactiveForm

/-- A run with a result had one at its first step. -/
theorem exists_of_bind_eq_ok {ε α β : Type} {x : Except ε α} {f : α → Except ε β} {b : β}
    (h : (do let a ← x; f a) = .ok b) : ∃ a, x = .ok a ∧ f a = .ok b := by
  cases x with
  | error err => cases h
  | ok a => exact ⟨a, rfl, h⟩

/-- A run with a fault had it at its first step or behind it. -/
theorem eq_error_or_exists_of_bind_eq_error {ε α β : Type} {x : Except ε α} {f : α → Except ε β}
    {err : ε} (h : (do let a ← x; f a) = .error err) :
    x = .error err ∨ ∃ a, x = .ok a ∧ f a = .error err := by
  cases x with
  | error err' => exact .inl (congrArg _ (Except.error.inj h))
  | ok a => exact .inr ⟨a, rfl, h⟩

/-- **A run comes to something** if it keeps within the limit of nesting, and else fails for
nesting too deep. -/
structure ComesTo {α : Type} (within : Prop) (run target : Except ExpressionError α) : Prop where
  eq_target : within → run = target
  tooDeep : ¬within → ∃ position, run = .error (.tooDeep position)

namespace ComesTo

variable {α β : Type} {within within' c : Prop} {run target : Except ExpressionError α}

theorem of_eq (h : run = target) : ComesTo True run target :=
  ⟨fun _ ↦ h, fun hnot ↦ absurd trivial hnot⟩

theorem congr (h : ComesTo within run target) (hiff : within ↔ within') :
    ComesTo within' run target :=
  ⟨fun hwithin ↦ h.eq_target (hiff.2 hwithin), fun hnot ↦ h.tooDeep fun hwithin ↦
    hnot (hiff.1 hwithin)⟩

theorem trans {target' : Except ExpressionError α} (h : ComesTo within run target)
    (hnext : ComesTo within' target target') : ComesTo (within ∧ within') run target' where
  eq_target hboth := (h.eq_target hboth.1).trans (hnext.eq_target hboth.2)
  tooDeep hnot := by
    by_cases hwithin : within
    · rw [h.eq_target hwithin]
      exact hnext.tooDeep fun hwithin' ↦ hnot ⟨hwithin, hwithin'⟩
    · exact h.tooDeep hwithin

/-- A step, and what is done with its result. -/
theorem bind {a : α} {f : α → Except ExpressionError β} {target : Except ExpressionError β}
    (h : ComesTo within run (.ok a)) (hnext : ComesTo within' (f a) target) :
    ComesTo (within ∧ within') (run >>= f) target := by
  have hfirst : ComesTo within (run >>= f) (f a) :=
    ⟨fun hwithin ↦ by rw [h.eq_target hwithin]; rfl, fun hnot ↦ by
      obtain ⟨position, hrun⟩ := h.tooDeep hnot
      exact ⟨position, by rw [hrun]; rfl⟩⟩
  exact hfirst.trans hnext

/-- A step down, which is taken only within the limit. -/
theorem guard [Decidable c] {position : Nat} (h : c → ComesTo within run target) :
    ComesTo (c ∧ within) (if c then run else .error (.tooDeep position)) target where
  eq_target hboth := by rw [if_pos hboth.1, (h hboth.1).eq_target hboth.2]
  tooDeep hnot := by
    by_cases hc : c
    · rw [if_pos hc]
      exact (h hc).tooDeep fun hwithin ↦ hnot ⟨hc, hwithin⟩
    · exact ⟨position, by rw [if_neg hc]⟩

/-- A run returns the result it comes to, or its expression nests too deep. -/
theorem ok_or_tooDeep {a : α} (h : ComesTo within run (.ok a)) :
    run = .ok a ∨ ∃ position, run = .error (.tooDeep position) :=
  (Classical.em within).imp h.eq_target h.tooDeep

/-- A run with a result has kept within the limit. -/
theorem of_ok {a : α} (h : ComesTo within run target) (hrun : run = .ok a) : within := by
  refine Classical.byContradiction fun hnot ↦ ?_
  obtain ⟨position, hdeep⟩ := h.tooDeep hnot
  rw [hrun] at hdeep
  cases hdeep

end ComesTo

end ReactiveForm
