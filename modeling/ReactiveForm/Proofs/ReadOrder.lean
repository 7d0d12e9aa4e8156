import Mathlib
import ReactiveForm.Proofs.Cycles
import ReactiveForm.Proofs.Fields
import ReactiveForm.Proofs.Inference
import ReactiveForm.Proofs.Path

/-!
# What the order of computations covers

An expression looks up names in its scope, and chains of members as whole paths before their
objects (`Expr.paths`); nothing else in the scope matters to it (`Expr.eval_congr`).  A computed
field should therefore come behind every other one whose name is among these paths.

If the dependencies of a computation are inferred, they are plain names.  So the order covers what
the expression looks up by a plain name, unless that name is reserved, and covers no field with
points in its name, although the expression looks up its path
(`Schema.reads_before`).  Such a field may stand anywhere (`Schema.computeOrder_overlooks_member`).
-/

set_option autoImplicit false
namespace ReactiveForm

/-! ## The paths an expression looks up -/

namespace Expr

mutual

/-- **The paths an expression looks up**: its names, and its chains of members. -/
def paths : Expr → List String
  | .literal _ => []
  | .name s => [s]
  | .member object property => (path? (.member object property)).toList ++ paths object
  | .call _ arguments => allPaths arguments
  | .unary _ operand => paths operand
  | .binary _ left right | .logical _ left right => paths left ++ paths right
  | .conditional condition yes no => paths condition ++ (paths yes ++ paths no)

/-- The paths some expressions look up. -/
def allPaths : List Expr → List String
  | [] => []
  | e :: es => paths e ++ allPaths es

end

section

variable {scope scope' : Scope}

mutual

/-- **An expression sees nothing of its scope but the paths it looks up.** -/
theorem eval_congr : ∀ e : Expr, (∀ p ∈ e.paths, scope.find? p = scope'.find? p) →
    e.eval scope = e.eval scope'
  | .literal _, _ => rfl
  | .name s, h => by
    rw [eval, eval, h s (by rw [paths]; exact List.mem_cons_self)]
  | .member object property, h => by
    have hobject := eval_congr object fun p hp ↦ h p (by
      rw [paths]
      exact List.mem_append_right _ hp)
    have hpath : (path? (.member object property)).bind scope.find? =
        (path? (.member object property)).bind scope'.find? := by
      cases hp : path? (.member object property) with
      | none => rfl
      | some p =>
        refine h p ?_
        rw [paths, hp]
        exact List.mem_cons_self
    rw [eval, eval, hpath, hobject]
  | .call f arguments, h => by
    rw [eval, eval, evalNumbers_congr arguments fun p hp ↦ h p (by rwa [paths])]
  | .unary op operand, h => by
    rw [eval, eval, eval_congr operand fun p hp ↦ h p (by rwa [paths])]
  | .binary op left right, h => by
    rw [paths] at h
    rw [eval, eval, eval_congr left fun p hp ↦ h p (List.mem_append_left _ hp),
      eval_congr right fun p hp ↦ h p (List.mem_append_right _ hp)]
  | .logical op left right, h => by
    rw [paths] at h
    rw [eval, eval, eval_congr left fun p hp ↦ h p (List.mem_append_left _ hp),
      eval_congr right fun p hp ↦ h p (List.mem_append_right _ hp)]
  | .conditional condition yes no, h => by
    rw [paths] at h
    have hbranches := fun p hp ↦ h p (List.mem_append_right _ hp)
    rw [eval, eval, eval_congr condition fun p hp ↦ h p (List.mem_append_left _ hp),
      eval_congr yes fun p hp ↦ hbranches p (List.mem_append_left _ hp),
      eval_congr no fun p hp ↦ hbranches p (List.mem_append_right _ hp)]

theorem evalNumbers_congr : ∀ es : List Expr,
    (∀ p ∈ allPaths es, scope.find? p = scope'.find? p) →
      evalNumbers scope es = evalNumbers scope' es
  | [], _ => by rw [evalNumbers, evalNumbers]
  | e :: es, h => by
    rw [allPaths] at h
    rw [evalNumbers, evalNumbers, eval_congr e fun p hp ↦ h p (List.mem_append_left _ hp),
      evalNumbers_congr es fun p hp ↦ h p (List.mem_append_right _ hp)]

end

end

/-- The path of a chain of members has points in it. -/
theorem isDotted_of_path?_member {object : Expr} {property p : String}
    (h : path? (.member object property) = some p) : isDotted p = true := by
  rw [path?, Option.map_eq_some_iff] at h
  obtain ⟨inner, -, rfl⟩ := h
  simp [isDotted]

mutual

/-- What is looked up is a name that is read, or has points in it. -/
theorem mem_names_of_mem_paths {p : String} :
    ∀ e : Expr, p ∈ e.paths → p ∈ e.names ∨ isDotted p = true
  | .literal _, h => by
    rw [paths] at h
    exact absurd h List.not_mem_nil
  | .name s, h => by
    rw [paths] at h
    exact .inl (by rwa [names])
  | .member object property, h => by
    rw [paths, List.mem_append, Option.mem_toList] at h
    rw [names]
    exact h.elim (fun h ↦ .inr (isDotted_of_path?_member h)) fun h ↦ mem_names_of_mem_paths object h
  | .call f arguments, h => by
    rw [paths] at h
    rw [names]
    exact mem_allNames_of_mem_allPaths arguments h
  | .unary op operand, h => by
    rw [paths] at h
    rw [names]
    exact mem_names_of_mem_paths operand h
  | .binary op left right, h => by
    rw [paths, List.mem_append] at h
    rw [names, List.mem_append]
    rcases h with h | h
    · exact (mem_names_of_mem_paths left h).imp_left .inl
    · exact (mem_names_of_mem_paths right h).imp_left .inr
  | .logical op left right, h => by
    rw [paths, List.mem_append] at h
    rw [names, List.mem_append]
    rcases h with h | h
    · exact (mem_names_of_mem_paths left h).imp_left .inl
    · exact (mem_names_of_mem_paths right h).imp_left .inr
  | .conditional condition yes no, h => by
    rw [paths, List.mem_append, List.mem_append] at h
    rw [names, List.mem_append, List.mem_append]
    rcases h with h | h | h
    · exact (mem_names_of_mem_paths condition h).imp_left .inl
    · exact (mem_names_of_mem_paths yes h).imp_left fun h ↦ .inr (.inl h)
    · exact (mem_names_of_mem_paths no h).imp_left fun h ↦ .inr (.inr h)

theorem mem_allNames_of_mem_allPaths {p : String} :
    ∀ es : List Expr, p ∈ allPaths es → p ∈ allNames es ∨ isDotted p = true
  | [], h => by
    rw [allPaths] at h
    exact absurd h List.not_mem_nil
  | e :: es, h => by
    rw [allPaths, List.mem_append] at h
    rw [allNames, List.mem_append]
    rcases h with h | h
    · exact (mem_names_of_mem_paths e h).imp_left .inl
    · exact (mem_allNames_of_mem_allPaths es h).imp_left .inr

end

end Expr

/-! ## The names that are inferred -/

theorem isDotted_name {c : Char} {cs : List Char} (hc : startsName c = true) :
    isDotted (String.ofList (c :: cs.takeWhile continuesName)) = false := by
  rw [isDotted_eq_false_iff, String.toList_ofList, List.mem_cons, not_or]
  refine ⟨?_, fun h ↦ ?_⟩
  · rintro rfl
    exact absurd hc (by decide)
  · exact absurd (List.mem_takeWhile_imp h) (by decide)

/-- **Names that are inferred** have no points in them, and are not reserved. -/
theorem mem_namesFrom {n : String} {afterDot : Bool} {cs : List Char}
    (h : n ∈ namesFrom afterDot cs) : isDotted n = false ∧ n ∉ reservedNames := by
  induction afterDot, cs using namesFrom.induct with
  | case1 =>
    rw [namesFrom] at h
    exact absurd h List.not_mem_nil
  | case2 afterDot c cs hquote ih =>
    rw [namesFrom_quote hquote] at h
    exact ih h
  | case3 afterDot c cs hquote hname name hskip ih =>
    rw [namesFrom_name hname, if_pos hskip] at h
    exact ih h
  | case4 afterDot c cs hquote hname name htake ih =>
    rw [namesFrom_name hname, if_neg htake, List.mem_cons] at h
    rcases h with rfl | h
    · rw [Bool.or_eq_true, not_or, List.contains_iff_mem] at htake
      exact ⟨isDotted_name hname, htake.2⟩
    · exact ih h
  | case5 afterDot c cs hquote hname hdigit ih =>
    rw [namesFrom_digit hdigit] at h
    exact ih h
  | case6 afterDot cs hquote hname hdigit ih =>
    rw [namesFrom_dot] at h
    exact ih h
  | case7 afterDot c cs hquote hname hdigit hdot hseparator ih =>
    rw [namesFrom_separator hseparator] at h
    exact ih h
  | case8 afterDot c cs hquote hname hdigit hdot hseparator ih =>
    rw [namesFrom, if_neg hquote, if_neg hname, if_neg hdigit, if_neg hdot,
      if_neg hseparator] at h
    exact ih h

/-- No name is missed that can be a field. -/
theorem mem_inferredReads_of_mem_names {source n : String} {e : Expr}
    (h : exprOfText source = .ok e) (hn : n ∈ e.names) (hreserved : n ∉ reservedNames) :
    n ∈ inferredReads source := by
  obtain ⟨-, ps, hcut, depth, -, hphrase⟩ := exprOfText_eq_ok_iff.1 h
  rw [inferredReads, Names.mem_ofList, show namesFrom false source.toList = _ from
    hcut.namesIn_eq_seen .plain, mem_seen_iff_of_alternates hphrase.alternates,
    hphrase.freeNames_eq]
  exact .inl (mem_unreserved.2 ⟨hn, hreserved⟩)

/-- **Which of the paths that an expression looks up are inferred**: the plain names that are not
reserved. -/
theorem mem_inferredReads_iff_of_mem_paths {source path : String} {e : Expr}
    (h : exprOfText source = .ok e) (hpath : path ∈ e.paths) :
    path ∈ inferredReads source ↔ isDotted path = false ∧ path ∉ reservedNames := by
  constructor
  · intro hmem
    exact mem_namesFrom (Names.mem_ofList.1 hmem)
  · rintro ⟨hdot, hreserved⟩
    have hname := (e.mem_names_of_mem_paths hpath).resolve_right (by simp [hdot])
    exact mem_inferredReads_of_mem_names h hname hreserved

/-! ## The order -/

namespace Schema

variable {s : Schema} {limit : Nat} {fs : List Field} {name path : String} {c : Computation}
  {e : Expr}

/-- **What is put before a computation whose dependencies are inferred**: of the paths that its
expression looks up, those that are plain names and not reserved.  A computed field with such a name
is another one and comes before it. -/
theorem reads_before (hs : ofFields limit fs = .ok s) (hc : s.computation? name = some c)
    (hinferred : c.dependencies = none) (he : exprOfText c.source = .ok e)
    (hpath : path ∈ e.paths) (hcomputed : path ∈ s.computeOrder) :
    (path ∈ (computeGraph s.fields).next name ↔ isDotted path = false ∧ path ∉ reservedNames) ∧
      (isDotted path = false → path ∉ reservedNames → path ≠ name ∧
        ∃ before after, s.computeOrder = before ++ name :: after ∧ path ∈ before) := by
  obtain ⟨-, rfl, horder⟩ := ofFields_eq_ok_iff.1 hs
  have hnode := find?_computeGraph hc
  have hnext : path ∈ (computeGraph s.fields).next name ↔
      isDotted path = false ∧ path ∉ reservedNames := by
    rw [Graph.next_of_find? hnode, Names.mem_ofList, Computation.inputs, hinferred]
    exact mem_inferredReads_iff_of_mem_paths he hpath
  refine ⟨hnext, fun hdot hreserved ↦ ?_⟩
  have hmem := hnext.2 ⟨hdot, hreserved⟩
  have hname : name ∈ s.computeOrder :=
    (Graph.mem_order_iff horder).2 (Graph.mem_names_of_find? hnode)
  refine ⟨fun heq ↦ Graph.order_irrefl horder hname (heq ▸ hmem), ?_⟩
  obtain ⟨before, after, hsplit⟩ := List.append_of_mem hname
  refine ⟨before, after, hsplit, ?_⟩
  exact (Graph.sorts_of_order_eq_ok horder).inputs_before before name after hsplit path
    ⟨Graph.mem_names_of_find? hnode, hmem, (Graph.mem_order_iff horder).1 hcomputed⟩

/-- A gross amount that reads a net amount declared behind it. -/
def grossSchema : Schema where
  fields := [{ name := "price", component := "number" },
    { name := "gross", component := "number", computation := some { source := "net * 3" } },
    { name := "net", component := "number", computation := some { source := "price - 1" } }]
  computeOrder := ["net", "gross"]

/-- The net amount is computed before the gross amount. -/
theorem net_before_gross :
    "net" ∈ (computeGraph grossSchema.fields).next "gross" ∧ "net" ≠ "gross" ∧
      ∃ before after, grossSchema.computeOrder = before ++ "gross" :: after ∧ "net" ∈ before := by
  have hs : ofFields defaultDepthLimit grossSchema.fields = .ok grossSchema :=
    ofFields_of_order rfl (by cbv)
  have hpaths : (exprOfText "net * 3").map Expr.paths = .ok ["net"] := by decide +kernel
  cases he : exprOfText "net * 3" with
  | error err =>
    rw [he] at hpaths
    cases hpaths
  | ok e =>
    rw [he] at hpaths
    have hpath : "net" ∈ e.paths := Except.ok.inj hpaths ▸ List.mem_cons_self
    have hgross : grossSchema.computation? "gross" = some { source := "net * 3" } := rfl
    obtain ⟨hnext, hbefore⟩ := reads_before hs hgross rfl he hpath (by decide)
    exact ⟨hnext.2 (by decide), hbefore (by decide) (by decide)⟩

/-- A field that takes a member of an order, and a computed field with the name of that member. -/
def memberSchema : Schema where
  fields := [{ name := "price", component := "number" },
    { name := "gross", component := "number", computation := some { source := "order.net * 3" } },
    { name := "order.net", component := "number",
      computation := some { source := "price - 1" } }]
  computeOrder := ["gross", "order.net"]

/-- **A member is overlooked**: the gross amount looks up the net amount of the order, and is
computed before it. -/
theorem computeOrder_overlooks_member :
    ofFields defaultDepthLimit memberSchema.fields = .ok memberSchema ∧
      memberSchema.computeOrder = ["gross", "order.net"] ∧
      ∃ e, exprOfText "order.net * 3" = .ok e ∧ "order.net" ∈ e.paths := by
  refine ⟨ofFields_of_order rfl (by cbv), rfl, ?_⟩
  have hpaths : (exprOfText "order.net * 3").map Expr.paths = .ok ["order.net", "order"] := by
    decide +kernel
  cases he : exprOfText "order.net * 3" with
  | error err =>
    rw [he] at hpaths
    cases hpaths
  | ok e =>
    rw [he] at hpaths
    exact ⟨e, rfl, Except.ok.inj hpaths ▸ List.mem_cons_self⟩

end Schema

end ReactiveForm
