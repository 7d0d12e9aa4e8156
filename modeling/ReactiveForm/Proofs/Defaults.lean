import ReactiveForm.Proofs.Fields
import ReactiveForm.Proofs.Path

/-!
# Given values and default values

A form starts with the given values laid over the defaults of its fields.  Laying over goes by the
names of the two records, and looking up goes by paths, so the two need not agree on what lies over
what: a default is kept under the whole name of its field, and a name that is there as a whole wins
over descending.

`Record.at?_overlay` says what is found in a record that is laid over another one.  With it,
`Schema.initialValues_keeps_iff` says which given values are kept: those that are given under the
whole name, those of fields without a default, and those that are the default.  A value that is
given inside a record, for a field with points in its name, is hidden by the default of that field
(`Schema.initialValues_hides_city`).
-/

set_option autoImplicit false
namespace ReactiveForm

namespace Record

/-- A value that is found is held under the whole path or below its first segment. -/
theorem any_has_of_at?_eq_some {values : Record} {path : String} {v : Value}
    (hv : values.at? path = some v) (hflat : Table.find? values path = none) :
    (segments path).head?.any (Table.has values) = true := by
  rw [at?, hflat] at hv
  cases hpath : segments path with
  | nil => exact absurd hpath (segments_ne_nil path)
  | cons first rest =>
    simp only [hpath, Value.descend?, Value.child?] at hv
    obtain ⟨w, hw, -⟩ := Option.bind_eq_some_iff.1 hv
    rw [List.head?_cons, Option.any_some, Table.has, hw, Option.isSome_some]

end Record

namespace Schema

/-- **The default value of a name**: that of the last field with the name that has one. -/
def default? (s : Schema) (name : String) : Option Value :=
  lastSaid? s.allFields name (·.defaultValue)

variable {s : Schema} {given : Record} {name : String}

theorem find?_defaults (s : Schema) (name : String) : s.defaults.find? name = s.default? name :=
  find?_ofList_filterMap s.allFields (·.defaultValue) name

/-- **The value a form starts with at a path.** -/
theorem at?_initialValues (s : Schema) (hgiven : Table.Ordered given) (name : String) :
    (s.initialValues given).at? name =
      ((Table.find? given name).or ((s.default? name).or
        (if (segments name).head?.any (Table.has given) then given.at? name
          else s.defaults.at? name))) := by
  rw [initialValues, Record.at?_overlay s.defaults hgiven, find?_defaults]

/-- **Which given values are kept, and when a default is read.**  A given value is kept exactly if
it is given under the whole name, or the name has no other default; and where no value is given, the
default is read. -/
theorem initialValues_keeps_iff (s : Schema) (hgiven : Table.Ordered given) (name : String) :
    (∀ v, given.at? name = some v → ((s.initialValues given).at? name = some v ↔
        Table.has given name = true ∨ ∀ d, s.default? name = some d → d = v)) ∧
      (given.at? name = none →
        ∀ d, s.default? name = some d → (s.initialValues given).at? name = some d) := by
  rw [at?_initialValues s hgiven]
  refine ⟨fun v hv ↦ ?_, fun hnone d hd ↦ ?_⟩
  · cases hflat : Table.find? given name with
    | some w =>
      rw [Record.at?, hflat] at hv
      simpa [Table.has, hflat] using hv
    | none =>
      rw [Record.any_has_of_at?_eq_some hv hflat, if_pos rfl, hv]
      cases s.default? name <;> simp [Table.has, hflat]
  · cases hflat : Table.find? given name with
    | some w =>
      rw [Record.at?, hflat] at hnone
      cases hnone
    | none => rw [hd]; rfl

/-- An address of which the city has a default. -/
def addressSchema : Schema where
  fields := [{ name := "address.city", component := "input", defaultValue := some (.text "Oslo") },
    { name := "address.zip", component := "input" }]
  computeOrder := []

/-- A city that is given under the whole name is kept, and so is a postal code inside an address;
where no city is given, the default is read. -/
theorem initialValues_keeps_zip :
    (addressSchema.initialValues [("address", .record [("zip", .text "5003")]),
        ("address.city", .text "Bergen")]).at? "address.city" = some (.text "Bergen") ∧
      (addressSchema.initialValues [("address", .record [("zip", .text "5003")])]).at?
        "address.zip" = some (.text "5003") ∧
      (addressSchema.initialValues [("address", .record [("zip", .text "5003")])]).at?
        "address.city" = some (.text "Oslo") := by
  have hzip : addressSchema.default? "address.zip" = none := rfl
  refine ⟨((addressSchema.initialValues_keeps_iff (by decide) "address.city").1 _ rfl).2 (.inl rfl),
    ((addressSchema.initialValues_keeps_iff (by decide) "address.zip").1 _ rfl).2
      (.inr fun d hd ↦ ?_),
    (addressSchema.initialValues_keeps_iff (by decide) "address.city").2 rfl _ rfl⟩
  rw [hzip] at hd
  cases hd

/-- **A given city is hidden by the default** if it is given inside an address. -/
theorem initialValues_hides_city :
    ofFields defaultDepthLimit addressSchema.fields = .ok addressSchema ∧
      Record.at? [("address", .record [("city", .text "Bergen")])] "address.city" =
        some (.text "Bergen") ∧
      (addressSchema.initialValues [("address", .record [("city", .text "Bergen")])]).at?
        "address.city" = some (.text "Oslo") :=
  ⟨ofFields_of_order rfl (by cbv), rfl, rfl⟩

end Schema

end ReactiveForm
