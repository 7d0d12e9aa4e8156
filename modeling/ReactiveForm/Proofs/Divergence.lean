import ReactiveForm.Proofs.Replay

/-!
# Paths that diverge

Two paths *diverge* where, at a place that both of them have, their segments are different names and
not the same row number either (`Record.Diverge`).  A write to the one path is then not seen at the
other (`Record.at?_write_of_diverge`), and of two writes to them it does not matter which one is
made first (`Record.applyAll_pair_comm`).  So a run of writes whose paths diverge from each other
can be made in any order (`Record.applyAll_perm`).

Up to where they diverge both paths lead through the same values.  Either write may make records
there, have a value that is no record give way to one, or come to a halt at a list; and one of the
paths may be held flat while the other one descends.  None of this matters.
-/

set_option autoImplicit false
namespace ReactiveForm

/-! ## Segments -/

namespace Value

variable {a b : String} {p q : List String}

theorem sameRow_iff :
    SameRow a b ↔ indexOfText? a = indexOfText? b ∧ (indexOfText? a).isSome = true := by
  refine ⟨fun ⟨i, ha, hb⟩ ↦ ⟨ha.trans hb.symm, by rw [ha]; rfl⟩, fun ⟨heq, hsome⟩ ↦ ?_⟩
  obtain ⟨i, hi⟩ := Option.isSome_iff_exists.1 hsome
  exact ⟨i, hi, heq ▸ hi⟩

instance (a b : String) : Decidable (SameRow a b) := decidable_of_iff' _ sameRow_iff

instance decidableDiverging : (p q : List String) → Decidable (Diverging p q)
  | a :: p, b :: q =>
    have := decidableDiverging p q
    inferInstanceAs (Decidable ((a ≠ b ∧ ¬SameRow a b) ∨ Diverging p q))
  | [], _ | _ :: _, [] => isFalse fun h ↦ by simpa using h.ne_nil

/-- Segments diverge at one of the places that both have. -/
theorem diverging_iff : Diverging p q ↔ ∃ (i : Nat) (a b : String),
    p[i]? = some a ∧ q[i]? = some b ∧ a ≠ b ∧ ¬SameRow a b := by
  induction p generalizing q with
  | nil => exact ⟨fun h ↦ absurd rfl h.ne_nil.1, fun ⟨i, a, b, ha, _⟩ ↦ by simp at ha⟩
  | cons c p ih =>
    cases q with
    | nil => exact ⟨fun h ↦ absurd rfl h.ne_nil.2, fun ⟨i, a, b, _, hb, _⟩ ↦ by simp at hb⟩
    | cons d q =>
      rw [Diverging, ih]
      constructor
      · rintro (h | ⟨i, a, b, h⟩)
        · exact ⟨0, c, d, rfl, rfl, h⟩
        · exact ⟨i + 1, a, b, h⟩
      · rintro ⟨i, a, b, ha, hb, h⟩
        cases i with
        | zero =>
          obtain rfl := Option.some.inj ha
          obtain rfl := Option.some.inj hb
          exact .inl h
        | succ i => exact .inr ⟨i, a, b, ha, hb, h⟩

end Value

/-! ## Paths -/

namespace Record

variable {values : Record} {path other : String}

/-- **Paths that diverge**: at some place before the end of both, they have different segments that
are not the same row number. -/
def Diverge (path other : String) : Prop := ∃ (i : Nat) (a b : String),
  (segments path)[i]? = some a ∧ (segments other)[i]? = some b ∧ a ≠ b ∧ ¬Value.SameRow a b

theorem diverge_iff : Diverge path other ↔ Value.Diverging (segments path) (segments other) :=
  Value.diverging_iff.symm

instance (path other : String) : Decidable (Diverge path other) := decidable_of_iff' _ diverge_iff

theorem Diverge.symm (h : Diverge path other) : Diverge other path :=
  diverge_iff.2 (diverge_iff.1 h).symm

/-- Paths that diverge lead apart.  The first segments of paths that lead apart may even be the same
row number, for they are names of a record. -/
theorem Diverge.apart (h : Diverge path other) : Apart path other := by
  rw [diverge_iff] at h
  cases hpath : segments path with
  | nil => exact absurd hpath h.ne_nil.1
  | cons a p =>
    cases hother : segments other with
    | nil => exact absurd hother h.ne_nil.2
    | cons b q =>
      rw [hpath, hother] at h
      exact apart_iff.2 ⟨a, p, b, q, hpath, hother, h.imp_left And.left⟩

/-! ## Writes to paths that diverge -/

/-- **A write leaves diverging paths alone.** -/
theorem at?_write_of_diverge (h : Diverge path other) (values : Record) (x : Option Value) :
    (values.write path x).at? other = values.at? other :=
  at?_write h.apart.symm values x

/-- A parcel: one line, a note that is no record, and a town that is held flat where there is no
record for it. -/
def parcelValues : Record :=
  [("lines", .list [.record [("price", .integer 9), ("qty", .integer 2)]]),
    ("note", .text "gift"), ("ship.city", .text "Oslo")]

/-- The price in a line does not change with the quantity, by whatever number the row is called; a
text that gives way to a record leaves nothing in the other fields of that record; and a town that
is held flat stays when a record is made for the country. -/
theorem parcelValues_unseen :
    (Diverge "lines.0.qty" "lines.00.price" ∧
      (parcelValues.write "lines.0.qty" (some (.integer 3))).at? "lines.00.price" =
        some (.integer 9)) ∧
      (Diverge "note.size" "note.text" ∧
        (parcelValues.write "note.size" (some (.integer 1))).at? "note.text" = none) ∧
      (Diverge "ship.country" "ship.city" ∧
        (parcelValues.write "ship.country" (some (.text "NO"))).at? "ship.city" =
          some (.text "Oslo")) := by
  have hlines : Diverge "lines.0.qty" "lines.00.price" := by decide +kernel
  have hnote : Diverge "note.size" "note.text" := by decide +kernel
  have hship : Diverge "ship.country" "ship.city" := by decide +kernel
  exact ⟨⟨hlines, at?_write_of_diverge hlines parcelValues _⟩,
    ⟨hnote, at?_write_of_diverge hnote parcelValues _⟩,
    ⟨hship, at?_write_of_diverge hship parcelValues _⟩⟩

/-- **Writes to paths that diverge commute**: made in either order they lead to the same values. -/
theorem applyAll_pair_comm {a b : Write} (hvalues : values.WellFormed)
    (h : Diverge a.path b.path) : values.applyAll [a, b] = values.applyAll [b, a] :=
  write_comm hvalues h.apart a.value b.value

theorem parcelValues_wellFormed : parcelValues.WellFormed := by decide +kernel

/-- A text gives way to a record for its size, and another field of this record is cleared, or the
other way round: either way the record with the size is left. -/
theorem parcelValues_comm :
    parcelValues.WellFormed ∧ Diverge "note.size" "note.text" ∧
      parcelValues.applyAll
          [⟨"note.size", some (.integer 1), .user⟩, ⟨"note.text", none, .system⟩] =
        parcelValues.applyAll
          [⟨"note.text", none, .system⟩, ⟨"note.size", some (.integer 1), .user⟩] ∧
      (parcelValues.applyAll
          [⟨"note.text", none, .system⟩, ⟨"note.size", some (.integer 1), .user⟩]).at? "note" =
        some (.record [("size", .integer 1)]) :=
  ⟨parcelValues_wellFormed, by decide +kernel,
    applyAll_pair_comm parcelValues_wellFormed (by decide +kernel), rfl⟩

/-- **A run of writes whose paths diverge can be made in any order.** -/
theorem applyAll_perm {ws vs : List Write} (hvalues : values.WellFormed)
    (hfits : ∀ w ∈ ws, w.Fits) (h : ws.Pairwise fun a b ↦ Diverge a.path b.path)
    (hperm : ws.Perm vs) : values.applyAll ws = values.applyAll vs := by
  induction hperm generalizing values with
  | nil => rfl
  | cons w _ ih =>
    obtain ⟨hw, hws⟩ := List.forall_mem_cons.1 hfits
    exact ih (hvalues.apply hw) hws (List.pairwise_cons.1 h).2
  | swap a b ws =>
    have hdiverge : Diverge b.path a.path := (List.pairwise_cons.1 h).1 a List.mem_cons_self
    exact congrArg (·.applyAll ws) (write_comm hvalues hdiverge.apart b.value a.value)
  | trans hfirst _ ih ih' =>
    exact (ih hvalues hfits h).trans (ih' hvalues (fun w hw ↦ hfits w (hfirst.mem_iff.2 hw))
      (h.perm hfirst fun hdiverge ↦ hdiverge.symm))

end Record

end ReactiveForm
