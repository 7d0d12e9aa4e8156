import Mathlib.Logic.Function.Basic
import ReactiveForm.Condition.Reader
import ReactiveForm.Proofs.Table

/-!
# The data forms of conditions

What the reader of conditions accepts, and that it takes back what writing a condition as data does.

Which values are read without a remainder is `Condition.Readable`, stated along the data: the first
of the keys `and`, `or`, `not` and `field` that a record has decides which form it must have.  The
forms in which a condition can be written are `Condition.IsForm`, stated along the condition; a
comparison has two of them.  `Condition.reader_laws` puts the two together, with what a record means
that makes several comparisons at once.
-/

set_option autoImplicit false
namespace ReactiveForm

/-! ## Keys of comparators -/

namespace Comparator

variable {c : Comparator} {name : String}

theorem mem_all (c : Comparator) : c ∈ all := by cases c <;> decide

theorem ofKey?_key (c : Comparator) : ofKey? c.key = some c := by cases c <;> decide

theorem ofKey?_eq_some_iff : ofKey? name = some c ↔ name = c.key := by
  refine ⟨fun h ↦ ?_, fun h ↦ h ▸ c.ofKey?_key⟩
  have hkey := List.find?_some h
  exact (beq_iff_eq.1 hkey).symm

theorem key_injective : Function.Injective key := fun c c' h ↦
  Option.some.inj (c.ofKey?_key.symm.trans (h ▸ c'.ofKey?_key))

/-- The other keys of a condition name no comparator. -/
theorem ne_key (c : Comparator) (h : ofKey? name = none) : name ≠ c.key := by
  rintro rfl
  simp [ofKey?_key] at h

end Comparator

namespace Condition

variable {fields values : Record} {path : String} {operand : Value} {c : Comparator}

/-! ## The reader, form by form -/

/-- The items of a list are read one by one. -/
theorem ofItems_eq_map (items : List Value) : ofItems items = items.map ofValue := by
  induction items with
  | nil => rw [ofItems, List.map_nil]
  | cons v items ih => rw [ofItems, List.map_cons, ih]

/-- The reader of records, one key after the other. -/
theorem ofValue_record (fields : Record) : ofValue (.record fields) =
    match Table.find? fields "and" with
    | some (.list items) => .all (items.map ofValue)
    | some _ => .unreadable (.record fields)
    | none =>
      match Table.find? fields "or" with
      | some (.list items) => .any (items.map ofValue)
      | some _ => .unreadable (.record fields)
      | none =>
        match Table.find? fields "not" with
        | some v => .not (ofValue v)
        | none => ofLeaf fields := by
  simp only [← ofItems_eq_map]
  rw [ofValue]
  split
  · rename_i hand
    rw [hand]
  · rename_i v hlist hand
    rw [hand]
    cases v <;> first | rfl | exact absurd rfl (hlist _)
  · rename_i hand
    rw [hand]
    split
    · rename_i hor
      rw [hor]
    · rename_i v hlist hor
      rw [hor]
      cases v <;> first | rfl | exact absurd rfl (hlist _)
    · rename_i hor
      rw [hor]
      split <;> rename_i hnot <;> rw [hnot]

/-- A list under `and` decides, whatever else is there. -/
theorem ofValue_and {items : List Value} (h : Table.find? fields "and" = some (.list items)) :
    ofValue (.record fields) = .all (items.map ofValue) := by
  rw [ofValue_record, h]

/-- Then a list under `or`. -/
theorem ofValue_or {items : List Value} (hand : Table.find? fields "and" = none)
    (h : Table.find? fields "or" = some (.list items)) :
    ofValue (.record fields) = .any (items.map ofValue) := by
  rw [ofValue_record, hand, h]

/-- Then anything under `not`. -/
theorem ofValue_not {v : Value} (hand : Table.find? fields "and" = none)
    (hor : Table.find? fields "or" = none) (h : Table.find? fields "not" = some v) :
    ofValue (.record fields) = .not (ofValue v) := by
  rw [ofValue_record, hand, hor, h]

/-- What has none of the three is a comparison. -/
theorem ofValue_leaf (hand : Table.find? fields "and" = none) (hor : Table.find? fields "or" = none)
    (hnot : Table.find? fields "not" = none) : ofValue (.record fields) = ofLeaf fields := by
  rw [ofValue_record, hand, hor, hnot]

/-! ### Leaves

A record without `and`, `or` and `not` is a comparison, if it names a field.  A known operator goes
before keys of comparators; an unknown one makes the record unreadable, also if there are keys. -/

theorem ofLeaf_of_operator (hfield : Table.find? fields "field" = some (.text path))
    (h : Table.find? fields "operator" = some (.text c.key)) :
    ofLeaf fields = .field path c ((Table.find? fields "value").getD (.bool true)) := by
  simp only [ofLeaf, hfield, h, Comparator.ofKey?_key]

theorem ofLeaf_of_unknown {name : String} (hfield : Table.find? fields "field" = some (.text path))
    (h : Table.find? fields "operator" = some (.text name))
    (hname : Comparator.ofKey? name = none) : ofLeaf fields = .unreadable (.record fields) := by
  simp only [ofLeaf, hfield, h, hname]

/-- Some comparisons as one condition. -/
def conjoin (source : Value) : List Condition → Condition
  | [] => .unreadable source
  | [leaf] => leaf
  | leaves => .all leaves

theorem ofLeaf_of_keys (hfield : Table.find? fields "field" = some (.text path))
    (h : ∀ name, Table.find? fields "operator" ≠ some (.text name)) :
    ofLeaf fields = conjoin (.record fields) (comparisons path fields) := by
  rw [ofLeaf, hfield]
  cases hoperator : Table.find? fields "operator" with
  | none => rfl
  | some v =>
    cases v with
    | text name => exact absurd hoperator (h name)
    | _ => rfl

theorem ofLeaf_of_no_field (h : ∀ path, Table.find? fields "field" ≠ some (.text path)) :
    ofLeaf fields = .unreadable (.record fields) := by
  rw [ofLeaf]
  split
  · exact absurd ‹_› (h _)
  · rfl

/-- There is a comparison for each key of a comparator. -/
theorem mem_comparisons {d : Condition} : d ∈ comparisons path fields ↔
    ∃ c operand, Table.find? fields c.key = some operand ∧ .field path c operand = d := by
  simp only [comparisons, List.mem_filterMap, Comparator.mem_all, true_and, Option.map_eq_some_iff]

theorem comparisons_ne_nil_iff (path : String) (fields : Record) :
    comparisons path fields ≠ [] ↔ ∃ c : Comparator, Table.has fields c.key = true := by
  constructor
  · intro h
    obtain ⟨d, hd⟩ := List.exists_mem_of_ne_nil _ h
    obtain ⟨c, operand, hc, -⟩ := mem_comparisons.1 hd
    exact ⟨c, Option.isSome_iff_exists.2 ⟨operand, hc⟩⟩
  · rintro ⟨c, hc⟩
    obtain ⟨operand, hoperand⟩ := Option.isSome_iff_exists.1 hc
    exact List.ne_nil_of_mem (mem_comparisons.2 ⟨c, operand, hoperand, rfl⟩)

/-! ## What can be read -/

/-- **A record that compares a field**: it names the field with a text, and the comparator with a
text that is a comparator's key, or, if it has no such text, by having the keys of comparators. -/
def ReadableLeaf (fields : Record) : Prop :=
  (∃ path, Table.find? fields "field" = some (.text path)) ∧
    ((∃ c : Comparator, Table.find? fields "operator" = some (.text c.key)) ∨
      (∀ name, Table.find? fields "operator" ≠ some (.text name)) ∧
        ∃ c : Comparator, Table.has fields c.key = true)

/-- **A value in one of the data forms of conditions**, through and through.  Each form comes into
question only if the keys of the forms before it are not there. -/
inductive Readable : Value → Prop
  | and {fields : Record} {items : List Value} (h : Table.find? fields "and" = some (.list items))
    (hitems : ∀ v ∈ items, Readable v) : Readable (.record fields)
  | or {fields : Record} {items : List Value} (hand : Table.find? fields "and" = none)
    (h : Table.find? fields "or" = some (.list items)) (hitems : ∀ v ∈ items, Readable v) :
    Readable (.record fields)
  | not {fields : Record} {v : Value} (hand : Table.find? fields "and" = none)
    (hor : Table.find? fields "or" = none) (h : Table.find? fields "not" = some v)
    (hv : Readable v) : Readable (.record fields)
  | leaf {fields : Record} (hand : Table.find? fields "and" = none)
    (hor : Table.find? fields "or" = none) (hnot : Table.find? fields "not" = none)
    (h : ReadableLeaf fields) : Readable (.record fields)

theorem anyUnreadable_eq_false_iff {cs : List Condition} :
    anyUnreadable cs = false ↔ ∀ c ∈ cs, c.hasUnreadable = false := by
  induction cs with
  | nil => simp [anyUnreadable]
  | cons c cs ih => simp [anyUnreadable, ih]

/-- A conjunction is readable if it is not empty. -/
theorem hasUnreadable_conjoin {source : Value} {cs : List Condition}
    (h : ∀ c ∈ cs, c.hasUnreadable = false) :
    (conjoin source cs).hasUnreadable = false ↔ cs ≠ [] := by
  match cs with
  | [] => simp [conjoin, hasUnreadable]
  | [leaf] => simpa [conjoin] using h
  | leaf :: more :: rest =>
    change anyUnreadable (leaf :: more :: rest) = false ↔ _
    exact iff_of_true (anyUnreadable_eq_false_iff.2 h) (List.cons_ne_nil _ _)

theorem hasUnreadable_ofLeaf : (ofLeaf fields).hasUnreadable = false ↔ ReadableLeaf fields := by
  rw [ReadableLeaf]
  by_cases hfield : ∃ path, Table.find? fields "field" = some (.text path)
  · obtain ⟨path, hpath⟩ := hfield
    rw [and_iff_right ⟨path, hpath⟩]
    by_cases hoperator : ∃ name, Table.find? fields "operator" = some (.text name)
    · obtain ⟨name, hname⟩ := hoperator
      cases hkey : Comparator.ofKey? name with
      | some c =>
        obtain rfl := Comparator.ofKey?_eq_some_iff.1 hkey
        rw [ofLeaf_of_operator hpath hname]
        exact iff_of_true rfl (.inl ⟨c, hname⟩)
      | none =>
        rw [ofLeaf_of_unknown hpath hname hkey]
        refine iff_of_false Bool.noConfusion ?_
        rintro (⟨c, hc⟩ | ⟨hnone, _⟩)
        · exact c.ne_key hkey (Value.text.inj (Option.some.inj (hname.symm.trans hc)))
        · exact hnone name hname
    · rw [not_exists] at hoperator
      rw [ofLeaf_of_keys hpath hoperator, or_iff_right fun ⟨c, hc⟩ ↦ hoperator _ hc,
        and_iff_right hoperator, ← comparisons_ne_nil_iff path]
      refine hasUnreadable_conjoin fun d hd ↦ ?_
      obtain ⟨c, operand, -, rfl⟩ := mem_comparisons.1 hd
      rfl
  · rw [not_exists] at hfield
    rw [ofLeaf_of_no_field hfield]
    exact iff_of_false Bool.noConfusion fun ⟨⟨path, hpath⟩, _⟩ ↦ hfield path hpath

theorem Readable.hasUnreadable_eq_false {v : Value} (h : Readable v) :
    (ofValue v).hasUnreadable = false := by
  induction h with
  | and h hitems ih =>
    rw [ofValue_and h, hasUnreadable, anyUnreadable_eq_false_iff]
    exact List.forall_mem_map.2 ih
  | or hand h hitems ih =>
    rw [ofValue_or hand h, hasUnreadable, anyUnreadable_eq_false_iff]
    exact List.forall_mem_map.2 ih
  | not hand hor h hv ih => rwa [ofValue_not hand hor h, hasUnreadable]
  | leaf hand hor hnot h => rwa [ofValue_leaf hand hor hnot, hasUnreadable_ofLeaf]

/-- **What is read without a remainder is readable**, by recursion on the data. -/
theorem readable_of_hasUnreadable : ∀ v : Value, (ofValue v).hasUnreadable = false → Readable v
  | .record fields, h => by
    rw [ofValue_record] at h
    split at h
    · rename_i items hand
      have hsize := sizeOf_lt_of_find? hand
      rw [hasUnreadable, anyUnreadable_eq_false_iff] at h
      refine .and hand fun v hv ↦ ?_
      have hitem := List.sizeOf_lt_of_mem hv
      exact readable_of_hasUnreadable v (List.forall_mem_map.1 h v hv)
    · cases h
    · rename_i hand
      split at h
      · rename_i items hor
        have hsize := sizeOf_lt_of_find? hor
        rw [hasUnreadable, anyUnreadable_eq_false_iff] at h
        refine .or hand hor fun v hv ↦ ?_
        have hitem := List.sizeOf_lt_of_mem hv
        exact readable_of_hasUnreadable v (List.forall_mem_map.1 h v hv)
      · cases h
      · rename_i hor
        split at h
        · rename_i v hnot
          have hsize := sizeOf_lt_of_find? hnot
          exact .not hand hor hnot (readable_of_hasUnreadable v h)
        · rename_i hnot
          exact .leaf hand hor hnot (hasUnreadable_ofLeaf.1 h)
  | .null, h | .bool _, h | .integer _, h | .float _, h | .text _, h | .list _, h => by
    simp [ofValue, hasUnreadable] at h
termination_by v => sizeOf v
decreasing_by
  all_goals first
    | exact hsize
    | simp only [Value.list.sizeOf_spec] at hsize; omega

/-- **What is read without a remainder** is what has the data forms through and through. -/
theorem hasUnreadable_ofValue {v : Value} : (ofValue v).hasUnreadable = false ↔ Readable v :=
  ⟨readable_of_hasUnreadable v, Readable.hasUnreadable_eq_false⟩

/-! ## What can be written -/

mutual

/-- Whether a condition is made of comparisons, junctions and negations alone. -/
def isPlain : Condition → Bool
  | .field .. => true
  | .all parts | .any parts => allPlain parts
  | .not part => isPlain part
  | .predicate .. | .unreadable _ => false

/-- Whether some conditions are made of these alone. -/
def allPlain : List Condition → Bool
  | [] => true
  | c :: cs => isPlain c && allPlain cs

end

/-- A comparison that names its comparator. -/
def operatorForm (path : String) (c : Comparator) (operand : Value) : Record :=
  Table.ofList [("field", .text path), ("operator", .text c.key), ("value", operand)]

/-- A comparison that has its comparator as a key. -/
def keyForm (path : String) (c : Comparator) (operand : Value) : Record :=
  Table.ofList [("field", .text path), (c.key, operand)]

mutual

/-- **Whether a value writes a condition**, each comparison in either of its forms. -/
def IsForm : Condition → Value → Prop
  | .field path c operand, v =>
    v = .record (operatorForm path c operand) ∨ v = .record (keyForm path c operand)
  | .all parts, v => ∃ items, AreForms parts items ∧ v = .record [("and", .list items)]
  | .any parts, v => ∃ items, AreForms parts items ∧ v = .record [("or", .list items)]
  | .not part, v => ∃ u, IsForm part u ∧ v = .record [("not", u)]
  | .predicate .., _ | .unreadable _, _ => False

/-- Whether some values write some conditions, one each. -/
def AreForms : List Condition → List Value → Prop
  | [], [] => True
  | c :: cs, v :: vs => IsForm c v ∧ AreForms cs vs
  | _, _ => False

end

theorem ofValue_operatorForm (path : String) (c : Comparator) (operand : Value) :
    ofValue (.record (operatorForm path c operand)) = .field path c operand := by
  have hfind (name : String) : Table.find? (operatorForm path c operand) name =
      Table.find? [("value", operand), ("operator", .text c.key), ("field", .text path)] name :=
    Table.find?_ofList _ name
  rw [ofValue_leaf (hfind _) (hfind _) (hfind _), ofLeaf_of_operator (hfind _) (hfind _), hfind]
  rfl

theorem ofValue_keyForm (path : String) (c : Comparator) (operand : Value) :
    ofValue (.record (keyForm path c operand)) = .field path c operand := by
  have hfind (name : String) : Table.find? (keyForm path c operand) name =
      Table.find? [(c.key, operand), ("field", .text path)] name := Table.find?_ofList _ name
  have hother {name : String} (h : Comparator.ofKey? name = none) :
      Table.find? (keyForm path c operand) name = Table.find? [("field", .text path)] name := by
    rw [hfind, Table.find?_cons, if_neg (c.ne_key h)]
  have hkey (c' : Comparator) : Table.find? (keyForm path c operand) c'.key =
      if c' = c then some operand else none := by
    have hfield : c'.key ≠ "field" := (c'.ne_key (by decide)).symm
    simp only [hfind, Table.find?_cons, Table.find?_nil, hfield, Comparator.key_injective.eq_iff,
      if_false]
  have hcomparisons : comparisons path (keyForm path c operand) = [.field path c operand] := by
    simp only [comparisons, hkey]
    cases c <;> rfl
  rw [ofValue_leaf (hother (by decide)) (hother (by decide)) (hother (by decide)),
    ofLeaf_of_keys (hother (by decide)) (fun name ↦ by rw [hother (by decide)]; nofun),
    hcomparisons, conjoin]

mutual

/-- **Reading takes back what writing did.** -/
theorem ofValue_of_isForm : ∀ (c : Condition) (v : Value), IsForm c v → ofValue v = c
  | .field path c operand, v, h => by
    rcases h with rfl | rfl
    · exact ofValue_operatorForm path c operand
    · exact ofValue_keyForm path c operand
  | .all parts, _, ⟨items, hitems, rfl⟩ => by
    rw [ofValue_and rfl, map_ofValue_of_areForms parts items hitems]
  | .any parts, _, ⟨items, hitems, rfl⟩ => by
    rw [ofValue_or rfl rfl, map_ofValue_of_areForms parts items hitems]
  | .not part, _, ⟨u, hu, rfl⟩ => by rw [ofValue_not rfl rfl rfl, ofValue_of_isForm part u hu]

theorem map_ofValue_of_areForms : ∀ (cs : List Condition) (vs : List Value), AreForms cs vs →
    vs.map ofValue = cs
  | [], [], _ => rfl
  | c :: cs, v :: vs, ⟨hhead, htail⟩ => by
    rw [List.map_cons, ofValue_of_isForm c v hhead, map_ofValue_of_areForms cs vs htail]

end

mutual

/-- **A condition made of comparisons, junctions and negations can be written.** -/
theorem exists_isForm : ∀ c : Condition, c.isPlain = true → ∃ v, IsForm c v
  | .field path c operand, _ => ⟨_, .inl rfl⟩
  | .all parts, h => by
    obtain ⟨items, hitems⟩ := exists_areForms parts h
    exact ⟨_, items, hitems, rfl⟩
  | .any parts, h => by
    obtain ⟨items, hitems⟩ := exists_areForms parts h
    exact ⟨_, items, hitems, rfl⟩
  | .not part, h => by
    obtain ⟨u, hu⟩ := exists_isForm part h
    exact ⟨_, u, hu, rfl⟩

theorem exists_areForms : ∀ cs : List Condition, allPlain cs = true → ∃ vs, AreForms cs vs
  | [], _ => ⟨[], trivial⟩
  | c :: cs, h => by
    rw [allPlain, Bool.and_eq_true] at h
    obtain ⟨v, hv⟩ := exists_isForm c h.1
    obtain ⟨vs, hvs⟩ := exists_areForms cs h.2
    exact ⟨v :: vs, hv, hvs⟩

end

/-! ## Several comparisons at once -/

/-- A record without the keys of comparators other than one. -/
def onlyKey (c : Comparator) (fields : Record) : Record :=
  fields.filter fun e ↦ (Comparator.ofKey? e.1).all (· == c)

/-- With all keys of comparators but one taken out, everything else is as it was. -/
theorem find?_onlyKey (c : Comparator) (fields : Record) (name : String) :
    Table.find? (onlyKey c fields) name =
      if (Comparator.ofKey? name).all (· == c) then Table.find? fields name else none :=
  Table.find?_filter fields (fun name ↦ (Comparator.ofKey? name).all (· == c)) name

theorem find?_onlyKey_of_ofKey?_eq_none {name : String} (h : Comparator.ofKey? name = none) :
    Table.find? (onlyKey c fields) name = Table.find? fields name := by
  rw [find?_onlyKey, h]
  rfl

theorem find?_onlyKey_key (c c' : Comparator) (fields : Record) :
    Table.find? (onlyKey c fields) c'.key = if c' = c then Table.find? fields c'.key else none := by
  rw [find?_onlyKey, Comparator.ofKey?_key]
  simp only [Option.all_some, beq_iff_eq]

theorem allHold_iff {cs : List Condition} :
    allHold values cs = true ↔ ∀ c ∈ cs, c.holds values = true := by
  induction cs with
  | nil => simp [allHold]
  | cons c cs ih => simp [allHold, ih]

/-- A conjunction holds if it has parts and all of them hold. -/
theorem holds_conjoin {source : Value} {cs : List Condition} :
    (conjoin source cs).holds values = true ↔ cs ≠ [] ∧ ∀ c ∈ cs, c.holds values = true := by
  match cs with
  | [] => simp [conjoin, holds]
  | [leaf] => simp [conjoin]
  | leaf :: more :: rest =>
    change allHold values (leaf :: more :: rest) = true ↔ _
    rw [allHold_iff, and_iff_right (List.cons_ne_nil _ _)]

/-- **What a record with keys of comparators means**: that it has such keys, and that the comparison
holds for each of them. -/
theorem holds_ofLeaf_of_keys (hfield : Table.find? fields "field" = some (.text path))
    (h : ∀ name, Table.find? fields "operator" ≠ some (.text name)) :
    (ofLeaf fields).holds values = true ↔ (∃ c : Comparator, Table.has fields c.key = true) ∧
      ∀ (c : Comparator) (operand : Value), Table.find? fields c.key = some operand →
        c.holds (values.at? path) operand = true := by
  rw [ofLeaf_of_keys hfield h, holds_conjoin, comparisons_ne_nil_iff]
  refine and_congr_right fun _ ↦ ⟨fun hall c operand hc ↦ ?_, fun hall d hd ↦ ?_⟩
  · exact hall _ (mem_comparisons.2 ⟨c, operand, hc, rfl⟩)
  · obtain ⟨c, operand, hc, rfl⟩ := mem_comparisons.1 hd
    exact hall c operand hc

/-- With one key left, that comparison is what the record means. -/
theorem holds_ofLeaf_onlyKey_of_keys (hfield : Table.find? fields "field" = some (.text path))
    (h : ∀ name, Table.find? fields "operator" ≠ some (.text name)) :
    (ofLeaf (onlyKey c fields)).holds values = true ↔
      ∃ operand, Table.find? fields c.key = some operand ∧
        c.holds (values.at? path) operand = true := by
  rw [holds_ofLeaf_of_keys ((find?_onlyKey_of_ofKey?_eq_none (by decide)).trans hfield)
    fun name ↦ (find?_onlyKey_of_ofKey?_eq_none (by decide)).trans_ne (h name)]
  simp only [Table.has, find?_onlyKey_key]
  constructor
  · rintro ⟨⟨c', hc'⟩, hall⟩
    split at hc'
    · rename_i heq
      subst heq
      obtain ⟨operand, hoperand⟩ := Option.isSome_iff_exists.1 hc'
      exact ⟨operand, hoperand, hall c' operand (by rwa [if_pos rfl])⟩
    · cases hc'
  · rintro ⟨operand, hoperand, hholds⟩
    refine ⟨⟨c, by rw [if_pos rfl, hoperand]; rfl⟩, fun c' operand' hc' ↦ ?_⟩
    split at hc'
    · rename_i heq
      subst heq
      exact Option.some.inj (hoperand.symm.trans hc') ▸ hholds
    · cases hc'

/-- **Several keys at once** mean what each of them means by itself, together. -/
theorem holds_ofLeaf_onlyKey (hkeys : ∃ c : Comparator, Table.has fields c.key = true) :
    (ofLeaf fields).holds values = true ↔ ∀ c : Comparator, Table.has fields c.key = true →
      (ofLeaf (onlyKey c fields)).holds values = true := by
  have hother (c : Comparator) {name : String} (h : Comparator.ofKey? name = none) :
      Table.find? (onlyKey c fields) name = Table.find? fields name :=
    find?_onlyKey_of_ofKey?_eq_none h
  -- where the keys are not looked at the record means the same without them
  have hconst
      (hleaf : ∀ c, (ofLeaf (onlyKey c fields)).holds values = (ofLeaf fields).holds values) :
      (ofLeaf fields).holds values = true ↔ ∀ c : Comparator, Table.has fields c.key = true →
        (ofLeaf (onlyKey c fields)).holds values = true := by
    simp only [hleaf]
    exact ⟨fun h _ _ ↦ h, fun h ↦ hkeys.elim h⟩
  by_cases hpath : ∃ path, Table.find? fields "field" = some (.text path)
  · obtain ⟨path, hpath⟩ := hpath
    by_cases hname : ∃ name, Table.find? fields "operator" = some (.text name)
    · obtain ⟨name, hname⟩ := hname
      have hpath' (c : Comparator) := (hother c (by decide)).trans hpath
      have hname' (c : Comparator) := (hother c (by decide)).trans hname
      refine hconst fun c ↦ ?_
      cases hkey : Comparator.ofKey? name with
      | some d =>
        obtain rfl := Comparator.ofKey?_eq_some_iff.1 hkey
        rw [ofLeaf_of_operator hpath hname, ofLeaf_of_operator (hpath' c) (hname' c),
          hother c (by decide)]
      | none =>
        rw [ofLeaf_of_unknown hpath hname hkey, ofLeaf_of_unknown (hpath' c) (hname' c) hkey]
        rfl
    · rw [not_exists] at hname
      rw [holds_ofLeaf_of_keys hpath hname, and_iff_right hkeys]
      simp only [holds_ofLeaf_onlyKey_of_keys hpath hname, Table.has, Option.isSome_iff_exists]
      constructor
      · rintro h c ⟨operand, hc⟩
        exact ⟨operand, hc, h c operand hc⟩
      · intro h c operand hc
        obtain ⟨operand', hc', hholds⟩ := h c ⟨operand, hc⟩
        exact Option.some.inj (hc'.symm.trans hc) ▸ hholds
  · rw [not_exists] at hpath
    refine hconst fun c ↦ ?_
    rw [ofLeaf_of_no_field hpath,
      ofLeaf_of_no_field fun path ↦ (hother c (by decide)).trans_ne (hpath path)]
    rfl

/-- **A record with several keys of comparators means the conjunction** of what it means with each
of them alone. -/
theorem holds_onlyKey (hkeys : ∃ c : Comparator, Table.has fields c.key = true) :
    (ofValue (.record fields)).holds values = true ↔
      ∀ c : Comparator, Table.has fields c.key = true →
        (ofValue (.record (onlyKey c fields))).holds values = true := by
  -- with no key of a comparator being read the record means the same without them
  have hconst {P : Prop} : P ↔ ∀ c : Comparator, Table.has fields c.key = true → P :=
    ⟨fun h _ _ ↦ h, fun h ↦ hkeys.elim h⟩
  have hand (c : Comparator) : Table.find? (onlyKey c fields) "and" = Table.find? fields "and" :=
    find?_onlyKey_of_ofKey?_eq_none (by decide)
  have hor (c : Comparator) : Table.find? (onlyKey c fields) "or" = Table.find? fields "or" :=
    find?_onlyKey_of_ofKey?_eq_none (by decide)
  have hnot (c : Comparator) : Table.find? (onlyKey c fields) "not" = Table.find? fields "not" :=
    find?_onlyKey_of_ofKey?_eq_none (by decide)
  simp only [ofValue_record, hand, hor, hnot]
  split
  · exact hconst
  · exact hconst
  · split
    · exact hconst
    · exact hconst
    · split
      · exact hconst
      · exact holds_ofLeaf_onlyKey hkeys

/-- **The laws of the reader.**  It reads a value without a remainder exactly if the value has the
data forms of conditions through and through.  A condition made of comparisons, junctions and
negations can be written in these forms, and however it is, reading gives it back.  A record with
keys of comparators holds, on whatever values, exactly if it does with each of these keys alone. -/
theorem reader_laws :
    (∀ v, (ofValue v).hasUnreadable = false ↔ Readable v) ∧
    (∀ c : Condition, c.isPlain = true → (∃ v, IsForm c v) ∧ ∀ v, IsForm c v → ofValue v = c) ∧
    (∀ fields values : Record, (∃ c : Comparator, Table.has fields c.key = true) →
      ((ofValue (.record fields)).holds values = true ↔
        ∀ c : Comparator, Table.has fields c.key = true →
          (ofValue (.record (onlyKey c fields))).holds values = true)) :=
  ⟨fun _ ↦ hasUnreadable_ofValue, fun c h ↦ ⟨exists_isForm c h, ofValue_of_isForm c⟩,
    fun _ _ ↦ holds_onlyKey⟩

/-- The ages from 18 on and below 65. -/
def ageRange : Record :=
  Table.ofList [("field", .text "age"), ("gte", .integer 18), ("lt", .integer 65)]

/-- The laws at work: one bound is read back, and both bounds at once are the two bounds
together. -/
theorem reader_laws_ageRange :
    ofValue (.record (keyForm "age" .atLeast (.integer 18))) = .field "age" .atLeast (.integer 18) ∧
      ((ofValue (.record ageRange)).holds [("age", .integer 30)] = true ↔
        ∀ c : Comparator, Table.has ageRange c.key = true →
          (ofValue (.record (onlyKey c ageRange))).holds [("age", .integer 30)] = true) := by
  obtain ⟨_, hwritten, hkeys⟩ := reader_laws
  refine ⟨(hwritten _ rfl).2 _ (.inr rfl), hkeys ageRange _ ⟨.atLeast, ?_⟩⟩
  rw [Table.has, ageRange, Table.find?_ofList]
  rfl

end Condition

end ReactiveForm
