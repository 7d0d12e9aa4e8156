import Mathlib.Data.List.Perm.Subperm
import ReactiveForm.Proofs.Clearing

/-!
# The rounds of clearing

Clearing a field can change what is computed, and what is computed can make more fields be cleared;
the graph of what reacts to what may have cycles, and a computed field may itself be cleared and
computed again.  The rounds come to an end all the same.  A round that is not the last one clears
something, what has been cleared is kept from then on, and what is kept is not cleared again.

`Schema.Rounds` counts the rounds.  `Rounds.add_length_cleared_le` is the measure: there are at most
as many rounds as there are clearing writes, and one.  `Schema.Singly` is the invariant that keeps
these writes apart, each of them at a name of its own among those that want to be cleared.  Nothing
is asked of the names or of the values.
-/

set_option autoImplicit false
namespace ReactiveForm
namespace Schema

variable {s : Schema} {epsilon : Binary64} {values : Record}
  {sources kept changed : List String} {st settled : Settling} {n : Nat}

/-! ## One round -/

theorem path_of_clearingWrite? {name : String} {w : Write}
    (h : s.clearingWrite? values name = some w) : w.path = name := by
  rw [clearingWrite?] at h
  split at h
  · cases h
  · rw [← Option.some.inj h]

/-- Clearing fields one after the other writes to some of their names, in this order. -/
theorem exists_writes_clearEach (s : Schema) (names : List String) (p : Progress) :
    ∃ ws, (s.clearEach names p).writes = p.writes ++ ws ∧ (ws.map (·.path)).Sublist names := by
  induction names generalizing p with
  | nil => exact ⟨[], (List.append_nil _).symm, .slnil⟩
  | cons name names ih =>
    obtain ⟨ws, hws, hsub⟩ := ih (p.extend (s.clearingWrite? p.values name))
    rw [clearEach, hws]
    cases hw : s.clearingWrite? p.values name with
    | none => exact ⟨ws, rfl, hsub.cons _⟩
    | some w =>
      refine ⟨w :: ws, List.append_assoc .., ?_⟩
      rw [List.map_cons, path_of_clearingWrite? hw]
      exact hsub.cons_cons _

/-- **A round clears no path twice.** -/
theorem nodup_paths_clearRound (s : Schema) (sources kept : List String) (values : Record) :
    ((s.clearRound sources kept values).writes.map (·.path)).Nodup := by
  obtain ⟨ws, hws, hsub⟩ := s.exists_writes_clearEach (s.clearTargets sources kept) ⟨values, []⟩
  rw [clearRound, hws]
  exact (s.nodup_clearTargets sources kept).sublist hsub

/-! ## Counted rounds -/

/-- **A run of rounds, counted.**  The last one finds nothing to clear; any other one is followed by
a pass that computes everything again, and by further rounds. -/
inductive Rounds (s : Schema) (epsilon : Binary64) :
    Nat → List String → List String → Settling → Settling → Prop where
  | last {sources kept : List String} {st : Settling}
      (idle : (s.clearRound sources kept st.values).writes = []) :
      Rounds s epsilon 1 sources kept st st
  | next {n : Nat} {sources kept : List String} {st settled : Settling} {round pass : Progress}
      (round_eq : round = s.clearRound sources kept st.values) (clears : round.writes ≠ [])
      (pass_eq : pass = s.computePass epsilon round.values)
      (later : Rounds s epsilon n ((round.writes ++ pass.writes).map (·.path))
        (kept ++ round.writes.map (·.path))
        ⟨pass.values, mergeWrites st.computed pass.writes, st.cleared ++ round.writes⟩ settled) :
      Rounds s epsilon (n + 1) sources kept st settled

/-- Settling takes some number of rounds. -/
theorem exists_rounds_settle (s : Schema) (epsilon : Binary64) (sources kept : List String)
    (st : Settling) :
    ∃ n, s.Rounds epsilon n sources kept st (s.settle epsilon sources kept st) := by
  induction sources, kept, st using settle.induct s epsilon with
  | case1 sources kept st round hround =>
    rw [settle_of_writes_eq_nil hround]
    exact ⟨1, .last hround⟩
  | case2 sources kept st round hround pass ih =>
    rw [settle_of_writes_ne_nil hround]
    obtain ⟨n, hn⟩ := ih
    exact ⟨n + 1, .next rfl hround rfl hn⟩

/-- **Every round but the last one clears something.** -/
theorem Rounds.add_length_cleared_le (h : s.Rounds epsilon n sources kept st settled) :
    n + st.cleared.length ≤ settled.cleared.length + 1 := by
  induction h with
  | last => omega
  | @next n _ _ st settled round _ _ clears _ _ ih =>
    have hpos : 0 < round.writes.length := List.length_pos_of_ne_nil clears
    rw [List.length_append] at ih
    omega

/-! ## One write at each path -/

/-- **No path has been cleared or computed twice**, and what has been cleared is kept. -/
structure Singly (changed kept : List String) (st : Settling) : Prop where
  kept_eq : kept = changed ++ st.cleared.map (·.path)
  nodup_cleared : (st.cleared.map (·.path)).Nodup
  nodup_computed : (st.computed.map (·.path)).Nodup

/-- A round clears other paths than those before it. -/
theorem Singly.round (h : Singly changed kept st) (s : Schema) (epsilon : Binary64)
    (sources : List String) :
    let round := s.clearRound sources kept st.values
    let pass := s.computePass epsilon round.values
    Singly changed (kept ++ round.writes.map (·.path))
      ⟨pass.values, mergeWrites st.computed pass.writes, st.cleared ++ round.writes⟩ where
  kept_eq := by rw [h.kept_eq, List.map_append, List.append_assoc]
  nodup_cleared := by
    rw [List.map_append]
    refine h.nodup_cleared.append (nodup_paths_clearRound ..) fun path hbefore hpath ↦ ?_
    obtain ⟨w, hw, rfl⟩ := List.mem_map.1 hpath
    refine (path_mem_of_mem_clearRound hw).2 ?_
    rw [h.kept_eq]
    exact List.mem_append_right _ hbefore
  nodup_computed := nodup_paths_mergeWrites h.nodup_computed _

/-- A recomputation settles with one write at each path. -/
theorem singly_settling (s : Schema) (epsilon : Binary64) (previous : Option Record)
    (next : Record) : ∃ kept, Singly (s.changed previous next) kept
      (s.settling epsilon previous next) := by
  obtain ⟨-, kept, hsingly, -⟩ := settling_induction s epsilon previous next
    (Q := fun _ kept st ↦ Singly (s.changed previous next) kept st)
    ⟨(List.append_nil _).symm, List.nodup_nil, nodup_paths_mergeWrites (by simp) _⟩
    fun sources _ _ h ↦ h.round s epsilon sources
  exact ⟨kept, hsingly⟩

/-- A path that is cleared is the name of a field that wants to be, and none is cleared twice. -/
theorem length_cleared_le (s : Schema) (flags : FormFlags) (epsilon : Binary64)
    (previous : Option Record) (next : Record) :
    (s.recompute flags epsilon previous next).cleared.length ≤
      (Names.ofList s.clearable).length := by
  obtain ⟨kept, hsingly⟩ := s.singly_settling epsilon previous next
  have hsubset : (s.recompute flags epsilon previous next).cleared.map (·.path) ⊆
      Names.ofList s.clearable := by
    intro path hpath
    obtain ⟨w, hw, rfl⟩ := List.mem_map.1 hpath
    exact Names.mem_ofList.2 (path_of_mem_cleared hw).1
  rw [← List.length_map (·.path)]
  exact (List.subperm_of_subset hsingly.nodup_cleared hsubset).length_le

/-- **Clearing ends, and does nothing twice.**  The rounds of a recomputation are at most one more
than the names of fields that want to be cleared; no path is cleared twice, none is cleared that
counts as changed, and none is computed twice. -/
theorem recompute_ends (s : Schema) (flags : FormFlags) (epsilon : Binary64)
    (previous : Option Record) (next : Record) :
    let changed := s.changed previous next
    let pass := s.computePass epsilon next
    let update := s.recompute flags epsilon previous next
    (∃ (n : Nat) (names : List String) (settled : Settling), names.Nodup ∧
      (∀ name, name ∈ names ↔ ∃ f, s.field? name = some f ∧ f.clearOnChange = true) ∧
      n ≤ names.length + 1 ∧
      s.Rounds epsilon n (changed ++ pass.writes.map (·.path)) changed
        ⟨pass.values, mergeWrites [] pass.writes, []⟩ settled ∧
      update = ⟨s.states settled.values flags, settled.computed, settled.cleared⟩) ∧
    (update.cleared.map (·.path)).Nodup ∧
    (update.cleared.map (·.path)).Disjoint changed ∧
    (update.computed.map (·.path)).Nodup := by
  intro changed pass update
  obtain ⟨kept, hsingly⟩ := s.singly_settling epsilon previous next
  obtain ⟨n, hrounds⟩ := s.exists_rounds_settle epsilon (changed ++ pass.writes.map (·.path))
    changed ⟨pass.values, mergeWrites [] pass.writes, []⟩
  have hmeasure : n ≤ update.cleared.length + 1 := hrounds.add_length_cleared_le
  have hcleared := s.length_cleared_le flags epsilon previous next
  refine ⟨⟨n, Names.ofList s.clearable, _, Names.nodup_ofList _, fun name ↦ ?_,
    Nat.le_trans hmeasure (Nat.succ_le_succ hcleared), hrounds, rfl⟩,
    hsingly.nodup_cleared, fun path hpath ↦ ?_, hsingly.nodup_computed⟩
  · rw [Names.mem_ofList, mem_clearable_iff]
  · obtain ⟨w, hw, rfl⟩ := List.mem_map.1 hpath
    exact (path_of_mem_cleared hw).2

end Schema

end ReactiveForm
