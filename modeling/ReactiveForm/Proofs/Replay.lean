import Mathlib
import ReactiveForm.Proofs.Steps

/-!
# Replaying the proposed writes

A recomputation works on a copy: passes of computing and rounds of clearing take turns.  What it
returns is not that history but two lists, the computed writes with one at each path, and behind
them those that clear.  A host replays the one list and then the other.

Replaying ends where the copy with its clearing made once more would end
(`Schema.applyAll_writes`).  So it ends on the settled values exactly if clearing them again changes
nothing; the two differ where a field is computed again after it has been cleared.

The argument is about histories of writes.  Writes that commute with the writes of a tail, or are
absorbed by one of them, can be dropped or moved behind it (`applyAll_congr_before`); writes that
are made again in the tail can be dropped (`applyAll_of_absorbed`); and merging is a move of the
later write to the place of the earlier one, which it absorbs (`applyAll_mergeWrites`).  With each
round, the clearing so far is such a tail.
-/

set_option autoImplicit false
namespace ReactiveForm

/-! ## Histories of writes

All this is said of records that are good in some sense, which the writes keep: it depends on the
records whether two writes commute. -/

namespace Write

variable {Good : Record → Prop} {a b w : Write} {ws zs : List Write}

/-- **A write of a value as a host could hold it.** -/
def Fits (w : Write) : Prop := ∀ v, w.value = some v → v.WellFormed

/-- Among good records, a write leads to good records. -/
def Keeps (Good : Record → Prop) (w : Write) : Prop := ∀ V, Good V → Good (V.apply w)

/-- Two writes that can be made in either order. -/
def Commutes (Good : Record → Prop) (a b : Write) : Prop :=
  ∀ V, Good V → (V.apply a).apply b = (V.apply b).apply a

/-- A write that a later one makes superfluous. -/
def Absorbed (Good : Record → Prop) (a b : Write) : Prop :=
  ∀ V, Good V → (V.apply a).apply b = V.apply b

/-- A write that a later one can be exchanged with or makes superfluous. -/
def Yields (Good : Record → Prop) (a b : Write) : Prop := Commutes Good a b ∨ Absorbed Good a b

/-- A run of writes leads from good records to good records. -/
theorem keeps_applyAll (h : ∀ w ∈ ws, Keeps Good w) {V : Record} (hV : Good V) :
    Good (V.applyAll ws) := by
  induction ws generalizing V with
  | nil => exact hV
  | cons w ws ih =>
    obtain ⟨hw, hws⟩ := List.forall_mem_cons.1 h
    exact ih hws (hw V hV)

/-- A write that commutes with all others can be made last as well as first. -/
theorem applyAll_apply (hkeeps : ∀ z ∈ zs, Keeps Good z) (h : ∀ z ∈ zs, Commutes Good w z)
    {V : Record} (hV : Good V) : (V.apply w).applyAll zs = (V.applyAll zs).apply w := by
  induction zs generalizing V with
  | nil => rfl
  | cons z zs ih =>
    obtain ⟨hz, hzs⟩ := List.forall_mem_cons.1 hkeeps
    obtain ⟨hcomm, hcomms⟩ := List.forall_mem_cons.1 h
    rw [Record.applyAll_cons, hcomm V hV, Record.applyAll_cons]
    exact ih hzs hcomms (hz V hV)

/-- **A write that yields to a tail** can be dropped or moved behind it. -/
theorem dropped_or_moved (hkeeps : ∀ z ∈ zs, Keeps Good z) (h : ∀ z ∈ zs, Yields Good w z) :
    (∀ V, Good V → (V.apply w).applyAll zs = V.applyAll zs) ∨
      ∀ V, Good V → (V.apply w).applyAll zs = (V.applyAll zs).apply w := by
  induction zs with
  | nil => exact .inr fun _ _ ↦ rfl
  | cons z zs ih =>
    obtain ⟨hz, hzs⟩ := List.forall_mem_cons.1 hkeeps
    obtain ⟨hyields, htail⟩ := List.forall_mem_cons.1 h
    rcases hyields with hcomm | habs
    · rcases ih hzs htail with hdrop | hmove
      · exact .inl fun V hV ↦ by
          rw [Record.applyAll_cons, hcomm V hV, hdrop _ (hz V hV), Record.applyAll_cons]
      · exact .inr fun V hV ↦ by
          rw [Record.applyAll_cons, hcomm V hV, hmove _ (hz V hV), Record.applyAll_cons]
    · exact .inl fun V hV ↦ by rw [Record.applyAll_cons, habs V hV, Record.applyAll_cons]

/-- **Records that a tail makes equal** stay so when writes that yield to the tail are made before
it. -/
theorem applyAll_congr_before (hkeeps : ∀ z ∈ zs, Keeps Good z) (hws : ∀ w ∈ ws, Keeps Good w)
    (h : ∀ w ∈ ws, ∀ z ∈ zs, Yields Good w z) {U V : Record} (hU : Good U) (hV : Good V)
    (heq : U.applyAll zs = V.applyAll zs) :
    (U.applyAll ws).applyAll zs = (V.applyAll ws).applyAll zs := by
  induction ws generalizing U V with
  | nil => exact heq
  | cons w ws ih =>
    obtain ⟨hw, hws⟩ := List.forall_mem_cons.1 hws
    obtain ⟨hyields, htail⟩ := List.forall_mem_cons.1 h
    refine ih hws htail (hw U hU) (hw V hV) ?_
    rcases dropped_or_moved hkeeps hyields with hdrop | hmove
    · rw [hdrop U hU, hdrop V hV, heq]
    · rw [hmove U hU, hmove V hV, heq]

/-- A write that yields to a tail and is absorbed somewhere in it can be dropped. -/
theorem dropped_of_absorbed (hkeeps : ∀ z ∈ zs, Keeps Good z) (h : ∀ z ∈ zs, Yields Good w z)
    (habs : ∃ z ∈ zs, Absorbed Good w z) {V : Record} (hV : Good V) :
    (V.apply w).applyAll zs = V.applyAll zs := by
  induction zs generalizing V with
  | nil => obtain ⟨z, hz, -⟩ := habs; exact absurd hz List.not_mem_nil
  | cons z zs ih =>
    obtain ⟨hz, hzs⟩ := List.forall_mem_cons.1 hkeeps
    obtain ⟨hyields, htail⟩ := List.forall_mem_cons.1 h
    rw [Record.applyAll_cons, Record.applyAll_cons]
    rcases hyields with hcomm | hzabs
    · obtain ⟨u, hu, huabs⟩ := habs
      rcases List.mem_cons.1 hu with rfl | hu
      · rw [huabs V hV]
      · rw [hcomm V hV]
        exact ih hzs htail ⟨u, hu, huabs⟩ (hz V hV)
    · rw [hzabs V hV]

/-- **Writes that are made again in a tail** can be dropped. -/
theorem applyAll_of_absorbed (hkeeps : ∀ z ∈ zs, Keeps Good z) (hws : ∀ w ∈ ws, Keeps Good w)
    (h : ∀ w ∈ ws, ∀ z ∈ zs, Yields Good w z) (habs : ∀ w ∈ ws, ∃ z ∈ zs, Absorbed Good w z)
    {V : Record} (hV : Good V) : (V.applyAll ws).applyAll zs = V.applyAll zs := by
  induction ws generalizing V with
  | nil => rfl
  | cons w ws ih =>
    obtain ⟨hw, hws⟩ := List.forall_mem_cons.1 hws
    obtain ⟨hyields, htail⟩ := List.forall_mem_cons.1 h
    obtain ⟨hwabs, habs⟩ := List.forall_mem_cons.1 habs
    rw [Record.applyAll_cons, ih hws htail habs (hw V hV)]
    exact dropped_of_absorbed hkeeps hyields hwabs hV

/-! ## Merging

To merge a write puts it in the place of the earlier one at its path.  It gets there past the writes
between the two, so it has to commute with them. -/

/-- Writes of which each absorbs an earlier one at its path and commutes with the others. -/
def Mergeable (Good : Record → Prop) (a b : Write) : Prop :=
  (a.path = b.path → Absorbed Good a b) ∧ (a.path ≠ b.path → Commutes Good b a)

/-- Merging one write is making it last. -/
theorem applyAll_mergeWrite (hkeeps : ∀ v ∈ ws, Keeps Good v)
    (h : ∀ v ∈ ws, Mergeable Good v w) (hnodup : (ws.map (·.path)).Nodup) {V : Record}
    (hV : Good V) : V.applyAll (mergeWrite w ws) = (V.applyAll ws).apply w := by
  induction ws generalizing V with
  | nil => rfl
  | cons v ws ih =>
    rw [List.map_cons, List.nodup_cons] at hnodup
    obtain ⟨hv, hkeeps⟩ := List.forall_mem_cons.1 hkeeps
    obtain ⟨hmerge, h⟩ := List.forall_mem_cons.1 h
    rw [mergeWrite]
    split
    · rename_i hpath
      have hother : ∀ u ∈ ws, u.path ≠ w.path := fun u hu heq ↦
        hnodup.1 (List.mem_map.2 ⟨u, hu, heq.trans hpath.symm⟩)
      have hcomm : ∀ u ∈ ws, Commutes Good w u := fun u hu ↦ (h u hu).2 (hother u hu)
      rw [Record.applyAll_cons, Record.applyAll_cons, ← applyAll_apply hkeeps hcomm (hv V hV),
        hmerge.1 hpath V hV]
    · rw [Record.applyAll_cons, Record.applyAll_cons]
      exact ih hkeeps h hnodup.2 (hv V hV)

/-- **Merging changes nothing but the order**, where writes are mergeable. -/
theorem applyAll_mergeWrites {more : List Write} (hws : ∀ v ∈ ws, Keeps Good v)
    (hmore : ∀ v ∈ more, Keeps Good v)
    (h : ∀ v, v ∈ ws ∨ v ∈ more → ∀ w ∈ more, Mergeable Good v w)
    (hnodup : (ws.map (·.path)).Nodup) {V : Record} (hV : Good V) :
    V.applyAll (mergeWrites ws more) = (V.applyAll ws).applyAll more := by
  induction more generalizing ws with
  | nil => rfl
  | cons w more ih =>
    have hmerged : ∀ v, v ∈ mergeWrite w ws → v ∈ ws ∨ v ∈ w :: more := fun v hv ↦
      (mem_mergeWrite hv).elim (fun hv ↦ .inr (hv ▸ List.mem_cons_self)) .inl
    rw [mergeWrites, List.foldl_cons, ← mergeWrites, ih (fun v hv ↦ ?_)
      (fun v hv ↦ hmore v (List.mem_cons_of_mem _ hv)) (fun v hv u hu ↦ ?_)
      (nodup_paths_mergeWrite hnodup w), applyAll_mergeWrite hws
      (fun v hv ↦ h v (.inl hv) w List.mem_cons_self) hnodup hV]
    · rfl
    · exact (hmerged v hv).elim (hws v) (hmore v)
    · refine h v ?_ u (List.mem_cons_of_mem _ hu)
      exact hv.elim (hmerged v) fun hv ↦ .inr (List.mem_cons_of_mem _ hv)

end Write

/-! ## Writes to regular records -/

namespace Write

variable {a b w : Write}

theorem Fits.keeps_regular (h : w.Fits) : w.Keeps Record.Regular := fun _ hV ↦
  ⟨hV.plain.apply w, hV.wellFormed.apply h⟩

/-- Writes to paths that lead apart commute. -/
theorem commutes_of_apart (h : Record.Apart a.path b.path) : Commutes Record.Regular a b :=
  fun _ hV ↦ Record.write_comm hV.wellFormed h _ _

/-- A write is absorbed by one that it lies inside of. -/
theorem absorbed_of_inside (h : Record.Inside a.path b.path) : Absorbed Record.Regular a b :=
  fun _ hV ↦ Record.write_absorb hV.plain hV.wellFormed h _ _

end Write

namespace Schema

open Write Record

variable {s : Schema} {epsilon : Binary64} {previous : Option Record} {next values : Record}
  {sources kept : List String} {w : Write} {st : Settling}

theorem fits_of_mem_computePass (h : values.WellFormed)
    (hw : w ∈ (s.computePass epsilon values).writes) : w.Fits := by
  refine (computePass_forall (Q := Fits) h fun V v hV hv ↦ ?_).2 w hw
  have hfits : v.Fits := fun _ ↦ hv.wellFormed hV
  exact ⟨hV.apply hfits, hfits⟩

theorem fits_of_mem_clearRound (hw : w ∈ (s.clearRound sources kept values).writes) : w.Fits :=
  clearRound_forall (fun _ _ hv _ ↦ hv.wellFormed) w hw

/-! ## Replaying a recomputation

The invariant of the rounds speaks of the values after the clearing has been made once more
(`Replayed`).  For in the history a pass of computing comes behind a round of clearing, while the
host makes all the clearing last; only behind the same clearing are the two the same. -/

/-- **How computed paths and cleared ones may lie to each other** for their writes to be replayed.
The records that computed writes lead to may be told apart further by `Early`. -/
structure Orderly (Early : Record → Prop) (computed cleared : String → Prop) : Prop where
  regular : ∀ V, Early V → V.Regular
  keeps : ∀ w : Write, computed w.path → w.Fits → w.Keeps Early
  commutes : ∀ a b : Write, computed a.path → computed b.path → a.Fits → b.Fits →
    a.path ≠ b.path → Commutes Early a b
  overlap : ∀ p q, computed p → cleared q → Apart p q ∨ Inside p q
  apart : ∀ p q, cleared p → cleared q → p ≠ q → Apart p q

/-- What the rounds keep true of the writes so far: replayed, they lead to the settling values with
the clearing made once more. -/
structure Replayed (next : Record) (st : Settling) : Prop where
  regular : st.values.Regular
  fits_computed : ∀ w ∈ st.computed, w.Fits
  fits_cleared : ∀ w ∈ st.cleared, w.Fits
  nodup : (st.computed.map (·.path)).Nodup
  replay : next.applyAll (st.computed ++ st.cleared) = st.values.applyAll st.cleared

section

variable {Early : Record → Prop} {computed cleared : String → Prop}

/-- Merging a pass into the computed writes changes nothing where the first values are. -/
theorem Orderly.applyAll_mergeWrites (h : Orderly Early computed cleared) (hnext : Early next)
    {ws more : List Write} (hws : ∀ w ∈ ws, w.Fits) (hmore : ∀ w ∈ more, w.Fits)
    (hnodup : (ws.map (·.path)).Nodup)
    (hpaths : ∀ p ∈ (mergeWrites ws more).map (·.path), computed p) :
    next.applyAll (mergeWrites ws more) = (next.applyAll ws).applyAll more := by
  have hpath : ∀ v, v ∈ ws ∨ v ∈ more → computed v.path := fun v hv ↦
    hpaths _ (mem_paths_mergeWrites.2 (hv.imp List.mem_map_of_mem List.mem_map_of_mem))
  have hfits : ∀ v, v ∈ ws ∨ v ∈ more → v.Fits := fun v hv ↦ hv.elim (hws v) (hmore v)
  refine Write.applyAll_mergeWrites
    (fun v hv ↦ h.keeps v (hpath v (.inl hv)) (hws v hv))
    (fun v hv ↦ h.keeps v (hpath v (.inr hv)) (hmore v hv)) (fun v hv w hw ↦ ⟨?_, ?_⟩) hnodup hnext
  · intro heq V hV
    exact absorbed_of_inside (heq ▸ Inside.refl _) V (h.regular V hV)
  · exact fun hne ↦ h.commutes w v (hpath w (.inr hw)) (hpath v hv) (hmore w hw) (hfits v hv)
      (Ne.symm hne)

/-- Writes that clear yield to each other, and each is absorbed by itself. -/
theorem Orderly.yields_of_cleared (h : Orderly Early computed cleared) {a b : Write}
    (ha : cleared a.path) (hb : cleared b.path) : Yields Regular a b := by
  by_cases heq : a.path = b.path
  · exact .inr (absorbed_of_inside (heq ▸ Inside.refl _))
  · exact .inl (commutes_of_apart (h.apart _ _ ha hb heq))

/-- A computed write yields to the writes that clear. -/
theorem Orderly.yields_of_computed (h : Orderly Early computed cleared) {a b : Write}
    (ha : computed a.path) (hb : cleared b.path) : Yields Regular a b :=
  (h.overlap _ _ ha hb).imp commutes_of_apart absorbed_of_inside

/-- The pass before the first round is replayed by the merged writes. -/
theorem Replayed.start (h : Orderly Early computed cleared) (hnext : Early next)
    (hpaths : ∀ p ∈ (mergeWrites [] (s.computePass epsilon next).writes).map (·.path),
      computed p) :
    Replayed next ⟨(s.computePass epsilon next).values,
      mergeWrites [] (s.computePass epsilon next).writes, []⟩ := by
  have hregular := h.regular next hnext
  have hfits : ∀ w ∈ (s.computePass epsilon next).writes, w.Fits := fun _ ↦
    fits_of_mem_computePass hregular.wellFormed
  have hnil : (([] : List Write).map (·.path)).Nodup := List.nodup_nil
  have hmerge : next.applyAll (mergeWrites [] (s.computePass epsilon next).writes) =
      (s.computePass epsilon next).values := by
    rw [h.applyAll_mergeWrites hnext (by simp) hfits hnil hpaths, computePass_values]
    rfl
  exact {
    regular := ⟨hregular.plain.computePass, hregular.wellFormed.computePass⟩
    fits_computed := fun w hw ↦ hfits w ((mem_mergeWrites hw).resolve_left List.not_mem_nil)
    fits_cleared := by simp
    nodup := nodup_paths_mergeWrites hnil _
    replay := by rw [List.append_nil, hmerge]; rfl }

/-- With the writes of a round behind it, the clearing makes the values after that round and the
replayed computed writes equal. -/
theorem Replayed.applyAll_round (hst : Replayed next st) (h : Orderly Early computed cleared)
    {ws : List Write} (hkeeps : ∀ w ∈ st.cleared ++ ws, Keeps Regular w)
    (hpath : ∀ w ∈ st.cleared ++ ws, cleared w.path) :
    (st.values.applyAll ws).applyAll (st.cleared ++ ws) =
      (next.applyAll st.computed).applyAll (st.cleared ++ ws) := by
  have hmem : ∀ w ∈ ws, w ∈ st.cleared ++ ws := fun _ hw ↦ List.mem_append_right _ hw
  rw [applyAll_of_absorbed hkeeps (fun w hw ↦ hkeeps w (hmem w hw))
    (fun w hw z hz ↦ h.yields_of_cleared (hpath w (hmem w hw)) (hpath z hz))
    (fun w hw ↦ ⟨w, hmem w hw, absorbed_of_inside (Inside.refl _)⟩) hst.regular,
    applyAll_append, ← hst.replay, applyAll_append, ← applyAll_append]

/-- One round more. -/
theorem Replayed.round (hst : Replayed next st) (h : Orderly Early computed cleared)
    (hnext : Early next) :
    let round := s.clearRound sources kept st.values
    let pass := s.computePass epsilon round.values
    (∀ p ∈ (mergeWrites st.computed pass.writes).map (·.path), computed p) →
      (∀ p ∈ (st.cleared ++ round.writes).map (·.path), cleared p) →
      Replayed next
        ⟨pass.values, mergeWrites st.computed pass.writes, st.cleared ++ round.writes⟩ := by
  intro round pass hcomputed hcleared
  have hregular := h.regular next hnext
  have hround : round.values.Regular :=
    ⟨hst.regular.plain.clearRound, hst.regular.wellFormed.clearRound⟩
  have hpassFits : ∀ w ∈ pass.writes, w.Fits := fun _ ↦
    fits_of_mem_computePass hround.wellFormed
  have hpassPath : ∀ w ∈ pass.writes, computed w.path := fun w hw ↦
    hcomputed _ (mem_paths_mergeWrites.2 (.inr (List.mem_map_of_mem hw)))
  have hmergedFits : ∀ w ∈ mergeWrites st.computed pass.writes, w.Fits := fun w hw ↦
    (mem_mergeWrites hw).elim (hst.fits_computed w) (hpassFits w)
  have hclearFits : ∀ w ∈ st.cleared ++ round.writes, w.Fits := fun w hw ↦
    (List.mem_append.1 hw).elim (hst.fits_cleared w) fun hw ↦ fits_of_mem_clearRound hw
  have hclearPath : ∀ w ∈ st.cleared ++ round.writes, cleared w.path := fun w hw ↦
    hcleared _ (List.mem_map_of_mem hw)
  have hkeeps : ∀ w ∈ st.cleared ++ round.writes, Keeps Regular w := fun w hw ↦
    (hclearFits w hw).keeps_regular
  have hcomputedRegular : (next.applyAll st.computed).Regular :=
    keeps_applyAll (fun w hw ↦ (hst.fits_computed w hw).keeps_regular) hregular
  have hbefore := hst.applyAll_round h hkeeps hclearPath
  have hroundValues : round.values = st.values.applyAll round.writes := clearRound_values ..
  have hafter : (round.values.applyAll pass.writes).applyAll (st.cleared ++ round.writes) =
      ((next.applyAll st.computed).applyAll pass.writes).applyAll (st.cleared ++ round.writes) :=
    applyAll_congr_before hkeeps (fun w hw ↦ (hpassFits w hw).keeps_regular)
      (fun w hw z hz ↦ h.yields_of_computed (hpassPath w hw) (hclearPath z hz)) hround
      hcomputedRegular (hroundValues ▸ hbefore)
  have hmerge := h.applyAll_mergeWrites hnext hst.fits_computed hpassFits hst.nodup hcomputed
  have hpassValues : pass.values = round.values.applyAll pass.writes := computePass_values ..
  exact {
    regular := ⟨hround.plain.computePass, hround.wellFormed.computePass⟩
    fits_computed := hmergedFits
    fits_cleared := hclearFits
    nodup := nodup_paths_mergeWrites hst.nodup _
    replay := by rw [applyAll_append, hmerge, ← hafter, ← hpassValues] }

/-- All rounds. -/
theorem Replayed.settle (hst : Replayed next st) (h : Orderly Early computed cleared)
    (hnext : Early next)
    (hcomputed : ∀ p ∈ (s.settle epsilon sources kept st).computed.map (·.path), computed p)
    (hcleared : ∀ p ∈ (s.settle epsilon sources kept st).cleared.map (·.path), cleared p) :
    Replayed next (s.settle epsilon sources kept st) := by
  induction sources, kept, st using Schema.settle.induct s epsilon with
  | case1 sources kept st round hround =>
    rw [settle_of_writes_eq_nil hround]
    exact hst
  | case2 sources kept st round hround pass ih =>
    rw [settle_of_writes_ne_nil hround] at hcomputed hcleared ⊢
    refine ih (hst.round h hnext (fun p hp ↦ ?_) fun p hp ↦ ?_) hcomputed hcleared
    · exact hcomputed p (paths_subset_settle.1 hp)
    · exact hcleared p (paths_subset_settle.2 hp)

theorem settling_replayed (h : Orderly Early computed cleared) (hnext : Early next)
    (hcomputed : ∀ p ∈ (s.settling epsilon previous next).computed.map (·.path), computed p)
    (hcleared : ∀ p ∈ (s.settling epsilon previous next).cleared.map (·.path), cleared p) :
    Replayed next (s.settling epsilon previous next) :=
  (Replayed.start h hnext fun p hp ↦ hcomputed p (paths_subset_settle.1 hp)).settle h hnext
    hcomputed hcleared

end

/-- **Replaying the proposed writes** leads to the settled values with the clearing made once
more. -/
theorem applyAll_writes {Early : Record → Prop} {computed cleared : String → Prop}
    (h : Orderly Early computed cleared) (hnext : Early next) (flags : FormFlags)
    (hcomputed : ∀ p ∈ (s.recompute flags epsilon previous next).computed.map (·.path), computed p)
    (hcleared : ∀ p ∈ (s.recompute flags epsilon previous next).cleared.map (·.path), cleared p) :
    next.applyAll (s.recompute flags epsilon previous next).writes =
      (s.settling epsilon previous next).values.applyAll
        (s.recompute flags epsilon previous next).cleared :=
  (settling_replayed h hnext hcomputed hcleared).replay

end Schema

/-! ## Writes that do not overlap -/

/-- **Proposed writes that do not overlap**, except that a computed path may be a cleared one or lie
inside it. -/
structure Update.Separate (u : Update) : Prop where
  computed : ∀ p ∈ u.computed.map (·.path), ∀ q ∈ u.computed.map (·.path),
    p ≠ q → Record.Apart p q
  cleared : ∀ p ∈ u.cleared.map (·.path), ∀ q ∈ u.cleared.map (·.path),
    p ≠ q → Record.Apart p q
  overlap : ∀ p ∈ u.computed.map (·.path), ∀ q ∈ u.cleared.map (·.path),
    Record.Apart p q ∨ Record.Inside p q

theorem Update.Separate.orderly {u : Update} (h : u.Separate) :
    Schema.Orderly Record.Regular (· ∈ u.computed.map (·.path)) (· ∈ u.cleared.map (·.path)) where
  regular _ hV := hV
  keeps _ _ hw := hw.keeps_regular
  commutes _ _ ha hb _ _ hne := Write.commutes_of_apart (h.computed _ ha _ hb hne)
  overlap p q hp hq := h.overlap p hp q hq
  apart p q hp hq := h.cleared p hp q hq

/-- **The states are those of the replayed values** exactly if making the clearing once more leaves
the states of the settled values as they are.  It does if each of its writes finds its path cleared
already. -/
theorem Schema.states_replay_iff (s : Schema) (flags : FormFlags) (epsilon : Binary64)
    (previous : Option Record) {next : Record} (hplain : next.Plain) (hnext : next.WellFormed)
    (hseparate : (s.recompute flags epsilon previous next).Separate) :
    let u := s.recompute flags epsilon previous next
    let settled := (s.settling epsilon previous next).values
    (u.states = s.states (next.applyAll u.writes) flags ↔
      s.states settled flags = s.states (settled.applyAll u.cleared) flags) ∧
    ((∀ w ∈ u.cleared, settled.apply w = settled) → next.applyAll u.writes = settled) := by
  intro u settled
  have hreplay : next.applyAll u.writes = settled.applyAll u.cleared :=
    applyAll_writes hseparate.orderly ⟨hplain, hnext⟩ flags (fun _ ↦ id) (fun _ ↦ id)
  refine ⟨by rw [hreplay]; rfl, fun hcleared ↦ ?_⟩
  rw [hreplay]
  exact List.foldlRecOn (motive := (· = settled)) _ _ rfl fun V hV w hw ↦ hV ▸ hcleared w hw

/-! ### A field that is computed after it has been cleared -/

namespace Schema

open Record

/-- A double that is cleared when the number changes. -/
def doubled : Field :=
  { name := "c", component := "number", clearOnChange := true
    computation := some { source := "a * 2" } }

/-- A number, its double, and a field that shows when the double is four. -/
def doubledSchema : Schema where
  fields := [{ name := "a", component := "number" }, doubled,
    { name := "d", component := "input", visibleWhen := some (.field "c" .equals (.integer 4)) }]
  computeOrder := ["c"]

theorem evaluate_doubled {values : Record} (h : values.at? "a" = some (.integer 2)) :
    ({ source := "a * 2" } : Computation).evaluate values = some (.integer 4) :=
  Computation.evaluate_of_inputs (by decide +kernel) (by decide +kernel) h

theorem computePass_doubled (values : Record) (h : values.at? "a" = some (.integer 2))
    (hchange : changesMaterially (values.at? "c") (some (.integer 4)) defaultEpsilon = true) :
    doubledSchema.computePass defaultEpsilon values =
      ⟨values.put "c" (some (.integer 4)), [⟨"c", some (.integer 4), .system⟩]⟩ := by
  have hpass : doubledSchema.computePass defaultEpsilon values = (⟨values, []⟩ : Progress).extend
      (doubled.computedWrite? defaultEpsilon "c" values (values.at? "c")) := rfl
  have hvalue : doubled.computation.bind (·.evaluate values) = some (.integer 4) :=
    evaluate_doubled h
  rw [hpass, Declaration.computedWrite?, hvalue, hchange]
  rfl

/-- The double is computed, cleared, and computed again. -/
theorem settling_doubled :
    doubledSchema.settling defaultEpsilon (some [("a", .integer 1), ("c", .integer 2)])
        [("a", .integer 2), ("c", .integer 2)] =
      ⟨[("a", .integer 2), ("c", .integer 4)], [⟨"c", some (.integer 4), .system⟩],
        [⟨"c", none, .system⟩]⟩ := by
  have hchanged : doubledSchema.changed (some [("a", .integer 1), ("c", .integer 2)])
      [("a", .integer 2), ("c", .integer 2)] = ["a"] := by decide +kernel
  have hfirst := computePass_doubled [("a", .integer 2), ("c", .integer 2)] rfl (by decide +kernel)
  have hsecond := computePass_doubled [("a", .integer 2)] rfl (by decide +kernel)
  have htargets : doubledSchema.clearTargets ["a", "c"] ["a"] = ["c"] := by cbv
  have hround : doubledSchema.clearRound ["a", "c"] ["a"]
      [("a", .integer 2), ("c", .integer 4)] = ⟨[("a", .integer 2)], [⟨"c", none, .system⟩]⟩ := by
    rw [clearRound, htargets]
    rfl
  have hnoTargets : doubledSchema.clearTargets ["c", "c"] ["a", "c"] = [] := by cbv
  have hlast : (doubledSchema.clearRound ["c", "c"] ["a", "c"]
      [("a", .integer 2), ("c", .integer 4)]).writes = [] := by
    rw [clearRound, hnoTargets]
    rfl
  have hstart : doubledSchema.settling defaultEpsilon
        (some [("a", .integer 1), ("c", .integer 2)]) [("a", .integer 2), ("c", .integer 2)] =
      doubledSchema.settle defaultEpsilon ["a", "c"] ["a"]
        ⟨[("a", .integer 2), ("c", .integer 4)], [⟨"c", some (.integer 4), .system⟩], []⟩ := by
    rw [settling, hchanged, hfirst]
    rfl
  rw [hstart, settle.eq_1, dif_neg (by rw [hround]; simp), hround]
  simp only [hsecond]
  exact (settle.eq_1 ..).trans (dif_pos hlast)

/-- **The replayed states differ** where the double shows a field and is cleared in the end. -/
theorem states_doubled_ne_replayed :
    ofFields defaultDepthLimit doubledSchema.fields = .ok doubledSchema ∧
      (doubledSchema.recompute {} defaultEpsilon
          (some [("a", .integer 1), ("c", .integer 2)])
          [("a", .integer 2), ("c", .integer 2)]).states ≠
        doubledSchema.states (Record.applyAll [("a", .integer 2), ("c", .integer 2)]
          (doubledSchema.recompute {} defaultEpsilon
            (some [("a", .integer 1), ("c", .integer 2)])
            [("a", .integer 2), ("c", .integer 2)]).writes) {} := by
  refine ⟨ofFields_of_order rfl (by cbv), fun heq ↦ ?_⟩
  have hvisible := congrArg (fun t ↦ (Table.find? t "d").map (·.visible)) heq
  rw [recompute_eq, settling_doubled] at hvisible
  revert hvisible
  decide +kernel

/-- What is said about replaying holds of the double: its two writes go to one path. -/
theorem doubled_replay :
    (doubledSchema.recompute {} defaultEpsilon (some [("a", .integer 1), ("c", .integer 2)])
        [("a", .integer 2), ("c", .integer 2)]).states =
      doubledSchema.states (Record.applyAll [("a", .integer 2), ("c", .integer 2)]
        (doubledSchema.recompute {} defaultEpsilon (some [("a", .integer 1), ("c", .integer 2)])
          [("a", .integer 2), ("c", .integer 2)]).writes) {} ↔
      doubledSchema.states [("a", .integer 2), ("c", .integer 4)] {} =
        doubledSchema.states [("a", .integer 2)] {} := by
  have hwellFormed : Record.WellFormed [("a", .integer 2), ("c", .integer 2)] :=
    .record (by decide) fun e he ↦ by
      simp only [List.mem_cons, List.not_mem_nil, or_false] at he
      rcases he with rfl | rfl <;> exact .integer 2
  have hseparate : (doubledSchema.recompute {} defaultEpsilon
      (some [("a", .integer 1), ("c", .integer 2)])
      [("a", .integer 2), ("c", .integer 2)]).Separate := by
    rw [recompute_eq, settling_doubled]
    refine ⟨by simp, by simp, fun p hp q hq ↦ .inr ?_⟩
    rw [List.mem_singleton.1 hp, List.mem_singleton.1 hq]
    exact Inside.refl _
  refine (states_replay_iff doubledSchema {} defaultEpsilon
    (some [("a", .integer 1), ("c", .integer 2)]) (by decide) hwellFormed hseparate).1.trans ?_
  rw [recompute_eq, settling_doubled]
  rfl

end Schema

end ReactiveForm
