/-
What the search loop counts: for every priority-ordered table of non-empty candidate
lists with well-formed costs, the pruned odometer ends with `valid_count` equal to the
number of index vectors in the whole product whose assignment fits — the brute-force
count — and, stopped by the inner-iteration budget, to the number of fitting vectors
lexicographically below the cursors it stopped at.

# The scan

`scanAssignment` adds the selected candidates to a running grouping and breaks at the
first RPC whose add pushes the total over the threshold. Because totals only grow
(`totalMemCost_le_addAll`), no break means the whole assignment fits, and a break means
it does not (`scanAssignment_valid_iff`). A break at `b` only looks at the first `b + 1`
cursors, so every vector with the same prefix breaks at `b` too
(`scanAssignment_break_prefix`).

# The invariant

`SearchInv`: the cursors are in range and `valid_count` is the number of fitting vectors
of smaller rank (`fitsBelow`). A turn breaking at `bi` moves the rank to the next multiple
of `S (bi+1)` (`carry_some`); every vector skipped shares the cursors' prefix through `bi`
and so does not fit, and on the no-break turn (`bi` is the last RPC, `S = 1`) the one
vector passed fits and is counted. The rank strictly grows and stays below `Π lens`, so
`Π lens` turns of fuel are enough and the loop never indexes out of range.
-/
import ReaLHF.Profiler.Proofs.Odometer
import ReaLHF.Profiler.Proofs.GroupedCost

namespace ReaLHF.Profiler

variable (isAllOverlap : List DeviceMesh → DeviceMesh → Bool) (threshold : Int)

-- ============================================================ statement vocabulary

/-- The candidates index vector `v` selects: `table[i][v[i]]` for every RPC `i`. -/
def selectCandidates (table : List (List RPCExecution)) (v : List Nat) :
    List RPCExecution :=
  (table.zip v).filterMap fun p => p.1[p.2]?

/-- The assignment `v` selects fits: a fresh grouping after adding the selected
candidates in priority order has `total_mem_cost() <= threshold`. -/
def assignmentFits (table : List (List RPCExecution)) (v : List Nat) : Bool :=
  decide (((GroupedRPCExecutions.mk []).addAll isAllOverlap
    (selectCandidates table v)).totalMemCost ≤ threshold)

theorem selectCandidates_cons {cands : List RPCExecution} {k : Nat} (hk : k < cands.length)
    (table : List (List RPCExecution)) (v : List Nat) :
    selectCandidates (cands :: table) (k :: v) = cands[k] :: selectCandidates table v := by
  simp [selectCandidates, List.getElem?_eq_getElem hk]

-- ================================================================== the scan

/-- The scan of an in-range vector never raises. -/
theorem scanAssignment_isSome (g : GroupedRPCExecutions) (i : Nat)
    {table : List (List RPCExecution)} {v : List Nat}
    (hv : List.Forall₂ (· < ·) v (table.map List.length)) :
    ∃ x, scanAssignment isAllOverlap threshold g i table v = some x := by
  induction table generalizing g i v with
  | nil => exact ⟨none, by cases v <;> rfl⟩
  | cons cands t ih =>
    obtain ⟨k, v, hk, hv', rfl⟩ := List.forall₂_cons_right_iff.1 hv
    simp only [scanAssignment, List.getElem?_eq_getElem hk]
    split
    · exact ⟨_, rfl⟩
    · exact ih _ _ hv'

/-- A break is reported at a position of the scanned range. -/
theorem scanAssignment_break_lt {g : GroupedRPCExecutions} {i b : Nat}
    {table : List (List RPCExecution)} {v : List Nat}
    (h : scanAssignment isAllOverlap threshold g i table v = some (some b)) :
    i ≤ b ∧ b < i + table.length := by
  induction table generalizing g i v with
  | nil => cases v <;> cases h
  | cons cands t ih =>
    cases v with
    | nil => cases h
    | cons k v =>
      simp only [scanAssignment] at h
      split at h
      · cases h
      · split at h
        · cases h
          simp
        · have := ih h
          simp only [List.length_cons]
          omega

/-- A break at `b` only read the first `b - i + 1` cursors: any vector sharing them
breaks at `b` as well. -/
theorem scanAssignment_break_prefix {g : GroupedRPCExecutions} {i b : Nat}
    {table : List (List RPCExecution)} {v w : List Nat}
    (h : scanAssignment isAllOverlap threshold g i table v = some (some b))
    (hvw : v.take (b - i + 1) = w.take (b - i + 1)) :
    scanAssignment isAllOverlap threshold g i table w = some (some b) := by
  have hib := (scanAssignment_break_lt isAllOverlap threshold h).1
  induction table generalizing g i v w with
  | nil => cases v <;> cases h
  | cons cands t ih =>
    cases v with
    | nil => cases h
    | cons k v =>
      cases w with
      | nil => simp at hvw
      | cons k' w =>
        rw [List.take_succ_cons, List.take_succ_cons, List.cons.injEq] at hvw
        obtain ⟨rfl, hvw⟩ := hvw
        simp only [scanAssignment] at h ⊢
        cases hck : cands[k]? with
        | none => rw [hck] at h; cases h
        | some e =>
          rw [hck] at h
          dsimp only at h ⊢
          by_cases hov : threshold < (g.add isAllOverlap e).totalMemCost
          · rw [if_pos hov] at h ⊢
            exact h
          · rw [if_neg hov] at h ⊢
            have hb := (scanAssignment_break_lt isAllOverlap threshold h).1
            exact ih h (by rw [show b - (i + 1) + 1 = b - i by omega]; exact hvw) hb

/-- No break exactly when the whole assignment fits: totals only grow, so the first
total over the threshold stays over it to the end. -/
theorem scanAssignment_valid_iff {g : GroupedRPCExecutions} {i : Nat}
    {table : List (List RPCExecution)} {v : List Nat} (hn : table ≠ [])
    (hv : List.Forall₂ (· < ·) v (table.map List.length)) (hg : g.CostBounded)
    (hwf : ∀ c ∈ table, ∀ e ∈ c, e.WellFormed) :
    scanAssignment isAllOverlap threshold g i table v = some none ↔
      (g.addAll isAllOverlap (selectCandidates table v)).totalMemCost ≤ threshold := by
  induction table generalizing g i v with
  | nil => exact absurd rfl hn
  | cons cands t ih =>
    obtain ⟨k, v, hk, hv', rfl⟩ := List.forall₂_cons_right_iff.1 hv
    have he : cands[k].WellFormed := hwf cands (.head _) _ (List.getElem_mem hk)
    have hg' := add_costBounded isAllOverlap hg he
    have hwf' : ∀ c ∈ t, ∀ e ∈ c, e.WellFormed := fun c hc => hwf c (.tail _ hc)
    rw [selectCandidates_cons hk, addAll_cons]
    simp only [scanAssignment, List.getElem?_eq_getElem hk]
    split
    · have := @totalMemCost_le_addAll isAllOverlap _ (selectCandidates t v) hg'
        fun e he => by
          obtain ⟨p, hp, hpe⟩ := List.mem_filterMap.1 he
          exact hwf' _ (List.of_mem_zip hp).1 _ (List.getElem?_mem hpe)
      exact ⟨fun h => (by cases h), fun h => (by omega)⟩
    · cases t with
      | nil =>
        cases hv'
        simp_all [selectCandidates, scanAssignment]
      | cons c' t => exact ih (List.cons_ne_nil _ _) hv' hg' hwf'

-- ============================================================== the invariant

/-- The fitting assignments among the vectors of rank below `r`. -/
def fitsBelow (table : List (List RPCExecution)) (r : Nat) : Nat :=
  ((List.range r).map (unrank (table.map List.length))).countP
    (assignmentFits isAllOverlap threshold table)

/-- The loop invariant: cursors in range, and `valid_count` counts the fitting vectors of
smaller rank. -/
def SearchInv (table : List (List RPCExecution)) (s : SearchState) : Prop :=
  List.Forall₂ (· < ·) s.index (table.map List.length) ∧
    s.validCount =
      fitsBelow isAllOverlap threshold table (rank (table.map List.length) s.index)

theorem fitsBelow_succ (table : List (List RPCExecution)) (r : Nat) :
    fitsBelow isAllOverlap threshold table (r + 1) =
      fitsBelow isAllOverlap threshold table r +
        if assignmentFits isAllOverlap threshold table (unrank (table.map List.length) r)
        then 1 else 0 := by
  simp [fitsBelow, List.range_succ, List.countP_append, List.countP_cons]

/-- Passing over vectors none of which fits leaves the count. -/
theorem fitsBelow_skip (table : List (List RPCExecution)) {r r' : Nat} (hrr' : r ≤ r')
    (hskip : ∀ k, r ≤ k → k < r' →
      assignmentFits isAllOverlap threshold table (unrank (table.map List.length) k) = false) :
    fitsBelow isAllOverlap threshold table r' = fitsBelow isAllOverlap threshold table r := by
  obtain ⟨d, rfl⟩ := Nat.exists_eq_add_of_le hrr'
  have hzero : (((List.range d).map (r + ·)).map (unrank (table.map List.length))).countP
      (assignmentFits isAllOverlap threshold table) = 0 := by
    rw [List.countP_eq_zero]
    intro x hx
    simp only [List.map_map, List.mem_map, List.mem_range, Function.comp] at hx
    obtain ⟨j, hj, rfl⟩ := hx
    simp [hskip (r + j) (by omega) (by omega)]
  rw [fitsBelow, fitsBelow, List.range_add, List.map_append, List.countP_append, hzero,
    Nat.add_zero]

/-- Every vector of rank in `[r, (r / S + 1) · S)`, `S = S (b+1)`, shares the first
`b + 1` cursors of the vector of rank `r`. -/
theorem take_unrank_of_lt_next (lens : List Nat) {b r k : Nat} (hrk : r ≤ k)
    (hk : k < (r / (lens.drop (b + 1)).prod + 1) * (lens.drop (b + 1)).prod) :
    (unrank lens k).take (b + 1) = (unrank lens r).take (b + 1) := by
  rw [take_unrank, take_unrank,
    Nat.div_eq_of_lt_le ((Nat.div_mul_le_self r _).trans hrk) hk]

-- ==================================================================== one turn

/-- The count after one turn: the rank's next multiple of `S (bi+1)` adds the passed
vector when the scan found no break, and nothing when it broke at `bi`. -/
theorem fitsBelow_next {table : List (List RPCExecution)} (hn : table ≠ [])
    (hwf : ∀ c ∈ table, ∀ e ∈ c, e.WellFormed) {v : List Nat}
    (hv : List.Forall₂ (· < ·) v (table.map List.length)) {x : Option Nat}
    (hx : scanAssignment isAllOverlap threshold ⟨[]⟩ 0 table v = some x) :
    fitsBelow isAllOverlap threshold table
        ((rank (table.map List.length) v /
            ((table.map List.length).drop (x.getD (table.length - 1) + 1)).prod + 1) *
          ((table.map List.length).drop (x.getD (table.length - 1) + 1)).prod) =
      fitsBelow isAllOverlap threshold table (rank (table.map List.length) v) +
        if x.isNone then 1 else 0 := by
  cases x with
  | none =>
    have hfit : assignmentFits isAllOverlap threshold table v = true := by
      simpa [assignmentFits] using (scanAssignment_valid_iff isAllOverlap threshold hn hv
        empty_costBounded hwf).1 hx
    have hn0 := List.length_pos.2 hn
    have hdrop : (table.map List.length).drop (table.length - 1 + 1) = [] :=
      List.drop_eq_nil_of_le (by simp; omega)
    simp [hdrop, fitsBelow_succ, unrank_rank hv, hfit]
  | some b =>
    have hb := (scanAssignment_break_lt isAllOverlap threshold hx).2
    have hS := prod_drop_pos hv (b + 1)
    simp only [Option.getD_some, Option.isNone_some, if_false, Nat.add_zero]
    refine fitsBelow_skip isAllOverlap threshold table (lt_next_multiple _ hS).le
      fun k hrk hk => ?_
    have hkN : k < (table.map List.length).prod :=
      Nat.lt_of_lt_of_le hk (next_multiple_le_prod hv (by simpa using hb))
    have hbreak := scanAssignment_break_prefix isAllOverlap threshold hx
      (w := unrank (table.map List.length) k) (by
        rw [Nat.sub_zero, take_unrank_of_lt_next _ hrk hk, unrank_rank hv])
    have hk' := (scanAssignment_valid_iff isAllOverlap threshold hn
      (unrank_forall₂ hkN) empty_costBounded hwf (i := 0)).not.1 (by rw [hbreak]; simp)
    simpa [assignmentFits] using hk'

/-- One turn from an invariant state: either the carry runs out and the count is complete,
or the invariant holds again at a strictly larger rank. -/
theorem searchStep_spec {table : List (List RPCExecution)} (hn : table ≠ [])
    (hwf : ∀ c ∈ table, ∀ e ∈ c, e.WellFormed) {s : SearchState}
    (hs : SearchInv isAllOverlap threshold table s) :
    ∃ s' outer, searchStep isAllOverlap threshold table s = some (s', outer) ∧
      (outer = true → s'.validCount =
        fitsBelow isAllOverlap threshold table (table.map List.length).prod) ∧
      (outer = false → SearchInv isAllOverlap threshold table s' ∧
        rank (table.map List.length) s.index < rank (table.map List.length) s'.index) := by
  obtain ⟨hbox, hcount⟩ := hs
  obtain ⟨x, hx⟩ := scanAssignment_isSome isAllOverlap threshold ⟨[]⟩ 0 hbox
  have hbi : x.getD (table.length - 1) < (table.map List.length).length := by
    have hn0 := List.length_pos.2 hn
    cases x with
    | none => simp; omega
    | some b =>
      have := (scanAssignment_break_lt isAllOverlap threshold hx).2
      simp; omega
  have hvalid : (if x.isNone then s.validCount + 1 else s.validCount) =
      fitsBelow isAllOverlap threshold table
        ((rank (table.map List.length) s.index /
            ((table.map List.length).drop (x.getD (table.length - 1) + 1)).prod + 1) *
          ((table.map List.length).drop (x.getD (table.length - 1) + 1)).prod) := by
    rw [fitsBelow_next isAllOverlap threshold hn hwf hbox hx, ← hcount]
    split <;> rfl
  simp only [searchStep, hx, Option.bind_eq_bind, Option.some_bind]
  cases hc : carry (table.map List.length) s.index (x.getD (table.length - 1)) with
  | none =>
    refine ⟨_, true, rfl, fun _ => ?_, (fun h => nomatch h)⟩
    rw [hvalid, carry_none hbox hbi hc]
  | some p =>
    obtain ⟨b, idx⟩ := p
    obtain ⟨hbox', hrank⟩ := carry_some hbox hbi hc
    refine ⟨_, false, rfl, (fun h => nomatch h), fun _ => ⟨⟨hbox', ?_⟩, ?_⟩⟩
    · rw [hrank, ← hvalid]
    · rw [hrank]
      exact lt_next_multiple _ (prod_drop_pos hbox _)

-- ======================================================================= runs

/-- A run from an invariant state with at least `Π lens - rank` turns of fuel returns:
exhausted with the complete count, or stopped by the budget in an invariant state. -/
theorem searchLoop_spec {table : List (List RPCExecution)} (hn : table ≠ [])
    (hwf : ∀ c ∈ table, ∀ e ∈ c, e.WellFormed) (budget : Option Nat) :
    ∀ (fuel : Nat) (s : SearchState), SearchInv isAllOverlap threshold table s →
      (table.map List.length).prod ≤ rank (table.map List.length) s.index + fuel →
      ∃ s' outer, searchLoop isAllOverlap threshold budget table fuel s = some (s', outer) ∧
        (outer = true → s'.validCount =
          fitsBelow isAllOverlap threshold table (table.map List.length).prod) ∧
        (outer = false → budgetHit budget s'.innerCount = true ∧
          SearchInv isAllOverlap threshold table s')
  | 0, s, hs, hfuel => absurd hfuel (by have := rank_lt hs.1; omega)
  | fuel + 1, s, hs, hfuel => by
    obtain ⟨s', outer, hstep, hdone, hmore⟩ := searchStep_spec isAllOverlap threshold hn hwf hs
    simp only [searchLoop, hstep, Option.bind_eq_bind, Option.some_bind]
    by_cases hstop : (outer || budgetHit budget s'.innerCount) = true
    · rw [if_pos hstop]
      refine ⟨s', outer, rfl, hdone, fun houter => ⟨?_, (hmore houter).1⟩⟩
      simpa [houter] using hstop
    · rw [if_neg hstop]
      have houter : outer = false := by simp_all
      obtain ⟨hs', hlt⟩ := hmore houter
      exact searchLoop_spec hn hwf budget fuel s' hs' (by omega)

/-- The count below an in-range cursor vector, read off the index vectors: the fitting
vectors of the product lexicographically below the cursors. -/
theorem fitsBelow_rank_eq_countP_lex (table : List (List RPCExecution)) {c : List Nat}
    (hc : List.Forall₂ (· < ·) c (table.map List.length)) :
    fitsBelow isAllOverlap threshold table (rank (table.map List.length) c) =
      (indexVectors (table.map List.length)).countP fun v =>
        assignmentFits isAllOverlap threshold table v && decide (List.Lex (· < ·) v c) := by
  obtain ⟨d, hd⟩ := Nat.exists_eq_add_of_le (rank_lt hc).le
  have hlex : ∀ k < (table.map List.length).prod,
      (List.Lex (· < ·) (unrank (table.map List.length) k) c ↔
        k < rank (table.map List.length) c) := fun k hk => by
    rw [lex_iff_rank_lt (unrank_forall₂ hk) hc, rank_unrank hk]
  rw [indexVectors_eq_map_unrank, hd, List.range_add, List.map_append, List.countP_append,
    fitsBelow, ← Nat.add_zero (List.countP _ _)]
  congr 1
  · refine List.countP_congr fun v hv => ?_
    obtain ⟨k, hk, rfl⟩ := List.mem_map.1 hv
    have hk := List.mem_range.1 hk
    simp [(hlex k (by omega)).2 hk]
  · refine (List.countP_eq_zero.2 fun v hv => ?_).symm
    simp only [List.map_map, List.mem_map, List.mem_range, Function.comp] at hv
    obtain ⟨j, hj, rfl⟩ := hv
    have := (hlex (rank (table.map List.length) c + j) (by omega)).not.2 (by omega)
    simp [this]

/-- The initial cursors are in range when every candidate list is non-empty. -/
theorem replicate_zero_forall₂ {table : List (List RPCExecution)} (hne : ∀ c ∈ table, c ≠ []) :
    List.Forall₂ (· < ·) (List.replicate table.length 0) (table.map List.length) := by
  induction table with
  | nil => exact .nil
  | cons cands t ih =>
    exact .cons (List.length_pos.2 (hne cands (.head _))) (ih fun c h => hne c (.tail _ h))

/-- The pruned odometer counts exactly the fitting assignments. For every non-empty
priority-ordered table of non-empty candidate lists with `0 ≤ static_mem ≤ mem`, every
threshold, every overlap test and every budget, `Π lens` turns suffice: the loop returns
(it never indexes a candidate list out of range). If it exits through the exhausted carry
— always, when there is no budget — `valid_count` is the number of index vectors of the
whole product whose assignment fits. If it stops on the budget, its cursors are in range
and `valid_count` is the number of fitting vectors lexicographically below them. -/
theorem searchLoop_counts_fitting_assignments (budget : Option Nat)
    (table : List (List RPCExecution)) (hn : table ≠ []) (hne : ∀ c ∈ table, c ≠ [])
    (hwf : ∀ c ∈ table, ∀ e ∈ c, e.WellFormed) :
    ∃ s outer, searchLoop isAllOverlap threshold budget table (table.map List.length).prod
        (searchInit table.length) = some (s, outer) ∧
      (outer = true → s.validCount = (indexVectors (table.map List.length)).countP
        (assignmentFits isAllOverlap threshold table)) ∧
      (outer = false → budgetHit budget s.innerCount = true ∧
        List.Forall₂ (· < ·) s.index (table.map List.length) ∧
        s.validCount = (indexVectors (table.map List.length)).countP fun v =>
          assignmentFits isAllOverlap threshold table v && decide (List.Lex (· < ·) v s.index)) := by
  have hinit : SearchInv isAllOverlap threshold table (searchInit table.length) := by
    have hbox := replicate_zero_forall₂ hne
    refine ⟨hbox, ?_⟩
    rw [searchInit, ← List.length_map table List.length, rank_replicate_zero]
    rfl
  obtain ⟨s, outer, hrun, hdone, hmore⟩ := searchLoop_spec isAllOverlap threshold hn hwf budget
    _ _ hinit (Nat.le_add_left _ _)
  refine ⟨s, outer, hrun, fun h => ?_, fun h => ?_⟩
  · rw [hdone h, fitsBelow, indexVectors_eq_map_unrank]
  · obtain ⟨hbudget, hbox, hcount⟩ := hmore h
    exact ⟨hbudget, hbox, hcount.trans (fitsBelow_rank_eq_countP_lex isAllOverlap threshold
      table hbox)⟩

/-- Two RPCs on disjoint devices with two candidates each; the actor's second candidate alone
is over a threshold of ten. -/
def twoRpcTable : List (List RPCExecution) :=
  [[⟨⟨"actor", "generate", "actor_gen"⟩, ⟨[0], 1⟩, ⟨1, 1, 1⟩, 0, 4, 1⟩,
      ⟨⟨"actor", "generate", "actor_gen"⟩, ⟨[0, 1], 1⟩, ⟨2, 1, 1⟩, 0, 20, 1⟩],
    [⟨⟨"critic", "inference", "critic_inf"⟩, ⟨[1], 1⟩, ⟨1, 1, 1⟩, 0, 3, 1⟩,
      ⟨⟨"critic", "inference", "critic_inf"⟩, ⟨[1], 1⟩, ⟨1, 1, 1⟩, 0, 5, 2⟩]]

/-- Three turns cover the four assignments: the second carries from the critic's cursor into
the actor's, and the third prunes at the actor's over-threshold candidate, skipping the one
assignment left. Two assignments fit. -/
theorem searchLoop_counts_twoRpcs :
    twoRpcTable ≠ [] ∧ (∀ c ∈ twoRpcTable, c ≠ []) ∧
      (∀ c ∈ twoRpcTable, ∀ e ∈ c, e.WellFormed) ∧
      searchLoop DeviceMesh.isAllOverlap 10 (some innerBudget) twoRpcTable
        (twoRpcTable.map List.length).prod (searchInit twoRpcTable.length) =
        some (⟨[0, 0], 3, 5, 2⟩, true) ∧
      ∃ s outer, searchLoop DeviceMesh.isAllOverlap 10 (some innerBudget) twoRpcTable
          (twoRpcTable.map List.length).prod (searchInit twoRpcTable.length) = some (s, outer) ∧
        (outer = true → s.validCount = (indexVectors (twoRpcTable.map List.length)).countP
          (assignmentFits DeviceMesh.isAllOverlap 10 twoRpcTable)) ∧
        (outer = false → budgetHit (some innerBudget) s.innerCount = true ∧
          List.Forall₂ (· < ·) s.index (twoRpcTable.map List.length) ∧
          s.validCount = (indexVectors (twoRpcTable.map List.length)).countP fun v =>
            assignmentFits DeviceMesh.isAllOverlap 10 twoRpcTable v &&
              decide (List.Lex (· < ·) v s.index)) :=
  ⟨by decide, by decide, by decide, by decide,
    searchLoop_counts_fitting_assignments DeviceMesh.isAllOverlap 10 (some innerBudget) _
      (by decide) (by decide) (by decide)⟩

end ReaLHF.Profiler
