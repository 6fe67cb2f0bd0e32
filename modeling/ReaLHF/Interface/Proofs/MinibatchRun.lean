/-
The minibatch loop of the WPS PPO `train_step`s (`impl/model/interface/wps_actor_critic.py`,
lines 373-402 and 492-519) over whole runs.

# Results

* `epochMinibatches_partition`: when `mini_batch_size` divides the batch, every epoch cuts its
  permutation into `bs / mini_batch_size` minibatches of `mini_batch_size` indices that
  together hold every sample once: no sample is dropped or trained on twice in an epoch.
* `ppoTrainStep_mean`: with a step that always returns the same keys, `train_step` returns
  after `ppo_epochs * n_minibatch` steps, and each statistic it reports is the sum over the
  steps divided by exactly that many: the mean over the run.

# Shape of the argument

A slice `l[a:a + m]` of naturals is `(l.drop a).take m` (`pySlice_natCast`), and consecutive
pieces lay back into the list (`flatten_chunks`). The loop is related to `StepTrace`, the
inductive run of its calls, in both directions (`ppoRun_eq_some_iff`), and a run exists once
every step returns and every index reads the batch (`exists_stepTrace`). The `defaultdict`
is followed through a run by `addStats_map` and `foldl_addStats_nil`: the first step's keys
enter in their order, and every later step adds to them.
-/
import ReaLHF.Interface.PpoMinibatch
import ReaLHF.Lists
import ReaLHF.Model.Proofs.ShiftedIndices

namespace ReaLHF.Interface

variable {α : Type}

-- ============================================================ minibatches

/-- `l[a:a + m]` for naturals: the `m` entries from `a`. -/
theorem pySlice_natCast (l : List α) (a m : Nat) :
    pySlice l a (a + m) = (l.drop a).take m := by
  have h0 : ¬ ((a : Int) < 0) := by omega
  have h1 : ¬ ((a : Int) + m < 0) := by omega
  simp only [pySlice, h0, h1, if_false]
  simp only [← Nat.cast_add, Int.toNat_natCast]
  rcases Nat.le_total a l.length with h | h
  · rw [min_eq_left h, List.take_eq_take, List.length_drop]
    omega
  · simp [List.drop_eq_nil_of_le h, min_eq_right h]

/-- Cutting a list into `k` consecutive pieces of `m`, enough to hold it, and laying them end
to end gives it back. -/
theorem flatten_chunks (m : Nat) : ∀ (k : Nat) (l : List α), l.length ≤ k * m →
    ((List.range k).map fun i => (l.drop (i * m)).take m).flatten = l
  | 0, l, h => by simp_all
  | k + 1, l, h => by
    have hrest : ((List.range k).map fun i => (l.drop ((i + 1) * m)).take m) =
        (List.range k).map fun i => ((l.drop m).drop (i * m)).take m := by
      congr 1
      funext i
      rw [List.drop_drop, Nat.succ_mul, Nat.add_comm]
    rw [List.range_succ_eq_map, List.map_cons, List.map_map, Function.comp_def,
      List.flatten_cons]
    simp only [Nat.succ_eq_add_one]
    rw [hrest, flatten_chunks m k (l.drop m) (by rw [List.length_drop, Nat.succ_mul] at *; omega),
      zero_mul, List.drop_zero, List.take_append_drop]

/-- `range(0, q * m, m)` lists the `q` multiples of `m` below `q * m`. -/
theorem rangeStep_mul {m : Nat} (hm : 0 < m) (q : Nat) :
    rangeStep (q * m) m = (List.range q).map (· * m) := by
  have hq : (q * m + m - 1) / m = q := by
    apply Nat.div_eq_of_lt_le
    · omega
    · rw [add_one_mul]
      omega
  rw [rangeStep, hq]

/-- The minibatches of an epoch of `q` minibatches: consecutive pieces of the permutation. -/
theorem epochMinibatches_eq {m : Nat} (hm : 0 < m) (l : List Int) (q : Nat) :
    epochMinibatches l (q * m) m = (List.range q).map fun i => (l.drop (i * m)).take m := by
  rw [epochMinibatches, rangeStep_mul hm, List.map_map]
  congr 1
  funext i
  exact pySlice_natCast l (i * m) m

/-- An epoch of a batch that `mini_batch_size` divides has `bs / mini_batch_size`
minibatches. -/
theorem length_epochMinibatches {m : Nat} (hm : 0 < m) (l : List Int) {bs : Nat}
    (hdvd : bs % m = 0) : (epochMinibatches l bs m).length = bs / m := by
  obtain ⟨q, rfl⟩ : ∃ q, bs = q * m :=
    ⟨_, (Nat.div_mul_cancel (Nat.dvd_of_mod_eq_zero hdvd)).symm⟩
  simp [epochMinibatches_eq hm, Nat.mul_div_cancel _ hm]

/-- Every epoch trains on every sample exactly once: when `mini_batch_size` divides the batch,
the permutation an epoch draws is cut into `bs / mini_batch_size` minibatches of
`mini_batch_size` indices each, which together hold every index of the batch once. -/
theorem epochMinibatches_partition {shuffleIndices : List Int} {bs miniBatchSize : Nat}
    (hmbs : 0 < miniBatchSize) (hdvd : bs % miniBatchSize = 0)
    (hperm : shuffleIndices.Perm ((List.range bs).map (↑))) :
    (epochMinibatches shuffleIndices bs miniBatchSize).length = bs / miniBatchSize ∧
      (∀ b ∈ epochMinibatches shuffleIndices bs miniBatchSize, b.length = miniBatchSize) ∧
      (epochMinibatches shuffleIndices bs miniBatchSize).flatten.Perm
        ((List.range bs).map (↑)) := by
  refine ⟨length_epochMinibatches hmbs _ hdvd, ?_⟩
  obtain ⟨q, rfl⟩ : ∃ q, bs = q * miniBatchSize :=
    ⟨_, (Nat.div_mul_cancel (Nat.dvd_of_mod_eq_zero hdvd)).symm⟩
  have hlen : shuffleIndices.length = q * miniBatchSize := by simpa using hperm.length_eq
  rw [epochMinibatches_eq hmbs]
  refine ⟨fun b hb => ?_, ?_⟩
  · obtain ⟨i, hi, rfl⟩ := List.mem_map.1 hb
    have := Nat.mul_le_mul_right miniBatchSize (Nat.succ_le_of_lt (List.mem_range.1 hi))
    rw [Nat.succ_mul] at this
    simp only [List.length_take, List.length_drop, hlen]
    omega
  · rwa [flatten_chunks _ _ _ hlen.le]

/-- A batch of four samples in minibatches of two. -/
theorem epochMinibatches_partition_fourSamples :
    0 < 2 ∧ 4 % 2 = 0 ∧ ([3, 1, 0, 2] : List Int).Perm ((List.range 4).map (↑)) ∧
      (epochMinibatches [3, 1, 0, 2] 4 2).length = 4 / 2 ∧
      (∀ b ∈ epochMinibatches [3, 1, 0, 2] 4 2, b.length = 2) ∧
      (epochMinibatches [3, 1, 0, 2] 4 2).flatten.Perm ((List.range 4).map (↑)) :=
  ⟨by decide, by decide, by decide,
    epochMinibatches_partition (by decide) (by decide) (by decide)⟩

-- ============================================================ statistics

section Stats

variable {K : Type} [DecidableEq K]

/-- Adding to a key already present adds to its entry and leaves the others. -/
theorem addStat_map {ks : List K} (hks : ks.Nodup) {k : K} (hk : k ∈ ks) (v : ℚ)
    (a : K → ℚ) :
    addStat k v (ks.map fun k' => (k', a k')) =
      ks.map fun k' => (k', a k' + if k' = k then v else 0) := by
  induction ks with
  | nil => cases hk
  | cons k₀ ks ih =>
    rw [List.nodup_cons] at hks
    by_cases h : k₀ = k
    · subst h
      have hrest : (ks.map fun k' => (k', a k' + if k' = k₀ then v else 0)) =
          ks.map fun k' => (k', a k') := List.map_congr_left fun k' hk' => by
        rw [if_neg fun h' : k' = k₀ => hks.1 (h' ▸ hk'), add_zero]
      simp [addStat, hrest]
    · have hk' : k ∈ ks := (List.mem_cons.1 hk).resolve_left (Ne.symm h)
      simp only [List.map_cons, addStat, if_neg h, add_zero, ih hks.2 hk']

/-- Adding a step's statistics, whose keys are among those already present. -/
theorem addStats_map {ks : List K} (hks : ks.Nodup) : ∀ {stats : List (K × ℚ)} (a : K → ℚ),
    (stats.map Prod.fst).Nodup → (∀ kv ∈ stats, kv.1 ∈ ks) →
    addStats (ks.map fun k => (k, a k)) stats =
      ks.map fun k => (k, a k + (stats.lookup k).getD 0)
  | [], a, _, _ => by simp [addStats]
  | (k, v) :: stats, a, hnd, hmem => by
    rw [List.map_cons, List.nodup_cons] at hnd
    have hk : k ∈ ks := hmem _ (List.mem_cons_self _ _)
    rw [addStats, List.foldl_cons, addStat_map hks hk, ← addStats,
      addStats_map hks _ hnd.2 fun kv hkv => hmem kv (List.mem_cons_of_mem _ hkv)]
    refine List.map_congr_left fun k' _ => ?_
    by_cases h : k' = k
    · have : stats.lookup k = none := List.lookup_eq_none_iff.2 fun p hp =>
        bne_iff_ne.2 fun h' => hnd.1 (by rw [h']; exact List.mem_map_of_mem (a := p) Prod.fst hp)
      rw [h, List.lookup_cons, beq_self_eq_true, this]
      simp
    · rw [List.lookup_cons, beq_false_of_ne h, if_neg h, add_zero]

/-- A key not yet present enters last. -/
theorem addStat_of_not_mem {k : K} (v : ℚ) :
    ∀ {acc : List (K × ℚ)}, k ∉ acc.map Prod.fst → addStat k v acc = acc ++ [(k, 0 + v)]
  | [], _ => rfl
  | (k', w) :: acc, h => by
    simp only [List.map_cons, List.mem_cons, not_or] at h
    simp [addStat, Ne.symm h.1, addStat_of_not_mem v h.2]

/-- Statistics whose keys are all new enter last, in their order. -/
theorem addStats_of_nodup : ∀ {acc stats : List (K × ℚ)},
    (acc.map Prod.fst ++ stats.map Prod.fst).Nodup →
    addStats acc stats = acc ++ stats.map fun kv => (kv.1, 0 + kv.2)
  | _, [], _ => by simp [addStats]
  | acc, (k, v) :: stats, h => by
    have hk : k ∉ acc.map Prod.fst := fun hk => by
      rw [List.map_cons, List.nodup_middle, List.nodup_cons, List.mem_append] at h
      exact h.1 (Or.inl hk)
    rw [addStats, List.foldl_cons, addStat_of_not_mem v hk, ← addStats,
      addStats_of_nodup (by simpa using h), List.map_cons, List.append_assoc,
      List.singleton_append]

/-- A dictionary read back through its keys. -/
theorem map_eq_map_lookup (f : ℚ → ℚ) : ∀ {stats : List (K × ℚ)},
    (stats.map Prod.fst).Nodup →
    stats.map (fun kv => (kv.1, f kv.2)) =
      (stats.map Prod.fst).map fun k => (k, f ((stats.lookup k).getD 0))
  | [], _ => rfl
  | (k, v) :: stats, h => by
    rw [List.map_cons, List.nodup_cons] at h
    have hk : k ∉ stats.map Prod.fst := h.1
    simp only [List.map_cons, List.lookup_cons, beq_self_eq_true, Option.getD_some,
      map_eq_map_lookup f h.2, List.map_map, Function.comp_def, List.cons.injEq, true_and]
    refine List.map_congr_left fun kv hkv => ?_
    have hne : kv.1 ≠ k := fun h' => hk (h' ▸ List.mem_map_of_mem Prod.fst hkv)
    simp [beq_false_of_ne hne]

/-- Over a run whose every step returns the keys `ks`, the dictionary holds each key's sum over
the steps. -/
theorem foldl_addStats_map {ks : List K} (hks : ks.Nodup) :
    ∀ {trace : List (List (K × ℚ))} (a : K → ℚ), (∀ s ∈ trace, s.map Prod.fst = ks) →
    trace.foldl addStats (ks.map fun k => (k, a k)) =
      ks.map fun k => (k, a k + (trace.map fun s => (s.lookup k).getD 0).sum)
  | [], a, _ => by simp
  | s :: trace, a, h => by
    have hs := h s (List.mem_cons_self _ _)
    rw [List.foldl_cons,
      addStats_map hks a (hs ▸ hks) fun kv hkv => hs ▸ List.mem_map_of_mem _ hkv,
      foldl_addStats_map hks _ fun s' hs' => h s' (List.mem_cons_of_mem _ hs')]
    simp only [List.map_cons, List.sum_cons, add_assoc]

/-- From an empty dictionary, a nonempty run whose every step returns the keys `ks` leaves
each key's sum over the steps. -/
theorem foldl_addStats_nil {ks : List K} (hks : ks.Nodup) {trace : List (List (K × ℚ))}
    (hne : trace ≠ []) (h : ∀ s ∈ trace, s.map Prod.fst = ks) :
    trace.foldl addStats [] =
      ks.map fun k => (k, (trace.map fun s => (s.lookup k).getD 0).sum) := by
  obtain ⟨s, trace, rfl⟩ := List.exists_cons_of_ne_nil hne
  have hs := h s (List.mem_cons_self _ _)
  rw [List.foldl_cons, addStats_of_nodup (by simpa [hs] using hks),
    List.nil_append, map_eq_map_lookup _ (hs ▸ hks), hs,
    foldl_addStats_map hks _ fun s' hs' => h s' (List.mem_cons_of_mem _ hs')]
  simp only [List.map_cons, List.sum_cons, zero_add]

end Stats

-- ================================================================ the run

/-- Every minibatch of the schedule indexes the batch, when each epoch draws a permutation of
it. -/
theorem mem_ppoSchedule_bounds {shuffles : Nat → List Int} {bs miniBatchSize ppoEpochs : Nat}
    (hperm : ∀ e, (shuffles e).Perm ((List.range bs).map (↑))) {c : Nat × List Int}
    (hc : c ∈ ppoSchedule shuffles bs miniBatchSize ppoEpochs) :
    ∀ j ∈ c.2, 0 ≤ j ∧ j < bs := by
  intro j hj
  simp only [ppoSchedule, epochMinibatches, List.mem_flatMap, List.mem_map] at hc
  obtain ⟨e, -, _, ⟨i, -, rfl⟩, rfl⟩ := hc
  rw [pySlice_natCast] at hj
  obtain ⟨n, hn, rfl⟩ := List.mem_map.1
    ((hperm e).subset (List.mem_of_mem_drop (List.mem_of_mem_take hj)))
  exact ⟨by omega, by simpa using hn⟩

/-- The schedule of a batch that `mini_batch_size` divides has `ppo_epochs * n_minibatch`
calls. -/
theorem length_ppoSchedule (shuffles : Nat → List Int) {bs miniBatchSize : Nat}
    (hmbs : 0 < miniBatchSize) (hdvd : bs % miniBatchSize = 0) (ppoEpochs : Nat) :
    (ppoSchedule shuffles bs miniBatchSize ppoEpochs).length =
      ppoEpochs * (bs / miniBatchSize) := by
  simp [ppoSchedule, List.length_flatMap, Function.comp_def,
    length_epochMinibatches hmbs _ hdvd]

section Run

variable {K M ρ : Type} (step : M → Nat → List ρ → Option (M × List (K × ℚ)))
  (sample : List ρ)

/-- A run of the loop over a list of calls: from `module`, every call reads its minibatch's rows
and takes one step, ending in `module'`; `trace` lists the steps' statistics in order. -/
inductive StepTrace : M → List (Nat × List Int) → M → List (List (K × ℚ)) → Prop
  | nil (module : M) : StepTrace module [] module []
  | cons {module module₁ module' : M} {ppoI : Nat} {indices : List Int} {rows : List ρ}
      {stats : List (K × ℚ)} {calls : List (Nat × List Int)} {trace : List (List (K × ℚ))} :
      indices.mapM (pyIndex sample) = some rows →
      step module ppoI rows = some (module₁, stats) →
      StepTrace module₁ calls module' trace →
      StepTrace module ((ppoI, indices) :: calls) module' (stats :: trace)

/-- The loop returns exactly when it has a run, and then holds the run's statistics added
up. -/
theorem ppoRun_eq_some_iff [DecidableEq K] :
    ∀ {calls : List (Nat × List Int)} {module module' : M} {acc acc' : List (K × ℚ)},
    ppoRun step sample module acc calls = some (module', acc') ↔
      ∃ trace, StepTrace step sample module calls module' trace ∧
        acc' = trace.foldl addStats acc
  | [], module, module', acc, acc' => by
    constructor
    · intro h
      obtain ⟨rfl, rfl⟩ := Prod.mk.inj (Option.some.inj h)
      exact ⟨[], .nil _, rfl⟩
    · rintro ⟨_, ⟨⟩, rfl⟩
      rfl
  | (ppoI, indices) :: calls, module, module', acc, acc' => by
    constructor
    · intro h
      simp only [ppoRun, Option.bind_eq_bind, Option.bind_eq_some] at h
      obtain ⟨rows, hrows, ⟨module₁, stats⟩, hstep, hrun⟩ := h
      obtain ⟨trace, ht, rfl⟩ := (ppoRun_eq_some_iff).1 hrun
      exact ⟨stats :: trace, .cons hrows hstep ht, rfl⟩
    · rintro ⟨_, h, rfl⟩
      cases h with
      | cons hrows hstep ht =>
        simp only [ppoRun, hrows, hstep, Option.bind_eq_bind, Option.some_bind]
        exact (ppoRun_eq_some_iff).2 ⟨_, ht, rfl⟩

/-- A run takes one step per call. -/
theorem StepTrace.length_eq {module module' : M} {calls : List (Nat × List Int)}
    {trace : List (List (K × ℚ))} (h : StepTrace step sample module calls module' trace) :
    trace.length = calls.length := by
  induction h with
  | nil => rfl
  | cons _ _ _ ih => simp [ih]

/-- Every statistics of a run came from a step. -/
theorem StepTrace.mem_trace {module module' : M} {calls : List (Nat × List Int)}
    {trace : List (List (K × ℚ))} (h : StepTrace step sample module calls module' trace) :
    ∀ s ∈ trace, ∃ m e rows m₁, step m e rows = some (m₁, s) := by
  induction h with
  | nil => simp
  | cons _ hstep _ ih =>
    rintro s (_ | ⟨_, hs⟩)
    · exact ⟨_, _, _, _, hstep⟩
    · exact ih s hs

/-- With a step that always returns, and calls that index the batch, the loop has a run. -/
theorem exists_stepTrace (hstep : ∀ m e rows, ∃ r, step m e rows = some r) :
    ∀ {calls : List (Nat × List Int)} (module : M),
      (∀ c ∈ calls, ∀ j ∈ c.2, 0 ≤ j ∧ j < sample.length) →
      ∃ module' trace, StepTrace step sample module calls module' trace
  | [], module, _ => ⟨module, [], .nil module⟩
  | (ppoI, indices) :: calls, module, hcalls => by
    obtain ⟨rows, hrows⟩ := exists_mapM_eq_some fun j hj =>
      Model.pyIndex_of_lt (hcalls _ (List.mem_cons_self _ _) j hj).1
        (hcalls _ (List.mem_cons_self _ _) j hj).2
    obtain ⟨⟨module₁, stats⟩, hs⟩ := hstep module ppoI rows
    obtain ⟨module', trace, ht⟩ := exists_stepTrace hstep module₁
      fun c hc => hcalls c (List.mem_cons_of_mem _ hc)
    exact ⟨module', stats :: trace, .cons hrows hs ht⟩

/-- The WPS actor's and critic's `train_step` with a step that always returns the same keys
`ks`, as both steps' dictionaries do: on a batch that `mini_batch_size` divides, with
permutations of the batch for the shuffles, it returns, after a run of `ppo_epochs *
n_minibatch` steps over the schedule, each key's sum over the run divided by `ppo_epochs` and by
`n_minibatch`, the mean over the steps, through the all-reduce. -/
theorem ppoTrainStep_mean [DecidableEq K] {allReduceMean : ℚ → ℚ}
    {miniBatchSize ppoEpochs : Nat} {shuffles : Nat → List Int} {module : M} {ks : List K}
    (hks : ks.Nodup)
    (hstep : ∀ m e rows, ∃ m' stats, step m e rows = some (m', stats) ∧
      stats.map Prod.fst = ks)
    (hmbs : 0 < miniBatchSize) (hdvd : sample.length % miniBatchSize = 0)
    (hperm : ∀ e, (shuffles e).Perm ((List.range sample.length).map (↑)))
    (hE : 0 < ppoEpochs) (hbs : 0 < sample.length) :
    ∃ module' trace,
      StepTrace step sample module (ppoSchedule shuffles sample.length miniBatchSize ppoEpochs)
        module' trace ∧
      trace.length = ppoEpochs * (sample.length / miniBatchSize) ∧
      ppoTrainStep step allReduceMean miniBatchSize ppoEpochs shuffles module sample =
        some (module', ks.map fun k => (k, allReduceMean
          ((trace.map fun s => (s.lookup k).getD 0).sum / (ppoEpochs : ℚ) /
            ((sample.length / miniBatchSize : Nat) : ℚ)))) := by
  obtain ⟨module', trace, ht⟩ := exists_stepTrace step sample
    (fun m e rows => by obtain ⟨_, _, h, -⟩ := hstep m e rows; exact ⟨_, h⟩) module
    fun c hc => mem_ppoSchedule_bounds hperm hc
  have hlen : trace.length = ppoEpochs * (sample.length / miniBatchSize) := by
    rw [StepTrace.length_eq step sample ht, length_ppoSchedule _ hmbs hdvd]
  have hq : 0 < sample.length / miniBatchSize :=
    Nat.div_pos (Nat.le_of_dvd hbs (Nat.dvd_of_mod_eq_zero hdvd)) hmbs
  have hne : trace ≠ [] := List.ne_nil_of_length_pos (by rw [hlen]; positivity)
  have hkeys : ∀ s ∈ trace, s.map Prod.fst = ks := fun s hs => by
    obtain ⟨m, e, rows, m₁, hs⟩ := StepTrace.mem_trace step sample ht s hs
    obtain ⟨m', stats, h, hks'⟩ := hstep m e rows
    rw [hs, Option.some.injEq, Prod.mk.injEq] at h
    rw [h.2, hks']
  refine ⟨module', trace, ht, hlen, ?_⟩
  have hassert : ¬(miniBatchSize = 0 ∨ sample.length % miniBatchSize ≠ 0) := by omega
  simp only [ppoTrainStep, if_neg hassert,
    (ppoRun_eq_some_iff step sample).2 ⟨trace, ht, rfl⟩, foldl_addStats_nil hks hne hkeys,
    List.map_map, Option.pure_def, Option.bind_eq_bind, Option.some_bind]
  rfl

end Run

/-- A step that counts the steps taken and reports its minibatch's sum as its loss. -/
def countingStep (module : Nat) (_ppoI : Nat) (rows : List Int) :
    Option (Nat × List (String × ℚ)) :=
  some (module + 1, [("loss", (rows.sum : ℚ))])

/-- Two epochs over a batch of two samples in minibatches of one. -/
theorem ppoTrainStep_mean_twoSamples :
    ["loss"].Nodup ∧
      (∀ m e rows, ∃ m' stats, countingStep m e rows = some (m', stats) ∧
        stats.map Prod.fst = ["loss"]) ∧
      0 < 1 ∧ [5, 7].length % 1 = 0 ∧
      (∀ _ : Nat, ([1, 0] : List Int).Perm ((List.range [5, 7].length).map (↑))) ∧
      0 < 2 ∧ 0 < [5, 7].length ∧
      ∃ module' trace,
        StepTrace countingStep [5, 7] 0 (ppoSchedule (fun _ => [1, 0]) [5, 7].length 1 2)
          module' trace ∧
        trace.length = 2 * ([5, 7].length / 1) ∧
        ppoTrainStep countingStep id 1 2 (fun _ => [1, 0]) 0 [5, 7] =
          some (module', ["loss"].map fun k => (k, id
            ((trace.map fun s => (s.lookup k).getD 0).sum / ((2 : Nat) : ℚ) /
              (([5, 7].length / 1 : Nat) : ℚ)))) :=
  ⟨by decide, fun _ _ _ => ⟨_, _, rfl, rfl⟩, by decide, by decide, fun _ => by decide,
    by decide, by decide,
    ppoTrainStep_mean countingStep [5, 7] (by decide) (fun _ _ _ => ⟨_, _, rfl, rfl⟩)
      (by decide) (by decide) (fun _ => by decide) (by decide) (by decide)⟩

end ReaLHF.Interface
