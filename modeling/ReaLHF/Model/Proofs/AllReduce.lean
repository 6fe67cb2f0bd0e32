/-
`masked_normalization` in a process group computes what one process computes on the whole
batch. Each rank sums its own shard; the three `all_reduce`s add the ranks' sums, and sums
of shards are sums of the batch (`sum_sumsOf`); `standardize` acts entry by entry, so the
ranks' outputs, rank after rank, are the batch's output (`maskedNormalizationGroup_flatten`).
A data-parallel run thus normalises advantages as a single process would, however the batch
is split.

With a 0/1 mask the standardised values at the kept positions sum to zero: the mean is taken
over the kept elements alone (`maskedNormalization_masked_sum_zero`). The variance whose root
the code takes is never negative (`masked_var_nonneg`), so away from the inputs on which torch
divides by zero the denominator is positive.
-/
import ReaLHF.Model.Normalization
import ReaLHF.Lists

namespace ReaLHF.Model

/-- The three sums of masked values `xm` whose mask sums to `factor`. -/
def sumsOf (xm : List ℚ) (factor : ℚ) : ℚ × ℚ × ℚ :=
  (factor, xm.sum, (xm.map (· ^ 2)).sum)

/-- Summing the ranks' sums sums the batch: the reduction `all_reduce` performs. -/
theorem sum_sumsOf (L : List (List ℚ × ℚ)) :
    (L.map fun p => sumsOf p.1 p.2).sum = sumsOf (L.map (·.1)).flatten (L.map (·.2)).sum := by
  induction L with
  | nil => rfl
  | cons p L ih =>
    rw [List.map_cons, List.sum_cons, ih]
    simp only [sumsOf, List.map_cons, List.flatten_cons, List.sum_cons, List.sum_append,
      List.map_append, Prod.mk_add_mk]

/-- Without a mask, a rank's sums count its elements. -/
theorem localSums_none (x : FloatTensor) :
    localSums x none = some (x.data, sumsOf x.data x.data.length) := by
  simp [localSums, sumsOf, x.data_length]

/-- With a mask of its shape, a rank's sums are those of its masked elements. -/
theorem localSums_some {x mask : FloatTensor} (h : mask.shape = x.shape) :
    localSums x (some mask) = some (List.zipWith (· * ·) x.data mask.data,
      sumsOf (List.zipWith (· * ·) x.data mask.data) mask.data.sum) := by
  simp [localSums, sumsOf, h]

/-- `standardize` acts entry by entry, so it can be applied block by block. -/
theorem standardize_flatten (sqrt : ℚ → ℚ) (unbiased : Bool) (eps : ℚ) (sums : ℚ × ℚ × ℚ)
    (L : List (List ℚ)) :
    standardize sqrt unbiased eps L.flatten sums =
      (L.map fun x => standardize sqrt unbiased eps x sums).flatten := by
  obtain ⟨factor, xSum, xSumSq⟩ := sums
  simp [standardize, List.map_flatten]

/-- The shards hold the batch `x`, and its mask if it has one: their elements, rank after
rank, are the batch's, and so are their masks', each mask of its shard's shape and the batch's
mask of the batch's; without a mask, no shard has one. -/
def HoldsBatch (shards : List (FloatTensor × Option FloatTensor)) (x : FloatTensor) :
    Option FloatTensor → Prop
  | none => x.data = (shards.map (·.1.data)).flatten ∧ ∀ s ∈ shards, s.2 = none
  | some m => x.data = (shards.map (·.1.data)).flatten ∧ m.shape = x.shape ∧
      (∀ s ∈ shards, ∃ mask, s.2 = some mask ∧ mask.shape = s.1.shape) ∧
      m.data = (shards.map fun s => (s.2.map (·.data)).getD []).flatten

section Group

variable {sqrt : ℚ → ℚ} {unbiased : Bool} {eps : ℚ}
  {shards : List (FloatTensor × Option FloatTensor)} {x : FloatTensor}

/-- The group's run, given what each rank computes before the collectives. -/
theorem maskedNormalizationGroup_of_mapM {xm : FloatTensor × Option FloatTensor → List ℚ}
    {factor : FloatTensor × Option FloatTensor → ℚ}
    (h : shards.mapM (fun s => localSums s.1 s.2) =
      some (shards.map fun s => (xm s, sumsOf (xm s) (factor s)))) :
    (maskedNormalizationGroup sqrt shards unbiased eps).map List.flatten =
      some (standardize sqrt unbiased eps (shards.map xm).flatten
        (sumsOf (shards.map xm).flatten (shards.map factor).sum)) := by
  have hsum := sum_sumsOf (shards.map fun s => (xm s, factor s))
  simp only [List.map_map, Function.comp_def] at hsum
  simp only [maskedNormalizationGroup, h, Option.bind_eq_bind, Option.some_bind, Option.pure_def,
    Option.map_some', List.map_map, Function.comp_def, hsum, standardize_flatten]

/-- A group whose shards hold a batch returns, rank after rank, what a single process returns
on the batch. -/
theorem maskedNormalizationGroup_flatten {mask : Option FloatTensor}
    (h : HoldsBatch shards x mask) :
    (maskedNormalizationGroup sqrt shards unbiased eps).map List.flatten =
      maskedNormalization sqrt x mask unbiased eps := by
  cases mask with
  | none =>
    obtain ⟨hx, hnone⟩ := h
    rw [maskedNormalizationGroup_of_mapM
      (mapM_eq_some_map fun s hs => by rw [hnone s hs, localSums_none])]
    simp [maskedNormalization, localSums_none, hx, List.map_map, Function.comp_def,
      List.length_flatten]
  | some m =>
    obtain ⟨hx, hm, hmasks, hmdata⟩ := h
    have hloc : shards.mapM (fun s => localSums s.1 s.2) = some (shards.map fun s =>
        (List.zipWith (· * ·) s.1.data ((s.2.map (·.data)).getD []),
          sumsOf (List.zipWith (· * ·) s.1.data ((s.2.map (·.data)).getD []))
            ((s.2.map (·.data)).getD []).sum)) :=
      mapM_eq_some_map fun s hs => by
        obtain ⟨mask, h2, hsh⟩ := hmasks s hs
        rw [h2, localSums_some hsh]
        rfl
    have hlen : (shards.map (·.1.data)).map List.length =
        (shards.map fun s => (s.2.map (·.data)).getD []).map List.length := by
      simp only [List.map_map]
      refine List.map_congr_left fun s hs => ?_
      obtain ⟨mask, h2, hsh⟩ := hmasks s hs
      simp [h2, s.1.data_length, mask.data_length, hsh]
    rw [maskedNormalizationGroup_of_mapM hloc]
    simp only [maskedNormalization, localSums_some hm, hx, hmdata, zipWith_flatten _ hlen,
      List.zipWith_map, List.zipWith_same, List.sum_flatten, List.map_map, Function.comp_def,
      Option.bind_eq_bind, Option.some_bind, Option.pure_def]

/-- A batch of two rows and its mask, as one process holds them. -/
def batchX : FloatTensor :=
  ⟨[2, 2], [1, 3, -2, 5], rfl⟩

def batchMask : FloatTensor :=
  ⟨[2, 2], [1, 1, 1, 0], rfl⟩

/-- The same batch split over two ranks, a row each. -/
def twoRanks : List (FloatTensor × Option FloatTensor) :=
  [(⟨[1, 2], [1, 3], rfl⟩, some ⟨[1, 2], [1, 1], rfl⟩),
    (⟨[1, 2], [-2, 5], rfl⟩, some ⟨[1, 2], [1, 0], rfl⟩)]

theorem maskedNormalizationGroup_flatten_twoRanks :
    HoldsBatch twoRanks batchX (some batchMask) ∧
      (maskedNormalizationGroup id twoRanks false (1 / 100000)).map List.flatten =
        maskedNormalization id batchX (some batchMask) false (1 / 100000) :=
  have h : HoldsBatch twoRanks batchX (some batchMask) :=
    ⟨rfl, rfl, by simp [twoRanks], rfl⟩
  ⟨h, maskedNormalizationGroup_flatten h⟩

end Group

/-- Against a 0/1 mask, the mask-weighted sum of the standardised masked values is the masked
sum less `mean` times the count, over the common denominator. -/
theorem sum_mask_mul_standardized {μ d : ℚ} : ∀ {a b : List ℚ}, a.length = b.length →
    (∀ v ∈ b, v = 0 ∨ v = 1) →
    (List.zipWith (· * ·) b ((List.zipWith (· * ·) a b).map fun v => (v - μ) / d)).sum =
      ((List.zipWith (· * ·) a b).sum - μ * b.sum) / d
  | [], [], _, _ => by simp
  | u :: a, v :: b, hl, hb => by
    have ih := sum_mask_mul_standardized (μ := μ) (d := d) (by simpa using hl)
      fun w hw => hb w (List.mem_cons_of_mem _ hw)
    simp only [List.zipWith_cons_cons, List.map_cons, List.sum_cons, ih]
    rcases hb v (List.mem_cons_self _ _) with rfl | rfl <;> ring
  | [], _ :: _, hl, _ => by simp at hl
  | _ :: _, [], hl, _ => by simp at hl

/-- A 0/1 mask keeps no element or at least one. -/
theorem sum_eq_zero_or_one_le : ∀ {b : List ℚ}, (∀ v ∈ b, v = 0 ∨ v = 1) → b.sum = 0 ∨ 1 ≤ b.sum
  | [], _ => .inl rfl
  | v :: b, hb => by
    have ih := sum_eq_zero_or_one_le fun w hw => hb w (List.mem_cons_of_mem _ hw)
    rw [List.sum_cons]
    rcases hb v (List.mem_cons_self _ _) with rfl | rfl
    · rwa [zero_add]
    · exact .inr (by rcases ih with h | h <;> linarith)

/-- Against a 0/1 mask, `x_sum_sq - 2 μ x_sum + μ² factor` is the masked sum of `(v - μ)²`,
so it is never negative. -/
theorem masked_sq_dev_nonneg (μ : ℚ) : ∀ {a b : List ℚ}, a.length = b.length →
    (∀ v ∈ b, v = 0 ∨ v = 1) →
    0 ≤ ((List.zipWith (· * ·) a b).map (· ^ 2)).sum - 2 * μ * (List.zipWith (· * ·) a b).sum +
      μ ^ 2 * b.sum
  | [], [], _, _ => by simp
  | u :: a, v :: b, hl, hb => by
    have ih := masked_sq_dev_nonneg μ (a := a) (b := b) (by simpa using hl)
      fun w hw => hb w (List.mem_cons_of_mem _ hw)
    simp only [List.zipWith_cons_cons, List.map_cons, List.sum_cons]
    rcases hb v (List.mem_cons_self _ _) with rfl | rfl <;> nlinarith [sq_nonneg (u - μ)]
  | [], _ :: _, hl, _ => by simp at hl
  | _ :: _, [], hl, _ => by simp at hl

/-- The variance `meansq - mean²` of the masked values is never negative. -/
theorem masked_var_nonneg {a b : List ℚ} (hl : a.length = b.length) (hb : ∀ v ∈ b, v = 0 ∨ v = 1)
    (hn : 0 < b.sum) :
    0 ≤ ((List.zipWith (· * ·) a b).map (· ^ 2)).sum / b.sum -
      ((List.zipWith (· * ·) a b).sum / b.sum) ^ 2 := by
  set μ := (List.zipWith (· * ·) a b).sum / b.sum
  have hvar : (((List.zipWith (· * ·) a b).map (· ^ 2)).sum / b.sum - μ ^ 2) * b.sum =
      ((List.zipWith (· * ·) a b).map (· ^ 2)).sum - 2 * μ * (List.zipWith (· * ·) a b).sum +
        μ ^ 2 * b.sum := by
    rw [sub_mul, div_mul_cancel₀ _ hn.ne', ← div_mul_cancel₀ (List.zipWith (· * ·) a b).sum hn.ne']
    ring
  have h := masked_sq_dev_nonneg μ hl hb
  rw [← hvar] at h
  exact nonneg_of_mul_nonneg_left h hn

/-- With a 0/1 mask of `x`'s shape that keeps some element, `masked_normalization` returns the
masked values less the mean of the kept ones, over a positive denominator, and the values at the
kept positions sum to zero. The hypotheses keep out the inputs on which torch divides by zero
and returns NaN: `eps = 0` with a zero variance, and, under `unbiased`, a single kept element,
which makes `factor / (factor - 1)` infinite. `sqrt` need only be non-negative on
non-negative values: the variance never is negative. -/
theorem maskedNormalization_masked_sum_zero (sqrt : ℚ → ℚ) (unbiased : Bool) (eps : ℚ)
    {x m : FloatTensor} (hm : m.shape = x.shape) (h01 : ∀ v ∈ m.data, v = 0 ∨ v = 1)
    (hfactor : m.data.sum ≠ 0) (hunbiased : unbiased = true → m.data.sum ≠ 1)
    (hsqrt : ∀ v, 0 ≤ v → 0 ≤ sqrt v) (heps : 0 < eps) :
    ∃ out, maskedNormalization sqrt x (some m) unbiased eps = some out ∧
      (List.zipWith (· * ·) m.data out).sum = 0 ∧
      ∃ d, 0 < d ∧ out = (List.zipWith (· * ·) x.data m.data).map
        fun v => (v - (List.zipWith (· * ·) x.data m.data).sum / m.data.sum) / d := by
  have hlen : x.data.length = m.data.length := by rw [x.data_length, m.data_length, hm]
  have hn : 1 ≤ m.data.sum := (sum_eq_zero_or_one_le h01).resolve_left hfactor
  have hvar := masked_var_nonneg hlen h01 (by linarith)
  refine ⟨_, by simp only [maskedNormalization, localSums_some hm]; rfl, ?_, _, ?_, rfl⟩
  · rw [sum_mask_mul_standardized hlen h01, div_mul_cancel₀ _ hfactor, sub_self, zero_div]
  · refine add_pos_of_nonneg_of_pos (hsqrt _ ?_) heps
    cases unbiased
    · exact hvar
    · exact mul_nonneg hvar (div_nonneg (by linarith) (by linarith))

theorem maskedNormalization_masked_sum_zero_batch :
    batchMask.shape = batchX.shape ∧ (∀ v ∈ batchMask.data, v = 0 ∨ v = 1) ∧
      batchMask.data.sum ≠ 0 ∧ (true = true → batchMask.data.sum ≠ 1) ∧
      (∀ v : ℚ, 0 ≤ v → 0 ≤ id v) ∧ (0 : ℚ) < 1 / 100000 ∧
      ∃ out, maskedNormalization id batchX (some batchMask) true (1 / 100000) = some out ∧
        (List.zipWith (· * ·) batchMask.data out).sum = 0 ∧
        ∃ d, 0 < d ∧ out = (List.zipWith (· * ·) batchX.data batchMask.data).map
          fun v => (v - (List.zipWith (· * ·) batchX.data batchMask.data).sum /
            batchMask.data.sum) / d :=
  have h01 : ∀ v ∈ batchMask.data, v = 0 ∨ v = 1 := by decide
  have hfactor : batchMask.data.sum ≠ 0 := by norm_num [batchMask]
  have hunbiased : true = true → batchMask.data.sum ≠ 1 := fun _ => by norm_num [batchMask]
  have heps : (0 : ℚ) < 1 / 100000 := by norm_num
  ⟨rfl, h01, hfactor, hunbiased, fun _ h => h, heps,
    maskedNormalization_masked_sum_zero id true (1 / 100000) rfl h01 hfactor hunbiased
      (fun _ h => h) heps⟩

end ReaLHF.Model
