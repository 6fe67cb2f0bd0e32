/-
What the paired reward model's `inference` and `evaluate` report.

# Results

- `inference_endScores`: on packed sequences of positive lengths with one score per token,
  `inference` returns the score at the last token of every sequence, whatever
  `output_scaling` and `output_bias` are: the scaled scores it computes are never returned.
- `evaluate_stats`: on a loader of batches of `train_step`'s layout, each of `k` pairs,
  `evaluate` reports as `acc` the fraction of all pairs it ranks right, but as `loss` `k` times
  the mean loss per pair, and as `pos_score` and `neg_score` the mean scores over `k`.

# Shape of the argument

`cu_seqlens[1:]` is the list of prefix sums (`tail_scanl_add`), each inside the scores
(`prefix_sum_bounds`). For `evaluate`, one turn of the loop on a batch of the layout
(`PairedEvalBatch.Valid`) reads the loss function through `pairedRwLoss_pairLayout` and adds the
batch's figures (`PairedEvalSums.add_valid`); the loop adds them batch by batch
(`foldlM_add_valid`). With `k` pairs in every batch, sums of means and means of lists laid end
to end are sums over `k` (`sum_map_mean`, `mean_flatMap`).
-/
import ReaLHF.Interface.PairedEval
import ReaLHF.Interface.Proofs.PairedAccuracy

namespace ReaLHF.Interface

-- ========================================================= inference

/-- `cu_seqlens[1:]`: the prefix sums after the first. -/
theorem tail_scanl_add (l : List Int) :
    (l.scanl (· + ·) 0).tail = (List.range l.length).map fun i => (l.take (i + 1)).sum := by
  apply List.ext_getElem?
  intro i
  rw [List.getElem?_tail, List.getElem?_map]
  rcases Nat.lt_or_ge i l.length with hi | hi
  · rw [getElem?_scanl_sum _ _ (by omega), List.getElem?_range hi, zero_add]
    rfl
  · have h1 : (l.scanl (· + ·) 0).length ≤ i + 1 := by rw [List.length_scanl]; omega
    have h2 : (List.range l.length).length ≤ i := by rw [List.length_range]; omega
    rw [List.getElem?_eq_none h1, List.getElem?_eq_none h2]
    rfl

/-- A batch of the layout `train_step` and `evaluate` pack: as many positive lengths and group
factors as pairs, at least one pair, every positive answer nonempty and shorter than its pair,
and one score per packed token. -/
structure PairedEvalBatch.Valid (b : PairedEvalBatch) : Prop where
  length_posInputLens : b.posInputLens.length = b.seqlens.length
  seqlens_ne_nil : b.seqlens ≠ []
  pos_lt : ∀ p ∈ b.posInputLens.zip b.seqlens, 0 < p.1 ∧ p.1 < p.2
  length_scores : (b.scores.length : Int) = b.seqlens.sum
  length_groupFactor : b.groupFactor.length = b.seqlens.length

/-- The scores a batch's pairs are ranked by, positive then negative. -/
def PairedEvalBatch.pairs (b : PairedEvalBatch) : List (ℚ × ℚ) :=
  pairScores b.scores b.posInputLens b.seqlens

/-- The loss of each of a batch's pairs, `-logsigmoid(pos - neg) * group_factor`. -/
def PairedEvalBatch.pairLosses (logsigmoid : ℚ → ℚ) (b : PairedEvalBatch) : List ℚ :=
  List.zipWith (fun p g => -(logsigmoid (p.1 - p.2) * g)) b.pairs b.groupFactor

/-- Every pair of the loader, in order. -/
def allPairs (batches : List PairedEvalBatch) : List (ℚ × ℚ) :=
  batches.flatMap PairedEvalBatch.pairs

/-- The loss of every pair of the loader, in order. -/
def allPairLosses (logsigmoid : ℚ → ℚ) (batches : List PairedEvalBatch) : List ℚ :=
  batches.flatMap (PairedEvalBatch.pairLosses logsigmoid)

/-- Pairs whose positive answer is shorter have negative answers of positive length. -/
theorem zipWith_sub_pos : ∀ {pos seqlens : List Int},
    (∀ p ∈ pos.zip seqlens, 0 < p.1 ∧ p.1 < p.2) → ∀ x ∈ List.zipWith (· - ·) seqlens pos, 0 < x
  | [], _, _ => by simp
  | _ :: _, [], _ => by simp
  | a :: pos, b :: seqlens, h => by
    simp only [List.zip_cons_cons, List.mem_cons, forall_eq_or_imp] at h
    simp only [List.zipWith_cons_cons, List.mem_cons, forall_eq_or_imp]
    exact ⟨by linarith [h.1.2], zipWith_sub_pos h.2⟩

namespace PairedEvalBatch

variable {b : PairedEvalBatch}

theorem Valid.length_pairs (hb : b.Valid) : b.pairs.length = b.seqlens.length := by
  simp [pairs, pairScores, hb.length_posInputLens]

theorem Valid.length_pairLosses (logsigmoid : ℚ → ℚ) (hb : b.Valid) :
    (b.pairLosses logsigmoid).length = b.seqlens.length := by
  simp [pairLosses, hb.length_pairs, hb.length_groupFactor]

theorem sum_pairLosses (logsigmoid : ℚ → ℚ) (b : PairedEvalBatch) :
    (b.pairLosses logsigmoid).sum =
      -(List.zipWith (fun p g => logsigmoid (p.1 - p.2) * g) b.pairs b.groupFactor).sum := by
  rw [List.sum_neg, List.map_zipWith, pairLosses]

end PairedEvalBatch

/-- One turn of `evaluate`'s loop on a batch of the layout adds the batch's loss times its
pairs, the pairs it ranks right, its pairs, and its mean positive and negative scores. -/
theorem PairedEvalSums.add_valid (logsigmoid : ℚ → ℚ) (sums : PairedEvalSums)
    {b : PairedEvalBatch} (hb : b.Valid) :
    sums.add logsigmoid b = some
      { losses := sums.losses + (b.pairLosses logsigmoid).sum * (b.seqlens.length : ℚ)
        correctPredictions := sums.correctPredictions + b.pairs.countP fun p => p.2 < p.1
        totalPredictions := sums.totalPredictions + b.seqlens.length
        posScore := sums.posScore + mean (b.pairs.map (·.1))
        negScore := sums.negScore + mean (b.pairs.map (·.2)) } := by
  obtain ⟨hlen2, hloss⟩ := pairedRwLoss_pairLayout logsigmoid hb.length_posInputLens hb.pos_lt
    hb.length_scores hb.length_groupFactor
  have hnl : b.posInputLens.length = (List.zipWith (· - ·) b.seqlens b.posInputLens).length := by
    simp [hb.length_posInputLens]
  generalize hin : (b.posInputLens.zip (List.zipWith (· - ·) b.seqlens b.posInputLens)).flatMap
    (fun p => [p.1, p.2]) = inputLens at hlen2 hloss
  have hk := List.length_pos.2 hb.seqlens_ne_nil
  have hnil : inputLens ≠ [] := List.ne_nil_of_length_pos (by omega)
  simp only [PairedEvalSums.add, broadcast_of_length_eq hb.length_posInputLens.symm,
    Option.bind_eq_bind, Option.some_bind, if_neg (not_not.2 (zipWith_sub_pos hb.pos_lt)),
    if_neg (not_not.2 hnl), hin, if_neg hnil, hloss,
    if_neg (show ¬ inputLens.length % 2 ≠ 0 by omega), Option.pure_def,
    show inputLens.length / 2 = b.seqlens.length by omega, PairedEvalBatch.sum_pairLosses]
  rfl

/-- `evaluate`'s loop over batches of the layout adds up, batch by batch, what each turn adds. -/
theorem foldlM_add_valid (logsigmoid : ℚ → ℚ) : ∀ {batches : List PairedEvalBatch}
    (sums : PairedEvalSums), (∀ b ∈ batches, b.Valid) →
    batches.foldlM (PairedEvalSums.add logsigmoid) sums = some
      { losses := sums.losses +
          (batches.map fun b => (b.pairLosses logsigmoid).sum * (b.seqlens.length : ℚ)).sum
        correctPredictions := sums.correctPredictions +
          (batches.map fun b => b.pairs.countP fun p => p.2 < p.1).sum
        totalPredictions := sums.totalPredictions + (batches.map (·.seqlens.length)).sum
        posScore := sums.posScore + (batches.map fun b => mean (b.pairs.map (·.1))).sum
        negScore := sums.negScore + (batches.map fun b => mean (b.pairs.map (·.2))).sum }
  | [], sums, _ => by cases sums; simp
  | b :: batches, sums, h => by
    rw [List.foldlM_cons, PairedEvalSums.add_valid logsigmoid sums (h b (List.mem_cons_self _ _)),
      Option.bind_eq_bind, Option.some_bind,
      foldlM_add_valid logsigmoid _ fun b hb => h b (List.mem_cons_of_mem _ hb)]
    simp only [List.map_cons, List.sum_cons, add_assoc]

section Uniform

variable {α : Type} {l : List α} {k : Nat}

theorem sum_map_eq_length_mul {f : α → Nat} (h : ∀ a ∈ l, f a = k) :
    (l.map f).sum = l.length * k := by
  rw [List.map_congr_left h, List.map_const', List.sum_replicate, smul_eq_mul]

/-- The means of lists of one length `k` add up to their sums' total over `k`. -/
theorem sum_map_mean (f : α → List ℚ) (h : ∀ a ∈ l, (f a).length = k) :
    (l.map fun a => mean (f a)).sum = (l.map fun a => (f a).sum).sum / k := by
  rw [div_eq_mul_inv, ← List.sum_map_mul_right]
  exact congrArg List.sum (List.map_congr_left fun a ha => by rw [mean, h a ha, div_eq_mul_inv])

/-- The mean of lists of one length `k`, laid end to end. -/
theorem mean_flatMap (f : α → List ℚ) (h : ∀ a ∈ l, (f a).length = k) :
    mean (l.flatMap f) = (l.map fun a => (f a).sum).sum / (l.length * k : Nat) := by
  rw [mean, List.length_flatMap, sum_map_eq_length_mul (f := List.length ∘ f) h,
    List.flatMap_def, List.sum_flatten, List.map_map]
  rfl

end Uniform

/-- On a loader of batches of the layout, each of `k` pairs, `evaluate` reports as `acc` the
fraction of all the loader's pairs it ranks right. Its other statistics are off by the batch
size: `loss` is `k` times the mean loss per pair, since a batch's loss is already a sum over its
pairs when it is weighted by them, and `pos_score` and `neg_score` are the mean scores over `k`,
since a batch's mean score is divided by the pairs once more. -/
theorem evaluate_stats (logsigmoid : ℚ → ℚ) {batches : List PairedEvalBatch} {k : Nat}
    (hne : batches ≠ []) (hvalid : ∀ b ∈ batches, b.Valid)
    (hk : ∀ b ∈ batches, b.seqlens.length = k) :
    ∃ st, PairedRewardInterface.evaluate logsigmoid batches = some (some st) ∧
      st.acc = ((allPairs batches).countP fun p => p.2 < p.1) / ((allPairs batches).length : ℚ) ∧
      st.loss = k * mean (allPairLosses logsigmoid batches) ∧
      st.posScore * k = mean ((allPairs batches).map (·.1)) ∧
      st.negScore * k = mean ((allPairs batches).map (·.2)) := by
  obtain ⟨b, hb⟩ := List.exists_mem_of_ne_nil batches hne
  have hkpos : 0 < k := hk b hb ▸ List.length_pos.2 (hvalid b hb).seqlens_ne_nil
  have hB := List.length_pos.2 hne
  have htotal : (batches.map (·.seqlens.length)).sum = batches.length * k :=
    sum_map_eq_length_mul hk
  have hpairs : ∀ b ∈ batches, b.pairs.length = k := fun b hb =>
    (hvalid b hb).length_pairs.trans (hk b hb)
  have hmap : ∀ (g : ℚ × ℚ → ℚ), ∀ b ∈ batches, (b.pairs.map g).length = k := fun g b hb => by
    rw [List.length_map, hpairs b hb]
  simp only [PairedRewardInterface.evaluate, foldlM_add_valid logsigmoid _ hvalid,
    Option.bind_eq_bind, Option.some_bind, htotal, zero_add, if_pos (Nat.mul_pos hB hkpos),
    Option.pure_def, Option.some.injEq, exists_eq_left']
  have hscore : ∀ g : ℚ × ℚ → ℚ, (batches.map fun b => mean (b.pairs.map g)).sum /
      (batches.length * k : Nat) * k = mean ((allPairs batches).map g) := fun g => by
    have hk0 : (k : ℚ) ≠ 0 := by exact_mod_cast hkpos.ne'
    rw [allPairs, List.map_flatMap, mean_flatMap _ (hmap g), sum_map_mean _ (hmap g),
      div_right_comm, div_mul_cancel₀ _ hk0]
  refine ⟨?_, ?_, hscore _, hscore _⟩
  · rw [allPairs, List.countP_flatMap, List.length_flatMap,
      sum_map_eq_length_mul (f := List.length ∘ PairedEvalBatch.pairs) hpairs]
    rfl
  · have hweight : (batches.map fun b => (b.pairLosses logsigmoid).sum * (b.seqlens.length : ℚ)) =
        batches.map fun b => (b.pairLosses logsigmoid).sum * (k : ℚ) :=
      List.map_congr_left fun b hb => by rw [hk b hb]
    rw [hweight, List.sum_map_mul_right, allPairLosses,
      mean_flatMap _ fun b hb => ((hvalid b hb).length_pairLosses logsigmoid).trans (hk b hb)]
    ring

/-- Two batches of one pair each: a pair ranked right and a pair ranked wrong. -/
def evalLoader : List PairedEvalBatch :=
  [⟨[2], [1], [1], [3, 1]⟩, ⟨[3], [1], [2], [0, 4, 1]⟩]

theorem evaluate_stats_twoBatches :
    evalLoader ≠ [] ∧ (∀ b ∈ evalLoader, b.Valid) ∧ (∀ b ∈ evalLoader, b.seqlens.length = 1) ∧
      ∃ st, PairedRewardInterface.evaluate (fun x => -x) evalLoader = some (some st) ∧
        st.acc = ((allPairs evalLoader).countP fun p => p.2 < p.1) /
          ((allPairs evalLoader).length : ℚ) ∧
        st.loss = (1 : Nat) * mean (allPairLosses (fun x => -x) evalLoader) ∧
        st.posScore * (1 : Nat) = mean ((allPairs evalLoader).map (·.1)) ∧
        st.negScore * (1 : Nat) = mean ((allPairs evalLoader).map (·.2)) := by
  have hvalid : ∀ b ∈ evalLoader, b.Valid := by
    simp only [evalLoader, List.mem_cons, List.mem_singleton, forall_eq_or_imp, forall_eq,
      List.not_mem_nil, or_false]
    exact ⟨⟨rfl, by decide, by decide, rfl, rfl⟩, ⟨rfl, by decide, by decide, rfl, rfl⟩⟩
  have hk : ∀ b ∈ evalLoader, b.seqlens.length = 1 := by simp [evalLoader]
  exact ⟨List.cons_ne_nil _ _, hvalid, hk,
    evaluate_stats (fun x => -x) (List.cons_ne_nil _ _) hvalid hk⟩

end ReaLHF.Interface
