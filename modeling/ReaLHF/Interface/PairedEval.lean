/-
Scoring and evaluating the paired reward model: `PairedRewardInterface.inference` and
`PairedRewardInterface.evaluate` (`reallm/impl/model/interface/rw_interface.py`, lines 50-98
and 166-224).

`inference` scores packed sequences: it reads the reward model's score at the last token of
each sequence. It also computes the scores shifted by `output_bias` and scaled by
`output_scaling`, and then returns the unshifted ones. `evaluate` runs the loss function of
`train_step` over every batch of the loader and keeps running sums: the loss weighted by the
batch's pairs, the pairs ranked right, the pairs seen, and the batch's average positive and
negative scores. It reports each sum divided by the pairs seen, or an empty dictionary when the
loader holds no pair.

# What is modelled

The path without pipeline parallelism, as in the model of `train_step`: the reward model's
per-token scores of each packed batch are an argument and `logsigmoid` is a parameter.
Python's exceptions are `none`: `max` of no sequence, an index outside the scores, the broadcast
of two lengths, `torch.stack` of two lengths, the assertions, and what the loss function
raises. `evaluate` returns `some none` for the empty dictionary. The logging and the metadata
are not modelled.
-/
import ReaLHF.Interface.PairedReward

namespace ReaLHF.Interface

/-- `inference(model, data)` with the interface's `output_scaling` and `output_bias`, on packed
sequences of lengths `seqlens` whose per-token scores are `scores`. -/
def PairedRewardInterface.inference (outputScaling outputBias : ℚ) (seqlens : List Int)
    (scores : List ℚ) : Option (List ℚ) := do
  if seqlens = [] then none
  let cuSeqlens := seqlens.scanl (· + ·) 0
  let chosenEndScores ← (cuSeqlens.tail.map (· - 1)).mapM (pyIndex scores)
  let _scores := scores.map fun x => (x - outputBias) * outputScaling
  pure chosenEndScores

/-- One batch of the evaluation loader: `metadata["seqlens"]`, the pairs' lengths;
`pos_input_lens`; `group_factor`; and the reward model's per-token scores of the packed
batch. -/
structure PairedEvalBatch where
  seqlens : List Int
  posInputLens : List Int
  groupFactor : List ℚ
  scores : List ℚ

/-- The running sums of `evaluate`'s loop. -/
structure PairedEvalSums where
  losses : ℚ := 0
  correctPredictions : Nat := 0
  totalPredictions : Nat := 0
  posScore : ℚ := 0
  negScore : ℚ := 0

/-- One turn of `evaluate`'s loop. -/
def PairedEvalSums.add (logsigmoid : ℚ → ℚ) (sums : PairedEvalSums) (data : PairedEvalBatch) :
    Option PairedEvalSums := do
  let negInputLens ← broadcast (· - ·) data.seqlens data.posInputLens
  if ¬ ∀ x ∈ negInputLens, 0 < x then none
  if data.posInputLens.length ≠ negInputLens.length then none
  let inputLens := (data.posInputLens.zip negInputLens).flatMap fun p => [p.1, p.2]
  let cuSeqlens := inputLens.scanl (· + ·) 0
  if inputLens = [] then none
  let stats ← pairedRwLossFromModelOutputs logsigmoid data.scores cuSeqlens data.groupFactor
  if inputLens.length % 2 ≠ 0 then none
  pure { losses := sums.losses + stats.loss * (inputLens.length / 2 : Nat)
         correctPredictions := sums.correctPredictions + stats.correctPredictions
         totalPredictions := sums.totalPredictions + inputLens.length / 2
         posScore := sums.posScore + stats.avgPosScore
         negScore := sums.negScore + stats.avgNegScore }

/-- What `evaluate` reports. -/
structure PairedEvalStats where
  loss : ℚ
  acc : ℚ
  posScore : ℚ
  negScore : ℚ

/-- `evaluate(model, eval_dataloader)` on the loader's batches: `some none` is the empty
dictionary of a loader without pairs. -/
def PairedRewardInterface.evaluate (logsigmoid : ℚ → ℚ) (batches : List PairedEvalBatch) :
    Option (Option PairedEvalStats) := do
  let sums ← batches.foldlM (PairedEvalSums.add logsigmoid) {}
  if 0 < sums.totalPredictions then
    pure (some ⟨sums.losses / sums.totalPredictions,
      sums.correctPredictions / sums.totalPredictions, sums.posScore / sums.totalPredictions,
      sums.negScore / sums.totalPredictions⟩)
  else pure none

end ReaLHF.Interface
