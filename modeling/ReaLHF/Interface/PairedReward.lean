/-
Training the paired reward model: `PairedRewardInterface.train_step` and its loss
`_paired_rw_loss_from_model_outputs` (`reallm/impl/model/interface/rw_interface.py`, lines
20-36 and 100-154).

Each sample is a pair of answers to one prompt, the preferred one first, packed end to end:
`seqlens` holds each pair's length and `pos_input_lens` the length of its positive answer.
`train_step` splits every pair into its two answers, reads the reward model's score at the
last token of each answer, and trains on `-logsigmoid(pos - neg)` weighted by `group_factor`.
It keeps two counters across calls, the pairs seen and the pairs ranked right, reports their
ratio as `acc`, and clears both when the model's version moves into a new epoch.

# What is modelled

The path without pipeline parallelism. The reward model's forward pass is not modelled: its
per-token scores of the packed batch are the argument `scores`, and `logsigmoid` is a
parameter; `model.inc_version()` is the argument `epochAdvances`, whether the version's epoch
moved. Floats are rationals. Python's exceptions are `none`: a broadcast of two lengths that
differ and are both other than one, `torch.stack` of two lengths, `max` of no sequence, an
index outside the scores, `.view(-1, 2)` of an odd count and the `assert`. The mean of no
score, NaN in torch, is not distinguished. Backward and optimiser steps, the timer and the
logging are not modelled.
-/
import ReaLHF.Torch

namespace ReaLHF.Interface

/-- An elementwise operation of two 1-d tensors under broadcasting: equal lengths, or one of
length one. -/
def broadcast {α β γ : Type} (f : α → β → γ) (a : List α) (b : List β) : Option (List γ) :=
  if a.length = b.length then some (List.zipWith f a b)
  else match a, b with
    | [x], b => some (b.map (f x))
    | a, [y] => some (a.map (f · y))
    | _, _ => none

/-- `x.view(-1, 2)` of a 1-d tensor: consecutive pairs, raising on an odd length. -/
def viewPairs {α : Type} : List α → Option (List (α × α))
  | [] => some []
  | [_] => none
  | a :: b :: l => ((a, b) :: ·) <$> viewPairs l

/-- `x.mean()` of a 1-d float tensor. -/
def mean (x : List ℚ) : ℚ :=
  x.sum / x.length

/-- The statistics `_paired_rw_loss_from_model_outputs` returns with its loss. -/
structure PairedRwStats where
  loss : ℚ
  correctPredictions : Nat
  avgPosScore : ℚ
  avgNegScore : ℚ

/-- `_paired_rw_loss_from_model_outputs(scores, packed_input_ids, cu_seqlens, group_factor)`:
the scores at the last token of every sequence, taken two by two as (positive, negative). -/
def pairedRwLossFromModelOutputs (logsigmoid : ℚ → ℚ) (scores : List ℚ) (cuSeqlens : List Int)
    (groupFactor : List ℚ) : Option PairedRwStats := do
  let ends ← (cuSeqlens.tail.map (· - 1)).mapM (pyIndex scores)
  let pairs ← viewPairs ends
  let weighted ← broadcast (· * ·) (pairs.map fun p => logsigmoid (p.1 - p.2)) groupFactor
  let loss := -weighted.sum
  let correctPredictions := pairs.countP fun p => p.2 < p.1
  pure ⟨loss, correctPredictions, mean (pairs.map (·.1)), mean (pairs.map (·.2))⟩

/-- The training counters of a `PairedRewardInterface`. `train_total_correct_predictions`
adds up `.item()` of float counts; it holds a whole number, kept as one. -/
structure PairedRewardInterface where
  trainTotalPredictions : Nat := 0
  trainTotalCorrectPredictions : Nat := 0

/-- What `train_step` returns: the loss function's statistics and `acc`. -/
structure PairedTrainStats where
  stats : PairedRwStats
  acc : ℚ

/-- `self.train_step(model, data)` on the path without pipeline parallelism. -/
def PairedRewardInterface.trainStep (logsigmoid : ℚ → ℚ) (self : PairedRewardInterface)
    (posInputLens seqlens : List Int) (groupFactor : List ℚ) (scores : List ℚ)
    (epochAdvances : Bool) : Option (PairedRewardInterface × PairedTrainStats) := do
  let negInputLens ← broadcast (· - ·) seqlens posInputLens
  if posInputLens.length ≠ negInputLens.length then none
  let inputLens := (posInputLens.zip negInputLens).flatMap fun p => [p.1, p.2]
  let cuSeqlens := inputLens.scanl (· + ·) 0
  if inputLens = [] then none
  let stats ← pairedRwLossFromModelOutputs logsigmoid scores cuSeqlens groupFactor
  let correct := self.trainTotalCorrectPredictions + stats.correctPredictions
  if inputLens.length % 2 ≠ 0 then none
  let total := self.trainTotalPredictions + inputLens.length / 2
  let acc := (correct : ℚ) / total
  let self : PairedRewardInterface :=
    if epochAdvances then {} else ⟨total, correct⟩
  pure (self, ⟨stats, acc⟩)

end ReaLHF.Interface
