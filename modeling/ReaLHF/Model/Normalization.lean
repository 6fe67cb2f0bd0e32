/-
Advantage normalisation: `masked_normalization` (`impl/model/utils/data.py`, lines 15-72).

The function standardises `x` over its dimensions: it masks `x`, then sums the mask (or
counts the elements), the masked values and their squares, and returns
`(x - mean) / (std + eps)`, the variance being `E[x^2] - E[x]^2`, scaled by
`factor / (factor - 1)` when `unbiased`. In an initialised process group the three sums are
`all_reduce`d first, so that every rank standardises its own shard by the statistics of the
group's whole batch.

# What is modelled

The default `dim=None` reduces over every dimension, so a tensor is its shape and its elements
in row-major order (`FloatTensor`); the two shape assertions then ask for a mask of the
tensor's own shape, and their failure is `none`. Values are rationals: `high_precision` and
the closing `.float()` change only the rounding, and `sqrt` is a parameter, the square root of
the one-element variance. Where torch divides by a zero `factor` it gets NaN, which the
theorems keep out. `inplace` decides only whether the caller's tensor is overwritten; the
model returns the result's elements, of `x`'s shape.

A process group is the list of its ranks, each with its shard and mask, all making the same
call: each of the three `all_reduce`s, issued in the same order on every rank, hands every rank
the sum of its argument over the group. A rank whose assertion fails raises before the
collectives and the group's run fails with it.
-/
import Mathlib

namespace ReaLHF.Model

/-- A float tensor of finite values: its shape and its elements in row-major order. -/
structure FloatTensor where
  shape : List Nat
  data : List ℚ
  data_length : data.length = shape.prod

/-- The part of `masked_normalization` before the collectives: `x` masked, and the sums
`(factor, x_sum, x_sum_sq)` in the order the code reduces them; `none` when the mask is not of
`x`'s shape (with every dimension in `dim`, that is what the two assertions ask). -/
def localSums (x : FloatTensor) (mask : Option FloatTensor) : Option (List ℚ × ℚ × ℚ × ℚ) :=
  match mask with
  | none => some (x.data, x.shape.prod, x.data.sum, (x.data.map (· ^ 2)).sum)
  | some mask =>
    if mask.shape = x.shape then
      let xm := List.zipWith (· * ·) x.data mask.data
      some (xm, mask.data.sum, xm.sum, (xm.map (· ^ 2)).sum)
    else none

/-- The part of `masked_normalization` after the collectives: the masked `x` standardised by
the sums `(factor, x_sum, x_sum_sq)`. -/
def standardize (sqrt : ℚ → ℚ) (unbiased : Bool) (eps : ℚ) (x : List ℚ) :
    ℚ × ℚ × ℚ → List ℚ
  | (factor, xSum, xSumSq) =>
    let mean := xSum / factor
    let meansq := xSumSq / factor
    let var := meansq - mean ^ 2
    let var := if unbiased then var * (factor / (factor - 1)) else var
    x.map fun v => (v - mean) / (sqrt var + eps)

/-- `masked_normalization(x, mask, unbiased=unbiased, eps=eps)` in a process without an
initialised group. -/
def maskedNormalization (sqrt : ℚ → ℚ) (x : FloatTensor) (mask : Option FloatTensor)
    (unbiased : Bool) (eps : ℚ) : Option (List ℚ) := do
  let (xm, sums) ← localSums x mask
  pure (standardize sqrt unbiased eps xm sums)

/-- The same call on every rank of an initialised group, rank `r` holding `shards[r]`: each
rank's output, in rank order. -/
def maskedNormalizationGroup (sqrt : ℚ → ℚ) (shards : List (FloatTensor × Option FloatTensor))
    (unbiased : Bool) (eps : ℚ) : Option (List (List ℚ)) := do
  let locals ← shards.mapM fun s => localSums s.1 s.2
  let reduced := (locals.map (·.2)).sum
  pure (locals.map fun l => standardize sqrt unbiased eps l.1 reduced)

end ReaLHF.Model
