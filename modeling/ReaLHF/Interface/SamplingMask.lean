/-
The sampling mask of the WPS actor: `generate_logits_ignoring_mask`
(`impl/model/interface/wps_actor_critic.py`, lines 158-183).

After generation, `WPSActorInterface.generate` (lines 286-290) recomputes the logits of the
generated sequences and masks, at every position, the tokens that top-p and top-k sampling
could not have drawn, so that the log-probabilities it records are those of the sampling
distribution. A token is masked by top-p when, listing the vocabulary by ascending logit,
the cumulative softmax probability up to and including it is at most `1 - top_p`; by top-k
when its logit is below the `k`-th largest. With `top_p = 1` and `top_k` covering the
vocabulary, the function returns an all-false mask without computing either.

# What is modelled

The mask acts on the last dimension, so `logits` is kept as `Rows`: every row is the logits
of one position, all of the vocabulary's width. Floats are rationals and `exp` is a
parameter, the exponential of `softmax`. `torch.sort` does not fix the order of equal logits,
so its indices are a parameter too, `sort`, and the properties hold for every order it may
return (`IsAscendingOrder`). The `assert` on `top_p`, an index that `scatter` cannot write,
and `topk` asked for more values than the row has or read at the last of none, are `none`.
-/
import ReaLHF.Interface.Ppo

namespace ReaLHF.Interface

/-- What `torch.sort(logits, descending=False)` may return as indices for one row: a listing
of the row's positions along which its logits ascend. Equal logits may come in any order. -/
def IsAscendingOrder (logits : List ℚ) (order : List Nat) : Prop :=
  order.Perm (List.range logits.length) ∧ (order.map (logits.getD · 0)).Sorted (· ≤ ·)

instance (logits : List ℚ) (order : List Nat) : Decidable (IsAscendingOrder logits order) :=
  inferInstanceAs (Decidable (_ ∧ _))

/-- `x.softmax(dim=-1)` of one row. -/
def softmax (exp : ℚ → ℚ) (x : List ℚ) : List ℚ :=
  x.map fun a => exp a / (x.map exp).sum

/-- `x.cumsum(dim=-1)` of one row. -/
def cumsum (x : List ℚ) : List ℚ :=
  (x.scanl (· + ·) 0).tail

/-- `self.scatter(-1, index, src)` of one row: a copy of `self` in which entry `index[j]`
becomes `src[j]`, for each `j` in turn (the turns' order matters only for a repeated index,
which a sort's indices never have); an index outside the row raises. -/
def scatter {α : Type} (self : List α) (index : List Nat) (src : List α) : Option (List α) :=
  if index.length ≤ src.length ∧ ∀ i ∈ index, i < self.length then
    some ((index.zip src).foldl (fun out p => out.set p.1 p.2) self)
  else none

/-- `torch.topk(logits, k)[0][..., -1]` of one row: the last of its `k` largest logits,
listed in descending order. Asking for more than the row holds raises, and so does reading
the last of none. -/
def topkLast (logits : List ℚ) (k : Nat) : Option ℚ :=
  if logits.length < k then none
  else ((logits.mergeSort fun a b => decide (b ≤ a)).take k).getLast?

/-- The body of `generate_logits_ignoring_mask` past its early return, for one row whose
`torch.sort` indices are `order`. -/
def ignoringMaskRow (exp : ℚ → ℚ) (topP : ℚ) (topK : Nat) (logits : List ℚ)
    (order : List Nat) : Option (List Bool) := do
  let sortedLogits := order.map (logits.getD · 0)
  let cumulativeProbs := cumsum (softmax exp sortedLogits)
  let sortedIndicesToRemove := cumulativeProbs.map fun c => decide (c ≤ 1 - topP)
  let topPIndicesToRemove ← scatter sortedIndicesToRemove order sortedIndicesToRemove
  let kth ← topkLast logits topK
  let topKIndicesToRemove := logits.map fun l => decide (l < kth)
  pure (List.zipWith (· || ·) topPIndicesToRemove topKIndicesToRemove)

/-- `generate_logits_ignoring_mask(logits, top_p, top_k)`: for every row of `logits`, the
tokens to mask. `none` for `top_p` or `top_k` stands for the argument `None`. -/
def generateLogitsIgnoringMask (exp : ℚ → ℚ) (sort : List ℚ → List Nat) (logits : Rows ℚ)
    (topP : Option ℚ) (topK : Option Int) : Option (List (List Bool)) :=
  let topP := topP.getD 1
  let topK := topK.getD (-1)
  if ¬ (0 < topP ∧ topP ≤ 1) then none
  else
    let topK : Nat := if topK < 0 ∨ (logits.width : Int) < topK then logits.width else topK.toNat
    if topP = 1 ∧ topK = logits.width then
      some (logits.rows.map fun row => row.map fun _ => false)
    else logits.rows.mapM fun row => ignoringMaskRow exp topP topK row (sort row)

end ReaLHF.Interface
