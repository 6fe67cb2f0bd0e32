/-
The packing of PPO sequences (`reallm/impl/model/interface/ppo_interface.py`).

`PPOActorInterface.generate` (lines 237-304) turns a batch of packed prompts and the
generation's right-padded outputs into one packed sequence per prompt: the prompt, then
the generated tokens up to and including the first EOS. Log-probs and the logits mask are
packed alongside, one step shorter per sequence (the prompt's first token has no log-prob),
and `prompt_mask` marks the prompt tokens. `train_step` (lines 369-392, and the same lines
731-748 of `PPOCriticInterface.train_step`) later shifts the loss mask by one token per
sequence so that it lines up with the log-probs.

# What is modelled

The generation itself is not: its outputs `gen_tokens`, `logprobs` and `logits_mask` are
arguments, 2-d and 3-d tensors kept as `Rows`, a list of rows of one width. Python's
exceptions are `none`: an index past the generation's rows, `new_zeros` of a negative size
(an empty prompt), the broadcast of `prompt_lengths + gen_lengths`, `gen_tokens[:, -1]` on
an empty width, the assertion on the packed lengths, and in `train_step` an index past the
end of `prompt_mask`. Log-prob values are of any type `F` with a zero; the timing, the
parameter-change probe and the returned metadata are not modelled.
-/
import Mathlib

namespace ReaLHF.Interface

/-- A tensor whose first dimension is kept as a list of rows, all of length `width`. -/
structure Rows (α : Type) where
  width : Nat
  rows : List (List α)
  rows_width : ∀ r ∈ rows, r.length = width

/-- A 3-d boolean tensor `logits_mask`: `Rows` of boolean rows of length `vocab`
(`logits_mask.shape[-1]`). -/
structure LogitsMask where
  mask : Rows (List Bool)
  vocab : Nat
  vocab_width : ∀ r ∈ mask.rows, ∀ v ∈ r, v.length = vocab

/-- `list(itertools.chain.from_iterable(zip(xs, ys)))`: the blocks of the two lists
alternately, as many pairs as the shorter has. -/
def interleave {α : Type} (xs ys : List (List α)) : List (List α) :=
  (xs.zip ys).flatMap fun p => [p.1, p.2]

/-- `torch.nn.functional.pad(lengths.cumsum(0), (1, 0))`: where each block starts, then the
total. -/
def cuSeqlensOf (lengths : List Nat) : List Nat :=
  lengths.scanl (· + ·) 0

/-- `a + b` of two 1-d tensors under broadcasting: equal lengths, or one of length one. -/
def broadcastAdd (a b : List Nat) : Option (List Nat) :=
  if a.length = b.length then some (List.zipWith (· + ·) a b)
  else if a.length = 1 then some (b.map (a.headD 0 + ·))
  else if b.length = 1 then some (a.map (· + b.headD 0))
  else none

-- ================================================================== generate

variable {F : Type} [Zero F]

/-- `gen_lengths` for one row: its tokens that are neither pad nor EOS, plus one for the
EOS, clipped to the width. -/
def genLength (padTokenId eosTokenId : Int) (width : Nat) (row : List Int) : Nat :=
  min ((row.filter fun t => t != padTokenId && t != eosTokenId).length + 1) width

/-- `gen_lengths`, one per row of `gen_tokens`. -/
def genLengths (padTokenId eosTokenId : Int) (genTokens : Rows Int) : List Nat :=
  genTokens.rows.map (genLength padTokenId eosTokenId genTokens.width)

/-- What one turn of the packing loop appends for sequence `i`. -/
structure SeqBlocks (F : Type) where
  prompt : List Int
  promptLogProbs : List F
  promptLogitsMask : Option (List (List Bool))
  genTokens : List Int
  genLogProbs : List F
  genLogitsMask : Option (List (List Bool))

/-- The body of the packing loop for sequence `i`. -/
def packSeq (packedPrompts : List Int) (promptCu : List Nat) (promptLengths gens : List Nat)
    (genTokens : Rows Int) (logprobs : Rows F) (logitsMask : Option LogitsMask) (i : Nat) :
    Option (SeqBlocks F) := do
  let promptLen ← promptLengths[i]?
  let genLen ← gens[i]?
  if promptLen < 1 then none
  let promptStart := promptCu.getD i 0
  let prompt := (packedPrompts.drop promptStart).take (promptCu.getD (i + 1) 0 - promptStart)
  let genRow ← genTokens.rows[i]?
  let logprobRow ← logprobs.rows[i]?
  let masks ← match logitsMask with
    | none => pure none
    | some m => do
      let maskRow ← m.mask.rows[i]?
      pure (some (List.replicate (promptLen - 1) (List.replicate m.vocab true),
        maskRow.take genLen ++ [List.replicate m.vocab true]))
  pure ⟨prompt, List.replicate (promptLen - 1) 0, masks.map Prod.fst, genRow.take genLen,
    logprobRow.take genLen, masks.map Prod.snd⟩

/-- The tensors `generate` returns. -/
structure GenerateOutput (F : Type) where
  seqNoEosMask : List Bool
  packedSeq : List Int
  cuSeqlens : List Nat
  packedLogprobs : List F
  packedLogitsMask : Option (List (List Bool))
  promptMask : List Bool

/-- `PPOActorInterface.generate` after the generation call, over the prompt lengths and
the packed prompts. -/
def generate (padTokenId eosTokenId : Int) (forceNoLogitsMask : Bool)
    (promptLengths : List Nat) (packedPrompts : List Int) (genTokens : Rows Int)
    (logprobs : Rows F) (logitsMask : Option LogitsMask) : Option (GenerateOutput F) := do
  let bs := promptLengths.length
  if genTokens.width = 0 then none
  let seqNoEosMask := genTokens.rows.map fun row =>
    row.getLastD 0 != eosTokenId && row.getLastD 0 != padTokenId
  let gens := genLengths padTokenId eosTokenId genTokens
  let blocks ← (List.range bs).mapM
    (packSeq packedPrompts (cuSeqlensOf promptLengths) promptLengths gens genTokens logprobs
      logitsMask)
  let packedSeq := (interleave (blocks.map (·.prompt)) (blocks.map (·.genTokens))).flatten
  let seqLengths ← broadcastAdd promptLengths gens
  let packedLogprobs :=
    (interleave (blocks.map (·.promptLogProbs)) (blocks.map (·.genLogProbs))).flatten
  if packedSeq.length ≠ packedLogprobs.length + bs then none
  let genLogitsMaskList := blocks.filterMap (·.genLogitsMask)
  let packedLogitsMask :=
    if genLogitsMaskList ≠ [] && !forceNoLogitsMask then
      some (interleave (blocks.filterMap (·.promptLogitsMask)) genLogitsMaskList).flatten
    else none
  let promptMask :=
    (interleave (promptLengths.map (List.replicate · true)) (gens.map (List.replicate · false))).flatten
  pure ⟨seqNoEosMask, packedSeq, cuSeqlensOf seqLengths, packedLogprobs, packedLogitsMask,
    promptMask⟩

-- ================================================================ train_step

/-- The shift of `train_step`: `short1cu_seqlens`, and `loss_mask` (the tokens after the
prompt) read at every position but the first of each sequence. -/
def trainStepShift (cuSeqlens : List Nat) (promptMask : List Bool) :
    Option (List Int × List Bool) := do
  let short1cuSeqlens := cuSeqlens.enum.map fun p => (p.2 : Int) - p.1
  let lossMask := promptMask.map (!·)
  let shiftOneIndices := (List.range (cuSeqlens.length - 1)).flatMap fun i =>
    List.range' (cuSeqlens.getD i 0 + 1) (cuSeqlens.getD (i + 1) 0 - (cuSeqlens.getD i 0 + 1))
  let shifted ← shiftOneIndices.mapM fun idx => lossMask[idx]?
  pure (short1cuSeqlens, shifted)

end ReaLHF.Interface
