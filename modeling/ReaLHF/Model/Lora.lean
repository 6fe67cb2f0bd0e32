/-
`LinearLoRA` (`impl/model/lora.py`, lines 27-131): an `nn.Linear` whose output is corrected
by a low-rank product, scaled by `lora_scaling / lora_dim`. `fuse_lora_weight` adds that
product into the wrapped weight so that `forward` can skip it, `unfuse_lora_weight` takes
it out again, and `squash_lora` fuses for good and drops the LoRA modules.

# What is modelled

Values are exact rationals. A batch of inputs is a matrix with one input per row, and
`nn.Linear`'s and `F.linear`'s check of the input width is a `none`, as are the
`RuntimeError` of a second `squash_lora` and the `ValueError` of a `lora_dim` of zero. The
LoRA weights are arguments of the constructor (torch draws them at random). The 8-bit path
and the dtype are not modelled; dropout is the identity, as it is in `eval` mode or at rate
`0`, so `eval` and `train`, which only switch it, are not modelled either. The modules
`squash_lora` deletes are kept: nothing reads them once `squashed` is set.
-/
import Mathlib

namespace ReaLHF.Model

open Matrix

/-- A bias added to each of `b` rows; zero for a layer without one. -/
def biasRows {b m : Nat} (bias : Option (Fin m → ℚ)) : Matrix (Fin b) (Fin m) ℚ :=
  of fun _ j => (bias.map (· j)).getD 0

/-- `F.linear(x, weight, bias)`, also an `nn.Linear` of that weight applied to `x`:
`x @ weight.T + bias`; `none` when the width of `x` is not the layer's input width. -/
def linear {b k m n : Nat} (x : Matrix (Fin b) (Fin k) ℚ) (weight : Matrix (Fin m) (Fin n) ℚ)
    (bias : Option (Fin m → ℚ)) : Option (Matrix (Fin b) (Fin m) ℚ) :=
  if h : k = n then some (x.submatrix id (Fin.cast h.symm) * weightᵀ + biasRows bias) else none

/-- `y + d` of two batches of rows: `none` unless their widths agree (torch would broadcast
a width of one, but `forward` only adds rows of equal widths). -/
def addRows {b m n : Nat} (y : Matrix (Fin b) (Fin m) ℚ) (d : Matrix (Fin b) (Fin n) ℚ) :
    Option (Matrix (Fin b) (Fin m) ℚ) :=
  if h : n = m then some (y + d.submatrix id (Fin.cast h.symm)) else none

/-- The state of a `LinearLoRA` wrapping a layer with `outFeatures` rows and `inFeatures`
columns (`rows, columns = self.weight.shape`). `lora_right` is `nn.Linear(lora_dim,
columns)` and `lora_left` is `nn.Linear(rows, lora_dim)`; the fields are their weights. -/
structure LinearLoRA (outFeatures inFeatures loraDim : Nat) where
  weight : Matrix (Fin outFeatures) (Fin inFeatures) ℚ
  bias : Option (Fin outFeatures → ℚ)
  loraRight : Matrix (Fin inFeatures) (Fin loraDim) ℚ
  loraLeft : Matrix (Fin loraDim) (Fin outFeatures) ℚ
  loraScaling : ℚ
  fuseLora : Bool
  squashed : Bool

namespace LinearLoRA

variable {o i r : Nat}

/-- `LinearLoRA.__init__` over `linear_`'s weight and bias, the rank, `lora_scaling` and
the initial LoRA weights. -/
def init (weight : Matrix (Fin o) (Fin i) ℚ) (bias : Option (Fin o → ℚ)) (loraDim : Nat)
    (loraScaling : ℚ) (loraRight : Matrix (Fin i) (Fin loraDim) ℚ)
    (loraLeft : Matrix (Fin loraDim) (Fin o) ℚ) : Option (LinearLoRA o i loraDim) :=
  if loraDim ≤ 0 then none
  else some ⟨weight, bias, loraRight, loraLeft, loraScaling / loraDim, false, false⟩

/-- `self.lora_scaling * torch.matmul(self.lora_left.weight.t(), self.lora_right.weight.t())`,
what fusing adds to the weight and unfusing takes out. -/
def loraDelta (m : LinearLoRA o i r) : Matrix (Fin o) (Fin i) ℚ :=
  m.loraScaling • (m.loraLeftᵀ * m.loraRightᵀ)

/-- `fuse_lora_weight`. -/
def fuseLoraWeight (m : LinearLoRA o i r) : LinearLoRA o i r :=
  { m with
    weight := if !m.squashed && !m.fuseLora then m.weight + m.loraDelta else m.weight
    fuseLora := true }

/-- `unfuse_lora_weight`. -/
def unfuseLoraWeight (m : LinearLoRA o i r) : LinearLoRA o i r :=
  { m with
    weight := if !m.squashed && m.fuseLora then m.weight - m.loraDelta else m.weight
    fuseLora := false }

/-- `squash_lora`. -/
def squashLora (m : LinearLoRA o i r) : Option (LinearLoRA o i r) :=
  if m.squashed then none else some { m.fuseLoraWeight with squashed := true }

/-- `forward(x)`, with `lora_dropout` the identity. -/
def forward {b k : Nat} (m : LinearLoRA o i r) (x : Matrix (Fin b) (Fin k) ℚ) :
    Option (Matrix (Fin b) (Fin o) ℚ) := do
  let y ← linear x m.weight m.bias
  if m.squashed || m.fuseLora then return y
  let left ← linear x m.loraLeft none
  let right ← linear left m.loraRight none
  addRows y (m.loraScaling • right)

/-- The methods that change a `LinearLoRA`'s state. -/
inductive Call
  | fuseLoraWeight
  | unfuseLoraWeight
  | squashLora
  deriving DecidableEq, Repr

/-- One method call; `none` where it raises. -/
def call (m : LinearLoRA o i r) : Call → Option (LinearLoRA o i r)
  | .fuseLoraWeight => some m.fuseLoraWeight
  | .unfuseLoraWeight => some m.unfuseLoraWeight
  | .squashLora => m.squashLora

/-- A sequence of calls, stopping at the first that raises. -/
def run (m : LinearLoRA o i r) (calls : List Call) : Option (LinearLoRA o i r) :=
  calls.foldlM call m

end LinearLoRA

end ReaLHF.Model
