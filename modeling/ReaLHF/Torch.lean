/-
The torch values the pipeline code hands around: dtypes, element values and tensors.

A tensor is its dtype, its shape and its elements in row-major order. Element values are
kept as exactly as the code inspects them: integer and boolean dtypes hold integers (a
bool as `0`/`1`), floating dtypes a finite value or a non-finite one (NaN or an infinity,
where `int()` raises), complex dtypes a pair. Only a few operations look inside a tensor in
the modelled code: Python's `int(x)`, `bool(x)` and `operator.index(x)` (`Tensor.toInt?`,
`Tensor.toBool?`, `Tensor.toIndex?`), `torch.zeros` (`Tensor.zeros`) and the conversion of a
bool tensor to `torch.long`; everything else moves tensors as whole values. The arithmetic of
0-d integral tensors wraps in their dtype (`Dtype.wrap`), with torch's type promotion between
two dtypes (`Dtype.promote`) and with a Python int (`Dtype.addInt`).

Python's sequence indexing and slicing, which the same code applies to tuples of tensors,
close the file.
-/
import Mathlib

namespace ReaLHF

-- =================================================================== dtypes

/-- The dtypes of `ID_TO_DTYPE`, in that order. -/
inductive Dtype
  | float32 | float64 | complex64 | complex128 | float16 | bfloat16
  | uint8 | int8 | int16 | int32 | int64 | bool
  deriving DecidableEq, Repr

namespace Dtype

/-- The kind of element a dtype holds. -/
def isFloating : Dtype → Bool
  | float32 | float64 | float16 | bfloat16 => true
  | _ => false

def isComplex : Dtype → Bool
  | complex64 | complex128 => true
  | _ => false

/-- The width in bits of an integral dtype other than `bool`. -/
def width : Dtype → Nat
  | uint8 | int8 => 8
  | int16 => 16
  | int32 => 32
  | int64 => 64
  | _ => 0

/-- A value cast to an integral dtype, as torch's integer arithmetic keeps it: modulo
`2 ^ width`, in the dtype's range (two's complement for the signed ones); a bool is whether
the value is nonzero. -/
def wrap : Dtype → Int → Int
  | uint8, n => n % 256
  | int8, n => (n + 128) % 256 - 128
  | int16, n => (n + 32768) % 65536 - 32768
  | int32, n => (n + 2147483648) % 4294967296 - 2147483648
  | int64, n => (n + 9223372036854775808) % 18446744073709551616 - 9223372036854775808
  | bool, n => if n = 0 then 0 else 1
  | _, n => n

/-- The dtype of `x + k` for an integral tensor `x` and a Python int `k`: the tensor's own,
a bool tensor being promoted to `torch.long`. -/
def addInt : Dtype → Dtype
  | bool => int64
  | d => d

/-- The dtype of the sum of two integral tensors, by torch's type promotion: the wider of the
two, a bool giving way to the other, and `uint8` with `int8` meeting in `int16`. -/
def promote (a b : Dtype) : Dtype :=
  if a = b then a
  else if a = bool then b
  else if b = bool then a
  else if a = uint8 ∧ b = int8 ∨ a = int8 ∧ b = uint8 then int16
  else if a.width ≤ b.width then b else a

end Dtype

-- =================================================================== values

/-- One tensor element, as `Tensor.item()` returns it. -/
inductive Scalar
  | int (n : Int)
  | float (x : ℚ)
  | nonFinite
  | complex (re im : ℚ)
  deriving DecidableEq, Repr

/-- The zero element of a dtype, what `torch.zeros` fills with. -/
def Scalar.zeroOf (dtype : Dtype) : Scalar :=
  if dtype.isComplex then .complex 0 0 else if dtype.isFloating then .float 0 else .int 0

/-- Python's `int(v)`: truncation toward zero; `none` where it raises (NaN, infinities,
complex values). -/
def Scalar.toInt? : Scalar → Option Int
  | .int n => some n
  | .float x => some (x.num.tdiv x.den)
  | .nonFinite => none
  | .complex _ _ => none

/-- Python's `bool(v)`: whether the element is nonzero (NaN and the infinities are). -/
def Scalar.toBool : Scalar → Bool
  | .int n => n != 0
  | .float x => x != 0
  | .nonFinite => true
  | .complex re im => re != 0 || im != 0

/-- A tensor: dtype, shape, elements in row-major order. -/
structure Tensor where
  dtype : Dtype
  shape : List Nat
  data : List Scalar
  deriving DecidableEq, Repr

namespace Tensor

/-- `torch.zeros(shape, dtype=dtype)`. -/
def zeros (shape : List Nat) (dtype : Dtype) : Tensor :=
  ⟨dtype, shape, List.replicate shape.prod (Scalar.zeroOf dtype)⟩

/-- `torch.tensor(n, dtype=torch.long)`: a 0-d long tensor. -/
def ofInt (n : Int) : Tensor :=
  ⟨.int64, [], [.int n]⟩

/-- `x.to(dtype=torch.long)` of a bool tensor: same shape, the `0`/`1` values. -/
def toLong (x : Tensor) : Tensor :=
  { x with dtype := .int64 }

/-- `int(x)`: defined only for a one-element tensor, of any shape. -/
def toInt? (x : Tensor) : Option Int :=
  match x.data with
  | [v] => v.toInt?
  | _ => none

/-- `bool(x)`: defined only for a one-element tensor. -/
def toBool? (x : Tensor) : Option Bool :=
  match x.data with
  | [v] => some v.toBool
  | _ => none

/-- `operator.index(x)`, what a tensor used as a tuple index or slice bound goes through:
defined only for a one-element tensor of an integral dtype. -/
def toIndex? (x : Tensor) : Option Int :=
  if x.dtype.isFloating || x.dtype.isComplex then none else x.toInt?

end Tensor

-- ========================================================== Python sequences

/-- Python's `l[i]` for an int index: a negative index counts from the end; `none` is the
`IndexError`. -/
def pyIndex {α : Type} (l : List α) (i : Int) : Option α :=
  let j := if 0 ≤ i then i else l.length + i
  if 0 ≤ j then l[j.toNat]? else none

/-- Python's `l[a:b]`: a negative bound counts from the end, and both are clipped to the
list. -/
def pySlice {α : Type} (l : List α) (a b : Int) : List α :=
  let clip (j : Int) : Nat := min (if j < 0 then j + l.length else j).toNat l.length
  (l.drop (clip a)).take (clip b - clip a)

end ReaLHF
