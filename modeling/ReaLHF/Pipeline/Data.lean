/-
The tensor-tuple codec of pipeline stages (`impl/model/utils/data.py`, lines 97-258): a
pipeline stage takes and returns tuples of tensors only, so the dataclasses crossing a
stage boundary, `PipeTransferData` and `PipeCacheData`, are flattened into one tuple and
rebuilt on the other side.

`to_tuple` writes a record as its field count, its class code, then each field through
`to_tensor`: a non-negative `int` or a `bool` becomes a 0-d long tensor, `None` the
sentinel `-1`, and a tensor is passed on (a bool tensor converted to `torch.long`).
`from_tensor` reads a field back: a tensor whose `int()` is negative is `None`, otherwise
the annotation of the field says whether to take `int()`, `bool()` or the tensor itself.
`tensor_tuple_to_data_list` walks the concatenated tuple record by record.

# What is modelled

A record is its class and the list of its field values, in the order of
`dataclasses.fields`; every instance has all the fields of its class, which the structure
keeps as an invariant. Field values are untyped, as in Python: a field annotated `int` may
hold anything, and only `from_tensor` reads the annotation. `torch.tensor(x, dtype=torch.long)`
raises for an `int` outside the range of `torch.long`.

The decoding loop's cursor `i` starts as the Python int `0`; the first `i += num_fields + 2`
rebinds it to a 0-d tensor of the dtype of `num_fields + 2`, and every later one adds in
place, so the cursor keeps that dtype and wraps in it (`Cursor`). The slice bound
`i + num_fields + 2` is computed apart, in the promoted dtype of the cursor and the count.
Every tuple access goes through Python's negative indexing and slicing, and the loop has
fuel, since the cursor moves by a count read from the tuple (`none` is then either an
exception or no result; `Proofs/LoopTermination.lean` separates the two). Every failing
`assert`, every `IndexError` and `NotImplementedError`, and `int()`, `bool()` or an index of
a tensor that has none, is `none`. `time_mark` and the device placement are not modelled.
-/
import ReaLHF.Torch

namespace ReaLHF.Pipeline

-- ==================================================================== fields

/-- The annotation of a dataclass field, `f.type`. -/
inductive FieldType
  | tensor
  | int
  | bool
  deriving DecidableEq, Repr

/-- A field's value: `None`, a Python `int` or `bool`, or a tensor. -/
inductive FieldValue
  | none
  | int (n : Int)
  | bool (b : Bool)
  | tensor (x : Tensor)
  deriving DecidableEq, Repr

/-- A `dataclasses.Field`: name, annotation and default. -/
structure Field where
  name : String
  type : FieldType
  default : FieldValue
  deriving DecidableEq, Repr

/-- The two dataclasses that implement `TensorDataclassToTupleInterface`. -/
inductive PipeClass
  | pipeTransferData
  | pipeCacheData
  deriving DecidableEq, Repr

namespace PipeClass

/-- `dataclasses.fields(cls)`, in declaration order. -/
def fields : PipeClass → List Field
  | pipeTransferData =>
    [⟨"pp_input", .tensor, .none⟩, ⟨"pp_output", .tensor, .none⟩,
      ⟨"cu_seqlens", .tensor, .none⟩, ⟨"max_seqlen", .int, .none⟩,
      ⟨"store_kv_cache", .bool, .bool false⟩, ⟨"attention_mask", .tensor, .none⟩]
  | pipeCacheData =>
    [⟨"input_ids", .tensor, .none⟩, ⟨"position_ids", .tensor, .none⟩,
      ⟨"k_cache", .tensor, .none⟩, ⟨"v_cache", .tensor, .none⟩,
      ⟨"cache_seqlens", .tensor, .none⟩]

/-- `encode()`, the class code. -/
def encode : PipeClass → Int
  | pipeTransferData => 0
  | pipeCacheData => 1

/-- The class chosen for a type code in `tensor_tuple_to_data_list`. -/
def ofTypeCode (typeCode : Int) : Option PipeClass :=
  if typeCode = 0 then some pipeTransferData
  else if typeCode = 1 then some pipeCacheData
  else none

end PipeClass

/-- An instance of one of the two dataclasses: a value for every field of its class. -/
@[ext]
structure PipeData where
  cls : PipeClass
  values : List FieldValue
  values_length : values.length = cls.fields.length
  deriving DecidableEq, Repr

namespace PipeData

/-- `cls()`: every field at its default. -/
def init (cls : PipeClass) : PipeData :=
  ⟨cls, cls.fields.map (·.default), List.length_map _ _⟩

/-- `setattr(x, f.name, v)` for the `i`-th field `f`. -/
def setattr (x : PipeData) (i : Nat) (v : FieldValue) : PipeData :=
  ⟨x.cls, x.values.set i v, (List.length_set ..).trans x.values_length⟩

end PipeData

-- ===================================================================== codec

/-- `to_tensor(x)`: the `assert x >= 0`, then `torch.tensor(x, dtype=torch.long)`, which
raises past `2 ^ 63 - 1`. -/
def toTensor : FieldValue → Option Tensor
  | .int n => if 0 ≤ n ∧ n < 9223372036854775808 then some (Tensor.ofInt n) else none
  | .bool b => some (Tensor.ofInt b.toNat)
  | .none => some (Tensor.ofInt (-1))
  | .tensor x => some (if x.dtype ≠ .bool then x else x.toLong)

/-- `from_tensor(x, _type)`: `None` when `int(x)` is defined and negative, else by the
annotation. -/
def fromTensor (x : Tensor) (type : FieldType) : Option FieldValue :=
  if x.toInt?.any (· < 0) then some .none
  else match type with
    | .int => x.toInt?.map .int
    | .bool => x.toBool?.map .bool
    | .tensor => some (.tensor x)

/-- `TensorDataclassToTupleInterface.to_tuple`: the field count, the class code, then the
fields. -/
def PipeData.toTuple (x : PipeData) : Option (List Tensor) := do
  let t ← x.values.mapM toTensor
  pure (Tensor.ofInt t.length :: Tensor.ofInt x.cls.encode :: t)

/-- `TensorDataclassToTupleInterface.from_tuple`: a fresh `cls()` whose fields are set in
order from `t[i + 2]`. -/
def fromTuple (cls : PipeClass) (t : List Tensor) : Option PipeData :=
  cls.fields.enum.foldlM (fun x p => do
      let v ← fromTensor (← t[p.1 + 2]?) p.2.type
      pure (x.setattr p.1 v)) (PipeData.init cls)

/-- `data_list_to_tensor_tuple(data_list)`: the records' tuples, concatenated. -/
def dataListToTensorTuple (dataList : List PipeData) : Option (List Tensor) :=
  (dataList.mapM PipeData.toTuple).map List.flatten

/-- The loop's cursor `i`: the Python int it starts as, or the 0-d tensor of an integral
dtype that `i += num_fields + 2` makes of it. -/
inductive Cursor
  | int (n : Int)
  | tensor (dtype : Dtype) (n : Int)
  deriving DecidableEq, Repr

namespace Cursor

/-- The cursor's value, what `operator.index` reads when it indexes the tuple. -/
def val : Cursor → Int
  | int n => n
  | tensor _ n => n

/-- `i + k` for a Python int `k`. -/
def addInt : Cursor → Int → Cursor
  | int n, k => int (n + k)
  | tensor d n, k => tensor d.addInt (d.addInt.wrap (n + k))

/-- `i + x` for a 0-d integral tensor `x` of dtype `d` and value `v`. -/
def addTensor : Cursor → Dtype → Int → Cursor
  | int n, d, v => tensor d.addInt (d.addInt.wrap (n + v))
  | tensor d' n, d, v => tensor (d'.promote d) ((d'.promote d).wrap (n + v))

/-- `i += x` for a 0-d integral tensor `x` of dtype `d` and value `v`: a Python int is rebound
to `i + x`, a tensor is updated in place and keeps its dtype. -/
def iadd : Cursor → Dtype → Int → Cursor
  | int n, d, v => addTensor (int n) d v
  | tensor d' n, _, v => tensor d' (d'.wrap (n + v))

end Cursor

/-- The `while` loop of `tensor_tuple_to_data_list`, from cursor `i`, with `fuel` turns. -/
def tensorTupleToDataListLoop (tensorTuple : List Tensor) : Nat → Cursor → Option (List PipeData)
  | 0, _ => none
  | fuel + 1, i =>
    if i.val < tensorTuple.length then do
      let numFields ← pyIndex tensorTuple i.val
      let n ← numFields.toIndex?
      let typeCode ← (pyIndex tensorTuple (i.addInt 1).val).bind Tensor.toInt?
      let cls ← PipeClass.ofTypeCode typeCode
      let x ← fromTuple cls
        (pySlice tensorTuple i.val ((i.addTensor numFields.dtype n).addInt 2).val)
      let rest ← tensorTupleToDataListLoop tensorTuple fuel
        (i.iadd numFields.dtype.addInt (numFields.dtype.addInt.wrap (n + 2)))
      pure (x :: rest)
    else pure []

/-- `tensor_tuple_to_data_list(tensor_tuple)`, with `fuel` turns of its loop. -/
def tensorTupleToDataList (fuel : Nat) (tensorTuple : List Tensor) : Option (List PipeData) :=
  tensorTupleToDataListLoop tensorTuple fuel (.int 0)

end ReaLHF.Pipeline
