/-
The metadata handshake of pipeline-parallel transfers
(`reallm/impl/model/parallelism/pipeline_parallel/p2p.py`, lines 18-32 and 214-321): before
a tuple of tensors crosses from one stage to the next, the sender describes it and the
receiver allocates matching buffers.

# The channel

`send` and `recv` between two stages go through `torch.distributed`: messages from one
stage to another arrive in the order they were sent, and a `recv` into a buffer of `n`
elements takes the next message, which must have `n` elements. A message is the element
list of one `torch.long` tensor. The receiver runs over the queue of messages not yet
received; `recv` fails with `awaited` on an empty queue (the call would block for ever)
and with `sizeMismatch` when the next message has another size. The other errors are the
receiver's own: an `IndexError` into `ID_TO_DTYPE`, and `torch.empty` or `torch.zeros` of
a negative size.

The sender's loop skips tuple elements that are neither tensors nor `None`; the model's
elements are `Option Tensor`, so there are none.
-/
import ReaLHF.Torch

namespace ReaLHF.Pipeline

/-- A message: the elements of one `torch.long` tensor. -/
abbrev Message := List Int

-- ==================================================================== dtypes

/-- `ID_TO_DTYPE`. -/
def idToDtype : List Dtype :=
  [.float32, .float64, .complex64, .complex128, .float16, .bfloat16, .uint8, .int8, .int16,
    .int32, .int64, .bool]

/-- `DTYPE_TO_ID[dtype]`: the position in `ID_TO_DTYPE`. -/
def dtypeToId (dtype : Dtype) : Nat :=
  idToDtype.indexOf dtype

-- ==================================================================== sender

/-- `send_tensor_meta(tensor, recv_stage)`: `[ndims, dtype id]`, then the shape. -/
def sendTensorMeta (tensor : Tensor) : List Message :=
  [[tensor.shape.length, dtypeToId tensor.dtype], tensor.shape.map Int.ofNat]

/-- The body of `send_tensor_tuple_meta`'s loop: a tensor's metadata, `[-1, -1]` for
`None`. -/
def sendElementMeta : Option Tensor → List Message
  | some tensor => sendTensorMeta tensor
  | none => [[-1, -1]]

/-- `send_tensor_tuple_meta(tensor_tuple, recv_stage)`: the count, then each element's
metadata. -/
def sendTensorTupleMeta (tensorTuple : List (Option Tensor)) : List Message :=
  [tensorTuple.length] :: tensorTuple.flatMap sendElementMeta

-- ================================================================== receiver

/-- Why the receiver stops. -/
inductive RecvError
  | awaited
  | sizeMismatch
  | indexError
  | negativeSize
  deriving DecidableEq, Repr

/-- `recv(buffer, send_stage)` into a buffer of `n` longs: the next message, which must
have `n` elements. -/
def recv (n : Nat) : List Message → Except RecvError (Message × List Message)
  | [] => .error .awaited
  | m :: pending => if m.length = n then .ok (m, pending) else .error .sizeMismatch

/-- One turn of the receive loop: `(None, None)` when the dtype slot (the last of the two)
is `-1`, else the received shape and the dtype. -/
def recvElementMeta (pending : List Message) :
    Except RecvError (Option (List Int × Dtype) × List Message) := do
  let (ndimsDtype, pending) ← recv 2 pending
  if ndimsDtype.getD 1 0 = -1 then
    return (none, pending)
  let some dtype := pyIndex idToDtype (ndimsDtype.getD 1 0) | throw .indexError
  let ndims := ndimsDtype.getD 0 0
  if ndims < 0 then throw .negativeSize
  let (shape, pending) ← recv ndims.toNat pending
  return (some (shape, dtype), pending)

/-- `for idx in range(num_tensors)` over `recvElementMeta`. -/
def recvMetaLoop :
    Nat → List Message → Except RecvError (List (Option (List Int × Dtype)) × List Message)
  | 0, pending => pure ([], pending)
  | n + 1, pending => do
    let (shapeDtype, pending) ← recvElementMeta pending
    let (rest, pending) ← recvMetaLoop n pending
    return (shapeDtype :: rest, pending)

/-- `allocate_buffers(shapes_and_dtypes)`: `None`, or `torch.zeros(shape, dtype=dtype)`. -/
def allocateBuffers :
    List (Option (List Int × Dtype)) → Except RecvError (List (Option Tensor))
  | [] => pure []
  | none :: rest => do
    return none :: (← allocateBuffers rest)
  | some (shape, dtype) :: rest => do
    if shape.any (· < 0) then throw .negativeSize
    return some (Tensor.zeros (shape.map Int.toNat) dtype) :: (← allocateBuffers rest)

/-- `recv_tensor_tuple_meta(send_stage)` over the pending messages: the allocated buffers
and the messages it leaves. -/
def recvTensorTupleMeta (pending : List Message) :
    Except RecvError (List (Option Tensor) × List Message) := do
  let (count, pending) ← recv 1 pending
  let (shapesAndDtypes, pending) ← recvMetaLoop (count.getD 0 0).toNat pending
  let buffers ← allocateBuffers shapesAndDtypes
  return (buffers, pending)

end ReaLHF.Pipeline
