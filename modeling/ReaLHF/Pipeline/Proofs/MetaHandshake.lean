/-
The metadata handshake of `p2p.py` agrees on every tuple.

# Result

`recvTensorTupleMeta_send`: delivered in order, the sender's messages are received exactly,
whatever follows them stays pending, and the buffers are `None` where the tuple has `None`
and a zero tensor of the element's shape and dtype elsewhere. A `recv` of the wrong size or
on an empty queue is an error of the model, so the successful run pairs every `recv` with
one sent message of its size.

The proof follows the sender: one lemma per kind of element (`recvElementMeta_send`), an
induction over the tuple for the loop, another for the allocation.
-/
import ReaLHF.Pipeline.P2p

namespace ReaLHF.Pipeline

@[simp] theorem ok_bind {ε α β : Type} (a : α) (f : α → Except ε β) :
    (Except.ok a >>= f) = f a :=
  rfl

@[simp] theorem recv_cons (n : Nat) (m : Message) (pending : List Message) :
    recv n (m :: pending) = if m.length = n then .ok (m, pending) else .error .sizeMismatch :=
  rfl

theorem pyIndex_dtypeToId (dtype : Dtype) : pyIndex idToDtype (dtypeToId dtype) = some dtype := by
  cases dtype <;> decide

/-- What the receiver reads back from one element's metadata. -/
def shapeDtype (tensor : Tensor) : List Int × Dtype :=
  (tensor.shape.map Int.ofNat, tensor.dtype)

/-- One turn of the receive loop reads exactly one element's metadata. -/
theorem recvElementMeta_send (x : Option Tensor) (pending : List Message) :
    recvElementMeta (sendElementMeta x ++ pending) = .ok (x.map shapeDtype, pending) := by
  cases x with
  | none => rfl
  | some tensor =>
    have hid : ((dtypeToId tensor.dtype : Nat) : Int) ≠ -1 := by omega
    simp [recvElementMeta, sendElementMeta, sendTensorMeta, hid, pyIndex_dtypeToId, shapeDtype]

theorem recvMetaLoop_send (tensorTuple : List (Option Tensor)) (pending : List Message) :
    recvMetaLoop tensorTuple.length (tensorTuple.flatMap sendElementMeta ++ pending) =
      .ok (tensorTuple.map (Option.map shapeDtype), pending) := by
  induction tensorTuple with
  | nil => rfl
  | cons x xs ih =>
    simp only [List.length_cons, recvMetaLoop, List.flatMap_cons, List.append_assoc,
      recvElementMeta_send, ok_bind, ih]
    rfl

theorem allocateBuffers_shapeDtype (tensorTuple : List (Option Tensor)) :
    allocateBuffers (tensorTuple.map (Option.map shapeDtype)) =
      .ok (tensorTuple.map (Option.map fun tensor => Tensor.zeros tensor.shape tensor.dtype)) := by
  induction tensorTuple with
  | nil => rfl
  | cons x xs ih =>
    cases x with
    | none => simp only [List.map_cons, Option.map_none', allocateBuffers, ih]; rfl
    | some tensor =>
      simp only [List.map_cons, Option.map_some', allocateBuffers, shapeDtype, ih]
      simp [List.map_map, Function.comp_def, bind, Except.bind, pure, Except.pure]

theorem recvTensorTupleMeta_send (tensorTuple : List (Option Tensor)) (pending : List Message) :
    recvTensorTupleMeta (sendTensorTupleMeta tensorTuple ++ pending) =
      .ok (tensorTuple.map (Option.map fun tensor => Tensor.zeros tensor.shape tensor.dtype),
        pending) := by
  simp [recvTensorTupleMeta, sendTensorTupleMeta, recvMetaLoop_send, allocateBuffers_shapeDtype]

end ReaLHF.Pipeline
