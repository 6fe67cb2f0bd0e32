/-
The planner's records (`profiler/rpc.py`): the lightweight `RPC` identity, one placement
candidate `RPCExecution`, and the multi-epoch graph node `RPCInstance`.

# What is modelled from the spec

`profiler/device_mesh.py` is not part of the repository. The planner only ever asks two
things of a mesh: which devices it names (for the overlap test that drives grouping) and
how many nodes it spans (for the pipeline bound of the candidate filter). `DeviceMesh`
keeps exactly those, and `DeviceMesh.isAllOverlap` is the spec's device-set intersection
test. Everything downstream takes the overlap test as a parameter; only results about a
concrete run use this one.

Memory costs are Python ints, so `Int`; the cost estimator's promise `0 ≤ static_mem ≤ mem`
is `RPCExecution.WellFormed`, a hypothesis of the results that need it.
-/
import Mathlib

namespace ReaLHF.Profiler

-- ============================================================ device meshes

/-- Modelled from the spec: `DeviceMesh` (its module `profiler/device_mesh.py` is missing),
"an identifier for a set of devices with a known device count and node count". -/
structure DeviceMesh where
  devices : List Nat
  nNodes : Nat
  deriving DecidableEq, Repr

/-- Modelled from the spec: the pairwise overlap test, true iff the two meshes share at
least one device. -/
def DeviceMesh.overlap (a b : DeviceMesh) : Bool :=
  a.devices.any fun d => b.devices.contains d

/-- Modelled from the spec: `is_all_overlap(device_meshes, device_mesh)`, the pairwise test
against every mesh of the list, as the function's name reads it. -/
def DeviceMesh.isAllOverlap (deviceMeshes : List DeviceMesh) (deviceMesh : DeviceMesh) :
    Bool :=
  deviceMeshes.all fun m => m.overlap deviceMesh

/-- Modelled from the spec: `ModelParallelStrategy`, the degree triple. -/
structure ModelParallelStrategy where
  numDp : Nat
  numPp : Nat
  numMp : Nat
  deriving DecidableEq, Repr

-- ======================================================== RPCs and candidates

/-- `RPC`: the projection of a `ModelRPC` the search layer needs. -/
structure RPC where
  modelName : String
  interfaceType : String
  rpcName : String
  deriving DecidableEq, Repr

/-- `RPCExecution`: one placement candidate of one RPC with its estimated costs
(`rpc_name` is `rpc.rpcName`, set by `__post_init__`). -/
structure RPCExecution where
  rpc : RPC
  deviceMesh : DeviceMesh
  parallelStrategy : ModelParallelStrategy
  timeCost : Int
  mem : Int
  staticMem : Int
  deriving DecidableEq, Repr

/-- The cost estimator's promise: the static part of the footprint is non-negative and
at most the whole. -/
def RPCExecution.WellFormed (e : RPCExecution) : Prop :=
  0 ≤ e.staticMem ∧ e.staticMem ≤ e.mem

instance : DecidablePred RPCExecution.WellFormed := fun e =>
  inferInstanceAs (Decidable (0 ≤ e.staticMem ∧ e.staticMem ≤ e.mem))

-- ============================================================ graph instances

/-- `RPCInstance`: one `(rpc, epoch)` node of the multi-epoch graph. The source fills
`parents` and `children` with leaf instances `RPCInstance(rpc, epoch, [], [])`; they are
kept here as their `(rpc, epoch_id)` pairs. -/
structure RPCInstance where
  rpc : RPC
  epochId : Nat
  parents : List (RPC × Nat)
  children : List (RPC × Nat)
  deriving DecidableEq, Repr

/-- `RPCInstance.name`, set by `__post_init__` to `f"{rpc_name}:{epoch_id}"`. -/
def RPCInstance.name (x : RPCInstance) : String :=
  x.rpc.rpcName ++ ":" ++ toString x.epochId

end ReaLHF.Profiler
