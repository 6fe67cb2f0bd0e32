/-
The candidates of one RPC, `enumerate_rpc_executions` (`reallm/profiler/enumerate.py`,
lines 13-52): for every sub-mesh of the device mesh and every parallel strategy on it, in
that order, an `RPCExecution` with the pair's estimated costs, unless a legality filter or
the memory cap rejects it.

# What is modelled from the spec

`profiler/device_mesh.py` and `profiler/estimate.py` are not part of the repository:
`find_sub_device_meshes`, `find_parallel_strategies`, `estimate_rpc_memory` and
`estimate_rpc_time` are parameters, any functions of their arguments. An estimate is a
float, kept as a rational, and `int()` truncates it toward zero. `ModelRPC` (of the absent
`api/core/dfg.py`) is the graph's record with the fields read here added: the batch bounds
`min_n_seqs` and `max_n_tokens`, and the role of `model_name`. Interface types are the strings
the spec compares against: `TRAIN_STEP` is `"train_step"`. `max_n_tokens // bs` raises on
`bs = 0`, which is `none`; nothing else in the loop can raise.
-/
import ReaLHF.Profiler.Graph
import ReaLHF.Profiler.Search

namespace ReaLHF.Profiler

/-- Modelled from the spec: a `ModelRPC` with the fields `enumerate_rpc_executions` reads
beyond those `build_graph` reads. -/
structure BatchedModelRPC extends ModelRPC where
  minNSeqs : Int
  maxNTokens : Int
  role : String
  deriving DecidableEq, Repr

/-- `MEM_INDEX = 1.0`. -/
def memIndex : ℚ := 1

/-- Python's `int(x)` of a float: truncation toward zero. -/
def pyInt (x : ℚ) : Int :=
  if 0 ≤ x then ⌊x⌋ else ⌈x⌉

/-- `x // y` of Python ints: floor division, raising on a zero divisor. -/
def pyFloorDiv (x y : Int) : Option Int :=
  if y = 0 then none else some (x.fdiv y)

/-- `rpc.interface_type == ModelInterfaceType.TRAIN_STEP`. -/
def BatchedModelRPC.isTrainStep (rpc : BatchedModelRPC) : Bool :=
  rpc.interfaceType == "train_step"

/-- `min_bs`: the smallest batch the strategy can split, two sequences per data-parallel and
pipeline replica in each PPO mini-batch when training. -/
def minBs (rpc : BatchedModelRPC) (nPpoMinibatches : Int) (p : ModelParallelStrategy) : Int :=
  if rpc.isTrainStep then 2 * p.numDp * p.numPp * nPpoMinibatches else p.numDp * p.numPp

section Enumerate

variable (findSubDeviceMeshes : DeviceMesh → List DeviceMesh)
  (findParallelStrategies : DeviceMesh → List ModelParallelStrategy)
  (estimateRpcMemory :
    BatchedModelRPC → ModelParallelStrategy → Int → Int → Int → Int → Bool → ℚ × ℚ)
  (estimateRpcTime : BatchedModelRPC → ModelParallelStrategy → Int → Int → Int → Bool → Int → ℚ)

/-- The body of the inner loop for the pair `(subDeviceMesh, p)`: the execution it appends,
`some none` when a filter skips the pair, `none` when it raises. -/
def rpcExecutionCandidate (rpc : BatchedModelRPC) (deviceMesh : DeviceMesh)
    (numGenTokens nPpoMinibatches : Int) (subDeviceMesh : DeviceMesh)
    (p : ModelParallelStrategy) : Option (Option RPCExecution) := do
  let bs := rpc.minNSeqs
  let seqLen ← pyFloorDiv rpc.maxNTokens bs
  if minBs rpc nPpoMinibatches p > bs then pure none
  else if p.numMp * p.numDp > 8 ∧ rpc.isTrainStep then pure none
  else if p.numPp > max deviceMesh.nNodes 8 then pure none
  else
    let costs := estimateRpcMemory rpc p bs seqLen nPpoMinibatches numGenTokens
      (rpc.role ∈ ["ref", "reward"])
    let memCost := pyInt (costs.1 * memIndex)
    let staticMem := pyInt (costs.2 * memIndex)
    let timeCost := pyInt (estimateRpcTime rpc p bs seqLen numGenTokens true nPpoMinibatches)
    pure (if memCost < gpuMemCap then
        some ⟨RPC.fromConfig rpc.toModelRPC, subDeviceMesh, p, timeCost, memCost, staticMem⟩
      else none)

/-- `enumerate_rpc_executions(rpc, device_mesh, num_gen_tokens, n_ppo_minibatches)`: the
appended executions, sub-meshes outer and strategies inner. -/
def enumerateRpcExecutions (rpc : BatchedModelRPC) (deviceMesh : DeviceMesh)
    (numGenTokens nPpoMinibatches : Int) : Option (List RPCExecution) := do
  let perMesh ← (findSubDeviceMeshes deviceMesh).mapM fun subDeviceMesh =>
    (findParallelStrategies subDeviceMesh).mapM
      (rpcExecutionCandidate estimateRpcMemory estimateRpcTime rpc deviceMesh numGenTokens
        nPpoMinibatches subDeviceMesh)
  pure perMesh.flatten.reduceOption

end Enumerate

end ReaLHF.Profiler
