/-
What `enumerate_rpc_executions` returns (`reallm/profiler/enumerate.py`, lines 13-52).

With `min_n_seqs ≥ 1` no turn of the loop raises: each turn appends the pair's execution
exactly when the pair is `Admissible` (the three legality filters) and its truncated memory
estimate is below `GPU_MEM_CAP` (`rpcExecutionCandidate_eq`). So both loops run to the end,
and the result is, in enumeration order, one `estimatedExecution` per such pair: every
candidate returned passes the filters and fits, and no pair that does is dropped.
-/
import ReaLHF.Profiler.Enumerate
import ReaLHF.Lists

namespace ReaLHF.Profiler

/-- The legality filters of the loop on strategy `p`: the batch can be split, a training
RPC keeps its tensor-parallel fan-out to eight devices, and the pipeline is at most
`max(n_nodes, 8)` deep. -/
def Admissible (rpc : BatchedModelRPC) (deviceMesh : DeviceMesh) (nPpoMinibatches : Int)
    (p : ModelParallelStrategy) : Prop :=
  minBs rpc nPpoMinibatches p ≤ rpc.minNSeqs ∧ ¬ (rpc.isTrainStep ∧ 8 < p.numMp * p.numDp) ∧
    p.numPp ≤ max deviceMesh.nNodes 8

instance (rpc : BatchedModelRPC) (deviceMesh : DeviceMesh) (nPpoMinibatches : Int)
    (p : ModelParallelStrategy) : Decidable (Admissible rpc deviceMesh nPpoMinibatches p) :=
  inferInstanceAs (Decidable (_ ∧ _ ∧ _))

section Enumerate

variable (findSubDeviceMeshes : DeviceMesh → List DeviceMesh)
  (findParallelStrategies : DeviceMesh → List ModelParallelStrategy)
  (estimateRpcMemory :
    BatchedModelRPC → ModelParallelStrategy → Int → Int → Int → Int → Bool → ℚ × ℚ)
  (estimateRpcTime : BatchedModelRPC → ModelParallelStrategy → Int → Int → Int → Bool → Int → ℚ)

/-- The execution of the pair `(subDeviceMesh, p)`, carrying the pair's estimated costs. -/
def estimatedExecution (rpc : BatchedModelRPC) (numGenTokens nPpoMinibatches : Int)
    (subDeviceMesh : DeviceMesh) (p : ModelParallelStrategy) : RPCExecution :=
  let seqLen := rpc.maxNTokens.fdiv rpc.minNSeqs
  let costs := estimateRpcMemory rpc p rpc.minNSeqs seqLen nPpoMinibatches numGenTokens
    (rpc.role ∈ ["ref", "reward"])
  ⟨RPC.fromConfig rpc.toModelRPC, subDeviceMesh, p,
    pyInt (estimateRpcTime rpc p rpc.minNSeqs seqLen numGenTokens true nPpoMinibatches),
    pyInt (costs.1 * memIndex), pyInt (costs.2 * memIndex)⟩

/-- The admissible executions that fit, in the order of the source's nested loops: for each
sub-mesh, then each strategy, the pair's estimated execution. -/
def feasibleExecutions (rpc : BatchedModelRPC) (deviceMesh : DeviceMesh)
    (numGenTokens nPpoMinibatches : Int) : List RPCExecution :=
  (findSubDeviceMeshes deviceMesh).flatMap fun m => (findParallelStrategies m).filterMap fun p =>
    let e := estimatedExecution estimateRpcMemory estimateRpcTime rpc numGenTokens
      nPpoMinibatches m p
    if Admissible rpc deviceMesh nPpoMinibatches p ∧ e.mem < gpuMemCap then some e else none

section Lemmas

variable {findSubDeviceMeshes findParallelStrategies estimateRpcMemory estimateRpcTime}
  {rpc : BatchedModelRPC} {deviceMesh : DeviceMesh} {numGenTokens nPpoMinibatches : Int}

/-- With a positive batch, one turn of the inner loop never raises, and appends the pair's
execution exactly when the pair is admissible and fits. -/
theorem rpcExecutionCandidate_eq (hbs : 1 ≤ rpc.minNSeqs) (m : DeviceMesh)
    (p : ModelParallelStrategy) :
    rpcExecutionCandidate estimateRpcMemory estimateRpcTime rpc deviceMesh numGenTokens
        nPpoMinibatches m p =
      some (if Admissible rpc deviceMesh nPpoMinibatches p ∧
          (estimatedExecution estimateRpcMemory estimateRpcTime rpc numGenTokens nPpoMinibatches
            m p).mem < gpuMemCap then
        some (estimatedExecution estimateRpcMemory estimateRpcTime rpc numGenTokens
          nPpoMinibatches m p)
      else none) := by
  simp only [rpcExecutionCandidate, pyFloorDiv, if_neg (show rpc.minNSeqs ≠ 0 by omega),
    Option.bind_eq_bind, Option.some_bind]
  by_cases h1 : minBs rpc nPpoMinibatches p > rpc.minNSeqs
  · rw [if_pos h1, if_neg fun h => absurd h.1.1 (not_le.2 h1)]
    rfl
  by_cases h2 : p.numMp * p.numDp > 8 ∧ rpc.isTrainStep
  · rw [if_neg h1, if_pos h2, if_neg fun h => h.1.2.1 ⟨h2.2, h2.1⟩]
    rfl
  by_cases h3 : p.numPp > max deviceMesh.nNodes 8
  · rw [if_neg h1, if_neg h2, if_pos h3, if_neg fun h => absurd h.1.2.2 (not_le.2 h3)]
    rfl
  have hadm : Admissible rpc deviceMesh nPpoMinibatches p :=
    ⟨not_lt.1 h1, fun h => h2 ⟨h.2, h.1⟩, not_lt.1 h3⟩
  simp only [if_neg h1, if_neg h2, if_neg h3, hadm, true_and]
  rfl

theorem enumerateRpcExecutions_eq (hbs : 1 ≤ rpc.minNSeqs) :
    enumerateRpcExecutions findSubDeviceMeshes findParallelStrategies estimateRpcMemory
        estimateRpcTime rpc deviceMesh numGenTokens nPpoMinibatches =
      some (feasibleExecutions findSubDeviceMeshes findParallelStrategies estimateRpcMemory
        estimateRpcTime rpc deviceMesh numGenTokens nPpoMinibatches) := by
  rw [enumerateRpcExecutions, mapM_eq_some_map fun m _ =>
    mapM_eq_some_map fun p _ => rpcExecutionCandidate_eq hbs m p]
  simp only [Option.bind_eq_bind, Option.some_bind, Option.pure_def, List.reduceOption,
    List.filterMap_flatten, List.map_map, Function.comp_def, List.filterMap_map, id,
    feasibleExecutions, List.flatMap_def]

theorem mem_feasibleExecutions {e : RPCExecution} :
    e ∈ feasibleExecutions findSubDeviceMeshes findParallelStrategies estimateRpcMemory
        estimateRpcTime rpc deviceMesh numGenTokens nPpoMinibatches ↔
      ∃ m ∈ findSubDeviceMeshes deviceMesh, ∃ p ∈ findParallelStrategies m,
        Admissible rpc deviceMesh nPpoMinibatches p ∧ e.mem < gpuMemCap ∧
          estimatedExecution estimateRpcMemory estimateRpcTime rpc numGenTokens
            nPpoMinibatches m p = e := by
  simp only [feasibleExecutions, List.mem_flatMap, List.mem_filterMap, Option.ite_none_right_eq_some,
    Option.some.injEq]
  constructor
  · rintro ⟨m, hm, p, hp, ⟨hadm, hmem⟩, rfl⟩
    exact ⟨m, hm, p, hp, hadm, hmem, rfl⟩
  · rintro ⟨m, hm, p, hp, hadm, hmem, rfl⟩
    exact ⟨m, hm, p, hp, ⟨hadm, hmem⟩, rfl⟩

end Lemmas

/-- With a positive batch, `enumerate_rpc_executions` returns, sub-meshes outer and
strategies inner, one execution per admissible pair that fits, carrying that pair's
estimated costs: every execution returned passes the legality filters and has
`mem < GPU_MEM_CAP`, and every admissible pair that fits is returned. -/
theorem enumerateRpcExecutions_spec (rpc : BatchedModelRPC) (deviceMesh : DeviceMesh)
    (numGenTokens nPpoMinibatches : Int) (hbs : 1 ≤ rpc.minNSeqs) :
    ∃ feasible, enumerateRpcExecutions findSubDeviceMeshes findParallelStrategies
        estimateRpcMemory estimateRpcTime rpc deviceMesh numGenTokens nPpoMinibatches =
          some feasible ∧
      feasible = feasibleExecutions findSubDeviceMeshes findParallelStrategies estimateRpcMemory
        estimateRpcTime rpc deviceMesh numGenTokens nPpoMinibatches ∧
      (∀ e ∈ feasible,
        Admissible rpc deviceMesh nPpoMinibatches e.parallelStrategy ∧ e.mem < gpuMemCap) ∧
      ∀ m ∈ findSubDeviceMeshes deviceMesh, ∀ p ∈ findParallelStrategies m,
        Admissible rpc deviceMesh nPpoMinibatches p →
        (estimatedExecution estimateRpcMemory estimateRpcTime rpc numGenTokens nPpoMinibatches
          m p).mem < gpuMemCap →
        estimatedExecution estimateRpcMemory estimateRpcTime rpc numGenTokens nPpoMinibatches
          m p ∈ feasible := by
  refine ⟨_, enumerateRpcExecutions_eq hbs, rfl, fun e he => ?_,
    fun m hm p hp hadm hmem => mem_feasibleExecutions.2 ⟨m, hm, p, hp, hadm, hmem, rfl⟩⟩
  obtain ⟨m, -, p, -, hadm, hmem, rfl⟩ := mem_feasibleExecutions.1 he
  exact ⟨hadm, hmem⟩

end Enumerate

/-- The spec's eight-device node. -/
def eightGpuNode : DeviceMesh :=
  ⟨List.range 8, 1⟩

/-- The actor's training RPC, sixteen sequences of at most 1024 tokens each. -/
def actorTrainRpc : BatchedModelRPC :=
  ⟨⟨"train", "actor", "train_step", [], [], false, true⟩, 16, 16384, "actor"⟩

/-- Three ways to place eight devices: tensor, data, and data with pipeline parallelism. -/
def eightWayStrategies (_ : DeviceMesh) : List ModelParallelStrategy :=
  [⟨1, 1, 8⟩, ⟨8, 1, 1⟩, ⟨4, 2, 1⟩]

/-- A memory estimate of ten bytes, five of them static, for every placement. -/
def flatMemoryEstimate (_ : BatchedModelRPC) (_ : ModelParallelStrategy) (_ _ _ _ : Int)
    (_ : Bool) : ℚ × ℚ :=
  (10, 5)

/-- A time estimate of three for every placement. -/
def flatTimeEstimate (_ : BatchedModelRPC) (_ : ModelParallelStrategy) (_ _ _ : Int) (_ : Bool)
    (_ : Int) : ℚ :=
  3

theorem enumerateRpcExecutions_spec_actorTrain :
    1 ≤ actorTrainRpc.minNSeqs ∧
      ∃ feasible, enumerateRpcExecutions (fun m => [m]) eightWayStrategies flatMemoryEstimate
          flatTimeEstimate actorTrainRpc eightGpuNode 0 2 = some feasible ∧
        feasible = feasibleExecutions (fun m => [m]) eightWayStrategies flatMemoryEstimate
          flatTimeEstimate actorTrainRpc eightGpuNode 0 2 ∧
        (∀ e ∈ feasible,
          Admissible actorTrainRpc eightGpuNode 2 e.parallelStrategy ∧ e.mem < gpuMemCap) ∧
        ∀ m ∈ [eightGpuNode], ∀ p ∈ eightWayStrategies m,
          Admissible actorTrainRpc eightGpuNode 2 p →
          (estimatedExecution flatMemoryEstimate flatTimeEstimate actorTrainRpc 0 2 m p).mem <
            gpuMemCap →
          estimatedExecution flatMemoryEstimate flatTimeEstimate actorTrainRpc 0 2 m p ∈
            feasible :=
  ⟨by decide, enumerateRpcExecutions_spec (fun m => [m]) eightWayStrategies flatMemoryEstimate
    flatTimeEstimate actorTrainRpc eightGpuNode 0 2 (by decide)⟩

end ReaLHF.Profiler
