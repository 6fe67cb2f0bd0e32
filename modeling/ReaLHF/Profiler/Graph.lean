/-
The multi-epoch expansion `build_graph` (`reallm/profiler/enumerate.py`, lines 55-96). The
copy in `profiler/enumerate.py` (lines 166-212) differs only in reading the RPCs off an
experiment, in printing every instance and in its default interval, `2` instead of `1`.

# What is modelled from the spec

`api/core/dfg.py` is not part of the repository. `build_graph` first passes its RPCs through
`dfg.build_graph`, which fills in each RPC's `parents`, `children`, `is_src` and `is_dst`
for one epoch; the model takes that function's output as its argument. `ModelRPC` keeps
the fields the expansion reads, and `WellFormedDfg` is what a single-epoch dependency graph
promises (unique names, closed and mutually consistent parent/child lists, the source and
sink flags, no cycle); it is a hypothesis of the results that need it.

# The expansion

For every epoch and then every RPC, one `RPCInstance` whose parents are
* every sink at epoch `e - k`, when the RPC is a source and `e ≥ k`, then
* its own parents at epoch `e`;

and whose children are
* every source at epoch `e + k`, when the RPC is a sink and `e + k < num_epoch`, then
* its own children at epoch `e`.

Parent and child names are looked up in `rpc_names_mapping`; its `KeyError` is `none`.
-/
import ReaLHF.Profiler.Rpc

namespace ReaLHF.Profiler

-- ======================================================= the single-epoch graph

/-- Modelled from the spec: a node of the graph `dfg.build_graph` returns (`ModelRPC`, its
module `api/core/dfg.py` being absent), with the fields `build_graph` reads. -/
structure ModelRPC where
  name : String
  modelName : String
  interfaceType : String
  parents : List String
  children : List String
  isSrc : Bool
  isDst : Bool
  deriving DecidableEq, Repr

/-- `RPC(model_rpc)` (`profiler/rpc.py`, lines 12-15), `RPC.from_config` in the `reallm`
copy. -/
def RPC.fromConfig (rpc : ModelRPC) : RPC :=
  ⟨rpc.modelName, rpc.interfaceType, rpc.name⟩

/-- `a` is one of `b`'s parents in the single-epoch graph. -/
def ParentOf (rpcs : List ModelRPC) (a b : String) : Prop :=
  ∃ rpc ∈ rpcs, rpc.name = b ∧ a ∈ rpc.parents

/-- `s` names a source RPC. -/
def IsSource (rpcs : List ModelRPC) (s : String) : Prop :=
  ∃ rpc ∈ rpcs, rpc.name = s ∧ rpc.isSrc = true

/-- `d` names a sink RPC. -/
def IsSink (rpcs : List ModelRPC) (d : String) : Prop :=
  ∃ rpc ∈ rpcs, rpc.name = d ∧ rpc.isDst = true

/-- Modelled from the spec: what `dfg.build_graph` promises of the single-epoch graph. -/
structure WellFormedDfg (rpcs : List ModelRPC) : Prop where
  nodup : (rpcs.map (·.name)).Nodup
  parents_closed : ∀ rpc ∈ rpcs, ∀ p ∈ rpc.parents, p ∈ rpcs.map (·.name)
  children_closed : ∀ rpc ∈ rpcs, ∀ c ∈ rpc.children, c ∈ rpcs.map (·.name)
  parent_iff_child : ∀ a ∈ rpcs, ∀ b ∈ rpcs, a.name ∈ b.parents ↔ b.name ∈ a.children
  isSrc_iff : ∀ rpc ∈ rpcs, rpc.isSrc = true ↔ rpc.parents = []
  isDst_iff : ∀ rpc ∈ rpcs, rpc.isDst = true ↔ rpc.children = []
  acyclic : ∀ a, ¬ Relation.TransGen (ParentOf rpcs) a a

-- ================================================================ expansion

/-- `rpc_names_mapping[name]`: the dict comprehension keeps the last RPC of each name. -/
def rpcNamesMapping (rpcs : List ModelRPC) (name : String) : Option ModelRPC :=
  rpcs.reverse.find? (·.name == name)

/-- The reference `RPCInstance(RPC.from_config(rpc_names_mapping[name]), epoch_id, [], [])`,
kept as its `(rpc, epoch_id)` pair. -/
def lookupRef (rpcs : List ModelRPC) (epochId : Nat) (name : String) : Option (RPC × Nat) :=
  (rpcNamesMapping rpcs name).map fun rpc => (RPC.fromConfig rpc, epochId)

/-- The synthetic parents of a source at `epoch_id`: every sink, `k` epochs earlier. -/
def srcParents (rpcs : List ModelRPC) (epochDependencyInterval epochId : Nat)
    (rpc : ModelRPC) : List (RPC × Nat) :=
  if rpc.isSrc && decide (epochDependencyInterval ≤ epochId) then
    (rpcs.filter (·.isDst)).map fun other =>
      (RPC.fromConfig other, epochId - epochDependencyInterval)
  else []

/-- The synthetic children of a sink at `epoch_id`: every source, `k` epochs later (the
range test sits inside the loop over `other`). -/
def dstChildren (rpcs : List ModelRPC) (numEpoch epochDependencyInterval epochId : Nat)
    (rpc : ModelRPC) : List (RPC × Nat) :=
  if rpc.isDst then
    (rpcs.filter fun other => other.isSrc && decide (epochId + epochDependencyInterval < numEpoch)).map
      fun other => (RPC.fromConfig other, epochId + epochDependencyInterval)
  else []

/-- The body of the inner loop: the instance of `rpc` at `epoch_id`. -/
def buildInstance (rpcs : List ModelRPC) (numEpoch epochDependencyInterval epochId : Nat)
    (rpc : ModelRPC) : Option RPCInstance := do
  let parents ← rpc.parents.mapM (lookupRef rpcs epochId)
  let children ← rpc.children.mapM (lookupRef rpcs epochId)
  pure ⟨RPC.fromConfig rpc, epochId,
    srcParents rpcs epochDependencyInterval epochId rpc ++ parents,
    dstChildren rpcs numEpoch epochDependencyInterval epochId rpc ++ children⟩

/-- `build_graph(rpcs, num_epoch, epoch_dependency_interval)` over the single-epoch graph
`rpcs`: the instances epoch by epoch, in the RPCs' order within an epoch. -/
def buildGraph (rpcs : List ModelRPC) (numEpoch epochDependencyInterval : Nat) :
    Option (List RPCInstance) :=
  ((List.range numEpoch).flatMap fun epochId => rpcs.map fun rpc => (epochId, rpc)).mapM
    fun p => buildInstance rpcs numEpoch epochDependencyInterval p.1 p.2

-- ============================================================ the result graph

/-- The `(rpc_name, epoch_id)` node of an instance. -/
def RPCInstance.node (x : RPCInstance) : String × Nat :=
  (x.rpc.rpcName, x.epochId)

/-- The node a parent or child reference names. -/
def refNode (p : RPC × Nat) : String × Nat :=
  (p.1.rpcName, p.2)

/-- The multi-epoch dependency relation: `u` is among the parents of the instance at `v`. -/
def InstanceParent (insts : List RPCInstance) (u v : String × Nat) : Prop :=
  ∃ x ∈ insts, x.node = v ∧ u ∈ x.parents.map refNode

end ReaLHF.Profiler
