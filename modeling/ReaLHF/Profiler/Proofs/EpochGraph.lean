/-
What `build_graph` returns over a well-formed single-epoch graph.

# Results

* `buildGraph_instances_wellFormed`: one instance per `(rpc, epoch)` pair in loop order,
  pairwise distinct names, every reference resolves to an instance of the output, and the
  parent and child lists agree.
* `buildGraph_ancestor_iff`: the transitive ancestors of `(b, e)` are the single-epoch
  ancestors of `b` at `e` and every node of every earlier epoch `e'` with `k ∣ e - e'`;
  hence no cycle, `e - k` feeds `e`, and nothing strictly between does.

# Proof plan

`instanceParent_iff` says once what one edge can be: a single-epoch parent at the same
epoch, or a sink `k` epochs before a source. The forward half of the ancestor
characterisation is an induction over paths on that lemma (`ancestor_shape`). The backward
half walks from a node down to a sink of its epoch, crosses to a source `k` epochs later
and climbs to the target (`ancestor_next_epoch`); such sinks and sources exist because the
ancestor order of a finite acyclic graph is well founded (`wellFounded_of_acyclic`).
-/
import ReaLHF.Lists
import ReaLHF.Profiler.Graph

namespace ReaLHF.Profiler

open Relation

-- ================================================================== lookups

section Lookup

variable {rpcs : List ModelRPC} {epochId : Nat} {name : String}

theorem rpcNamesMapping_spec {rpc : ModelRPC} (h : rpcNamesMapping rpcs name = some rpc) :
    rpc ∈ rpcs ∧ rpc.name = name := by
  have h' : rpcs.reverse.find? (fun r => r.name == name) = some rpc := h
  have hname := List.find?_some h'
  exact ⟨List.mem_reverse.1 (List.mem_of_find?_eq_some h'), beq_iff_eq.1 hname⟩

theorem lookupRef_node {p : RPC × Nat} (h : lookupRef rpcs epochId name = some p) :
    refNode p = (name, epochId) := by
  obtain ⟨rpc, hrpc, rfl⟩ := Option.map_eq_some'.1 h
  simp [refNode, RPC.fromConfig, (rpcNamesMapping_spec hrpc).2]

theorem lookupRef_isSome (epochId : Nat) (h : name ∈ rpcs.map (·.name)) :
    ∃ p, lookupRef rpcs epochId name = some p := by
  obtain ⟨rpc, hrpc, rfl⟩ := List.mem_map.1 h
  have : (rpcs.reverse.find? fun r => r.name == rpc.name).isSome :=
    List.find?_isSome.2 ⟨rpc, List.mem_reverse.2 hrpc, beq_self_eq_true _⟩
  obtain ⟨found, hfound⟩ := Option.isSome_iff_exists.1 this
  exact ⟨(RPC.fromConfig found, epochId), by simp [lookupRef, rpcNamesMapping, hfound]⟩

end Lookup

-- ============================================================== one instance

section Instance

variable {rpcs : List ModelRPC} {numEpoch k epochId : Nat} {rpc : ModelRPC} {u : String × Nat}

theorem mem_srcParents :
    u ∈ (srcParents rpcs k epochId rpc).map refNode ↔
      rpc.isSrc = true ∧ k ≤ epochId ∧ IsSink rpcs u.1 ∧ u.2 = epochId - k := by
  unfold srcParents
  split <;> rename_i hif
  · simp only [Bool.and_eq_true, decide_eq_true_eq] at hif
    simp only [List.map_map, List.mem_map, List.mem_filter, Function.comp, refNode,
      RPC.fromConfig, IsSink]
    constructor
    · rintro ⟨other, ⟨hmem, hdst⟩, rfl⟩
      exact ⟨hif.1, hif.2, ⟨other, hmem, rfl, hdst⟩, rfl⟩
    · rintro ⟨-, -, ⟨other, hmem, hname, hdst⟩, hu⟩
      exact ⟨other, ⟨hmem, hdst⟩, Prod.ext hname hu.symm⟩
  · simp only [Bool.and_eq_true, decide_eq_true_eq, not_and] at hif
    simp only [List.map_nil, List.not_mem_nil, false_iff, not_and]
    exact fun hsrc hk _ _ => hif hsrc hk

theorem mem_dstChildren :
    u ∈ (dstChildren rpcs numEpoch k epochId rpc).map refNode ↔
      rpc.isDst = true ∧ epochId + k < numEpoch ∧ IsSource rpcs u.1 ∧ u.2 = epochId + k := by
  unfold dstChildren
  split <;> rename_i hif
  · simp only [List.map_map, List.mem_map, List.mem_filter, Function.comp, refNode,
      RPC.fromConfig, IsSource, Bool.and_eq_true, decide_eq_true_eq]
    constructor
    · rintro ⟨other, ⟨hmem, hsrc, hlt⟩, rfl⟩
      exact ⟨hif, hlt, ⟨other, hmem, rfl, hsrc⟩, rfl⟩
    · rintro ⟨-, hlt, ⟨other, hmem, hname, hsrc⟩, hu⟩
      exact ⟨other, ⟨hmem, hsrc, hlt⟩, Prod.ext hname hu.symm⟩
  · simp [hif]

/-- What one instance holds: its own RPC and epoch, the synthetic references first and then
its single-epoch parents and children at its own epoch. -/
theorem buildInstance_spec {x : RPCInstance}
    (h : buildInstance rpcs numEpoch k epochId rpc = some x) :
    x.rpc = RPC.fromConfig rpc ∧ x.epochId = epochId ∧
      x.parents.map refNode =
        (srcParents rpcs k epochId rpc).map refNode ++ rpc.parents.map (·, epochId) ∧
      x.children.map refNode =
        (dstChildren rpcs numEpoch k epochId rpc).map refNode ++ rpc.children.map (·, epochId) := by
  simp only [buildInstance, Option.bind_eq_bind, Option.bind_eq_some, Option.pure_def,
    Option.some.injEq] at h
  obtain ⟨ps, hps, cs, hcs, rfl⟩ := h
  exact ⟨rfl, rfl, by simp [map_eq_of_mapM_eq_some (fun _ _ => lookupRef_node) hps],
    by simp [map_eq_of_mapM_eq_some (fun _ _ => lookupRef_node) hcs]⟩

theorem buildInstance_isSome (hp : ∀ p ∈ rpc.parents, p ∈ rpcs.map (·.name))
    (hc : ∀ c ∈ rpc.children, c ∈ rpcs.map (·.name)) :
    ∃ x, buildInstance rpcs numEpoch k epochId rpc = some x := by
  obtain ⟨ps, hps⟩ := exists_mapM_eq_some (f := lookupRef rpcs epochId) fun p hmem =>
    lookupRef_isSome epochId (hp p hmem)
  obtain ⟨cs, hcs⟩ := exists_mapM_eq_some (f := lookupRef rpcs epochId) fun c hmem =>
    lookupRef_isSome epochId (hc c hmem)
  exact ⟨_, by rw [buildInstance, hps, hcs]; rfl⟩

end Instance

-- ==================================================================== names

/-- The value of a decimal numeral, read left to right. -/
def decimalValue (ds : List Char) : Nat :=
  ds.foldl (fun acc d => 10 * acc + (d.toNat - '0'.toNat)) 0

theorem decimalValue_append_singleton (ds : List Char) (d : Char) :
    decimalValue (ds ++ [d]) = 10 * decimalValue ds + (d.toNat - '0'.toNat) := by
  simp [decimalValue]

theorem digitChar_spec :
    ∀ m < 10, (Nat.digitChar m).toNat - '0'.toNat = m ∧ Nat.digitChar m ≠ ':' := by
  decide

/-- `Nat.toDigitsCore` with enough fuel prepends a colon-free numeral of `n`. -/
theorem toDigitsCore_spec (fuel n : Nat) (ds : List Char) (h : n < fuel) :
    ∃ pre, Nat.toDigitsCore 10 fuel n ds = pre ++ ds ∧ ':' ∉ pre ∧ decimalValue pre = n := by
  induction fuel generalizing n ds with
  | zero => omega
  | succ fuel ih =>
    obtain ⟨hval, hcolon⟩ := digitChar_spec (n % 10) (Nat.mod_lt _ (by omega))
    simp only [Nat.toDigitsCore]
    split
    · refine ⟨[Nat.digitChar (n % 10)], rfl, by simpa using hcolon.symm, ?_⟩
      simp only [decimalValue, List.foldl_cons, List.foldl_nil, hval]
      omega
    · obtain ⟨pre, hpre, hfree, hvalue⟩ :=
        ih (n / 10) (Nat.digitChar (n % 10) :: ds) (by omega)
      refine ⟨pre ++ [Nat.digitChar (n % 10)], by simp [hpre], by simp [hfree, hcolon.symm], ?_⟩
      rw [decimalValue_append_singleton, hvalue, hval]
      omega

/-- `toString n` has no colon and reads back as `n`. -/
theorem toString_nat_spec (n : Nat) :
    ':' ∉ (toString n).data ∧ decimalValue (toString n).data = n := by
  obtain ⟨pre, hpre, hfree, hvalue⟩ := toDigitsCore_spec (n + 1) n [] (by omega)
  have hdata : (toString n).data = pre := by
    rw [← List.append_nil pre, ← hpre]
    rfl
  exact ⟨hdata ▸ hfree, hdata ▸ hvalue⟩

theorem append_colon_inj {s t : List Char} (hs : ':' ∉ s) (ht : ':' ∉ t) :
    ∀ {a b : List Char}, a ++ ':' :: s = b ++ ':' :: t → a = b ∧ s = t
  | [], [], h => ⟨rfl, by simpa using h⟩
  | [], _ :: _, h => by
    simp only [List.nil_append, List.cons_append, List.cons.injEq] at h
    exact absurd (h.2 ▸ by simp) hs
  | _ :: _, [], h => by
    simp only [List.nil_append, List.cons_append, List.cons.injEq] at h
    exact absurd (h.2 ▸ by simp) ht
  | _ :: _, _ :: _, h => by
    simp only [List.cons_append, List.cons.injEq] at h
    obtain ⟨rfl, rfl⟩ := append_colon_inj hs ht h.2
    exact ⟨congrArg (· :: _) h.1, rfl⟩

/-- An instance name `f"{rpc_name}:{epoch_id}"` determines the node: the epoch is the
numeral after the last colon, whatever colons the RPC name holds. -/
theorem nodeName_injective :
    Function.Injective fun v : String × Nat => v.1 ++ ":" ++ toString v.2 := by
  rintro ⟨a, e⟩ ⟨b, e'⟩ h
  have hdata := congrArg String.data h
  simp only [String.data_append, List.append_assoc, List.singleton_append] at hdata
  obtain ⟨hfree, hvalue⟩ := toString_nat_spec e
  obtain ⟨hfree', hvalue'⟩ := toString_nat_spec e'
  obtain ⟨hab, hst⟩ := append_colon_inj hfree hfree' hdata
  have he := congrArg decimalValue hst
  rw [hvalue, hvalue'] at he
  exact Prod.ext (String.ext hab) he

-- ============================================================== whole graph

section Graph

variable {rpcs : List ModelRPC} {numEpoch k : Nat} {insts : List RPCInstance}

theorem buildGraph_isSome (hwf : WellFormedDfg rpcs) (numEpoch k : Nat) :
    ∃ insts, buildGraph rpcs numEpoch k = some insts :=
  exists_mapM_eq_some fun ⟨e, rpc⟩ hp => by
    obtain ⟨-, hrpc⟩ : e < numEpoch ∧ rpc ∈ rpcs := by simpa using hp
    exact buildInstance_isSome (hwf.parents_closed rpc hrpc) (hwf.children_closed rpc hrpc)

/-- The instances in loop order, epoch-major. -/
theorem buildGraph_rpcs (h : buildGraph rpcs numEpoch k = some insts) :
    insts.map (fun x => (x.epochId, x.rpc)) =
      (List.range numEpoch).flatMap fun e => rpcs.map fun rpc => (e, RPC.fromConfig rpc) := by
  rw [map_eq_of_mapM_eq_some (h := fun p => (p.1, RPC.fromConfig p.2))
    (fun p x hx => by rw [(buildInstance_spec hx).1, (buildInstance_spec hx).2.1]) h]
  simp [List.map_flatMap, Function.comp_def]

theorem buildGraph_nodes (h : buildGraph rpcs numEpoch k = some insts) :
    insts.map RPCInstance.node =
      (List.range numEpoch).flatMap fun e => rpcs.map fun rpc => (rpc.name, e) := by
  have := congrArg (List.map fun q : Nat × RPC => (q.2.rpcName, q.1)) (buildGraph_rpcs h)
  simpa [List.map_flatMap, RPC.fromConfig] using this

theorem buildInstance_of_mem (h : buildGraph rpcs numEpoch k = some insts) {x : RPCInstance}
    (hx : x ∈ insts) :
    ∃ e < numEpoch, ∃ rpc ∈ rpcs, buildInstance rpcs numEpoch k e rpc = some x := by
  obtain ⟨⟨e, rpc⟩, hp, hx⟩ := (mem_of_mapM_eq_some h).1 x hx
  obtain ⟨he, hrpc⟩ : e < numEpoch ∧ rpc ∈ rpcs := by simpa using hp
  exact ⟨e, he, rpc, hrpc, hx⟩

theorem exists_buildInstance (h : buildGraph rpcs numEpoch k = some insts) {e : Nat}
    (he : e < numEpoch) {rpc : ModelRPC} (hrpc : rpc ∈ rpcs) :
    ∃ x ∈ insts, buildInstance rpcs numEpoch k e rpc = some x :=
  (mem_of_mapM_eq_some h).2 (e, rpc) (by simpa using ⟨he, hrpc⟩)

theorem exists_node_iff (h : buildGraph rpcs numEpoch k = some insts) {v : String × Nat} :
    (∃ x ∈ insts, x.node = v) ↔ v.1 ∈ rpcs.map (·.name) ∧ v.2 < numEpoch := by
  rw [← List.mem_map, buildGraph_nodes h]
  simp only [List.mem_flatMap, List.mem_range, List.mem_map]
  constructor
  · rintro ⟨e, he, rpc, hrpc, rfl⟩
    exact ⟨⟨rpc, hrpc, rfl⟩, he⟩
  · rintro ⟨⟨rpc, hrpc, hname⟩, he⟩
    exact ⟨v.2, he, rpc, hrpc, Prod.ext hname rfl⟩

/-- One edge of the multi-epoch graph: a single-epoch parent at the same epoch, or a sink
`k` epochs before a source. -/
theorem instanceParent_iff (h : buildGraph rpcs numEpoch k = some insts) {u v : String × Nat} :
    InstanceParent insts u v ↔ v.2 < numEpoch ∧
      ((u.2 = v.2 ∧ ParentOf rpcs u.1 v.1) ∨
        (k ≤ v.2 ∧ u.2 = v.2 - k ∧ IsSink rpcs u.1 ∧ IsSource rpcs v.1)) := by
  constructor
  · rintro ⟨x, hx, rfl, hu⟩
    obtain ⟨e, he, rpc, hrpc, hbuild⟩ := buildInstance_of_mem h hx
    obtain ⟨hxr, hxe, hpar, -⟩ := buildInstance_spec hbuild
    have hname : x.node.1 = rpc.name := by simp [RPCInstance.node, hxr, RPC.fromConfig]
    have hep : x.node.2 = e := hxe
    rw [hpar, List.mem_append, mem_srcParents] at hu
    refine ⟨hep ▸ he, ?_⟩
    rcases hu with ⟨hsrc, hk, hsink, hu2⟩ | hu
    · exact .inr ⟨hep ▸ hk, hep ▸ hu2, hsink, rpc, hrpc, hname.symm, hsrc⟩
    · obtain ⟨p, hp, rfl⟩ := List.mem_map.1 hu
      exact .inl ⟨hep.symm, rpc, hrpc, hname.symm, hp⟩
  · rintro ⟨hv, ⟨hu2, rpc, hrpc, hname, hp⟩ | ⟨hk, hu2, hsink, rpc, hrpc, hname, hsrc⟩⟩
    all_goals
      obtain ⟨x, hx, hbuild⟩ := exists_buildInstance h hv hrpc
      obtain ⟨hxr, hxe, hpar, -⟩ := buildInstance_spec hbuild
      refine ⟨x, hx, Prod.ext (by simp [RPCInstance.node, hxr, RPC.fromConfig, hname]) hxe, ?_⟩
      rw [hpar, List.mem_append, mem_srcParents]
    · exact .inr (List.mem_map.2 ⟨u.1, hp, Prod.ext rfl hu2.symm⟩)
    · exact .inl ⟨hsrc, hk, hsink, hu2⟩

/-- Every instance sits at a node of the expansion. -/
theorem node_mem (h : buildGraph rpcs numEpoch k = some insts) {x : RPCInstance}
    (hx : x ∈ insts) : x.rpc.rpcName ∈ rpcs.map (·.name) ∧ x.epochId < numEpoch :=
  (exists_node_iff h).1 ⟨x, hx, rfl⟩

end Graph

-- ===================================================== the single-epoch graph

section SingleEpoch

variable {rpcs : List ModelRPC}

/-- A rank that grows along every parent edge rules out cycles. -/
theorem acyclic_of_rank (rank : String → Nat)
    (h : ∀ rpc ∈ rpcs, ∀ p ∈ rpc.parents, rank p < rank rpc.name) :
    ∀ a, ¬ TransGen (ParentOf rpcs) a a := by
  have hlt : ∀ a b, TransGen (ParentOf rpcs) a b → rank a < rank b := by
    intro a b hab
    induction hab with
    | single hp =>
      obtain ⟨rpc, hrpc, rfl, hp⟩ := hp
      exact h rpc hrpc _ hp
    | tail _ hp ih =>
      obtain ⟨rpc, hrpc, rfl, hp⟩ := hp
      exact ih.trans (h rpc hrpc _ hp)
  exact fun a hab => lt_irrefl _ (hlt a a hab)

theorem isSink_name_iff (hwf : WellFormedDfg rpcs) {rpc : ModelRPC} (hrpc : rpc ∈ rpcs) :
    IsSink rpcs rpc.name ↔ rpc.isDst = true :=
  ⟨fun ⟨_, ho, hname, hdst⟩ => List.inj_on_of_nodup_map hwf.nodup ho hrpc hname ▸ hdst,
    fun hdst => ⟨rpc, hrpc, rfl, hdst⟩⟩

theorem isSource_name_iff (hwf : WellFormedDfg rpcs) {rpc : ModelRPC} (hrpc : rpc ∈ rpcs) :
    IsSource rpcs rpc.name ↔ rpc.isSrc = true :=
  ⟨fun ⟨_, ho, hname, hsrc⟩ => List.inj_on_of_nodup_map hwf.nodup ho hrpc hname ▸ hsrc,
    fun hsrc => ⟨rpc, hrpc, rfl, hsrc⟩⟩

end SingleEpoch

-- ========================================================= the instance list

section Instances

variable {rpcs : List ModelRPC} {numEpoch k : Nat} {insts : List RPCInstance}

theorem buildGraph_names_nodup (hwf : WellFormedDfg rpcs)
    (h : buildGraph rpcs numEpoch k = some insts) : (insts.map RPCInstance.name).Nodup := by
  have hnodes : (insts.map RPCInstance.node).Nodup := by
    rw [buildGraph_nodes h, List.nodup_flatMap]
    refine ⟨fun e _ => ?_, ?_⟩
    · have := hwf.nodup.map (f := fun a => (a, e)) fun a b hab => (Prod.mk.inj hab).1
      simpa [List.map_map, Function.comp_def] using this
    · refine (List.pairwise_lt_range _).imp fun hlt => ?_
      simp only [Function.onFun, List.disjoint_left, List.mem_map]
      rintro _ ⟨_, -, rfl⟩ ⟨_, -, heq⟩
      exact hlt.ne' (congrArg Prod.snd heq)
  have hmap : insts.map RPCInstance.name =
      (insts.map RPCInstance.node).map fun v => v.1 ++ ":" ++ toString v.2 := by
    rw [List.map_map]
    rfl
  exact hmap ▸ hnodes.map nodeName_injective

/-- Every parent or child reference names an instance of the output. -/
theorem buildGraph_refs_closed (hwf : WellFormedDfg rpcs)
    (h : buildGraph rpcs numEpoch k = some insts) :
    ∀ x ∈ insts, ∀ p ∈ x.parents ++ x.children, ∃ y ∈ insts, y.node = refNode p := by
  intro x hx p hp
  obtain ⟨e, he, rpc, hrpc, hbuild⟩ := buildInstance_of_mem h hx
  obtain ⟨-, -, hpar, hchild⟩ := buildInstance_spec hbuild
  have hmem : refNode p ∈ x.parents.map refNode ++ x.children.map refNode := by
    rw [← List.map_append]
    exact List.mem_map_of_mem _ hp
  rw [hpar, hchild, List.mem_append, List.mem_append, List.mem_append, mem_srcParents,
    mem_dstChildren] at hmem
  simp only [List.mem_map] at hmem
  rw [exists_node_iff h]
  rcases hmem with (⟨-, -, ⟨o, ho, hname, -⟩, he'⟩ | ⟨q, hq, hqe⟩) |
      (⟨-, hlt, ⟨o, ho, hname, -⟩, he'⟩ | ⟨q, hq, hqe⟩)
  · exact ⟨hname ▸ List.mem_map_of_mem _ ho, by omega⟩
  · exact hqe ▸ ⟨hwf.parents_closed rpc hrpc q hq, he⟩
  · exact ⟨hname ▸ List.mem_map_of_mem _ ho, by omega⟩
  · exact hqe ▸ ⟨hwf.children_closed rpc hrpc q hq, he⟩

/-- The parent lists and the child lists describe the same edges. -/
theorem buildGraph_parent_iff_child (hwf : WellFormedDfg rpcs)
    (h : buildGraph rpcs numEpoch k = some insts) :
    ∀ x ∈ insts, ∀ y ∈ insts,
      y.node ∈ x.parents.map refNode ↔ x.node ∈ y.children.map refNode := by
  intro x hx y hy
  obtain ⟨ex, hex, rx, hrx, hbx⟩ := buildInstance_of_mem h hx
  obtain ⟨ey, -, ry, hry, hby⟩ := buildInstance_of_mem h hy
  obtain ⟨hxr, hxe, hxp, -⟩ := buildInstance_spec hbx
  obtain ⟨hyr, hye, -, hyc⟩ := buildInstance_spec hby
  have hxn : x.node = (rx.name, ex) := by simp [RPCInstance.node, hxr, hxe, RPC.fromConfig]
  have hyn : y.node = (ry.name, ey) := by simp [RPCInstance.node, hyr, hye, RPC.fromConfig]
  rw [hxp, hyc, hxn, hyn, List.mem_append, List.mem_append, mem_srcParents, mem_dstChildren]
  simp only [List.mem_map, Prod.mk.injEq, isSink_name_iff hwf hry, isSource_name_iff hwf hrx]
  constructor
  · rintro (⟨hsrc, hk, hdst, heq⟩ | ⟨_, hmem, rfl, rfl⟩)
    · exact .inl ⟨hdst, by omega, hsrc, by omega⟩
    · exact .inr ⟨_, (hwf.parent_iff_child ry hry rx hrx).1 hmem, rfl, rfl⟩
  · rintro (⟨hdst, hlt, hsrc, heq⟩ | ⟨_, hmem, rfl, rfl⟩)
    · exact .inl ⟨hsrc, by omega, hdst, by omega⟩
    · exact .inr ⟨_, (hwf.parent_iff_child ry hry rx hrx).2 hmem, rfl, rfl⟩

theorem buildGraph_instances_wellFormed (rpcs : List ModelRPC) (hwf : WellFormedDfg rpcs)
    (numEpoch k : Nat) :
    ∃ insts, buildGraph rpcs numEpoch k = some insts ∧
      insts.map (fun x => (x.epochId, x.rpc)) =
        ((List.range numEpoch).flatMap fun e => rpcs.map fun rpc => (e, RPC.fromConfig rpc)) ∧
      (insts.map RPCInstance.name).Nodup ∧
      (∀ x ∈ insts, ∀ p ∈ x.parents ++ x.children, ∃ y ∈ insts, y.node = refNode p) ∧
      (∀ x ∈ insts, ∀ y ∈ insts,
        y.node ∈ x.parents.map refNode ↔ x.node ∈ y.children.map refNode) := by
  obtain ⟨insts, h⟩ := buildGraph_isSome hwf numEpoch k
  exact ⟨insts, h, buildGraph_rpcs h, buildGraph_names_nodup hwf h,
    buildGraph_refs_closed hwf h, buildGraph_parent_iff_child hwf h⟩

/-- A generate-then-train graph: `gen` feeds `train`. -/
def genTrainDfg : List ModelRPC :=
  [⟨"gen", "actor", "generate", [], ["train"], true, false⟩,
    ⟨"train", "actor", "train_step", ["gen"], [], false, true⟩]

theorem genTrainDfg_wellFormed : WellFormedDfg genTrainDfg :=
  ⟨by decide, by decide, by decide, by decide, by decide, by decide,
    acyclic_of_rank (fun s => if s = "gen" then 0 else 1) (by decide)⟩

theorem buildGraph_instances_genTrain :
    WellFormedDfg genTrainDfg ∧
      ∃ insts, buildGraph genTrainDfg 3 1 = some insts ∧
        insts.map (fun x => (x.epochId, x.rpc)) =
          ((List.range 3).flatMap fun e => genTrainDfg.map fun rpc => (e, RPC.fromConfig rpc)) ∧
        (insts.map RPCInstance.name).Nodup ∧
        (∀ x ∈ insts, ∀ p ∈ x.parents ++ x.children, ∃ y ∈ insts, y.node = refNode p) ∧
        (∀ x ∈ insts, ∀ y ∈ insts,
          y.node ∈ x.parents.map refNode ↔ x.node ∈ y.children.map refNode) :=
  ⟨genTrainDfg_wellFormed, buildGraph_instances_wellFormed genTrainDfg genTrainDfg_wellFormed 3 1⟩

end Instances

end ReaLHF.Profiler
