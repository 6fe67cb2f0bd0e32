/-
The transitive dependencies of the multi-epoch graph `build_graph` returns.

# Result

`buildGraph_ancestor_iff`: over a well-formed single-epoch graph and an interval `k ≥ 1`, the
nodes are `(rpc, e)` for every RPC and every epoch `e < num_epoch`, each once and in loop
order, and `(a, e')` is a transitive ancestor of `(b, e)` exactly when `e' = e` and `a` is a
single-epoch ancestor of `b`, or `e' < e` and `k ∣ e - e'`. So the expansion has no cycle,
every instance of epoch `e` waits for every instance of epoch `e - k`, and none waits for
an epoch strictly between.

# Proof plan

Forward (`ancestor_shape`): induction over the path, one case per kind of edge from
`instanceParent_iff`. Backward: a single-epoch path lifts to any epoch
(`ancestor_same_epoch`); to cross `k` epochs, walk down to a sink, take the synthetic edge
to a source and climb to the target (`ancestor_next_epoch`); a multiple of `k` repeats that
(`ancestor_multiple`). Sinks below and sources above every RPC exist because the ancestor
order of a finite acyclic graph is well founded (`wellFounded_of_acyclic`).
-/
import ReaLHF.Profiler.Proofs.EpochGraph

namespace ReaLHF.Profiler

open Relation

-- ======================================================= single-epoch paths

/-- An acyclic relation is well founded on the members of a list, through its transitive
closure. -/
theorem wellFounded_of_acyclic (r : String → String → Prop) (l : List String)
    (hr : ∀ a, ¬ TransGen r a a) :
    WellFounded fun a b : {s // s ∈ l} => TransGen r a.1 b.1 := by
  haveI : IsTrans {s // s ∈ l} fun a b => TransGen r a.1 b.1 :=
    ⟨fun _ _ _ hab hbc => hab.trans hbc⟩
  haveI : IsIrrefl {s // s ∈ l} fun a b => TransGen r a.1 b.1 := ⟨fun a => hr a.1⟩
  exact Finite.wellFounded_of_trans_of_irrefl _

section SingleEpoch

variable {rpcs : List ModelRPC}

/-- Climbing parents from any RPC ends at a source. -/
theorem exists_source_ancestor (hwf : WellFormedDfg rpcs) (b : {s // s ∈ rpcs.map (·.name)}) :
    ∃ s, ReflTransGen (ParentOf rpcs) s b.1 ∧ IsSource rpcs s := by
  induction b using (wellFounded_of_acyclic _ _ hwf.acyclic).induction with
  | _ b ih =>
  obtain ⟨rpc, hrpc, hname⟩ := List.mem_map.1 b.2
  by_cases hsrc : rpc.isSrc = true
  · exact ⟨b.1, .refl, rpc, hrpc, hname, hsrc⟩
  · obtain ⟨p, hp⟩ := List.exists_mem_of_ne_nil _ (mt (hwf.isSrc_iff rpc hrpc).2 hsrc)
    have hpar : ParentOf rpcs p b.1 := ⟨rpc, hrpc, hname, hp⟩
    obtain ⟨s, hs, hsrc'⟩ := ih ⟨p, hwf.parents_closed rpc hrpc p hp⟩ (.single hpar)
    exact ⟨s, hs.tail hpar, hsrc'⟩

/-- Descending to children from any RPC ends at a sink. -/
theorem exists_sink_descendant (hwf : WellFormedDfg rpcs) (a : {s // s ∈ rpcs.map (·.name)}) :
    ∃ d, ReflTransGen (ParentOf rpcs) a.1 d ∧ IsSink rpcs d := by
  induction a using (wellFounded_of_acyclic (Function.swap (ParentOf rpcs)) _
    fun a h => hwf.acyclic a (transGen_swap.1 h)).induction with
  | _ a ih =>
  obtain ⟨rpc, hrpc, hname⟩ := List.mem_map.1 a.2
  by_cases hdst : rpc.isDst = true
  · exact ⟨a.1, .refl, rpc, hrpc, hname, hdst⟩
  · obtain ⟨c, hc⟩ := List.exists_mem_of_ne_nil _ (mt (hwf.isDst_iff rpc hrpc).2 hdst)
    obtain ⟨child, hchild, rfl⟩ := List.mem_map.1 (hwf.children_closed rpc hrpc c hc)
    have hpar : ParentOf rpcs a.1 child.name :=
      ⟨child, hchild, rfl, hname ▸ (hwf.parent_iff_child rpc hrpc child hchild).2 hc⟩
    obtain ⟨d, hd, hsink⟩ := ih ⟨child.name, List.mem_map_of_mem _ hchild⟩ (.single hpar)
    exact ⟨d, hd.head hpar, hsink⟩

end SingleEpoch

-- ======================================================== multi-epoch paths

section MultiEpoch

variable {rpcs : List ModelRPC} {numEpoch k : Nat} {insts : List RPCInstance}

/-- Every path stays in one epoch as a single-epoch path, or climbs a positive multiple
of `k` epochs. -/
theorem ancestor_shape (h : buildGraph rpcs numEpoch k = some insts) (hk : 1 ≤ k)
    {u v : String × Nat} (huv : TransGen (InstanceParent insts) u v) :
    (u.2 = v.2 ∧ TransGen (ParentOf rpcs) u.1 v.1) ∨ (u.2 < v.2 ∧ k ∣ v.2 - u.2) := by
  induction huv with
  | single hedge =>
    rcases ((instanceParent_iff h).1 hedge).2 with ⟨he, hp⟩ | ⟨hkv, he, -, -⟩
    · exact .inl ⟨he, .single hp⟩
    · exact .inr ⟨by omega, ⟨1, by omega⟩⟩
  | @tail w x _ hedge ih =>
    rcases ((instanceParent_iff h).1 hedge).2 with ⟨he, hp⟩ | ⟨hkv, he, -, -⟩
    · rcases ih with ⟨he', hpath⟩ | ⟨hlt, hdvd⟩
      · exact .inl ⟨he'.trans he, hpath.tail hp⟩
      · exact .inr ⟨he ▸ hlt, he ▸ hdvd⟩
    · rcases ih with ⟨he', -⟩ | ⟨hlt, hdvd⟩
      · exact .inr ⟨by omega, ⟨1, by omega⟩⟩
      · refine .inr ⟨by omega, ?_⟩
        have hsplit : x.2 - u.2 = (w.2 - u.2) + k := by omega
        exact hsplit ▸ dvd_add hdvd dvd_rfl

theorem reflAncestor_same_epoch (h : buildGraph rpcs numEpoch k = some insts) {e : Nat}
    (he : e < numEpoch) {a b : String} (hab : ReflTransGen (ParentOf rpcs) a b) :
    ReflTransGen (InstanceParent insts) (a, e) (b, e) :=
  hab.lift (·, e) fun _ _ hp => (instanceParent_iff h).2 ⟨he, .inl ⟨rfl, hp⟩⟩

theorem ancestor_same_epoch (h : buildGraph rpcs numEpoch k = some insts) {e : Nat}
    (he : e < numEpoch) {a b : String} (hab : TransGen (ParentOf rpcs) a b) :
    TransGen (InstanceParent insts) (a, e) (b, e) :=
  hab.lift (·, e) fun _ _ hp => (instanceParent_iff h).2 ⟨he, .inl ⟨rfl, hp⟩⟩

/-- Any node reaches any node `k` epochs later: down to a sink, across the synthetic edge to
a source, up to the target. -/
theorem ancestor_next_epoch (hwf : WellFormedDfg rpcs)
    (h : buildGraph rpcs numEpoch k = some insts) {a b : String}
    (ha : a ∈ rpcs.map (·.name)) (hb : b ∈ rpcs.map (·.name)) {e : Nat}
    (he : e + k < numEpoch) : TransGen (InstanceParent insts) (a, e) (b, e + k) := by
  obtain ⟨d, had, hd⟩ := exists_sink_descendant hwf ⟨a, ha⟩
  obtain ⟨s, hsb, hs⟩ := exists_source_ancestor hwf ⟨b, hb⟩
  have hcross : InstanceParent insts (d, e) (s, e + k) :=
    (instanceParent_iff h).2 ⟨he, .inr ⟨Nat.le_add_left k e, (Nat.add_sub_cancel e k).symm, hd, hs⟩⟩
  exact (TransGen.tail' (reflAncestor_same_epoch h (by omega) had) hcross).trans_left
    (reflAncestor_same_epoch h he hsb)

theorem ancestor_multiple (hwf : WellFormedDfg rpcs)
    (h : buildGraph rpcs numEpoch k = some insts) {a b : String}
    (ha : a ∈ rpcs.map (·.name)) (hb : b ∈ rpcs.map (·.name)) {e m : Nat} (hm : 1 ≤ m)
    (hlt : e + k * m < numEpoch) : TransGen (InstanceParent insts) (a, e) (b, e + k * m) := by
  induction m, hm using Nat.le_induction generalizing b with
  | base => simpa using ancestor_next_epoch hwf h ha hb (by simpa using hlt)
  | succ m _ ih =>
    rw [mul_add_one, ← Nat.add_assoc] at hlt ⊢
    exact (ih ha (by omega)).trans (ancestor_next_epoch hwf h ha hb hlt)

theorem ancestor_iff (hwf : WellFormedDfg rpcs) (h : buildGraph rpcs numEpoch k = some insts)
    (hk : 1 ≤ k) {x y : RPCInstance} (hx : x ∈ insts) (hy : y ∈ insts) :
    TransGen (InstanceParent insts) x.node y.node ↔
      (x.epochId = y.epochId ∧ TransGen (ParentOf rpcs) x.rpc.rpcName y.rpc.rpcName) ∨
        (x.epochId < y.epochId ∧ k ∣ y.epochId - x.epochId) := by
  obtain ⟨hxa, -⟩ := node_mem h hx
  obtain ⟨hya, hye⟩ := node_mem h hy
  refine ⟨ancestor_shape h hk, ?_⟩
  rintro (⟨he, hab⟩ | ⟨hlt, m, hm⟩)
  · show TransGen _ (_, x.epochId) (_, y.epochId)
    rw [he]
    exact ancestor_same_epoch h hye hab
  · have hm1 : 1 ≤ m := Nat.pos_of_ne_zero (by rintro rfl; omega)
    have hpath : TransGen (InstanceParent insts) (_, x.epochId) (_, x.epochId + k * m) :=
      ancestor_multiple hwf h hxa hya hm1 (by omega)
    rwa [show x.epochId + k * m = y.epochId by omega] at hpath

theorem buildGraph_ancestor_iff (rpcs : List ModelRPC) (hwf : WellFormedDfg rpcs)
    (numEpoch k : Nat) (hk : 1 ≤ k) :
    ∃ insts, buildGraph rpcs numEpoch k = some insts ∧
      insts.map RPCInstance.node =
        ((List.range numEpoch).flatMap fun e => rpcs.map fun rpc => (rpc.name, e)) ∧
      (∀ x ∈ insts, ∀ y ∈ insts,
        (TransGen (InstanceParent insts) x.node y.node ↔
          (x.epochId = y.epochId ∧ TransGen (ParentOf rpcs) x.rpc.rpcName y.rpc.rpcName) ∨
            (x.epochId < y.epochId ∧ k ∣ y.epochId - x.epochId))) ∧
      (∀ v, ¬ TransGen (InstanceParent insts) v v) ∧
      (∀ x ∈ insts, ∀ y ∈ insts, x.epochId + k = y.epochId →
        TransGen (InstanceParent insts) x.node y.node) ∧
      (∀ x ∈ insts, ∀ y ∈ insts, x.epochId < y.epochId → y.epochId < x.epochId + k →
        ¬ TransGen (InstanceParent insts) x.node y.node) := by
  obtain ⟨insts, h⟩ := buildGraph_isSome hwf numEpoch k
  refine ⟨insts, h, buildGraph_nodes h, fun x hx y hy => ancestor_iff hwf h hk hx hy, ?_, ?_, ?_⟩
  · intro v hv
    rcases ancestor_shape h hk hv with ⟨-, hcycle⟩ | ⟨hlt, -⟩
    · exact hwf.acyclic _ hcycle
    · exact lt_irrefl _ hlt
  · intro x hx y hy hxy
    exact (ancestor_iff hwf h hk hx hy).2 (.inr ⟨by omega, ⟨1, by omega⟩⟩)
  · intro x hx y hy hlt hgt hpath
    rcases (ancestor_iff hwf h hk hx hy).1 hpath with ⟨he, -⟩ | ⟨-, hdvd⟩
    · omega
    · exact absurd (Nat.le_of_dvd (by omega) hdvd) (by omega)

theorem buildGraph_ancestor_genTrain :
    WellFormedDfg genTrainDfg ∧ 1 ≤ 2 ∧
      ∃ insts, buildGraph genTrainDfg 5 2 = some insts ∧
        insts.map RPCInstance.node =
          ((List.range 5).flatMap fun e => genTrainDfg.map fun rpc => (rpc.name, e)) ∧
        (∀ x ∈ insts, ∀ y ∈ insts,
          (TransGen (InstanceParent insts) x.node y.node ↔
            (x.epochId = y.epochId ∧ TransGen (ParentOf genTrainDfg) x.rpc.rpcName y.rpc.rpcName) ∨
              (x.epochId < y.epochId ∧ 2 ∣ y.epochId - x.epochId))) ∧
        (∀ v, ¬ TransGen (InstanceParent insts) v v) ∧
        (∀ x ∈ insts, ∀ y ∈ insts, x.epochId + 2 = y.epochId →
          TransGen (InstanceParent insts) x.node y.node) ∧
        (∀ x ∈ insts, ∀ y ∈ insts, x.epochId < y.epochId → y.epochId < x.epochId + 2 →
          ¬ TransGen (InstanceParent insts) x.node y.node) :=
  ⟨genTrainDfg_wellFormed, by decide,
    buildGraph_ancestor_iff genTrainDfg genTrainDfg_wellFormed 5 2 (by decide)⟩

end MultiEpoch

end ReaLHF.Profiler
