/-
What `GroupedRPCExecutions.add` does to the groups and to `total_mem_cost`.

# Monotone totals

`ExeGroup.CostBounded` holds of the seed group (its cost `mem` is at most
`mem + (mem - static_mem)`) and of every joined group (the join path stores its own
recomputation). Under it a join can only raise a group's cost, because both summands of
the recomputation grow: the static sum by a new entry `mem ≥ 0` or an entry raised to a
max, the active max because every old entry is dominated by a new one. An untouched group
keeps its cost and a seeded one adds `mem ≥ 0`, so the total never drops
(`totalMemCost_le_add`), whatever the overlap test. This is what makes the search's
early break sound: a prefix over the threshold stays over it.

# Where executions land

`add` appends the execution to every overlapped group and seeds a group only when none is
overlapped (`add_rpcExeGroups`). Over a run from the empty state every added execution
therefore sits in at least one group and every group is a sub-list of the run — but an
execution bridging two groups sits in both, and a repeated execution is charged its active
memory twice, because the join path stores `mem`, not `static_mem`, in `mem_static`.
-/
import ReaLHF.Profiler.Grouped

namespace ReaLHF.Profiler

variable (isAllOverlap : List DeviceMesh → DeviceMesh → Bool)

-- ============================================================ the join path

@[simp] theorem ExeGroup.join_exes (g : ExeGroup) (e : RPCExecution) :
    (g.join e).exes = g.exes ++ [e] := by
  unfold ExeGroup.join ExeGroup.record; split <;> rfl

theorem ExeGroup.join_memCost (g : ExeGroup) (e : RPCExecution) :
    (g.join e).memCost = (g.join e).memStatic.sum + listMax (g.join e).memActive := rfl

theorem ExeGroup.sum_le_join_memStatic (g : ExeGroup) {e : RPCExecution} (he : 0 ≤ e.mem) :
    g.memStatic.sum ≤ (g.join e).memStatic.sum := by
  unfold ExeGroup.join ExeGroup.record; split
  · simpa using he
  · exact sum_le_sum_set_max _ _ _

theorem ExeGroup.le_join_memActive (g : ExeGroup) (e : RPCExecution) {x : Int}
    (hx : x ∈ g.memActive) : ∃ y ∈ (g.join e).memActive, x ≤ y := by
  unfold ExeGroup.join ExeGroup.record; split
  · exact ⟨x, by simp [hx], le_rfl⟩
  · exact le_set_max _ _ _ hx

theorem ExeGroup.join_memActive_ne_nil (g : ExeGroup) (e : RPCExecution)
    (hg : g.memActive ≠ []) : (g.join e).memActive ≠ [] := by
  unfold ExeGroup.join ExeGroup.record; split
  · simp
  · simpa using hg

-- ========================================================== the cost bound

/-- The bound both writers of `mem_costs[i]` keep, with `max` only taken of a non-empty
list. -/
def ExeGroup.CostBounded (g : ExeGroup) : Prop :=
  g.memCost ≤ g.memStatic.sum + listMax g.memActive ∧ g.memActive ≠ []

/-- Every group of the state is cost-bounded. -/
def GroupedRPCExecutions.CostBounded (s : GroupedRPCExecutions) : Prop :=
  ∀ g ∈ s.groups, g.CostBounded

theorem ExeGroup.seed_costBounded {e : RPCExecution} (he : e.WellFormed) :
    (ExeGroup.seed e).CostBounded := by
  obtain ⟨h0, h1⟩ := he
  simp only [ExeGroup.CostBounded, ExeGroup.seed, List.sum_singleton, listMax,
    List.foldr_nil]
  exact ⟨by omega, by simp⟩

theorem ExeGroup.join_costBounded {g : ExeGroup} (e : RPCExecution) (hg : g.CostBounded) :
    (g.join e).CostBounded :=
  ⟨(g.join_memCost e).le, g.join_memActive_ne_nil e hg.2⟩

/-- A join never lowers a bounded group's cost. -/
theorem ExeGroup.memCost_le_join {g : ExeGroup} {e : RPCExecution} (hg : g.CostBounded)
    (he : 0 ≤ e.mem) : g.memCost ≤ (g.join e).memCost := by
  rw [g.join_memCost e]
  have hmax : listMax g.memActive ≤ listMax (g.join e).memActive :=
    listMax_le_listMax hg.2 fun _ hx => g.le_join_memActive e hx
  linarith [hg.1, g.sum_le_join_memStatic he]

-- =============================================================== one add

/-- `add`'s groups: the old ones, joined where overlapped, then the seed if none was. -/
theorem add_groups (s : GroupedRPCExecutions) (e : RPCExecution) :
    (s.add isAllOverlap e).groups =
      s.groups.map (fun g => if g.overlaps isAllOverlap e then g.join e else g) ++
        if s.groups.any (·.overlaps isAllOverlap e) then [] else [ExeGroup.seed e] := by
  unfold GroupedRPCExecutions.add; split <;> simp [*]

theorem add_costBounded {s : GroupedRPCExecutions} {e : RPCExecution} (hs : s.CostBounded)
    (he : e.WellFormed) : (s.add isAllOverlap e).CostBounded := by
  intro g hg
  rw [add_groups, List.mem_append, List.mem_map] at hg
  rcases hg with ⟨g, hg, rfl⟩ | hg
  · split
    · exact ExeGroup.join_costBounded e (hs g hg)
    · exact hs g hg
  · split at hg
    · cases hg
    · rw [List.mem_singleton.1 hg]
      exact ExeGroup.seed_costBounded he

/-- One add never lowers the total of a bounded state. -/
theorem totalMemCost_le_add {s : GroupedRPCExecutions} {e : RPCExecution}
    (hs : s.CostBounded) (he : e.WellFormed) :
    s.totalMemCost ≤ (s.add isAllOverlap e).totalMemCost := by
  unfold GroupedRPCExecutions.totalMemCost
  rw [add_groups, List.map_append, List.sum_append, List.map_map]
  have hmap : (s.groups.map (·.memCost)).sum ≤ (s.groups.map
      ((·.memCost) ∘ fun g => if g.overlaps isAllOverlap e then g.join e else g)).sum :=
    List.sum_le_sum fun g hg => by
      simp only [Function.comp]
      split
      · exact ExeGroup.memCost_le_join (hs g hg) (he.1.trans he.2)
      · exact le_rfl
  have hseed : 0 ≤ ((if s.groups.any (·.overlaps isAllOverlap e) then []
      else [ExeGroup.seed e]).map (·.memCost)).sum := by
    split <;> simp [ExeGroup.seed, he.1.trans he.2]
  linarith

-- ================================================================== runs

theorem addAll_costBounded {s : GroupedRPCExecutions} {es : List RPCExecution}
    (hs : s.CostBounded) (hes : ∀ e ∈ es, e.WellFormed) :
    (s.addAll isAllOverlap es).CostBounded := by
  induction es generalizing s with
  | nil => exact hs
  | cons e es ih =>
    exact ih (add_costBounded isAllOverlap hs (hes e (.head _)))
      fun e' h => hes e' (.tail _ h)

/-- A run of adds never lowers the total of a bounded state. -/
theorem totalMemCost_le_addAll {s : GroupedRPCExecutions} {es : List RPCExecution}
    (hs : s.CostBounded) (hes : ∀ e ∈ es, e.WellFormed) :
    s.totalMemCost ≤ (s.addAll isAllOverlap es).totalMemCost := by
  induction es generalizing s with
  | nil => exact le_rfl
  | cons e es ih =>
    exact (totalMemCost_le_add isAllOverlap hs (hes e (.head _))).trans
      (ih (add_costBounded isAllOverlap hs (hes e (.head _))) fun e' h => hes e' (.tail _ h))

theorem empty_costBounded : (GroupedRPCExecutions.mk []).CostBounded := by
  simp [GroupedRPCExecutions.CostBounded]

/-- Monotone totals: from any state reachable by adds of well-formed executions, one
more add, or any further run of adds, never lowers `total_mem_cost()`, so a prefix whose
total is over a threshold stays over it however the assignment is completed. -/
theorem totalMemCost_monotone (es : List RPCExecution) (hes : ∀ e ∈ es, e.WellFormed) :
    (∀ e : RPCExecution, e.WellFormed →
      ((GroupedRPCExecutions.mk []).addAll isAllOverlap es).totalMemCost ≤
        (((GroupedRPCExecutions.mk []).addAll isAllOverlap es).add isAllOverlap e).totalMemCost) ∧
    ∀ es' : List RPCExecution, (∀ e ∈ es', e.WellFormed) →
      ((GroupedRPCExecutions.mk []).addAll isAllOverlap es).totalMemCost ≤
          ((GroupedRPCExecutions.mk []).addAll isAllOverlap (es ++ es')).totalMemCost ∧
        ∀ threshold : Int,
          threshold < ((GroupedRPCExecutions.mk []).addAll isAllOverlap es).totalMemCost →
            threshold < ((GroupedRPCExecutions.mk []).addAll isAllOverlap (es ++ es')).totalMemCost := by
  have hs := addAll_costBounded isAllOverlap empty_costBounded hes
  refine ⟨fun e he => totalMemCost_le_add isAllOverlap hs he, fun es' hes' => ?_⟩
  rw [addAll_append]
  have hle := totalMemCost_le_addAll isAllOverlap hs hes'
  exact ⟨hle, fun _ h => h.trans_le hle⟩

theorem totalMemCost_monotone_single_actor :
    (∀ e ∈ [(⟨⟨"actor", "train_step", "actor_train"⟩, ⟨[0], 1⟩, ⟨1, 1, 1⟩, 0, 2, 1⟩ :
        RPCExecution)], e.WellFormed) ∧
    (∀ e : RPCExecution, e.WellFormed →
      ((GroupedRPCExecutions.mk []).addAll DeviceMesh.isAllOverlap
          [⟨⟨"actor", "train_step", "actor_train"⟩, ⟨[0], 1⟩, ⟨1, 1, 1⟩, 0, 2, 1⟩]).totalMemCost ≤
        (((GroupedRPCExecutions.mk []).addAll DeviceMesh.isAllOverlap
          [⟨⟨"actor", "train_step", "actor_train"⟩, ⟨[0], 1⟩, ⟨1, 1, 1⟩, 0, 2, 1⟩]).add
            DeviceMesh.isAllOverlap e).totalMemCost) ∧
    ∀ es' : List RPCExecution, (∀ e ∈ es', e.WellFormed) →
      ((GroupedRPCExecutions.mk []).addAll DeviceMesh.isAllOverlap
          [⟨⟨"actor", "train_step", "actor_train"⟩, ⟨[0], 1⟩, ⟨1, 1, 1⟩, 0, 2, 1⟩]).totalMemCost ≤
          ((GroupedRPCExecutions.mk []).addAll DeviceMesh.isAllOverlap
            ([⟨⟨"actor", "train_step", "actor_train"⟩, ⟨[0], 1⟩, ⟨1, 1, 1⟩, 0, 2, 1⟩] ++
              es')).totalMemCost ∧
        ∀ threshold : Int,
          threshold < ((GroupedRPCExecutions.mk []).addAll DeviceMesh.isAllOverlap
            [⟨⟨"actor", "train_step", "actor_train"⟩, ⟨[0], 1⟩, ⟨1, 1, 1⟩, 0, 2, 1⟩]).totalMemCost →
            threshold < ((GroupedRPCExecutions.mk []).addAll DeviceMesh.isAllOverlap
              ([⟨⟨"actor", "train_step", "actor_train"⟩, ⟨[0], 1⟩, ⟨1, 1, 1⟩, 0, 2, 1⟩] ++
                es')).totalMemCost :=
  ⟨by decide, totalMemCost_monotone DeviceMesh.isAllOverlap _ (by decide)⟩

-- ========================================================= repeated models

/-- A repeated execution on a self-overlapping mesh is charged `2·mem - static_mem`:
the seed stores `mem`, the join recomputes `mem_static + mem_active = mem + (mem -
static_mem)` since `mem_static` holds `mem`. -/
theorem totalMemCost_add_twice (e : RPCExecution)
    (hov : isAllOverlap [e.deviceMesh] e.deviceMesh = true) :
    ((GroupedRPCExecutions.mk []).addAll isAllOverlap [e, e]).totalMemCost =
      2 * e.mem - e.staticMem := by
  simp [GroupedRPCExecutions.add, GroupedRPCExecutions.totalMemCost, ExeGroup.overlaps,
    ExeGroup.join, ExeGroup.record, ExeGroup.seed, listMax, hov]
  omega

/-- The code at a repeated execution (`mem` 2, `static_mem` 1, one-device mesh): the
total is 3, where a model entry updated rather than duplicated would give `mem` = 2. -/
theorem totalMemCost_repeated_execution :
    ((GroupedRPCExecutions.mk []).addAll DeviceMesh.isAllOverlap
      [⟨⟨"actor", "train_step", "actor_train"⟩, ⟨[0], 1⟩, ⟨1, 1, 1⟩, 0, 2, 1⟩,
       ⟨⟨"actor", "train_step", "actor_train"⟩, ⟨[0], 1⟩, ⟨1, 1, 1⟩, 0, 2, 1⟩]).totalMemCost
      = 3 :=
  totalMemCost_add_twice _ _ rfl

-- ========================================================= group membership

/-- `add` appends the execution to every group it overlaps, in group order, and seeds a
new last group exactly when it overlaps none. -/
theorem add_rpcExeGroups (s : GroupedRPCExecutions) (e : RPCExecution) :
    (s.add isAllOverlap e).rpcExeGroups =
      s.groups.map (fun g => if g.overlaps isAllOverlap e then g.exes ++ [e] else g.exes) ++
        if s.groups.any (·.overlaps isAllOverlap e) then [] else [[e]] := by
  simp only [GroupedRPCExecutions.rpcExeGroups, add_groups, List.map_append, List.map_map]
  congr 1
  · exact List.map_congr_left fun g _ => by simp only [Function.comp]; split <;> simp
  · split <;> rfl

/-- Over a run from the empty state every added execution sits in some group, and every
group is a sub-list of the run. -/
theorem addAll_rpcExeGroups_cover (es : List RPCExecution) :
    (∀ x ∈ es, ∃ G ∈ ((GroupedRPCExecutions.mk []).addAll isAllOverlap es).rpcExeGroups,
      x ∈ G) ∧
    ∀ G ∈ ((GroupedRPCExecutions.mk []).addAll isAllOverlap es).rpcExeGroups, G.Sublist es := by
  induction es using List.reverseRecOn with
  | nil => simp [GroupedRPCExecutions.rpcExeGroups]
  | append_singleton es e ih =>
    rw [addAll_append, addAll_cons, addAll_nil, add_rpcExeGroups]
    set s := (GroupedRPCExecutions.mk []).addAll isAllOverlap es
    obtain ⟨hcov, hsub⟩ := ih
    refine ⟨fun x hx => ?_, fun G hG => ?_⟩
    · rcases List.mem_append.1 hx with hx | hx
      · obtain ⟨G, hG, hxG⟩ := hcov x hx
        obtain ⟨g, hg, rfl⟩ := List.mem_map.1 hG
        refine ⟨_, List.mem_append_left _ (List.mem_map_of_mem _ hg), ?_⟩
        split <;> simp [hxG]
      · rw [List.mem_singleton.1 hx]
        by_cases hany : s.groups.any (·.overlaps isAllOverlap e)
        · obtain ⟨g, hg, hov⟩ := List.any_eq_true.1 hany
          exact ⟨_, List.mem_append_left _ (List.mem_map_of_mem _ hg), by simp [hov]⟩
        · exact ⟨[e], by simp [hany], List.mem_singleton_self _⟩
    · rcases List.mem_append.1 hG with hG | hG
      · obtain ⟨g, hg, rfl⟩ := List.mem_map.1 hG
        have := hsub _ (List.mem_map_of_mem (·.exes) hg)
        split
        · exact this.append (List.Sublist.refl _)
        · exact this.trans (List.sublist_append_left _ _)
      · split at hG
        · cases hG
        · rw [List.mem_singleton.1 hG]
          exact List.singleton_sublist.2 (List.mem_append_right _ (List.mem_singleton_self _))

/-- `add` as it is: the execution is appended to EVERY existing group whose member meshes
it overlaps and seeds a new last group only when it overlaps none; groups are never
merged, removed or reordered. Over a run from the empty state the groups cover the added
executions and each lists them in the order they were added. -/
theorem add_joins_every_overlapping_group (s : GroupedRPCExecutions) (e : RPCExecution)
    (es : List RPCExecution) :
    (s.add isAllOverlap e).rpcExeGroups =
        s.groups.map (fun g => if g.overlaps isAllOverlap e then g.exes ++ [e] else g.exes) ++
          (if s.groups.any (·.overlaps isAllOverlap e) then [] else [[e]]) ∧
      (∀ x ∈ es, ∃ G ∈ ((GroupedRPCExecutions.mk []).addAll isAllOverlap es).rpcExeGroups,
        x ∈ G) ∧
      ∀ G ∈ ((GroupedRPCExecutions.mk []).addAll isAllOverlap es).rpcExeGroups,
        G.Sublist es :=
  ⟨add_rpcExeGroups isAllOverlap s e, addAll_rpcExeGroups_cover isAllOverlap es⟩

/-- Three executions on meshes `{0}`, `{1}` and the bridging `{0, 1}`: the third joins
both earlier groups instead of exactly one. -/
theorem bridging_execution_in_two_groups :
    ((GroupedRPCExecutions.mk []).addAll DeviceMesh.isAllOverlap
      [⟨⟨"actor", "generate", "gen"⟩, ⟨[0], 1⟩, ⟨1, 1, 1⟩, 0, 2, 1⟩,
       ⟨⟨"critic", "inference", "inf"⟩, ⟨[1], 1⟩, ⟨1, 1, 1⟩, 0, 2, 1⟩,
       ⟨⟨"ref", "inference", "ref_inf"⟩, ⟨[0, 1], 1⟩, ⟨2, 1, 1⟩, 0, 2, 1⟩]).rpcExeGroups =
      [[⟨⟨"actor", "generate", "gen"⟩, ⟨[0], 1⟩, ⟨1, 1, 1⟩, 0, 2, 1⟩,
        ⟨⟨"ref", "inference", "ref_inf"⟩, ⟨[0, 1], 1⟩, ⟨2, 1, 1⟩, 0, 2, 1⟩],
       [⟨⟨"critic", "inference", "inf"⟩, ⟨[1], 1⟩, ⟨1, 1, 1⟩, 0, 2, 1⟩,
        ⟨⟨"ref", "inference", "ref_inf"⟩, ⟨[0, 1], 1⟩, ⟨2, 1, 1⟩, 0, 2, 1⟩]] := by
  decide

end ReaLHF.Profiler
