/-
`GroupedRPCExecutions` (`profiler/enumerate.py`, lines 13-47): the memory accounting of
the placement search, which groups the chosen executions by mesh overlap and charges each
group the memory its members share.

# The state

The source keeps five parallel lists — `rpc_exe_groups`, `rpc_exe_group_models`,
`mem_static`, `mem_active`, `mem_costs` — that `add` always extends together and reads
at the same index `i`. `ExeGroup` is one index of all five; `GroupedRPCExecutions` is the
list of them, and `rpcExeGroups` projects the source's first list back out.

`add`'s loop has no `break`: the new execution joins EVERY group whose member meshes
`is_all_overlap` accepts, and seeds a new group only when it joins none. Its test
`is_all_overlap` lives in the missing `profiler/device_mesh.py`, so it is the section
variable `isAllOverlap` here.

# The cost bound

`mem_costs[i]` is written on two paths: the seed path stores `mem`, the join path stores
`sum(mem_static[i]) + max(mem_active[i])`. `ExeGroup.CostBounded` is the fact both paths
keep: the stored cost is at most the join path's recomputation, and the active list is
non-empty. Both summands only grow under a join, so the stored cost only grows, and every
total along a run of adds is at least the one before it.
-/
import ReaLHF.Profiler.Rpc

namespace ReaLHF.Profiler

-- ================================================================ list max

/-- Python's `max` over a list of ints; `add` only takes it of non-empty lists, where it
is the largest element. -/
def listMax : List Int → Int
  | [] => 0
  | x :: xs => xs.foldr max x

theorem listMax_mem {xs : List Int} (h : xs ≠ []) : listMax xs ∈ xs := by
  obtain ⟨x, xs, rfl⟩ := List.exists_cons_of_ne_nil h
  induction xs with
  | nil => simp [listMax]
  | cons y ys ih =>
    simp only [listMax, List.foldr_cons, List.mem_cons] at ih ⊢
    rcases max_choice y (ys.foldr max x) with hm | hm <;> rw [hm]
    · simp
    · rcases ih (by simp) with h | h <;> simp [h]

theorem le_listMax {xs : List Int} {y : Int} (hy : y ∈ xs) : y ≤ listMax xs := by
  obtain ⟨x, xs, rfl⟩ := List.exists_cons_of_ne_nil (List.ne_nil_of_mem hy)
  induction xs with
  | nil => simp_all [listMax]
  | cons z zs ih =>
    simp only [listMax, List.foldr_cons, List.mem_cons] at ih hy ⊢
    rcases hy with rfl | rfl | hy
    · exact le_max_of_le_right (ih (.inl rfl))
    · exact le_max_left _ _
    · exact le_max_of_le_right (ih (.inr hy))

/-- A list whose every element is dominated by one of `ys` has a max below `ys`'s. -/
theorem listMax_le_listMax {xs ys : List Int} (hxs : xs ≠ [])
    (hdom : ∀ x ∈ xs, ∃ y ∈ ys, x ≤ y) : listMax xs ≤ listMax ys := by
  obtain ⟨y, hy, hle⟩ := hdom _ (listMax_mem hxs)
  exact hle.trans (le_listMax hy)

/-- The join path's update of entry `j` only raises entries. -/
theorem le_set_max (xs : List Int) (j : Nat) (a : Int) {x : Int} (hx : x ∈ xs) :
    ∃ y ∈ xs.set j (max (xs.getD j 0) a), x ≤ y := by
  obtain ⟨i, hi, rfl⟩ := List.mem_iff_getElem.1 hx
  refine ⟨_, List.getElem_mem (by simpa using hi), ?_⟩
  rw [List.getElem_set]
  split
  · subst_vars
    simp [List.getElem?_eq_getElem hi]
  · exact le_rfl

theorem sum_le_sum_set_max (xs : List Int) (j : Nat) (a : Int) :
    xs.sum ≤ (xs.set j (max (xs.getD j 0) a)).sum := by
  induction xs generalizing j with
  | nil => simp
  | cons x xs ih => cases j <;> simp_all

-- =================================================================== state

/-- One group: the `i`-th entries of the source's five parallel lists. -/
structure ExeGroup where
  exes : List RPCExecution
  models : List String
  memStatic : List Int
  memActive : List Int
  memCost : Int
  deriving DecidableEq, Repr

/-- `GroupedRPCExecutions`; `__init__` is `⟨[]⟩`. -/
structure GroupedRPCExecutions where
  groups : List ExeGroup
  deriving DecidableEq, Repr

/-- The source's `rpc_exe_groups`. -/
def GroupedRPCExecutions.rpcExeGroups (s : GroupedRPCExecutions) :
    List (List RPCExecution) :=
  s.groups.map (·.exes)

/-- `total_mem_cost`: `sum(self.mem_costs)`. -/
def GroupedRPCExecutions.totalMemCost (s : GroupedRPCExecutions) : Int :=
  (s.groups.map (·.memCost)).sum

variable (isAllOverlap : List DeviceMesh → DeviceMesh → Bool)

/-- The test of `add`'s loop: `is_all_overlap` of the group's member meshes. -/
def ExeGroup.overlaps (g : ExeGroup) (e : RPCExecution) : Bool :=
  isAllOverlap (g.exes.map (·.deviceMesh)) e.deviceMesh

/-- Lines 27-35 of `add`'s loop body: append the execution to the group and insert its
model's entries, or max-update them when the model is already in the group. -/
def ExeGroup.record (g : ExeGroup) (e : RPCExecution) : ExeGroup :=
  if e.rpc.modelName ∉ g.models then
    { g with exes := g.exes ++ [e], models := g.models ++ [e.rpc.modelName],
             memStatic := g.memStatic ++ [e.mem],
             memActive := g.memActive ++ [e.mem - e.staticMem] }
  else
    let j := g.models.indexOf e.rpc.modelName
    { g with exes := g.exes ++ [e],
             memStatic := g.memStatic.set j (max (g.memStatic.getD j 0) e.mem),
             memActive :=
               g.memActive.set j (max (g.memActive.getD j 0) (e.mem - e.staticMem)) }

/-- The loop body of `add` for a group the execution overlaps (lines 27-36): record it,
then recompute the group's cost as `sum(mem_static[i]) + max(mem_active[i])`. -/
def ExeGroup.join (g : ExeGroup) (e : RPCExecution) : ExeGroup :=
  let g' := g.record e
  { g' with memCost := g'.memStatic.sum + listMax g'.memActive }

/-- The singleton group `add` appends when the execution overlaps no group
(lines 40-44). -/
def ExeGroup.seed (e : RPCExecution) : ExeGroup :=
  ⟨[e], [e.rpc.modelName], [e.mem], [e.mem - e.staticMem], e.mem⟩

/-- `add`: every overlapped group is joined; a new group is seeded only when none is. -/
def GroupedRPCExecutions.add (s : GroupedRPCExecutions) (e : RPCExecution) :
    GroupedRPCExecutions :=
  let groups := s.groups.map fun g => if g.overlaps isAllOverlap e then g.join e else g
  if s.groups.any (·.overlaps isAllOverlap e) then ⟨groups⟩
  else ⟨groups ++ [ExeGroup.seed e]⟩

/-- The executions added one by one, in list order. -/
def GroupedRPCExecutions.addAll (s : GroupedRPCExecutions) (es : List RPCExecution) :
    GroupedRPCExecutions :=
  es.foldl (·.add isAllOverlap ·) s

@[simp] theorem addAll_nil (s : GroupedRPCExecutions) : s.addAll isAllOverlap [] = s := rfl

@[simp] theorem addAll_cons (s : GroupedRPCExecutions) (e : RPCExecution)
    (es : List RPCExecution) :
    s.addAll isAllOverlap (e :: es) = (s.add isAllOverlap e).addAll isAllOverlap es := rfl

theorem addAll_append (s : GroupedRPCExecutions) (es es' : List RPCExecution) :
    s.addAll isAllOverlap (es ++ es') = (s.addAll isAllOverlap es).addAll isAllOverlap es' :=
  List.foldl_append _ _ _ _

@[simp] theorem totalMemCost_mk_append (gs gs' : List ExeGroup) :
    (GroupedRPCExecutions.mk (gs ++ gs')).totalMemCost =
      (GroupedRPCExecutions.mk gs).totalMemCost + (GroupedRPCExecutions.mk gs').totalMemCost := by
  simp [GroupedRPCExecutions.totalMemCost]

end ReaLHF.Profiler
