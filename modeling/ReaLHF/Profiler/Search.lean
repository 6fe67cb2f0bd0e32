/-
The search loop of `enumerate_model_device_mappings` (`profiler/enumerate.py`,
lines 99-158): an odometer over one cursor per RPC, pruned by the running memory total.

# The loop as a step function

One turn of the outer `while True` is `searchStep`:

1. `scanAssignment` is the inner `for` loop. It adds the candidate each cursor selects to a
   fresh `GroupedRPCExecutions`, in priority order, and stops at the first RPC `bi` whose
   add pushes `total_mem_cost()` over the threshold.
2. An assignment with no such `bi` counts as valid; `bi` then defaults to the last RPC.
3. `carry` is the `while bi >= 0` loop: it increments the cursor at `bi`, or moves left
   while the cursor there is already at its list's last candidate.
4. `resetAfter` zeroes every cursor right of where the carry stopped (all of them when it
   ran past the first RPC, which is the loop's exhaustion exit).

`searchLoop` runs steps under explicit fuel until the carry runs out or `inner_count`
reaches the budget. The budget is `Option Nat`: `some innerBudget` is the code's
`inner_count >= 200000`, `none` the loop with that test removed.

The table is already in priority order: `table[i]` is
`rpc_exe_table[sorted_model_rpc_names[i]]`. Building it (cost estimation, the sort by
average top-10 time) and the printing and timing around the loop are not modelled.
-/
import ReaLHF.Profiler.Grouped

namespace ReaLHF.Profiler

-- ================================================================ constants

/-- `GPU_MEM_CAP = 80 * (1024**3)`. -/
def gpuMemCap : Int := 80 * 1024 ^ 3

/-- `GPU_MEM_CAP * 1.2`. In double precision the product rounds to exactly `96 GiB`
(`80 · 2^30 · fl(1.2)` lies `2^-18` below it and the spacing there is `2^-16`), so an int
exceeds the float iff it exceeds this. -/
def memThreshold : Int := 96 * 1024 ^ 3

/-- The inner-iteration budget of `inner_count >= 200000`. -/
def innerBudget : Nat := 200000

-- ==================================================================== state

/-- The loop's live variables: the cursors `index` and the three counters. -/
structure SearchState where
  index : List Nat
  count : Nat
  innerCount : Nat
  validCount : Nat
  deriving DecidableEq, Repr

/-- The state before the first turn: every cursor at its list's first candidate. -/
def searchInit (n : Nat) : SearchState :=
  ⟨List.replicate n 0, 0, 0, 0⟩

/-- `inner_count >= budget`, never true without a budget. -/
def budgetHit : Option Nat → Nat → Bool
  | none, _ => false
  | some b, innerCount => decide (b ≤ innerCount)

-- ============================================================== one assignment

variable (isAllOverlap : List DeviceMesh → DeviceMesh → Bool) (threshold : Int)

/-- The inner loop from RPC `i` on, continuing the running grouping `g`: `none` when
`rpc_exe_table[...][index[i]]` raises, `some none` when no running total exceeds the
threshold, `some (some bi)` when the first one to do so is after RPC `bi`'s add. -/
def scanAssignment (g : GroupedRPCExecutions) (i : Nat) :
    List (List RPCExecution) → List Nat → Option (Option Nat)
  | [], _ => some none
  | _ :: _, [] => none
  | cands :: table, k :: index =>
    match cands[k]? with
    | none => none
    | some e =>
      if threshold < (g.add isAllOverlap e).totalMemCost then some (some i)
      else scanAssignment (g.add isAllOverlap e) (i + 1) table index

-- ==================================================================== carry

/-- The carry loop `while bi >= 0` from cursor `bi`: the position it increments with the
incremented cursors, or `none` when the carry runs past the first RPC. -/
def carry (lens index : List Nat) (bi : Nat) : Option (Nat × List Nat) :=
  if index.getD bi 0 + 1 < lens.getD bi 0 then
    some (bi, index.set bi (index.getD bi 0 + 1))
  else
    match bi with
    | 0 => none
    | b + 1 => carry lens index b

/-- `for j in range(k, len(index)): index[j] = 0`. -/
def resetAfter (index : List Nat) (k : Nat) : List Nat :=
  index.take k ++ List.replicate (index.length - k) 0

-- ===================================================================== loop

/-- One turn of the outer loop: the next state and `outer_loop_break_flag`, or `none`
when a candidate list is indexed out of range. -/
def searchStep (table : List (List RPCExecution)) (s : SearchState) :
    Option (SearchState × Bool) := do
  let r ← scanAssignment isAllOverlap threshold ⟨[]⟩ 0 table s.index
  let n := table.length
  let validCount := if r.isNone then s.validCount + 1 else s.validCount
  let innerCount := s.innerCount + (match r with | none => n | some bi => bi + 1)
  match carry (table.map List.length) s.index (r.getD (n - 1)) with
  | some (b, index) =>
    some (⟨resetAfter index (b + 1), s.count + 1, innerCount, validCount⟩, false)
  | none => some (⟨resetAfter s.index 0, s.count + 1, innerCount, validCount⟩, true)

/-- The outer loop under `fuel` turns: the final state and whether it exited through the
exhausted carry (rather than the budget); `none` on an out-of-range index or when the
fuel runs out. -/
def searchLoop (budget : Option Nat) (table : List (List RPCExecution)) :
    Nat → SearchState → Option (SearchState × Bool)
  | 0, _ => none
  | fuel + 1, s => do
    let (s', outer) ← searchStep isAllOverlap threshold table s
    if outer || budgetHit budget s'.innerCount then some (s', outer)
    else searchLoop budget table fuel s'

/-- `enumerate_model_device_mappings`' search over a priority-ordered table, with the
code's threshold and budget. -/
def enumerateModelDeviceMappings (table : List (List RPCExecution)) (fuel : Nat) :
    Option (SearchState × Bool) :=
  searchLoop isAllOverlap memThreshold (some innerBudget) table fuel (searchInit table.length)

end ReaLHF.Profiler
