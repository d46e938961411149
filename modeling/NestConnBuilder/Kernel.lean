import Mathlib

/-!
# Virtual processes, node ownership and the edges handed to storage

NEST distributes the nodes of a network over MPI ranks and, inside a rank, over
worker threads. One (rank, thread) pair is a *virtual process* (VP). Every node
lives on exactly one VP; on every other VP the node manager hands out a proxy
for it. A connection builder runs the same loop on every VP, inside an
`omp parallel` region on each rank, and a VP only ever creates edges whose
target (or, for the structural-plasticity counters, whose endpoint) it owns.

This module fixes that picture once for every rule. A `Decomposition` places
each node id on its owning VP, `workers` enumerates the VPs, and `Edge` is the
record a VP passes to `connection_manager.connect`. The builders' loops are
modelled per VP in the later modules; what is emitted "over all ranks and
threads" is the concatenation of the per-VP outputs over `workers`.

## Main results

* `sum_workers_owner`, `sum_workers_sum_owner` — a quantity that only the
  owner of a node contributes is counted once when summed over all VPs.
* `perm_flatMap_owned_blocks` — when every VP keeps the blocks of the elements
  of one list that it owns, the VPs together keep all the blocks once, up to
  order.
-/

namespace NestConnBuilder

/-- How the kernel places nodes: `numRanks` MPI processes with `numThreads`
threads each, `numNodes` nodes with ids `1 .. numNodes`, and every node id on
exactly one virtual process `owner n`. -/
structure Decomposition where
  numRanks : Nat
  numThreads : Nat
  numNodes : Nat
  owner : Nat → Nat
  owner_lt : ∀ n, owner n < numRanks * numThreads

/-- One call of `kernel().connection_manager.connect`: source id, target id,
the thread whose connection table receives the edge, and the position at
which every array-valued parameter was read for it. -/
structure Edge where
  src : Nat
  tgt : Nat
  thread : Nat
  pos : Nat
deriving DecidableEq, Repr

/-- The connection an edge stands for, without its placement. -/
def Edge.pair (e : Edge) : Nat × Nat := (e.src, e.tgt)

/-- The connection with the thread that stores it, without the parameter position. -/
def Edge.placed (e : Edge) : Nat × Nat × Nat := (e.src, e.tgt, e.thread)

namespace Decomposition

variable (d : Decomposition)

/-- `kernel().vp_manager.get_num_virtual_processes()`. -/
def numVps : Nat := d.numRanks * d.numThreads

/-- Every virtual process, each running the builder's parallel region once. -/
def workers : List Nat := List.range d.numVps

theorem owner_mem_workers (n : Nat) : d.owner n ∈ d.workers :=
  List.mem_range.2 (d.owner_lt n)

theorem nodup_workers : d.workers.Nodup := List.nodup_range _

/-- `kernel().node_manager.get_local_nodes( tid )` on VP `w`: the nodes it
owns, in id order. -/
def localNodes (w : Nat) : List Nat :=
  (List.range' 1 d.numNodes).filter fun n => d.owner n = w

/-- The decomposition with a single virtual process: one rank, one thread. -/
def single (numNodes : Nat) : Decomposition :=
  ⟨1, 1, numNodes, fun _ => 0, fun _ => Nat.one_pos⟩

/-- NEST's round-robin placement: node `n` on virtual process `n % numVps`. -/
def roundRobin (numRanks numThreads numNodes : Nat) (h : 0 < numRanks * numThreads) :
    Decomposition :=
  ⟨numRanks, numThreads, numNodes, fun n => n % (numRanks * numThreads),
    fun n => Nat.mod_lt n h⟩

@[simp] theorem single_workers (numNodes : Nat) : (single numNodes).workers = [0] := rfl

@[simp] theorem single_owner (numNodes n : Nat) : (single numNodes).owner n = 0 := rfl

end Decomposition

/-! ## Node collections -/

/-- `NodeCollection::get_lid( node_id )`: the position of a node in the
collection, `none` where the source returns a negative index. -/
def getLid (ids : List Nat) (n : Nat) : Option Nat :=
  if n ∈ ids then some (ids.indexOf n) else none

/-- `NodeCollection::is_range()`: the ids form one contiguous ascending block. -/
def isRange (ids : List Nat) : Bool :=
  ids == List.range' (ids.headD 0) ids.length

/-- `ConnBuilder::loop_over_targets_()`: iterate the target collection unless
it is the contiguous range of all nodes and no parameter needs skipping. -/
def Decomposition.loopOverTargets (d : Decomposition) (targets : List Nat) (skipping : Bool) :
    Bool :=
  decide (targets.length < d.numNodes) || !isRange targets || skipping

@[simp] theorem Decomposition.loopOverTargets_of_skipping (d : Decomposition)
    (targets : List Nat) : d.loopOverTargets targets true = true := by
  simp [Decomposition.loopOverTargets]

/-- Outside the target loop, a collection of valid node ids is the range of
all nodes, and no parameter needs skipping. -/
theorem Decomposition.eq_range_of_not_loopOverTargets (d : Decomposition) (targets : List Nat)
    (skipping : Bool) (hvalid : ∀ n ∈ targets, 1 ≤ n ∧ n ≤ d.numNodes)
    (h : d.loopOverTargets targets skipping = false) :
    targets = List.range' 1 d.numNodes ∧ skipping = false := by
  simp only [Decomposition.loopOverTargets, Bool.or_eq_false_iff, decide_eq_false_iff_not,
    Nat.not_lt, Bool.not_eq_false', isRange, beq_iff_eq] at h
  obtain ⟨⟨hlen, hr⟩, hs⟩ := h
  refine ⟨?_, hs⟩
  rw [hr] at hvalid ⊢
  rcases Nat.eq_zero_or_pos targets.length with h0 | hpos
  · rw [h0, show d.numNodes = 0 by omega]
    rfl
  · have hfirst := hvalid _ (List.mem_range'_1.2 ⟨le_rfl, by omega⟩)
    have hlast := hvalid (targets.headD 0 + targets.length - 1) (List.mem_range'_1.2 ⟨by omega, by omega⟩)
    rw [show targets.headD 0 = 1 by omega, show targets.length = d.numNodes by omega]

/-! ## Selecting by a test -/

/-- A loop that emits one value for the elements passing a test emits the
values of the filtered list. -/
theorem flatMap_ite_singleton {α β : Type*} (p : α → Bool) (f : α → β) (l : List α) :
    (l.flatMap fun a => if p a then [f a] else []) = (l.filter p).map f := by
  induction l with
  | nil => rfl
  | cons a l ih => by_cases h : p a <;> simp [List.filter_cons, h, ih]

/-- A loop over the elements passing a test is the loop over all of them that
does nothing for the others. -/
theorem flatMap_filter_eq_ite {α β : Type*} (p : α → Bool) (f : α → List β) (l : List α) :
    (l.filter p).flatMap f = l.flatMap fun a => if p a then f a else [] := by
  induction l with
  | nil => rfl
  | cons a l ih => by_cases h : p a <;> simp [List.filter_cons, h, ih]

/-! ## Exactly one owner -/

section Owner

variable {M : Type*} [AddCommMonoid M]

/-- In a duplicate-free list that contains `x`, the indicator of `x` sums to
its value. -/
theorem sum_map_ite_eq_of_nodup {x : Nat} (v : M) :
    ∀ {l : List Nat}, l.Nodup → x ∈ l → (l.map fun w => if x = w then v else 0).sum = v
  | a :: l, hnd, hx => by
    rw [List.nodup_cons] at hnd
    rcases List.mem_cons.1 hx with rfl | hx
    · have hzero : (l.map fun w => if x = w then v else 0).sum = 0 :=
        List.sum_eq_zero fun y hy => by
          obtain ⟨w, hw, rfl⟩ := List.mem_map.1 hy
          exact if_neg fun (h : x = w) => hnd.1 (h ▸ hw)
      rw [List.map_cons, List.sum_cons, if_pos rfl, hzero, add_zero]
    · have hne : x ≠ a := fun h => hnd.1 (h ▸ hx)
      rw [List.map_cons, List.sum_cons, if_neg hne, sum_map_ite_eq_of_nodup v hnd.2 hx, zero_add]

theorem Decomposition.sum_workers_owner (d : Decomposition) (n : Nat) (v : M) :
    (d.workers.map fun w => if d.owner n = w then v else 0).sum = v :=
  sum_map_ite_eq_of_nodup v d.nodup_workers (d.owner_mem_workers n)

/-- Summing over VPs a sum over a list in which each element counts only on
the VP owning its key counts every element once. -/
theorem Decomposition.sum_workers_sum_owner {α : Type*} (d : Decomposition) (key : α → Nat)
    (f : α → M) (l : List α) :
    (d.workers.map fun w => (l.map fun a => if d.owner (key a) = w then f a else 0).sum).sum
      = (l.map f).sum := by
  induction l with
  | nil => simp only [List.map_nil, List.sum_nil, List.map_const', List.sum_replicate, smul_zero]
  | cons a l ih => simp only [List.map_cons, List.sum_cons, List.sum_map_add, ih, d.sum_workers_owner]

end Owner

/-- Concatenating over a duplicate-free list that contains `x` the lists of
`f`, empty away from `x`, gives the list at `x`. -/
theorem flatMap_eq_of_nodup {β : Type*} {x : Nat} (f : Nat → List β) :
    ∀ {l : List Nat}, l.Nodup → x ∈ l → (∀ w ∈ l, x ≠ w → f w = []) → l.flatMap f = f x
  | a :: l, hnd, hx, hf => by
    rw [List.nodup_cons] at hnd
    rw [List.flatMap_cons]
    rcases List.mem_cons.1 hx with rfl | hx
    · rw [List.flatMap_eq_nil_iff.2 fun w hw =>
        hf w (List.mem_cons_of_mem _ hw) fun h => hnd.1 (h ▸ hw), List.append_nil]
    · rw [hf a (List.mem_cons_self a l) fun h => hnd.1 (h ▸ hx),
        flatMap_eq_of_nodup f hnd.2 hx fun w hw => hf w (List.mem_cons_of_mem _ hw), List.nil_append]

/-- The lists of the VPs, empty away from the owner of `n`, concatenate to
the owner's list. -/
theorem Decomposition.flatMap_workers_owner {β : Type*} (d : Decomposition) (n : Nat)
    (f : Nat → List β) (hf : ∀ w ∈ d.workers, d.owner n ≠ w → f w = []) :
    d.workers.flatMap f = f (d.owner n) :=
  flatMap_eq_of_nodup f d.nodup_workers (d.owner_mem_workers n) hf

/-- When every VP keeps, of each element of `l`, its block `f a` if it owns the
element's key, the VPs together keep every block once. -/
theorem Decomposition.perm_flatMap_owned_blocks {α β : Type*} (d : Decomposition)
    (key : α → Nat) (f : α → List β) (l : List α) :
    (d.workers.flatMap fun w =>
      l.flatMap fun a => if d.owner (key a) = w then f a else []).Perm (l.flatMap f) := by
  classical
  rw [List.perm_iff_count]
  intro x
  have hone : ∀ w a, (if d.owner (key a) = w then f a else []).count x
      = if d.owner (key a) = w then (f a).count x else 0 := by
    intro w a; split <;> rfl
  simp only [List.count_flatMap, Function.comp_def, hone, d.sum_workers_sum_owner]

/-- When every VP keeps, of each element of `l`, its image if it owns the
element's key, the VPs together keep every image once. -/
theorem Decomposition.perm_flatMap_owned {α β : Type*} (d : Decomposition)
    (key : α → Nat) (f : α → β) (l : List α) :
    (d.workers.flatMap fun w =>
      l.flatMap fun a => if d.owner (key a) = w then [f a] else []).Perm (l.map f) := by
  rw [List.map_eq_flatMap]
  exact d.perm_flatMap_owned_blocks key (fun a => [f a]) l

end NestConnBuilder
