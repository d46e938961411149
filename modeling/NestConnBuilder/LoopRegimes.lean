import NestConnBuilder.OneToOne
import NestConnBuilder.AllToAll
import NestConnBuilder.Bernoulli
import NestConnBuilder.FixedInDegree

/-!
# The two iteration regimes, and the edges of the deterministic rules

`ConnBuilder::loop_over_targets_()` sends `OneToOneBuilder`, `AllToAllBuilder`,
`BernoulliBuilder` and `FixedInDegreeBuilder` down one of two loops. The target
loop walks the whole target collection on every thread and skips the array
cursors for targets the thread sees only as proxies. The local-node loop walks
the thread's own nodes, in id order, and never skips. It is taken only when the
targets are all the nodes, as one range, and no parameter needs skipping.
There the two loops make the same storage calls from the same stream, and the
skips of the target loop are all that tells them apart.

## Main results

* `local_loop_agrees_with_target_loop` — where the local-node loop is taken,
  it makes on every thread the calls of the target loop, from the same stream,
  for the four rules.
* `connect_exact_edges` — in either regime, with no VP raising, one-to-one
  creates each admitted index pair once and all-to-all each admitted pair of
  `S × T` once; Bernoulli creates, for every stream and storage, each admitted
  pair at most once.
-/

namespace NestConnBuilder.LoopRegimes

open NestConnBuilder

variable (d : Decomposition)

/-- Where the local-node loop is taken, over valid targets, they are all the
nodes. -/
private theorem targets_eq_range {targets : List Nat} {skipping : Bool}
    (hvalid : ∀ n ∈ targets, 1 ≤ n ∧ n ≤ d.numNodes) (hl : d.loopOverTargets targets skipping = false) :
    targets = List.range' 1 d.numNodes :=
  (d.eq_range_of_not_loopOverTargets targets skipping hvalid hl).1

/-- Over the range of all nodes, a one-to-one pass in the local-node loop ends
in a state agreeing with the target-loop pass. -/
theorem oneToOne_pass_agrees (st : Storage) (allowAutapses : Bool) (sources targets : List Nat)
    (hlen : sources.length = targets.length) (hT : targets = List.range' 1 d.numNodes) (w : Nat) :
    (Worker.pass st (OneToOne.connect d allowAutapses true sources targets) w).Agree
      (Worker.pass st (OneToOne.connect d allowAutapses false sources targets) w) := by
  rw [Worker.pass, Worker.pass, OneToOne.connect_local_eq_filter d allowAutapses sources targets w hlen hT]
  exact Worker.Agree.run_filter_skip st _ (Worker.Agree.refl _)

/-- The same for an all-to-all pass. -/
theorem allToAll_pass_agrees (st : Storage) (allowAutapses : Bool) (sources targets : List Nat)
    (hT : targets = List.range' 1 d.numNodes) (w : Nat) :
    (Worker.pass st (AllToAll.connect d allowAutapses true sources targets) w).Agree
      (Worker.pass st (AllToAll.connect d allowAutapses false sources targets) w) := by
  rw [Worker.pass, Worker.pass, AllToAll.connect_local_eq_filter d allowAutapses sources targets w hT]
  exact Worker.Agree.run_filter_skip st _ (Worker.Agree.refl _)

/-- **The local-node loop is the target loop without its skips.** Where
`loop_over_targets_()` is false, over valid targets, on every thread:
`OneToOneBuilder` (equal sizes) and `AllToAllBuilder` make the target loop's
calls with the skips left out, and so end, with any storage, in a state
agreeing with it; `BernoulliBuilder` and `FixedInDegreeBuilder` (with an
in-degree that draws nothing) end, from any stream state, in agreeing states
with the same stream, or, for the in-degree rule, both do not end. -/
theorem local_loop_agrees_with_target_loop (st : Storage) (skipping allowAutapses allowMultapses : Bool)
    (sources targets : List Nat) (hvalid : ∀ n ∈ targets, 1 ≤ n ∧ n ≤ d.numNodes)
    (hl : d.loopOverTargets targets skipping = false) (w : Nat) :
    (sources.length = targets.length →
      OneToOne.connect d allowAutapses false sources targets w
          = (OneToOne.connect d allowAutapses true sources targets w).filter (fun a => !a.isSkip) ∧
        (Worker.pass st (OneToOne.connect d allowAutapses true sources targets) w).Agree
          (Worker.pass st (OneToOne.connect d allowAutapses false sources targets) w)) ∧
    (AllToAll.connect d allowAutapses false sources targets w
          = (AllToAll.connect d allowAutapses true sources targets w).filter (fun a => !a.isSkip) ∧
        (Worker.pass st (AllToAll.connect d allowAutapses true sources targets) w).Agree
          (Worker.pass st (AllToAll.connect d allowAutapses false sources targets) w)) ∧
    (∀ {σ : Type} (drand : σ → ℚ × σ) (pValue : Nat → σ → Construction.Double × σ)
        (paramDraw : σ → σ) (g : σ),
      Option.Rel (fun q₁ q₂ => q₁.1.Agree q₂.1 ∧ q₁.2 = q₂.2)
        (Bernoulli.connect d drand pValue paramDraw st allowAutapses true sources targets w g)
        (Bernoulli.connect d drand pValue paramDraw st allowAutapses false sources targets w g)) ∧
    (∀ {σ : Type} (ulrand : Nat → σ → Nat × σ) (paramDraw : σ → σ) (fuel : Nat) (k : Nat → Nat)
        (g : σ),
      Option.Rel (fun q₁ q₂ => q₁.1.Agree q₂.1 ∧ q₁.2 = q₂.2)
        (FixedInDegree.connect d ulrand paramDraw st fuel allowAutapses allowMultapses true sources
          targets (fun t g => (k t, g)) w g)
        (FixedInDegree.connect d ulrand paramDraw st fuel allowAutapses allowMultapses false sources
          targets (fun t g => (k t, g)) w g)) := by
  have hT := targets_eq_range d hvalid hl
  exact ⟨fun hlen => ⟨OneToOne.connect_local_eq_filter d allowAutapses sources targets w hlen hT,
      oneToOne_pass_agrees d st allowAutapses sources targets hlen hT w⟩,
    ⟨AllToAll.connect_local_eq_filter d allowAutapses sources targets w hT,
      allToAll_pass_agrees d st allowAutapses sources targets hT w⟩,
    fun drand pValue paramDraw g =>
      Bernoulli.connect_target_agrees_local d drand pValue paramDraw st allowAutapses sources targets w g hT,
    fun ulrand paramDraw fuel k g =>
      FixedInDegree.connect_target_agrees_local d ulrand paramDraw st fuel allowAutapses allowMultapses
        sources targets k w g hT⟩

/-- Two VPs (node `n` on VP `n % 2`), the three nodes as targets, so the
local-node loop, on VP 0. -/
theorem local_loop_agrees_three_nodes :
    (([3, 1, 2] : List Nat).length = ([1, 2, 3] : List Nat).length →
      OneToOne.connect (Decomposition.roundRobin 1 2 3 (by decide)) false false [3, 1, 2] [1, 2, 3] 0
          = (OneToOne.connect (Decomposition.roundRobin 1 2 3 (by decide)) false true [3, 1, 2] [1, 2, 3]
              0).filter (fun a => !a.isSkip) ∧
        (Worker.pass Storage.total (OneToOne.connect (Decomposition.roundRobin 1 2 3 (by decide)) false
            true [3, 1, 2] [1, 2, 3]) 0).Agree
          (Worker.pass Storage.total (OneToOne.connect (Decomposition.roundRobin 1 2 3 (by decide)) false
            false [3, 1, 2] [1, 2, 3]) 0)) ∧
    (AllToAll.connect (Decomposition.roundRobin 1 2 3 (by decide)) false false [3, 1, 2] [1, 2, 3] 0
          = (AllToAll.connect (Decomposition.roundRobin 1 2 3 (by decide)) false true [3, 1, 2] [1, 2, 3]
              0).filter (fun a => !a.isSkip) ∧
        (Worker.pass Storage.total (AllToAll.connect (Decomposition.roundRobin 1 2 3 (by decide)) false
            true [3, 1, 2] [1, 2, 3]) 0).Agree
          (Worker.pass Storage.total (AllToAll.connect (Decomposition.roundRobin 1 2 3 (by decide)) false
            false [3, 1, 2] [1, 2, 3]) 0)) ∧
    (∀ {σ : Type} (drand : σ → ℚ × σ) (pValue : Nat → σ → Construction.Double × σ)
        (paramDraw : σ → σ) (g : σ),
      Option.Rel (fun q₁ q₂ => q₁.1.Agree q₂.1 ∧ q₁.2 = q₂.2)
        (Bernoulli.connect (Decomposition.roundRobin 1 2 3 (by decide)) drand pValue paramDraw
          Storage.total false true [3, 1, 2] [1, 2, 3] 0 g)
        (Bernoulli.connect (Decomposition.roundRobin 1 2 3 (by decide)) drand pValue paramDraw
          Storage.total false false [3, 1, 2] [1, 2, 3] 0 g)) ∧
    (∀ {σ : Type} (ulrand : Nat → σ → Nat × σ) (paramDraw : σ → σ) (fuel : Nat) (k : Nat → Nat)
        (g : σ),
      Option.Rel (fun q₁ q₂ => q₁.1.Agree q₂.1 ∧ q₁.2 = q₂.2)
        (FixedInDegree.connect (Decomposition.roundRobin 1 2 3 (by decide)) ulrand paramDraw
          Storage.total fuel false true true [3, 1, 2] [1, 2, 3] (fun t g => (k t, g)) 0 g)
        (FixedInDegree.connect (Decomposition.roundRobin 1 2 3 (by decide)) ulrand paramDraw
          Storage.total fuel false true false [3, 1, 2] [1, 2, 3] (fun t g => (k t, g)) 0 g)) :=
  local_loop_agrees_with_target_loop (Decomposition.roundRobin 1 2 3 (by decide)) Storage.total false false
    true [3, 1, 2] [1, 2, 3] (by decide) (by decide) 0

/-! ## The edges over all VPs -/

/-- With no VP raising, the connections of a rule whose passes agree, in the
selected regime, with failure-free target-loop passes are those of the target
loop. -/
private theorem placed_of_agree (st : Storage) (acts₁ acts₂ : Nat → List Action)
    (hag : ∀ w, (Worker.pass st acts₁ w).Agree (Worker.pass st acts₂ w))
    (hok : ∀ w ∈ d.workers, (Worker.pass st acts₁ w).failed = false) :
    (d.workers.flatMap fun w => (Worker.pass st acts₁ w).edges.map Edge.placed)
        = d.workers.flatMap (fun w => (acts₂ w).flatMap Action.connection) := by
  refine List.flatMap_congr fun w hw => ?_
  have hok₂ : (Worker.pass st acts₂ w).failed = false := (hag w).2.2.2.2 ▸ hok w hw
  rw [(hag w).1, Worker.pass_eq_exec st acts₂ hok₂, Worker.exec_edges, Worker.init, List.nil_append,
    emitted_placed]

/-- **Exact edges.** Over valid targets, in the regime `loop_over_targets_()`
selects: with no VP raising, `OneToOneBuilder` (equal sizes) creates each
admitted index pair `s_i → t_i` once and `AllToAllBuilder` each admitted pair of
`S × T` once, each by the thread owning its target, and nothing else; and
`BernoulliBuilder`, for any streams and storage, ends on every VP with a
sub-multiset of the admitted pairs of `S × T` on their targets' threads, none
twice for duplicate-free collections. -/
theorem connect_exact_edges (st : Storage) (skipping allowAutapses : Bool) (sources targets : List Nat)
    (hvalid : ∀ n ∈ targets, 1 ≤ n ∧ n ≤ d.numNodes) :
    (sources.length = targets.length →
      (∀ w ∈ d.workers, (Worker.pass st (OneToOne.connect d allowAutapses
        (d.loopOverTargets targets skipping) sources targets) w).failed = false) →
      (d.workers.flatMap fun w => (Worker.pass st (OneToOne.connect d allowAutapses
          (d.loopOverTargets targets skipping) sources targets) w).edges.map Edge.placed).Perm
        (((sources.zip targets).filter (Structural.admitted allowAutapses)).map
          fun p => (p.1, p.2, d.owner p.2))) ∧
    ((∀ w ∈ d.workers, (Worker.pass st (AllToAll.connect d allowAutapses
        (d.loopOverTargets targets skipping) sources targets) w).failed = false) →
      (d.workers.flatMap fun w => (Worker.pass st (AllToAll.connect d allowAutapses
          (d.loopOverTargets targets skipping) sources targets) w).edges.map Edge.placed).Perm
        (Bernoulli.admittedEdges d allowAutapses sources targets)) ∧
    (∀ {σ : Type} (drand : σ → ℚ × σ) (pValue : Nat → σ → Construction.Double × σ)
        (paramDraw : σ → σ) (g : Nat → σ),
      ∃ q : Nat → Worker × σ,
        (∀ w ∈ d.workers, Bernoulli.connect d drand pValue paramDraw st allowAutapses
          (d.loopOverTargets targets skipping) sources targets w (g w) = some (q w)) ∧
        (d.workers.flatMap fun w => (q w).1.edges.map Edge.placed).Subperm
          (Bernoulli.admittedEdges d allowAutapses sources targets) ∧
        (sources.Nodup → targets.Nodup →
          (d.workers.flatMap fun w => (q w).1.edges.map Edge.placed).Nodup)) := by
  -- in the selected regime every pass agrees with the target-loop pass
  have hreg : ∀ (acts : Bool → Nat → List Action),
      (d.loopOverTargets targets skipping = false → ∀ w,
        (Worker.pass st (acts true) w).Agree (Worker.pass st (acts false) w)) →
      ∀ w, (Worker.pass st (acts (d.loopOverTargets targets skipping)) w).Agree
        (Worker.pass st (acts true) w) := fun acts h w => by
    cases hl : d.loopOverTargets targets skipping
    · exact (h hl w).symm
    · exact Worker.Agree.refl _
  refine ⟨fun hlen hok => ?_, fun hok => ?_, fun drand pValue paramDraw g => ?_⟩
  · rw [placed_of_agree d st _ _ (hreg (fun r => OneToOne.connect d allowAutapses r sources targets)
      (fun hl => oneToOne_pass_agrees d st allowAutapses sources targets hlen
        (targets_eq_range d hvalid hl))) hok]
    have hblock : ∀ w, ((sources.zip targets).flatMap fun p =>
        (OneToOne.connectPair d allowAutapses w p.1 p.2).flatMap Action.connection)
          = ((sources.zip targets).filter (Structural.admitted allowAutapses)).flatMap fun p =>
              if d.owner p.2 = w then [(p.1, p.2, d.owner p.2)] else [] := fun w => by
      rw [flatMap_filter_eq_ite]
      refine List.flatMap_congr fun p _ => ?_
      rw [OneToOne.connectPair_connection]
      by_cases ha : Structural.admitted allowAutapses p <;> simp [ha]
    simp only [OneToOne.connect, if_true, List.flatMap_assoc, hblock]
    exact d.perm_flatMap_owned Prod.snd _ _
  · rw [placed_of_agree d st _ _ (hreg (fun r => AllToAll.connect d allowAutapses r sources targets)
      (fun hl => allToAll_pass_agrees d st allowAutapses sources targets
        (targets_eq_range d hvalid hl))) hok]
    simp only [AllToAll.connect_connection, Bernoulli.admittedEdges_eq]
    exact d.perm_flatMap_owned_blocks id _ _
  · choose g' hg' using fun w => Bernoulli.connect_sim d drand pValue paramDraw st allowAutapses sources
      targets w (d.loopOverTargets targets skipping) (g w)
    exact ⟨fun w => (_, g' w), fun w _ => (hg' w).1, Bernoulli.passes_subperm_admitted d drand pValue
      paramDraw st allowAutapses _ sources targets g⟩

/-- Two VPs (node `n` on VP `n % 2`), sources `[2, 1, 3]` onto the three
nodes, autapses disabled, so the local-node loop. -/
theorem connect_exact_edges_three_nodes :
    (([2, 1, 3] : List Nat).length = ([1, 2, 3] : List Nat).length →
      (∀ w ∈ (Decomposition.roundRobin 1 2 3 (by decide)).workers,
        (Worker.pass Storage.total (OneToOne.connect (Decomposition.roundRobin 1 2 3 (by decide)) false
          ((Decomposition.roundRobin 1 2 3 (by decide)).loopOverTargets [1, 2, 3] false) [2, 1, 3]
          [1, 2, 3]) w).failed = false) →
      ((Decomposition.roundRobin 1 2 3 (by decide)).workers.flatMap fun w =>
        (Worker.pass Storage.total (OneToOne.connect (Decomposition.roundRobin 1 2 3 (by decide)) false
          ((Decomposition.roundRobin 1 2 3 (by decide)).loopOverTargets [1, 2, 3] false) [2, 1, 3]
          [1, 2, 3]) w).edges.map Edge.placed).Perm
        ((([2, 1, 3].zip [1, 2, 3]).filter (Structural.admitted false)).map
          fun p => (p.1, p.2, (Decomposition.roundRobin 1 2 3 (by decide)).owner p.2))) ∧
    ((∀ w ∈ (Decomposition.roundRobin 1 2 3 (by decide)).workers,
        (Worker.pass Storage.total (AllToAll.connect (Decomposition.roundRobin 1 2 3 (by decide)) false
          ((Decomposition.roundRobin 1 2 3 (by decide)).loopOverTargets [1, 2, 3] false) [2, 1, 3]
          [1, 2, 3]) w).failed = false) →
      ((Decomposition.roundRobin 1 2 3 (by decide)).workers.flatMap fun w =>
        (Worker.pass Storage.total (AllToAll.connect (Decomposition.roundRobin 1 2 3 (by decide)) false
          ((Decomposition.roundRobin 1 2 3 (by decide)).loopOverTargets [1, 2, 3] false) [2, 1, 3]
          [1, 2, 3]) w).edges.map Edge.placed).Perm
        (Bernoulli.admittedEdges (Decomposition.roundRobin 1 2 3 (by decide)) false [2, 1, 3] [1, 2, 3])) ∧
    (∀ {σ : Type} (drand : σ → ℚ × σ) (pValue : Nat → σ → Construction.Double × σ)
        (paramDraw : σ → σ) (g : Nat → σ),
      ∃ q : Nat → Worker × σ,
        (∀ w ∈ (Decomposition.roundRobin 1 2 3 (by decide)).workers,
          Bernoulli.connect (Decomposition.roundRobin 1 2 3 (by decide)) drand pValue paramDraw
            Storage.total false ((Decomposition.roundRobin 1 2 3 (by decide)).loopOverTargets [1, 2, 3]
            false) [2, 1, 3] [1, 2, 3] w (g w) = some (q w)) ∧
        ((Decomposition.roundRobin 1 2 3 (by decide)).workers.flatMap fun w =>
          (q w).1.edges.map Edge.placed).Subperm
          (Bernoulli.admittedEdges (Decomposition.roundRobin 1 2 3 (by decide)) false [2, 1, 3] [1, 2, 3]) ∧
        (([2, 1, 3] : List Nat).Nodup → ([1, 2, 3] : List Nat).Nodup →
          ((Decomposition.roundRobin 1 2 3 (by decide)).workers.flatMap fun w =>
            (q w).1.edges.map Edge.placed).Nodup)) :=
  connect_exact_edges (Decomposition.roundRobin 1 2 3 (by decide)) Storage.total false false [2, 1, 3]
    [1, 2, 3] (by decide)

/-- One thread, the pair `1 → 2`, and a connection manager refusing the edge:
`OneToOneBuilder::connect_` raises and the admitted pair is not created. -/
theorem oneToOne_raise_loses_pair :
    (Worker.pass ⟨fun _ _ => false, fun _ _ => true, fun _ => true⟩ (OneToOne.connect (Decomposition.single 2) false
        ((Decomposition.single 2).loopOverTargets [2] false) [1] [2]) 0).failed = true ∧
      (Worker.pass ⟨fun _ _ => false, fun _ _ => true, fun _ => true⟩ (OneToOne.connect (Decomposition.single 2) false
        ((Decomposition.single 2).loopOverTargets [2] false) [1] [2]) 0).edges = [] ∧
      (([1].zip [2]).filter (Structural.admitted false)) = [(1, 2)] := by
  decide

end NestConnBuilder.LoopRegimes
