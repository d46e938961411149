import NestConnBuilder.Worker

/-!
# Fixed in-degree: `K` sources drawn for every target

`FixedInDegreeBuilder::connect_` evaluates the in-degree parameter for every
target and, for a target its thread owns, draws that many source indices from
the thread's own random stream in `inner_connect_`, redrawing while the draw
is a rejected autapse or, with multapses disallowed, an index already chosen
for this target. For a target it sees only as a proxy it skips the array
cursors by the in-degree. A redraw loop need not stop, so the model runs it on
`fuel` and returns `none` when that runs out.

The sources drawn are whatever the stream yields, but with a scalar in-degree
`K` the skeleton of a thread's actions is fixed: `K` connections into every
owned target, a skip of `K` for every other one (`shape`). Every thread
therefore reads the arrays at `j·K + k` for the `k`-th edge into the `j`-th
target, whichever sources it drew.

## Main results

* `connectTargets_follows` — with a scalar in-degree the target loop follows
  `shape`, whatever the stream yields.
* `indegree_positions` — the `k`-th edge into target `t_j` reads position
  `j·K + k`, on every thread, for every stream: a thread's positions are a
  prefix of `owedSlots`, and all of it when the thread does not raise.
* `connect_target_agrees_local` — where the local-node loop is taken, with an
  in-degree that draws nothing, it makes the target loop's calls from the same
  stream.
* `indegree_edges` — in either regime, with no VP raising, every target gets
  `K` edges, all from its own thread, none from itself when autapses are
  disabled and from distinct source indices when multapses are disabled.
-/

namespace NestConnBuilder.FixedInDegree

open NestConnBuilder

variable (d : Decomposition) {σ : Type} (ulrand : Nat → σ → Nat × σ) (paramDraw : σ → σ)

/-- One pass of the `for ( j < indegree_value )` loop of `inner_connect_` for
the target `t` the thread owns: draw a source, connect it, and with multapses
disallowed remember its index. The loop state is the stream and `ch_ids`;
`single_connect_` reads random parameters from the same stream, which moves it
by `paramDraw`. -/
def drawAndConnect (st : Storage) (fuel : Nat) (allowAutapses allowMultapses : Bool)
    (sources : List Nat) (t : Nat) (_j : Nat) (p : Worker × σ × List Nat) :
    Option (Worker × σ × List Nat) :=
  (drawIndex ulrand allowAutapses allowMultapses sources t p.2.2 fuel p.2.1).map fun r =>
    (p.1.step st (.connect (sources.getD r.1 0) t (d.owner t)), paramDraw r.2,
      if allowMultapses = false then r.1 :: p.2.2 else p.2.2)

/-- `FixedInDegreeBuilder::inner_connect_( tid, rng, target, tnode_id, skip,
indegree_value )` on VP `w`. -/
def innerConnect (st : Storage) (fuel : Nat) (allowAutapses allowMultapses : Bool)
    (sources : List Nat) (w t : Nat) (skip : Bool) (indegree : Nat) (p : Worker × σ) :
    Option (Worker × σ) :=
  if w ≠ d.owner t then some (if skip then p.1.step st (.skip indegree) else p.1, p.2)
  else
    (Worker.loop (drawAndConnect d ulrand paramDraw st fuel allowAutapses allowMultapses sources t)
      (List.range indegree) (p.1, p.2, [])).map fun q => (q.1, q.2.1)

/-- One iteration of the target loop of `FixedInDegreeBuilder::connect_` on VP
`w`: the in-degree parameter is evaluated for the target (possibly drawing
from the stream), a proxy target skips that many positions. -/
def targetStep (st : Storage) (fuel : Nat) (allowAutapses allowMultapses : Bool)
    (sources : List Nat) (indegree : Nat → σ → Nat × σ) (w t : Nat) (p : Worker × σ) :
    Option (Worker × σ) :=
  let r := indegree t p.2
  if d.owner t ≠ w then some (p.1.step st (.skip r.1), r.2)
  else innerConnect d ulrand paramDraw st fuel allowAutapses allowMultapses sources w t true r.1
    (p.1, r.2)

/-- One iteration of the local-node loop of `FixedInDegreeBuilder::connect_`
on VP `w`, for its node `n`. -/
def localStep (st : Storage) (fuel : Nat) (allowAutapses allowMultapses : Bool)
    (sources targets : List Nat) (indegree : Nat → σ → Nat × σ) (w n : Nat) (p : Worker × σ) :
    Option (Worker × σ) :=
  match getLid targets n with
  | none => some p
  | some _ =>
    let r := indegree n p.2
    innerConnect d ulrand paramDraw st fuel allowAutapses allowMultapses sources w n false r.1
      (p.1, r.2)

/-- `FixedInDegreeBuilder::connect_` on VP `w`, from the thread's stream state
`g`, in the regime `loopOverTargets`. -/
def connect (st : Storage) (fuel : Nat) (allowAutapses allowMultapses loopOverTargets : Bool)
    (sources targets : List Nat) (indegree : Nat → σ → Nat × σ) (w : Nat) (g : σ) :
    Option (Worker × σ) :=
  if loopOverTargets then
    Worker.loop (targetStep d ulrand paramDraw st fuel allowAutapses allowMultapses sources indegree w)
      targets (Worker.init, g)
  else
    Worker.loop
      (localStep d ulrand paramDraw st fuel allowAutapses allowMultapses sources targets indegree w)
      (d.localNodes w) (Worker.init, g)

/-! ## The skeleton of the target loop -/

/-- The skeleton of the target loop on VP `w` with scalar in-degree `K`. -/
def shape (K : Nat) (targets : List Nat) (w : Nat) : List Action :=
  targets.flatMap fun t =>
    if d.owner t ≠ w then [.skip K] else List.replicate K (.connect 0 t (d.owner t))

section Skeleton

variable (st : Storage) (fuel : Nat) (allowAutapses allowMultapses : Bool) (sources : List Nat)

private theorem flatMap_range_const {α : Type*} (x : α) (K : Nat) :
    (List.range K).flatMap (fun _ => [x]) = List.replicate K x := by
  induction K with
  | zero => rfl
  | succ K ih => rw [List.range_succ, List.flatMap_append, ih, List.replicate_succ']; rfl

/-- On a target it owns, a thread issues `K` connections into it, whatever it
draws. -/
theorem innerConnect_follows (w t K : Nat) (ho : d.owner t = w) (p q : Worker × σ)
    (h : innerConnect d ulrand paramDraw st fuel allowAutapses allowMultapses sources w t true K p
      = some q) :
    p.1.Follows st (List.replicate K (.connect 0 t (d.owner t))) q.1 := by
  rw [innerConnect, if_neg (not_not_intro ho.symm)] at h
  obtain ⟨q', hq', rfl⟩ := Option.map_eq_some'.1 h
  rw [← flatMap_range_const]
  refine Worker.loop_follows st _ (fun _ => [.connect 0 t (d.owner t)]) ?_ _ (p.1, p.2, []) q' hq'
  intro _ p₁ q₁ _ hb
  obtain ⟨r, -, rfl⟩ := Option.map_eq_some'.1 hb
  exact Worker.follows_cons st (Worker.follows_nil st _)

/-- The target loop with scalar in-degree `K` follows `shape`. -/
theorem connectTargets_follows (K w : Nat) (targets : List Nat) (p q : Worker × σ)
    (h : Worker.loop (targetStep d ulrand paramDraw st fuel allowAutapses allowMultapses sources
      (fun _ g => (K, g)) w) targets p = some q) :
    p.1.Follows st (shape d K targets w) q.1 := by
  refine Worker.loop_follows st _ _ (fun t p₁ q₁ _ hb => ?_) targets p q h
  simp only [targetStep] at hb
  by_cases ho : d.owner t = w
  · rw [if_neg (not_not_intro ho)] at hb ⊢
    exact innerConnect_follows d ulrand paramDraw st fuel allowAutapses allowMultapses sources
      w t K ho _ _ hb
  · rw [if_pos ho] at hb ⊢
    cases hb
    exact Worker.follows_cons st (Worker.follows_nil st _)

end Skeleton

/-! ## Positions -/

/-- Where the `k`-th edge into the `j`-th target goes and which position it
reads, for the targets VP `w` owns: `(t_j, j·K + k)`. -/
def owedSlots (K : Nat) (targets : List Nat) (w : Nat) : List (Nat × Nat) :=
  targets.enum.flatMap fun q =>
    if d.owner q.2 = w then (List.range K).map fun k => (q.2, q.1 * K + k) else []

private theorem emitted_replicate (t thr : Nat) :
    ∀ (K c : Nat), (emitted c (List.replicate K (.connect 0 t thr))).map Edge.slot
      = (List.range K).map fun k => (t, c + k)
  | 0, _ => rfl
  | K + 1, c => by
    rw [List.replicate_succ, emitted, List.map_append, emitted_replicate t thr K,
      List.range_succ_eq_map]
    simp [Action.emits, Action.advance, Edge.slot, Function.comp_def, Nat.add_assoc, Nat.add_comm 1]

theorem emitted_shape_slots (K : Nat) (targets : List Nat) (w : Nat) :
    (emitted 0 (shape d K targets w)).map Edge.slot = owedSlots d K targets w := by
  have hk : ∀ t ∈ targets, advance (if d.owner t ≠ w then [Action.skip K]
      else List.replicate K (Action.connect 0 t (d.owner t))) = K := by
    intro t _
    split
    · simp [advance, Action.advance]
    · simp [advance, Action.advance, List.sum_replicate]
  have h := emitted_flatMap_uniform _ K 0 targets 0 hk
  simp only [Nat.zero_mul, Nat.zero_add] at h
  rw [shape, h, owedSlots, List.enum, List.map_flatMap]
  congr 1
  funext q
  by_cases ho : d.owner q.2 = w
  · simp only [ho, ne_eq, not_true_eq_false, if_false, if_true, emitted_replicate]
  · simp [ho, emitted, Action.emits]

/-- With a scalar in-degree `K`, in the target loop, on every VP and for every
random stream and storage, the `k`-th edge into the `j`-th target reads array
position `j·K + k`: where a thread's edges go and which positions they read
is a prefix of `owedSlots`, and all of it when the thread does not raise. -/
theorem indegree_positions (st : Storage) (fuel : Nat) (allowAutapses allowMultapses : Bool)
    (sources targets : List Nat) (K w : Nat) (g : σ) (q : Worker × σ)
    (h : connect d ulrand paramDraw st fuel allowAutapses allowMultapses true sources targets
      (fun _ g => (K, g)) w g = some q) :
    q.1.edges.map Edge.slot <+: owedSlots d K targets w ∧
      (q.1.failed = false → q.1.edges.map Edge.slot = owedSlots d K targets w) := by
  have hf := connectTargets_follows d ulrand paramDraw st fuel allowAutapses allowMultapses sources
    K w targets _ q (by rwa [connect, if_pos rfl] at h)
  have hpre := hf.slots_prefix rfl
  rw [Worker.init, List.nil_append, emitted_shape_slots] at hpre
  refine ⟨hpre, fun hq => ?_⟩
  rw [hf.slots_eq rfl hq, Worker.init, List.nil_append, emitted_shape_slots]

/-- One thread, sources `[1, 2]`, in-degree 1 into target 3, a stream whose
`ulrand n` yields its state modulo `n`: the run ends, and its edge reads
position 0. -/
theorem indegree_positions_one_target :
    connect (Decomposition.single 3) (fun n g => (g % n, g + 1)) id Storage.total 1 true true true
        [1, 2] [3] (fun _ g => (1, g)) 0 0 = some (⟨1, [⟨1, 3, 0, 0⟩], [], [], [], false⟩, 1) ∧
      [(⟨1, 3, 0, 0⟩ : Edge)].map Edge.slot <+: owedSlots (Decomposition.single 3) 1 [3] 0 ∧
      (false = false → [(⟨1, 3, 0, 0⟩ : Edge)].map Edge.slot = owedSlots (Decomposition.single 3) 1 [3] 0) :=
  ⟨by decide, indegree_positions (Decomposition.single 3) (fun n g => (g % n, g + 1)) id Storage.total
    1 true true [1, 2] [3] 1 0 0 (⟨1, [⟨1, 3, 0, 0⟩], [], [], [], false⟩, 1) (by decide)⟩

/-! ## The edges into each target -/

/-- The draw-and-connect loop over `l`, when it ends with an empty slot, has
appended one edge into `t` per element, on the thread owning `t`, from the
sources at the indices its rejection loops returned. -/
theorem drawLoop_edges (st : Storage) (fuel : Nat) (allowAutapses allowMultapses : Bool)
    (sources : List Nat) (t : Nat) :
    ∀ (l : List Nat) (wk : Worker) (g : σ) (chIds : List Nat) (q : Worker × σ × List Nat),
      Worker.loop (drawAndConnect d ulrand paramDraw st fuel allowAutapses allowMultapses sources t) l
        (wk, g, chIds) = some q → q.1.failed = false →
      ∃ es ids, q.1.edges = wk.edges ++ es ∧ es.length = l.length ∧
        (∀ e ∈ es, e.tgt = t ∧ e.thread = d.owner t) ∧ es.map Edge.src = ids.map (sources.getD · 0) ∧
        DrawnIndices ulrand allowAutapses allowMultapses sources t chIds ids
  | [], wk, g, chIds, q, h, _ => by
    cases h
    exact ⟨[], [], by simp, rfl, by simp, rfl, DrawnIndices.nil chIds⟩
  | j :: l, wk, g, chIds, q, h, hq => by
    have hw : wk.failed = false := Worker.loop_start_ok _ _ h hq
    simp only [Worker.loop, hw, Bool.false_eq_true, if_false, drawAndConnect] at h
    obtain ⟨p₁, hp₁, h⟩ := Option.bind_eq_some.1 h
    obtain ⟨r, hr, rfl⟩ := Option.map_eq_some'.1 hp₁
    -- the call succeeded, or the rest of the loop would have been skipped
    have hs := (Worker.step_of_ok st (Worker.loop_start_ok _ _ h hq)).2
    obtain ⟨es, ids, he, hlen, htgt, hsrc, hdrawn⟩ :=
      drawLoop_edges st fuel allowAutapses allowMultapses sources t l _ _ _ q h hq
    refine ⟨⟨sources.getD r.1 0, t, d.owner t, wk.cursor⟩ :: es, r.1 :: ids, ?_, by simp [hlen],
      ?_, by simp [hsrc], hdrawn.cons hr⟩
    · rw [he, hs]; simp [Worker.apply]
    · rintro e (_ | ⟨_, he⟩)
      · exact ⟨rfl, rfl⟩
      · exact htgt e he

/-- The edges into `t` that one call of `inner_connect_` with in-degree `K`
makes: `K` of them, all on the thread owning `t`, none from `t` when autapses
are disabled, and from the nodes at drawn source indices that are pairwise
distinct when multapses are disabled. -/
def InEdges (allowAutapses allowMultapses : Bool) (sources : List Nat) (K t : Nat) (es : List Edge) :
    Prop :=
  es.length = K ∧ (∀ e ∈ es, e.tgt = t ∧ e.thread = d.owner t ∧ (allowAutapses = false → e.src ≠ t)) ∧
    ∃ ids : List Nat, es.map Edge.src = ids.map (sources.getD · 0) ∧ (allowMultapses = false → ids.Nodup)

theorem innerConnect_inEdges (st : Storage) (fuel : Nat) (allowAutapses allowMultapses : Bool)
    (sources : List Nat) (w t : Nat) (skip : Bool) (K : Nat) (ho : d.owner t = w) (p q : Worker × σ)
    (h : innerConnect d ulrand paramDraw st fuel allowAutapses allowMultapses sources w t skip K p = some q)
    (hq : q.1.failed = false) :
    ∃ es, q.1.edges = p.1.edges ++ es ∧ InEdges d allowAutapses allowMultapses sources K t es := by
  rw [innerConnect, if_neg (not_not_intro ho.symm)] at h
  obtain ⟨q', hq', rfl⟩ := Option.map_eq_some'.1 h
  obtain ⟨es, ids, he, hlen, htgt, hsrc, hdrawn⟩ :=
    drawLoop_edges d ulrand paramDraw st fuel allowAutapses allowMultapses sources t _ _ _ _ q' hq' hq
  refine ⟨es, he, by simpa using hlen, fun e he => ⟨(htgt e he).1, (htgt e he).2, fun ha hs => ?_⟩,
    ids, hsrc, fun hm => (hdrawn.2 hm).1⟩
  apply hdrawn.node_not_mem ha
  rw [← hsrc, ← hs]
  exact List.mem_map_of_mem _ he

/-- The edges into `t` among blocks made for the duplicate-free targets `L`:
the block of `t` if `t ∈ L`, none otherwise. -/
theorem filter_tgt_blocks {allowAutapses allowMultapses : Bool} {sources : List Nat} {K : Nat} :
    ∀ {L : List Nat} {blocks : List (List Edge)},
      List.Forall₂ (InEdges d allowAutapses allowMultapses sources K) L blocks → L.Nodup → ∀ t,
        (t ∈ L → InEdges d allowAutapses allowMultapses sources K t (blocks.flatten.filter (·.tgt == t))) ∧
        (t ∉ L → blocks.flatten.filter (·.tgt == t) = [])
  | [], [], .nil, _, t => ⟨by simp, fun _ => rfl⟩
  | t₀ :: L, es :: blocks, .cons hR hF, hnd, t => by
    rw [List.nodup_cons] at hnd
    have hrest := filter_tgt_blocks hF hnd.2 t
    rw [List.flatten_cons, List.filter_append]
    by_cases ht : t₀ = t
    · subst ht
      rw [List.filter_eq_self.2 fun e he => by simp [(hR.2.1 e he).1], hrest.2 hnd.1, List.append_nil]
      exact ⟨fun _ => hR, fun h => absurd (List.mem_cons_self _ _) h⟩
    · rw [List.filter_eq_nil_iff.2 fun e he => by simp [(hR.2.1 e he).1, ht], List.nil_append]
      simpa only [List.mem_cons, Ne.symm ht, false_or] using hrest

/-- On VP `w`, a run with a scalar in-degree `K` that ends with an empty slot
makes one block of `InEdges` for each target it owns, in either regime. -/
theorem connect_blocks (st : Storage) (fuel : Nat) (allowAutapses allowMultapses loopOverTargets : Bool)
    (sources targets : List Nat) (K w : Nat) (g : σ) (q : Worker × σ)
    (h : connect d ulrand paramDraw st fuel allowAutapses allowMultapses loopOverTargets sources targets
      (fun _ g => (K, g)) w g = some q)
    (hq : q.1.failed = false) :
    ∃ blocks : List (List Edge), q.1.edges = blocks.flatten ∧
      List.Forall₂ (InEdges d allowAutapses allowMultapses sources K)
        (if loopOverTargets then targets.filter (d.owner · = w)
          else (d.localNodes w).filter fun n => n ∈ targets ∧ d.owner n = w) blocks := by
  unfold connect at h
  split at h
  · rw [if_pos ‹_›]
    refine Worker.loop_blocks _ (fun t => decide (d.owner t = w)) _
      (fun t p q₁ hp hb hq₁ => ?_) _ _ _ h hq
    simp only [targetStep] at hb
    by_cases ho : d.owner t = w
    · rw [if_neg (not_not_intro ho)] at hb
      obtain ⟨es, hes, hR⟩ := innerConnect_inEdges d ulrand paramDraw st fuel allowAutapses
        allowMultapses sources w t true K ho _ _ hb hq₁
      exact ⟨es, hes, by rwa [if_pos (decide_eq_true ho)]⟩
    · rw [if_pos ho] at hb
      cases hb
      exact ⟨[], by simp [Worker.step, hp, Action.ok, Worker.apply], by simp [ho]⟩
  · rw [if_neg ‹_›]
    refine Worker.loop_blocks _ (fun n => decide (n ∈ targets ∧ d.owner n = w)) _
      (fun n p q₁ hp hb hq₁ => ?_) _ _ _ h hq
    simp only [localStep] at hb
    split at hb
    · cases hb
      rename_i hlid
      have hn : n ∉ targets := fun hn => by simp [getLid, hn] at hlid
      exact ⟨[], by simp, by simp [hn]⟩
    · rename_i hlid
      have hn : n ∈ targets := by
        by_contra hn
        simp [getLid, hn] at hlid
      by_cases ho : d.owner n = w
      · obtain ⟨es, hes, hR⟩ := innerConnect_inEdges d ulrand paramDraw st fuel allowAutapses
          allowMultapses sources w n false K ho _ _ hb hq₁
        exact ⟨es, hes, by rwa [if_pos (decide_eq_true ⟨hn, ho⟩)]⟩
      · rw [innerConnect, if_pos (Ne.symm ho)] at hb
        cases hb
        exact ⟨[], by simp, by simp [ho]⟩

/-- **Every target receives `K` edges from its own thread.** For a scalar
in-degree `K`, in either iteration regime, on any per-VP streams on which
every VP's run ends and no VP raises, the edges into each target `t` over all
VPs are exactly `K`, all stored by the thread owning `t`; none comes from `t`
when autapses are disabled, and their source indices are pairwise distinct
when multapses are disabled. The targets are ids of existing nodes, without
repeats, as in a node collection. -/
theorem indegree_edges (st : Storage) (fuel : Nat) (allowAutapses allowMultapses loopOverTargets : Bool)
    (sources targets : List Nat) (K : Nat) (g : Nat → σ) (ws : Nat → Worker × σ)
    (hvalid : ∀ n ∈ targets, 1 ≤ n ∧ n ≤ d.numNodes) (hnd : targets.Nodup)
    (hrun : ∀ w ∈ d.workers, connect d ulrand paramDraw st fuel allowAutapses allowMultapses
      loopOverTargets sources targets (fun _ g => (K, g)) w (g w) = some (ws w))
    (hr : d.raised (fun w => (ws w).1) = false) :
    ∀ t ∈ targets, InEdges d allowAutapses allowMultapses sources K t
      ((d.workers.flatMap fun w => (ws w).1.edges).filter (·.tgt == t)) := by
  intro t ht
  -- on every VP the blocks of the owned targets, among which `t` exactly on its owner
  have hper : ∀ w ∈ d.workers, ∃ (L : List Nat) (blocks : List (List Edge)),
      (ws w).1.edges = blocks.flatten ∧
      List.Forall₂ (InEdges d allowAutapses allowMultapses sources K) L blocks ∧ L.Nodup ∧
      (t ∈ L ↔ d.owner t = w) := fun w hw => by
    obtain ⟨blocks, he, hF⟩ := connect_blocks d ulrand paramDraw st fuel allowAutapses allowMultapses
      loopOverTargets sources targets K w (g w) (ws w) (hrun w hw) (d.not_failed_of_not_raised hr hw)
    refine ⟨_, blocks, he, hF, ?_, ?_⟩
    · split
      · exact hnd.filter _
      · exact ((List.nodup_range' 1 d.numNodes).filter _).filter _
    · split
      · simp [ht]
      · have := hvalid t ht
        simp [Decomposition.localNodes, ht, List.mem_range'_1]
        omega
  rw [List.filter_flatMap, d.flatMap_workers_owner t]
  · obtain ⟨L, blocks, he, hF, hL, hmem⟩ := hper _ (d.owner_mem_workers t)
    rw [he]
    exact (filter_tgt_blocks d hF hL t).1 (hmem.2 rfl)
  · intro w hw hne
    obtain ⟨L, blocks, he, hF, hL, hmem⟩ := hper w hw
    rw [he]
    exact (filter_tgt_blocks d hF hL t).2 fun h => hne (hmem.1 h)

/-- Two VPs (node `n` on VP `n % 2`), sources `[1, 2]`, targets `[3, 4]`,
in-degree 1, each VP's stream at 0: target 3 gets its edge on VP 1, target 4
on VP 0. -/
theorem indegree_edges_two_vps :
    InEdges (Decomposition.roundRobin 1 2 4 (by decide)) true true [1, 2] 1 3
        (((Decomposition.roundRobin 1 2 4 (by decide)).workers.flatMap fun w =>
          ((connect (Decomposition.roundRobin 1 2 4 (by decide)) (fun n g => (g % n, g + 1)) id
            Storage.total 2 true true true [1, 2] [3, 4] (fun _ g => (1, g)) w 0).getD
              (Worker.init, 0)).1.edges).filter (·.tgt == 3)) ∧
      InEdges (Decomposition.roundRobin 1 2 4 (by decide)) true true [1, 2] 1 4
        (((Decomposition.roundRobin 1 2 4 (by decide)).workers.flatMap fun w =>
          ((connect (Decomposition.roundRobin 1 2 4 (by decide)) (fun n g => (g % n, g + 1)) id
            Storage.total 2 true true true [1, 2] [3, 4] (fun _ g => (1, g)) w 0).getD
              (Worker.init, 0)).1.edges).filter (·.tgt == 4)) :=
  have h := indegree_edges (Decomposition.roundRobin 1 2 4 (by decide)) (fun n g => (g % n, g + 1)) id
    Storage.total 2 true true true [1, 2] [3, 4] 1 (fun _ => 0)
    (fun w => (connect (Decomposition.roundRobin 1 2 4 (by decide)) (fun n g => (g % n, g + 1)) id
      Storage.total 2 true true true [1, 2] [3, 4] (fun _ g => (1, g)) w 0).getD (Worker.init, 0))
    (by decide) (by decide) (by decide) (by decide)
  ⟨h 3 (by decide), h 4 (by decide)⟩

/-- One thread, sources `[1, 2]`, in-degree 1 into target 3, and storage
that rejects `1 → 3`: the thread draws source 1, raises, and target 3 ends
with no edge. -/
theorem indegree_raise_leaves_target_short :
    (connect (Decomposition.single 4) (fun n g => (g % n, g + 1)) id
        ⟨fun s t => !(s == 1 && t == 3), fun _ _ => true, fun _ => true⟩ 2 true true true [1, 2] [3]
        (fun _ g => (1, g)) 0 0).map (fun q => (q.1.failed, q.1.edges))
      = some (true, []) := by
  decide

/-! ## The two regimes -/

/-- On a target its thread owns, `inner_connect_` from agreeing states makes
the same calls, whether or not it would skip for a proxy. -/
theorem innerConnect_agree (st : Storage) (fuel : Nat) (allowAutapses allowMultapses : Bool)
    (sources : List Nat) (w t : Nat) (skip₁ skip₂ : Bool) (K : Nat) (ho : d.owner t = w)
    {w₁ w₂ : Worker} (h : w₁.Agree w₂) (g : σ) :
    Option.Rel (fun q₁ q₂ => q₁.1.Agree q₂.1 ∧ q₁.2 = q₂.2)
      (innerConnect d ulrand paramDraw st fuel allowAutapses allowMultapses sources w t skip₁ K (w₁, g))
      (innerConnect d ulrand paramDraw st fuel allowAutapses allowMultapses sources w t skip₂ K (w₂, g)) := by
  simp only [innerConnect, ho, ne_eq, not_true_eq_false, if_false]
  have hloop := Worker.loop_agree
    (drawAndConnect d ulrand paramDraw st fuel allowAutapses allowMultapses sources t)
    (drawAndConnect d ulrand paramDraw st fuel allowAutapses allowMultapses sources t) (fun _ => true)
    (List.range K) (fun j _ _ v₁ v₂ p _ hv => ?_) (fun _ _ h => nomatch h) w₁ w₂ (g, []) h
  · rw [List.filter_true] at hloop
    generalize Worker.loop _ (List.range K) (w₁, g, []) = o₁ at hloop ⊢
    generalize Worker.loop _ (List.range K) (w₂, g, []) = o₂ at hloop ⊢
    cases hloop with
    | none => exact .none
    | some hq => exact .some ⟨hq.1, congrArg Prod.fst hq.2⟩
  · unfold drawAndConnect
    cases drawIndex ulrand allowAutapses allowMultapses sources t p.2 fuel p.1 with
    | none => exact .none
    | some r => exact .some ⟨hv.step st _, rfl⟩

/-- Outside the target loop, where the targets are all the nodes, and with an
in-degree that draws nothing, the target loop and the local-node loop make
the same calls from the same stream: both end or neither does, with the same
edges, exception slot and stream. -/
theorem connect_target_agrees_local (st : Storage) (fuel : Nat) (allowAutapses allowMultapses : Bool)
    (sources targets : List Nat) (k : Nat → Nat) (w : Nat) (g : σ)
    (hT : targets = List.range' 1 d.numNodes) :
    Option.Rel (fun q₁ q₂ => q₁.1.Agree q₂.1 ∧ q₁.2 = q₂.2)
      (connect d ulrand paramDraw st fuel allowAutapses allowMultapses true sources targets
        (fun t g => (k t, g)) w g)
      (connect d ulrand paramDraw st fuel allowAutapses allowMultapses false sources targets
        (fun t g => (k t, g)) w g) := by
  have hloc : d.localNodes w = targets.filter (d.owner · = w) := by rw [hT]; rfl
  rw [connect, if_pos rfl, connect, if_neg Bool.false_ne_true, hloc]
  refine Worker.loop_agree _ _ _ targets (fun t ht ho w₁ w₂ g' _ h => ?_)
    (fun t _ ho wk g' hw => ⟨_, ?_, (Worker.Agree.refl wk).step_skip st (k t)⟩) _ _ _ (Worker.Agree.refl _)
  · have ho' : d.owner t = w := of_decide_eq_true ho
    have hlid : getLid targets t = some (targets.indexOf t) := if_pos ht
    simp only [targetStep, localStep, hlid, ho', ne_eq, not_true_eq_false, if_false]
    exact innerConnect_agree d ulrand paramDraw st fuel allowAutapses allowMultapses sources w t true
      false (k t) ho' h g'
  · simp only [targetStep, of_decide_eq_false ho, ne_eq, not_false_eq_true, if_true]

end NestConnBuilder.FixedInDegree
