import NestConnBuilder.Worker

/-!
# Fixed total number: a multinomial split over VPs, then local draws

`FixedTotalNumberBuilder::connect_` first counts, for every VP, the targets it
owns, then splits the `N` connections over the VPs by sequential binomial
draws on the rank-synchronised stream — GSL's multinomial sampler: VP `k`
receives `Binomial(N - Σ earlier, n_k / (|T| - Σ earlier n))`, and the loop
stops as soon as nothing is left. Each VP then draws its share of pairs from
its own stream, a source from all sources and a target from its own targets,
redrawing rejected autapses.

The running total `sum_partitions` is an `unsigned int` while `N_` is a
`long`: the model keeps it modulo `2^32`. The running target count `sum_dist`
is a `double` that only ever holds sums of target counts, far below `2^53`, so
it is exact and kept as a natural number; the binomial outcome is an arbitrary
function `bino k n num den` of the VP, the trial count and the probability
`num / den`.

## Main results

* `multinomial_sum` — while the connections fit in an `unsigned int`, the
  split hands out exactly `N` whenever some VP owns a target, every entry lying
  in `[0, N]` and VPs without targets getting none.
* `numConnsOnVp_overflow` — once the running total passes `2^32` it wraps and
  the split hands out `2^32` too many; an empty target collection gets none.
* `emitLoop_edges` — a VP's loop that ends without an exception creates exactly
  its share of edges, each into one of its own targets.
* `connect_total` — when every VP's loop ends without an exception, the VPs
  together create exactly `N` edges while `N < 2^32`.
* `connect_total_with_autapses` — with autapses allowed every VP's loop ends
  (`emitLoop_isSome`), so the split is carried out whenever no VP raises.
-/

namespace NestConnBuilder.FixedTotalNumber

open NestConnBuilder

variable (d : Decomposition)

/-- The first loop of `FixedTotalNumberBuilder::connect_`:
`number_of_targets_on_vp`, one `++` per target on its VP. -/
def numberOfTargetsOnVp (targets : List Nat) : List Nat :=
  targets.foldl (fun acc t => acc.modify (· + 1) (d.owner t)) (List.replicate d.numVps 0)

/-- The multinomial loop of `FixedTotalNumberBuilder::connect_` from VP `k` on,
over the remaining entries `ntv` of `number_of_targets_on_vp`, with the running
`sum_dist` and `sum_partitions` (an `unsigned int`). On `N_ == sum_partitions`
the loop breaks and the remaining entries keep their initial 0. -/
def multinomial (N : Int) (sizeTargets : Nat) (bino : Nat → Int → Nat → Nat → Int) :
    Nat → List Nat → Nat → Nat → List Int
  | _, [], _, _ => []
  | k, m :: ntv, sumDist, sumPartitions =>
    if N = sumPartitions then List.replicate (ntv.length + 1) 0
    else
      let c : Int := if 0 < m then bino k (N - sumPartitions) m (sizeTargets - sumDist) else 0
      c :: multinomial N sizeTargets bino (k + 1) ntv (sumDist + m)
        ((sumPartitions + (c % 2 ^ 32).toNat) % 2 ^ 32)

/-- `num_conns_on_vp` as the multinomial loop leaves it. -/
def numConnsOnVp (N : Int) (targets : List Nat) (bino : Nat → Int → Nat → Nat → Int) : List Int :=
  multinomial N targets.length bino 0 (numberOfTargetsOnVp d targets) 0 0

/-! ## The split -/

section Split

variable (N : Int) (sizeTargets : Nat) (bino : Nat → Int → Nat → Nat → Int)

/-- Binomial outcomes: within `[0, n]`, and all `n` trials when `p = 1`. -/
def BinomialOutcomes : Prop :=
  (∀ k n a b, 0 ≤ n → 0 ≤ bino k n a b ∧ bino k n a b ≤ n) ∧ ∀ k n a, bino k n a a = n

theorem length_multinomial :
    ∀ (k : Nat) (ntv : List Nat) (sumDist sp : Nat),
      (multinomial N sizeTargets bino k ntv sumDist sp).length = ntv.length
  | _, [], _, _ => rfl
  | k, m :: ntv, sumDist, sp => by
    unfold multinomial
    split
    · simp
    · simp [length_multinomial (k + 1) ntv]

private theorem sum_multinomial_of_eq :
    ∀ (k : Nat) (ntv : List Nat) (sumDist : Nat) (sp : Nat), N = sp →
      (multinomial N sizeTargets bino k ntv sumDist sp).sum = 0
  | _, [], _, _, _ => rfl
  | k, m :: ntv, sumDist, sp, h => by
    simp [multinomial, h, List.sum_replicate, nsmul_zero]

/-- One VP's share: in `[0, N - Σ earlier]`, zero when the VP owns no
target, and added to `sum_partitions` without wrapping. -/
private theorem partition_step (hb : BinomialOutcomes bino) (hN : N < 2 ^ 32)
    (k m sumDist sp : Nat) (hsp : (sp : Int) ≤ N) :
    let c : Int := if 0 < m then bino k (N - sp) m (sizeTargets - sumDist) else 0
    0 ≤ c ∧ c ≤ N - sp ∧ (m = 0 → c = 0) ∧
      (((sp + (c % 2 ^ 32).toNat) % 2 ^ 32 : Nat) : Int) = sp + c := by
  intro c
  have hc : 0 ≤ c ∧ c ≤ N - sp ∧ (m = 0 → c = 0) := by
    simp only [c]
    split
    · exact ⟨(hb.1 k _ _ _ (by omega)).1, (hb.1 k _ _ _ (by omega)).2, by omega⟩
    · omega
  refine ⟨hc.1, hc.2.1, hc.2.2, ?_⟩
  rw [Int.emod_eq_of_lt hc.1 (by omega)]
  omega

/-- While the running total fits in an `unsigned int`, the split hands out
what is left of `N`, provided some VP still to come owns a target. -/
theorem multinomial_sum (hb : BinomialOutcomes bino) (hN : N < 2 ^ 32) (k : Nat) (ntv : List Nat) :
    ∀ (sumDist sp : Nat), sizeTargets = sumDist + ntv.sum →
      (sp : Int) ≤ N → 0 < ntv.sum →
        (multinomial N sizeTargets bino k ntv sumDist sp).sum = N - sp := by
  induction ntv generalizing k with
  | nil => intro _ _ _ _ hpos; exact absurd hpos (Nat.lt_irrefl 0)
  | cons m ntv ih =>
    intro sumDist sp hsize hsp hpos
    unfold multinomial
    split
    · rename_i h
      simp [h, List.sum_replicate, nsmul_zero]
    · obtain ⟨hc0, hcN, -, hwrap⟩ := partition_step N sizeTargets bino hb hN k m sumDist sp hsp
      simp only [List.sum_cons] at hsize hpos ⊢
      by_cases hrest : ntv.sum = 0
      · -- the last VP with targets draws with `p = 1` and takes all that is left
        have hm : 0 < m := by omega
        have hc : bino k (N - sp) m (sizeTargets - sumDist) = N - sp := by
          rw [show sizeTargets - sumDist = m by omega]; exact hb.2 k (N - sp) m
        rw [if_pos hm, hc] at hwrap ⊢
        rw [sum_multinomial_of_eq N sizeTargets bino _ _ _ _ (by rw [hwrap]; omega)]
        omega
      · rw [ih (k + 1) (sumDist + m) _ (by omega) (by rw [hwrap]; omega) (by omega), hwrap]
        omega

/-- Every entry of the split lies in `[0, N]`, and a VP that owns no target
gets none. -/
theorem multinomial_entry (hb : BinomialOutcomes bino) (hN : N < 2 ^ 32) (k : Nat) (ntv : List Nat) :
    ∀ (sumDist sp : Nat), (sp : Int) ≤ N → ∀ i : Nat,
      0 ≤ (multinomial N sizeTargets bino k ntv sumDist sp).getD i 0 ∧
        (multinomial N sizeTargets bino k ntv sumDist sp).getD i 0 ≤ N ∧
        (ntv.getD i 0 = 0 → (multinomial N sizeTargets bino k ntv sumDist sp).getD i 0 = 0) := by
  induction ntv generalizing k with
  | nil => exact fun _ sp hsp _ => ⟨le_rfl, le_trans (Int.natCast_nonneg sp) hsp, fun _ => rfl⟩
  | cons m ntv ih =>
    intro sumDist sp hsp i
    unfold multinomial
    split
    · -- `N_ == sum_partitions`: the remaining entries stay 0
      rw [List.getD_eq_getElem?_getD, List.getElem?_getD_replicate_default_eq]
      exact ⟨le_rfl, le_trans (Int.natCast_nonneg sp) hsp, fun _ => rfl⟩
    · obtain ⟨hc0, hcN, hc, hwrap⟩ := partition_step N sizeTargets bino hb hN k m sumDist sp hsp
      cases i with
      | zero => exact ⟨hc0, le_trans hcN (Int.sub_le_self N (Int.natCast_nonneg sp)), hc⟩
      | succ i => exact ih (k + 1) (sumDist + m) _ (by rw [hwrap]; omega) i

end Split

/-- A binomial outcome at the mean, rounded down: `⌊n·a/b⌋`, all `n` trials
when `a ≥ b`. -/
def meanDraw (_k : Nat) (n : Int) (a b : Nat) : Int :=
  if a < b then n * a / b else n

theorem meanDraw_outcomes : BinomialOutcomes meanDraw := by
  refine ⟨fun k n a b hn => ?_, fun k n a => by simp [meanDraw]⟩
  unfold meanDraw
  split
  · rename_i hab
    refine ⟨Int.ediv_nonneg (Int.mul_nonneg hn (by omega)) (by omega),
      Int.ediv_le_of_le_mul (by omega) ?_⟩
    exact Int.mul_le_mul_of_nonneg_left (by omega) hn
  · omega

/-- Three VPs owning one target each and `N = 3·2^31` connections, each draw at
its mean: the first two VPs get `2^31` each, `sum_partitions` wraps to 0, and
the last VP, drawing with `p = 1`, takes all of `N` again, so the split hands
out `N + 2^32`. And an empty target collection, which the constructor admits
with multapses allowed, gets no connection at all. -/
theorem numConnsOnVp_overflow :
    BinomialOutcomes meanDraw ∧
      numConnsOnVp (Decomposition.roundRobin 1 3 3 (by decide)) (3 * 2 ^ 31) [1, 2, 3] meanDraw
        = [2 ^ 31, 2 ^ 31, 3 * 2 ^ 31] ∧
      numConnsOnVp (Decomposition.single 1) 1 [] meanDraw = [0] :=
  ⟨meanDraw_outcomes, by decide, by decide⟩

/-! ## The targets on each VP -/

private theorem modify_map_workers (a : Nat → Nat) (i : Nat) :
    (d.workers.map a).modify (· + 1) i = d.workers.map fun k => a k + if i = k then 1 else 0 := by
  apply List.ext_getElem (by simp)
  intro m h₁ h₂
  rw [List.getElem_modify]
  split <;> simp_all [Decomposition.workers]

/-- The counting loop leaves, on VP `k`, the number of targets it owns. -/
theorem numberOfTargetsOnVp_eq (targets : List Nat) :
    numberOfTargetsOnVp d targets
      = d.workers.map fun k => (targets.map fun t => if d.owner t = k then 1 else 0).sum := by
  have hinit : List.replicate d.numVps 0 = d.workers.map fun _ => 0 := by
    simp [Decomposition.workers]
  have hfold : ∀ (ts : List Nat) (a : Nat → Nat),
      ts.foldl (fun acc t => acc.modify (· + 1) (d.owner t)) (d.workers.map a)
        = d.workers.map fun k => a k + (ts.map fun t => if d.owner t = k then 1 else 0).sum := by
    intro ts
    induction ts with
    | nil => simp
    | cons t ts ih =>
      intro a
      rw [List.foldl_cons, modify_map_workers, ih]
      simp only [List.map_cons, List.sum_cons, Nat.add_assoc]
  rw [numberOfTargetsOnVp, hinit, hfold]
  simp

theorem sum_numberOfTargetsOnVp (targets : List Nat) :
    (numberOfTargetsOnVp d targets).sum = targets.length := by
  have h := d.sum_workers_sum_owner (fun t => t) (fun _ => 1) targets
  simp only [List.map_const', List.sum_const_nat, Nat.mul_one] at h
  rw [numberOfTargetsOnVp_eq, h]

/-! ## The emission loop of one VP -/

section Emission

variable {σ : Type} (ulrand : Nat → σ → Nat × σ) (paramDraw : σ → σ)

/-- The `while ( num_conns_on_vp[ vp_id ] > 0 )` loop on VP `w`, with `n`
connections still to make: draw a source from all sources and a target from
`threadLocalTargets`, connect them unless the pair is a rejected autapse.
`single_connect_` may draw parameters from the same stream (`paramDraw`).
A run of rejected autapses need not end, so the loop runs on `fuel`. -/
def emitLoop (st : Storage) (allowAutapses : Bool) (sources threadLocalTargets : List Nat) (w : Nat) :
    Nat → Int → Worker × σ → Option (Worker × σ)
  | fuel, n, p =>
    if n ≤ 0 ∨ p.1.failed = true then some p
    else match fuel with
      | 0 => none
      | fuel + 1 =>
        let sIndex := ulrand sources.length p.2
        let tIndex := ulrand threadLocalTargets.length sIndex.2
        let snode := sources.getD sIndex.1 0
        let tnode := threadLocalTargets.getD tIndex.1 0
        if allowAutapses = true ∨ snode ≠ tnode then
          emitLoop st allowAutapses sources threadLocalTargets w fuel (n - 1)
            (p.1.step st (.connect snode tnode w), paramDraw tIndex.2)
        else emitLoop st allowAutapses sources threadLocalTargets w fuel n (p.1, tIndex.2)

/-- `FixedTotalNumberBuilder::connect_` on VP `w` from its stream state `g`:
the split is computed on the rank-synchronised stream before the parallel
region, so every VP sees the same `num_conns_on_vp`. -/
def connect (st : Storage) (fuel : Nat) (allowAutapses : Bool) (sources targets : List Nat)
    (N : Int) (bino : Nat → Int → Nat → Nat → Int) (w : Nat) (g : σ) : Option (Worker × σ) :=
  emitLoop ulrand paramDraw st allowAutapses sources (targets.filter (d.owner · = w)) w fuel
    ((numConnsOnVp d N targets bino).getD w 0) (Worker.init, g)

variable (st : Storage) (allowAutapses : Bool) (sources threadLocalTargets : List Nat) (w : Nat)

private theorem getD_mem_of_lt {l : List Nat} {i : Nat} (h : i < l.length) : l.getD i 0 ∈ l := by
  rw [List.getD_eq_getElem?_getD, List.getElem?_eq_getElem h, Option.getD_some]
  exact List.getElem_mem h

/-- The loop does not start with nothing left to make or the exception slot
set. -/
theorem emitLoop_of_stop (fuel : Nat) (n : Int) (p : Worker × σ) (h : n ≤ 0 ∨ p.1.failed = true) :
    emitLoop ulrand paramDraw st allowAutapses sources threadLocalTargets w fuel n p = some p := by
  unfold emitLoop
  rw [if_pos h]

/-- A loop that ends without an exception made exactly its `n` connections,
each into one of `threadLocalTargets`, on VP `w`. -/
theorem emitLoop_edges (hu : ∀ m g, 0 < m → (ulrand m g).1 < m) :
    ∀ (fuel : Nat) (n : Int) (p q : Worker × σ), (0 < n → threadLocalTargets ≠ []) →
      emitLoop ulrand paramDraw st allowAutapses sources threadLocalTargets w fuel n p = some q →
      q.1.failed = false →
      ∃ es, q.1.edges = p.1.edges ++ es ∧ es.length = n.toNat ∧
        ∀ e ∈ es, e.tgt ∈ threadLocalTargets ∧ e.thread = w := by
  intro fuel n p
  induction fuel, n, p using emitLoop.induct ulrand paramDraw st allowAutapses sources
    threadLocalTargets w with
  | case1 fuel n p hstop =>
    -- the loop does not start: nothing left to make
    intro q _ h hq
    rw [emitLoop_of_stop _ _ _ _ _ _ _ _ _ _ hstop] at h
    cases h
    have hn : n ≤ 0 := hstop.resolve_right (by simp [hq])
    exact ⟨[], by simp, by simp; omega, by simp⟩
  | case2 n p hgo => intro q _ h; unfold emitLoop at h; rw [if_neg hgo] at h; cases h
  | case3 n p hgo fuel sIndex tIndex snode tnode hadm ih =>
    -- an admitted pair: one connection, then the rest of the loop
    intro q hT h hq
    unfold emitLoop at h
    rw [if_neg hgo] at h
    change (if allowAutapses = true ∨ snode ≠ tnode then _ else _) = some q at h
    rw [if_pos hadm] at h
    have hne := hT (by omega)
    have htgt : tnode ∈ threadLocalTargets := getD_mem_of_lt (hu _ _ (List.length_pos.2 hne))
    by_cases hf : (p.1.step st (.connect snode tnode w)).failed
    · rw [emitLoop_of_stop _ _ _ _ _ _ _ _ _ _ (.inr hf)] at h
      cases h
      exact nomatch hf.symm.trans hq
    · obtain ⟨-, hstep⟩ := Worker.step_of_ok st (Bool.not_eq_true _ ▸ hf)
      obtain ⟨es, hes, hlen, hmem⟩ := ih q (fun _ => hne) h hq
      refine ⟨⟨snode, tnode, w, p.1.cursor⟩ :: es, ?_, by simp; omega, ?_⟩
      · rw [hes, hstep]; simp [Worker.apply]
      · simp only [List.mem_cons, forall_eq_or_imp]
        exact ⟨⟨htgt, trivial⟩, hmem⟩
  | case4 n p hgo fuel sIndex tIndex snode tnode hrej ih =>
    -- a rejected autapse: redraw
    intro q hT h hq
    unfold emitLoop at h
    rw [if_neg hgo] at h
    change (if allowAutapses = true ∨ snode ≠ tnode then _ else _) = some q at h
    rw [if_neg hrej] at h
    exact ih q hT h hq

/-- With autapses allowed every pass makes a connection, so fuel beyond `n`
ends the loop. -/
theorem emitLoop_isSome (hA : allowAutapses = true) :
    ∀ (fuel : Nat) (n : Int) (p : Worker × σ), n.toNat < fuel →
      (emitLoop ulrand paramDraw st allowAutapses sources threadLocalTargets w fuel n p).isSome := by
  intro fuel n p
  induction fuel, n, p using emitLoop.induct ulrand paramDraw st allowAutapses sources
    threadLocalTargets w with
  | case1 fuel n p hstop => intro; rw [emitLoop_of_stop _ _ _ _ _ _ _ _ _ _ hstop]; rfl
  | case2 n p hgo => intro hf; omega
  | case3 n p hgo fuel _ _ _ _ _ ih =>
    intro hf
    unfold emitLoop
    rw [if_neg hgo]
    dsimp only
    rw [if_pos (Or.inl hA)]
    exact ih (by omega)
  | case4 n p hgo fuel _ _ _ _ hrej => exact absurd (Or.inl hA) hrej

end Emission

/-! ## All VPs together -/

private theorem sum_ite_eq_length_filter (targets : List Nat) (w : Nat) :
    (targets.map fun t => if d.owner t = w then 1 else 0).sum
      = (targets.filter (d.owner · = w)).length := by
  induction targets with
  | nil => rfl
  | cons t ts ih => by_cases h : d.owner t = w <;> simp [List.filter_cons, h, ih, Nat.add_comm]

private theorem map_range_getD (l : List Int) : (List.range l.length).map (fun i => l.getD i 0) = l := by
  apply List.ext_getElem (by simp)
  intro i h₁ h₂
  simp [List.getElem?_eq_getElem h₂]

theorem length_numConnsOnVp (N : Int) (targets : List Nat) (bino : Nat → Int → Nat → Nat → Int) :
    (numConnsOnVp d N targets bino).length = d.numVps := by
  rw [numConnsOnVp, length_multinomial, numberOfTargetsOnVp_eq]
  simp [Decomposition.workers]

/-- The split as the VPs read it: `num_conns_on_vp[ w ]` lies in `[0, N]`, is 0
when `w` owns no target, and the entries sum to `N` when some VP owns one. -/
theorem numConnsOnVp_spec (N : Int) (targets : List Nat) (bino : Nat → Int → Nat → Nat → Int)
    (hb : BinomialOutcomes bino) (hN0 : 0 ≤ N) (hN : N < 2 ^ 32) :
    (∀ w ∈ d.workers, 0 ≤ (numConnsOnVp d N targets bino).getD w 0 ∧
      (numConnsOnVp d N targets bino).getD w 0 ≤ N ∧
      (targets.filter (d.owner · = w) = [] → (numConnsOnVp d N targets bino).getD w 0 = 0)) ∧
    (targets ≠ [] → (d.workers.map fun w => (numConnsOnVp d N targets bino).getD w 0).sum = N) := by
  have hsum := sum_numberOfTargetsOnVp d targets
  refine ⟨fun w hw => ?_, fun hT => ?_⟩
  · obtain ⟨h0, hN', hz⟩ := multinomial_entry N targets.length bino hb hN 0
      (numberOfTargetsOnVp d targets) 0 0 (by simpa using hN0) w
    refine ⟨h0, hN', fun hnil => hz ?_⟩
    have hlt : w < d.workers.length := by simpa [Decomposition.workers] using hw
    rw [numberOfTargetsOnVp_eq, List.getD_eq_getElem?_getD, List.getElem?_map,
      List.getElem?_eq_getElem hlt]
    simp [sum_ite_eq_length_filter, hnil, Decomposition.workers]
  · have hpos : 0 < (numberOfTargetsOnVp d targets).sum := by
      rw [hsum]; exact List.length_pos.2 hT
    have h := multinomial_sum N targets.length bino hb hN 0 (numberOfTargetsOnVp d targets) 0 0
      (by omega) (by simpa using hN0) hpos
    rw [Decomposition.workers, ← length_numConnsOnVp d N targets bino, map_range_getD]
    simpa using h

/-- One VP's share: a loop that ends without an exception creates
`num_conns_on_vp[ w ]` edges, each into a target that the VP owns. -/
theorem connect_edges {σ : Type} (ulrand : Nat → σ → Nat × σ) (paramDraw : σ → σ) (st : Storage)
    (fuel : Nat) (allowAutapses : Bool) (sources targets : List Nat) (N : Int)
    (bino : Nat → Int → Nat → Nat → Int) (hb : BinomialOutcomes bino) (hN0 : 0 ≤ N)
    (hN : N < 2 ^ 32) (hu : ∀ m g, 0 < m → (ulrand m g).1 < m) {w : Nat} (hw : w ∈ d.workers)
    {g : σ} {q : Worker × σ}
    (hq : connect d ulrand paramDraw st fuel allowAutapses sources targets N bino w g = some q)
    (hok : q.1.failed = false) :
    (q.1.edges.length : Int) = (numConnsOnVp d N targets bino).getD w 0 ∧
      ∀ e ∈ q.1.edges, e.tgt ∈ targets ∧ d.owner e.tgt = w ∧ e.thread = w := by
  obtain ⟨h0, -, hz⟩ := (numConnsOnVp_spec d N targets bino hb hN0 hN).1 w hw
  obtain ⟨es, hes, hlen, hmem⟩ := emitLoop_edges ulrand paramDraw st allowAutapses sources
    (targets.filter (d.owner · = w)) w hu fuel _ _ _ (fun hpos hnil => by have := hz hnil; omega) hq hok
  replace hes : q.1.edges = es := by simpa using hes
  refine ⟨by rw [hes]; omega, fun e he => ?_⟩
  obtain ⟨hf, hthr⟩ := hmem e (hes ▸ he)
  simp only [List.mem_filter, decide_eq_true_eq] at hf
  exact ⟨hf.1, hf.2, hthr⟩

/-- `FixedTotalNumberBuilder::connect_` over all VPs, when every VP's loop
ends and none raises: between them the VPs create exactly `N` edges, each
into a target that the creating VP owns. -/
theorem connect_total {σ : Type} (ulrand : Nat → σ → Nat × σ) (paramDraw : σ → σ) (st : Storage)
    (fuel : Nat) (allowAutapses : Bool) (sources targets : List Nat) (N : Int)
    (bino : Nat → Int → Nat → Nat → Int) (hb : BinomialOutcomes bino) (hN0 : 0 ≤ N)
    (hN : N < 2 ^ 32) (hT : targets ≠ []) (hu : ∀ m g, 0 < m → (ulrand m g).1 < m)
    (g : Nat → σ) (q : Nat → Worker × σ)
    (hq : ∀ w ∈ d.workers,
      connect d ulrand paramDraw st fuel allowAutapses sources targets N bino w (g w) = some (q w))
    (hok : ∀ w ∈ d.workers, (q w).1.failed = false) :
    (d.workers.map fun w => ((q w).1.edges.length : Int)).sum = N ∧
      ∀ w ∈ d.workers, ∀ e ∈ (q w).1.edges, e.tgt ∈ targets ∧ d.owner e.tgt = w ∧ e.thread = w := by
  have hvp := fun w (hw : w ∈ d.workers) => connect_edges d ulrand paramDraw st fuel allowAutapses
    sources targets N bino hb hN0 hN hu hw (hq w hw) (hok w hw)
  refine ⟨?_, fun w hw => (hvp w hw).2⟩
  rw [← (numConnsOnVp_spec d N targets bino hb hN0 hN).2 hT]
  exact congrArg List.sum (List.map_congr_left fun w hw => (hvp w hw).1)

/-- Two VPs owning one of the targets `[1, 2]` each, `N = 3` split at the
mean, a stream whose `ulrand n` yields its state modulo `n`: VP 0 makes one
edge and VP 1 two, three in all. -/
theorem connect_total_two_vps :
    let q : Nat → Worker × Nat := fun w =>
      if w = 0 then (⟨1, [⟨1, 2, 0, 0⟩], [], [], [], false⟩, 2)
      else (⟨2, [⟨1, 1, 1, 0⟩, ⟨1, 1, 1, 1⟩], [], [], [], false⟩, 4)
    ((Decomposition.roundRobin 1 2 2 (by decide)).workers.map fun w => ((q w).1.edges.length : Int)).sum
        = 3 ∧
      ∀ w ∈ (Decomposition.roundRobin 1 2 2 (by decide)).workers, ∀ e ∈ (q w).1.edges,
        e.tgt ∈ [1, 2] ∧ (Decomposition.roundRobin 1 2 2 (by decide)).owner e.tgt = w ∧ e.thread = w :=
  connect_total (Decomposition.roundRobin 1 2 2 (by decide)) (fun n g => (g % n, g + 1)) id
    Storage.total 5 true [1, 2] [1, 2] 3 meanDraw meanDraw_outcomes (by decide) (by decide)
    (by decide) (fun _ g h => Nat.mod_lt g h) (fun _ => 0) _ (by decide) (by decide)

/-- **With autapses allowed every VP's loop ends.** Each pass of the
`while` loop then makes a connection, so with fuel beyond `N` every VP's
`connect_` returns; when none raises, the VPs together create exactly `N`
edges, each into a target that the creating VP owns. -/
theorem connect_total_with_autapses {σ : Type} (ulrand : Nat → σ → Nat × σ) (paramDraw : σ → σ)
    (st : Storage) (fuel : Nat) (sources targets : List Nat) (N : Int)
    (bino : Nat → Int → Nat → Nat → Int) (hb : BinomialOutcomes bino) (hN0 : 0 ≤ N)
    (hN : N < 2 ^ 32) (hT : targets ≠ []) (hu : ∀ m g, 0 < m → (ulrand m g).1 < m)
    (hfuel : N.toNat < fuel) (g : Nat → σ) :
    ∃ q : Nat → Worker × σ,
      (∀ w ∈ d.workers, connect d ulrand paramDraw st fuel true sources targets N bino w (g w) = some (q w)) ∧
      ((∀ w ∈ d.workers, (q w).1.failed = false) →
        (d.workers.map fun w => ((q w).1.edges.length : Int)).sum = N ∧
        ∀ w ∈ d.workers, ∀ e ∈ (q w).1.edges, e.tgt ∈ targets ∧ d.owner e.tgt = w ∧ e.thread = w) := by
  obtain ⟨hentry, hsum⟩ := numConnsOnVp_spec d N targets bino hb hN0 hN
  have hret : ∀ w ∈ d.workers, ∃ q,
      connect d ulrand paramDraw st fuel true sources targets N bino w (g w) = some q := fun w hw =>
    Option.isSome_iff_exists.1 (emitLoop_isSome ulrand paramDraw st true sources _ w rfl fuel _ _
      (by have := (hentry w hw).2.1; omega))
  let q := fun w => (connect d ulrand paramDraw st fuel true sources targets N bino w (g w)).getD
    (Worker.init, g w)
  have hq : ∀ w ∈ d.workers,
      connect d ulrand paramDraw st fuel true sources targets N bino w (g w) = some (q w) := by
    intro w hw
    obtain ⟨x, hx⟩ := hret w hw
    simp only [q, hx, Option.getD_some]
  refine ⟨q, hq, fun hok => ?_⟩
  have hvp := fun w (hw : w ∈ d.workers) => connect_edges d ulrand paramDraw st fuel true
    sources targets N bino hb hN0 hN hu hw (hq w hw) (hok w hw)
  refine ⟨?_, fun w hw => (hvp w hw).2⟩
  rw [← hsum hT]
  exact congrArg List.sum (List.map_congr_left fun w hw => (hvp w hw).1)

/-- The two VPs of `connect_total_two_vps` with fuel 5: both loops return. -/
theorem connect_total_with_autapses_two_vps :
    ((3 : Int).toNat < 5) ∧ ∃ q : Nat → Worker × Nat,
      (∀ w ∈ (Decomposition.roundRobin 1 2 2 (by decide)).workers,
        connect (Decomposition.roundRobin 1 2 2 (by decide)) (fun n g => (g % n, g + 1)) id Storage.total 5
          true [1, 2] [1, 2] 3 meanDraw w 0 = some (q w)) ∧
      ((∀ w ∈ (Decomposition.roundRobin 1 2 2 (by decide)).workers, (q w).1.failed = false) →
        ((Decomposition.roundRobin 1 2 2 (by decide)).workers.map fun w => ((q w).1.edges.length : Int)).sum
          = 3 ∧
        ∀ w ∈ (Decomposition.roundRobin 1 2 2 (by decide)).workers, ∀ e ∈ (q w).1.edges,
          e.tgt ∈ [1, 2] ∧ (Decomposition.roundRobin 1 2 2 (by decide)).owner e.tgt = w ∧ e.thread = w) :=
  ⟨by decide, connect_total_with_autapses (Decomposition.roundRobin 1 2 2 (by decide)) (fun n g => (g % n, g + 1))
    id Storage.total 5 [1, 2] [1, 2] 3 meanDraw meanDraw_outcomes (by decide) (by decide) (by decide)
    (fun _ g h => Nat.mod_lt g h) (by decide) fun _ => 0⟩

end NestConnBuilder.FixedTotalNumber
