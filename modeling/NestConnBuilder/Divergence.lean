import NestConnBuilder.Construction
import NestConnBuilder.FixedInDegree
import NestConnBuilder.FixedOutDegree
import NestConnBuilder.FixedTotalNumber
import NestConnBuilder.SymmetricBernoulli

/-!
# Loops the constructors let start and that never end

Four loops of the rules redraw until the stream gives something acceptable:
the rejection loops of `FixedInDegreeBuilder::inner_connect_` and
`FixedOutDegreeBuilder::connect_`, the emission loop of
`FixedTotalNumberBuilder::connect_`, and the truncated binomial of
`SymmetricBernoulliBuilder::connect_`. When nothing the stream can give is
acceptable, such a loop never ends, whatever the stream and however much fuel
the model gives it. The constructors admit inputs of that kind.

The stream is assumed to keep `ulrand`'s contract, a value below its bound.

## Main results

* `innerConnect_eq_none`, `drawTargetsLoop_eq_none` — with autapses disabled
  and only the node itself to draw, the in- and out-degree rejection loops never
  end (`degree_loops_never_end`).
* `emitLoop_eq_none` — with autapses disabled and every source equal to every
  local target, the fixed-total-number loop never ends once it has a
  connection to make (`total_number_loop_never_ends`).
* `truncatedIndegree_eq_none` — with no sources the truncation loop never ends
  (`symmetric_bernoulli_empty_sources_never_end`).
-/

namespace NestConnBuilder.Divergence

open NestConnBuilder Construction

section Stream

variable {σ : Type} (ulrand : Nat → σ → Nat × σ) (hu : ∀ m g, 0 < m → (ulrand m g).1 < m)
include hu

/-- Every index the stream gives into a pool of copies of `node` picks `node`. -/
private theorem getD_ulrand_of_all_eq {pool : List Nat}
    {node : Nat} (hne : pool ≠ []) (hall : ∀ n ∈ pool, n = node) (g : σ) :
    pool.getD (ulrand pool.length g).1 0 = node := by
  have hlt := hu _ g (List.length_pos.2 hne)
  rw [List.getD_eq_getElem _ _ hlt]
  exact hall _ (List.getElem_mem hlt)

/-! ## In- and out-degree -/

/-- `inner_connect_` for a target its thread owns, with autapses disabled and
every source the target itself, never ends once it has a source to draw. -/
theorem innerConnect_eq_none (paramDraw : σ → σ) (st : Storage) (fuel : Nat) (allowMultapses : Bool)
    (d : Decomposition) (sources : List Nat) (t w : Nat) (hne : sources ≠ []) (hall : ∀ s ∈ sources, s = t)
    (ho : d.owner t = w) (skip : Bool) (K : Nat) (hK : 0 < K) (p : Worker × σ) (hp : p.1.failed = false) :
    FixedInDegree.innerConnect d ulrand paramDraw st fuel false allowMultapses sources w t skip K p
      = none := by
  obtain ⟨K, rfl⟩ : ∃ K', K = K' + 1 := ⟨K - 1, by omega⟩
  have hnone := drawIndex_eq_none ulrand false allowMultapses sources t [] fun g =>
    .inl ⟨rfl, getD_ulrand_of_all_eq ulrand hu hne hall g⟩
  simp [FixedInDegree.innerConnect, ho, List.range_succ_eq_map, Worker.loop, hp,
    FixedInDegree.drawAndConnect, hnone]

/-- The out-degree pre-pass for source `s`, with autapses disabled and every
target `s` itself, never ends once it has a target to draw. -/
theorem drawTargetsLoop_eq_none (fuel : Nat) (allowMultapses : Bool) (targets : List Nat) (s : Nat)
    (hne : targets ≠ []) (hall : ∀ t ∈ targets, t = s) (k : Nat) (hk : 0 < k) (chIds : List Nat) (g : σ) :
    FixedOutDegree.drawTargetsLoop ulrand fuel false allowMultapses targets s k chIds g = none := by
  obtain ⟨k, rfl⟩ : ∃ k', k = k' + 1 := ⟨k - 1, by omega⟩
  rw [FixedOutDegree.drawTargetsLoop, drawIndex_eq_none ulrand false allowMultapses targets s chIds
    (fun g => .inl ⟨rfl, getD_ulrand_of_all_eq ulrand hu hne hall g⟩) fuel g]
  rfl

/-- One node, `S = T = [1]`, autapses disabled, multapses allowed, degree 1:
both degree constructors accept, and neither rule's rejection loop ends, in
either regime of the in-degree rule, for any stream and fuel. -/
theorem degree_loops_never_end :
    fixedInDegreeBuilder ⟨false, true, false, none⟩ 1 (.scalar 1) = .ok () ∧
      fixedOutDegreeBuilder ⟨false, true, false, none⟩ 1 (.scalar 1) = .ok () ∧
      (∀ (paramDraw : σ → σ) (st : Storage) (fuel : Nat) (loopOverTargets : Bool) (g : σ),
        FixedInDegree.connect (Decomposition.single 1) ulrand paramDraw st fuel false true loopOverTargets
          [1] [1] (fun _ g => (1, g)) 0 g = none) ∧
      (∀ (st : Storage) (fuel : Nat) (g : σ),
        FixedOutDegree.connect (Decomposition.single 1) ulrand st fuel false true [1] (fun _ g => (1, g))
          [1] (g, fun _ => Worker.init) = none) := by
  refine ⟨rfl, rfl, fun paramDraw st fuel r g => ?_, fun st fuel g => ?_⟩
  · have h := fun skip => innerConnect_eq_none ulrand hu paramDraw st fuel true (Decomposition.single 1)
      [1] 1 0 (by simp) (by simp) rfl skip 1 Nat.one_pos (Worker.init, g) rfl
    cases r
    · have hloc : (Decomposition.single 1).localNodes 0 = [1] := rfl
      simp [FixedInDegree.connect, hloc, Worker.loop, FixedInDegree.localStep, getLid, h]
    · simp [FixedInDegree.connect, Worker.loop, FixedInDegree.targetStep, h]
  · have h := drawTargetsLoop_eq_none ulrand hu fuel true [1] 1 (by simp) (by simp) 1 Nat.one_pos [] g
    simp [FixedOutDegree.connect, FixedOutDegree.drawTargets, h]

omit hu in
/-- Apply at a stream whose `ulrand m` yields its state modulo `m`. -/
theorem degree_loops_never_end_mod_stream :
    fixedInDegreeBuilder ⟨false, true, false, none⟩ 1 (.scalar 1) = .ok () ∧
      fixedOutDegreeBuilder ⟨false, true, false, none⟩ 1 (.scalar 1) = .ok () ∧
      (∀ (paramDraw : Nat → Nat) (st : Storage) (fuel : Nat) (loopOverTargets : Bool) (g : Nat),
        FixedInDegree.connect (Decomposition.single 1) (fun m g => (g % m, g + 1)) paramDraw st fuel false
          true loopOverTargets [1] [1] (fun _ g => (1, g)) 0 g = none) ∧
      (∀ (st : Storage) (fuel : Nat) (g : Nat),
        FixedOutDegree.connect (Decomposition.single 1) (fun m g => (g % m, g + 1)) st fuel false true [1]
          (fun _ g => (1, g)) [1] (g, fun _ => Worker.init) = none) :=
  degree_loops_never_end (fun m g => (g % m, g + 1)) fun _ g hm => Nat.mod_lt g hm

/-! ## Fixed total number -/

/-- The emission loop of a VP, with autapses disabled and every source equal
to every local target, never ends while it has a connection to make. -/
theorem emitLoop_eq_none (paramDraw : σ → σ) (st : Storage) (sources threadLocalTargets : List Nat)
    (w node : Nat) (hs : sources ≠ []) (ht : threadLocalTargets ≠ []) (hsall : ∀ s ∈ sources, s = node)
    (htall : ∀ t ∈ threadLocalTargets, t = node) :
    ∀ (fuel : Nat) (n : Int) (p : Worker × σ), 0 < n → p.1.failed = false →
      FixedTotalNumber.emitLoop ulrand paramDraw st false sources threadLocalTargets w fuel n p = none := by
  intro fuel
  induction fuel with
  | zero =>
    intro n p hn hp
    unfold FixedTotalNumber.emitLoop
    rw [if_neg (by simp [hp]; omega)]
  | succ fuel ih =>
    intro n p hn hp
    unfold FixedTotalNumber.emitLoop
    rw [if_neg (by simp [hp]; omega)]
    dsimp only
    -- the pair drawn is always `node → node`, a rejected autapse
    rw [getD_ulrand_of_all_eq ulrand hu hs hsall, getD_ulrand_of_all_eq ulrand hu ht htall,
      if_neg (by simp)]
    exact ih n _ hn hp

/-- One node, `S = T = [1]`, autapses disabled, multapses allowed, `N = 1`:
the constructor accepts, every binomial split gives the one VP the
connection, and its emission loop never ends, for any stream and fuel. -/
theorem total_number_loop_never_ends :
    fixedTotalNumberBuilder ⟨false, true, false, none⟩ 1 1 1 = .ok () ∧
      ∀ (bino : Nat → Int → Nat → Nat → Int), FixedTotalNumber.BinomialOutcomes bino →
        FixedTotalNumber.numConnsOnVp (Decomposition.single 1) 1 [1] bino = [1] ∧
        ∀ (paramDraw : σ → σ) (st : Storage) (fuel : Nat) (g : σ),
          FixedTotalNumber.connect (Decomposition.single 1) ulrand paramDraw st fuel false [1] [1] 1 bino 0 g
            = none := by
  refine ⟨rfl, fun bino hb => ?_⟩
  have hsplit : FixedTotalNumber.numConnsOnVp (Decomposition.single 1) 1 [1] bino = [1] := by
    have h := hb.2 0 1 1
    simp only [FixedTotalNumber.numConnsOnVp, FixedTotalNumber.numberOfTargetsOnVp,
      FixedTotalNumber.multinomial]
    simp [Decomposition.numVps, Decomposition.single, h]
  refine ⟨hsplit, fun paramDraw st fuel g => ?_⟩
  rw [FixedTotalNumber.connect, hsplit]
  exact emitLoop_eq_none ulrand hu paramDraw st [1] _ 0 1 (by simp) (by decide) (by simp) (by simp) fuel 1 _
    Int.one_pos rfl

omit hu in
/-- Apply at a stream whose `ulrand m` yields its state modulo `m`. -/
theorem total_number_loop_never_ends_mod_stream :
    fixedTotalNumberBuilder ⟨false, true, false, none⟩ 1 1 1 = .ok () ∧
      ∀ (bino : Nat → Int → Nat → Nat → Int), FixedTotalNumber.BinomialOutcomes bino →
        FixedTotalNumber.numConnsOnVp (Decomposition.single 1) 1 [1] bino = [1] ∧
        ∀ (paramDraw : Nat → Nat) (st : Storage) (fuel : Nat) (g : Nat),
          FixedTotalNumber.connect (Decomposition.single 1) (fun m g => (g % m, g + 1)) paramDraw st fuel
            false [1] [1] 1 bino 0 g = none :=
  total_number_loop_never_ends (fun m g => (g % m, g + 1)) fun _ g hm => Nat.mod_lt g hm

end Stream

/-! ## Symmetric Bernoulli -/

/-- With no sources every in-degree drawn is at least `|S| = 0`, so the
truncation loop never ends. -/
theorem truncatedIndegree_eq_none {σ : Type} (binoDraw : σ → Nat × σ) :
    ∀ (fuel : Nat) (g : σ), SymmetricBernoulli.truncatedIndegree binoDraw 0 fuel g = none
  | 0, _ => rfl
  | fuel + 1, g => by
    simp only [SymmetricBernoulli.truncatedIndegree, Nat.zero_le, if_true]
    exact truncatedIndegree_eq_none binoDraw fuel _

/-- `SymmetricBernoulliBuilder::connect_` with no sources never ends on any
VP, once there is a target. -/
theorem connect_no_sources_eq_none {σ : Type} (d : Decomposition) (binoDraw : σ → Nat × σ)
    (ulrand : Nat → σ → Nat × σ) (paramDraw : σ → σ) (st : Storage) (fuel t : Nat) (ts : List Nat)
    (w : Nat) (g : σ) :
    SymmetricBernoulli.connect d binoDraw ulrand paramDraw st fuel [] (t :: ts) w g = none := by
  simp [SymmetricBernoulli.connect, Worker.loop, SymmetricBernoulli.targetStep, truncatedIndegree_eq_none]

/-- `p = 1/2`, autapses disabled, multapses and `make_symmetric` enabled:
the constructor accepts, and with an empty source collection no VP's run ends,
for any decomposition, targets, streams and fuel. -/
theorem symmetric_bernoulli_empty_sources_never_end :
    symmetricBernoulliBuilder ⟨false, true, true, none⟩ (.num (1 / 2)) = .ok () ∧
      ∀ {σ : Type} (binoDraw : σ → Nat × σ) (ulrand : Nat → σ → Nat × σ) (paramDraw : σ → σ)
        (d : Decomposition) (st : Storage) (fuel t : Nat) (ts : List Nat) (w : Nat) (g : σ),
        SymmetricBernoulli.connect d binoDraw ulrand paramDraw st fuel [] (t :: ts) w g = none :=
  ⟨(symmetricBernoulliBuilder_ok_iff _ _).2 ⟨.inr ⟨1 / 2, rfl, by norm_num, by norm_num⟩, rfl, rfl, rfl⟩,
    fun binoDraw ulrand paramDraw d st fuel t ts w g =>
      connect_no_sources_eq_none d binoDraw ulrand paramDraw st fuel t ts w g⟩

end NestConnBuilder.Divergence
