import NestConnBuilder.SynapseSpecs
import NestConnBuilder.Worker

/-!
# Tripartite Bernoulli with pool: three builders in one loop

`TripartiteBernoulliWithPoolBuilder` connects sources to targets like a
Bernoulli rule and, for each connection made, may add a third-factor node `c`
with the two edges `s → c` and `c → t`. The primary edges go through the
builder itself; the other two through the auxiliary builders `third_in_builder_`
and `third_out_builder_`, each a `ConnBuilder` with its own synapse specs and
parameter arrays, all called inside one `try` block per thread.

The constructor builds the three `ConnBuilder`s (`SynapseSpecs.connBuilderParams`,
each with its own synapse specs), sets `pool_size_` and
`targets_per_third_( targets->size() / third->size() )` in its member
initializers, then reads `conn_spec` and checks the values. The division comes
first: an empty third-factor collection divides by zero before any check can
refuse it. With a non-empty one, what the checks admit keeps every block pool
inside the collection.

`connect_` walks the targets on every thread, drawing from a stream that every
thread starts in the same state: the in-degree, the pool, the sources, and
for each source the third-factor trial and pool position. The parameters of
the edges come from the per-VP stream, which the model leaves out. So every
thread draws one plan (`drawPlan`) and makes the calls of it whose node it
owns. A thread that raises leaves the loop; the stream it leaves behind is
never read again, since `ConnBuilder::connect` then rethrows.

## Main results

* `tripartiteBuilder_pool_windows` — an accepted builder has a pool size in
  `[1, |third|]`, and every block pool `first(t) .. first(t) + pool_size - 1`
  lies inside the third-factor collection.
* `tripartiteBuilder_empty_third` — with an empty third-factor collection the
  constructor yields no builder, and divides by zero whenever the three
  `ConnBuilder`s are built.
* `connect_trio` — a thread's pass is the run of the calls of the plan it owns.
* `tripartite_positions` — with no skipping and one set of cursors per builder,
  the `i`-th edge a builder creates on a VP reads position `i` of its arrays.
* `tripartite_edges` — in runs where no VP raises, the VPs together create
  the primary, third-in and third-out edges of the plan, each once on the
  thread owning its target; the plan draws distinct sources per target and
  third-factor nodes from the target's pool.
-/

namespace NestConnBuilder.Tripartite

open NestConnBuilder NestConnBuilder.Construction NestConnBuilder.SynapseSpecs

/-! ## The constructor -/

/-- The keys of `conn_spec` the tripartite constructor reads with
`updateValue`, each `none` where the dictionary lacks it. -/
structure TripartiteSpec where
  pPrimary : Option Double
  pThirdIfPrimary : Option Double
  poolSize : Option Int
  poolType : Option String
  deriving DecidableEq, Repr

/-- The members the constructor sets and `connect_` reads; `pool_size_` as
the natural number it is once the checks have passed. -/
structure Params where
  pPrimary : Double
  pThirdIfPrimary : Double
  randomPool : Bool
  poolSize : Nat
  targetsPerThird : Nat
  deriving DecidableEq, Repr

/-- `updateValue< std::string >( conn_spec, names::pool_type, pool_type )` and
the branch on its value: whether pools are drawn at random. -/
def readPoolType : Option String → Except ConnError Bool
  | none => .ok true
  | some "random" => .ok true
  | some "block" => .ok false
  | some _ => .error (.badProperty "pool_type must be 'random' or 'block'")

/-- The checks of the constructor's body on the values it read. -/
def checkTripartite (nTargets nThird : Nat) (pPrimary pThirdIfPrimary : Double) (poolSize : Int)
    (randomPool : Bool) : Except ConnError Unit :=
  if pPrimary.lt (.num 0) || (Double.num 1).lt pPrimary then
    .error (.badProperty "Probability of primary connection 0 ≤ p_primary ≤ 1 required")
  else if pThirdIfPrimary.lt (.num 0) || (Double.num 1).lt pThirdIfPrimary then
    .error (.badProperty
      "Conditional probability of third-factor connection 0 ≤ p_third_if_primary ≤ 1 required")
  else if poolSize < 1 ∨ (nThird : Int) < poolSize then
    .error (.badProperty "Pool size 1 ≤ pool_size ≤ size of third-factor population required")
  else if !(randomPool || decide ((nTargets : Int) * poolSize = nThird) ||
      (decide (poolSize = 1) && decide (nTargets % nThird = 0))) then
    .error (.badProperty ("The sizes of target and third-factor populations and the chosen " ++
      "pool size do not fit. If pool_size == 1, the target population size must be a " ++
      "multiple of the third-factor population size. For pool_size > 1, size(targets) * " ++
      "pool_size == size(third factor) is required. For all other cases, use random pools."))
  else .ok ()

section Constructor

variable {τ : Type}

/-- `TripartiteBernoulliWithPoolBuilder::TripartiteBernoulliWithPoolBuilder`
with `numThreads` threads: the base `ConnBuilder` for sources and targets with
the `primary` synapse specs, the auxiliary builders for sources and third
factors (`third_in`) and for third factors and targets (`third_out`), then the
member initializers and the body. `none` is the undefined behaviour of a
`ConnBuilder` given no synapse spec, or the division by zero of
`targets_per_third_`. The three builders' parameter states are not returned:
the loop below follows their cursor positions only. -/
def tripartiteBernoulliWithPoolBuilder (mm : ModelManager τ) (numThreads : Nat) (spec : ConnSpec)
    (primary thirdIn thirdOut : List (SynapseDict τ)) (sourcesValid targetsValid thirdValid : Bool)
    (nTargets nThird : Nat) (tspec : TripartiteSpec) : Option (Except ConnError (BaseBuilder × Params)) :=
  match connBuilderParams mm numThreads spec primary sourcesValid targetsValid with
  | none => none
  | some (.error e) => some (.error e)
  | some (.ok (b, _)) =>
    match connBuilderParams mm numThreads spec thirdIn sourcesValid thirdValid with
    | none => none
    | some (.error e) => some (.error e)
    | some (.ok _) =>
      match connBuilderParams mm numThreads spec thirdOut thirdValid targetsValid with
      | none => none
      | some (.error e) => some (.error e)
      | some (.ok _) =>
        if nThird = 0 then none
        else
          let pPrimary := tspec.pPrimary.getD (.num 1)
          let pThirdIfPrimary := tspec.pThirdIfPrimary.getD (.num 1)
          let poolSize := tspec.poolSize.getD nThird
          some <| match readPoolType tspec.poolType with
            | .error e => .error e
            | .ok randomPool =>
              match checkTripartite nTargets nThird pPrimary pThirdIfPrimary poolSize randomPool with
              | .error e => .error e
              | .ok () => .ok (b, ⟨pPrimary, pThirdIfPrimary, randomPool, poolSize.toNat, nTargets / nThird⟩)

/-- `get_first_pool_index_( target_index )`: the start of a target's block
pool. -/
def Params.firstPoolIndex (prm : Params) (targetIndex : Nat) : Nat :=
  if prm.poolSize > 1 then targetIndex * prm.poolSize else targetIndex / prm.targetsPerThird

/-- What the body's checks leave when they pass: a pool size in
`[1, |third|]`, and sizes that fit unless the pool is random. -/
theorem checkTripartite_eq_ok {nTargets nThird : Nat} {pPrimary pThirdIfPrimary : Double}
    {poolSize : Int} {randomPool : Bool}
    (h : checkTripartite nTargets nThird pPrimary pThirdIfPrimary poolSize randomPool = .ok ()) :
    1 ≤ poolSize ∧ poolSize ≤ nThird ∧ (randomPool = false →
      (nTargets : Int) * poolSize = nThird ∨ (poolSize = 1 ∧ nTargets % nThird = 0)) := by
  unfold checkTripartite at h
  -- the two probability checks
  cases h₁ : (pPrimary.lt (.num 0) || (Double.num 1).lt pPrimary) <;>
    simp only [h₁, if_true, if_false] at h
  case true => cases h
  cases h₂ : (pThirdIfPrimary.lt (.num 0) || (Double.num 1).lt pThirdIfPrimary) <;>
    simp only [h₂, if_true, if_false] at h
  case true => cases h
  -- the pool size, then the fit of the sizes
  by_cases hpool : poolSize < 1 ∨ (nThird : Int) < poolSize
  · rw [if_pos hpool] at h; cases h
  rw [if_neg hpool] at h
  by_cases hfit : (!(randomPool || decide ((nTargets : Int) * poolSize = nThird) ||
      (decide (poolSize = 1) && decide (nTargets % nThird = 0)))) = true
  · rw [if_pos hfit] at h; cases h
  refine ⟨by omega, by omega, fun hrp => ?_⟩
  simpa only [hrp, Bool.not_eq_true, Bool.not_eq_false', Bool.false_or, Bool.or_eq_true,
    Bool.and_eq_true, decide_eq_true_eq] using hfit

/-- What an accepted builder satisfies, read off the checks. -/
theorem tripartiteBuilder_eq_ok {mm : ModelManager τ} {numThreads : Nat} {spec : ConnSpec}
    {primary thirdIn thirdOut : List (SynapseDict τ)} {sourcesValid targetsValid thirdValid : Bool}
    {nTargets nThird : Nat} {tspec : TripartiteSpec} {b : BaseBuilder} {prm : Params}
    (h : tripartiteBernoulliWithPoolBuilder mm numThreads spec primary thirdIn thirdOut sourcesValid
      targetsValid thirdValid nTargets nThird tspec = some (.ok (b, prm))) :
    0 < nThird ∧ 1 ≤ prm.poolSize ∧ prm.poolSize ≤ nThird ∧ prm.targetsPerThird = nTargets / nThird ∧
      (prm.randomPool = false →
        nTargets * prm.poolSize = nThird ∨ (prm.poolSize = 1 ∧ nTargets % nThird = 0)) := by
  unfold tripartiteBernoulliWithPoolBuilder at h
  -- the three `ConnBuilder`s
  split at h <;> try cases h
  split at h <;> try cases h
  split at h <;> try cases h
  split at h
  · cases h
  · rename_i hthird
    simp only [Option.some.injEq] at h
    split at h
    · cases h
    · split at h
      · cases h
      · rename_i rp _ hcheck
        cases h
        obtain ⟨hone, hle, hfit⟩ := checkTripartite_eq_ok hcheck
        generalize tspec.poolSize.getD ↑nThird = p at hone hle hfit ⊢
        obtain ⟨n, rfl⟩ : ∃ n : Nat, p = n := ⟨p.toNat, by omega⟩
        dsimp only
        rw [Int.toNat_ofNat]
        exact ⟨by omega, by omega, by omega, rfl, fun hrp => by exact_mod_cast hfit hrp⟩

/-- **Block pools stay inside the third-factor collection.** An accepted
builder has a pool size in `[1, |third|]`; with block pools, every target
position `lid < |targets|` has its pool `first(lid) .. first(lid) + pool_size - 1`
inside the collection, and `get_first_pool_index_` divides by a positive
`targets_per_third_` whenever it divides. -/
theorem tripartiteBuilder_pool_windows {mm : ModelManager τ} {numThreads : Nat} {spec : ConnSpec}
    {primary thirdIn thirdOut : List (SynapseDict τ)} {sourcesValid targetsValid thirdValid : Bool}
    {nTargets nThird : Nat} {tspec : TripartiteSpec} {b : BaseBuilder} {prm : Params}
    (h : tripartiteBernoulliWithPoolBuilder mm numThreads spec primary thirdIn thirdOut sourcesValid
      targetsValid thirdValid nTargets nThird tspec = some (.ok (b, prm))) :
    1 ≤ prm.poolSize ∧ prm.poolSize ≤ nThird ∧
      (prm.randomPool = false → ∀ lid < nTargets,
        (prm.poolSize ≤ 1 → 0 < prm.targetsPerThird) ∧
          prm.firstPoolIndex lid + prm.poolSize ≤ nThird) := by
  obtain ⟨hthird, hone, hle, htpt, hfit⟩ := tripartiteBuilder_eq_ok h
  refine ⟨hone, hle, fun hrp lid hlid => ?_⟩
  unfold Params.firstPoolIndex
  split
  · -- consecutive blocks of `pool_size` nodes, one per target
    have hblock : nTargets * prm.poolSize = nThird := (hfit hrp).resolve_right (by omega)
    refine ⟨by omega, ?_⟩
    calc lid * prm.poolSize + prm.poolSize = (lid + 1) * prm.poolSize := (Nat.succ_mul _ _).symm
      _ ≤ nTargets * prm.poolSize := Nat.mul_le_mul_right _ hlid
      _ = nThird := hblock
  · -- one node for each run of `targets_per_third_` consecutive targets
    have hps : prm.poolSize = 1 := by omega
    have hdvd : nThird ∣ nTargets := by
      rcases hfit hrp with hblock | ⟨-, hmod⟩
      · exact ⟨1, by rw [hps, Nat.mul_one] at hblock; omega⟩
      · exact Nat.dvd_of_mod_eq_zero hmod
    obtain ⟨q, rfl⟩ := hdvd
    rw [htpt, Nat.mul_div_cancel_left q hthird, hps]
    have hq : 0 < q := Nat.pos_of_ne_zero fun hq => by simp [hq] at hlid
    exact ⟨fun _ => hq, (Nat.div_lt_iff_lt_mul hq).2 hlid⟩

end Constructor

/-- A synapse spec naming `static_synapse` and nothing else. -/
def staticSpec : SynapseDict Unit := ⟨some "static_synapse", ⟨none, none⟩, []⟩

/-- Two targets sharing four third-factor nodes in blocks of two:
`targets_per_third_` is `0`, and `get_first_pool_index_` never divides by it. -/
example : tripartiteBernoulliWithPoolBuilder oneModel 1 ⟨none, none, none⟩ [staticSpec] [staticSpec]
      [staticSpec] true true true 2 4 ⟨none, none, some 2, some "block"⟩ =
      some (.ok (⟨true, true, false, none⟩, ⟨.num 1, .num 1, false, 2, 0⟩)) := rfl

/-- **An empty third-factor collection divides by zero.** The member
initializer `targets_per_third_( targets->size() / third->size() )` runs
before any check of the body, so whenever the three `ConnBuilder`s are built
the constructor divides by zero instead of throwing. -/
theorem tripartiteBuilder_empty_third {τ : Type} {mm : ModelManager τ} {numThreads : Nat}
    {spec : ConnSpec} {primary thirdIn thirdOut : List (SynapseDict τ)}
    {sourcesValid targetsValid thirdValid : Bool} {nTargets : Nat} {tspec : TripartiteSpec}
    {b₁ b₂ b₃ : BaseBuilder} {st₁ st₂ st₃ : Parameters.ParamState τ}
    (h₁ : connBuilderParams mm numThreads spec primary sourcesValid targetsValid = some (.ok (b₁, st₁)))
    (h₂ : connBuilderParams mm numThreads spec thirdIn sourcesValid thirdValid = some (.ok (b₂, st₂)))
    (h₃ : connBuilderParams mm numThreads spec thirdOut thirdValid targetsValid = some (.ok (b₃, st₃))) :
    tripartiteBernoulliWithPoolBuilder mm numThreads spec primary thirdIn thirdOut sourcesValid
      targetsValid thirdValid nTargets 0 tspec = none := by
  simp [tripartiteBernoulliWithPoolBuilder, h₁, h₂, h₃]

theorem tripartiteBuilder_empty_third_at_defaults :
    tripartiteBernoulliWithPoolBuilder oneModel 1 ⟨none, none, none⟩ [staticSpec] [staticSpec] [staticSpec]
      true true true 4 0 ⟨none, none, none, none⟩ = none :=
  tripartiteBuilder_empty_third rfl rfl rfl

/-! ## Three builders in one `try` block -/

/-- The builder a call goes through. -/
inductive Role
  /-- The rule's own `single_connect_`, source to target. -/
  | primary
  /-- `third_in_builder_.single_connect`, source to third factor. -/
  | thirdIn
  /-- `third_out_builder_.single_connect`, third factor to target. -/
  | thirdOut
  deriving DecidableEq, Repr

/-- A thread's state: what the calls through each builder have done, each
builder with its own parameter cursors. The three share the thread's
exception slot. -/
structure Trio where
  primary : Worker
  thirdIn : Worker
  thirdOut : Worker
  deriving DecidableEq, Repr

/-- The action of a call that goes through builder `r`. -/
def Role.select (r : Role) (c : Role × Action) : Option Action :=
  if c.1 = r then some c.2 else none

@[simp] theorem Role.select_mk (r r' : Role) (a : Action) :
    r.select (r', a) = if r' = r then some a else none := rfl

namespace Trio

/-- A thread before the loop. -/
def init : Trio := ⟨Worker.init, Worker.init, Worker.init⟩

/-- The state of one builder. -/
def role (x : Trio) : Role → Worker
  | .primary => x.primary
  | .thirdIn => x.thirdIn
  | .thirdOut => x.thirdOut

/-- The thread with the state of one builder replaced. -/
def update (x : Trio) : Role → Worker → Trio
  | .primary, wk => { x with primary := wk }
  | .thirdIn, wk => { x with thirdIn := wk }
  | .thirdOut, wk => { x with thirdOut := wk }

/-- Whether the thread's exception slot is set. -/
def failed (x : Trio) : Bool := x.primary.failed || x.thirdIn.failed || x.thirdOut.failed

/-- One call inside the `try` block, through the builder of its role: after
an exception the rest of the block is skipped. -/
def call (st : Role → Storage) (x : Trio) (c : Role × Action) : Trio :=
  if x.failed then x else x.update c.1 ((x.role c.1).step (st c.1) c.2)

/-- The calls of a thread's loop, in order. -/
def run (st : Role → Storage) (x : Trio) (calls : List (Role × Action)) : Trio :=
  calls.foldl (call st) x

@[simp] theorem init_failed : init.failed = false := rfl

theorem run_append (st : Role → Storage) (x : Trio) (xs ys : List (Role × Action)) :
    x.run st (xs ++ ys) = (x.run st xs).run st ys :=
  List.foldl_append _ _ _ _

theorem run_of_failed (st : Role → Storage) {x : Trio} (h : x.failed = true) :
    ∀ calls, x.run st calls = x
  | [] => rfl
  | c :: calls => by simpa [run, call, h] using run_of_failed st h calls

/-- A call after which the slot is empty was made by a thread that had not
raised, and its builder executed it. -/
theorem call_of_ok (st : Role → Storage) {x : Trio} {c : Role × Action}
    (h : (x.call st c).failed = false) :
    x.failed = false ∧ ∀ r, (x.call st c).role r = (x.role r).exec ([c].filterMap r.select) := by
  obtain ⟨r₀, a⟩ := c
  cases hx : x.failed
  case true => simp [call, hx] at h
  case false =>
    have hcall : x.call st (r₀, a) = x.update r₀ ((x.role r₀).step (st r₀) a) := if_neg (by simp [hx])
    rw [hcall] at h ⊢
    have hstep : ((x.role r₀).step (st r₀) a).failed = false := by
      cases r₀ <;> simp_all [update, failed, role]
    rw [(Worker.step_of_ok (st r₀) hstep).2]
    refine ⟨rfl, fun r => ?_⟩
    cases r <;> cases r₀ <;> simp [update, role, List.filterMap_cons]

/-- A run whose slot stays empty: every builder executed the calls that went
through it. -/
theorem run_of_ok (st : Role → Storage) :
    ∀ (calls : List (Role × Action)) (x : Trio), (x.run st calls).failed = false →
      x.failed = false ∧ ∀ r, (x.run st calls).role r = (x.role r).exec (calls.filterMap r.select)
  | [], x, h => ⟨h, fun _ => rfl⟩
  | c :: calls, x, h => by
    obtain ⟨hc, hrest⟩ := run_of_ok st calls (x.call st c) h
    obtain ⟨hx, hcall⟩ := call_of_ok st hc
    refine ⟨hx, fun r => ?_⟩
    rw [run, List.foldl_cons, ← run, hrest r, hcall r, ← Worker.exec_append,
      ← List.filterMap_append, List.singleton_append]

/-- A call of a thread that has not raised runs, on builder `r`, the part of
it that goes through `r`. -/
theorem call_role (st : Role → Storage) {x : Trio} (h : x.failed = false) (c : Role × Action) (r : Role) :
    (x.call st c).role r = (x.role r).run (st r) ([c].filterMap r.select) := by
  obtain ⟨r₀, a⟩ := c
  have hcall : x.call st (r₀, a) = x.update r₀ ((x.role r₀).step (st r₀) a) := if_neg (by simp [h])
  rw [hcall]
  cases r <;> cases r₀ <;> rfl

/-- Whatever raises, builder `r` creates a prefix of the edges its own calls
would create, each builder with its own cursors. -/
theorem run_role_prefix (st : Role → Storage) (r : Role) :
    ∀ (calls : List (Role × Action)) {x : Trio}, x.failed = false →
      ((x.run st calls).role r).edges <+:
        (x.role r).edges ++ emitted (x.role r).cursor (calls.filterMap r.select)
  | [], x, _ => by simp [run, emitted]
  | c :: calls, x, h => by
    have hr : (x.role r).failed = false := by
      simp only [failed, Bool.or_eq_false_iff] at h
      cases r <;> simp [role, h]
    have hsplit : (c :: calls).filterMap r.select = [c].filterMap r.select ++ calls.filterMap r.select := by
      rw [← List.filterMap_append, List.singleton_append]
    rw [run, List.foldl_cons, ← run, hsplit, emitted_append, ← List.append_assoc]
    cases hc : (x.call st c).failed
    · -- the call left the slot empty: builder `r` executed its part of it
      have hrest := run_role_prefix st r calls hc
      rwa [(call_of_ok st hc).2 r, Worker.exec_edges, Worker.exec_cursor] at hrest
    · -- the call raised: nothing runs after it
      rw [run_of_failed st hc, call_role st h c r]
      exact (Worker.edges_run_prefix (st r) _ hr).trans (List.prefix_append _ _)

end Trio

/-! ## The loop of `connect_` -/

section Loop

variable (d : Decomposition) {σ : Type} (bino : Nat → Double → σ → Nat × σ)
  (drand : σ → ℚ × σ) (ulrand : Nat → σ → Nat × σ) (sample : List Nat → Nat → σ → List Nat × σ)

/-- The pool of the target at position `lid`: `pool_size_` nodes sampled from
the third-factor collection, or the block starting at
`get_first_pool_index_( lid )`. -/
def drawPool (prm : Params) (third : List Nat) (lid : Nat) (g : σ) : List Nat × σ :=
  if prm.randomPool then sample third prm.poolSize g
  else ((third.drop (prm.firstPoolIndex lid)).take prm.poolSize, g)

/-- The body of the source loop for source `s` of target `t` on VP `w`: the
calls it makes, in order, and the stream after its draws. -/
def sourceDraw (prm : Params) (allowAutapses : Bool) (pool : List Nat) (w t s : Nat) (g : σ) :
    List (Role × Action) × σ :=
  if allowAutapses = false ∧ s = t then ([], g)
  else
    let primary := if d.owner t = w then [(Role.primary, Action.connect s t w)] else []
    let r := drand g
    if !(Double.num r.1).lt prm.pThirdIfPrimary then (primary, r.2)
    else
      let i := if prm.poolSize = 1 then (0, r.2) else ulrand prm.poolSize r.2
      let c := pool.getD i.1 0
      (primary ++ (if d.owner c = w then [(Role.thirdIn, Action.connect s c w)] else []) ++
        (if d.owner t = w then [(Role.thirdOut, Action.connect c t w)] else []), i.2)

/-- The calls of a loop whose bodies draw from one stream, each from the state
the previous one left. -/
def drawCalls {α β τ : Type*} (draw : α → τ → List β × τ) : List α → τ → List β × τ
  | [], g => ([], g)
  | a :: as, g =>
    let r := draw a g
    let rest := drawCalls draw as r.2
    (r.1 ++ rest.1, rest.2)

/-- One iteration of the target loop on VP `w`, for the target `q.2` at
position `q.1`: the in-degree, the pool, the sources, then the source loop. -/
def targetDraw (prm : Params) (allowAutapses : Bool) (sources third : List Nat) (w : Nat)
    (q : Nat × Nat) (g : σ) : List (Role × Action) × σ :=
  let k := bino sources.length prm.pPrimary g
  if k.1 = 0 then ([], k.2)
  else
    let pool := drawPool sample prm third q.1 k.2
    let chosen := sample sources k.1 pool.2
    drawCalls (sourceDraw d drand ulrand prm allowAutapses pool.1 w q.2) chosen.1 chosen.2

/-- The target loop on VP `w` over (position, target) pairs, inside the `try`
block: a thread that has raised leaves it. -/
def targetLoop (st : Role → Storage) (prm : Params) (allowAutapses : Bool)
    (sources third : List Nat) (w : Nat) : List (Nat × Nat) → Trio × σ → Trio × σ
  | [], p => p
  | q :: qs, p =>
    if p.1.failed then p
    else
      let r := targetDraw d bino drand ulrand sample prm allowAutapses sources third w q p.2
      targetLoop st prm allowAutapses sources third w qs (p.1.run st r.1, r.2)

/-- `TripartiteBernoulliWithPoolBuilder::connect_` on VP `w`, from the synced
stream state `g` that every thread starts from. -/
def connect (st : Role → Storage) (prm : Params) (allowAutapses : Bool)
    (sources targets third : List Nat) (w : Nat) (g : σ) : Trio × σ :=
  targetLoop d bino drand ulrand sample st prm allowAutapses sources third w targets.enum
    (Trio.init, g)

end Loop

/-! ## The plan every thread walks -/

/-- What one target contributes to the plan: its position and id, its pool,
and each source kept, with the third-factor node drawn for it if the trial
succeeded. -/
structure TargetPlan where
  lid : Nat
  target : Nat
  pool : List Nat
  picks : List (Nat × Option Nat)
  deriving DecidableEq, Repr

/-- The edge a kept source stands for in each builder, as (source, target). -/
def Role.pairs : Role → Nat → Nat × Option Nat → List (Nat × Nat)
  | .primary, t, sc => [(sc.1, t)]
  | .thirdIn, _, sc => sc.2.toList.map fun c => (sc.1, c)
  | .thirdOut, t, sc => sc.2.toList.map fun c => (c, t)

/-- The edges of a plan in one builder. -/
def Role.planPairs (r : Role) (plan : List TargetPlan) : List (Nat × Nat) :=
  plan.flatMap fun e => e.picks.flatMap (r.pairs e.target)

section Plan

variable (d : Decomposition) {σ : Type} (bino : Nat → Double → σ → Nat × σ)
  (drand : σ → ℚ × σ) (ulrand : Nat → σ → Nat × σ) (sample : List Nat → Nat → σ → List Nat × σ)

/-- The draws of the source loop body without the calls: `none` for a skipped
autapse, else the source with the third-factor node if the trial succeeded. -/
def sourcePick (prm : Params) (allowAutapses : Bool) (pool : List Nat) (t s : Nat) (g : σ) :
    Option (Nat × Option Nat) × σ :=
  if allowAutapses = false ∧ s = t then (none, g)
  else
    let r := drand g
    if !(Double.num r.1).lt prm.pThirdIfPrimary then (some (s, none), r.2)
    else
      let i := if prm.poolSize = 1 then (0, r.2) else ulrand prm.poolSize r.2
      (some (s, some (pool.getD i.1 0)), i.2)

/-- The values a list of draws keeps, each draw from the state the previous
one left. -/
def pickAll {α β τ : Type*} (pick : α → τ → Option β × τ) : List α → τ → List β × τ
  | [], g => ([], g)
  | a :: as, g =>
    let r := pick a g
    let rest := pickAll pick as r.2
    (r.1.toList ++ rest.1, rest.2)

/-- The draws of one iteration of the target loop. -/
def targetPlan (prm : Params) (allowAutapses : Bool) (sources third : List Nat) (q : Nat × Nat)
    (g : σ) : TargetPlan × σ :=
  let k := bino sources.length prm.pPrimary g
  if k.1 = 0 then (⟨q.1, q.2, [], []⟩, k.2)
  else
    let pool := drawPool sample prm third q.1 k.2
    let chosen := sample sources k.1 pool.2
    let picks := pickAll (sourcePick drand ulrand prm allowAutapses pool.1 q.2) chosen.1 chosen.2
    (⟨q.1, q.2, pool.1, picks.1⟩, picks.2)

@[simp] theorem targetPlan_lid (prm : Params) (allowAutapses : Bool) (sources third : List Nat)
    (q : Nat × Nat) (g : σ) :
    (targetPlan bino drand ulrand sample prm allowAutapses sources third q g).1.lid = q.1 := by
  unfold targetPlan
  dsimp only
  split <;> rfl

@[simp] theorem targetPlan_target (prm : Params) (allowAutapses : Bool) (sources third : List Nat)
    (q : Nat × Nat) (g : σ) :
    (targetPlan bino drand ulrand sample prm allowAutapses sources third q g).1.target = q.2 := by
  unfold targetPlan
  dsimp only
  split <;> rfl

/-- The draw plan: every target with its draws, in order. -/
def drawPlan (prm : Params) (allowAutapses : Bool) (sources third : List Nat) :
    List (Nat × Nat) → σ → List TargetPlan × σ
  | [], g => ([], g)
  | q :: qs, g =>
    let r := targetPlan bino drand ulrand sample prm allowAutapses sources third q g
    let rest := drawPlan prm allowAutapses sources third qs r.2
    (r.1 :: rest.1, rest.2)

/-- The calls VP `w` makes for a kept source of target `t`: each builder's
edge, in the order of the code, when `w` owns the edge's target. -/
def pickCalls (w t : Nat) (sc : Nat × Option Nat) : List (Role × Action) :=
  [Role.primary, .thirdIn, .thirdOut].flatMap fun r =>
    (r.pairs t sc).flatMap fun p => if d.owner p.2 = w then [(r, .connect p.1 p.2 w)] else []

/-- The calls VP `w` makes for a plan. -/
def planCalls (w : Nat) (plan : List TargetPlan) : List (Role × Action) :=
  plan.flatMap fun e => e.picks.flatMap (pickCalls d w e.target)

end Plan

/-! ## Every thread walks the plan -/

section Simulation

variable (d : Decomposition) {σ : Type} (bino : Nat → Double → σ → Nat × σ)
  (drand : σ → ℚ × σ) (ulrand : Nat → σ → Nat × σ) (sample : List Nat → Nat → σ → List Nat × σ)
  (prm : Params) (allowAutapses : Bool)

/-- The source loop body makes the draws of `sourcePick` and the calls of the
kept source that VP `w` owns. -/
theorem sourceDraw_eq (pool : List Nat) (w t s : Nat) (g : σ) :
    sourceDraw d drand ulrand prm allowAutapses pool w t s g =
      ((sourcePick drand ulrand prm allowAutapses pool t s g).1.toList.flatMap (pickCalls d w t),
        (sourcePick drand ulrand prm allowAutapses pool t s g).2) := by
  unfold sourceDraw sourcePick
  by_cases ha : allowAutapses = false ∧ s = t
  · simp [ha]
  · cases hlt : (Double.num (drand g).1).lt prm.pThirdIfPrimary <;>
      simp [ha, hlt, pickCalls, Role.pairs]

theorem drawCalls_eq_pickAll {α β γ τ : Type*} {draw : α → τ → List γ × τ}
    {pick : α → τ → Option β × τ} {f : β → List γ}
    (h : ∀ a g, draw a g = ((pick a g).1.toList.flatMap f, (pick a g).2)) :
    ∀ (l : List α) (g : τ), drawCalls draw l g = ((pickAll pick l g).1.flatMap f, (pickAll pick l g).2)
  | [], _ => rfl
  | a :: l, g => by
    simp only [drawCalls, pickAll, h, drawCalls_eq_pickAll h l, List.flatMap_append]

theorem targetDraw_eq (sources third : List Nat) (w : Nat) (q : Nat × Nat) (g : σ) :
    targetDraw d bino drand ulrand sample prm allowAutapses sources third w q g =
      ((targetPlan bino drand ulrand sample prm allowAutapses sources third q g).1.picks.flatMap
          (pickCalls d w q.2),
        (targetPlan bino drand ulrand sample prm allowAutapses sources third q g).2) := by
  unfold targetDraw targetPlan
  dsimp only
  split
  · rfl
  · rw [drawCalls_eq_pickAll (sourceDraw_eq d drand ulrand prm allowAutapses _ w q.2)]

/-- **A thread's pass is the run of the plan's calls it owns.** Whatever it
owns, every VP draws the same plan from the synced stream; its builders see the
calls of that plan whose target it owns, in order. -/
theorem targetLoop_trio (st : Role → Storage) (sources third : List Nat) (w : Nat) :
    ∀ (qs : List (Nat × Nat)) (p : Trio × σ),
      (targetLoop d bino drand ulrand sample st prm allowAutapses sources third w qs p).1 =
        p.1.run st (planCalls d w
          (drawPlan bino drand ulrand sample prm allowAutapses sources third qs p.2).1)
  | [], _ => rfl
  | q :: qs, p => by
    unfold targetLoop
    split
    · exact (Trio.run_of_failed st ‹_› _).symm
    · rw [targetLoop_trio st sources third w qs, targetDraw_eq, ← Trio.run_append]
      simp only [drawPlan, planCalls, List.flatMap_cons, targetPlan_target]

theorem connect_trio (st : Role → Storage) (sources targets third : List Nat) (w : Nat) (g : σ) :
    (connect d bino drand ulrand sample st prm allowAutapses sources targets third w g).1 =
      Trio.init.run st (planCalls d w
        (drawPlan bino drand ulrand sample prm allowAutapses sources third targets.enum g).1) :=
  targetLoop_trio d bino drand ulrand sample prm allowAutapses st sources third w _ _

end Simulation

/-! ## What the plan draws -/

/-- The contract of `sample( begin, end, out, k )`: `min k n` elements of the
collection, in their order, none twice. -/
def SampleContract {σ : Type} (sample : List Nat → Nat → σ → List Nat × σ) : Prop :=
  ∀ l k g, (sample l k g).1.Sublist l ∧ (sample l k g).1.length = min k l.length

/-- The pool of the target at position `lid` fits the third-factor
collection of `nThird` nodes: what an accepted builder guarantees for every
target position. -/
def Params.PoolFits (prm : Params) (nThird lid : Nat) : Prop :=
  1 ≤ prm.poolSize ∧ prm.poolSize ≤ nThird ∧
    (prm.randomPool = false → prm.firstPoolIndex lid + prm.poolSize ≤ nThird)

/-- What the draws of one target satisfy: the kept sources are distinct
positions of the source collection in order, none the target when autapses
are off, and each third-factor node is in the target's pool, in the
collection, and for block pools in the block of the target's position. -/
def TargetPlan.WellFormed (prm : Params) (allowAutapses : Bool) (sources third : List Nat)
    (e : TargetPlan) : Prop :=
  (e.picks.map Prod.fst).Sublist sources ∧
    ∀ sc ∈ e.picks, (allowAutapses = false → sc.1 ≠ e.target) ∧
      ∀ c ∈ sc.2, c ∈ e.pool ∧ c ∈ third ∧
        (prm.randomPool = false → ∃ i < prm.poolSize, third[prm.firstPoolIndex e.lid + i]? = some c)

section PlanSpec

variable {σ : Type} (bino : Nat → Double → σ → Nat × σ) (drand : σ → ℚ × σ)
  (ulrand : Nat → σ → Nat × σ) (sample : List Nat → Nat → σ → List Nat × σ)

theorem pickAll_sublist {α β τ : Type*} {pick : α → τ → Option β × τ} {key : β → α}
    (h : ∀ a g b, (pick a g).1 = some b → key b = a) :
    ∀ (l : List α) (g : τ), ((pickAll pick l g).1.map key).Sublist l
  | [], _ => List.Sublist.slnil
  | a :: l, g => by
    simp only [pickAll, List.map_append]
    cases hp : (pick a g).1 with
    | none => exact (pickAll_sublist h l _).cons a
    | some b => simpa [h a g b hp] using (pickAll_sublist h l _).cons₂ a

theorem pickAll_forall {α β τ : Type*} {pick : α → τ → Option β × τ} {P : β → Prop}
    (h : ∀ a g b, (pick a g).1 = some b → P b) :
    ∀ (l : List α) (g : τ), ∀ b ∈ (pickAll pick l g).1, P b
  | [], _ => by simp [pickAll]
  | a :: l, g => by
    simp only [pickAll, List.mem_append, Option.mem_toList]
    rintro b (hb | hb)
    · exact h a g b hb
    · exact pickAll_forall h l _ b hb

/-- A kept source is the one drawn, is not the target when autapses are off,
and its third-factor node stands at a pool position below `pool_size_`. -/
theorem sourcePick_some (hu : ∀ m g, 0 < m → (ulrand m g).1 < m) {prm : Params}
    (hpos : 1 ≤ prm.poolSize) {allowAutapses : Bool} {pool : List Nat} {t s : Nat} {g : σ}
    {sc : Nat × Option Nat} (h : (sourcePick drand ulrand prm allowAutapses pool t s g).1 = some sc) :
    sc.1 = s ∧ (allowAutapses = false → s ≠ t) ∧ ∀ c ∈ sc.2, ∃ i < prm.poolSize, c = pool.getD i 0 := by
  unfold sourcePick at h
  by_cases ha : allowAutapses = false ∧ s = t
  · simp [ha] at h
  have hne : allowAutapses = false → s ≠ t := fun hf hst => ha ⟨hf, hst⟩
  rw [if_neg ha] at h
  dsimp only at h
  split at h
  · obtain rfl := Option.some.inj h
    exact ⟨rfl, hne, by simp⟩
  · split at h <;> obtain rfl := Option.some.inj h
    · exact ⟨rfl, hne, fun c hc => ⟨0, hpos, (Option.some.inj hc).symm⟩⟩
    · exact ⟨rfl, hne, fun c hc => ⟨_, hu _ _ (by omega), (Option.some.inj hc).symm⟩⟩

/-- The pool drawn for a target whose pool fits: its positions below
`pool_size_` hold nodes of the collection, for block pools those of the
target's block. -/
theorem drawPool_spec (hsample : SampleContract sample) {prm : Params} {third : List Nat}
    {lid : Nat} (hfit : prm.PoolFits third.length lid) (g : σ) :
    ∀ i < prm.poolSize, (drawPool sample prm third lid g).1.getD i 0 ∈ (drawPool sample prm third lid g).1 ∧
      (drawPool sample prm third lid g).1.getD i 0 ∈ third ∧
      (prm.randomPool = false →
        third[prm.firstPoolIndex lid + i]? = some ((drawPool sample prm third lid g).1.getD i 0)) := by
  obtain ⟨hone, hle, hblock⟩ := hfit
  intro i hi
  unfold drawPool
  split
  · rename_i hrandom
    obtain ⟨hsub, hlen⟩ := hsample third prm.poolSize g
    have hi' : i < (sample third prm.poolSize g).1.length := by omega
    rw [List.getD_eq_getElem _ _ hi']
    exact ⟨List.getElem_mem hi', hsub.subset (List.getElem_mem hi'), by simp [hrandom]⟩
  · rename_i hrandom
    have hfirst := hblock (by simpa using hrandom)
    have hi' : i < ((third.drop (prm.firstPoolIndex lid)).take prm.poolSize).length := by
      simp only [List.length_take, List.length_drop]; omega
    rw [List.getD_eq_getElem _ _ hi', List.getElem_take, List.getElem_drop]
    exact ⟨by simpa using List.getElem_mem hi', List.getElem_mem _, fun _ => by simp⟩

variable (hsample : SampleContract sample) (hu : ∀ m g, 0 < m → (ulrand m g).1 < m)
include hsample hu

/-- The draws of a target whose pool fits are well formed. -/
theorem targetPlan_wellFormed {prm : Params} (allowAutapses : Bool) (sources third : List Nat)
    {q : Nat × Nat} (hfit : prm.PoolFits third.length q.1) (g : σ) :
    (targetPlan bino drand ulrand sample prm allowAutapses sources third q g).1.WellFormed
      prm allowAutapses sources third := by
  unfold targetPlan
  dsimp only
  split
  · exact ⟨List.nil_sublist _, by simp⟩
  · set k := bino sources.length prm.pPrimary g
    set pool := drawPool sample prm third q.1 k.2
    refine ⟨(pickAll_sublist (fun _ _ _ h => (sourcePick_some drand ulrand hu hfit.1 h).1) _ _).trans
      (hsample sources k.1 pool.2).1, pickAll_forall (fun s _ sc h => ?_) _ _⟩
    obtain ⟨rfl, hne, hthird⟩ := sourcePick_some drand ulrand hu hfit.1 h
    refine ⟨hne, fun c hc => ?_⟩
    obtain ⟨i, hi, rfl⟩ := hthird c hc
    obtain ⟨hpool, hmem, hblock⟩ := drawPool_spec sample hsample hfit k.2 i hi
    exact ⟨hpool, hmem, fun hb => ⟨i, hi, hblock hb⟩⟩

/-- The plan lists every (position, target) pair once, in order, each with
well-formed draws. -/
theorem drawPlan_spec (prm : Params) (allowAutapses : Bool) (sources third : List Nat) :
    ∀ (qs : List (Nat × Nat)) (g : σ), (∀ q ∈ qs, prm.PoolFits third.length q.1) →
      ((drawPlan bino drand ulrand sample prm allowAutapses sources third qs g).1.map
          fun e => (e.lid, e.target)) = qs ∧
        ∀ e ∈ (drawPlan bino drand ulrand sample prm allowAutapses sources third qs g).1,
          e.WellFormed prm allowAutapses sources third
  | [], _, _ => by simp [drawPlan]
  | q :: qs, g, hfit => by
    obtain ⟨hmap, hall⟩ := drawPlan_spec prm allowAutapses sources third qs
      (targetPlan bino drand ulrand sample prm allowAutapses sources third q g).2
      fun q' hq' => hfit q' (List.mem_cons_of_mem _ hq')
    refine ⟨by simp only [drawPlan, List.map_cons, hmap, targetPlan_lid, targetPlan_target], ?_⟩
    simp only [drawPlan, List.mem_cons, forall_eq_or_imp]
    exact ⟨targetPlan_wellFormed bino drand ulrand sample hsample hu allowAutapses sources third
      (hfit q (List.mem_cons_self _ _)) g, hall⟩

end PlanSpec

/-! ## The edges of all VPs -/

@[simp] theorem Trio.init_role (r : Role) : Trio.init.role r = Worker.init := by
  cases r <;> rfl

/-- With storage that accepts every call, a thread never raises. -/
theorem Trio.run_total :
    ∀ (calls : List (Role × Action)) (x : Trio), x.failed = false →
      (x.run (fun _ => Storage.total) calls).failed = false
  | [], _, h => h
  | (r, a) :: calls, x, h => by
    refine run_total calls _ ?_
    have hr : (x.role r).failed = false := by cases r <;> simp_all [failed, role]
    have hok : a.ok Storage.total = true := by cases a <;> rfl
    cases r <;> simp_all [call, update, failed, role, Worker.step]

/-- The calls VP `w` makes through builder `r` for a kept source: the
builder's edge, if `w` owns its target. -/
theorem pickCalls_select (d : Decomposition) (w t : Nat) (sc : Nat × Option Nat) (r : Role) :
    (pickCalls d w t sc).filterMap r.select =
      (r.pairs t sc).flatMap fun p => if d.owner p.2 = w then [Action.connect p.1 p.2 w] else [] := by
  have hsel : ∀ (r' : Role) (p : Nat × Nat),
      (if d.owner p.2 = w then [(r', Action.connect p.1 p.2 w)] else []).filterMap r.select =
        if r' = r then (if d.owner p.2 = w then [Action.connect p.1 p.2 w] else []) else [] := by
    intro r' p
    by_cases ho : d.owner p.2 = w <;> by_cases hr : r' = r <;> simp [ho, hr]
  have hnil : ∀ l : List (Nat × Nat), (l.flatMap fun _ => ([] : List Action)) = [] :=
    fun _ => List.flatMap_eq_nil_iff.2 fun _ _ => rfl
  simp only [pickCalls, List.filterMap_flatMap, hsel]
  cases r <;> simp [hnil]

theorem pickCalls_connections (d : Decomposition) (w t : Nat) (sc : Nat × Option Nat) (r : Role) :
    ((pickCalls d w t sc).filterMap r.select).flatMap Action.connection =
      (r.pairs t sc).flatMap fun p => if d.owner p.2 = w then [(p.1, p.2, d.owner p.2)] else [] := by
  rw [pickCalls_select, List.flatMap_assoc]
  refine List.flatMap_congr fun p _ => ?_
  split <;> simp_all [Action.connection]

theorem planCalls_connections (d : Decomposition) (w : Nat) (plan : List TargetPlan) (r : Role) :
    ((planCalls d w plan).filterMap r.select).flatMap Action.connection =
      (r.planPairs plan).flatMap fun p => if d.owner p.2 = w then [(p.1, p.2, d.owner p.2)] else [] := by
  simp only [planCalls, Role.planPairs, List.filterMap_flatMap, List.flatMap_assoc,
    pickCalls_connections]

section Edges

variable (d : Decomposition) {σ : Type} (bino : Nat → Double → σ → Nat × σ)
  (drand : σ → ℚ × σ) (ulrand : Nat → σ → Nat × σ) (sample : List Nat → Nat → σ → List Nat × σ)

/-- What VP `w` creates through builder `r` when its thread does not raise:
the plan's edges of that builder whose target it owns. -/
theorem connect_placed (st : Role → Storage) (prm : Params) (allowAutapses : Bool)
    (sources targets third : List Nat) (w : Nat) (g : σ) (r : Role)
    (hok : (connect d bino drand ulrand sample st prm allowAutapses sources targets third w g).1.failed
      = false) :
    ((connect d bino drand ulrand sample st prm allowAutapses sources targets third w g).1.role r).edges.map
        Edge.placed =
      (r.planPairs (drawPlan bino drand ulrand sample prm allowAutapses sources third targets.enum g).1).flatMap
        fun p => if d.owner p.2 = w then [(p.1, p.2, d.owner p.2)] else [] := by
  rw [connect_trio] at hok ⊢
  rw [(Trio.run_of_ok st _ Trio.init hok).2 r, Trio.init_role, Worker.exec_edges, List.map_append,
    emitted_placed, planCalls_connections]
  rfl

/-- With storage that accepts every call, no VP raises. -/
theorem connect_ok_of_total (prm : Params) (allowAutapses : Bool) (sources targets third : List Nat)
    (w : Nat) (g : σ) :
    (connect d bino drand ulrand sample (fun _ => Storage.total) prm allowAutapses sources targets
      third w g).1.failed = false := by
  rw [connect_trio]
  exact Trio.run_total _ _ rfl

/-- The calls VP `w` makes through builder `r`: a connection for each of the
plan's edges of that builder whose target `w` owns, in order. -/
theorem planCalls_select (w : Nat) (plan : List TargetPlan) (r : Role) :
    (planCalls d w plan).filterMap r.select =
      ((r.planPairs plan).filter fun p => d.owner p.2 = w).map fun p => .connect p.1 p.2 w := by
  rw [← flatMap_ite_singleton]
  simp only [planCalls, Role.planPairs, List.filterMap_flatMap, List.flatMap_assoc, pickCalls_select,
    decide_eq_true_eq]

/-- Connections only, from the cursors at `c`: the `i`-th reads `c + i`. -/
theorem emitted_map_connect (w : Nat) :
    ∀ (c : Nat) (l : List (Nat × Nat)),
      emitted c (l.map fun p => .connect p.1 p.2 w) = (l.enumFrom c).map fun q => ⟨q.2.1, q.2.2, w, q.1⟩
  | _, [] => rfl
  | c, _ :: l => by
    simp only [List.map_cons, emitted, Action.emits, Action.advance, emitted_map_connect w (c + 1) l,
      List.enumFrom_cons, List.singleton_append]

/-- **Array positions in the tripartite rule.** `connect_` never calls
`skip_conn_parameter_`, and each of the three builders keeps its own cursors.
So on every VP, with any storage, builder `r` creates a prefix of the plan's
edges of that builder whose target the VP owns, in order, and the `i`-th reads
position `i` of that builder's arrays: an edge's position counts only the
earlier edges of the same builder on the same VP. -/
theorem tripartite_positions (st : Role → Storage) (prm : Params) (allowAutapses : Bool)
    (sources targets third : List Nat) (w : Nat) (g : σ) (r : Role) :
    ((connect d bino drand ulrand sample st prm allowAutapses sources targets third w g).1.role r).edges <+:
      (((r.planPairs (drawPlan bino drand ulrand sample prm allowAutapses sources third targets.enum g).1).filter
        fun p => d.owner p.2 = w).enum.map fun q => ⟨q.2.1, q.2.2, w, q.1⟩) := by
  have h := Trio.run_role_prefix st r (planCalls d w
    (drawPlan bino drand ulrand sample prm allowAutapses sources third targets.enum g).1) (x := Trio.init) rfl
  rwa [Trio.init_role, planCalls_select, emitted_map_connect, ← connect_trio] at h

/-- **`TripartiteBernoulliWithPoolBuilder::connect_` creates the plan's three
kinds of edges.** For a builder the constructor accepted, a sampler that keeps
to its contract and `ulrand( m )` below `m`: in runs where no VP raises, every
VP draws one plan, listing each target once with its position; its kept
sources are distinct positions of the source collection, none the target when
autapses are off, and each third-factor node lies in the target's pool (for
block pools, in the block of the target's position). Through each builder the
VPs together create that builder's edges of the plan, each once, on the thread
owning the edge's target: `s → t` for each kept source, and `s → c`, `c → t`
for each third-factor node `c`. The plan does not depend on the
decomposition. -/
theorem tripartite_edges (st : Role → Storage) (hsample : SampleContract sample)
    (hu : ∀ m g, 0 < m → (ulrand m g).1 < m) {τ : Type} {mm : ModelManager τ} {numThreads : Nat}
    {spec : ConnSpec} {primary thirdIn thirdOut : List (SynapseDict τ)}
    {sourcesValid targetsValid thirdValid : Bool} {tspec : TripartiteSpec} {b : BaseBuilder}
    {prm : Params} (sources targets third : List Nat)
    (hb : tripartiteBernoulliWithPoolBuilder mm numThreads spec primary thirdIn thirdOut sourcesValid
      targetsValid thirdValid targets.length third.length tspec = some (.ok (b, prm))) (g : σ)
    (hok : ∀ w ∈ d.workers, (connect d bino drand ulrand sample st prm b.allowAutapses sources targets
      third w g).1.failed = false) :
    let plan := (drawPlan bino drand ulrand sample prm b.allowAutapses sources third targets.enum g).1
    plan.map (fun e => (e.lid, e.target)) = targets.enum ∧
      (∀ e ∈ plan, e.WellFormed prm b.allowAutapses sources third) ∧
      ∀ r, (d.workers.flatMap fun w => ((connect d bino drand ulrand sample st prm b.allowAutapses
          sources targets third w g).1.role r).edges.map Edge.placed).Perm
        ((r.planPairs plan).map fun p => (p.1, p.2, d.owner p.2)) := by
  intro plan
  obtain ⟨hone, hle, hwin⟩ := tripartiteBuilder_pool_windows hb
  have hfits : ∀ q ∈ targets.enum, prm.PoolFits third.length q.1 := fun q hq =>
    ⟨hone, hle, fun hr => (hwin hr q.1 (List.fst_lt_of_mem_enum hq)).2⟩
  obtain ⟨hmap, hall⟩ := drawPlan_spec bino drand ulrand sample hsample hu prm b.allowAutapses
    sources third targets.enum g hfits
  refine ⟨hmap, hall, fun r => ?_⟩
  rw [List.flatMap_congr fun w hw => connect_placed d bino drand ulrand sample st prm b.allowAutapses
    sources targets third w g r (hok w hw)]
  exact d.perm_flatMap_owned Prod.snd _ _

end Edges

theorem tripartite_edges_two_vps :
    let plan := (drawPlan (fun n _ g => (n, g + 1)) (fun g => (0, g + 1)) (fun m g => (g % m, g + 1))
      (fun l k g => (l.take k, g + 1)) ⟨.num 1, .num 1, true, 2, 1⟩ true [1, 2] [5, 6]
      [3, 4].enum 0).1
    plan.map (fun e => (e.lid, e.target)) = [3, 4].enum ∧
      (∀ e ∈ plan, e.WellFormed ⟨.num 1, .num 1, true, 2, 1⟩ true [1, 2] [5, 6]) ∧
      ∀ r, ((Decomposition.roundRobin 1 2 6 (by decide)).workers.flatMap fun w =>
          ((connect (Decomposition.roundRobin 1 2 6 (by decide)) (fun n _ g => (n, g + 1))
            (fun g => (0, g + 1)) (fun m g => (g % m, g + 1)) (fun l k g => (l.take k, g + 1))
            (fun _ => Storage.total) ⟨.num 1, .num 1, true, 2, 1⟩ true [1, 2] [3, 4] [5, 6] w
            0).1.role r).edges.map Edge.placed).Perm
        ((r.planPairs plan).map fun p => (p.1, p.2, (Decomposition.roundRobin 1 2 6 (by decide)).owner p.2)) :=
  have hb : tripartiteBernoulliWithPoolBuilder oneModel 2 ⟨none, none, none⟩ [staticSpec] [staticSpec]
      [staticSpec] true true true [3, 4].length [5, 6].length ⟨none, none, none, none⟩ =
      some (.ok (⟨true, true, false, none⟩, ⟨.num 1, .num 1, true, 2, 1⟩)) := rfl
  tripartite_edges (Decomposition.roundRobin 1 2 6 (by decide)) (fun n _ g => (n, g + 1))
    (fun g => (0, g + 1)) (fun m g => (g % m, g + 1)) (fun l k g => (l.take k, g + 1))
    (fun _ => Storage.total) (fun l k _ => ⟨List.take_sublist k l, List.length_take k l⟩)
    (fun _ g hm => Nat.mod_lt g hm) [1, 2] [3, 4] [5, 6] hb 0
    fun w _ => connect_ok_of_total _ _ _ _ _ _ _ _ _ _ w 0

/-- A storage that refuses the third-factor-to-target edge: the thread raises
after the source-to-third-factor edge, which stays without its partner. -/
theorem tripartite_raise_leaves_third_in_alone :
    tripartiteBernoulliWithPoolBuilder oneModel 1 ⟨none, none, none⟩ [staticSpec] [staticSpec] [staticSpec]
        true true true 1 1 ⟨none, none, none, none⟩ =
      some (.ok (⟨true, true, false, none⟩, ⟨.num 1, .num 1, true, 1, 1⟩)) ∧
    let x := (connect (Decomposition.single 3) (fun n _ g => (n, g + 1)) (fun g => (0, g + 1))
      (fun m g => (g % m, g + 1)) (fun l k g => (l.take k, g + 1))
      (fun r => if r = .thirdOut then ⟨fun _ _ => false, fun _ _ => true, fun _ => true⟩ else Storage.total)
      ⟨.num 1, .num 1, true, 1, 1⟩ true [1] [2] [3] 0 0).1
    x.failed = true ∧ x.primary.edges.map Edge.placed = [(1, 2, 0)] ∧
      x.thirdIn.edges.map Edge.placed = [(1, 3, 0)] ∧ x.thirdOut.edges = [] :=
  ⟨rfl, by decide⟩

end NestConnBuilder.Tripartite
