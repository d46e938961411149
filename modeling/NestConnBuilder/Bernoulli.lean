import NestConnBuilder.Structural
import NestConnBuilder.Construction

/-!
# Bernoulli: every admitted pair with probability `p`

`BernoulliBuilder::connect_` walks the targets, either all of them (skipping
one array position for a target it sees only as a proxy) or only the nodes its
thread owns. For every target it owns, `inner_connect_` walks the sources. A
disallowed autapse is passed over. Any other pair is connected unless
`rng->drand() >= p_->value( rng, target )`. Both tests draw from the thread's
own stream, and so does `single_connect_` for the synapse parameters.

What a thread calls is therefore decided by its stream alone, and a call that
throws only ends the thread's loop. A pass is the run of the calls its draws
stand for (`connect_sim`), and those calls are, target by target, admitted
pairs whose target the thread owns. Over all VPs the rule creates no pair more
often than `S × T` holds it, so duplicate-free collections get no multapses, as
the comment in `inner_connect_` says. When every test accepts, the VPs create
every admitted pair exactly once. That happens for `p = NaN`, which the
constructor's range check lets through because every comparison with NaN is
false.

## Main results

* `connect_sim` — a pass on any VP ends, as the run of the calls its stream
  stands for.
* `connect_target_agrees_local` — where the local-node loop is taken, it
  makes the target loop's calls from the same stream.
* `connect_subperm_admitted` — over all VPs, in either loop, the created
  connections are a sub-multiset of the admitted pairs, each on the thread
  owning its target; with duplicate-free collections none is created twice.
* `connect_accepting_creates_all` — when every test accepts and no VP raises,
  the VPs create every admitted pair exactly once.
-/

namespace NestConnBuilder.Bernoulli

open NestConnBuilder Construction

variable (d : Decomposition) {σ : Type} (drand : σ → ℚ × σ) (pValue : Nat → σ → Double × σ)
  (paramDraw : σ → σ)

/-- One iteration of the source loop of `BernoulliBuilder::inner_connect_` for
target `t`, from stream state `g`: the calls it makes and the stream after
them. A disallowed autapse is passed over without a draw. Otherwise the pair is
dropped when `rng->drand() >= p_->value( rng, target )`, the operands drawn
left to right, and connected on the target's thread when not, `single_connect_`
drawing the synapse parameters. -/
def sourceDraw (allowAutapses : Bool) (t s : Nat) (g : σ) : List Action × σ :=
  if allowAutapses = false ∧ s = t then ([], g)
  else
    let r := drand g
    let v := pValue t r.2
    if v.1.le (.num r.1) then ([], v.2) else ([.connect s t (d.owner t)], paramDraw v.2)

/-- `BernoulliBuilder::inner_connect_( tid, rng, target, tnode_id )` on VP `w`. -/
def innerConnect (st : Storage) (allowAutapses : Bool) (sources : List Nat) (w t : Nat)
    (p : Worker × σ) : Option (Worker × σ) :=
  if w ≠ d.owner t then some p
  else Worker.loop (Worker.issue st (sourceDraw d drand pValue paramDraw allowAutapses t)) sources p

/-- One iteration of the target loop of `BernoulliBuilder::connect_` on VP `w`:
a proxy target skips one array position. -/
def targetStep (st : Storage) (allowAutapses : Bool) (sources : List Nat) (w t : Nat)
    (p : Worker × σ) : Option (Worker × σ) :=
  if d.owner t ≠ w then some (p.1.step st (.skip 1), p.2)
  else innerConnect d drand pValue paramDraw st allowAutapses sources w t p

/-- One iteration of the local-node loop of `BernoulliBuilder::connect_` on VP
`w`, for its node `n`. -/
def localStep (st : Storage) (allowAutapses : Bool) (sources targets : List Nat) (w n : Nat)
    (p : Worker × σ) : Option (Worker × σ) :=
  match getLid targets n with
  | none => some p
  | some _ => innerConnect d drand pValue paramDraw st allowAutapses sources w n p

/-- `BernoulliBuilder::connect_` on VP `w`, from the state `g` of its stream
(`get_vp_specific_rng( tid )`), in the regime `loopOverTargets`. -/
def connect (st : Storage) (allowAutapses loopOverTargets : Bool) (sources targets : List Nat)
    (w : Nat) (g : σ) : Option (Worker × σ) :=
  if loopOverTargets then
    Worker.loop (targetStep d drand pValue paramDraw st allowAutapses sources w) targets (Worker.init, g)
  else
    Worker.loop (localStep d drand pValue paramDraw st allowAutapses sources targets w)
      (d.localNodes w) (Worker.init, g)

/-! ## The calls a stream stands for -/

/-- What `inner_connect_` calls for target `t` on VP `w` from stream state `g`
when nothing throws. -/
def innerDraw (allowAutapses : Bool) (sources : List Nat) (w t : Nat) (g : σ) : List Action × σ :=
  if w ≠ d.owner t then ([], g) else drawAll (sourceDraw d drand pValue paramDraw allowAutapses t) sources g

/-- What one iteration of the target loop calls. -/
def targetDraw (allowAutapses : Bool) (sources : List Nat) (w t : Nat) (g : σ) : List Action × σ :=
  if d.owner t ≠ w then ([.skip 1], g) else innerDraw d drand pValue paramDraw allowAutapses sources w t g

/-- What one iteration of the local-node loop calls. -/
def localDraw (allowAutapses : Bool) (sources targets : List Nat) (w n : Nat) (g : σ) :
    List Action × σ :=
  match getLid targets n with
  | none => ([], g)
  | some _ => innerDraw d drand pValue paramDraw allowAutapses sources w n g

/-- What a pass on VP `w` calls from stream state `g` when nothing throws. -/
def passDraw (allowAutapses loopOverTargets : Bool) (sources targets : List Nat) (w : Nat) (g : σ) :
    List Action × σ :=
  if loopOverTargets then drawAll (targetDraw d drand pValue paramDraw allowAutapses sources w) targets g
  else drawAll (localDraw d drand pValue paramDraw allowAutapses sources targets w) (d.localNodes w) g

section Simulation

variable (st : Storage) (allowAutapses : Bool) (sources targets : List Nat) (w : Nat)

theorem innerConnect_simulates :
    Worker.Simulates st (innerConnect d drand pValue paramDraw st allowAutapses sources w)
      (innerDraw d drand pValue paramDraw allowAutapses sources w) := by
  intro t wk g _
  unfold innerConnect innerDraw
  split
  · exact ⟨g, rfl, fun _ => rfl⟩
  · exact Worker.loop_simulates (Worker.issue_simulates st _) sources wk g

theorem targetStep_simulates :
    Worker.Simulates st (targetStep d drand pValue paramDraw st allowAutapses sources w)
      (targetDraw d drand pValue paramDraw allowAutapses sources w) := by
  intro t wk g hw
  unfold targetStep targetDraw
  split
  · exact ⟨g, rfl, fun _ => rfl⟩
  · exact innerConnect_simulates d drand pValue paramDraw st allowAutapses sources w t wk g hw

theorem localStep_simulates :
    Worker.Simulates st (localStep d drand pValue paramDraw st allowAutapses sources targets w)
      (localDraw d drand pValue paramDraw allowAutapses sources targets w) := by
  intro n wk g hw
  unfold localStep localDraw
  split
  · exact ⟨g, rfl, fun _ => rfl⟩
  · exact innerConnect_simulates d drand pValue paramDraw st allowAutapses sources w n wk g hw

/-- A pass on any VP ends, as the run of the calls its stream stands for; the
stream ends where those draws leave it unless a call threw. -/
theorem connect_sim (loopOverTargets : Bool) (g : σ) :
    ∃ g', connect d drand pValue paramDraw st allowAutapses loopOverTargets sources targets w g
        = some (Worker.init.run st
          (passDraw d drand pValue paramDraw allowAutapses loopOverTargets sources targets w g).1, g') ∧
      ((Worker.init.run st
          (passDraw d drand pValue paramDraw allowAutapses loopOverTargets sources targets w g).1).failed
          = false →
        g' = (passDraw d drand pValue paramDraw allowAutapses loopOverTargets sources targets w g).2) := by
  unfold connect passDraw
  split
  · exact Worker.loop_simulates (targetStep_simulates d drand pValue paramDraw st allowAutapses sources w)
      targets _ g
  · exact Worker.loop_simulates
      (localStep_simulates d drand pValue paramDraw st allowAutapses sources targets w) _ _ g

end Simulation

/-- Outside the target loop, where the targets are all the nodes, the target
loop and the local-node loop make the same calls from the same stream: both
end in agreeing states with the same stream. -/
theorem connect_target_agrees_local (st : Storage) (allowAutapses : Bool) (sources targets : List Nat)
    (w : Nat) (g : σ) (hT : targets = List.range' 1 d.numNodes) :
    Option.Rel (fun q₁ q₂ => q₁.1.Agree q₂.1 ∧ q₁.2 = q₂.2)
      (connect d drand pValue paramDraw st allowAutapses true sources targets w g)
      (connect d drand pValue paramDraw st allowAutapses false sources targets w g) := by
  have hloc : d.localNodes w = targets.filter (d.owner · = w) := by rw [hT]; rfl
  rw [connect, if_pos rfl, connect, if_neg Bool.false_ne_true, hloc]
  refine Worker.loop_agree _ _ _ targets (fun t ht ho w₁ w₂ g' _ h => ?_)
    (fun t _ ho wk g' hw => ⟨_, ?_, (Worker.Agree.refl wk).step_skip st 1⟩) _ _ _ (Worker.Agree.refl _)
  · have ho' : d.owner t = w := of_decide_eq_true ho
    have hlid : getLid targets t = some (targets.indexOf t) := if_pos ht
    simp only [targetStep, localStep, hlid, innerConnect, ho', ne_eq, not_true_eq_false, if_false]
    have hloop := Worker.loop_agree (Worker.issue st (sourceDraw d drand pValue paramDraw allowAutapses t))
      (Worker.issue st (sourceDraw d drand pValue paramDraw allowAutapses t)) (fun _ => true) sources
      (fun s _ _ v₁ v₂ g₁ _ hv => .some ⟨hv.run st _, rfl⟩) (fun _ _ h => nomatch h) w₁ w₂ g' h
    rwa [List.filter_true] at hloop
  · simp only [targetStep, of_decide_eq_false ho, ne_eq, not_false_eq_true, if_true]

/-! ## The connections the draws stand for -/

/-- The admitted sources of target `t`, as the connections they stand for:
`s → t` on the thread owning `t`. -/
def admittedInto (allowAutapses : Bool) (sources : List Nat) (t : Nat) : List (Nat × Nat × Nat) :=
  sources.flatMap fun s => if allowAutapses = false ∧ s = t then [] else [(s, t, d.owner t)]

/-- The connections VP `w` may create for target `t`. -/
def ownedBlock (allowAutapses : Bool) (sources : List Nat) (w t : Nat) : List (Nat × Nat × Nat) :=
  if d.owner t = w then admittedInto d allowAutapses sources t else []

/-- The targets a pass visits: all of them in the target loop; in the
local-node loop, the nodes that exist and belong to the collection. -/
def visits (loopOverTargets : Bool) (targets : List Nat) : List Nat :=
  if loopOverTargets then targets else (List.range' 1 d.numNodes).filter (· ∈ targets)

/-- The connections the rule may create: every pair of `S × T`, targets
outside and sources inside, except a disallowed autapse, each on the thread
owning its target. -/
def admittedEdges (allowAutapses : Bool) (sources targets : List Nat) : List (Nat × Nat × Nat) :=
  ((Structural.allPairs sources targets).filter (Structural.admitted allowAutapses)).map
    fun p => (p.1, p.2, d.owner p.2)

theorem admittedEdges_eq (allowAutapses : Bool) (sources targets : List Nat) :
    admittedEdges d allowAutapses sources targets
      = targets.flatMap (admittedInto d allowAutapses sources) := by
  simp only [admittedEdges, Structural.allPairs, List.filter_flatMap, List.map_flatMap,
    List.filter_map, flatMap_filter_eq_ite, List.map_eq_flatMap, List.flatMap_assoc, admittedInto]
  refine List.flatMap_congr fun t _ => List.flatMap_congr fun s _ => ?_
  cases allowAutapses <;> by_cases h : s = t <;> simp [Structural.admitted, h]

theorem admittedEdges_nodup (allowAutapses : Bool) {sources targets : List Nat}
    (hs : sources.Nodup) (ht : targets.Nodup) :
    (admittedEdges d allowAutapses sources targets).Nodup := by
  have hpairs : (Structural.allPairs sources targets).Nodup := by
    have h := (ht.product hs).map Prod.swap_injective
    simpa [Structural.allPairs, SProd.sprod, List.product, List.map_flatMap, Function.comp_def] using h
  refine (hpairs.filter _).map fun p q h => ?_
  simp only [Prod.mk.injEq] at h
  exact Prod.ext h.1 h.2.1

/-- On VP `w` the local-node loop visits the blocks of the collection's nodes
that exist. -/
theorem local_blocks (allowAutapses : Bool) (sources targets : List Nat) (w : Nat) :
    (d.localNodes w).flatMap (fun n => if n ∈ targets then ownedBlock d allowAutapses sources w n else [])
      = (visits d false targets).flatMap (ownedBlock d allowAutapses sources w) := by
  simp only [Decomposition.localNodes, visits, Bool.false_eq_true, if_false, flatMap_filter_eq_ite]
  refine List.flatMap_congr fun n _ => ?_
  by_cases ho : d.owner n = w <;> by_cases hn : n ∈ targets <;> simp [ho, hn, ownedBlock]

theorem visits_subperm (loopOverTargets : Bool) (targets : List Nat) :
    (visits d loopOverTargets targets).Subperm targets := by
  unfold visits
  split
  · exact List.Subperm.refl _
  · exact ((List.nodup_range' 1 _).filter _).subperm fun n hn => by simpa using (List.mem_filter.1 hn).2

/-- Outside the target loop, valid targets are all the nodes, and the local
loops visit every one of them. -/
theorem visits_eq (skipping : Bool) {targets : List Nat}
    (hvalid : ∀ n ∈ targets, 1 ≤ n ∧ n ≤ d.numNodes) :
    visits d (d.loopOverTargets targets skipping) targets = targets := by
  unfold visits
  split
  · rfl
  · rename_i hl
    obtain ⟨hr, -⟩ := d.eq_range_of_not_loopOverTargets targets skipping hvalid (by simpa using hl)
    conv_rhs => rw [hr]
    exact List.filter_eq_self.2 fun n hn => by rw [hr]; simpa using hn

section Blocks

/-! What a pass creates stands to the owned blocks of the targets it visits as
each source's calls stand to its admitted pair: the same argument gives a
sublist for any stream and equality for a stream whose tests all accept. -/

variable (R : List (Nat × Nat × Nat) → List (Nat × Nat × Nat) → Prop) (hrefl : ∀ l, R l l)
  (happ : ∀ {a b c e}, R a b → R c e → R (a ++ c) (b ++ e)) (allowAutapses : Bool)
  (sources targets : List Nat) (w : Nat)
  (hsrc : ∀ t s g, R ((sourceDraw d drand pValue paramDraw allowAutapses t s g).1.flatMap Action.connection)
    (if allowAutapses = false ∧ s = t then [] else [(s, t, d.owner t)]))
include hrefl happ hsrc

theorem innerDraw_rel (t : Nat) (g : σ) :
    R ((innerDraw d drand pValue paramDraw allowAutapses sources w t g).1.flatMap Action.connection)
      (ownedBlock d allowAutapses sources w t) := by
  unfold innerDraw ownedBlock
  by_cases ho : d.owner t = w
  · rw [if_neg (not_not_intro ho.symm), if_pos ho]
    exact drawAll_connection_rel R (hrefl []) happ _ _ (hsrc t) sources g
  · rw [if_pos (Ne.symm ho), if_neg ho]
    exact hrefl []

theorem passDraw_rel (loopOverTargets : Bool) (g : σ) :
    R ((passDraw d drand pValue paramDraw allowAutapses loopOverTargets sources targets w g).1.flatMap
        Action.connection)
      ((visits d loopOverTargets targets).flatMap (ownedBlock d allowAutapses sources w)) := by
  unfold passDraw
  cases loopOverTargets
  case true =>
    refine drawAll_connection_rel R (hrefl []) happ _ _ (fun t g => ?_) targets g
    unfold targetDraw
    split
    · rw [ownedBlock, if_neg (by assumption)]
      exact hrefl []
    · exact innerDraw_rel d drand pValue paramDraw R hrefl happ allowAutapses sources w hsrc t g
  case false =>
    rw [if_neg Bool.false_ne_true, ← local_blocks]
    refine drawAll_connection_rel R (hrefl []) happ _ _ (fun n g => ?_) _ g
    unfold localDraw getLid
    by_cases hn : n ∈ targets
    · simp only [hn, if_true]
      exact innerDraw_rel d drand pValue paramDraw R hrefl happ allowAutapses sources w hsrc n g
    · simp only [hn, if_false]
      exact hrefl []

end Blocks

/-! ## Over all VPs -/

private theorem flatMap_sublist_flatMap {α β : Type*} {l₁ l₂ : List α} {f g : α → List β}
    (h : l₁.Sublist l₂) (hf : ∀ a ∈ l₁, (f a).Sublist (g a)) : (l₁.flatMap f).Sublist (l₂.flatMap g) := by
  induction h with
  | slnil => exact List.Sublist.slnil
  | cons a _ ih => exact (ih hf).trans (List.sublist_append_right _ _)
  | cons₂ a _ ih =>
    exact (hf a (List.mem_cons_self a _)).append (ih fun b hb => hf b (List.mem_cons_of_mem a hb))

/-- The connections one pass creates, with threads: whatever the stream and the
storage, a sublist of the owned blocks of the targets it visits. -/
theorem pass_placed_sublist (st : Storage) (allowAutapses loopOverTargets : Bool)
    (sources targets : List Nat) (w : Nat) (g : σ) :
    ((Worker.init.run st
        (passDraw d drand pValue paramDraw allowAutapses loopOverTargets sources targets w g).1).edges.map
          Edge.placed).Sublist
      ((visits d loopOverTargets targets).flatMap (ownedBlock d allowAutapses sources w)) := by
  have hpre := (Worker.edges_run_prefix st
    (passDraw d drand pValue paramDraw allowAutapses loopOverTargets sources targets w g).1
    (w := Worker.init) rfl).map Edge.placed
  rw [Worker.init, List.nil_append, emitted_placed] at hpre
  refine hpre.sublist.trans (passDraw_rel d drand pValue paramDraw List.Sublist (List.Sublist.refl)
    List.Sublist.append allowAutapses sources targets w (fun t s g => ?_) loopOverTargets g)
  unfold sourceDraw
  split
  · exact List.Sublist.refl _
  · dsimp only
    split
    · exact List.nil_sublist _
    · exact List.Sublist.refl _

/-- The connections the passes' calls create over all VPs, each VP from its
own stream state: a sub-multiset of the admitted pairs, without repeats for
duplicate-free collections. -/
theorem passes_subperm_admitted (st : Storage) (allowAutapses loopOverTargets : Bool)
    (sources targets : List Nat) (g : Nat → σ) :
    (d.workers.flatMap fun w => (Worker.init.run st (passDraw d drand pValue paramDraw allowAutapses
        loopOverTargets sources targets w (g w)).1).edges.map Edge.placed).Subperm
        (admittedEdges d allowAutapses sources targets) ∧
      (sources.Nodup → targets.Nodup →
        (d.workers.flatMap fun w => (Worker.init.run st (passDraw d drand pValue paramDraw allowAutapses
          loopOverTargets sources targets w (g w)).1).edges.map Edge.placed).Nodup) := by
  have hsub := (flatMap_sublist_flatMap (List.Sublist.refl d.workers) fun w _ =>
    pass_placed_sublist d drand pValue paramDraw st allowAutapses loopOverTargets sources targets w
      (g w)).subperm
  have hperm := d.perm_flatMap_owned_blocks id (admittedInto d allowAutapses sources)
    (visits d loopOverTargets targets)
  obtain ⟨l, hl, hls⟩ := visits_subperm d loopOverTargets targets
  have hvisit : ((visits d loopOverTargets targets).flatMap (admittedInto d allowAutapses sources)).Subperm
      (admittedEdges d allowAutapses sources targets) := by
    rw [admittedEdges_eq]
    exact ⟨_, hl.flatMap_right _, flatMap_sublist_flatMap hls fun _ _ => List.Sublist.refl _⟩
  have hall := hsub.trans (hperm.subperm.trans hvisit)
  refine ⟨hall, fun hs ht => ?_⟩
  obtain ⟨l', hp, hs'⟩ := hall
  exact hp.nodup_iff.1 ((admittedEdges_nodup d allowAutapses hs ht).sublist hs')

/-- **Bernoulli connections.** `BernoulliBuilder::connect_` on every VP of any
decomposition, each from its own stream state, with any storage, in either
loop: every pass ends, and the connections the VPs create, with their threads,
are a sub-multiset of the admitted pairs of `S × T`, each on the thread owning
its target. With duplicate-free collections no connection is created twice. -/
theorem connect_subperm_admitted (st : Storage) (allowAutapses loopOverTargets : Bool)
    (sources targets : List Nat) (g : Nat → σ) :
    ∃ q : Nat → Worker × σ,
      (∀ w ∈ d.workers, connect d drand pValue paramDraw st allowAutapses loopOverTargets sources
        targets w (g w) = some (q w)) ∧
      (d.workers.flatMap fun w => (q w).1.edges.map Edge.placed).Subperm
        (admittedEdges d allowAutapses sources targets) ∧
      (sources.Nodup → targets.Nodup →
        (d.workers.flatMap fun w => (q w).1.edges.map Edge.placed).Nodup) := by
  choose g' hg' using fun w =>
    connect_sim d drand pValue paramDraw st allowAutapses sources targets w loopOverTargets (g w)
  exact ⟨fun w => (_, g' w), fun w _ => (hg' w).1,
    passes_subperm_admitted d drand pValue paramDraw st allowAutapses loopOverTargets sources targets g⟩

/-- **Accepting tests.** When every test `rng->drand() >= p_->value( rng,
target )` fails, so that no admitted pair is dropped, `BernoulliBuilder::connect_`
in the loop `loop_over_targets_` picks, over valid targets: every pass ends,
and in runs where no VP raises, the VPs together create every admitted pair of
`S × T` exactly once, on the thread owning its target. -/
theorem connect_accepting_creates_all (st : Storage) (allowAutapses skipping : Bool)
    (sources targets : List Nat) (g : Nat → σ)
    (haccept : ∀ t g, (pValue t (drand g).2).1.le (.num (drand g).1) = false)
    (hvalid : ∀ n ∈ targets, 1 ≤ n ∧ n ≤ d.numNodes) :
    ∃ q : Nat → Worker × σ,
      (∀ w ∈ d.workers, connect d drand pValue paramDraw st allowAutapses
        (d.loopOverTargets targets skipping) sources targets w (g w) = some (q w)) ∧
      ((∀ w ∈ d.workers, (q w).1.failed = false) →
        (d.workers.flatMap fun w => (q w).1.edges.map Edge.placed).Perm
          (admittedEdges d allowAutapses sources targets)) := by
  choose g' hg' using fun w => connect_sim d drand pValue paramDraw st allowAutapses sources targets w
    (d.loopOverTargets targets skipping) (g w)
  refine ⟨fun w => (_, g' w), fun w _ => (hg' w).1, fun hok => ?_⟩
  have hpass : ∀ w ∈ d.workers, ((Worker.init.run st (passDraw d drand pValue paramDraw allowAutapses
      (d.loopOverTargets targets skipping) sources targets w (g w)).1).edges.map Edge.placed)
        = targets.flatMap (ownedBlock d allowAutapses sources w) := by
    intro w hw
    rw [Worker.run_eq_exec_of_ok st _ rfl (hok w hw), Worker.exec_edges, Worker.init, List.nil_append,
      emitted_placed]
    conv_rhs => rw [← visits_eq d skipping hvalid]
    refine passDraw_rel d drand pValue paramDraw Eq (fun _ => rfl) (fun h₁ h₂ => h₁ ▸ h₂ ▸ rfl)
      allowAutapses sources targets w (fun t s g => ?_) _ (g w)
    unfold sourceDraw
    split
    · rfl
    · simp only [haccept, Bool.false_eq_true, if_false]
      rfl
  rw [List.flatMap_congr hpass, admittedEdges_eq]
  exact d.perm_flatMap_owned_blocks id _ targets

/-- Two VPs (node `n` on VP `n % 2`), three nodes, sources `[1, 2]` onto
targets `[1, 2, 3]` without autapses, so the local-node loop, and `p = NaN`:
the constructor accepts it, and the VPs create the four admitted pairs once
each. -/
theorem nan_probability_connects_all_pairs :
    bernoulliBuilder (.scalar .nan) = .ok () ∧
      ∃ q : Nat → Worker × Unit,
        (∀ w ∈ (Decomposition.roundRobin 1 2 3 (by decide)).workers,
          connect (Decomposition.roundRobin 1 2 3 (by decide)) (fun g => (0, g)) (fun _ g => (.nan, g)) id
            Storage.total false
            ((Decomposition.roundRobin 1 2 3 (by decide)).loopOverTargets [1, 2, 3] false)
            [1, 2] [1, 2, 3] w () = some (q w)) ∧
        ((∀ w ∈ (Decomposition.roundRobin 1 2 3 (by decide)).workers, (q w).1.failed = false) →
          ((Decomposition.roundRobin 1 2 3 (by decide)).workers.flatMap fun w =>
              (q w).1.edges.map Edge.placed).Perm
            (admittedEdges (Decomposition.roundRobin 1 2 3 (by decide)) false [1, 2] [1, 2, 3])) :=
  ⟨rfl, connect_accepting_creates_all (Decomposition.roundRobin 1 2 3 (by decide)) (fun g => (0, g))
    (fun _ g => (.nan, g)) id Storage.total false false [1, 2] [1, 2, 3] (fun _ => ()) (fun _ _ => rfl)
    (by decide)⟩

end NestConnBuilder.Bernoulli
