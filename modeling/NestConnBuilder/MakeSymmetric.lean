import NestConnBuilder.OneToOne

/-!
# `make_symmetric`: one-to-one connections replayed with the endpoints swapped

With `make_symmetric`, `ConnBuilder::connect` runs `connect_`, calls `reset()`
on every weight, delay and synapse parameter, swaps `sources_` and `targets_`,
runs `connect_` again in a second parallel region, and swaps them back.
`OneToOneBuilder` does not create symmetric connections itself, so the replay
adds `t_i → s_i` for every admitted index `i`.

The constructor already calls `reset()` once when `make_symmetric` is set, so
only parameters that can be reset get this far: scalars and arrays
(`ConnParameter`). An array registers for skipping, which forces the target
loop in both passes; there the `k`-th admitted index reads position `k` in
either pass, because `t_i = s_i` exactly when `s_i = t_i`. Without arrays a
pass may take the local-node loop, and then every value is a scalar.

Each parallel region has its own `try` block per thread, and an exception slot
once set stays set: a thread that raises in either pass loses the rest of
that pass.

## Main results

* `pass_values` — what one pass of VP `w` creates, with each edge's parameter
  values, in either loop.
* `symmetric_one_to_one` — in runs where no VP raises, the VPs create exactly
  `s_i → t_i` and `t_i → s_i` for every admitted index, both with the values of
  that index, and `sources_`, `targets_` hold their values from entry.
* `symmetric_one_to_one_raise_loses_reverse` — a rejected reverse edge is
  missing from the output.
-/

namespace NestConnBuilder.MakeSymmetric

open NestConnBuilder

/-- A weight, delay or synapse parameter that passes the constructor's
`reset()` check: one value for every connection, or an array read at the
cursor. -/
inductive ConnParameter (α : Type)
  | scalar (value : α)
  | array (values : List α)

namespace ConnParameter

variable {α : Type} [Inhabited α]

/-- `value( rng, tid )` with the array cursor at `k`. -/
def valueAt : ConnParameter α → Nat → α
  | .scalar v, _ => v
  | .array vs, k => vs.getD k default

/-- `requires_skipping()`: arrays only. -/
def requiresSkipping : ConnParameter α → Bool
  | .scalar _ => false
  | .array _ => true

theorem valueAt_of_not_requiresSkipping {p : ConnParameter α} (h : p.requiresSkipping = false)
    (k : Nat) : p.valueAt k = p.valueAt 0 := by
  cases p with
  | scalar v => rfl
  | array vs => cases h

end ConnParameter

variable (d : Decomposition) {α : Type}

/-- `ConnBuilder::connect` for a `OneToOneBuilder` with `make_symmetric` and
without structural plasticity: every VP's thread state after the two parallel
regions, and `sources_`, `targets_` on return. -/
def connect (st : Storage) (allowAutapses : Bool) (params : List (ConnParameter α))
    (sources targets : List Nat) : (Nat → Worker) × List Nat × List Nat :=
  let skipping := params.any ConnParameter.requiresSkipping
  let first := fun w => Worker.init.run st
    (OneToOne.connect d allowAutapses (d.loopOverTargets targets skipping) sources targets w)
  -- `reset()` puts every array cursor back to its start, then swap and replay
  let (sources₁, targets₁) := (targets, sources)
  let second := fun w => ({ first w with cursor := 0 } : Worker).region st
    (OneToOne.connect d allowAutapses (d.loopOverTargets targets₁ skipping) sources₁ targets₁ w)
  -- re-establish the original state
  let (sources₂, targets₂) := (targets₁, sources₁)
  (second, sources₂, targets₂)

/-- A VP whose exception slot stays empty ran both passes to the end: its
edges are those of the first pass, then those of the replay. -/
theorem connect_edges_of_ok (st : Storage) (allowAutapses : Bool) (params : List (ConnParameter α))
    (sources targets : List Nat) (w : Nat)
    (h : ((connect d st allowAutapses params sources targets).1 w).failed = false) :
    ((connect d st allowAutapses params sources targets).1 w).edges
      = emitted 0 (OneToOne.connect d allowAutapses
          (d.loopOverTargets targets (params.any ConnParameter.requiresSkipping)) sources targets w) ++
        emitted 0 (OneToOne.connect d allowAutapses
          (d.loopOverTargets sources (params.any ConnParameter.requiresSkipping)) targets sources w) := by
  simp only [connect] at h ⊢
  obtain ⟨h₁, h₂⟩ := Worker.region_of_ok st _ _ h
  rw [h₂, Worker.exec_edges]
  simp only at h₁ ⊢
  rw [Worker.run_eq_exec_of_ok st _ rfl h₁, Worker.exec_edges]
  rfl

/-! ## One pass -/

section Values

variable [Inhabited α]

/-- The weight, delay and synapse-parameter values an edge reading position `k`
gets. -/
def valuesAt (params : List (ConnParameter α)) (k : Nat) : List α :=
  params.map (·.valueAt k)

private theorem flatMap_ite_singleton {β γ : Type} (P : β → Prop) [DecidablePred P] (f : β → γ)
    (l : List β) : (l.flatMap fun a => if P a then [f a] else []) = (l.filter (P ·)).map f := by
  induction l with
  | nil => rfl
  | cons a l ih => by_cases h : P a <;> simp [List.filter_cons, h, ih]

theorem valuesAt_of_not_skipping {params : List (ConnParameter α)}
    (h : params.any ConnParameter.requiresSkipping = false) (k : Nat) :
    valuesAt params k = valuesAt params 0 := by
  simp only [List.any_eq_false] at h
  exact List.map_congr_left fun p hp =>
    ConnParameter.valueAt_of_not_requiresSkipping (by simpa using h p hp) k

/-- One pass of VP `w` over the pairs of `sources` and `targets` that ends
without an exception creates, with their values, the admitted pairs whose
target it owns, the `k`-th admitted pair with the values at `k`, in either
loop. -/
theorem pass_values (allowAutapses : Bool) (params : List (ConnParameter α))
    (sources targets : List Nat) (w : Nat) (hlen : sources.length = targets.length)
    (hvalid : ∀ n ∈ targets, 1 ≤ n ∧ n ≤ d.numNodes) :
    (emitted 0 (OneToOne.connect d allowAutapses
        (d.loopOverTargets targets (params.any ConnParameter.requiresSkipping)) sources targets w)).map
        (fun e => (e.pair, valuesAt params e.pos))
      = ((sources.zip targets).filter (Structural.admitted allowAutapses)).enum.flatMap fun q =>
          if d.owner q.2.2 = w then [(q.2, valuesAt params q.1)] else [] := by
  cases hloop : d.loopOverTargets targets (params.any ConnParameter.requiresSkipping) with
  | true =>
    -- the target loop: positions count the admitted pairs
    rw [OneToOne.connect, if_pos rfl, OneToOne.emitted_targetLoop, List.map_flatMap, List.enum]
    refine List.flatMap_congr fun q _ => ?_
    split <;> rfl
  | false =>
    -- the local-node loop over all nodes: every value is a scalar
    obtain ⟨hrange, hskip⟩ := d.eq_range_of_not_loopOverTargets _ _ hvalid hloop
    have hlocal : d.localNodes w = targets.filter (d.owner · = w) := by rw [hrange]; rfl
    rw [OneToOne.connect, if_neg (by simp), hlocal,
      OneToOne.localLoop_eq d allowAutapses sources targets w hlen (hrange ▸ List.nodup_range' 1 _)]
    simp only [valuesAt_of_not_skipping hskip _]
    rw [show (fun e : Edge => (e.pair, valuesAt params 0))
        = (fun p => (p, valuesAt params 0)) ∘ Edge.pair from rfl, ← List.map_map, emitted_pairs,
      ← List.flatMap_map Prod.snd fun p : Nat × Nat =>
        if d.owner p.2 = w then [(p, valuesAt params 0)] else [],
      List.enum_map_snd, flatMap_ite_singleton, List.filter_filter]
    simp [List.flatMap_map, Action.connection, ← List.map_eq_flatMap, Bool.and_comm]

/-- The replay, with `sources_` and `targets_` swapped, creates the reverse of
the admitted pairs whose source VP `w` owns, the `k`-th admitted pair again
with the values at `k`. -/
theorem swapped_pass_values (allowAutapses : Bool) (params : List (ConnParameter α))
    (sources targets : List Nat) (w : Nat) (hlen : sources.length = targets.length)
    (hvalid : ∀ n ∈ sources, 1 ≤ n ∧ n ≤ d.numNodes) :
    (emitted 0 (OneToOne.connect d allowAutapses
        (d.loopOverTargets sources (params.any ConnParameter.requiresSkipping)) targets sources w)).map
        (fun e => (e.pair, valuesAt params e.pos))
      = ((sources.zip targets).filter (Structural.admitted allowAutapses)).enum.flatMap fun q =>
          if d.owner q.2.1 = w then [(q.2.swap, valuesAt params q.1)] else [] := by
  rw [pass_values d allowAutapses params targets sources w hlen.symm hvalid,
    ← List.zip_swap sources targets, List.filter_map,
    show Structural.admitted allowAutapses ∘ Prod.swap = Structural.admitted allowAutapses from
      funext (Structural.admitted_swap allowAutapses),
    List.enum_map, List.flatMap_map]
  rfl

/-- `ConnBuilder::connect` for a `OneToOneBuilder` with `make_symmetric`, in
runs where no VP raises: over all VPs, with each edge's weight, delay and
synapse-parameter values, exactly `s_i → t_i` and `t_i → s_i` for the `k`-th
admitted index `i`, both with the values at `k`; and `sources_`, `targets_`
hold their values from entry. -/
theorem symmetric_one_to_one (st : Storage) (allowAutapses : Bool)
    (params : List (ConnParameter α)) (sources targets : List Nat)
    (hlen : sources.length = targets.length)
    (hvalid : ∀ n ∈ sources ++ targets, 1 ≤ n ∧ n ≤ d.numNodes)
    (hok : ∀ w ∈ d.workers, ((connect d st allowAutapses params sources targets).1 w).failed = false) :
    (d.workers.flatMap fun w => ((connect d st allowAutapses params sources targets).1 w).edges.map
        fun e => (e.pair, valuesAt params e.pos)).Perm
      (((sources.zip targets).filter (Structural.admitted allowAutapses)).enum.map
          (fun q => (q.2, valuesAt params q.1)) ++
        ((sources.zip targets).filter (Structural.admitted allowAutapses)).enum.map
          fun q => (q.2.swap, valuesAt params q.1)) ∧
      (connect d st allowAutapses params sources targets).2 = (sources, targets) := by
  refine ⟨?_, rfl⟩
  have hsrc : ∀ n ∈ sources, 1 ≤ n ∧ n ≤ d.numNodes := fun n hn => hvalid n (by simp [hn])
  have htgt : ∀ n ∈ targets, 1 ≤ n ∧ n ≤ d.numNodes := fun n hn => hvalid n (by simp [hn])
  rw [List.flatMap_congr fun w hw => by
    rw [connect_edges_of_ok d st allowAutapses params sources targets w (hok w hw), List.map_append,
      pass_values d allowAutapses params sources targets w hlen htgt,
      swapped_pass_values d allowAutapses params sources targets w hlen hsrc]]
  exact (List.flatMap_append_perm _ _ _).symm.trans
    ((d.perm_flatMap_owned (fun q : Nat × Nat × Nat => q.2.2) _ _).append
      (d.perm_flatMap_owned (fun q : Nat × Nat × Nat => q.2.1) _ _))

end Values

/-- Two VPs (node `n` on VP `n % 2`), sources `[1, 2, 3]` onto targets
`[2, 2, 4]` with autapses disallowed, an array weight `[10, 20, 30]` and a
scalar delay 5: both passes run the target loop, VP 0 creates `1 → 2` and
`3 → 4` at positions 0 and 1, VP 1 the reverse edges at the same positions. -/
theorem symmetric_one_to_one_two_vps :
    ((Decomposition.roundRobin 1 2 4 (by decide)).workers.flatMap fun w =>
        ((connect (Decomposition.roundRobin 1 2 4 (by decide)) Storage.total false
          [.array [10, 20, 30], .scalar 5] [1, 2, 3] [2, 2, 4]).1 w).edges.map
          fun e => (e.pair, valuesAt [.array [10, 20, 30], .scalar (5 : Nat)] e.pos)).Perm
      ((([1, 2, 3].zip [2, 2, 4]).filter (Structural.admitted false)).enum.map
          (fun q : Nat × Nat × Nat => (q.2, valuesAt [.array [10, 20, 30], .scalar (5 : Nat)] q.1)) ++
        (([1, 2, 3].zip [2, 2, 4]).filter (Structural.admitted false)).enum.map
          fun q : Nat × Nat × Nat => (q.2.swap, valuesAt [.array [10, 20, 30], .scalar (5 : Nat)] q.1)) ∧
      (connect (Decomposition.roundRobin 1 2 4 (by decide)) Storage.total false
        [.array [10, 20, 30], .scalar (5 : Nat)] [1, 2, 3] [2, 2, 4]).2 = ([1, 2, 3], [2, 2, 4]) :=
  symmetric_one_to_one (Decomposition.roundRobin 1 2 4 (by decide)) Storage.total false
    [.array [10, 20, 30], .scalar 5] [1, 2, 3] [2, 2, 4] rfl (by decide) (by decide)

/-- One VP owning nodes 1 and 2, sources `[1]` onto targets `[2]`, a storage
that rejects `2 → 1`: the replay raises after that call has read its
parameters, and the VP ends with `1 → 2` alone and its exception slot set. -/
theorem symmetric_one_to_one_raise_loses_reverse :
    (connect (Decomposition.single 2) ⟨fun s t => !(s == 2 && t == 1), fun _ _ => true, fun _ => true⟩ false
        ([] : List (ConnParameter Nat)) [1] [2]).1 0 = ⟨1, [⟨1, 2, 0, 0⟩], [], [], [], true⟩ := by
  decide

end NestConnBuilder.MakeSymmetric
