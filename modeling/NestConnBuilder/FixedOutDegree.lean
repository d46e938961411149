import NestConnBuilder.Worker

/-!
# Fixed out-degree: target lists drawn once, regions per source

`FixedOutDegreeBuilder::connect_` is the one rule whose loop over sources runs
outside the parallel region. For each source, the master thread of every rank
evaluates the out-degree and draws that many target indices on the
rank-synchronised stream, redrawing rejected autapses and (with multapses
disallowed) repeated indices; since every rank draws the same numbers, every
rank builds the same list `tgt_ids_`. Then a parallel region opens in which
every thread walks the whole list, skipping one array position for a target
it sees only as a proxy and connecting the ones it owns.

Each source has its own region, and each region its own `try` block: a thread
whose `single_connect_` throws leaves that source's list unfinished, and
enters the next source's region with its cursors where the exception left
them.

## Main results

* `connect_eq` — the rule is the drawn lists followed, on every VP, by one
  region per list.
* `outdegree_positions` — on a VP whose exception slot stays empty, the `k`-th
  entry of the `i`-th source's list reads position
  `|list₀| + … + |listᵢ₋₁| + k`, and `drawTargets_length` makes the list
  lengths the out-degree values.
* `outdegree_positions_shift_after_raise` — after an exception in one source's
  region the next source's edges read earlier positions.
* `outdegree_edges` — with no VP raising, the VPs together create each drawn
  pair once, on the target's thread, whatever the decomposition; each list is
  as long as the out-degree value and respects the autapse and multapse
  settings (`drawTargets_spec`).
-/

namespace NestConnBuilder.FixedOutDegree

open NestConnBuilder

variable (d : Decomposition) {σ : Type} (ulrand : Nat → σ → Nat × σ)

/-- The `for ( j < outdegree_value )` loop of `FixedOutDegreeBuilder::connect_`
for source `s` on the rank-synced stream: `k` draws left, `chIds` the indices
chosen so far. -/
def drawTargetsLoop (fuel : Nat) (allowAutapses allowMultapses : Bool) (targets : List Nat)
    (s : Nat) : Nat → List Nat → σ → Option (List Nat × σ)
  | 0, _, g => some ([], g)
  | k + 1, chIds, g =>
    (drawIndex ulrand allowAutapses allowMultapses targets s chIds fuel g).bind fun r =>
      (drawTargetsLoop fuel allowAutapses allowMultapses targets s k
        (if allowMultapses = false then r.1 :: chIds else chIds) r.2).map
        fun q => (targets.getD r.1 0 :: q.1, q.2)

/-- The sequential part of `FixedOutDegreeBuilder::connect_` for source `s`:
evaluate the out-degree on the rank-synced stream, then draw `tgt_ids_`. -/
def drawTargets (fuel : Nat) (allowAutapses allowMultapses : Bool) (targets : List Nat)
    (outdegree : Nat → σ → Nat × σ) (s : Nat) (g : σ) : Option (List Nat × σ) :=
  let r := outdegree s g
  drawTargetsLoop ulrand fuel allowAutapses allowMultapses targets s r.1 [] r.2

/-- The parallel region of `FixedOutDegreeBuilder::connect_` for source `s`
with target list `tgtIds`, on VP `w`. -/
def region (s : Nat) (tgtIds : List Nat) (w : Nat) : List Action :=
  tgtIds.flatMap fun t => if d.owner t ≠ w then [.skip 1] else [.connect s t w]

/-- `FixedOutDegreeBuilder::connect_` over the sources still to come, from the
rank-synced stream state and the VPs' thread states. -/
def connect (st : Storage) (fuel : Nat) (allowAutapses allowMultapses : Bool)
    (targets : List Nat) (outdegree : Nat → σ → Nat × σ) :
    List Nat → σ × (Nat → Worker) → Option (σ × (Nat → Worker))
  | [], p => some p
  | s :: ss, p =>
    (drawTargets ulrand fuel allowAutapses allowMultapses targets outdegree s p.1).bind fun r =>
      connect st fuel allowAutapses allowMultapses targets outdegree ss
        (r.2, fun w => (p.2 w).region st (region d s r.1 w))

/-- The target lists `connect` draws, with their sources, in order. -/
def drawnLists (fuel : Nat) (allowAutapses allowMultapses : Bool) (targets : List Nat)
    (outdegree : Nat → σ → Nat × σ) : List Nat → σ → Option (List (Nat × List Nat) × σ)
  | [], g => some ([], g)
  | s :: ss, g =>
    (drawTargets ulrand fuel allowAutapses allowMultapses targets outdegree s g).bind fun r =>
      (drawnLists fuel allowAutapses allowMultapses targets outdegree ss r.2).map
        fun q => ((s, r.1) :: q.1, q.2)

/-- VP `w` running the regions of the drawn lists one after another. -/
def regions (st : Storage) (w : Nat) (lists : List (Nat × List Nat)) (wk : Worker) : Worker :=
  lists.foldl (fun wk sl => wk.region st (region d sl.1 sl.2 w)) wk

theorem drawTargetsLoop_length (fuel : Nat) (allowAutapses allowMultapses : Bool)
    (targets : List Nat) (s : Nat) :
    ∀ (k : Nat) (chIds : List Nat) (g : σ) (r : List Nat × σ),
      drawTargetsLoop ulrand fuel allowAutapses allowMultapses targets s k chIds g = some r →
        r.1.length = k
  | 0, _, _, r, h => by cases h; rfl
  | k + 1, chIds, g, r, h => by
    obtain ⟨r₁, -, h₁⟩ := Option.bind_eq_some.1 h
    obtain ⟨q, hq, rfl⟩ := Option.map_eq_some'.1 h₁
    simp [drawTargetsLoop_length fuel allowAutapses allowMultapses targets s k _ _ q hq]

/-- A drawn target list has as many entries as the out-degree value. -/
theorem drawTargets_length (fuel : Nat) (allowAutapses allowMultapses : Bool)
    (targets : List Nat) (outdegree : Nat → σ → Nat × σ) (s : Nat) (g : σ) (r : List Nat × σ)
    (h : drawTargets ulrand fuel allowAutapses allowMultapses targets outdegree s g = some r) :
    r.1.length = (outdegree s g).1 :=
  drawTargetsLoop_length ulrand fuel allowAutapses allowMultapses targets s _ [] _ r h

/-- The entries of a drawn list are the targets at the indices its rejection
loops returned. -/
theorem drawTargetsLoop_spec (fuel : Nat) (allowAutapses allowMultapses : Bool)
    (targets : List Nat) (s : Nat) :
    ∀ (k : Nat) (chIds : List Nat) (g : σ) (r : List Nat × σ),
      drawTargetsLoop ulrand fuel allowAutapses allowMultapses targets s k chIds g = some r →
        ∃ ids : List Nat, r.1 = ids.map (targets.getD · 0) ∧
          DrawnIndices ulrand allowAutapses allowMultapses targets s chIds ids
  | 0, chIds, _, r, h => by cases h; exact ⟨[], rfl, DrawnIndices.nil chIds⟩
  | k + 1, chIds, g, r, h => by
    obtain ⟨r₁, h₁, h₂⟩ := Option.bind_eq_some.1 h
    obtain ⟨q, hq, rfl⟩ := Option.map_eq_some'.1 h₂
    obtain ⟨ids, hids, hdrawn⟩ :=
      drawTargetsLoop_spec fuel allowAutapses allowMultapses targets s k _ _ q hq
    exact ⟨r₁.1 :: ids, by rw [hids]; rfl, hdrawn.cons h₁⟩

/-- What the pre-pass draws for one source: as many targets as the
out-degree value, none of them the source when autapses are disabled, and —
the stream giving indices into the collection, and the collection having no
repeats, as a node collection has none — no target twice when multapses are
disabled. -/
theorem drawTargets_spec (fuel : Nat) (allowAutapses allowMultapses : Bool)
    (targets : List Nat) (outdegree : Nat → σ → Nat × σ) (s : Nat) (g : σ) (r : List Nat × σ)
    (h : drawTargets ulrand fuel allowAutapses allowMultapses targets outdegree s g = some r) :
    r.1.length = (outdegree s g).1 ∧ (allowAutapses = false → s ∉ r.1) ∧
      (allowMultapses = false → (∀ g₀, (ulrand targets.length g₀).1 < targets.length) →
        targets.Nodup → r.1.Nodup) := by
  obtain ⟨ids, hids, hdrawn⟩ :=
    drawTargetsLoop_spec ulrand fuel allowAutapses allowMultapses targets s _ [] _ r h
  rw [hids]
  exact ⟨hids ▸ drawTargets_length ulrand fuel allowAutapses allowMultapses targets outdegree s g r h,
    hdrawn.node_not_mem, hdrawn.nodup_nodes⟩

/-- The rule is the drawn lists followed, on every VP, by its regions. -/
theorem connect_eq (st : Storage) (fuel : Nat) (allowAutapses allowMultapses : Bool)
    (targets : List Nat) (outdegree : Nat → σ → Nat × σ) :
    ∀ (sources : List Nat) (g : σ) (ws : Nat → Worker),
      connect d ulrand st fuel allowAutapses allowMultapses targets outdegree sources (g, ws)
        = (drawnLists ulrand fuel allowAutapses allowMultapses targets outdegree sources g).map
            fun q => (q.2, fun w => regions d st w q.1 (ws w))
  | [], _, _ => rfl
  | s :: ss, g, ws => by
    simp only [connect, drawnLists]
    cases drawTargets ulrand fuel allowAutapses allowMultapses targets outdegree s g with
    | none => rfl
    | some r =>
      simp only [Option.some_bind, connect_eq st fuel allowAutapses allowMultapses targets outdegree ss,
        Option.map_map]
      rfl

/-! ## Positions -/

/-- The edges the regions owe VP `w`, the cursors starting at `c`: the `k`-th
entry `t` of source `s`'s list, when `w` owns `t`, reads `c` plus the number
of entries before it in all lists. -/
def owed (w : Nat) : List (Nat × List Nat) → Nat → List Edge
  | [], _ => []
  | (s, ts) :: rest, c =>
    (ts.enum.flatMap fun q => if d.owner q.2 = w then [⟨s, q.2, w, c + q.1⟩] else [])
      ++ owed w rest (c + ts.length)

private theorem emitted_region (s w c : Nat) (ts : List Nat) :
    emitted c (region d s ts w)
      = ts.enum.flatMap fun q => if d.owner q.2 = w then [⟨s, q.2, w, c + q.1⟩] else [] := by
  have h := emitted_flatMap_uniform (fun t => if d.owner t ≠ w then [Action.skip 1]
    else [Action.connect s t w]) 1 c ts 0 fun t _ => by dsimp only; split <;> rfl
  simp only [Nat.zero_mul, Nat.add_zero, Nat.mul_one] at h
  rw [region, h, List.enum]
  congr 1
  funext q
  by_cases ho : d.owner q.2 = w <;> simp [ho, emitted, Action.emits, Action.advance]

private theorem advance_region (s w : Nat) (ts : List Nat) : advance (region d s ts w) = ts.length :=
  advance_flatMap_of_one _ _ fun t _ => by split <;> rfl

private theorem regions_failed (st : Storage) (w : Nat) :
    ∀ (lists : List (Nat × List Nat)) (wk : Worker), wk.failed = true →
      (regions d st w lists wk).failed = true
  | [], _, h => h
  | _ :: rest, _, h => regions_failed st w rest _ (Worker.region_failed_of_failed st h _)

/-- On a VP whose slot stays empty the regions execute everything, and the
edges are exactly `owed`. -/
theorem regions_edges (st : Storage) (w : Nat) :
    ∀ (lists : List (Nat × List Nat)) (wk : Worker), (regions d st w lists wk).failed = false →
      (regions d st w lists wk).edges = wk.edges ++ owed d w lists wk.cursor
  | [], wk, _ => by simp [regions, owed]
  | (s, ts) :: rest, wk, h => by
    have hfirst : (wk.region st (region d s ts w)).failed = false := by
      cases hf : (wk.region st (region d s ts w)).failed
      · rfl
      · have := regions_failed d st w rest _ hf
        simp_all [regions]
    have hreg := (Worker.region_of_ok st wk _ hfirst).2
    have hcons : regions d st w ((s, ts) :: rest) wk
        = regions d st w rest (wk.region st (region d s ts w)) := rfl
    rw [hcons] at h ⊢
    rw [regions_edges st w rest _ h, hreg, Worker.exec_edges, Worker.exec_cursor, emitted_region,
      advance_region, owed, List.append_assoc]

theorem drawnLists_fst (fuel : Nat) (allowAutapses allowMultapses : Bool) (targets : List Nat)
    (outdegree : Nat → σ → Nat × σ) :
    ∀ (sources : List Nat) (g : σ) (q : List (Nat × List Nat) × σ),
      drawnLists ulrand fuel allowAutapses allowMultapses targets outdegree sources g = some q →
        q.1.map Prod.fst = sources
  | [], _, q, h => by cases h; rfl
  | s :: ss, g, q, h => by
    obtain ⟨r, -, h₁⟩ := Option.bind_eq_some.1 h
    obtain ⟨q', hq', rfl⟩ := Option.map_eq_some'.1 h₁
    simp [drawnLists_fst fuel allowAutapses allowMultapses targets outdegree ss _ q' hq']

/-- Every list of the pre-pass is one `drawTargets` draws for its source. -/
theorem drawnLists_mem (fuel : Nat) (allowAutapses allowMultapses : Bool) (targets : List Nat)
    (outdegree : Nat → σ → Nat × σ) :
    ∀ (sources : List Nat) (g : σ) (q : List (Nat × List Nat) × σ),
      drawnLists ulrand fuel allowAutapses allowMultapses targets outdegree sources g = some q →
        ∀ sl ∈ q.1, ∃ g₀ g₁,
          drawTargets ulrand fuel allowAutapses allowMultapses targets outdegree sl.1 g₀ = some (sl.2, g₁)
  | [], _, q, h => by cases h; simp
  | s :: ss, g, q, h => by
    obtain ⟨r, hr, h₁⟩ := Option.bind_eq_some.1 h
    obtain ⟨q', hq', rfl⟩ := Option.map_eq_some'.1 h₁
    rintro sl (_ | ⟨_, hsl⟩)
    · exact ⟨g, r.2, hr⟩
    · exact drawnLists_mem fuel allowAutapses allowMultapses targets outdegree ss _ q' hq' sl hsl

/-- Forgetting positions, VP `w` owes the drawn pairs whose target it owns. -/
theorem owed_placed (w : Nat) :
    ∀ (lists : List (Nat × List Nat)) (c : Nat),
      (owed d w lists c).map Edge.placed
        = (lists.flatMap fun sl => sl.2.map (sl.1, ·)).flatMap fun p =>
            if d.owner p.2 = w then [(p.1, p.2, d.owner p.2)] else []
  | [], _ => rfl
  | (s, ts) :: rest, c => by
    have hblock : (ts.enum.flatMap fun q =>
        if d.owner q.2 = w then [(⟨s, q.2, w, c + q.1⟩ : Edge)] else []).map Edge.placed
          = (ts.map (s, ·)).flatMap fun p => if d.owner p.2 = w then [(p.1, p.2, d.owner p.2)] else [] := by
      rw [List.map_flatMap, List.flatMap_map]
      calc _ = (ts.enum.map Prod.snd).flatMap fun t =>
              if d.owner t = w then [(s, t, d.owner t)] else [] := by
            rw [List.flatMap_map]
            congr 1
            funext q
            by_cases ho : d.owner q.2 = w <;> simp [ho, Edge.placed]
        _ = _ := by rw [List.enum_map_snd]
    rw [owed, List.map_append, hblock, owed_placed w rest, List.flatMap_cons, List.flatMap_append]

/-- On every VP whose exception slot stays empty — in particular on every VP
when `connect()` returns normally — the `k`-th entry of the `i`-th source's
drawn list, if the VP owns it, reads position `|list₀| + … + |listᵢ₋₁| + k`:
the VP's edges are exactly `owed` for the drawn lists. -/
theorem outdegree_positions (st : Storage) (fuel : Nat) (allowAutapses allowMultapses : Bool)
    (targets : List Nat) (outdegree : Nat → σ → Nat × σ) (sources : List Nat) (g : σ) (w : Nat)
    (g' : σ) (wk : Worker)
    (h : (connect d ulrand st fuel allowAutapses allowMultapses targets outdegree sources
      (g, fun _ => Worker.init)).map (fun r => (r.1, r.2 w)) = some (g', wk))
    (hw : wk.failed = false) :
    ∃ lists, drawnLists ulrand fuel allowAutapses allowMultapses targets outdegree sources g
        = some (lists, g') ∧ lists.map Prod.fst = sources ∧ wk.edges = owed d w lists 0 := by
  rw [connect_eq, Option.map_map] at h
  obtain ⟨q, hq, hqe⟩ := Option.map_eq_some'.1 h
  obtain ⟨rfl, rfl⟩ := Prod.mk.inj hqe
  refine ⟨q.1, hq, drawnLists_fst ulrand fuel allowAutapses allowMultapses targets outdegree _ _ q hq,
    ?_⟩
  have := regions_edges d st w q.1 Worker.init hw
  rwa [Worker.init, List.nil_append] at this

/-! ## The edges over all VPs -/

/-- A run of the rule in which no VP raises: every VP executed every region,
and the VPs together created each drawn pair once, on the target's thread. -/
theorem connect_placed (st : Storage) (fuel : Nat) (allowAutapses allowMultapses : Bool)
    (targets : List Nat) (outdegree : Nat → σ → Nat × σ) (sources : List Nat) (g g' : σ)
    (ws : Nat → Worker)
    (h : connect d ulrand st fuel allowAutapses allowMultapses targets outdegree sources
      (g, fun _ => Worker.init) = some (g', ws))
    (hr : d.raised ws = false) :
    ∃ lists, drawnLists ulrand fuel allowAutapses allowMultapses targets outdegree sources g
        = some (lists, g') ∧
      (d.workers.flatMap fun w => (ws w).edges.map Edge.placed).Perm
        ((lists.flatMap fun sl => sl.2.map (sl.1, ·)).map fun p => (p.1, p.2, d.owner p.2)) := by
  rw [connect_eq] at h
  obtain ⟨q, hq, hqe⟩ := Option.map_eq_some'.1 h
  obtain ⟨rfl, rfl⟩ := Prod.mk.inj hqe
  refine ⟨q.1, hq, ?_⟩
  have hedges : ∀ w ∈ d.workers, (regions d st w q.1 Worker.init).edges.map Edge.placed
      = (q.1.flatMap fun sl => sl.2.map (sl.1, ·)).flatMap fun p =>
          if d.owner p.2 = w then [(p.1, p.2, d.owner p.2)] else [] := fun w hw => by
    rw [regions_edges d st w q.1 Worker.init (d.not_failed_of_not_raised hr hw), Worker.init,
      List.nil_append, owed_placed]
  rw [List.flatMap_congr hedges]
  exact d.perm_flatMap_owned Prod.snd _ _

/-- **`FixedOutDegreeBuilder::connect_` creates the drawn lists.** In a run
that ends (every rejection loop stops) and in which no VP raises, the edges of
all VPs are, as a multiset, the pairs `s → t` for `t` in the list drawn for
`s`, each once and on the thread owning `t`. Each list has as many entries as
the out-degree value drawn for its source, does not hold the source when
autapses are disabled, and holds no target twice when multapses are disabled
(the stream giving indices into the collection, which has no repeats). Any
other decomposition and storage, with no VP raising, give the same pairs. -/
theorem outdegree_edges (st : Storage) (fuel : Nat) (allowAutapses allowMultapses : Bool)
    (targets : List Nat) (outdegree : Nat → σ → Nat × σ) (sources : List Nat) (g g' : σ)
    (ws : Nat → Worker)
    (h : connect d ulrand st fuel allowAutapses allowMultapses targets outdegree sources
      (g, fun _ => Worker.init) = some (g', ws))
    (hr : d.raised ws = false) :
    ∃ lists, drawnLists ulrand fuel allowAutapses allowMultapses targets outdegree sources g
        = some (lists, g') ∧ lists.map Prod.fst = sources ∧
      (d.workers.flatMap fun w => (ws w).edges.map Edge.placed).Perm
        (lists.flatMap fun sl => sl.2.map fun t => (sl.1, t, d.owner t)) ∧
      (∀ sl ∈ lists, (∃ g₀, sl.2.length = (outdegree sl.1 g₀).1) ∧
        (allowAutapses = false → sl.1 ∉ sl.2) ∧
        (allowMultapses = false → (∀ g₀, (ulrand targets.length g₀).1 < targets.length) →
          targets.Nodup → sl.2.Nodup)) ∧
      ∀ (d' : Decomposition) (st' : Storage) (g'' : σ) (ws' : Nat → Worker),
        connect d' ulrand st' fuel allowAutapses allowMultapses targets outdegree sources
          (g, fun _ => Worker.init) = some (g'', ws') → d'.raised ws' = false →
        (d'.workers.flatMap fun w => (ws' w).edges.map Edge.pair).Perm
          (d.workers.flatMap fun w => (ws w).edges.map Edge.pair) := by
  obtain ⟨lists, hl, hperm⟩ :=
    connect_placed d ulrand st fuel allowAutapses allowMultapses targets outdegree sources g g' ws h hr
  -- forgetting the thread leaves the drawn pairs, whatever the decomposition
  have hpairs : ∀ (e : Decomposition) (ws' : Nat → Worker),
      (e.workers.flatMap fun w => (ws' w).edges.map Edge.placed).Perm
        ((lists.flatMap fun sl => sl.2.map (sl.1, ·)).map fun p => (p.1, p.2, e.owner p.2)) →
      (e.workers.flatMap fun w => (ws' w).edges.map Edge.pair).Perm
        (lists.flatMap fun sl => sl.2.map (sl.1, ·)) := fun e ws' hp => by
    have := hp.map fun x => (x.1, x.2.1)
    simpa [List.map_flatMap, Function.comp_def, Edge.placed, Edge.pair] using this
  refine ⟨lists, hl, drawnLists_fst ulrand fuel allowAutapses allowMultapses targets outdegree _ _ _ hl,
    by simpa [List.map_flatMap, Function.comp_def] using hperm, fun sl hsl => ?_,
    fun d' st' g'' ws' h' hr' => ?_⟩
  · obtain ⟨g₀, g₁, hd⟩ :=
      drawnLists_mem ulrand fuel allowAutapses allowMultapses targets outdegree _ _ _ hl sl hsl
    obtain ⟨hlen, haut, hmul⟩ :=
      drawTargets_spec ulrand fuel allowAutapses allowMultapses targets outdegree _ _ _ hd
    exact ⟨⟨g₀, hlen⟩, haut, hmul⟩
  · obtain ⟨lists', hl', hperm'⟩ := connect_placed d' ulrand st' fuel allowAutapses allowMultapses
      targets outdegree sources g g'' ws' h' hr'
    obtain ⟨rfl, -⟩ := Prod.mk.inj (Option.some.inj (hl'.symm.trans hl))
    exact (hpairs d' ws' hperm').trans (hpairs d ws hperm).symm

/-- Two VPs (node `n` on VP `n % 2`), sources `[1, 2]`, targets `[3, 4]`,
out-degree 1 and a stream whose `ulrand n` yields its state modulo `n`: the
lists `[3]` and `[4]` are drawn and both edges are made, on VPs 1 and 0. -/
theorem outdegree_edges_two_vps :
    connect (Decomposition.roundRobin 1 2 4 (by decide)) (fun n g => (g % n, g + 1)) Storage.total 2
        true true [3, 4] (fun _ g => (1, g)) [1, 2] (0, fun _ => Worker.init)
      = some (2, fun w => regions (Decomposition.roundRobin 1 2 4 (by decide)) Storage.total w
          [(1, [3]), (2, [4])] Worker.init) ∧
    (Decomposition.roundRobin 1 2 4 (by decide)).raised (fun w =>
      regions (Decomposition.roundRobin 1 2 4 (by decide)) Storage.total w [(1, [3]), (2, [4])]
        Worker.init) = false ∧
    ∃ lists, drawnLists (fun n g => (g % n, g + 1)) 2 true true [3, 4] (fun _ g => (1, g)) [1, 2] 0
        = some (lists, 2) ∧ lists.map Prod.fst = [1, 2] ∧
      ((Decomposition.roundRobin 1 2 4 (by decide)).workers.flatMap fun w =>
        (regions (Decomposition.roundRobin 1 2 4 (by decide)) Storage.total w [(1, [3]), (2, [4])]
          Worker.init).edges.map Edge.placed).Perm
        (lists.flatMap fun sl => sl.2.map fun t =>
          (sl.1, t, (Decomposition.roundRobin 1 2 4 (by decide)).owner t)) ∧
      (∀ sl ∈ lists, (∃ _ : Nat, sl.2.length = 1) ∧ (true = false → sl.1 ∉ sl.2) ∧
        (true = false → (∀ g₀ : Nat, g₀ % 2 < 2) → [3, 4].Nodup → sl.2.Nodup)) ∧
      ∀ (d' : Decomposition) (st' : Storage) (g'' : Nat) (ws' : Nat → Worker),
        connect d' (fun n g => (g % n, g + 1)) st' 2 true true [3, 4] (fun _ g => (1, g)) [1, 2]
          (0, fun _ => Worker.init) = some (g'', ws') → d'.raised ws' = false →
        (d'.workers.flatMap fun w => (ws' w).edges.map Edge.pair).Perm
          ((Decomposition.roundRobin 1 2 4 (by decide)).workers.flatMap fun w =>
            (regions (Decomposition.roundRobin 1 2 4 (by decide)) Storage.total w [(1, [3]), (2, [4])]
              Worker.init).edges.map Edge.pair) :=
  have h : connect (Decomposition.roundRobin 1 2 4 (by decide)) (fun n g => (g % n, g + 1))
      Storage.total 2 true true [3, 4] (fun _ g => (1, g)) [1, 2] (0, fun _ => Worker.init)
        = some (2, fun w => regions (Decomposition.roundRobin 1 2 4 (by decide)) Storage.total w
            [(1, [3]), (2, [4])] Worker.init) := rfl
  have hr : (Decomposition.roundRobin 1 2 4 (by decide)).raised (fun w =>
      regions (Decomposition.roundRobin 1 2 4 (by decide)) Storage.total w [(1, [3]), (2, [4])]
        Worker.init) = false := by decide
  ⟨h, hr, outdegree_edges (Decomposition.roundRobin 1 2 4 (by decide)) (fun n g => (g % n, g + 1))
    Storage.total 2 true true [3, 4] (fun _ g => (1, g)) [1, 2] 0 2 _ h hr⟩

/-- One thread, source 1, targets `[3, 4]`, out-degree 2, and storage that
rejects `1 → 3`: the pre-pass draws `[3, 4]`, the region raises at its first
entry, and the VP ends with no edge at all. -/
theorem outdegree_raise_loses_drawn_edges :
    drawnLists (fun n g => (g % n, g + 1)) 2 true true [3, 4] (fun _ g => (2, g)) [1] 0
        = some ([(1, [3, 4])], 2) ∧
      (connect (Decomposition.single 4) (fun n g => (g % n, g + 1))
        ⟨fun s t => !(s == 1 && t == 3), fun _ _ => true, fun _ => true⟩ 2 true true [3, 4] (fun _ g => (2, g))
        [1] (0, fun _ => Worker.init)).map (fun r => ((r.2 0).failed, (r.2 0).edges))
        = some (true, []) := by
  decide

/-- One thread, out-degree 1 from source 1 into `[3, 4]`: the run ends with
the edge `1 → 3` at position 0, which is what `owed` gives for the drawn list. -/
theorem outdegree_positions_one_source :
    (connect (Decomposition.single 4) (fun n g => (g % n, g + 1)) Storage.total 2 true true [3, 4]
        (fun _ g => (1, g)) [1] (0, fun _ => Worker.init)).map (fun r => (r.1, r.2 0))
        = some (1, ⟨1, [⟨1, 3, 0, 0⟩], [], [], [], false⟩) ∧
      (⟨1, [⟨1, 3, 0, 0⟩], [], [], [], false⟩ : Worker).failed = false ∧
      ∃ lists, drawnLists (fun n g => (g % n, g + 1)) 2 true true [3, 4] (fun _ g => (1, g)) [1] 0
          = some (lists, 1) ∧ lists.map Prod.fst = [1] ∧
        [(⟨1, 3, 0, 0⟩ : Edge)] = owed (Decomposition.single 4) 0 lists 0 :=
  have h : (connect (Decomposition.single 4) (fun n g => (g % n, g + 1)) Storage.total 2 true true
      [3, 4] (fun _ g => (1, g)) [1] (0, fun _ => Worker.init)).map (fun r => (r.1, r.2 0))
        = some (1, ⟨1, [⟨1, 3, 0, 0⟩], [], [], [], false⟩) := by decide
  ⟨h, rfl, outdegree_positions (Decomposition.single 4) (fun n g => (g % n, g + 1)) Storage.total 2
    true true [3, 4] (fun _ g => (1, g)) [1] 0 0 1 _ h rfl⟩

/-- One thread, targets `[3, 4]`, out-degree 2 for sources `[1, 2]`, a stream
whose `ulrand n` yields its state modulo `n`, and a connection manager that
rejects `1 → 3`: both sources draw `[3, 4]`, the first region raises at its
first call, which has read position 0, and the second source's edges read
positions 1 and 2, not the 2 and 3 (`owed`) that they read when the slot stays
empty. -/
theorem outdegree_positions_shift_after_raise :
    (connect (Decomposition.single 4) (fun n g => (g % n, g + 1))
        ⟨fun s t => !(s == 1 && t == 3), fun _ _ => true, fun _ => true⟩ 2 true true [3, 4] (fun _ g => (2, g))
        [1, 2] (0, fun _ => Worker.init)).map (fun r => (r.2 0).edges)
      = some [⟨2, 3, 0, 1⟩, ⟨2, 4, 0, 2⟩] := by
  decide

end NestConnBuilder.FixedOutDegree
