import NestConnBuilder.Worker

/-!
# Structural plasticity: synaptic-element counters and the SP loops

In structural-plasticity mode a builder does not draw its pairs: every cycle
the structural-plasticity manager hands it two equal-length id vectors, and
for each pair the builder first reserves both endpoints with
`change_connected_synaptic_elements` — a counter is moved only by the thread
that owns its node — and then creates the edge on the target's thread. Three
loops do this (`SPBuilder::connect_( sources, targets )`,
`OneToOneBuilder::sp_connect_`, `AllToAllBuilder::sp_connect_`) and two undo it
with `update = -1` (`OneToOneBuilder::sp_disconnect_`,
`AllToAllBuilder::sp_disconnect_`).

The three connect loops differ only in what they skip: a rejected autapse
advances the array cursors in `AllToAllBuilder` alone, and a pair whose target
lives elsewhere advances them by one position in the first two and by
`|sources|` in the third. `spConnectPair` is their common body with those two
choices as parameters.

## Main results

* `sp_connect_accounting` — with no VP raising, the three connect loops move,
  summed over all VPs, every node's pre-synaptic count by the number of
  admitted pairs it is the source of, its post-synaptic count by the number it
  is the target of, and create one edge per admitted pair on the target's
  thread.
* `spConnectPair_advance` — how far one pair moves a thread's cursors.
* `sp_connect_post_reservation` — whatever the storage refuses, the connect
  loops leave every node's post-synaptic count at the number of edges stored
  into it, or one above it when the node's VP raised: the counters are
  committed before `single_connect_` and not undone when it throws
  (`sp_connect_refused_pair_keeps_elements`).
* `sp_disconnect_accounting` — with no VP raising, the two disconnect loops
  remove every scheduled pair once over all VPs, autapses included, and move
  every node's counts down by the number of pairs it is the source,
  respectively the target, of.
* `spConnect_spDisconnect_change` — a connect pass followed by a disconnect
  pass over the same pairs moves each count by minus the number of rejected
  autapses at the node.
-/

namespace NestConnBuilder.Structural

open NestConnBuilder

variable (d : Decomposition)

/-- `ConnBuilder::change_connected_synaptic_elements( snode_id, tnode_id, tid,
update )` on VP `w`: the counter updates it makes, and whether the target is
local. The node handle's `get_thread()` equals the calling thread exactly on
the VP that owns the node. -/
def changeConnectedSynapticElements (s t w : Nat) (update : Int) : List Action × Bool :=
  ((if d.owner s = w then [.pre s update] else []) ++
      (if d.owner t = w then [.post t update] else []),
    decide (d.owner t = w))

/-- The body of the structural-plasticity connect loops for the pair
`(s, t)` on VP `w`. A rejected autapse calls `skip_conn_parameter_( tid )`
when `autapseSkips`; a pair whose target is not local skips `deferSkip`. -/
def spConnectPair (allowAutapses autapseSkips : Bool) (deferSkip w s t : Nat) : List Action :=
  if s = t ∧ allowAutapses = false then
    if autapseSkips then [.skip 1] else []
  else
    let r := changeConnectedSynapticElements d s t w 1
    r.1 ++ if r.2 then [.connect s t w] else [.skip deferSkip]

/-- `SPBuilder::connect_( sources, targets )` on VP `w`. -/
def spBuilderConnect (allowAutapses : Bool) (sources targets : List Nat) (w : Nat) :
    List Action :=
  (sources.zip targets).flatMap fun p => spConnectPair d allowAutapses false 1 w p.1 p.2

/-- `OneToOneBuilder::sp_connect_` on VP `w`. -/
def oneToOneSpConnect (allowAutapses : Bool) (sources targets : List Nat) (w : Nat) :
    List Action :=
  (sources.zip targets).flatMap fun p => spConnectPair d allowAutapses false 1 w p.1 p.2

/-- `AllToAllBuilder::sp_connect_` on VP `w`: every source for every target. -/
def allToAllSpConnect (allowAutapses : Bool) (sources targets : List Nat) (w : Nat) :
    List Action :=
  targets.flatMap fun t =>
    sources.flatMap fun s => spConnectPair d allowAutapses true sources.length w s t

/-- The body of the structural-plasticity disconnect loops: no autapse test,
and no skipping for a pair whose target is elsewhere. -/
def spDisconnectPair (w s t : Nat) : List Action :=
  let r := changeConnectedSynapticElements d s t w (-1)
  r.1 ++ if r.2 then [.disconnect s t w] else []

/-- `OneToOneBuilder::sp_disconnect_` on VP `w`. -/
def oneToOneSpDisconnect (sources targets : List Nat) (w : Nat) : List Action :=
  (sources.zip targets).flatMap fun p => spDisconnectPair d w p.1 p.2

/-- `AllToAllBuilder::sp_disconnect_` on VP `w`. -/
def allToAllSpDisconnect (sources targets : List Nat) (w : Nat) : List Action :=
  targets.flatMap fun t => sources.flatMap fun s => spDisconnectPair d w s t

/-- The pair schedule of the all-to-all loops: targets outside, sources inside. -/
def allPairs (sources targets : List Nat) : List (Nat × Nat) :=
  targets.flatMap fun t => sources.map fun s => (s, t)

theorem allToAllSpConnect_eq (allowAutapses : Bool) (sources targets : List Nat) (w : Nat) :
    allToAllSpConnect d allowAutapses sources targets w
      = (allPairs sources targets).flatMap fun p =>
          spConnectPair d allowAutapses true sources.length w p.1 p.2 := by
  simp [allToAllSpConnect, allPairs, List.flatMap_assoc, List.flatMap_map, Function.comp_def]

theorem allToAllSpDisconnect_eq (sources targets : List Nat) (w : Nat) :
    allToAllSpDisconnect d sources targets w
      = (allPairs sources targets).flatMap fun p => spDisconnectPair d w p.1 p.2 := by
  simp [allToAllSpDisconnect, allPairs, List.flatMap_assoc, List.flatMap_map, Function.comp_def]

/-! ## One pair -/

/-- `allow_autapses_ or s != t`: the pairs the SP connect loops act on. -/
def admitted (allowAutapses : Bool) (p : Nat × Nat) : Bool :=
  allowAutapses || p.1 != p.2

/-- Whether a pair is admitted does not depend on its direction. -/
theorem admitted_swap (allowAutapses : Bool) (p : Nat × Nat) :
    admitted allowAutapses p.swap = admitted allowAutapses p := by
  obtain ⟨a, b⟩ := p
  by_cases h : a = b
  · subst h; rfl
  · have h₁ : (b != a) = true := bne_iff_ne.2 (Ne.symm h)
    have h₂ : (a != b) = true := bne_iff_ne.2 h
    simp [admitted, h₁, h₂]

section Pair

variable (allowAutapses autapseSkips : Bool) (deferSkip w s t : Nat)

/-- The pairs the loops pass over are the autapses when they are disallowed. -/
theorem rejected_iff : (s = t ∧ allowAutapses = false) ↔ admitted allowAutapses (s, t) = false := by
  cases allowAutapses <;> simp [admitted]

theorem spConnectPair_preEntry :
    (spConnectPair d allowAutapses autapseSkips deferSkip w s t).flatMap Action.preEntry
      = if d.owner s = w ∧ admitted allowAutapses (s, t) then [(s, 1)] else [] := by
  by_cases hr : s = t ∧ allowAutapses = false
  · obtain ⟨rfl, rfl⟩ := hr
    cases autapseSkips <;> simp [spConnectPair, admitted, Action.preEntry]
  · have ha : admitted allowAutapses (s, t) = true := by
      simpa [rejected_iff] using hr
    by_cases hs : d.owner s = w <;> by_cases ht : d.owner t = w <;>
      simp [spConnectPair, changeConnectedSynapticElements, hr, ha, hs, ht, Action.preEntry]

theorem spConnectPair_postEntry :
    (spConnectPair d allowAutapses autapseSkips deferSkip w s t).flatMap Action.postEntry
      = if d.owner t = w ∧ admitted allowAutapses (s, t) then [(t, 1)] else [] := by
  by_cases hr : s = t ∧ allowAutapses = false
  · obtain ⟨rfl, rfl⟩ := hr
    cases autapseSkips <;> simp [spConnectPair, admitted, Action.postEntry]
  · have ha : admitted allowAutapses (s, t) = true := by
      simpa [rejected_iff] using hr
    by_cases hs : d.owner s = w <;> by_cases ht : d.owner t = w <;>
      simp [spConnectPair, changeConnectedSynapticElements, hr, ha, hs, ht, Action.postEntry]

theorem spConnectPair_connection :
    (spConnectPair d allowAutapses autapseSkips deferSkip w s t).flatMap Action.connection
      = if d.owner t = w ∧ admitted allowAutapses (s, t) then [(s, t, d.owner t)] else [] := by
  by_cases hr : s = t ∧ allowAutapses = false
  · obtain ⟨rfl, rfl⟩ := hr
    cases autapseSkips <;> simp [spConnectPair, admitted, Action.connection]
  · have ha : admitted allowAutapses (s, t) = true := by
      simpa [rejected_iff] using hr
    by_cases hs : d.owner s = w <;> by_cases ht : d.owner t = w <;>
      simp [spConnectPair, changeConnectedSynapticElements, hr, ha, hs, ht, Action.connection]

/-- How far one pair moves the thread's array cursors: a rejected autapse
by one only if the loop skips for it, a deferred pair by `deferSkip`, a
connected pair by one. -/
theorem spConnectPair_advance :
    advance (spConnectPair d allowAutapses autapseSkips deferSkip w s t)
      = if admitted allowAutapses (s, t) = false then (if autapseSkips then 1 else 0)
        else if d.owner t = w then 1 else deferSkip := by
  by_cases hr : s = t ∧ allowAutapses = false
  · obtain ⟨rfl, rfl⟩ := hr
    cases autapseSkips <;> simp [spConnectPair, admitted, advance, Action.advance]
  · have ha : admitted allowAutapses (s, t) = true := by
      simpa [rejected_iff] using hr
    by_cases hs : d.owner s = w <;> by_cases ht : d.owner t = w <;>
      simp [spConnectPair, changeConnectedSynapticElements, hr, ha, hs, ht, advance,
        Action.advance]

/-- An admitted pair moves the counters of the endpoints `w` owns and then,
when `w` owns the target, creates the edge, and otherwise skips. -/
theorem spConnectPair_eq_of_admitted (ha : admitted allowAutapses (s, t) = true) :
    spConnectPair d allowAutapses autapseSkips deferSkip w s t
      = (if d.owner s = w then [.pre s 1] else []) ++
        (if d.owner t = w then [.post t 1, .connect s t w] else [.skip deferSkip]) := by
  have hr : ¬(s = t ∧ allowAutapses = false) := fun h => by simp [(rejected_iff _ _ _).1 h] at ha
  unfold spConnectPair changeConnectedSynapticElements
  by_cases ht : d.owner t = w
  · simp only [hr, ht, decide_True, if_true, if_false, List.append_assoc]
    rfl
  · simp only [hr, ht, decide_False, if_false, List.append_nil, Bool.false_eq_true]

/-- A disconnecting pair moves the counters of the endpoints `w` owns and,
when `w` owns the target, removes the edge. -/
theorem spDisconnectPair_eq :
    spDisconnectPair d w s t
      = (if d.owner s = w then [.pre s (-1)] else []) ++
        (if d.owner t = w then [.post t (-1), .disconnect s t w] else []) := by
  unfold spDisconnectPair changeConnectedSynapticElements
  by_cases ht : d.owner t = w
  · simp only [ht, decide_True, if_true, List.append_assoc]
    rfl
  · simp only [ht, decide_False, if_false, List.append_nil, Bool.false_eq_true]

theorem spDisconnectPair_preEntry :
    (spDisconnectPair d w s t).flatMap Action.preEntry
      = if d.owner s = w then [(s, -1)] else [] := by
  rw [spDisconnectPair_eq, List.flatMap_append]
  split_ifs <;> rfl

theorem spDisconnectPair_postEntry :
    (spDisconnectPair d w s t).flatMap Action.postEntry
      = if d.owner t = w then [(t, -1)] else [] := by
  rw [spDisconnectPair_eq, List.flatMap_append]
  split_ifs <;> rfl

theorem spDisconnectPair_removes :
    (spDisconnectPair d w s t).flatMap Action.removes = if d.owner t = w then [(s, t)] else [] := by
  rw [spDisconnectPair_eq, List.flatMap_append]
  split_ifs <;> rfl

/-- A disconnecting pair moves no cursor: there is no parameter to skip. -/
theorem spDisconnectPair_advance : advance (spDisconnectPair d w s t) = 0 := by
  rw [spDisconnectPair_eq, advance_append]
  split_ifs <;> rfl

end Pair

/-! ## Summed over all virtual processes -/

private theorem sum_map_ite_const {α : Type*} (q : α → Bool) (u : Int) (l : List α) :
    (l.map fun a => if q a = true then u else 0).sum = l.countP q * u := by
  induction l with
  | nil => simp
  | cons a l ih => by_cases h : q a <;> simp [h, ih, List.countP_cons, Int.add_mul, Int.add_comm]

private theorem countP_and_add_countP_not_and {α : Type*} (p q : α → Bool) (l : List α) :
    l.countP (fun a => p a && q a) + l.countP (fun a => !p a && q a) = l.countP q := by
  induction l with
  | nil => rfl
  | cons a l ih => cases hp : p a <;> cases hq : q a <;> simp [List.countP_cons, hp, hq] <;> omega

private theorem netChange_owned {p : Prop} [Decidable p] (o w m n : Nat) (u : Int) :
    netChange (if o = w ∧ p then [(m, u)] else []) n
      = if o = w then (if p ∧ m = n then u else 0) else 0 := by
  by_cases ho : o = w <;> by_cases hp : p <;> simp [ho, hp]

private theorem flatMap_owned_filter {α β : Type*} (q : α → Bool) (o : α → Nat) (f : α → β)
    (w : Nat) (l : List α) :
    (l.flatMap fun a => if o a = w ∧ q a = true then [f a] else [])
      = (l.filter q).flatMap fun a => if o a = w then [f a] else [] := by
  induction l with
  | nil => rfl
  | cons a l ih => by_cases h : q a <;> simp [List.filter_cons, h, ih]

/-- What a structural-plasticity connect pass over the pair schedule `sched`
owes, summed over all VPs, when afterwards no VP's exception slot is set:
every node's pre- and post-synaptic counts moved by the number of admitted
pairs it is the source, respectively the target, of, and one edge per admitted
pair stored on the thread owning its target. -/
def ElementAccounting (st : Storage) (allowAutapses : Bool) (acts : Nat → List Action)
    (sched : List (Nat × Nat)) : Prop :=
  d.raised (Worker.pass st acts) = false →
    (∀ n, (d.workers.map fun w => netChange (Worker.pass st acts w).preLog n).sum
        = sched.countP fun p => admitted allowAutapses p && p.1 == n) ∧
    (∀ n, (d.workers.map fun w => netChange (Worker.pass st acts w).postLog n).sum
        = sched.countP fun p => admitted allowAutapses p && p.2 == n) ∧
    (d.workers.flatMap fun w => (Worker.pass st acts w).edges.map Edge.placed).Perm
      ((sched.filter (admitted allowAutapses)).map fun p => (p.1, p.2, d.owner p.2))

/-- Every loop with body `spConnectPair`, whatever it skips, accounts for the
elements of its schedule. -/
theorem spConnectPair_accounting (st : Storage) (allowAutapses autapseSkips : Bool)
    (deferSkip : Nat) (sched : List (Nat × Nat)) :
    ElementAccounting d st allowAutapses
      (fun w => sched.flatMap fun p => spConnectPair d allowAutapses autapseSkips deferSkip w p.1 p.2)
      sched := by
  intro hr
  have hpass := fun w (hw : w ∈ d.workers) =>
    Worker.pass_eq_exec st _ (d.not_failed_of_not_raised hr hw)
  refine ⟨fun n => ?_, fun n => ?_, ?_⟩
  · rw [List.map_congr_left fun w hw => by rw [hpass w hw]]
    simp only [Worker.exec_preLog, Worker.init, List.nil_append, List.flatMap_assoc,
      netChange_flatMap, spConnectPair_preEntry, netChange_owned]
    rw [d.sum_workers_sum_owner Prod.fst, ← Int.mul_one (List.countP _ _), ← sum_map_ite_const]
    simp [Bool.and_eq_true, beq_iff_eq]
  · rw [List.map_congr_left fun w hw => by rw [hpass w hw]]
    simp only [Worker.exec_postLog, Worker.init, List.nil_append, List.flatMap_assoc,
      netChange_flatMap, spConnectPair_postEntry, netChange_owned]
    rw [d.sum_workers_sum_owner Prod.snd, ← Int.mul_one (List.countP _ _), ← sum_map_ite_const]
    simp [Bool.and_eq_true, beq_iff_eq]
  · rw [List.flatMap_congr fun w hw => by rw [hpass w hw]]
    simp only [Worker.exec_edges, Worker.init, List.nil_append, emitted_placed,
      List.flatMap_assoc, spConnectPair_connection]
    simp only [flatMap_owned_filter (admitted allowAutapses) (fun p => d.owner p.2)
      (fun p => (p.1, p.2, d.owner p.2))]
    exact d.perm_flatMap_owned _ _ _

/-- Element accounting of the three structural-plasticity connect loops. -/
theorem sp_connect_accounting (st : Storage) (allowAutapses : Bool) (sources targets : List Nat) :
    ElementAccounting d st allowAutapses (spBuilderConnect d allowAutapses sources targets)
        (sources.zip targets) ∧
      ElementAccounting d st allowAutapses (oneToOneSpConnect d allowAutapses sources targets)
        (sources.zip targets) ∧
      ElementAccounting d st allowAutapses (allToAllSpConnect d allowAutapses sources targets)
        (allPairs sources targets) := by
  refine ⟨spConnectPair_accounting d st allowAutapses false 1 _,
    spConnectPair_accounting d st allowAutapses false 1 _, ?_⟩
  have h := spConnectPair_accounting d st allowAutapses true sources.length (allPairs sources targets)
  simpa only [← allToAllSpConnect_eq] using h

/-! ## A pair whose edge is refused

`change_connected_synaptic_elements` commits both counter updates before
`single_connect_` runs, and the `catch` clause around the loop records the
exception without undoing them. -/

/-- What thread `wk` has added to node `n`'s post-synaptic count beyond the
edges into `n` it stored. -/
def reserved (wk : Worker) (n : Nat) : Int :=
  netChange wk.postLog n - (wk.edges.countP (·.tgt == n) : Int)

private theorem run_ite_pre (st : Storage) {wk : Worker} (hw : wk.failed = false) (p : Prop)
    [Decidable p] (m : Nat) (u : Int) :
    wk.run st (if p then [.pre m u] else [])
      = if p then { wk with preLog := wk.preLog ++ [(m, u)] } else wk := by
  split_ifs <;> simp [Worker.run, Worker.step, hw, Action.ok, Worker.apply]

/-- One pair on a thread whose slot is empty either leaves the slot empty and
every reservation as it was, or is a pair whose target the thread owns and
whose edge the storage refused: the slot is set and the target keeps one
reserved element. -/
theorem spConnectPair_reserved (st : Storage) (allowAutapses autapseSkips : Bool)
    (deferSkip w s t : Nat) {wk : Worker} (hw : wk.failed = false) :
    (wk.run st (spConnectPair d allowAutapses autapseSkips deferSkip w s t)).failed = false ∧
        (∀ n, reserved (wk.run st (spConnectPair d allowAutapses autapseSkips deferSkip w s t)) n
          = reserved wk n) ∨
      (wk.run st (spConnectPair d allowAutapses autapseSkips deferSkip w s t)).failed = true ∧
        d.owner t = w ∧
        ∀ n, reserved (wk.run st (spConnectPair d allowAutapses autapseSkips deferSkip w s t)) n
          = reserved wk n + if t = n then 1 else 0 := by
  cases ha : admitted allowAutapses (s, t)
  case false =>
    obtain ⟨rfl, rfl⟩ := (rejected_iff _ _ _).2 ha
    left
    cases autapseSkips <;>
      simp [spConnectPair, Worker.run, Worker.step, hw, Worker.apply, Action.ok, reserved]
  case true =>
    -- the counter of the source changes neither the slot nor a reservation
    rw [spConnectPair_eq_of_admitted d allowAutapses autapseSkips deferSkip w s t ha,
      Worker.run_append, run_ite_pre st hw]
    generalize hv : (if d.owner s = w then { wk with preLog := wk.preLog ++ [(s, 1)] } else wk) = v
    have hv' : v.failed = false ∧ ∀ n, reserved v n = reserved wk n := by
      subst hv; split_ifs <;> exact ⟨hw, fun _ => rfl⟩
    by_cases ht : d.owner t = w
    · rw [if_pos ht]
      by_cases hok : (st.proxiesOk t && st.connectOk s t) = true
      · left
        simp only [Worker.run, List.foldl, Worker.step, hv'.1, Action.ok, hok, Worker.apply, if_true,
          Bool.false_eq_true, if_false, true_and]
        intro n
        rw [← hv'.2 n]
        simp only [reserved, netChange_append, netChange_singleton, List.countP_append]
        by_cases h : t = n <;> simp [h]
      · right
        simp only [Worker.run, List.foldl, Worker.step, hv'.1, Action.ok, hok, Worker.apply, if_true,
          Bool.false_eq_true, if_false, true_and, ht]
        intro n
        rw [← hv'.2 n]
        simp only [reserved, netChange_append, netChange_singleton]
        omega
    · left
      rw [if_neg ht]
      simp only [Worker.run, List.foldl, Worker.step, hv'.1, Action.ok, Worker.apply, if_true,
        Bool.false_eq_true, if_false, true_and]
      exact hv'.2

/-- A connect loop over `sched` ends with every reservation it started from,
or with its slot set and one more element reserved at a target it owns. -/
theorem spConnect_reserved (st : Storage) (allowAutapses autapseSkips : Bool) (deferSkip w : Nat)
    (sched : List (Nat × Nat)) {wk : Worker} (hw : wk.failed = false) :
    let acts := sched.flatMap fun p => spConnectPair d allowAutapses autapseSkips deferSkip w p.1 p.2
    (wk.run st acts).failed = false ∧ (∀ n, reserved (wk.run st acts) n = reserved wk n) ∨
      (wk.run st acts).failed = true ∧
        ∃ t, d.owner t = w ∧ ∀ n, reserved (wk.run st acts) n = reserved wk n + if t = n then 1 else 0 := by
  induction sched generalizing wk with
  | nil => exact Or.inl ⟨hw, fun _ => rfl⟩
  | cons p sched ih =>
    simp only [List.flatMap_cons, Worker.run_append]
    rcases spConnectPair_reserved d st allowAutapses autapseSkips deferSkip w p.1 p.2 hw with
      ⟨hok, hkeep⟩ | ⟨hfail, hown, hres⟩
    · rcases ih hok with ⟨hok', hkeep'⟩ | ⟨hfail', t, hown', hres'⟩
      · exact Or.inl ⟨hok', fun n => (hkeep' n).trans (hkeep n)⟩
      · exact Or.inr ⟨hfail', t, hown', fun n => by rw [hres' n, hkeep n]⟩
    · rw [Worker.run_of_failed st hfail]
      exact Or.inr ⟨hfail, p.2, hown, hres⟩

/-- What a structural-plasticity connect pass leaves at every node, summed
over all VPs: the post-synaptic count moved by the number of edges stored into
the node, or by one more when the VP owning the node raised. -/
def PostReservation (st : Storage) (acts : Nat → List Action) : Prop :=
  ∀ n, (d.workers.map fun w => netChange (Worker.pass st acts w).postLog n).sum
        = ((d.workers.flatMap fun w => (Worker.pass st acts w).edges).countP (·.tgt == n) : Int) ∨
      (d.workers.map fun w => netChange (Worker.pass st acts w).postLog n).sum
          = ((d.workers.flatMap fun w => (Worker.pass st acts w).edges).countP (·.tgt == n) : Int) + 1 ∧
        (Worker.pass st acts (d.owner n)).failed = true

/-- Every loop with body `spConnectPair` leaves at most one reserved element
per node, on the node's own VP. -/
theorem spConnectPair_postReservation (st : Storage) (allowAutapses autapseSkips : Bool)
    (deferSkip : Nat) (sched : List (Nat × Nat)) :
    PostReservation d st
      (fun w => sched.flatMap fun p => spConnectPair d allowAutapses autapseSkips deferSkip w p.1 p.2) := by
  intro n
  set acts := fun w => sched.flatMap fun p => spConnectPair d allowAutapses autapseSkips deferSkip w p.1 p.2
  have hrun := fun w =>
    @spConnect_reserved d st allowAutapses autapseSkips deferSkip w sched Worker.init rfl
  -- only the VP owning `n` can hold a reservation at `n`
  have hother : ∀ w, reserved (Worker.pass st acts w) n
      = if d.owner n = w then reserved (Worker.pass st acts (d.owner n)) n else 0 := by
    intro w
    split
    · subst w; rfl
    · rcases hrun w with ⟨-, hkeep⟩ | ⟨-, t, hown, hres⟩
      · exact hkeep n
      · rw [Worker.pass, hres n, if_neg (by rintro rfl; contradiction)]; rfl
  have hsum : (d.workers.map fun w => netChange (Worker.pass st acts w).postLog n).sum
      = ((d.workers.flatMap fun w => (Worker.pass st acts w).edges).countP (·.tgt == n) : Int)
        + reserved (Worker.pass st acts (d.owner n)) n := by
    have hsplit : ∀ w, netChange (Worker.pass st acts w).postLog n
        = ((Worker.pass st acts w).edges.countP (·.tgt == n) : Int) + reserved (Worker.pass st acts w) n :=
      fun w => by rw [reserved]; omega
    rw [List.map_congr_left fun w _ => hsplit w, List.sum_map_add,
      List.map_congr_left fun w _ => hother w, d.sum_workers_owner, List.countP_flatMap,
      Nat.cast_list_sum, List.map_map]
    rfl
  rcases hrun (d.owner n) with ⟨-, hkeep⟩ | ⟨hfail, t, -, hres⟩
  · exact Or.inl (by rw [hsum, Worker.pass, hkeep n]; rfl)
  · by_cases htn : t = n
    · exact Or.inr ⟨by rw [hsum, Worker.pass, hres n, if_pos htn]; rfl, hfail⟩
    · exact Or.inl (by rw [hsum, Worker.pass, hres n, if_neg htn]; rfl)

/-- A pass that raised and left node `s`'s pre-synaptic and node `t`'s
post-synaptic count, summed over all VPs, one above the number of edges
stored from `s`, respectively into `t`. -/
def KeepsReservation (st : Storage) (acts : Nat → List Action) (s t : Nat) : Prop :=
  d.raised (Worker.pass st acts) = true ∧
    (d.workers.map fun w => netChange (Worker.pass st acts w).preLog s).sum
      = ((d.workers.flatMap fun w => (Worker.pass st acts w).edges).countP (·.src == s) : Int) + 1 ∧
    (d.workers.map fun w => netChange (Worker.pass st acts w).postLog t).sum
      = ((d.workers.flatMap fun w => (Worker.pass st acts w).edges).countP (·.tgt == t) : Int) + 1

private theorem netChange_owner (o w m n : Nat) (u : Int) :
    netChange (if o = w then [(m, u)] else []) n = if o = w then (if m = n then u else 0) else 0 := by
  by_cases ho : o = w <;> simp [ho]

/-- With no VP raising, a disconnect pass moves every node's pre-synaptic
count down by the number of pairs it is the source of, autapses included. -/
theorem spDisconnect_preChange (st : Storage) (sched : List (Nat × Nat))
    (hr : d.raised (Worker.pass st fun w => sched.flatMap fun p => spDisconnectPair d w p.1 p.2)
      = false) (n : Nat) :
    (d.workers.map fun w => netChange
        (Worker.pass st (fun w => sched.flatMap fun p => spDisconnectPair d w p.1 p.2) w).preLog n).sum
      = -(sched.countP fun p => p.1 == n) := by
  rw [List.map_congr_left fun w hw =>
    by rw [Worker.pass_eq_exec st _ (d.not_failed_of_not_raised hr hw)]]
  simp only [Worker.exec_preLog, Worker.init, List.nil_append, List.flatMap_assoc,
    netChange_flatMap, spDisconnectPair_preEntry, netChange_owner]
  rw [d.sum_workers_sum_owner Prod.fst]
  have h := sum_map_ite_const (fun p => p.1 == n) (-1) sched
  simp only [beq_iff_eq, Int.mul_neg_one] at h
  exact h

/-- The post-synaptic side of `spDisconnect_preChange`. -/
theorem spDisconnect_postChange (st : Storage) (sched : List (Nat × Nat))
    (hr : d.raised (Worker.pass st fun w => sched.flatMap fun p => spDisconnectPair d w p.1 p.2)
      = false) (n : Nat) :
    (d.workers.map fun w => netChange
        (Worker.pass st (fun w => sched.flatMap fun p => spDisconnectPair d w p.1 p.2) w).postLog n).sum
      = -(sched.countP fun p => p.2 == n) := by
  rw [List.map_congr_left fun w hw =>
    by rw [Worker.pass_eq_exec st _ (d.not_failed_of_not_raised hr hw)]]
  simp only [Worker.exec_postLog, Worker.init, List.nil_append, List.flatMap_assoc,
    netChange_flatMap, spDisconnectPair_postEntry, netChange_owner]
  rw [d.sum_workers_sum_owner Prod.snd]
  have h := sum_map_ite_const (fun p => p.2 == n) (-1) sched
  simp only [beq_iff_eq, Int.mul_neg_one] at h
  exact h

/-- What a structural-plasticity disconnect pass over `sched` owes, when
afterwards no VP's exception slot is set: every pair removed once over all
VPs, autapses included, every node's counts moved down by the number of pairs
it is the source, respectively the target, of, and no cursor moved. -/
def DisconnectAccounting (st : Storage) (acts : Nat → List Action) (sched : List (Nat × Nat)) :
    Prop :=
  d.raised (Worker.pass st acts) = false →
    (d.workers.flatMap fun w => (Worker.pass st acts w).removed).Perm sched ∧
    (∀ n, (d.workers.map fun w => netChange (Worker.pass st acts w).preLog n).sum
        = -(sched.countP fun p => p.1 == n)) ∧
    (∀ n, (d.workers.map fun w => netChange (Worker.pass st acts w).postLog n).sum
        = -(sched.countP fun p => p.2 == n)) ∧
    ∀ w ∈ d.workers, (Worker.pass st acts w).cursor = 0

/-- Every loop with body `spDisconnectPair` accounts for its schedule. -/
theorem spDisconnectPair_accounting (st : Storage) (sched : List (Nat × Nat)) :
    DisconnectAccounting d st (fun w => sched.flatMap fun p => spDisconnectPair d w p.1 p.2) sched := by
  intro hr
  have hpass := fun w (hw : w ∈ d.workers) =>
    Worker.pass_eq_exec st _ (d.not_failed_of_not_raised hr hw)
  refine ⟨?_, spDisconnect_preChange d st sched hr, spDisconnect_postChange d st sched hr,
    fun w hw => ?_⟩
  · rw [List.flatMap_congr fun w hw => by rw [hpass w hw, Worker.exec_removed]]
    simpa [Worker.init, List.flatMap_assoc, spDisconnectPair_removes] using
      d.perm_flatMap_owned Prod.snd id sched
  · rw [hpass w hw, Worker.exec_cursor, advance_flatMap]
    simp [Worker.init, spDisconnectPair_advance]

/-- **Structural-plasticity disconnection.** In runs of
`OneToOneBuilder::sp_disconnect_` and `AllToAllBuilder::sp_disconnect_` where
no VP raises, the VPs together call `single_disconnect_` once for every pair,
`(s_i, t_i)` respectively every pair of `S × T`, autapses included, move every
node's pre- and post-synaptic counts down by the number of those pairs it is
the source, respectively the target, of, and skip no parameter. -/
theorem sp_disconnect_accounting (st : Storage) (sources targets : List Nat) :
    DisconnectAccounting d st (oneToOneSpDisconnect d sources targets) (sources.zip targets) ∧
      DisconnectAccounting d st (allToAllSpDisconnect d sources targets)
        (allPairs sources targets) := by
  refine ⟨spDisconnectPair_accounting d st _, ?_⟩
  have h := spDisconnectPair_accounting d st (allPairs sources targets)
  simpa only [← allToAllSpDisconnect_eq] using h

/-- Two VPs (node `n` on VP `n % 2`), one-to-one pairs `(1, 2)` and `(2, 2)`:
no VP raises, both pairs are removed, and node 2 loses two post-synaptic
elements. -/
theorem sp_disconnect_two_vps :
    (Decomposition.roundRobin 1 2 2 (by decide)).raised (Worker.pass Storage.total
        (oneToOneSpDisconnect (Decomposition.roundRobin 1 2 2 (by decide)) [1, 2] [2, 2])) = false ∧
      ((Decomposition.roundRobin 1 2 2 (by decide)).workers.flatMap fun w =>
        (Worker.pass Storage.total
          (oneToOneSpDisconnect (Decomposition.roundRobin 1 2 2 (by decide)) [1, 2] [2, 2]) w).removed).Perm
        [(1, 2), (2, 2)] ∧
      ((Decomposition.roundRobin 1 2 2 (by decide)).workers.map fun w => netChange
        (Worker.pass Storage.total
          (oneToOneSpDisconnect (Decomposition.roundRobin 1 2 2 (by decide)) [1, 2] [2, 2]) w).postLog
          2).sum = -2 :=
  ⟨by decide, ((sp_disconnect_accounting _ Storage.total [1, 2] [2, 2]).1 (by decide)).1,
    ((sp_disconnect_accounting _ Storage.total [1, 2] [2, 2]).1 (by decide)).2.2.1 2⟩

/-- A connect pass followed by a disconnect pass over the same schedule,
neither raising, moves node `n`'s pre-synaptic count by minus the number of
rejected autapses at `n`, and its post-synaptic count likewise: the connect
loops pass over those pairs, the disconnect loops do not. -/
theorem spConnect_spDisconnect_change (st st' : Storage) (allowAutapses autapseSkips : Bool)
    (deferSkip : Nat) (sched : List (Nat × Nat))
    (hc : d.raised (Worker.pass st fun w =>
      sched.flatMap fun p => spConnectPair d allowAutapses autapseSkips deferSkip w p.1 p.2) = false)
    (hd : d.raised (Worker.pass st' fun w =>
      sched.flatMap fun p => spDisconnectPair d w p.1 p.2) = false) (n : Nat) :
    (d.workers.map fun w => netChange (Worker.pass st (fun w => sched.flatMap fun p =>
        spConnectPair d allowAutapses autapseSkips deferSkip w p.1 p.2) w).preLog n).sum
      + (d.workers.map fun w => netChange (Worker.pass st' (fun w => sched.flatMap fun p =>
        spDisconnectPair d w p.1 p.2) w).preLog n).sum
      = -(sched.countP fun p => !admitted allowAutapses p && p.1 == n) ∧
    (d.workers.map fun w => netChange (Worker.pass st (fun w => sched.flatMap fun p =>
        spConnectPair d allowAutapses autapseSkips deferSkip w p.1 p.2) w).postLog n).sum
      + (d.workers.map fun w => netChange (Worker.pass st' (fun w => sched.flatMap fun p =>
        spDisconnectPair d w p.1 p.2) w).postLog n).sum
      = -(sched.countP fun p => !admitted allowAutapses p && p.2 == n) := by
  obtain ⟨hpre, hpost, -⟩ :=
    spConnectPair_accounting d st allowAutapses autapseSkips deferSkip sched hc
  rw [hpre, hpost, spDisconnect_preChange d st' sched hd, spDisconnect_postChange d st' sched hd,
    ← countP_and_add_countP_not_and (admitted allowAutapses) (fun p => p.1 == n),
    ← countP_and_add_countP_not_and (admitted allowAutapses) (fun p => p.2 == n)]
  omega

/-- On one thread, `SPBuilder::connect_` with autapses disabled and the pairs
`(1, 1), (1, 2)` gives the edge of pair 1 the array element at position 0,
and `AllToAllBuilder::sp_connect_` from `[1, 2]` to `[3, 4]` on two VPs gives
pairs 2 and 3 positions 4 and 5 on VP 0, where target 3 is deferred. -/
theorem sp_connect_positions_shift :
    (Worker.pass Storage.total (spBuilderConnect (Decomposition.single 2) false [1, 1] [1, 2]) 0).edges
        = [⟨1, 2, 0, 0⟩] ∧
      (Worker.pass Storage.total
        (allToAllSpConnect (Decomposition.roundRobin 1 2 4 (by decide)) true [1, 2] [3, 4]) 0).edges
        = [⟨1, 4, 0, 4⟩, ⟨2, 4, 0, 5⟩] := by
  decide

/-- One-to-one structural plasticity with autapses disabled on the single
pair `(1, 1)`: connecting leaves the counts of node 1 alone, disconnecting
lowers both by one. -/
theorem oneToOne_sp_round_trip_drifts :
    netChange (Worker.pass Storage.total (oneToOneSpConnect (Decomposition.single 1) false [1] [1]) 0).preLog 1
        + netChange (Worker.pass Storage.total (oneToOneSpDisconnect (Decomposition.single 1) [1] [1]) 0).preLog 1
        = -1 ∧
      netChange (Worker.pass Storage.total (oneToOneSpConnect (Decomposition.single 1) false [1] [1]) 0).postLog 1
        + netChange (Worker.pass Storage.total (oneToOneSpDisconnect (Decomposition.single 1) [1] [1]) 0).postLog 1
        = -1 := by
  decide

end NestConnBuilder.Structural
