import NestConnBuilder.Kernel

/-!
# One thread's pass through a builder loop

Every rule of `conn_builder.cpp` runs, on each thread, a loop whose body ends
in a handful of calls that change state outside the loop: `single_connect_`
and `single_disconnect_` (the connection storage), `skip_conn_parameter_` (the
array-parameter cursors) and `connect_synaptic_element` (the
structural-plasticity counters). An `Action` is one such call, and a rule's
loop is modelled as the list of actions it issues on one thread.

The whole body sits in a `try` block: the first call that throws ends the
thread's loop, the exception is stored in `exceptions_raised_.at( tid )`, and
the effects of the calls before it stay. So do the effects of the throwing
call up to the throw: a connection the connection manager refuses has already
read its parameters, which moved the cursors; only the `requires_proxies`
test of `single_connect_` throws before any read. `Worker.run` executes an
action list with exactly that behaviour, and `run_eq_exec` splits it into the
failure-free execution `Worker.exec` of the longest accepted prefix, the
cursor move of the refused call, and the flag.

All array parameters registered in `parameters_requiring_skipping_` move in
lockstep — each `single_connect_` reads every one of them once and
`skip_conn_parameter_` advances every one of them — so a single `cursor` per
thread stands for all of their thread cursors; an edge records the cursor
position at which its array values were read.

## Main results

* `run_eq_exec` — a run is the failure-free execution of the accepted prefix.
* `exec_edges`, `exec_cursor`, `exec_preLog`, `exec_postLog` — what a
  failure-free execution does to each field, as list functions of the actions.
* `emitted_append` — the edges of a concatenation, the second part read from
  the cursor the first part leaves.
* `Decomposition.disconnectOwned_removes` — a disconnect pass in which no VP
  raises removes every scheduled pair once over all VPs.
-/

namespace NestConnBuilder

/-- The statements of a builder loop that act outside the loop. -/
inductive Action
  /-- `skip_conn_parameter_( tid, n )`. -/
  | skip (n : Nat)
  /-- `single_connect_( s, *t, thr, rng )`. -/
  | connect (s t thr : Nat)
  /-- `single_disconnect_( s, *t, thr )`. -/
  | disconnect (s t thr : Nat)
  /-- `connect_synaptic_element( pre_synaptic_element_name_, u )` on node `n`. -/
  | pre (n : Nat) (u : Int)
  /-- `connect_synaptic_element( post_synaptic_element_name_, u )` on node `n`. -/
  | post (n : Nat) (u : Int)
deriving DecidableEq, Repr

/-- Which storage calls succeed. The connection manager may reject an edge
for reasons of its own (`connectOk`), and `single_disconnect_` throws when the
manager cannot remove the edge (`disconnectOk`). Before either,
`single_connect_` throws `IllegalConnection` for a target without proxies when
the rule requires proxies (`proxiesOk`). -/
structure Storage where
  connectOk : Nat → Nat → Bool
  disconnectOk : Nat → Nat → Bool
  proxiesOk : Nat → Bool

/-- Storage that accepts every call. -/
def Storage.total : Storage := ⟨fun _ _ => true, fun _ _ => true, fun _ => true⟩

/-- The state a thread's pass leaves behind: the common position of its
array-parameter cursors, the edges it created and removed, its calls of
`connect_synaptic_element` as (node, change) pairs, and whether its exception
slot is set. -/
structure Worker where
  cursor : Nat
  edges : List Edge
  removed : List (Nat × Nat)
  preLog : List (Nat × Int)
  postLog : List (Nat × Int)
  failed : Bool
deriving DecidableEq, Repr

/-- A thread before its first pass: cursors at the start of every array, no
output, empty exception slot. -/
def Worker.init : Worker := ⟨0, [], [], [], [], false⟩

@[simp] theorem Worker.init_failed : Worker.init.failed = false := rfl

namespace Action

/-- Whether the storage accepts the call; only the two storage calls throw. -/
def ok (st : Storage) : Action → Bool
  | .connect s t _ => st.proxiesOk t && st.connectOk s t
  | .disconnect s t _ => st.disconnectOk s t
  | _ => true

/-- How far a call the storage refuses has moved the cursors before it threw:
`single_connect_` passes the `requires_proxies` test, then reads every
parameter, then the connection manager throws. -/
def readsOnRefusal (st : Storage) : Action → Nat
  | .connect _ t _ => if st.proxiesOk t then 1 else 0
  | _ => 0

/-- How far the call moves the array-parameter cursors. -/
def advance : Action → Nat
  | .skip n => n
  | .connect .. => 1
  | _ => 0

/-- The edge the call creates when the cursors stand at `c`. -/
def emits (c : Nat) : Action → List Edge
  | .connect s t thr => [⟨s, t, thr, c⟩]
  | _ => []

/-- The connection the call removes. -/
def removes : Action → List (Nat × Nat)
  | .disconnect s t _ => [(s, t)]
  | _ => []

/-- The connection, with its thread, that the call creates. -/
def connection : Action → List (Nat × Nat × Nat)
  | .connect s t thr => [(s, t, thr)]
  | _ => []

/-- The call with the source of a connection forgotten: what is left decides
where the edge goes and which array position it reads. -/
def strip : Action → Action
  | .connect _ t thr => .connect 0 t thr
  | a => a

/-- The pre-synaptic counter update the call makes. -/
def preEntry : Action → List (Nat × Int)
  | .pre n u => [(n, u)]
  | _ => []

/-- The post-synaptic counter update the call makes. -/
def postEntry : Action → List (Nat × Int)
  | .post n u => [(n, u)]
  | _ => []

end Action

/-- Total cursor movement of an action list. -/
def advance (acts : List Action) : Nat := (acts.map Action.advance).sum

/-- How far the first call of `acts` that the storage refuses moves the
cursors before it throws; nothing when every call is accepted. -/
def refusedReads (st : Storage) : List Action → Nat
  | [] => 0
  | a :: acts => if a.ok st then refusedReads st acts else a.readsOnRefusal st

theorem refusedReads_of_all (st : Storage) {acts : List Action} (h : acts.all (·.ok st) = true) :
    refusedReads st acts = 0 := by
  induction acts with
  | nil => rfl
  | cons a acts ih =>
    simp only [List.all_cons, Bool.and_eq_true] at h
    simp only [refusedReads, h.1, if_true, ih h.2]

/-- The edges an action list creates, starting with the cursors at `c`, when
the storage accepts every call. -/
def emitted : Nat → List Action → List Edge
  | _, [] => []
  | c, a :: acts => a.emits c ++ emitted (c + a.advance) acts

/-- Where an edge goes and which array position it reads. -/
def Edge.slot (e : Edge) : Nat × Nat := (e.tgt, e.pos)

/-- Net change of node `n`'s counter recorded in a log of
`connect_synaptic_element` calls. -/
def netChange (log : List (Nat × Int)) (n : Nat) : Int :=
  (log.map fun e => if e.1 = n then e.2 else 0).sum

theorem emitted_append (c : Nat) (xs ys : List Action) :
    emitted c (xs ++ ys) = emitted c xs ++ emitted (c + advance xs) ys := by
  induction xs generalizing c with
  | nil => simp [emitted, advance]
  | cons a xs ih => simp [emitted, advance, ih, Nat.add_assoc]

/-- A prefix of the actions emits a prefix of the edges. -/
theorem emitted_prefix_mono {xs ys : List Action} (h : xs <+: ys) (c : Nat) :
    emitted c xs <+: emitted c ys := by
  obtain ⟨zs, rfl⟩ := h
  rw [emitted_append]
  exact List.prefix_append _ _

theorem advance_append (xs ys : List Action) : advance (xs ++ ys) = advance xs + advance ys := by
  simp [advance]

theorem advance_flatMap {α : Type*} (l : List α) (f : α → List Action) :
    advance (l.flatMap f) = (l.map fun a => advance (f a)).sum := by
  induction l with
  | nil => rfl
  | cons a l ih => rw [List.flatMap_cons, advance_append, ih, List.map_cons, List.sum_cons]

/-- A loop whose body moves the cursors by one per element moves them by the
length of the list. -/
theorem advance_flatMap_of_one {α : Type*} (l : List α) (f : α → List Action)
    (h : ∀ a ∈ l, advance (f a) = 1) : advance (l.flatMap f) = l.length := by
  induction l with
  | nil => rfl
  | cons a l ih =>
    rw [List.flatMap_cons, advance_append, h a (List.mem_cons_self a l),
      ih fun b hb => h b (List.mem_cons_of_mem a hb), List.length_cons, Nat.add_comm]

/-- A loop whose body moves the cursors by the same `k` for every element:
the body of the element at index `i` runs with the cursors at `c + i * k`. -/
theorem emitted_flatMap_uniform {α : Type*} (block : α → List Action) (k c : Nat) :
    ∀ (l : List α) (j : Nat), (∀ a ∈ l, advance (block a) = k) →
      emitted (c + j * k) (l.flatMap block)
        = (l.enumFrom j).flatMap fun p => emitted (c + p.1 * k) (block p.2)
  | [], _, _ => rfl
  | a :: l, j, h => by
    have hk : advance (block a) = k := h a (List.mem_cons_self a l)
    have hnext : c + j * k + advance (block a) = c + (j + 1) * k := by
      rw [hk, Nat.succ_mul, Nat.add_assoc]
    rw [List.flatMap_cons, emitted_append, hnext,
      emitted_flatMap_uniform block k c l (j + 1) fun b hb => h b (List.mem_cons_of_mem a hb)]
    rfl

namespace Worker

/-- The effect of one call that the storage accepts. -/
def apply (w : Worker) : Action → Worker
  | .skip n => { w with cursor := w.cursor + n }
  | .connect s t thr =>
    { w with cursor := w.cursor + 1, edges := w.edges ++ [⟨s, t, thr, w.cursor⟩] }
  | .disconnect s t _ => { w with removed := w.removed ++ [(s, t)] }
  | .pre n u => { w with preLog := w.preLog ++ [(n, u)] }
  | .post n u => { w with postLog := w.postLog ++ [(n, u)] }

/-- One statement inside the `try` block: after an exception the rest of the
block is skipped. A refused call keeps the cursor moves it made before it
threw. -/
def step (st : Storage) (w : Worker) (a : Action) : Worker :=
  if w.failed then w
  else if a.ok st then w.apply a
  else { w with cursor := w.cursor + a.readsOnRefusal st, failed := true }

/-- A thread's loop: its actions executed inside one `try` block. -/
def run (st : Storage) (w : Worker) (acts : List Action) : Worker :=
  acts.foldl (step st) w

/-- The same loop when every storage call succeeds. -/
def exec (w : Worker) (acts : List Action) : Worker :=
  acts.foldl apply w

@[simp] theorem apply_failed (w : Worker) (a : Action) : (w.apply a).failed = w.failed := by
  cases a <;> rfl

@[simp] theorem exec_failed (w : Worker) (acts : List Action) :
    (w.exec acts).failed = w.failed := by
  induction acts generalizing w <;> simp_all [exec]

@[simp] theorem exec_nil (w : Worker) : w.exec [] = w := rfl

@[simp] theorem exec_cons (w : Worker) (a : Action) (acts : List Action) :
    w.exec (a :: acts) = (w.apply a).exec acts := rfl

theorem exec_append (w : Worker) (xs ys : List Action) :
    w.exec (xs ++ ys) = (w.exec xs).exec ys :=
  List.foldl_append _ _ _ _

theorem run_append (st : Storage) (w : Worker) (xs ys : List Action) :
    w.run st (xs ++ ys) = (w.run st xs).run st ys :=
  List.foldl_append _ _ _ _

theorem run_of_failed (st : Storage) {w : Worker} (h : w.failed = true) (acts : List Action) :
    w.run st acts = w := by
  induction acts with
  | nil => rfl
  | cons a acts ih => simpa [run, step, h] using ih

/-- A run is the failure-free execution of the longest accepted prefix, with
the cursor moves of the first refused call; the exception slot ends up set
exactly when some call was rejected. -/
theorem run_eq_exec (st : Storage) (acts : List Action) :
    ∀ {w : Worker}, w.failed = false →
      w.run st acts =
        { w.exec (acts.takeWhile (·.ok st)) with
          cursor := (w.exec (acts.takeWhile (·.ok st))).cursor + refusedReads st acts,
          failed := !acts.all (·.ok st) } := by
  induction acts with
  | nil => intro w h; cases w; simp_all [run, refusedReads]
  | cons a acts ih =>
    intro w h
    by_cases ha : a.ok st
    · have hw : (w.apply a).failed = false := by simp [h]
      simpa [run, step, h, ha, refusedReads] using ih hw
    · have hstep : w.step st a = { w with cursor := w.cursor + a.readsOnRefusal st, failed := true } := by
        simp [step, h, ha]
      simp only [run, List.foldl_cons, hstep, List.takeWhile_cons, ha, List.all_cons, refusedReads,
        Bool.false_eq_true, if_false, exec_nil, Bool.false_and, Bool.not_false]
      exact run_of_failed st rfl acts

theorem run_failed_eq (st : Storage) (acts : List Action) {w : Worker} (h : w.failed = false) :
    (w.run st acts).failed = !acts.all (·.ok st) := by
  rw [run_eq_exec st acts h]

/-- A call after which the slot is empty was made by a thread that had not
raised, and the storage accepted it. -/
theorem step_of_ok (st : Storage) {w : Worker} {a : Action} (h : (w.step st a).failed = false) :
    w.failed = false ∧ w.step st a = w.apply a := by
  unfold step at h ⊢
  by_cases hw : w.failed <;> by_cases ha : a.ok st <;> simp_all

/-- A run whose slot stays empty executed every action. -/
theorem run_eq_exec_of_ok (st : Storage) (acts : List Action) {w : Worker}
    (h : w.failed = false) (hok : (w.run st acts).failed = false) :
    w.run st acts = w.exec acts := by
  have hall : acts.all (·.ok st) = true := by
    simpa [run_failed_eq st acts h] using hok
  have htake : acts.takeWhile (·.ok st) = acts := List.takeWhile_eq_self_iff.2 (by simpa using hall)
  have hflag : (w.exec acts).failed = false := by simp [h]
  rw [run_eq_exec st acts h, htake, hall, refusedReads_of_all st hall, Nat.add_zero, Bool.not_true, ← hflag]

/-! ## What a failure-free execution does to each field -/

theorem exec_cursor (w : Worker) (acts : List Action) :
    (w.exec acts).cursor = w.cursor + advance acts := by
  induction acts generalizing w with
  | nil => simp [advance]
  | cons a acts ih =>
    cases a <;> simp [ih, apply, advance, Action.advance, Nat.add_assoc]

theorem exec_edges (w : Worker) (acts : List Action) :
    (w.exec acts).edges = w.edges ++ emitted w.cursor acts := by
  induction acts generalizing w with
  | nil => simp [emitted]
  | cons a acts ih =>
    cases a <;> simp [ih, apply, emitted, Action.emits, Action.advance]

theorem exec_removed (w : Worker) (acts : List Action) :
    (w.exec acts).removed = w.removed ++ acts.flatMap Action.removes := by
  induction acts generalizing w with
  | nil => simp
  | cons a acts ih => cases a <;> simp [ih, apply, Action.removes]

theorem exec_preLog (w : Worker) (acts : List Action) :
    (w.exec acts).preLog = w.preLog ++ acts.flatMap Action.preEntry := by
  induction acts generalizing w with
  | nil => simp
  | cons a acts ih => cases a <;> simp [ih, apply, Action.preEntry]

theorem exec_postLog (w : Worker) (acts : List Action) :
    (w.exec acts).postLog = w.postLog ++ acts.flatMap Action.postEntry := by
  induction acts generalizing w with
  | nil => simp
  | cons a acts ih => cases a <;> simp [ih, apply, Action.postEntry]

end Worker

/-- Every edge a run creates is one the failure-free execution of all its
actions would create. -/
theorem Worker.edges_run_prefix (st : Storage) (acts : List Action) {w : Worker}
    (h : w.failed = false) :
    (w.run st acts).edges <+: w.edges ++ emitted w.cursor acts := by
  rw [run_eq_exec st acts h]
  simp only [exec_edges]
  exact List.prefix_append_right_inj _ |>.2 (emitted_prefix_mono (List.takeWhile_prefix _) _)

/-- Where the edges go and which positions they read does not depend on their
sources. -/
theorem emitted_slot_strip (c : Nat) (acts : List Action) :
    (emitted c acts).map Edge.slot = (emitted c (acts.map Action.strip)).map Edge.slot := by
  induction acts generalizing c with
  | nil => rfl
  | cons a acts ih =>
    cases a <;> simp [emitted, Action.emits, Action.strip, Action.advance, Edge.slot, ih]

/-- Without its parameter positions, what a list creates depends on the
actions only. -/
theorem emitted_placed (c : Nat) (acts : List Action) :
    (emitted c acts).map Edge.placed = acts.flatMap Action.connection := by
  induction acts generalizing c with
  | nil => rfl
  | cons a acts ih =>
    cases a <;> simp [emitted, Action.emits, Action.connection, Edge.placed, ih]

theorem emitted_pairs (c : Nat) (acts : List Action) :
    (emitted c acts).map Edge.pair = acts.flatMap fun a => a.connection.map fun x => (x.1, x.2.1) := by
  rw [← List.map_flatMap, ← emitted_placed c acts, List.map_map]
  rfl

@[simp] theorem netChange_nil (n : Nat) : netChange [] n = 0 := rfl

@[simp] theorem netChange_append (l₁ l₂ : List (Nat × Int)) (n : Nat) :
    netChange (l₁ ++ l₂) n = netChange l₁ n + netChange l₂ n := by
  simp [netChange]

@[simp] theorem netChange_singleton (m n : Nat) (u : Int) :
    netChange [(m, u)] n = if m = n then u else 0 := by
  simp [netChange]

theorem netChange_flatMap {α : Type*} (l : List α) (f : α → List (Nat × Int)) (n : Nat) :
    netChange (l.flatMap f) n = (l.map fun a => netChange (f a) n).sum := by
  induction l with
  | nil => rfl
  | cons a l ih => simp [ih]

/-! ## Loops driven by a random stream

A loop that draws from a random stream issues actions whose sources depend on
the draws, but whose skeleton — the actions with their sources forgotten — is
fixed in advance. `Follows st w acts shape w'` says that a thread in state `w`
ends in `w'` by running `acts`, that the skeleton of `acts` is a prefix of
`shape`, and that all of `shape` was issued unless the thread raised. -/

/-- A thread went from `w` to `w'` by issuing actions with skeleton `shape`,
stopping early only at an exception. -/
def Worker.Follows (st : Storage) (w : Worker) (shape : List Action) (w' : Worker) : Prop :=
  ∃ acts, w' = w.run st acts ∧ acts.map Action.strip <+: shape ∧
    (w'.failed = false → acts.map Action.strip = shape)

theorem Worker.follows_nil (st : Storage) (w : Worker) : w.Follows st [] w :=
  ⟨[], rfl, List.prefix_refl _, fun _ => rfl⟩

theorem Worker.follows_of_failed (st : Storage) {w : Worker} (h : w.failed = true)
    (shape : List Action) : w.Follows st shape w :=
  ⟨[], rfl, List.nil_prefix, fun h' => by simp [h] at h'⟩

theorem Worker.follows_cons (st : Storage) {w w' : Worker} {a : Action} {shape : List Action}
    (h : (w.step st a).Follows st shape w') : w.Follows st (a.strip :: shape) w' := by
  obtain ⟨acts, rfl, hp, he⟩ := h
  exact ⟨a :: acts, rfl, List.cons_prefix_cons.2 ⟨rfl, hp⟩, fun h' => by simp [he h']⟩

/-- Two stretches of a loop compose; the second one does nothing once the
thread has raised. -/
theorem Worker.follows_append (st : Storage) {w w₁ w₂ : Worker} {A B : List Action}
    (h₁ : w.Follows st A w₁) (h₂ : w₁.failed = false → w₁.Follows st B w₂)
    (h₃ : w₁.failed = true → w₂ = w₁) : w.Follows st (A ++ B) w₂ := by
  obtain ⟨a, rfl, ha, hae⟩ := h₁
  cases hf : (w.run st a).failed
  · obtain ⟨b, rfl, hb, hbe⟩ := h₂ hf
    refine ⟨a ++ b, by simp [run, List.foldl_append], ?_, fun h' => ?_⟩
    · rw [List.map_append, hae hf]
      exact (List.prefix_append_right_inj A).2 hb
    · rw [List.map_append, hae hf, hbe h']
  · rw [h₃ hf]
    exact ⟨a, rfl, ha.trans (List.prefix_append A B), fun h' => by simp [hf] at h'⟩

/-- Where a following thread's edges go and which positions they read: a
prefix of what the shape creates. -/
theorem Worker.Follows.slots_prefix {st : Storage} {w w' : Worker} {shape : List Action}
    (h : w.Follows st shape w') (hw : w.failed = false) :
    w'.edges.map Edge.slot <+: (w.edges ++ emitted w.cursor shape).map Edge.slot := by
  obtain ⟨acts, rfl, hp, -⟩ := h
  have hrun := (Worker.edges_run_prefix st acts hw).map Edge.slot
  refine hrun.trans ?_
  rw [List.map_append, List.map_append, emitted_slot_strip]
  exact (List.prefix_append_right_inj _).2 ((emitted_prefix_mono hp _).map _)

/-- A following thread that ends with an empty slot placed its edges and read
its positions exactly as the shape says. -/
theorem Worker.Follows.slots_eq {st : Storage} {w w' : Worker} {shape : List Action}
    (h : w.Follows st shape w') (hw : w.failed = false) (hw' : w'.failed = false) :
    w'.edges.map Edge.slot = (w.edges ++ emitted w.cursor shape).map Edge.slot := by
  obtain ⟨acts, rfl, -, he⟩ := h
  rw [Worker.run_eq_exec_of_ok st acts hw hw', Worker.exec_edges, List.map_append, List.map_append,
    emitted_slot_strip, he hw']

/-- The `do … while` loops of `FixedInDegreeBuilder::inner_connect_` and
`FixedOutDegreeBuilder::connect_`: draw an index into `pool` until the node
there is not `node` (when autapses are disallowed) and the index is not in
`chIds` (when multapses are disallowed). Such a loop need not stop; `none`
when the fuel runs out. -/
def drawIndex {σ : Type*} (ulrand : Nat → σ → Nat × σ) (allowAutapses allowMultapses : Bool)
    (pool : List Nat) (node : Nat) (chIds : List Nat) : Nat → σ → Option (Nat × σ)
  | 0, _ => none
  | fuel + 1, g =>
    let r := ulrand pool.length g
    if (allowAutapses = false ∧ pool.getD r.1 0 = node) ∨ (allowMultapses = false ∧ r.1 ∈ chIds) then
      drawIndex ulrand allowAutapses allowMultapses pool node chIds fuel r.2
    else some r

/-- An index the rejection loop returns is a value of the stream that neither
test rejects. -/
theorem drawIndex_spec {σ : Type*} (ulrand : Nat → σ → Nat × σ) (allowAutapses allowMultapses : Bool)
    (pool : List Nat) (node : Nat) (chIds : List Nat) :
    ∀ (fuel : Nat) (g : σ) (r : Nat × σ),
      drawIndex ulrand allowAutapses allowMultapses pool node chIds fuel g = some r →
        (∃ g₀, ulrand pool.length g₀ = r) ∧
          ¬((allowAutapses = false ∧ pool.getD r.1 0 = node) ∨ (allowMultapses = false ∧ r.1 ∈ chIds))
  | 0, _, _, h => nomatch h
  | fuel + 1, g, r, h => by
    simp only [drawIndex] at h
    split at h
    · exact drawIndex_spec ulrand allowAutapses allowMultapses pool node chIds fuel _ r h
    · cases h
      exact ⟨⟨g, rfl⟩, by assumption⟩

/-- A rejection loop whose every draw is rejected never returns, however much
fuel it is given. -/
theorem drawIndex_eq_none {σ : Type*} (ulrand : Nat → σ → Nat × σ) (allowAutapses allowMultapses : Bool)
    (pool : List Nat) (node : Nat) (chIds : List Nat)
    (hrej : ∀ g, (allowAutapses = false ∧ pool.getD (ulrand pool.length g).1 0 = node) ∨
      (allowMultapses = false ∧ (ulrand pool.length g).1 ∈ chIds)) :
    ∀ (fuel : Nat) (g : σ), drawIndex ulrand allowAutapses allowMultapses pool node chIds fuel g = none
  | 0, _ => rfl
  | fuel + 1, g => by
    simp only [drawIndex, if_pos (hrej g)]
    exact drawIndex_eq_none ulrand allowAutapses allowMultapses pool node chIds hrej fuel _

/-- Indices that successive rejection loops returned, the earlier ones
counted as chosen when multapses are disallowed: values of the stream, none
at `node` when autapses are disallowed, and with multapses disallowed
distinct and outside the indices `chIds` chosen before. -/
def DrawnIndices {σ : Type*} (ulrand : Nat → σ → Nat × σ) (allowAutapses allowMultapses : Bool)
    (pool : List Nat) (node : Nat) (chIds ids : List Nat) : Prop :=
  (∀ i ∈ ids, (∃ g₀, (ulrand pool.length g₀).1 = i) ∧ (allowAutapses = false → pool.getD i 0 ≠ node)) ∧
    (allowMultapses = false → ids.Nodup ∧ ∀ i ∈ ids, i ∉ chIds)

namespace DrawnIndices

variable {σ : Type*} {ulrand : Nat → σ → Nat × σ} {allowAutapses allowMultapses : Bool}
  {pool : List Nat} {node : Nat}

theorem nil (chIds : List Nat) : DrawnIndices ulrand allowAutapses allowMultapses pool node chIds [] :=
  ⟨fun _ h => (nomatch h), fun _ => ⟨List.nodup_nil, fun _ h => (nomatch h)⟩⟩

/-- One more rejection loop in front, its index then counted as chosen. -/
theorem cons {chIds ids : List Nat} {fuel : Nat} {g : σ} {r : Nat × σ}
    (hr : drawIndex ulrand allowAutapses allowMultapses pool node chIds fuel g = some r)
    (h : DrawnIndices ulrand allowAutapses allowMultapses pool node
      (if allowMultapses = false then r.1 :: chIds else chIds) ids) :
    DrawnIndices ulrand allowAutapses allowMultapses pool node chIds (r.1 :: ids) := by
  obtain ⟨⟨g₀, hg₀⟩, hrej⟩ := drawIndex_spec ulrand _ _ _ _ _ fuel g r hr
  refine ⟨?_, fun hm => ?_⟩
  · rintro i (_ | ⟨_, hi⟩)
    · exact ⟨⟨g₀, by rw [hg₀]⟩, fun ha hs => hrej (Or.inl ⟨ha, hs⟩)⟩
    · exact h.1 i hi
  · obtain ⟨hnd, hout⟩ := h.2 hm
    simp only [hm, if_true] at hout
    refine ⟨List.nodup_cons.2 ⟨fun hi => hout _ hi (List.mem_cons_self _ _), hnd⟩, ?_⟩
    rintro i (_ | ⟨_, hi⟩)
    · exact fun hc => hrej (Or.inr ⟨hm, hc⟩)
    · exact fun hc => hout i hi (List.mem_cons_of_mem _ hc)

theorem node_not_mem {chIds ids : List Nat}
    (h : DrawnIndices ulrand allowAutapses allowMultapses pool node chIds ids)
    (ha : allowAutapses = false) : node ∉ ids.map (pool.getD · 0) := fun hs => by
  obtain ⟨i, hi, hsi⟩ := List.mem_map.1 hs
  exact (h.1 i hi).2 ha hsi

/-- Distinct indices into a pool without repeats pick distinct nodes, when
the stream gives indices into the pool. -/
theorem nodup_nodes {chIds ids : List Nat}
    (h : DrawnIndices ulrand allowAutapses allowMultapses pool node chIds ids)
    (hm : allowMultapses = false) (hul : ∀ g₀, (ulrand pool.length g₀).1 < pool.length)
    (hnd : pool.Nodup) : (ids.map (pool.getD · 0)).Nodup := by
  have hlt : ∀ i ∈ ids, i < pool.length := fun i hi => by
    obtain ⟨g₀, rfl⟩ := (h.1 i hi).1
    exact hul g₀
  refine (h.2 hm).1.map_on fun i hi j hj hij => ?_
  simp only [List.getD_eq_getElem _ _ (hlt i hi), List.getD_eq_getElem _ _ (hlt j hj)] at hij
  exact (hnd.getElem_inj_iff).1 hij

end DrawnIndices

/-- A loop over `l` whose body may draw from a stream (kept, with any other
loop state, in `τ`) and may not stop (`none`); once the thread has raised, the
remaining iterations are skipped. -/
def Worker.loop {α τ : Type*} (body : α → Worker × τ → Option (Worker × τ)) :
    List α → Worker × τ → Option (Worker × τ)
  | [], p => some p
  | a :: l, p => if p.1.failed then some p else (body a p).bind (Worker.loop body l)

/-- A thread that has raised skips the whole loop. -/
theorem Worker.loop_of_failed {α τ : Type*} (body : α → Worker × τ → Option (Worker × τ))
    (l : List α) {p : Worker × τ} (h : p.1.failed = true) : Worker.loop body l p = some p := by
  cases l <;> simp [Worker.loop, h]

/-- A loop that ends with an empty slot started with one. -/
theorem Worker.loop_start_ok {α τ : Type*} (body : α → Worker × τ → Option (Worker × τ))
    (l : List α) {p q : Worker × τ} (h : Worker.loop body l p = some q) (hq : q.1.failed = false) :
    p.1.failed = false := by
  cases hp : p.1.failed
  · rfl
  · rw [Worker.loop_of_failed body l hp] at h
    cases h
    exact hp.symm.trans hq

/-- A loop whose every iteration follows `block a` follows the blocks one
after another. -/
theorem Worker.loop_follows {α τ : Type*} (st : Storage)
    (body : α → Worker × τ → Option (Worker × τ)) (block : α → List Action)
    (hbody : ∀ a p q, p.1.failed = false → body a p = some q → p.1.Follows st (block a) q.1) :
    ∀ (l : List α) (p q : Worker × τ), Worker.loop body l p = some q →
      p.1.Follows st (l.flatMap block) q.1
  | [], p, q, h => by
    cases h
    exact Worker.follows_nil st _
  | a :: l, p, q, h => by
    unfold Worker.loop at h
    split at h
    · cases h
      exact Worker.follows_of_failed st ‹_› _
    · rename_i hp
      simp only [Bool.not_eq_true] at hp
      cases hb : body a p with
      | none => simp [hb] at h
      | some q₁ =>
        rw [hb, Option.some_bind] at h
        refine Worker.follows_append st (hbody a p q₁ hp hb)
          (fun _ => Worker.loop_follows st body block hbody l q₁ q h) fun hf => ?_
        -- a raising iteration ends the loop
        rw [Worker.loop_of_failed body l hf] at h
        cases h
        rfl

/-- A loop whose iterations each append a block of edges, one satisfying `R a`
for the elements `a` that `P` selects and none for the others, appends the
blocks of the selected elements in order, when it ends with an empty slot. -/
theorem Worker.loop_blocks {α τ : Type*} (body : α → Worker × τ → Option (Worker × τ))
    (P : α → Bool) (R : α → List Edge → Prop)
    (hbody : ∀ a p q, p.1.failed = false → body a p = some q → q.1.failed = false →
      ∃ es, q.1.edges = p.1.edges ++ es ∧ if P a then R a es else es = []) :
    ∀ (l : List α) (p q : Worker × τ), Worker.loop body l p = some q → q.1.failed = false →
      ∃ blocks : List (List Edge), q.1.edges = p.1.edges ++ blocks.flatten ∧
        List.Forall₂ R (l.filter P) blocks
  | [], p, q, h, _ => by
    cases h
    exact ⟨[], by simp, List.Forall₂.nil⟩
  | a :: l, p, q, h, hq => by
    have hp := Worker.loop_start_ok body _ h hq
    simp only [Worker.loop, hp, Bool.false_eq_true, if_false] at h
    obtain ⟨q₁, h₁, h⟩ := Option.bind_eq_some.1 h
    obtain ⟨es, hes, hR⟩ := hbody a p q₁ hp h₁ (Worker.loop_start_ok body l h hq)
    obtain ⟨blocks, hblocks, hF⟩ := Worker.loop_blocks body P R hbody l q₁ q h hq
    rw [hblocks, hes, List.append_assoc]
    cases hPa : P a
    · rw [hPa, if_neg Bool.false_ne_true] at hR
      subst hR
      exact ⟨blocks, by simp, by simpa [List.filter_cons, hPa] using hF⟩
    · rw [hPa, if_pos rfl] at hR
      exact ⟨es :: blocks, by simp, by simpa [List.filter_cons, hPa] using List.Forall₂.cons hR hF⟩

/-! ## Loops whose calls the stream decides

In some loops what a thread calls is decided by its random stream alone, never
by what earlier calls did, and a call that throws only ends the loop. Such a
loop stands for the calls its draws make (`drawAll`): the thread ends as if it
had run them, and the stream ends where the draws leave it unless a call threw
(`Simulates`). -/

/-- The calls a loop over `l` makes from stream state `g` when none of them
throws, `draw a` giving the calls of the iteration on `a`, and the stream state
after them. -/
def drawAll {α τ : Type*} (draw : α → τ → List Action × τ) : List α → τ → List Action × τ
  | [], g => ([], g)
  | a :: l, g =>
    let r := draw a g
    let rest := drawAll draw l r.2
    (r.1 ++ rest.1, rest.2)

/-- The loop body that makes the calls `draw a g` drawn from the stream state `g`. -/
def Worker.issue {α τ : Type*} (st : Storage) (draw : α → τ → List Action × τ) (a : α)
    (p : Worker × τ) : Option (Worker × τ) :=
  some (p.1.run st (draw a p.2).1, (draw a p.2).2)

/-- A loop body makes the calls `draw a g` from stream state `g`: it ends as
the run of those calls, and leaves the stream where the draws do unless one of
the calls threw. -/
def Worker.Simulates {α τ : Type*} (st : Storage) (body : α → Worker × τ → Option (Worker × τ))
    (draw : α → τ → List Action × τ) : Prop :=
  ∀ a wk g, wk.failed = false → ∃ g', body a (wk, g) = some (wk.run st (draw a g).1, g') ∧
    ((wk.run st (draw a g).1).failed = false → g' = (draw a g).2)

theorem Worker.issue_simulates {α τ : Type*} (st : Storage) (draw : α → τ → List Action × τ) :
    Worker.Simulates st (Worker.issue st draw) draw :=
  fun _ _ _ _ => ⟨_, rfl, fun _ => rfl⟩

/-- A loop whose iterations make the calls of their draws makes the calls of
all of them. -/
theorem Worker.loop_simulates {α τ : Type*} {st : Storage}
    {body : α → Worker × τ → Option (Worker × τ)} {draw : α → τ → List Action × τ}
    (h : Worker.Simulates st body draw) :
    ∀ (l : List α) (wk : Worker) (g : τ), ∃ g',
      Worker.loop body l (wk, g) = some (wk.run st (drawAll draw l g).1, g') ∧
        ((wk.run st (drawAll draw l g).1).failed = false → g' = (drawAll draw l g).2)
  | [], _, g => ⟨g, rfl, fun _ => rfl⟩
  | a :: l, wk, g => by
    cases hw : wk.failed
    case true =>
      refine ⟨g, ?_, fun h' => ?_⟩
      · rw [Worker.loop, if_pos hw, Worker.run_of_failed st hw]
      · rw [Worker.run_of_failed st hw] at h'
        exact nomatch hw.symm.trans h'
    case false =>
      obtain ⟨g₁, hb, hg₁⟩ := h a wk g hw
      simp only [Worker.loop, hw, Bool.false_eq_true, if_false, hb, Option.some_bind, drawAll,
        Worker.run_append]
      cases hf : (wk.run st (draw a g).1).failed
      · -- the iteration ended normally: the rest of the loop from where its draws left the stream
        rw [hg₁ hf]
        exact Worker.loop_simulates h l _ _
      · -- it threw: the rest of the loop is skipped
        rw [Worker.loop_of_failed body l hf, Worker.run_of_failed st hf]
        exact ⟨g₁, rfl, fun h' => nomatch hf.symm.trans h'⟩

/-- The connections of a loop's draws stand to the loop's blocks as those of
every iteration stand to its block, for any relation that concatenation
preserves (equality, `Sublist`). -/
theorem drawAll_connection_rel {α τ : Type*}
    (R : List (Nat × Nat × Nat) → List (Nat × Nat × Nat) → Prop) (hnil : R [] [])
    (happ : ∀ {a b c e}, R a b → R c e → R (a ++ c) (b ++ e))
    (draw : α → τ → List Action × τ) (block : α → List (Nat × Nat × Nat))
    (h : ∀ a g, R ((draw a g).1.flatMap Action.connection) (block a)) :
    ∀ (l : List α) (g : τ), R ((drawAll draw l g).1.flatMap Action.connection) (l.flatMap block)
  | [], _ => hnil
  | a :: l, g => by
    rw [drawAll, List.flatMap_append, List.flatMap_cons]
    exact happ (h a g) (drawAll_connection_rel R hnil happ draw block h l _)

/-! ## Runs equal up to the array cursors

Two loops that make the same storage calls in the same order, one of them
with extra `skip_conn_parameter_` calls, end in states that differ only in the
cursors and in the array positions their edges read. -/

/-- Two thread states with the same output and exception slot: they may differ
in their cursors and in the positions their edges read. -/
def Worker.Agree (w₁ w₂ : Worker) : Prop :=
  w₁.edges.map Edge.placed = w₂.edges.map Edge.placed ∧ w₁.removed = w₂.removed ∧
    w₁.preLog = w₂.preLog ∧ w₁.postLog = w₂.postLog ∧ w₁.failed = w₂.failed

namespace Worker.Agree

theorem refl (w : Worker) : w.Agree w := ⟨rfl, rfl, rfl, rfl, rfl⟩

theorem symm {w₁ w₂ : Worker} (h : w₁.Agree w₂) : w₂.Agree w₁ :=
  ⟨h.1.symm, h.2.1.symm, h.2.2.1.symm, h.2.2.2.1.symm, h.2.2.2.2.symm⟩

theorem trans {w₁ w₂ w₃ : Worker} (h₁ : w₁.Agree w₂) (h₂ : w₂.Agree w₃) : w₁.Agree w₃ :=
  ⟨h₁.1.trans h₂.1, h₁.2.1.trans h₂.2.1, h₁.2.2.1.trans h₂.2.2.1, h₁.2.2.2.1.trans h₂.2.2.2.1,
    h₁.2.2.2.2.trans h₂.2.2.2.2⟩

/-- The same call on both sides keeps the states agreeing. -/
theorem step (st : Storage) {w₁ w₂ : Worker} (h : w₁.Agree w₂) (a : Action) :
    (w₁.step st a).Agree (w₂.step st a) := by
  obtain ⟨he, hr, hpre, hpost, hf⟩ := h
  unfold Worker.step
  rw [hf]
  split
  · exact ⟨he, hr, hpre, hpost, hf⟩
  · split
    · cases a <;> simp [Worker.apply, Worker.Agree, he, hr, hpre, hpost, hf, Edge.placed]
    · exact ⟨he, hr, hpre, hpost, rfl⟩

/-- A skip on one side only keeps the states agreeing. -/
theorem step_skip (st : Storage) {w₁ w₂ : Worker} (h : w₁.Agree w₂) (n : Nat) :
    (w₁.step st (.skip n)).Agree w₂ := by
  unfold Worker.step
  split
  · exact h
  · exact h

theorem run (st : Storage) (acts : List Action) :
    ∀ {w₁ w₂ : Worker}, w₁.Agree w₂ → (w₁.run st acts).Agree (w₂.run st acts) := by
  induction acts with
  | nil => exact id
  | cons a acts ih => exact fun h => ih (h.step st a)

end Worker.Agree

/-- Whether a call only moves the array cursors. -/
def Action.isSkip : Action → Bool
  | .skip _ => true
  | _ => false

/-- A run agrees with the run of the same calls without the skips. -/
theorem Worker.Agree.run_filter_skip (st : Storage) (acts : List Action) :
    ∀ {w₁ w₂ : Worker}, w₁.Agree w₂ →
      (w₁.run st acts).Agree (w₂.run st (acts.filter fun a => !a.isSkip)) := by
  induction acts with
  | nil => exact id
  | cons a acts ih =>
    intro w₁ w₂ h
    cases a
    case skip n => exact ih (h.step_skip st n)
    all_goals exact ih (h.step st _)

/-- Two loops over `l` and over the elements of `l` that `P` selects: where
`P` holds their bodies agree, elsewhere the first body only moves the cursors
and leaves the loop state alone. Then both loops end or neither does, in
agreeing states with the same loop state. -/
theorem Worker.loop_agree {α τ : Type*} (body₁ body₂ : α → Worker × τ → Option (Worker × τ))
    (P : α → Bool) :
    ∀ (l : List α),
      (∀ a ∈ l, P a = true → ∀ w₁ w₂ g, w₁.failed = false → w₁.Agree w₂ →
        Option.Rel (fun q₁ q₂ => q₁.1.Agree q₂.1 ∧ q₁.2 = q₂.2) (body₁ a (w₁, g)) (body₂ a (w₂, g))) →
      (∀ a ∈ l, P a = false → ∀ w g, w.failed = false →
        ∃ w', body₁ a (w, g) = some (w', g) ∧ w'.Agree w) →
      ∀ (w₁ w₂ : Worker) (g : τ), w₁.Agree w₂ →
        Option.Rel (fun q₁ q₂ => q₁.1.Agree q₂.1 ∧ q₁.2 = q₂.2)
          (Worker.loop body₁ l (w₁, g)) (Worker.loop body₂ (l.filter P) (w₂, g))
  | [], _, _, w₁, w₂, g, h => .some ⟨h, rfl⟩
  | a :: l, hP, hnP, w₁, w₂, g, h => by
    have ih := Worker.loop_agree body₁ body₂ P l (fun b hb => hP b (List.mem_cons_of_mem a hb))
      (fun b hb => hnP b (List.mem_cons_of_mem a hb))
    cases hf : w₁.failed
    case true =>
      have hf₂ : w₂.failed = true := h.2.2.2.2 ▸ hf
      rw [Worker.loop_of_failed _ _ (p := (w₁, g)) hf, Worker.loop_of_failed _ _ (p := (w₂, g)) hf₂]
      exact .some ⟨h, rfl⟩
    case false =>
      have hf₂ : w₂.failed = false := h.2.2.2.2 ▸ hf
      cases hPa : P a
      case false =>
        -- the first loop only moves its cursors here
        obtain ⟨w', hb, h'⟩ := hnP a (List.mem_cons_self a l) hPa w₁ g hf
        simp only [Worker.loop, hf, Bool.false_eq_true, if_false, hb, Option.some_bind, List.filter_cons,
          hPa]
        exact ih w' w₂ g (h'.trans h)
      case true =>
        simp only [Worker.loop, hf, hf₂, Bool.false_eq_true, if_false, List.filter_cons, hPa, if_true]
        have hrel := hP a (List.mem_cons_self a l) hPa w₁ w₂ g hf h
        generalize body₁ a (w₁, g) = o₁ at hrel ⊢
        generalize body₂ a (w₂, g) = o₂ at hrel ⊢
        cases hrel with
        | none => exact .none
        | some hq =>
          rename_i q₁ q₂
          obtain ⟨v₁, g₁⟩ := q₁
          obtain ⟨v₂, g₂⟩ := q₂
          obtain ⟨hq', rfl⟩ := hq
          exact ih v₁ v₂ g₁ hq'

/-- A further parallel region on a thread that has run one before: a fresh
`try` block with the cursors where they stand; the exception slot stays set
once set. -/
def Worker.region (st : Storage) (w : Worker) (acts : List Action) : Worker :=
  let r := ({ w with failed := false } : Worker).run st acts
  { r with failed := w.failed || r.failed }

theorem Worker.region_failed_of_failed (st : Storage) {w : Worker} (h : w.failed = true)
    (acts : List Action) : (w.region st acts).failed = true := by
  simp [Worker.region, h]

/-- A region after which the slot is empty started with an empty slot and
executed all its actions. -/
theorem Worker.region_of_ok (st : Storage) (w : Worker) (acts : List Action)
    (h : (w.region st acts).failed = false) :
    w.failed = false ∧ w.region st acts = w.exec acts := by
  simp only [Worker.region, Bool.or_eq_false_iff] at h
  obtain ⟨hw, hr⟩ := h
  have hw' : ({ w with failed := false } : Worker) = w := by rw [← hw]
  rw [hw'] at hr
  refine ⟨hw, ?_⟩
  simp only [Worker.region, hw', Worker.run_eq_exec_of_ok st acts hw hr, hw, Bool.false_or]

/-! ## A parallel region over all virtual processes -/

/-- A rule's parallel region: on VP `w` a fresh thread runs the actions
`acts w` inside its `try` block. -/
def Worker.pass (st : Storage) (acts : Nat → List Action) (w : Nat) : Worker :=
  Worker.init.run st (acts w)

/-- The check after the region in `ConnBuilder::connect()`: some VP's
exception slot is set, and the first one is rethrown. -/
def Decomposition.raised (d : Decomposition) (ws : Nat → Worker) : Bool :=
  d.workers.any fun w => (ws w).failed

/-- On a VP whose slot stays empty, the region executed all its actions. -/
theorem Worker.pass_eq_exec (st : Storage) (acts : Nat → List Action) {w : Nat}
    (h : (Worker.pass st acts w).failed = false) :
    Worker.pass st acts w = Worker.init.exec (acts w) :=
  Worker.run_eq_exec_of_ok st (acts w) rfl h

theorem Decomposition.not_failed_of_not_raised {d : Decomposition} {ws : Nat → Worker}
    (h : d.raised ws = false) {w : Nat} (hw : w ∈ d.workers) : (ws w).failed = false := by
  simp only [Decomposition.raised, List.any_eq_false] at h
  simpa using h w hw

/-! ## Disconnect passes -/

/-- The calls of a disconnect pass on VP `w`: `single_disconnect_` for the
pairs of `sched` whose target `w` owns, and nothing for the others (no
parameter skipping when disconnecting). -/
def disconnectOwned (d : Decomposition) (sched : List (Nat × Nat)) (w : Nat) : List Action :=
  sched.flatMap fun p => if d.owner p.2 = w then [.disconnect p.1 p.2 w] else []

/-- When no VP raises, a disconnect pass removes every pair of the schedule
once over all VPs, and moves no cursor. -/
theorem Decomposition.disconnectOwned_removes (d : Decomposition) (st : Storage)
    (sched : List (Nat × Nat))
    (hok : ∀ w ∈ d.workers, (Worker.pass st (disconnectOwned d sched) w).failed = false) :
    (d.workers.flatMap fun w => (Worker.pass st (disconnectOwned d sched) w).removed).Perm sched ∧
      ∀ w ∈ d.workers, (Worker.pass st (disconnectOwned d sched) w).cursor = 0 := by
  have hpass : ∀ w ∈ d.workers,
      Worker.pass st (disconnectOwned d sched) w = Worker.init.exec (disconnectOwned d sched w) :=
    fun w hw => Worker.pass_eq_exec st _ (hok w hw)
  have hone : ∀ w (p : Nat × Nat), (if d.owner p.2 = w then [Action.disconnect p.1 p.2 w] else
      []).flatMap Action.removes = if d.owner p.2 = w then [p] else [] := by
    intro w p; split <;> rfl
  refine ⟨?_, fun w hw => ?_⟩
  · rw [List.flatMap_congr fun w hw => by rw [hpass w hw, Worker.exec_removed]]
    simpa [disconnectOwned, Worker.init, List.flatMap_assoc, hone] using
      d.perm_flatMap_owned Prod.snd id sched
  · -- no disconnect call moves the cursors
    rw [hpass w hw, Worker.exec_cursor, Worker.init, Nat.zero_add, disconnectOwned, advance_flatMap]
    refine List.sum_eq_zero fun x hx => ?_
    obtain ⟨p, -, rfl⟩ := List.mem_map.1 hx
    split <;> rfl

end NestConnBuilder
