import NestConnBuilder.SingleConnect
import NestConnBuilder.AllToAll
import NestConnBuilder.OneToOne

/-!
# The values handed to the connection manager

The loop models of the rules give every edge a position: the common place of a
thread's array cursors when `single_connect_` is called for it
(`Worker.exec`). `SingleConnect` shows that the detailed cursors of every
registered array stand there (`exec_lockstep`). This module closes the
remaining gap, from positions to the values themselves: for every call of
`kernel().connection_manager.connect` that `single_connect_` makes, it reads
off the call what it passes, the synapse model, the weight and delay unless
they are the model's defaults, and the scratch dictionary, and it shows that
every parameter that does not draw from the stream is read at the edge's
position. A call that the connection manager refuses, or the `requires_proxies`
throw, is the loop model's `Storage`; here the reads are shown defined.

The theorem is stated once for any list of calls a thread makes, so it
combines with each rule's position theorem; the all-to-all rule is done here,
where the edge `s_i → t_j` receives every array's entry `j·|S| + i`.

## Main results

* `connectSynapse_reads`, `singleConnect_reads` — what one call of
  `single_connect_` hands to the connection manager for every synapse spec,
  and that it changes nothing but cursors and scratch dictionaries.
* `execCalls_values` — along any run of a thread, from a builder the
  constructor returns, the calls for the `i`-th edge read every array at the
  edge's position and every other parameter that does not draw at its value.
* `allToAll_values` — for the all-to-all rule, on every VP of every
  decomposition, the edge `s_i → t_j` receives every array's entry at
  `j·|S| + i`.
* `allParametersScalar_same_values` — where `all_parameters_scalar_()` holds,
  the calls of any two threads pass the same synapse model, weight, delay and
  dictionary.
* `replay_values` — after any steps of the threads in any interleaving, the
  resets `ConnBuilder::connect` makes before the replay of `make_symmetric`
  return, and the replay reads every spec as a run from the constructed
  builder does.
* `symmetric_one_to_one_values` — for the one-to-one rule with
  `make_symmetric`, every edge `s → t` of the first pass has its reverse in
  the replay at the same position, and the calls for the two pass the same
  synapse model, weight, delay and dictionary.
-/

namespace NestConnBuilder.Values

open Construction Parameters SynapseSpecs SingleConnect

variable {σ : Type}

/-! ## What a call reads -/

/-- What the call for synapse spec `syn` hands to the connection manager when
each of the spec's parameter objects `p` is read at position `pos p`: the
spec's synapse model, a weight and a delay exactly where they are not the
model's defaults, the dictionary with the spec's keys, and every parameter that
does not draw from the stream at its value there. -/
structure CallReads (syn : SynapseParams σ) (pos : ConnParameter σ → Nat) (call : ConnectCall) :
    Prop where
  synapseModelId : call.synapseModelId = syn.synapseModelId
  weight_none : call.weight = none ↔ syn.defaultWeight = true
  delay_none : call.delay = none ↔ syn.defaultDelay = true
  weight : syn.defaultWeight = false → ∀ p ∈ syn.weight, ∀ v, p.source.doubleAt (pos p) = some v →
    call.weight = some v
  delay : syn.defaultDelay = false → ∀ v, syn.delay.source.doubleAt (pos syn.delay) = some v →
    call.delay = some v
  keys : call.params.map Prod.fst = syn.params.map Prod.fst
  params : ∀ name p, syn.params.lookup name = some p → ∀ d, p.source.datumAt (pos p) = some d →
    call.params.lookup name = some d

/-- A reading of one spec is a reading of any spec with the same rewinding,
as long as the arrays are read at the same positions. -/
theorem CallReads.of_rewind {syn syn' : SynapseParams σ} {pos pos' : ConnParameter σ → Nat}
    {call : ConnectCall} (h : CallReads syn' pos' call) (hrw : syn'.rewind = syn.rewind)
    (hpos : ∀ m p p', syn.get m = some p → syn'.get m = some p' → p.requiresSkipping = true →
      pos' p' = pos p) :
    CallReads syn pos call := by
  have hflag : ∀ {β : Type} (f : SynapseParams σ → β), (∀ x, f x.rewind = f x) → f syn' = f syn :=
    fun f hf => by rw [← hf syn', hrw, hf]
  -- a member's parameter on the other side, made from the same value and read at the same place
  have hsame : ∀ m p, syn.get m = some p → ∃ p', syn'.get m = some p' ∧
      p'.source.doubleAt (pos' p') = p.source.doubleAt (pos p) ∧
      p'.source.datumAt (pos' p') = p.source.datumAt (pos p) := fun m p hp => by
    obtain ⟨p', hp', hsrc⟩ := SynapseParams.source_of_rewind hrw hp
    have hskip : p'.requiresSkipping = p.requiresSkipping := by
      simp only [ConnParameter.requiresSkipping, hsrc]
    cases hr : p.requiresSkipping
    · rw [← hskip] at hr
      refine ⟨p', hp', ?_, ?_⟩
      · rw [ConnParameter.doubleAt_of_not_requiresSkipping hr _ (pos p), hsrc]
      · rw [ConnParameter.datumAt_of_not_requiresSkipping hr _ (pos p), hsrc]
    · exact ⟨p', hp', by rw [hpos m p p' hp hp' hr, hsrc], by rw [hpos m p p' hp hp' hr, hsrc]⟩
  have hdw := hflag SynapseParams.defaultWeight fun _ => rfl
  have hdd := hflag SynapseParams.defaultDelay fun _ => rfl
  refine ⟨h.synapseModelId.trans (hflag _ fun _ => rfl), hdw ▸ h.weight_none, hdd ▸ h.delay_none,
    fun hw p hp v hv => ?_, fun hd v hv => ?_, ?_, fun name p hp d hd => ?_⟩
  · obtain ⟨p', hp', hv', -⟩ := hsame .weight p hp
    exact h.weight (hdw ▸ hw) p' hp' v (hv'.trans hv)
  · obtain ⟨p', hp', hv', -⟩ := hsame .delay syn.delay rfl
    obtain rfl : p' = syn'.delay := (Option.some.inj hp').symm
    exact h.delay (hdd ▸ hd) v (hv'.trans hv)
  · rw [h.keys, ← hflag (fun x => x.params.map Prod.fst) fun x => by simp [SynapseParams.rewind]]
  · obtain ⟨p', hp', -, hd'⟩ := hsame (.param name) p hp
    exact h.params name p' hp' d (hd'.trans hd)

/-! ## One call of `single_connect_` -/

/-- `update_param_dict_` returned: the thread's dictionary of spec `k` was
filled from the one it held, and the spec's synapse parameters stepped. -/
theorem updateParamDict_some {numThreads k thr : Nat} {st st₁ : ParamState σ} {g g₁ : σ}
    {syn : SynapseParams σ} (hsyn : st.synapses[k]? = some syn)
    (h : updateParamDict numThreads st k thr g = some (st₁, g₁)) :
    numThreads = syn.paramDicts.length ∧ ∃ dict₀ dict, syn.paramDicts[thr]? = some dict₀ ∧
      fillDict thr syn.params dict₀ g = some (dict, g₁) ∧ st₁ = st.updateSynapse k (·.fill thr dict) := by
  unfold updateParamDict at h
  rw [hsyn] at h
  dsimp only at h
  split_ifs at h with hn
  split at h
  · cases h
  · next dict₀ hd₀ =>
    split at h
    · cases h
    · next dict g' hfill =>
      cases h
      exact ⟨hn, dict₀, dict, hd₀, hfill, rfl⟩

/-- What one iteration of the loop of `single_connect_` hands to the
connection manager, read off the call: the endpoints and thread it was given,
and the spec read at the cursors of thread `thr`. The iteration changes only
cursors and scratch dictionaries. -/
theorem connectSynapse_reads {numThreads s t thr k : Nat} {st st' : ParamState σ}
    {syn : SynapseParams σ} {g g' : σ} {call : ConnectCall} (hsyn : st.synapses[k]? = some syn)
    (hwf : syn.WellFormed numThreads) (h : connectSynapse numThreads s t thr k st g = some (st', g', call)) :
    st'.rewind = st.rewind ∧ call.source = s ∧ call.target = t ∧ call.thread = thr ∧
      CallReads syn (·.next thr) call := by
  unfold connectSynapse at h
  split at h
  · cases h
  rename_i st₁ g₁ hupd
  obtain ⟨-, dict₀, dict, hd₀, hfill, rfl⟩ := updateParamDict_some hsyn hupd
  have hsyn₁ : (st.updateSynapse k (·.fill thr dict)).synapses[k]? = some (syn.fill thr dict) := by
    simp [ParamState.getElem?_updateSynapse, hsyn]
  have hdict : (syn.fill thr dict).paramDicts[thr]? = some dict := by
    simp [SynapseParams.fill, List.getElem?_set, (List.getElem?_eq_some_iff.mp hd₀).1]
  have hrw : (st.updateSynapse k (·.fill thr dict)).rewind = st.rewind :=
    st.rewind_updateSynapse k fun syn => syn.rewind_fill thr dict
  -- the filled dictionary: the spec's keys, each array at the cursor
  obtain ⟨hkeys, -, hvals⟩ := fillDict_lookup thr hfill hwf.ready.keys_nodup
  have hkeys' : dict.map Prod.fst = syn.params.map Prod.fst :=
    hkeys.trans (hwf.ready.kinds dict₀ (List.getElem?_mem hd₀)).keys
  have hdelay : ∀ g, syn.defaultDelay = false → ∀ v,
      syn.delay.source.doubleAt (syn.delay.next thr) = some v →
        some (syn.delay.valueDouble thr g).1 = some v :=
    fun g _ v hv => by rw [ConnParameter.valueDouble_fst hv]
  have hweight : ∀ w, syn.weight = some w → ∀ g, syn.defaultWeight = false → ∀ p ∈ syn.weight, ∀ v,
      p.source.doubleAt (p.next thr) = some v → some (w.valueDouble thr g).1 = some v :=
    fun w hw g _ p hp v hv => by
      obtain rfl : w = p := Option.some.inj (hw.symm.trans hp)
      rw [ConnParameter.valueDouble_fst hv]
  obtain ⟨hdwad, hwsome, -, -⟩ := hwf.toDefaultsOk
  simp only [hsyn₁, hdict, SynapseParams.fill_defaultWeightAndDelay, SynapseParams.fill_defaultWeight,
    SynapseParams.fill_defaultDelay, SynapseParams.fill_weight, SynapseParams.fill_delay,
    SynapseParams.fill_synapseModelId] at h
  cases hw : syn.defaultWeight <;> cases hd : syn.defaultDelay <;>
    simp only [hw, hd, Bool.and_self, Bool.and_false, Bool.and_true, Bool.false_and] at hdwad
  · -- the spec gives both: the delay is read, then the weight
    obtain ⟨w, hw'⟩ := Option.isSome_iff_exists.mp (hwsome hdwad)
    simp only [hdwad, hw, hd, hw', Bool.false_eq_true, if_false, Option.some.injEq,
      Prod.mk.injEq] at h
    obtain ⟨rfl, rfl, rfl⟩ := h
    exact ⟨by simp only [ParamState.rewind_modify_skip, hrw], rfl, rfl, rfl, ⟨rfl, by simp [hw],
      by simp [hd], hweight w hw' _, hdelay _, hkeys', hvals⟩⟩
  · -- the delay is the default: only the weight is read
    obtain ⟨w, hw'⟩ := Option.isSome_iff_exists.mp (hwsome hdwad)
    simp only [hdwad, hw, hd, hw', Bool.false_eq_true, if_false, if_true, Option.some.injEq,
      Prod.mk.injEq] at h
    obtain ⟨rfl, rfl, rfl⟩ := h
    exact ⟨by simp only [ParamState.rewind_modify_skip, hrw], rfl, rfl, rfl, ⟨rfl, by simp [hw],
      by simp [hd], hweight w hw' _, fun h => (nomatch hd.symm.trans h), hkeys', hvals⟩⟩
  · -- the weight is the default: only the delay is read
    simp only [hdwad, hw, Bool.false_eq_true, if_false, if_true, Option.some.injEq, Prod.mk.injEq] at h
    obtain ⟨rfl, rfl, rfl⟩ := h
    exact ⟨by simp only [ParamState.rewind_modify_skip, hrw], rfl, rfl, rfl, ⟨rfl, by simp [hw],
      by simp [hd], fun h => (nomatch hw.symm.trans h), hdelay _, hkeys', hvals⟩⟩
  · -- both are defaults: neither is read
    simp only [hdwad, if_true, Option.some.injEq, Prod.mk.injEq] at h
    obtain ⟨rfl, rfl, rfl⟩ := h
    exact ⟨hrw, rfl, rfl, rfl, ⟨rfl, by simp [hw], by simp [hd], fun h => (nomatch hw.symm.trans h),
      fun h => (nomatch hd.symm.trans h), hkeys', hvals⟩⟩

/-! ## Every synapse spec of a call of `single_connect_` -/

theorem forall₂_imp_of_mem {α β : Type*} {R S : α → β → Prop} :
    ∀ {l₁ : List α} {l₂ : List β}, List.Forall₂ R l₁ l₂ → (∀ a ∈ l₁, ∀ b, R a b → S a b) →
      List.Forall₂ S l₁ l₂
  | _, _, .nil, _ => .nil
  | _, _, .cons hab h, H => .cons (H _ (List.mem_cons_self _ _) _ hab)
    (forall₂_imp_of_mem h fun a ha => H a (List.mem_cons_of_mem _ ha))

/-- A relation along the indices of a list is a relation along its entries. -/
theorem forall₂_of_range {α β : Type*} {R : α → β → Prop} {l : List α} {l' : List β}
    (h : List.Forall₂ (fun k b => ∃ a, l[k]? = some a ∧ R a b) (List.range l.length) l') :
    List.Forall₂ R l l' := by
  rw [List.forall₂_iff_get] at h ⊢
  obtain ⟨hlen, hget⟩ := h
  refine ⟨by simpa using hlen, fun i h₁ h₂ => ?_⟩
  obtain ⟨a, ha, hR⟩ := hget i (by simpa using h₁) h₂
  simp only [List.get_eq_getElem, List.getElem_range, List.getElem?_eq_getElem h₁,
    Option.some.injEq] at ha hR ⊢
  exact ha ▸ hR

/-- The loop of `single_connect_` over distinct synapse specs `ks`: each call
reads its spec as the loop found it, since the other iterations touch other
specs only. -/
theorem connectSynapses_reads {numThreads thr : Nat} (hthr : thr < numThreads) (s t : Nat) :
    ∀ (ks : List Nat) {st st' : ParamState σ} {g g' : σ} {calls : List ConnectCall},
      st.WellFormed numThreads → (∀ k ∈ ks, k < st.synapses.length) → ks.Nodup →
      connectSynapses numThreads s t thr ks st g = some (st', g', calls) →
      st'.rewind = st.rewind ∧ List.Forall₂ (fun k call => ∃ syn, st.synapses[k]? = some syn ∧
        call.source = s ∧ call.target = t ∧ call.thread = thr ∧ CallReads syn (·.next thr) call) ks calls := by
  intro ks
  induction ks with
  | nil => intro _ _ _ _ _ _ _ _ h; cases h; exact ⟨rfl, .nil⟩
  | cons k ks ih =>
    intro st st' g g' calls hwf hks hnd h
    have hk := hks k (List.mem_cons_self _ _)
    obtain ⟨st₁, g₁, call, hone, hwf₁, hlen₁, -, hget₁⟩ := connectSynapse_eq hwf hk hthr s t g
    simp only [connectSynapses, hone] at h
    split at h
    · cases h
    rename_i st₂ g₂ calls' hrest
    simp only [Option.some.injEq, Prod.mk.injEq] at h
    obtain ⟨rfl, rfl, rfl⟩ := h
    have hsyn : st.synapses[k]? = some st.synapses[k] := List.getElem?_eq_getElem hk
    obtain ⟨hrw₁, hs, ht, hthr', hreads⟩ := connectSynapse_reads hsyn (hwf.synapses k _ hsyn) hone
    obtain ⟨hrw, hrest'⟩ := ih hwf₁
      (fun k' hk' => hlen₁ ▸ hks k' (List.mem_cons_of_mem _ hk')) (List.nodup_cons.mp hnd).2 hrest
    refine ⟨hrw.trans hrw₁, .cons ⟨_, hsyn, hs, ht, hthr', hreads⟩ (forall₂_imp_of_mem hrest' ?_)⟩
    rintro k' hk' call' ⟨syn₁, hsyn₁, hs', ht', hthr'', hr⟩
    -- the other specs are as the loop found them
    have hne : k' ≠ k := fun he => (List.nodup_cons.mp hnd).1 (he ▸ hk')
    have hk'' := hks k' (List.mem_cons_of_mem _ hk')
    have hsyn' : st.synapses[k']? = some st.synapses[k'] := List.getElem?_eq_getElem hk''
    obtain ⟨syn₁', hsyn₁', hrw'⟩ := ParamState.synapse_of_rewind hrw₁ hsyn'
    obtain rfl : syn₁' = syn₁ := Option.some.inj (hsyn₁'.symm.trans hsyn₁)
    refine ⟨_, hsyn', hs', ht', hthr'', hr.of_rewind hrw' fun m p p' hp hp' _ => ?_⟩
    have hm := hget₁ ⟨k', m⟩
    simp only [ParamState.get, hsyn', hsyn₁, Option.some_bind, hp, hp', if_neg hne,
      ConnParameter.skip_zero, Option.map_some', Option.some.injEq] at hm
    rw [hm]

/-- What one call of `single_connect_` on a well-formed state hands to the
connection manager: for every synapse spec, in order, a call with the given
endpoints and thread, reading the spec at the cursors of thread `thr`. -/
theorem singleConnect_reads {numThreads : Nat} {st st' : ParamState σ} (hwf : st.WellFormed numThreads)
    {s t thr : Nat} (hthr : thr < numThreads) {g g' : σ} {calls : List ConnectCall}
    (h : singleConnect numThreads st s t thr g = some (st', g', calls)) :
    st'.rewind = st.rewind ∧ List.Forall₂ (fun syn call => call.source = s ∧ call.target = t ∧
      call.thread = thr ∧ CallReads syn (·.next thr) call) st.synapses calls := by
  obtain ⟨hrw, hcalls⟩ := connectSynapses_reads hthr s t _ hwf (fun _ hk => List.mem_range.mp hk)
    (List.nodup_range _) h
  exact ⟨hrw, forall₂_of_range hcalls⟩

/-! ## A thread's run -/

/-- The calls on the builder's parameters of a rule's action list, run by
thread `tid` of the kernel, with the calls `single_connect_` hands to the
connection manager for each `connect`: `skip_conn_parameter_( tid, n )` and
`single_connect_( s, *target, tid, rng )`. The thread an action names is the
VP it runs on; the builder's cursors are indexed by `tid`. The other actions do
not touch the parameters. `none` where a `single_connect_` is undefined. -/
def execCalls (numThreads tid : Nat) :
    List Action → ParamState σ → σ → Option (ParamState σ × σ × List (List ConnectCall))
  | [], st, g => some (st, g, [])
  | .skip n :: acts, st, g => execCalls numThreads tid acts (st.skipConnParameter tid n) g
  | .connect s t _ :: acts, st, g =>
    match singleConnect numThreads st s t tid g with
    | none => none
    | some (st, g, calls) =>
      match execCalls numThreads tid acts st g with
      | none => none
      | some (st, g, callss) => some (st, g, calls :: callss)
  | _ :: acts, st, g => execCalls numThreads tid acts st g

/-- The calls `single_connect_` makes for the edge `e` on thread `tid`, one per
synapse spec of `syns`: the edge's endpoints, and every spec read at the edge's
position. -/
def EdgeCalls (syns : List (SynapseParams σ)) (tid : Nat) (e : Edge) (calls : List ConnectCall) :
    Prop :=
  List.Forall₂ (fun syn call => call.source = e.src ∧ call.target = e.tgt ∧ call.thread = tid ∧
    CallReads syn (fun _ => e.pos) call) syns calls

/-- Read at fixed positions, only what the loops cannot change matters. -/
theorem EdgeCalls.of_rewind {syns syns' : List (SynapseParams σ)} {tid : Nat} {e : Edge}
    {calls : List ConnectCall} (h : EdgeCalls syns' tid e calls)
    (hrw : syns'.map SynapseParams.rewind = syns.map SynapseParams.rewind) : EdgeCalls syns tid e calls := by
  induction h generalizing syns with
  | nil => cases syns with
    | nil => exact .nil
    | cons _ _ => cases hrw
  | cons hsc _ ih =>
    cases syns with
    | nil => cases hrw
    | cons syn syns =>
      rw [List.map_cons, List.map_cons, List.cons.injEq] at hrw
      obtain ⟨hs, ht, hth, hr⟩ := hsc
      exact .cons ⟨hs, ht, hth, hr.of_rewind hrw.1 fun _ _ _ _ _ _ => rfl⟩ (ih hrw.2)

/-- In a well-formed state whose registered arrays of thread `tid` stand at
`c`, every array of every spec stands there. -/
theorem next_of_lockstep {numThreads tid c : Nat} {st : ParamState σ} (h : st.WellFormed numThreads)
    (hl : Lockstep st tid c) {syn : SynapseParams σ} (hsyn : syn ∈ st.synapses) {m : Member}
    {p : ConnParameter σ} (hp : syn.get m = some p) (hr : p.requiresSkipping = true) : p.next tid = c := by
  obtain ⟨k, hk⟩ := List.mem_iff_getElem?.mp hsyn
  have hget : st.get ⟨k, m⟩ = some p := by simp [ParamState.get, hk, hp]
  have hmem : (⟨k, m⟩ : Slot) ∈ st.skipping := by
    rw [← List.count_pos_iff, h.registered, hget]
    simp [hr]
  obtain ⟨p', hp', hc⟩ := hl _ hmem
  obtain rfl : p = p' := Option.some.inj (hget.symm.trans hp')
  exact hc

/-- Along a run of thread `tid` from a well-formed state whose registered
arrays stand at `c`, the parameter reads of every `single_connect_` are
defined, and the calls for each
edge the run emits read the state's specs at the edge's position. -/
theorem execCalls_reads {numThreads tid : Nat} (htid : tid < numThreads) :
    ∀ (acts : List Action) (st : ParamState σ) (g : σ) (c : Nat), st.WellFormed numThreads →
      Lockstep st tid c → ∃ st' g' callss, execCalls numThreads tid acts st g = some (st', g', callss) ∧
        st'.rewind = st.rewind ∧ List.Forall₂ (EdgeCalls st.synapses tid) (emitted c acts) callss
  | [], st, g, _, _, _ => ⟨st, g, [], rfl, rfl, .nil⟩
  | .skip n :: acts, st, g, c, h, hl => by
    obtain ⟨st', g', callss, hrun, hrw, hcalls⟩ := execCalls_reads htid acts _ g (c + n)
      (h.skipConnParameter tid n)
      (lockstep_of_get h hl (by simp) (get_skipConnParameter_of_wellFormed h tid n))
    rw [ParamState.rewind_skipConnParameter] at hrw
    exact ⟨st', g', callss, hrun, hrw,
      forall₂_imp_of_mem hcalls fun e _ calls hc => hc.of_rewind (ParamState.rewind_skipConnParameter st tid n)⟩
  | .connect s t thr :: acts, st, g, c, h, hl => by
    obtain ⟨st₁, g₁, calls, hone, hwf₁, hsk₁, hget₁⟩ := singleConnect_eq h htid s t g
    obtain ⟨hrw₁, hreads⟩ := singleConnect_reads h htid hone
    obtain ⟨st', g', callss, hrun, hrw, hcalls⟩ := execCalls_reads htid acts st₁ g₁ (c + 1) hwf₁
      (lockstep_of_get h hl hsk₁ hget₁)
    refine ⟨st', g', calls :: callss, by simp [execCalls, hone, hrun], hrw.trans hrw₁, .cons ?_
      (forall₂_imp_of_mem hcalls fun e _ calls hc => hc.of_rewind hrw₁)⟩
    -- the calls of this edge read every array at the common position `c`
    have hat : ∀ syn ∈ st.synapses, ∀ call, CallReads syn (·.next tid) call →
        CallReads syn (fun _ => c) call := by
      refine fun syn hsyn call hr => hr.of_rewind rfl fun m p p' hp hp' hrs => ?_
      obtain rfl := Option.some.inj (hp.symm.trans hp')
      exact next_of_lockstep h hl hsyn hp hrs
    exact forall₂_imp_of_mem hreads fun syn hsyn call hc =>
      ⟨hc.1, hc.2.1, hc.2.2.1, hat syn hsyn call hc.2.2.2⟩
  | .disconnect s t thr :: acts, st, g, c, h, hl => execCalls_reads htid acts st g c h hl
  | .pre n u :: acts, st, g, c, h, hl => execCalls_reads htid acts st g c h hl
  | .post n u :: acts, st, g, c, h, hl => execCalls_reads htid acts st g c h hl

/-- **The values handed to the connection manager.** From a builder the
constructor returns, along any run of thread `tid` of the kernel, the
parameter reads of every `single_connect_` are defined, and for the `i`-th edge the loop model creates, the
`i`-th call of `single_connect_` hands the connection manager, for every
synapse spec in order, the edge's endpoints and the spec's synapse model, a
weight and a delay exactly where they are not the model's defaults, and every
parameter that does not draw from the stream at its value at the edge's
position: an array's entry there, a number's value. -/
theorem execCalls_values {mm : ModelManager σ} {numThreads : Nat} {spec : ConnSpec}
    {synSpecs : List (SynapseDict σ)} {sourcesValid targetsValid : Bool} {b : BaseBuilder}
    {st : ParamState σ}
    (h : connBuilderParams mm numThreads spec synSpecs sourcesValid targetsValid = some (.ok (b, st)))
    {tid : Nat} (htid : tid < numThreads) (acts : List Action) (g : σ) :
    ∃ st' g' callss, execCalls numThreads tid acts st g = some (st', g', callss) ∧
      List.Forall₂ (EdgeCalls st.synapses tid) (Worker.init.exec acts).edges callss := by
  obtain ⟨-, hwf, h₀, -⟩ := connBuilderParams_eq_ok h
  obtain ⟨st', g', callss, hrun, -, hcalls⟩ :=
    execCalls_reads htid acts st g 0 hwf (lockstep_of_atStart hwf h₀ tid)
  exact ⟨st', g', callss, hrun, by rwa [Worker.exec_edges, Worker.init, List.nil_append]⟩

theorem execCalls_values_skip_then_connect :
    ∃ b st, connBuilderParams oneModel 2 ⟨none, none, none⟩ [arrayWeightSpec] true true =
      some (.ok (b, st)) ∧ ∃ st' g' callss, execCalls 2 1 [.skip 1, .connect 0 5 1] st () =
        some (st', g', callss) ∧ List.Forall₂ (EdgeCalls st.synapses 1)
          (Worker.init.exec [.skip 1, .connect 0 5 1]).edges callss :=
  ⟨_, _, rfl, @execCalls_values Unit oneModel 2 ⟨none, none, none⟩ [arrayWeightSpec] true true _ _ rfl 1
    (by decide) [.skip 1, .connect 0 5 1] ()⟩

/-! ## All-to-all -/

/-- **All-to-all values.** On every VP `w` of every decomposition, run by
thread `tid` of a builder the constructor returns, the target loop of
`AllToAllBuilder::connect_` hands the connection manager, for the edge
`s_i → t_j` of every target `t_j` it owns and admitted source `s_i`, in the
order of `owed`, calls that read every array parameter at `j·|S| + i`. -/
theorem allToAll_values {mm : ModelManager σ} {numThreads : Nat} {spec : ConnSpec}
    {synSpecs : List (SynapseDict σ)} {sourcesValid targetsValid : Bool} {b : BaseBuilder}
    {st : ParamState σ}
    (h : connBuilderParams mm numThreads spec synSpecs sourcesValid targetsValid = some (.ok (b, st)))
    {tid : Nat} (htid : tid < numThreads) (d : Decomposition) (allowAutapses : Bool)
    (sources targets : List Nat) (w : Nat) (g : σ) :
    ∃ st' g' callss, execCalls numThreads tid (AllToAll.connect d allowAutapses true sources targets w) st g =
        some (st', g', callss) ∧
      List.Forall₂ (EdgeCalls st.synapses tid) (AllToAll.owed d allowAutapses sources targets w) callss := by
  obtain ⟨-, hwf, h₀, -⟩ := connBuilderParams_eq_ok h
  obtain ⟨st', g', callss, hrun, -, hcalls⟩ := execCalls_reads htid
    (AllToAll.connect d allowAutapses true sources targets w) st g 0 hwf (lockstep_of_atStart hwf h₀ tid)
  exact ⟨st', g', callss, hrun, by rwa [AllToAll.emitted_connect_targets] at hcalls⟩

theorem allToAll_values_two_vps :
    ∃ b st, connBuilderParams oneModel 2 ⟨none, none, none⟩ [arrayWeightSpec] true true =
      some (.ok (b, st)) ∧ ∃ st' g' callss,
        execCalls 2 1 (AllToAll.connect (.roundRobin 1 2 4 (by decide)) true true [1, 2] [3, 4] 1) st () =
          some (st', g', callss) ∧ List.Forall₂ (EdgeCalls st.synapses 1)
            (AllToAll.owed (.roundRobin 1 2 4 (by decide)) true [1, 2] [3, 4] 1) callss :=
  ⟨_, _, rfl, @allToAll_values Unit oneModel 2 ⟨none, none, none⟩ [arrayWeightSpec] true true _ _ rfl 1
    (by decide) _ true [1, 2] [3, 4] 1 ()⟩

/-! ## `all_parameters_scalar_` -/

/-- `ConnBuilder::all_parameters_scalar_()`: every weight object that exists,
every delay and every synapse parameter is a number. -/
def allParametersScalar (st : ParamState σ) : Bool :=
  (st.synapses.all fun syn => syn.weight.all ConnParameter.isScalar) &&
    (st.synapses.all fun syn => syn.delay.isScalar) &&
    st.synapses.all fun syn => syn.params.all fun q => q.2.isScalar

theorem isScalar_of_allParametersScalar {st : ParamState σ} (h : allParametersScalar st = true)
    {syn : SynapseParams σ} (hsyn : syn ∈ st.synapses) {m : Member} {p : ConnParameter σ}
    (hp : syn.get m = some p) : p.isScalar = true := by
  simp only [allParametersScalar, Bool.and_eq_true, List.all_eq_true] at h
  obtain ⟨⟨hw, hd⟩, hps⟩ := h
  cases m with
  | weight =>
    rw [SynapseParams.get_weight] at hp
    simpa [hp] using hw syn hsyn
  | delay => simpa [(Option.some.inj hp).symm] using hd syn hsyn
  | param name => simpa using hps syn hsyn _ (mem_of_lookup_eq_some hp)

/-- Two readings of a spec at the same positions agree wherever every
parameter has a value there. -/
theorem CallReads.same {syn : SynapseParams σ} (hok : syn.DefaultsOk)
    (hnd : (syn.params.map Prod.fst).Nodup) {pos : ConnParameter σ → Nat}
    (hs : ∀ m p, syn.get m = some p →
      (p.source.doubleAt (pos p)).isSome = true ∧ (p.source.datumAt (pos p)).isSome = true)
    {c₁ c₂ : ConnectCall} (h₁ : CallReads syn pos c₁) (h₂ : CallReads syn pos c₂) :
    c₁.synapseModelId = c₂.synapseModelId ∧ c₁.weight = c₂.weight ∧ c₁.delay = c₂.delay ∧
      c₁.params = c₂.params := by
  refine ⟨h₁.synapseModelId.trans h₂.synapseModelId.symm, ?_, ?_, ?_⟩
  · cases hw : syn.defaultWeight
    · -- a weight object exists, and it has a value there
      obtain ⟨p, hp⟩ := Option.isSome_iff_exists.mp
        (hok.weight_isSome (by rw [hok.defaultWeightAndDelay_eq, hw, Bool.false_and]))
      obtain ⟨v, hv⟩ := Option.isSome_iff_exists.mp (hs .weight p hp).1
      rw [h₁.weight hw p hp v hv, h₂.weight hw p hp v hv]
    · rw [h₁.weight_none.mpr hw, h₂.weight_none.mpr hw]
  · cases hd : syn.defaultDelay
    · obtain ⟨v, hv⟩ := Option.isSome_iff_exists.mp (hs .delay syn.delay rfl).1
      rw [h₁.delay hd v hv, h₂.delay hd v hv]
    · rw [h₁.delay_none.mpr hd, h₂.delay_none.mpr hd]
  · -- the dictionaries have the spec's keys, each holding the parameter's value there
    refine Dict.eq_of_lookup (h₁.keys.trans h₂.keys.symm) (h₁.keys ▸ hnd) fun n => ?_
    cases hl : syn.params.lookup n with
    | none =>
      have hn : n ∉ syn.params.map Prod.fst := fun hn => by
        obtain ⟨q, hq, rfl⟩ := List.mem_map.mp hn
        simpa using List.lookup_eq_none_iff.mp hl q hq
      rw [lookup_eq_none_of_not_mem (h₁.keys ▸ hn), lookup_eq_none_of_not_mem (h₂.keys ▸ hn)]
    | some p =>
      obtain ⟨d, hd⟩ := Option.isSome_iff_exists.mp (hs (.param n) p hl).2
      rw [h₁.params n p hl d hd, h₂.params n p hl d hd]

/-- Two readings of a spec whose parameters are all numbers agree, wherever
they read. -/
theorem CallReads.same_of_scalar {syn : SynapseParams σ} (hok : syn.DefaultsOk)
    (hnd : (syn.params.map Prod.fst).Nodup) (hs : ∀ m p, syn.get m = some p → p.isScalar = true)
    {pos₁ pos₂ : ConnParameter σ → Nat} {c₁ c₂ : ConnectCall} (h₁ : CallReads syn pos₁ c₁)
    (h₂ : CallReads syn pos₂ c₂) :
    c₁.synapseModelId = c₂.synapseModelId ∧ c₁.weight = c₂.weight ∧ c₁.delay = c₂.delay ∧
      c₁.params = c₂.params := by
  -- no number requires skipping, so each reading is one at position 0
  have h₀ : ∀ {pos c}, CallReads syn pos c → CallReads syn (fun _ => 0) c := fun hr =>
    hr.of_rewind rfl fun m p _ hp _ hrs => by
      rw [ConnParameter.requiresSkipping_of_isScalar (hs m p hp)] at hrs
      cases hrs
  refine (h₀ h₁).same hok hnd (fun m p hp => ?_) (h₀ h₂)
  obtain ⟨v, hv⟩ := ConnParameter.doubleAt_of_isScalar (hs m p hp)
  obtain ⟨d, hd⟩ := ConnParameter.datumAt_of_isScalar (hs m p hp)
  rw [hv, hd]
  exact ⟨rfl, rfl⟩

/-- Every spec of a well-formed state is well formed. -/
theorem synapse_wellFormed {numThreads : Nat} {st : ParamState σ} (h : st.WellFormed numThreads)
    {syn : SynapseParams σ} (hsyn : syn ∈ st.synapses) : syn.WellFormed numThreads := by
  obtain ⟨k, hk⟩ := List.mem_iff_getElem?.mp hsyn
  exact h.synapses k syn hk

theorem exists_of_forall₂_mem {α β : Type*} {R : α → β → Prop} :
    ∀ {l₁ : List α} {l₂ : List β}, List.Forall₂ R l₁ l₂ → ∀ {b}, b ∈ l₂ → ∃ a ∈ l₁, R a b
  | _, _, .nil, _, hb => by cases hb
  | _, _, .cons hab h, _, hb => by
    rcases List.mem_cons.mp hb with rfl | hb
    · exact ⟨_, List.mem_cons_self _ _, hab⟩
    · obtain ⟨a, ha, hR⟩ := exists_of_forall₂_mem h hb
      exact ⟨a, List.mem_cons_of_mem _ ha, hR⟩

/-- Two lists related entry by entry to a common list are related entry by
entry to each other. -/
theorem forall₂_of_common {α β γ : Type*} {R : α → β → Prop} {S : α → γ → Prop} {T : β → γ → Prop} :
    ∀ {l : List α} {l₁ : List β} {l₂ : List γ}, List.Forall₂ R l l₁ → List.Forall₂ S l l₂ →
      (∀ a ∈ l, ∀ b c, R a b → S a c → T b c) → List.Forall₂ T l₁ l₂
  | _, _, _, .nil, .nil, _ => .nil
  | _, _, _, .cons hab h₁, .cons hac h₂, H => .cons (H _ (List.mem_cons_self _ _) _ _ hab hac)
    (forall₂_of_common h₁ h₂ fun a ha => H a (List.mem_cons_of_mem _ ha))

/-- **Scalar parameters give every connection the same values.** From a builder
the constructor returns with `all_parameters_scalar_()` true, no parameter is
registered for skipping, and any two runs of any two action lists, on any
threads of the kernel, hand the connection manager, for every synapse spec,
the same synapse model, weight, delay and dictionary, whichever edges the
calls are for. -/
theorem allParametersScalar_same_values {mm : ModelManager σ} {numThreads : Nat} {spec : ConnSpec}
    {synSpecs : List (SynapseDict σ)} {sourcesValid targetsValid : Bool} {b : BaseBuilder}
    {st : ParamState σ}
    (h : connBuilderParams mm numThreads spec synSpecs sourcesValid targetsValid = some (.ok (b, st)))
    (hs : allParametersScalar st = true) {tid₁ tid₂ : Nat} (h₁ : tid₁ < numThreads)
    (h₂ : tid₂ < numThreads) (acts₁ acts₂ : List Action) (g₁ g₂ : σ) :
    st.skipping = [] ∧ ∃ r₁ r₂, execCalls numThreads tid₁ acts₁ st g₁ = some r₁ ∧
      execCalls numThreads tid₂ acts₂ st g₂ = some r₂ ∧ ∀ calls₁ ∈ r₁.2.2, ∀ calls₂ ∈ r₂.2.2,
        List.Forall₂ (fun c₁ c₂ => c₁.synapseModelId = c₂.synapseModelId ∧ c₁.weight = c₂.weight ∧
          c₁.delay = c₂.delay ∧ c₁.params = c₂.params) calls₁ calls₂ := by
  obtain ⟨-, hwf, h₀, -⟩ := connBuilderParams_eq_ok h
  refine ⟨List.eq_nil_iff_forall_not_mem.mpr fun sl hsl => ?_, ?_⟩
  · -- a registered slot holds an array, and there is none
    obtain ⟨p, hp, hr⟩ := requiresSkipping_of_mem_skipping hwf hsl
    simp only [ParamState.get, Option.bind_eq_some] at hp
    obtain ⟨syn, hsyn, hp⟩ := hp
    have := ConnParameter.requiresSkipping_of_isScalar
      (isScalar_of_allParametersScalar hs (List.getElem?_mem hsyn) hp)
    rw [hr] at this
    cases this
  · obtain ⟨st₁, g₁', callss₁, hrun₁, -, hc₁⟩ :=
      execCalls_reads h₁ acts₁ st g₁ 0 hwf (lockstep_of_atStart hwf h₀ tid₁)
    obtain ⟨st₂, g₂', callss₂, hrun₂, -, hc₂⟩ :=
      execCalls_reads h₂ acts₂ st g₂ 0 hwf (lockstep_of_atStart hwf h₀ tid₂)
    refine ⟨_, _, hrun₁, hrun₂, fun calls₁ hm₁ calls₂ hm₂ => ?_⟩
    obtain ⟨e₁, -, he₁⟩ := exists_of_forall₂_mem hc₁ hm₁
    obtain ⟨e₂, -, he₂⟩ := exists_of_forall₂_mem hc₂ hm₂
    exact forall₂_of_common he₁ he₂ fun syn hsyn c₁ c₂ r₁ r₂ =>
      r₁.2.2.2.same_of_scalar (synapse_wellFormed hwf hsyn).toDefaultsOk
        (synapse_wellFormed hwf hsyn).ready.keys_nodup
        (fun _ _ hp => isScalar_of_allParametersScalar hs hsyn hp) r₂.2.2.2

/-- A synapse spec with a number for the weight and an integer receptor type. -/
def scalarWeightSpec : SynapseDict Unit :=
  ⟨some "static_synapse", ⟨none, none⟩, [("weight", .double 2), ("receptor_type", .integer 1)]⟩

theorem allParametersScalar_same_values_two_threads :
    ∃ b st, connBuilderParams oneModel 2 ⟨none, none, none⟩ [scalarWeightSpec] true true =
      some (.ok (b, st)) ∧ allParametersScalar st = true ∧ st.skipping = [] ∧
        ∃ r₁ r₂, execCalls 2 0 [.connect 1 5 0] st () = some r₁ ∧
          execCalls 2 1 [.skip 3, .connect 5 1 1] st () = some r₂ ∧
          ∀ calls₁ ∈ r₁.2.2, ∀ calls₂ ∈ r₂.2.2,
            List.Forall₂ (fun c₁ c₂ => c₁.synapseModelId = c₂.synapseModelId ∧ c₁.weight = c₂.weight ∧
              c₁.delay = c₂.delay ∧ c₁.params = c₂.params) calls₁ calls₂ :=
  ⟨_, _, rfl, rfl, @allParametersScalar_same_values Unit oneModel 2 ⟨none, none, none⟩ [scalarWeightSpec]
    true true _ _ rfl rfl 0 1 (by decide) (by decide) [.connect 1 5 0] [.skip 3, .connect 5 1 1] () ()⟩

/-! ## The resets before the replay of `make_symmetric` -/

/-- `reset_weights_()`: every weight object that exists is reset. -/
def resetWeights (syns : List (SynapseParams σ)) : Option (List (SynapseParams σ)) :=
  syns.mapM fun syn =>
    match syn.weight with
    | none => some syn
    | some w => w.reset.map fun w => { syn with weight := some w }

/-- `reset_delays_()`: every delay is reset. -/
def resetDelays (syns : List (SynapseParams σ)) : Option (List (SynapseParams σ)) :=
  syns.mapM fun syn => syn.delay.reset.map fun d => { syn with delay := d }

/-- The loop of `ConnBuilder::connect` that resets every synapse parameter. -/
def resetSynapseParams (syns : List (SynapseParams σ)) : Option (List (SynapseParams σ)) :=
  syns.mapM fun syn =>
    (syn.params.mapM fun q : String × ConnParameter σ => q.2.reset.map (q.1, ·)).map
      fun params => { syn with params := params }

/-- What `ConnBuilder::connect` does to the parameters before the replay with
`make_symmetric`, and its constructor once to check them: `reset_weights_()`,
`reset_delays_()`, then every synapse parameter. `none` where a `reset()`
throws. -/
def resetParameters (st : ParamState σ) : Option (ParamState σ) := do
  let syns ← resetWeights st.synapses
  let syns ← resetDelays syns
  let syns ← resetSynapseParams syns
  pure { st with synapses := syns }

theorem mapM_eq_some_map {α β : Type} {f : α → Option β} {g : α → β} :
    ∀ {l : List α}, (∀ a ∈ l, f a = some (g a)) → l.mapM f = some (l.map g)
  | [], _ => rfl
  | a :: l, h => by
    rw [List.mapM_cons, h a (List.mem_cons_self _ _),
      mapM_eq_some_map fun b hb => h b (List.mem_cons_of_mem _ hb)]
    rfl

theorem isSome_of_mapM {α β : Type} {f : α → Option β} :
    ∀ {l : List α}, (l.mapM f).isSome = true → ∀ a ∈ l, (f a).isSome = true
  | [], _, _, ha => by cases ha
  | a :: l, h, b, hb => by
    rw [List.mapM_cons] at h
    cases hfa : f a with
    | none => rw [hfa] at h; simp at h
    | some x =>
      cases hl : l.mapM f with
      | none => rw [hfa, hl] at h; simp at h
      | some xs =>
        rcases List.mem_cons.mp hb with rfl | hb
        · rw [hfa]; rfl
        · exact isSome_of_mapM (by rw [hl]; rfl) b hb

theorem resetWeights_eq {syns : List (SynapseParams σ)}
    (h : ∀ syn ∈ syns, ∀ p ∈ syn.weight, p.reset.isSome = true) :
    resetWeights syns = some (syns.map fun syn => { syn with weight := syn.weight.map ConnParameter.rewind }) :=
  mapM_eq_some_map fun syn hsyn => by
    rcases syn with ⟨_, _, _, _, _ | w, _, _, _⟩
    · rfl
    · simp [ConnParameter.reset_eq (h _ hsyn w rfl)]

theorem weights_resettable {syns syns' : List (SynapseParams σ)} (h : resetWeights syns = some syns') :
    ∀ syn ∈ syns, ∀ p ∈ syn.weight, p.reset.isSome = true := fun syn hsyn p hp => by
  have hs := isSome_of_mapM (by rw [resetWeights] at h; rw [h]; rfl) syn hsyn
  rw [show syn.weight = some p from hp] at hs
  simpa using hs

theorem resetDelays_eq {syns : List (SynapseParams σ)} (h : ∀ syn ∈ syns, syn.delay.reset.isSome = true) :
    resetDelays syns = some (syns.map fun syn => { syn with delay := syn.delay.rewind }) :=
  mapM_eq_some_map fun syn hsyn => by simp [ConnParameter.reset_eq (h syn hsyn)]

theorem delays_resettable {syns syns' : List (SynapseParams σ)} (h : resetDelays syns = some syns') :
    ∀ syn ∈ syns, syn.delay.reset.isSome = true := fun syn hsyn => by
  have hs : (syn.delay.reset.map fun d => { syn with delay := d }).isSome = true :=
    isSome_of_mapM (f := fun syn => syn.delay.reset.map fun d => { syn with delay := d })
      (by rw [← resetDelays, h]; rfl) syn hsyn
  rwa [Option.isSome_map'] at hs

theorem resetSynapseParams_eq {syns : List (SynapseParams σ)}
    (h : ∀ syn ∈ syns, ∀ q ∈ syn.params, q.2.reset.isSome = true) :
    resetSynapseParams syns =
      some (syns.map fun syn => { syn with params := syn.params.map fun q => (q.1, q.2.rewind) }) :=
  mapM_eq_some_map fun syn hsyn => by
    rw [mapM_eq_some_map (g := fun q => (q.1, q.2.rewind)) fun q hq => by
      simp [ConnParameter.reset_eq (h syn hsyn q hq)]]
    rfl

theorem params_resettable {syns syns' : List (SynapseParams σ)} (h : resetSynapseParams syns = some syns') :
    ∀ syn ∈ syns, ∀ q ∈ syn.params, q.2.reset.isSome = true := fun syn hsyn q hq => by
  have hs := isSome_of_mapM (by rw [resetSynapseParams] at h; rw [h]; rfl) syn hsyn
  rw [Option.isSome_map'] at hs
  have hq' : (q.2.reset.map (q.1, ·)).isSome = true :=
    isSome_of_mapM (f := fun q : String × ConnParameter σ => q.2.reset.map (q.1, ·)) hs q hq
  rwa [Option.isSome_map'] at hq'

/-- Every parameter object of a spec can be reset. -/
def Resettable (syn : SynapseParams σ) : Prop :=
  (∀ p ∈ syn.weight, p.reset.isSome = true) ∧ syn.delay.reset.isSome = true ∧
    ∀ q ∈ syn.params, q.2.reset.isSome = true

/-- Whether a parameter can be reset depends only on what the loops cannot change. -/
theorem isSome_reset_of_rewind {p p' : ConnParameter σ} (h : p.reset.isSome = true)
    (hrw : p'.rewind = p.rewind) : p'.reset.isSome = true := by
  rwa [← ConnParameter.reset_rewind, hrw, ConnParameter.reset_rewind]

theorem Resettable.of_rewind {syn syn' : SynapseParams σ} (h : Resettable syn)
    (hrw : syn'.rewind = syn.rewind) : Resettable syn' := by
  have hw : syn'.weight.map ConnParameter.rewind = syn.weight.map ConnParameter.rewind :=
    congrArg SynapseParams.weight hrw
  have hp : syn'.params.map (fun q => (q.1, q.2.rewind)) = syn.params.map fun q => (q.1, q.2.rewind) :=
    congrArg SynapseParams.params hrw
  refine ⟨fun p hp' => ?_, isSome_reset_of_rewind h.2.1 (congrArg SynapseParams.delay hrw), fun q hq => ?_⟩
  · rw [show syn'.weight = some p from hp', Option.map_some'] at hw
    obtain ⟨q, hq, he⟩ := Option.map_eq_some'.mp hw.symm
    exact isSome_reset_of_rewind (h.1 q hq) he.symm
  · have hmem := List.mem_map_of_mem (fun q => (q.1, q.2.rewind)) hq
    rw [hp] at hmem
    obtain ⟨q₀, hq₀, he⟩ := List.mem_map.mp hmem
    exact isSome_reset_of_rewind (h.2.2 q₀ hq₀) (Prod.mk.inj he).2.symm

theorem Resettable.reset_isSome {syn : SynapseParams σ} (h : Resettable syn) {m : Member}
    {p : ConnParameter σ} (hp : syn.get m = some p) : p.reset.isSome = true := by
  cases m with
  | weight => exact h.1 p hp
  | delay => exact (Option.some.inj hp) ▸ h.2.1
  | param name => exact h.2.2 (name, p) (mem_of_lookup_eq_some hp)

/-- The resets return exactly when every parameter can be reset, and then
every cursor is back at the start. -/
theorem resetParameters_eq {st : ParamState σ} (h : ∀ syn ∈ st.synapses, Resettable syn) :
    resetParameters st = some st.restart := by
  simp only [resetParameters, resetWeights_eq fun syn hsyn => (h syn hsyn).1, Option.bind_eq_bind,
    Option.some_bind]
  rw [resetDelays_eq fun syn hsyn => by
    obtain ⟨syn₀, hsyn₀, rfl⟩ := List.mem_map.mp hsyn
    exact (h syn₀ hsyn₀).2.1]
  rw [Option.some_bind, resetSynapseParams_eq fun syn hsyn q hq => by
    obtain ⟨syn₁, hsyn₁, rfl⟩ := List.mem_map.mp hsyn
    obtain ⟨syn₀, hsyn₀, rfl⟩ := List.mem_map.mp hsyn₁
    exact (h syn₀ hsyn₀).2.2 q hq]
  simp [ParamState.restart, SynapseParams.restart, Function.comp_def]

theorem resettable_of_resetParameters {st : ParamState σ} (h : (resetParameters st).isSome = true) :
    ∀ syn ∈ st.synapses, Resettable syn := by
  obtain ⟨r, hr⟩ := Option.isSome_iff_exists.mp h
  simp only [resetParameters, Option.bind_eq_bind, Option.bind_eq_some] at hr
  obtain ⟨syns₁, h₁, syns₂, h₂, syns₃, h₃, -⟩ := hr
  have hw := weights_resettable h₁
  rw [resetWeights_eq hw, Option.some.injEq] at h₁
  subst h₁
  have hd := delays_resettable h₂
  rw [resetDelays_eq hd, Option.some.injEq] at h₂
  subst h₂
  have hp := params_resettable h₃
  exact fun syn hsyn => ⟨hw syn hsyn, by simpa using hd _ (List.mem_map_of_mem _ hsyn),
    fun q hq => hp _ (List.mem_map_of_mem _ (List.mem_map_of_mem _ hsyn)) q hq⟩

/-! ## The replay of `make_symmetric` -/

/-- A thread's run keeps the state well formed and changes nothing the loops
cannot change. -/
theorem execCalls_wellFormed {numThreads tid : Nat} (htid : tid < numThreads) :
    ∀ (acts : List Action) {st st' : ParamState σ} {g g' : σ} {callss : List (List ConnectCall)},
      st.WellFormed numThreads → execCalls numThreads tid acts st g = some (st', g', callss) →
        st'.WellFormed numThreads ∧ st'.rewind = st.rewind
  | [], _, _, _, _, _, h, hrun => by cases hrun; exact ⟨h, rfl⟩
  | .skip n :: acts, st, _, _, _, _, h, hrun => by
    obtain ⟨hwf, hrw⟩ := execCalls_wellFormed htid acts (h.skipConnParameter tid n) hrun
    exact ⟨hwf, hrw.trans (ParamState.rewind_skipConnParameter st tid n)⟩
  | .connect s t _ :: acts, st, _, g, _, _, h, hrun => by
    obtain ⟨st₁, g₁, calls, hone, hwf₁, -, -⟩ := singleConnect_eq h htid s t g
    simp only [execCalls, hone] at hrun
    split at hrun
    · cases hrun
    · rename_i hrest
      cases hrun
      obtain ⟨hwf, hrw⟩ := execCalls_wellFormed htid acts hwf₁ hrest
      exact ⟨hwf, hrw.trans (singleConnect_reads h htid hone).1⟩
  | .disconnect _ _ _ :: acts, _, _, _, _, _, h, hrun => execCalls_wellFormed htid acts h hrun
  | .pre _ _ :: acts, _, _, _, _, _, h, hrun => execCalls_wellFormed htid acts h hrun
  | .post _ _ :: acts, _, _, _, _, _, h, hrun => execCalls_wellFormed htid acts h hrun

/-- One step of the threads of `connect_()` on the parameters, in any
interleaving: some thread `tid` runs the calls of some action list. -/
def RunStep (numThreads : Nat) (st st' : ParamState σ) : Prop :=
  ∃ tid < numThreads, ∃ (acts : List Action) (g g' : σ) (callss : List (List ConnectCall)),
    execCalls numThreads tid acts st g = some (st', g', callss)

/-- Every state the threads reach is well formed and differs from the start
only in cursors and scratch dictionaries. -/
theorem runs_wellFormed {numThreads : Nat} {st st' : ParamState σ} (h : st.WellFormed numThreads)
    (hruns : Relation.ReflTransGen (RunStep numThreads) st st') :
    st'.WellFormed numThreads ∧ st'.rewind = st.rewind := by
  induction hruns with
  | refl => exact ⟨h, rfl⟩
  | tail _ hstep ih =>
    obtain ⟨tid, htid, acts, g, g', callss, hexec⟩ := hstep
    obtain ⟨hwf, hrw⟩ := execCalls_wellFormed htid acts ih.1 hexec
    exact ⟨hwf, hrw.trans ih.2⟩

/-- After any steps of the threads from a state whose parameters can all be
reset, the resets return the state with every cursor back at the start, well
formed and with the specs of the start. -/
theorem reset_after_runs {numThreads : Nat} {st st' : ParamState σ} (h : st.WellFormed numThreads)
    (hcheck : (resetParameters st).isSome = true)
    (hruns : Relation.ReflTransGen (RunStep numThreads) st st') :
    resetParameters st' = some st'.restart ∧ st'.restart.WellFormed numThreads ∧
      st'.restart.rewind = st.rewind := by
  obtain ⟨hwf', hrw'⟩ := runs_wellFormed h hruns
  refine ⟨resetParameters_eq fun syn' hsyn' => ?_, hwf'.restart, (ParamState.rewind_restart st').trans hrw'⟩
  obtain ⟨k, hk⟩ := List.mem_iff_getElem?.mp hsyn'
  obtain ⟨syn, hk₀, he⟩ := ParamState.synapse_of_rewind hrw'.symm hk
  exact (resettable_of_resetParameters hcheck syn (List.getElem?_mem hk₀)).of_rewind he.symm

/-- **The replay of `make_symmetric` reads what the first pass read.** From a
builder the constructor returns whose parameters can all be reset (what it
checks under `make_symmetric`), after any steps of any threads in any
interleaving, the resets of `ConnBuilder::connect` return; along any run of
any thread `tid` from the state they leave, the parameter reads of every
`single_connect_` are defined, and the calls for the `i`-th edge read the constructed specs at the edge's
position, as on a run from the constructed builder. -/
theorem replay_values {mm : ModelManager σ} {numThreads : Nat} {spec : ConnSpec}
    {synSpecs : List (SynapseDict σ)} {sourcesValid targetsValid : Bool} {b : BaseBuilder}
    {st st' : ParamState σ}
    (h : connBuilderParams mm numThreads spec synSpecs sourcesValid targetsValid = some (.ok (b, st)))
    (hcheck : (resetParameters st).isSome = true)
    (hruns : Relation.ReflTransGen (RunStep numThreads) st st') :
    ∃ st₂, resetParameters st' = some st₂ ∧ ∀ tid < numThreads, ∀ (acts : List Action) (g : σ),
      ∃ st₃ g' callss, execCalls numThreads tid acts st₂ g = some (st₃, g', callss) ∧
        List.Forall₂ (EdgeCalls st.synapses tid) (Worker.init.exec acts).edges callss := by
  obtain ⟨-, hwf, -, -⟩ := connBuilderParams_eq_ok h
  obtain ⟨hreset, hwf', hrw'⟩ := reset_after_runs hwf hcheck hruns
  refine ⟨st'.restart, hreset, fun tid htid acts g => ?_⟩
  obtain ⟨st₃, g', callss, hrun, -, hcalls⟩ := execCalls_reads htid acts st'.restart g 0 hwf'
    (lockstep_of_atStart hwf' (ParamState.atStart_restart st') tid)
  refine ⟨st₃, g', callss, hrun, ?_⟩
  rw [Worker.exec_edges, Worker.init, List.nil_append]
  exact forall₂_imp_of_mem hcalls fun e _ calls hc => hc.of_rewind hrw'

theorem replay_values_after_one_edge :
    ∃ b st st', connBuilderParams oneModel 2 ⟨none, none, none⟩ [arrayWeightSpec] true true =
      some (.ok (b, st)) ∧ (resetParameters st).isSome = true ∧ Relation.ReflTransGen (RunStep 2) st st' ∧
      ∃ st₂, resetParameters st' = some st₂ ∧ ∀ tid < 2, ∀ (acts : List Action) (g : Unit),
        ∃ st₃ g' callss, execCalls 2 tid acts st₂ g = some (st₃, g', callss) ∧
          List.Forall₂ (EdgeCalls st.synapses tid) (Worker.init.exec acts).edges callss :=
  ⟨_, _, _, rfl, rfl, .single ⟨1, by decide, [.skip 1, .connect 0 5 1], (), (), _, rfl⟩,
    @replay_values Unit oneModel 2 ⟨none, none, none⟩ [arrayWeightSpec] true true _ _ _ rfl rfl
      (.single ⟨1, by decide, [.skip 1, .connect 0 5 1], (), (), _, rfl⟩)⟩

/-! ## `make_symmetric` for one-to-one -/

theorem exists_mem_zip_of_forall₂ {α β : Type*} {R : α → β → Prop} :
    ∀ {l₁ : List α} {l₂ : List β}, List.Forall₂ R l₁ l₂ → ∀ {a}, a ∈ l₁ → ∃ b, (a, b) ∈ l₁.zip l₂ ∧ R a b
  | _, _, .nil, _, ha => by cases ha
  | _, _, .cons hab h, _, ha => by
    rcases List.mem_cons.mp ha with rfl | ha
    · exact ⟨_, List.mem_cons_self _ _, hab⟩
    · obtain ⟨b, hb, hR⟩ := exists_mem_zip_of_forall₂ h ha
      exact ⟨b, List.mem_cons_of_mem _ hb, hR⟩

/-- **`make_symmetric` gives a one-to-one edge and its reverse the same
values.** From a builder the constructor returns whose parameters can all be
reset, the first pass of the target loop of `OneToOneBuilder::connect_` on
any VP `w`, run by any thread, hands the connection manager calls for each
edge `s → t` it creates. After any steps of the threads in any interleaving,
the resets of `ConnBuilder::connect` return, and the replay with `sources_`
and `targets_` swapped on the VP that owns `s`, run by any thread, creates
`t → s` at the same position. Its calls pass, for every synapse spec, the
endpoints swapped and the same synapse model, weight, delay and dictionary. -/
theorem symmetric_one_to_one_values {mm : ModelManager σ} {numThreads : Nat} {spec : ConnSpec}
    {synSpecs : List (SynapseDict σ)} {sourcesValid targetsValid : Bool} {b : BaseBuilder}
    {st st' : ParamState σ}
    (h : connBuilderParams mm numThreads spec synSpecs sourcesValid targetsValid = some (.ok (b, st)))
    (hcheck : (resetParameters st).isSome = true)
    (hruns : Relation.ReflTransGen (RunStep numThreads) st st')
    (d : Decomposition) (allowAutapses : Bool) (sources targets : List Nat) {tid tid' : Nat}
    (htid : tid < numThreads) (htid' : tid' < numThreads) (w : Nat) (g g' : σ) :
    ∃ st₂, resetParameters st' = some st₂ ∧ ∃ r₁,
      execCalls numThreads tid (OneToOne.connect d allowAutapses true sources targets w) st g = some r₁ ∧
      ∀ e calls₁, (e, calls₁) ∈
          (Worker.init.exec (OneToOne.connect d allowAutapses true sources targets w)).edges.zip r₁.2.2 →
        ∃ r₂, execCalls numThreads tid' (OneToOne.connect d allowAutapses true targets sources (d.owner e.src))
            st₂ g' = some r₂ ∧
          ∃ calls₂, (⟨e.tgt, e.src, d.owner e.src, e.pos⟩, calls₂) ∈
              (Worker.init.exec (OneToOne.connect d allowAutapses true targets sources (d.owner e.src))).edges.zip
                r₂.2.2 ∧
            List.Forall₂ (fun c₁ c₂ => c₂.source = c₁.target ∧ c₂.target = c₁.source ∧
              c₁.synapseModelId = c₂.synapseModelId ∧ c₁.weight = c₂.weight ∧ c₁.delay = c₂.delay ∧
              c₁.params = c₂.params) calls₁ calls₂ := by
  obtain ⟨-, hwf, h₀, -⟩ := connBuilderParams_eq_ok h
  obtain ⟨hreset, hwf', hrw'⟩ := reset_after_runs hwf hcheck hruns
  obtain ⟨st₁, g₁, callss₁, hrun₁, -, hc₁⟩ := execCalls_reads htid
    (OneToOne.connect d allowAutapses true sources targets w) st g 0 hwf (lockstep_of_atStart hwf h₀ tid)
  refine ⟨st'.restart, hreset, (st₁, g₁, callss₁), hrun₁, fun e calls₁ hm => ?_⟩
  simp only [Worker.exec_edges, Worker.init, List.nil_append] at hm ⊢
  -- the replay on the VP owning `s` creates `t → s` at the same position
  have hrev := OneToOne.reverse_mem_emitted d allowAutapses sources targets w (List.of_mem_zip hm).1
  obtain ⟨st₃, g₃, callss₂, hrun₂, -, hc₂⟩ := execCalls_reads htid'
    (OneToOne.connect d allowAutapses true targets sources (d.owner e.src)) st'.restart g' 0 hwf'
    (lockstep_of_atStart hwf' (ParamState.atStart_restart st') tid')
  obtain ⟨calls₂, hm₂, he₂⟩ := exists_mem_zip_of_forall₂ hc₂ hrev
  refine ⟨(st₃, g₃, callss₂), hrun₂, calls₂, hm₂, ?_⟩
  -- both read every spec at that position, where no parameter draws
  exact forall₂_of_common (List.forall₂_zip hc₁ hm) (he₂.of_rewind hrw') fun syn hsyn c₁ c₂ r₁ r₂ =>
    ⟨r₂.1.trans r₁.2.1.symm, r₂.2.1.trans r₁.1.symm,
      r₁.2.2.2.same (synapse_wellFormed hwf hsyn).toDefaultsOk (synapse_wellFormed hwf hsyn).ready.keys_nodup
        (fun _ _ hp => ⟨ConnParameter.doubleAt_isSome_of_reset
          ((resettable_of_resetParameters hcheck syn hsyn).reset_isSome hp) _,
          ConnParameter.datumAt_isSome_of_reset
          ((resettable_of_resetParameters hcheck syn hsyn).reset_isSome hp) _⟩) r₂.2.2.2⟩

theorem symmetric_one_to_one_values_two_vps :
    ∃ b st, connBuilderParams oneModel 2 ⟨none, none, none⟩ [arrayWeightSpec] true true =
      some (.ok (b, st)) ∧ (resetParameters st).isSome = true ∧
      ∃ st₂, resetParameters st = some st₂ ∧ ∃ r₁,
        execCalls 2 0 (OneToOne.connect (.roundRobin 1 2 4 (by decide)) false true [1, 2] [2, 3] 0) st () =
          some r₁ ∧
        ∀ e calls₁, (e, calls₁) ∈ (Worker.init.exec
            (OneToOne.connect (.roundRobin 1 2 4 (by decide)) false true [1, 2] [2, 3] 0)).edges.zip r₁.2.2 →
          ∃ r₂, execCalls 2 1 (OneToOne.connect (.roundRobin 1 2 4 (by decide)) false true [2, 3] [1, 2]
              ((Decomposition.roundRobin 1 2 4 (by decide)).owner e.src)) st₂ () = some r₂ ∧
            ∃ calls₂, (⟨e.tgt, e.src, (Decomposition.roundRobin 1 2 4 (by decide)).owner e.src, e.pos⟩, calls₂) ∈
                (Worker.init.exec (OneToOne.connect (.roundRobin 1 2 4 (by decide)) false true [2, 3] [1, 2]
                  ((Decomposition.roundRobin 1 2 4 (by decide)).owner e.src))).edges.zip r₂.2.2 ∧
              List.Forall₂ (fun c₁ c₂ => c₂.source = c₁.target ∧ c₂.target = c₁.source ∧
                c₁.synapseModelId = c₂.synapseModelId ∧ c₁.weight = c₂.weight ∧ c₁.delay = c₂.delay ∧
                c₁.params = c₂.params) calls₁ calls₂ :=
  ⟨_, _, rfl, rfl, @symmetric_one_to_one_values Unit oneModel 2 ⟨none, none, none⟩ [arrayWeightSpec] true true
    _ _ _ rfl rfl .refl (.roundRobin 1 2 4 (by decide)) false [1, 2] [2, 3] 0 1 (by decide) (by decide) 0 () ()⟩

end NestConnBuilder.Values
