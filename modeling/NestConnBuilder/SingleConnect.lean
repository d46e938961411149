import NestConnBuilder.SynapseSpecs
import NestConnBuilder.Worker

/-!
# `single_connect_` moves the registered cursors as `skip_conn_parameter_` does

For each synapse spec `k`, `ConnBuilder::single_connect_( s, target, thr, rng )`
calls `update_param_dict_`, which reads every synapse parameter once, and then
takes one of four paths: with both weight and delay defaults it passes neither,
with a default weight it reads the delay, with a default delay it reads the
weight, and otherwise it reads the delay and then the weight. The builder's
other loops call `skip_conn_parameter_( thr, n )` where they would have made `n`
connections on another thread. Both must move every registered array cursor of
the thread by the same amount, or the arrays fall out of step with the pairs.

The throw of `single_connect_` for a target without proxies, and a refusal by
the connection manager, belong to `Storage`; `singleConnect` models a call that
does not throw, and records the calls it hands to the connection manager. Its
`none` is undefined behaviour, and a call "returns" below when its parameter
reads are defined.

## Main results

* `connectSynapse_eq` — one iteration of the loop, on a well-formed state and a
  thread of the kernel, returns, keeps the invariant and moves every parameter
  of spec `k` one step on thread `thr`; a default it does not read is a number,
  which has no cursor.
* `singleConnect_skips` — for every builder the constructor returns, every
  thread and every combination of default weight and delay, `single_connect_`
  returns and leaves every parameter as `skip_conn_parameter_( thr, 1 )` does.
* `exec_lockstep` — along any run of a thread's loop, all registered arrays of
  the thread stand at the position `Worker.exec` keeps as its one cursor.
-/

namespace NestConnBuilder.SingleConnect

open Construction Parameters SynapseSpecs

variable {σ : Type}

/-- A call `kernel().connection_manager.connect( s, target, thr, id, dict, … )`:
`none` for a delay or a weight that is not passed, or is passed as
`numerics::nan`, so that the synapse model's default applies. -/
structure ConnectCall where
  source : Nat
  target : Nat
  thread : Nat
  synapseModelId : Nat
  params : Dict
  delay : Option ℚ
  weight : Option ℚ

/-- One iteration of the loop of `single_connect_( s, target, thr, rng )`, for
synapse spec `k`, with `numThreads` threads in the kernel. `none` where the code
is undefined: an index out of range, a failed `assert` or cast, or a null
`weights_[ k ]`. -/
def connectSynapse (numThreads s t thr k : Nat) (st : ParamState σ) (g : σ) :
    Option (ParamState σ × σ × ConnectCall) :=
  match updateParamDict numThreads st k thr g with
  | none => none
  | some (st, g) =>
    match st.synapses[k]? with
    | none => none
    | some syn =>
      match syn.paramDicts[thr]? with
      | none => none
      | some dict =>
        let call := ConnectCall.mk s t thr syn.synapseModelId dict
        if syn.defaultWeightAndDelay then some (st, g, call none none)
        else if syn.defaultWeight then
          let delay := syn.delay.valueDouble thr g
          some (st.modify ⟨k, .delay⟩ (·.skip thr 1), delay.2, call (some delay.1) none)
        else if syn.defaultDelay then
          match syn.weight with
          | none => none
          | some w =>
            let weight := w.valueDouble thr g
            some (st.modify ⟨k, .weight⟩ (·.skip thr 1), weight.2, call none (some weight.1))
        else
          let delay := syn.delay.valueDouble thr g
          match syn.weight with
          | none => none
          | some w =>
            let weight := w.valueDouble thr delay.2
            some ((st.modify ⟨k, .delay⟩ (·.skip thr 1)).modify ⟨k, .weight⟩ (·.skip thr 1), weight.2,
              call (some delay.1) (some weight.1))

/-- The loop of `single_connect_` over the synapse-spec indices `ks`. -/
def connectSynapses (numThreads s t thr : Nat) :
    List Nat → ParamState σ → σ → Option (ParamState σ × σ × List ConnectCall)
  | [], st, g => some (st, g, [])
  | k :: ks, st, g =>
    match connectSynapse numThreads s t thr k st g with
    | none => none
    | some (st, g, call) =>
      match connectSynapses numThreads s t thr ks st g with
      | none => none
      | some (st, g, calls) => some (st, g, call :: calls)

/-- `ConnBuilder::single_connect_( s, target, thr, rng )` when it does not
throw: the parameter state and stream it leaves, and the calls it makes. -/
def singleConnect (numThreads : Nat) (st : ParamState σ) (s t thr : Nat) (g : σ) :
    Option (ParamState σ × σ × List ConnectCall) :=
  connectSynapses numThreads s t thr (List.range st.synapses.length) st g

/-! ## One iteration of the loop -/

theorem map_skip_of_not_requiresSkipping {o : Option (ConnParameter σ)}
    (h : ∀ p ∈ o, p.requiresSkipping = false) (thr n : Nat) : o.map (·.skip thr n) = o := by
  cases o with
  | none => rfl
  | some p => simp [ConnParameter.skip_of_not_requiresSkipping (h p rfl)]

/-- A change to spec `k` that moves each of its parameters one step on thread
`thr` moves exactly the parameters of spec `k`. -/
theorem get_updateSynapse_of_step {st : ParamState σ} {k : Nat} {syn : SynapseParams σ}
    (hsyn : st.synapses[k]? = some syn) {f : SynapseParams σ → SynapseParams σ} {thr : Nat}
    (hf : ∀ m, (f syn).get m = (syn.get m).map (·.skip thr 1)) (sl : Slot) :
    (st.updateSynapse k f).get sl = (st.get sl).map (·.skip thr (if sl.index = k then 1 else 0)) := by
  rw [ParamState.get_updateSynapse]
  by_cases hk : k = sl.index
  · subst hk
    simp [hsyn, hf, ParamState.get]
  · simp [hk, Ne.symm hk]

/-- One iteration of the loop of `single_connect_` on a well-formed state and a
thread of the kernel returns, keeps the invariant, and moves every parameter of
spec `k` one step on thread `thr` and no other: what a path does not read is a
default, a number, whose step changes nothing. -/
theorem connectSynapse_eq {numThreads : Nat} {st : ParamState σ} (h : st.WellFormed numThreads)
    {k : Nat} (hk : k < st.synapses.length) {thr : Nat} (hthr : thr < numThreads) (s t : Nat) (g : σ) :
    ∃ st' g' call, connectSynapse numThreads s t thr k st g = some (st', g', call) ∧
      st'.WellFormed numThreads ∧ st'.synapses.length = st.synapses.length ∧ st'.skipping = st.skipping ∧
      ∀ sl, st'.get sl = (st.get sl).map (·.skip thr (if sl.index = k then 1 else 0)) := by
  have hsyn : st.synapses[k]? = some st.synapses[k] := List.getElem?_eq_getElem hk
  generalize st.synapses[k] = syn at hsyn
  have hwf := h.synapses k syn hsyn
  obtain ⟨dict, g₁, hupd, hm⟩ := updateParamDict_eq hsyn hwf.ready hthr g
  have hsyn₁ : (st.updateSynapse k (·.fill thr dict)).synapses[k]? = some (syn.fill thr dict) := by
    simp [ParamState.getElem?_updateSynapse, hsyn]
  have hdict : (syn.fill thr dict).paramDicts[thr]? = some dict := by
    simp [SynapseParams.fill, List.getElem?_set, hwf.ready.length, hthr]
  have hwf₁ := h.fill hsyn hm thr
  obtain ⟨hdwad, hwsome, hwdef, hddef⟩ := hwf.toDefaultsOk
  simp only [connectSynapse, hupd, hsyn₁, hdict]
  cases hw : syn.defaultWeight <;> cases hd : syn.defaultDelay <;>
    simp only [hw, hd, Bool.and_self, Bool.and_false, Bool.and_true, Bool.false_and] at hdwad
  · -- the spec gives both: the delay is read, then the weight
    obtain ⟨w, hw'⟩ := Option.isSome_iff_exists.mp (hwsome hdwad)
    simp only [SynapseParams.fill_defaultWeightAndDelay, SynapseParams.fill_defaultWeight,
      SynapseParams.fill_defaultDelay, SynapseParams.fill_weight, SynapseParams.fill_delay,
      SynapseParams.fill_synapseModelId, hdwad, hw, hd, hw', Bool.false_eq_true, if_false]
    refine ⟨_, _, _, rfl, (hwf₁.modify_skip _ thr 1).modify_skip _ thr 1, by simp, rfl, ?_⟩
    rw [ParamState.modify_updateSynapse, ParamState.modify_updateSynapse]
    exact get_updateSynapse_of_step hsyn fun m => by
      simp only [Function.comp_apply, SynapseParams.get_modify, SynapseParams.get_fill]
      cases m <;> simp [hw']
  · -- the delay is the default: only the weight is read
    obtain ⟨w, hw'⟩ := Option.isSome_iff_exists.mp (hwsome hdwad)
    simp only [SynapseParams.fill_defaultWeightAndDelay, SynapseParams.fill_defaultWeight,
      SynapseParams.fill_defaultDelay, SynapseParams.fill_weight, SynapseParams.fill_synapseModelId,
      hdwad, hw, hd, hw', Bool.false_eq_true, if_false, if_true]
    refine ⟨_, _, _, rfl, hwf₁.modify_skip _ thr 1, by simp, rfl, ?_⟩
    rw [ParamState.modify_updateSynapse]
    exact get_updateSynapse_of_step hsyn fun m => by
      simp only [Function.comp_apply, SynapseParams.get_modify, SynapseParams.get_fill]
      cases m <;> simp [hw', ConnParameter.skip_of_not_requiresSkipping (hddef hd)]
  · -- the weight is the default: only the delay is read
    simp only [SynapseParams.fill_defaultWeightAndDelay, SynapseParams.fill_defaultWeight,
      SynapseParams.fill_delay, SynapseParams.fill_synapseModelId, hdwad, hw, Bool.false_eq_true,
      if_false, if_true]
    refine ⟨_, _, _, rfl, hwf₁.modify_skip _ thr 1, by simp, rfl, ?_⟩
    rw [ParamState.modify_updateSynapse]
    exact get_updateSynapse_of_step hsyn fun m => by
      simp only [Function.comp_apply, SynapseParams.get_modify, SynapseParams.get_fill]
      cases m <;> simp [map_skip_of_not_requiresSkipping (hwdef hw)]
  · -- both are defaults: neither is read
    simp only [SynapseParams.fill_defaultWeightAndDelay, SynapseParams.fill_synapseModelId, hdwad, if_true]
    refine ⟨_, _, _, rfl, hwf₁, by simp, rfl, ?_⟩
    exact get_updateSynapse_of_step hsyn fun m => by
      cases m <;> simp [map_skip_of_not_requiresSkipping (hwdef hw),
        ConnParameter.skip_of_not_requiresSkipping (hddef hd)]

/-! ## The whole call -/

/-- The loop over distinct synapse specs `ks` of the builder returns, keeps the
invariant and moves every parameter of those specs one step on thread `thr`. -/
theorem connectSynapses_eq {numThreads : Nat} {thr : Nat} (hthr : thr < numThreads) (s t : Nat)
    (ks : List Nat) : ∀ {st : ParamState σ} (g : σ), st.WellFormed numThreads →
      (∀ k ∈ ks, k < st.synapses.length) → ks.Nodup →
      ∃ st' g' calls, connectSynapses numThreads s t thr ks st g = some (st', g', calls) ∧
        st'.WellFormed numThreads ∧ st'.synapses.length = st.synapses.length ∧ st'.skipping = st.skipping ∧
        ∀ sl, st'.get sl = (st.get sl).map (·.skip thr (if sl.index ∈ ks then 1 else 0)) := by
  induction ks with
  | nil =>
    intro st g h _ _
    exact ⟨st, g, [], rfl, h, rfl, rfl, fun sl => by cases st.get sl <;> simp⟩
  | cons k ks ih =>
    intro st g h hks hnd
    obtain ⟨st₁, g₁, call, hone, hwf₁, hlen₁, hsk₁, hget₁⟩ :=
      connectSynapse_eq h (hks k (List.mem_cons_self _ _)) hthr s t g
    obtain ⟨st', g', calls, hrest, hwf', hlen', hsk', hget'⟩ := ih g₁ hwf₁
      (fun k' hk' => hlen₁ ▸ hks k' (List.mem_cons_of_mem _ hk')) (List.nodup_cons.mp hnd).2
    refine ⟨st', g', call :: calls, by simp [connectSynapses, hone, hrest], hwf', hlen'.trans hlen₁,
      hsk'.trans hsk₁, fun sl => ?_⟩
    rw [hget', hget₁]
    cases st.get sl with
    | none => rfl
    | some p =>
      -- the specs are distinct, so no parameter moves twice
      have hsum : (if sl.index = k then 1 else 0) + (if sl.index ∈ ks then 1 else 0) =
          if sl.index ∈ k :: ks then 1 else 0 := by
        by_cases hk : sl.index = k
        · simp [hk, (List.nodup_cons.mp hnd).1]
        · simp [hk]
      simp only [Option.map_some', ConnParameter.skip_skip, hsum]

/-- On a well-formed state and a thread of the kernel, `single_connect_`
returns, keeps the invariant and moves every parameter of every synapse spec
one step on thread `thr`. -/
theorem singleConnect_eq {numThreads : Nat} {st : ParamState σ} (h : st.WellFormed numThreads)
    {thr : Nat} (hthr : thr < numThreads) (s t : Nat) (g : σ) :
    ∃ st' g' calls, singleConnect numThreads st s t thr g = some (st', g', calls) ∧
      st'.WellFormed numThreads ∧ st'.skipping = st.skipping ∧
      ∀ sl, st'.get sl = (st.get sl).map (·.skip thr 1) := by
  obtain ⟨st', g', calls, hrun, hwf, -, hsk, hget⟩ := connectSynapses_eq hthr s t
    (List.range st.synapses.length) g h (fun _ hk => List.mem_range.mp hk) (List.nodup_range _)
  refine ⟨st', g', calls, hrun, hwf, hsk, fun sl => ?_⟩
  rw [hget]
  by_cases hl : sl.index < st.synapses.length
  · simp [hl]
  · -- past the last spec there is no parameter
    have : st.get sl = none := by simp [ParamState.get, List.getElem?_eq_none (Nat.le_of_not_lt hl)]
    simp [this]

/-- On a well-formed state `skip_conn_parameter_( thr, n )` moves every
parameter `n` steps on thread `thr`: the arrays are registered once, and the
other parameters have no cursor. -/
theorem get_skipConnParameter_of_wellFormed {numThreads : Nat} {st : ParamState σ}
    (h : st.WellFormed numThreads) (thr n : Nat) (sl : Slot) :
    (st.skipConnParameter thr n).get sl = (st.get sl).map (·.skip thr n) := by
  rw [ParamState.get_skipConnParameter, h.registered sl]
  cases hp : st.get sl with
  | none => rfl
  | some p =>
    cases hr : p.requiresSkipping
    · simp [ConnParameter.skip_of_not_requiresSkipping hr]
    · simp [hr]

/-- A registered slot of a well-formed state holds an array. -/
theorem requiresSkipping_of_mem_skipping {numThreads : Nat} {st : ParamState σ}
    (h : st.WellFormed numThreads) {sl : Slot} (hsl : sl ∈ st.skipping) :
    ∃ p, st.get sl = some p ∧ p.requiresSkipping = true := by
  have hpos := List.count_pos_iff.mpr hsl
  rw [h.registered sl] at hpos
  cases hp : st.get sl with
  | none => simp [hp] at hpos
  | some p =>
    refine ⟨p, rfl, ?_⟩
    by_contra hr
    simp [hp, hr] at hpos

/-- For every builder the constructor returns, every thread of the kernel and
every combination of default and given weight and delay, `single_connect_`
returns and leaves every parameter as `skip_conn_parameter_( thr, 1 )` would:
each registered array's cursor of thread `thr` moves exactly one on, and
nothing else changes. -/
theorem singleConnect_skips {mm : ModelManager σ} {numThreads : Nat} {spec : ConnSpec}
    {synSpecs : List (SynapseDict σ)} {sourcesValid targetsValid : Bool} {b : BaseBuilder}
    {st : ParamState σ}
    (h : connBuilderParams mm numThreads spec synSpecs sourcesValid targetsValid = some (.ok (b, st)))
    {thr : Nat} (hthr : thr < numThreads) (s t : Nat) (g : σ) :
    ∃ st' g' calls, singleConnect numThreads st s t thr g = some (st', g', calls) ∧
      (∀ sl, st'.get sl = (st.skipConnParameter thr 1).get sl) ∧
      ∀ sl ∈ st.skipping, ∃ p p', st.get sl = some p ∧ st'.get sl = some p' ∧ p'.source = p.source ∧
        ∀ i, p'.next i = if i = thr then p.next thr + 1 else p.next i := by
  have hwf := (connBuilderParams_eq_ok h).2.1
  obtain ⟨st', g', calls, hrun, -, -, hget⟩ := singleConnect_eq hwf hthr s t g
  refine ⟨st', g', calls, hrun, fun sl => by rw [hget, get_skipConnParameter_of_wellFormed hwf],
    fun sl hsl => ?_⟩
  obtain ⟨p, hp, hr⟩ := requiresSkipping_of_mem_skipping hwf hsl
  exact ⟨p, p.skip thr 1, hp, by rw [hget, hp]; rfl, by simp, ConnParameter.next_skip hr thr 1⟩

theorem singleConnect_skips_two_threads :
    ∃ b st, connBuilderParams oneModel 2 ⟨none, none, none⟩ [arrayWeightSpec] true true =
      some (.ok (b, st)) ∧ ∃ st' g' calls, singleConnect 2 st 0 5 1 () = some (st', g', calls) ∧
        ∀ sl, st'.get sl = (st.skipConnParameter 1 1).get sl :=
  ⟨_, _, rfl,
    let ⟨st', g', calls, hrun, hget, _⟩ := @singleConnect_skips Unit oneModel 2 ⟨none, none, none⟩
      [arrayWeightSpec] true true _ _ rfl 1 (by decide) 0 5 ()
    ⟨st', g', calls, hrun, hget⟩⟩

/-! ## One cursor per thread -/

/-- The cursor of thread `w` of every registered array stands at `c`. -/
def Lockstep (st : ParamState σ) (w c : Nat) : Prop :=
  ∀ sl ∈ st.skipping, ∃ p, st.get sl = some p ∧ p.next w = c

/-- A thread's calls on the builder's parameters, on thread `w`:
`skip_conn_parameter_( w, n )` and `single_connect_`; the other actions do not
touch them. `none` where a `single_connect_` is undefined. -/
def execParams (numThreads w : Nat) : List Action → ParamState σ → σ → Option (ParamState σ × σ)
  | [], st, g => some (st, g)
  | .skip n :: acts, st, g => execParams numThreads w acts (st.skipConnParameter w n) g
  | .connect s t thr :: acts, st, g =>
    match singleConnect numThreads st s t thr g with
    | none => none
    | some (st, g, _) => execParams numThreads w acts st g
  | _ :: acts, st, g => execParams numThreads w acts st g

section Lockstep

variable {numThreads w : Nat} {st : ParamState σ}

theorem lockstep_of_atStart (h : st.WellFormed numThreads) (h₀ : st.AtStart) (w : Nat) :
    Lockstep st w 0 := fun sl hsl => by
  obtain ⟨p, hp, -⟩ := requiresSkipping_of_mem_skipping h hsl
  exact ⟨p, hp, by rw [h₀ sl p hp]⟩

/-- A step of every parameter on thread `w` moves the common position. -/
theorem lockstep_of_get {st' : ParamState σ} (h : st.WellFormed numThreads) {c : Nat}
    (hl : Lockstep st w c) (hsk : st'.skipping = st.skipping) {n : Nat}
    (hget : ∀ sl, st'.get sl = (st.get sl).map (·.skip w n)) : Lockstep st' w (c + n) := by
  intro sl hsl
  rw [hsk] at hsl
  obtain ⟨p, hp, hr⟩ := requiresSkipping_of_mem_skipping h hsl
  obtain ⟨p', hp', hc⟩ := hl sl hsl
  obtain rfl : p = p' := Option.some.inj (hp.symm.trans hp')
  exact ⟨p.skip w n, by rw [hget, hp]; rfl, by simp [ConnParameter.next_skip hr, hc]⟩

/-- Along a run of a thread's calls, all registered arrays of the thread stay
at one position, which moves by the calls' `Action.advance`. -/
theorem execParams_lockstep (hw : w < numThreads) (acts : List Action) :
    ∀ (st : ParamState σ) (g : σ) (c : Nat), st.WellFormed numThreads → Lockstep st w c →
      (∀ a ∈ acts, ∀ s t thr, a = .connect s t thr → thr = w) →
      ∃ st' g', execParams numThreads w acts st g = some (st', g') ∧ st'.WellFormed numThreads ∧
        Lockstep st' w (c + advance acts) := by
  induction acts with
  | nil => exact fun st g c h hl _ => ⟨st, g, rfl, h, hl⟩
  | cons a acts ih =>
    intro st g c h hl hacts
    have hrest : ∀ a ∈ acts, ∀ s t thr, a = .connect s t thr → thr = w :=
      fun a ha => hacts a (List.mem_cons_of_mem _ ha)
    have hadv : c + advance (a :: acts) = c + a.advance + advance acts := by
      simp [advance, Nat.add_assoc]
    rw [hadv]
    cases a with
    | skip n =>
      exact ih _ g _ (h.skipConnParameter w n)
        (lockstep_of_get h hl (by simp) (get_skipConnParameter_of_wellFormed h w n)) hrest
    | connect s t thr =>
      obtain rfl := hacts _ (List.mem_cons_self _ _) s t thr rfl
      obtain ⟨st₁, g₁, calls, hrun, hwf₁, hsk₁, hget₁⟩ := singleConnect_eq h hw s t g
      obtain ⟨st', g', hexec, hwf', hl'⟩ := ih st₁ g₁ _ hwf₁ (lockstep_of_get h hl hsk₁ hget₁) hrest
      exact ⟨st', g', by simp [execParams, hrun, hexec], hwf', hl'⟩
    | disconnect => exact ih st g _ h (by simpa [Action.advance] using hl) hrest
    | pre => exact ih st g _ h (by simpa [Action.advance] using hl) hrest
    | post => exact ih st g _ h (by simpa [Action.advance] using hl) hrest

end Lockstep

/-- From a builder the constructor returns, along any run of a thread's calls
in which the thread connects on itself, every registered array's cursor of the
thread stands where `Worker.exec` keeps the thread's one cursor. -/
theorem exec_lockstep {mm : ModelManager σ} {numThreads : Nat} {spec : ConnSpec}
    {synSpecs : List (SynapseDict σ)} {sourcesValid targetsValid : Bool} {b : BaseBuilder}
    {st : ParamState σ}
    (h : connBuilderParams mm numThreads spec synSpecs sourcesValid targetsValid = some (.ok (b, st)))
    {w : Nat} (hw : w < numThreads) (acts : List Action)
    (hacts : ∀ a ∈ acts, ∀ s t thr, a = .connect s t thr → thr = w) (g : σ) :
    ∃ st' g', execParams numThreads w acts st g = some (st', g') ∧
      Lockstep st' w (Worker.init.exec acts).cursor := by
  obtain ⟨-, hwf, h₀, -⟩ := connBuilderParams_eq_ok h
  obtain ⟨st', g', hrun, -, hl⟩ := execParams_lockstep hw acts st g 0 hwf (lockstep_of_atStart hwf h₀ w) hacts
  exact ⟨st', g', hrun, by rw [Worker.exec_cursor]; exact hl⟩

theorem exec_lockstep_skip_then_connect :
    ∃ b st, connBuilderParams oneModel 2 ⟨none, none, none⟩ [arrayWeightSpec] true true =
      some (.ok (b, st)) ∧ ∃ st' g', execParams 2 1 [.skip 1, .connect 0 5 1] st () = some (st', g') ∧
        Lockstep st' 1 2 :=
  ⟨_, _, rfl,
    @exec_lockstep Unit oneModel 2 ⟨none, none, none⟩ [arrayWeightSpec] true true _ _ rfl 1 (by decide)
      [.skip 1, .connect 0 5 1] (by simp) ()⟩

end NestConnBuilder.SingleConnect
