import NestConnBuilder.Parameters

/-!
# The synapse loop of `ConnBuilder::ConnBuilder`

For each synapse spec `k` the constructor resolves the synapse model
(`set_synapse_model_`), records whether the spec gives a weight and a delay and
creates `weights_[ k ]` and `delays_[ k ]` from the spec or from the model's
defaults (`set_default_weight_or_delay_`), creates a parameter for every other
key of the model's defaults that the spec gives, and allocates one scratch
dictionary per thread holding a zero of each parameter's kind
(`set_synapse_params`). Each created parameter goes through
`register_parameters_requiring_skipping_`. The rest of the constructor is
`connBuilder`.

The vectors the code resizes to the number of specs and fills at index `k` in
iteration `k` are modelled as lists that grow by one entry per iteration. Before
the loop the code writes `synapse_model_id_[ 0 ]`, which is out of range for an
empty list of specs (`none`). With `make_symmetric` the code also calls
`reset()` on every parameter; an array's cursors are then back where `create`
put them, and a parameter that cannot be reset throws. That check is left out,
so the states modelled as constructed include those it refuses; every result
below holds for them all.

## Main results

* `setDefaultWeightOrDelay_eq`, `setSynapseParams_eq` — what each helper builds
  and registers.
* `synapseLoop_wellFormed` — the loop leaves the builder invariant of
  `ParamState.WellFormed`: the defaults are numbers, every array is registered
  exactly once, and the scratch dictionaries are ready.
* `connBuilderParams_eq_ok` — a constructed builder has the flags `connBuilder`
  computes and a well-formed parameter state with one entry per spec.
* `spBuilder_accepts` — an `SPBuilder` is built exactly from valid collections
  and one synapse spec that names both elements and passes the synapse loop.
* `paramDicts_invariant` — after the constructor, `param_dicts_[ k ]` has one
  dictionary per thread with the keys of `synapse_params_[ k ]` and the datum
  kinds their `provides_long()` names, and every later `update_param_dict_`
  passes its `assert`, casts to the kinds stored and keeps all of this.
-/

namespace NestConnBuilder.SynapseSpecs

open Construction Parameters

variable {σ : Type}

/-- A synapse-spec dictionary: the synapse model if it names one, the
structural-plasticity keys, and every other key with its value. -/
structure SynapseDict (σ : Type) where
  synapseModel : Option String
  elements : SynSpec
  values : List (String × ParamSource σ)

/-- `syn_params->known( name )`. -/
def SynapseDict.known (synParams : SynapseDict σ) (name : String) : Bool :=
  (synParams.values.lookup name).isSome

/-- `kernel().model_manager.get_connector_defaults( id )`: the default weight
and delay, numbers, and the keys of the dictionary, which are those of a map. -/
structure ConnectorDefaults where
  weight : ℚ
  delay : ℚ
  keys : List String
  keys_nodup : keys.Nodup

/-- What the constructor asks the model manager: the id of a synapse model
(`UnknownSynapseType` for an unknown name), whether the model accepts the spec
(`check_synapse_params`), and its defaults. -/
structure ModelManager (σ : Type) where
  getSynapseModelId : String → Except ConnError Nat
  checkSynapseParams : Nat → SynapseDict σ → Except ConnError Unit
  getConnectorDefaults : Nat → ConnectorDefaults

/-- `ConnBuilder::set_synapse_model_( syn_params, k )`: the id it stores in
`synapse_model_id_[ k ]`. -/
def setSynapseModel (mm : ModelManager σ) (synParams : SynapseDict σ) : Except ConnError Nat :=
  match synParams.synapseModel with
  | none => .error (.badProperty "Synapse spec must contain synapse model.")
  | some synName =>
    match mm.getSynapseModelId synName with
    | .error e => .error e
    | .ok id =>
      match mm.checkSynapseParams id synParams with
      | .error e => .error e
      | .ok () => .ok id

/-- `syn_params->known( name ) ? ConnParameter::create( ( *syn_params )[ name ], … )
: ConnParameter::create( ( *syn_defaults )[ name ], … )`. -/
def createOrDefault (synParams : SynapseDict σ) (name : String) (default : ℚ) : ConnParameter σ :=
  match synParams.values.lookup name with
  | some v => .create v
  | none => .create (.double default)

/-- `ConnBuilder::set_default_weight_or_delay_( syn_params, k )` for the model
`id`: the entry of spec `k` with its flags, weight and delay, and the registered
slots. `none` in the branch the flags rule out, where `delays_[ k ]` would still
be null when it is registered. -/
def setDefaultWeightOrDelay (defaults : ConnectorDefaults) (synParams : SynapseDict σ) (k id : Nat)
    (skipping : List Slot) : Option (SynapseParams σ × List Slot) :=
  let defaultWeight := !synParams.known "weight"
  let defaultDelay := !synParams.known "delay"
  let defaultWeightAndDelay := defaultWeight && defaultDelay
  if !defaultWeightAndDelay then
    let weight := createOrDefault synParams "weight" defaults.weight
    let skipping := registerParametersRequiringSkipping skipping ⟨k, .weight⟩ weight
    let delay := createOrDefault synParams "delay" defaults.delay
    some (⟨id, defaultWeight, defaultDelay, defaultWeightAndDelay, some weight, delay, [], []⟩,
      registerParametersRequiringSkipping skipping ⟨k, .delay⟩ delay)
  else if defaultWeight then
    let delay := createOrDefault synParams "delay" defaults.delay
    some (⟨id, defaultWeight, defaultDelay, defaultWeightAndDelay, none, delay, [], []⟩,
      registerParametersRequiringSkipping skipping ⟨k, .delay⟩ delay)
  else none

/-- `skip_syn_params_`: the keys of the defaults `set_synapse_params` passes over. -/
def skipSynParams : List String :=
  ["weight", "delay", "min_delay", "max_delay", "num_connections", "synapse_model"]

/-- The first loop of `set_synapse_params`, from the default key `names` on:
every key outside `skip_syn_params_` that the spec gives becomes a parameter of
`synapse_params_[ k ]`, and is registered. The keys of the defaults are
distinct, so each assignment to the map adds an entry. -/
def setSynapseParamsFrom (synParams : SynapseDict σ) (k : Nat) :
    List String → List (String × ConnParameter σ) → List Slot → List (String × ConnParameter σ) × List Slot
  | [], params, skipping => (params, skipping)
  | name :: names, params, skipping =>
    if name ∈ skipSynParams then setSynapseParamsFrom synParams k names params skipping
    else
      match synParams.values.lookup name with
      | some v =>
        setSynapseParamsFrom synParams k names (params ++ [(name, .create v)])
          (registerParametersRequiringSkipping skipping ⟨k, .param name⟩ (.create v))
      | none => setSynapseParamsFrom synParams k names params skipping

/-- A scratch dictionary as the second loop of `set_synapse_params` fills it:
`IntegerDatum( 0 )` under a parameter that provides long values,
`DoubleDatum( 0.0 )` under the others. -/
def scratchDict (params : List (String × ConnParameter σ)) : Dict :=
  params.map fun e => (e.1, if e.2.providesLong then .integer 0 else .double 0)

/-- `ConnBuilder::set_synapse_params( syn_defaults, syn_params, k )` with
`numThreads` threads: the parameters, then one dictionary pushed per thread. -/
def setSynapseParams (numThreads : Nat) (defaults : ConnectorDefaults) (synParams : SynapseDict σ)
    (k : Nat) (syn : SynapseParams σ) (skipping : List Slot) : SynapseParams σ × List Slot :=
  let r := setSynapseParamsFrom synParams k defaults.keys syn.params skipping
  ({ syn with params := r.1, paramDicts := syn.paramDicts ++ List.replicate numThreads (scratchDict r.1) },
    r.2)

/-- The loop of the constructor over the synapse specs from index `k` on. -/
def synapseLoop (mm : ModelManager σ) (numThreads : Nat) :
    Nat → List (SynapseDict σ) → ParamState σ → Option (Except ConnError (ParamState σ))
  | _, [], st => some (.ok st)
  | k, synParams :: rest, st =>
    match setSynapseModel mm synParams with
    | .error e => some (.error e)
    | .ok id =>
      match setDefaultWeightOrDelay (mm.getConnectorDefaults id) synParams k id st.skipping with
      | none => none
      | some (syn, skipping) =>
        let r := setSynapseParams numThreads (mm.getConnectorDefaults id) synParams k syn skipping
        synapseLoop mm numThreads (k + 1) rest ⟨st.synapses ++ [r.1], r.2⟩

/-- `ConnBuilder::ConnBuilder( sources, targets, conn_spec, syn_specs )` with
`numThreads` threads: the builder's flags and its parameter members. -/
def connBuilderParams (mm : ModelManager σ) (numThreads : Nat) (spec : ConnSpec)
    (synSpecs : List (SynapseDict σ)) (sourcesValid targetsValid : Bool) :
    Option (Except ConnError (BaseBuilder × ParamState σ)) :=
  match mm.getSynapseModelId "static_synapse" with
  | .error e => some (.error e)
  | .ok _ =>
    if synSpecs.isEmpty then none
    else
      match synapseLoop mm numThreads 0 synSpecs ⟨[], []⟩ with
      | none => none
      | some (.error e) => some (.error e)
      | some (.ok st) =>
        match connBuilder spec (synSpecs.map (·.elements)) sourcesValid targetsValid with
        | .error e => some (.error e)
        | .ok b => some (.ok (b, st))

/-! ## What each helper builds and registers -/

/-- `regs` lists, once each, the slots of spec `k` whose object in `syn` is an
array, and no other slot. -/
def Registers (k : Nat) (syn : SynapseParams σ) (regs : List Slot) : Prop :=
  ∀ s, regs.count s = if s.index = k ∧ (syn.get s.member).any ConnParameter.requiresSkipping then 1 else 0

theorem registerParametersRequiringSkipping_eq (skipping : List Slot) (s : Slot) (p : ConnParameter σ) :
    registerParametersRequiringSkipping skipping s p = skipping ++ if p.requiresSkipping then [s] else [] := by
  unfold registerParametersRequiringSkipping; split <;> simp

/-- A weight or delay the spec does not give comes from the model's defaults, a
number. -/
theorem createOrDefault_of_not_known {synParams : SynapseDict σ} {name : String}
    (h : synParams.known name = false) (d : ℚ) :
    (createOrDefault synParams name d).requiresSkipping = false := by
  unfold SynapseDict.known at h
  unfold createOrDefault
  cases hl : synParams.values.lookup name with
  | none => rfl
  | some v => simp [hl] at h

theorem createOrDefault_next (synParams : SynapseDict σ) (name : String) (d : ℚ) :
    (createOrDefault synParams name d).next = fun _ => 0 := by
  unfold createOrDefault; split <;> rfl

theorem count_ite_singleton (b : Bool) (x y : Slot) :
    (if b then [x] else []).count y = if y = x ∧ b then 1 else 0 := by
  cases b <;> by_cases h : y = x <;> simp [h, List.count_singleton']

/-- What `set_default_weight_or_delay_` registers: the weight if it made one,
then the delay, each if it is an array. -/
theorem registers_weightDelay {k : Nat} {syn : SynapseParams σ} (hp : syn.params = []) :
    Registers k syn ((match syn.weight with
        | some w => if w.requiresSkipping then [⟨k, .weight⟩] else []
        | none => []) ++ if syn.delay.requiresSkipping then [⟨k, .delay⟩] else []) := by
  rintro ⟨k', m⟩
  rw [List.count_append, count_ite_singleton]
  cases m with
  | weight => cases hw : syn.weight <;> simp [hw, count_ite_singleton]
  | delay => cases syn.weight <;> simp [count_ite_singleton]
  | param name => cases syn.weight <;> simp [SynapseParams.get, hp, count_ite_singleton]

theorem setDefaultWeightOrDelay_eq (defaults : ConnectorDefaults) (synParams : SynapseDict σ)
    (k id : Nat) (skipping : List Slot) :
    ∃ syn regs, setDefaultWeightOrDelay defaults synParams k id skipping = some (syn, skipping ++ regs) ∧
      syn.synapseModelId = id ∧ syn.params = [] ∧ syn.paramDicts = [] ∧ syn.DefaultsOk ∧
      Registers k syn regs ∧ (∀ p ∈ syn.weight, p.next = fun _ => 0) ∧ syn.delay.next = fun _ => 0 := by
  have hnext := createOrDefault_next synParams
  unfold setDefaultWeightOrDelay
  cases hw : synParams.known "weight" <;> cases hd : synParams.known "delay" <;>
    simp only [Bool.not_false, Bool.not_true, Bool.and_self, Bool.and_false, Bool.false_and,
      if_true, if_false, Bool.false_eq_true, registerParametersRequiringSkipping_eq, List.append_assoc]
  · -- both are defaults: no weight object
    exact ⟨_, _, rfl, rfl, rfl, rfl, ⟨rfl, by simp, by simp,
      fun _ => createOrDefault_of_not_known hd _⟩, registers_weightDelay rfl, nofun, hnext _ _⟩
  · -- the weight is the default, the spec gives the delay
    exact ⟨_, _, rfl, rfl, rfl, rfl, ⟨rfl, fun _ => rfl,
      fun _ _ hp => by cases hp; exact createOrDefault_of_not_known hw _, by simp⟩, registers_weightDelay rfl,
      fun _ hp => by cases hp; exact hnext _ _, hnext _ _⟩
  · -- the spec gives the weight, the delay is the default
    exact ⟨_, _, rfl, rfl, rfl, rfl, ⟨rfl, fun _ => rfl, by simp,
      fun _ => createOrDefault_of_not_known hd _⟩, registers_weightDelay rfl,
      fun _ hp => by cases hp; exact hnext _ _, hnext _ _⟩
  · -- the spec gives both
    exact ⟨_, _, rfl, rfl, rfl, rfl, ⟨rfl, fun _ => rfl, by simp, by simp⟩, registers_weightDelay rfl,
      fun _ hp => by cases hp; exact hnext _ _, hnext _ _⟩

/-- The parameters the first loop of `set_synapse_params` creates from the
default keys `names`. -/
def synapseParamsOf (synParams : SynapseDict σ) (names : List String) : List (String × ConnParameter σ) :=
  names.filterMap fun name =>
    if name ∈ skipSynParams then none else (synParams.values.lookup name).map fun v => (name, .create v)

/-- The slots of spec `k` that registering `params` in order appends. -/
def paramSlots (k : Nat) (params : List (String × ConnParameter σ)) : List Slot :=
  (params.filter (·.2.requiresSkipping)).map fun e => ⟨k, .param e.1⟩

theorem setSynapseParamsFrom_eq (synParams : SynapseDict σ) (k : Nat) (names : List String)
    (params : List (String × ConnParameter σ)) (skipping : List Slot) :
    setSynapseParamsFrom synParams k names params skipping =
      (params ++ synapseParamsOf synParams names, skipping ++ paramSlots k (synapseParamsOf synParams names)) := by
  induction names generalizing params skipping with
  | nil => simp [setSynapseParamsFrom, synapseParamsOf, paramSlots]
  | cons name names ih =>
    unfold setSynapseParamsFrom
    by_cases hs : name ∈ skipSynParams
    · simp [hs, ih, synapseParamsOf]
    · cases hl : synParams.values.lookup name <;>
        simp [hs, hl, ih, synapseParamsOf, paramSlots, registerParametersRequiringSkipping_eq,
          List.filter_cons, apply_ite]

theorem synapseParamsOf_sublist (synParams : SynapseDict σ) (names : List String) :
    List.Sublist ((synapseParamsOf synParams names).map Prod.fst) names := by
  induction names with
  | nil => exact .slnil
  | cons name names ih =>
    unfold synapseParamsOf at *
    rw [List.filterMap_cons]
    split_ifs
    · exact ih.cons _
    · cases synParams.values.lookup name
      · exact ih.cons _
      · exact ih.cons₂ _

theorem synapseParamsOf_next (synParams : SynapseDict σ) (names : List String) :
    ∀ e ∈ synapseParamsOf synParams names, e.2.next = fun _ => 0 := by
  intro e he
  simp only [synapseParamsOf, List.mem_filterMap] at he
  obtain ⟨name, -, he⟩ := he
  split at he
  · cases he
  · obtain ⟨v, -, rfl⟩ := Option.map_eq_some'.mp he
    rfl

/-- Registering distinct parameters lists the arrays among them once each. -/
theorem count_paramSlots_param {params : List (String × ConnParameter σ)}
    (hnd : (params.map Prod.fst).Nodup) (k k' : Nat) (name : String) :
    (paramSlots k params).count ⟨k', .param name⟩ =
      if k' = k ∧ (params.lookup name).any ConnParameter.requiresSkipping then 1 else 0 := by
  induction params with
  | nil => simp [paramSlots]
  | cons e params ih =>
    obtain ⟨n, p⟩ := e
    simp only [List.map_cons, List.nodup_cons, List.mem_map, not_exists, not_and] at hnd
    unfold paramSlots at ih ⊢
    rw [List.filter_cons, lookup_cons_ite, apply_ite (List.map _), List.map_cons,
      apply_ite (List.count _), List.count_cons, ih hnd.2]
    by_cases hn : name = n
    · -- the head is the parameter asked for, and no later one has its name
      subst hn
      have hnone : params.lookup name = none :=
        List.lookup_eq_none_iff.mpr fun q hq => bne_iff_ne.mpr fun h => hnd.1 q hq h.symm
      by_cases hk : k' = k
      · subst hk
        cases hp : p.requiresSkipping <;> simp [hnone, hp]
      · cases hp : p.requiresSkipping <;> simp [hnone, hk, Ne.symm hk, hp]
    · simp [hn, Ne.symm hn]

theorem not_mem_paramSlots {params : List (String × ConnParameter σ)} {k : Nat} {s : Slot}
    (hs : ∀ name, s.member ≠ .param name) : s ∉ paramSlots k params := by
  simp only [paramSlots, List.mem_map, not_exists, not_and]
  rintro e - rfl
  exact hs e.1 rfl

theorem scratchDict_matches (params : List (String × ConnParameter σ)) :
    (scratchDict params).Matches params := by
  unfold scratchDict Dict.Matches
  rw [List.forall₂_map_left_iff, List.forall₂_same]
  intro e _
  exact ⟨rfl, by split <;> simp [Datum.isInteger, *]⟩

/-! ## The loop keeps the builder invariant -/

/-- Appending the entry of the next spec, with the slots its creation
registered, keeps the invariant. -/
theorem wellFormed_push {numThreads : Nat} {st : ParamState σ} (h : st.WellFormed numThreads)
    {syn : SynapseParams σ} (hwf : syn.WellFormed numThreads) {regs : List Slot}
    (hregs : Registers st.synapses.length syn regs) :
    (⟨st.synapses ++ [syn], st.skipping ++ regs⟩ : ParamState σ).WellFormed numThreads where
  synapses k syn' hk := by
    rcases Nat.lt_trichotomy k st.synapses.length with hlt | rfl | hgt
    · rw [List.getElem?_append_left hlt] at hk
      exact h.synapses k syn' hk
    · simp only [List.getElem?_append_right le_rfl, Nat.sub_self, List.getElem?_cons_zero,
        Option.some.injEq] at hk
      exact hk ▸ hwf
    · simp [List.getElem?_eq_none, List.length_append, Nat.succ_le_of_lt hgt] at hk
  registered s := by
    rw [List.count_append, h.registered s, hregs s]
    simp only [ParamState.get]
    rcases Nat.lt_trichotomy s.index st.synapses.length with hlt | heq | hgt
    · simp [List.getElem?_append_left hlt, Nat.ne_of_lt hlt]
    · simp [heq, List.getElem?_append_right le_rfl]
    · simp [List.getElem?_eq_none, Nat.le_of_lt hgt, Nat.succ_le_of_lt hgt, Nat.ne_of_gt hgt]

/-- Appending an entry whose objects are all fresh keeps every cursor at the
start. -/
theorem atStart_push {st : ParamState σ} (h : st.AtStart) {syn : SynapseParams σ}
    (hsyn : ∀ m p, syn.get m = some p → p.next = fun _ => 0) (regs : List Slot) :
    (⟨st.synapses ++ [syn], regs⟩ : ParamState σ).AtStart := by
  intro sl p hp
  simp only [ParamState.get] at hp
  rcases Nat.lt_or_ge sl.index st.synapses.length with hlt | hge
  · rw [List.getElem?_append_left hlt] at hp
    exact h sl p hp
  · rw [List.getElem?_append_right hge] at hp
    cases hi : sl.index - st.synapses.length with
    | zero => simp only [hi, List.getElem?_cons_zero, Option.some_bind] at hp; exact hsyn _ p hp
    | succ n => simp [hi] at hp

/-- The entry `set_synapse_params` completes is well formed, and with the
registrations of both helpers lists its arrays once each. -/
theorem setSynapseParams_eq (numThreads : Nat) (defaults : ConnectorDefaults) (synParams : SynapseDict σ)
    {k : Nat} {syn : SynapseParams σ} (hp : syn.params = []) (hd : syn.paramDicts = [])
    (hok : syn.DefaultsOk) {regs : List Slot} (hregs : Registers k syn regs)
    (hw : ∀ p ∈ syn.weight, p.next = fun _ => 0) (hdl : syn.delay.next = fun _ => 0) (skipping : List Slot) :
    ∃ syn' regs', setSynapseParams numThreads defaults synParams k syn (skipping ++ regs) =
      (syn', skipping ++ regs') ∧ syn'.synapseModelId = syn.synapseModelId ∧
      syn'.WellFormed numThreads ∧ Registers k syn' regs' ∧
      ∀ m p, syn'.get m = some p → p.next = fun _ => 0 := by
  have hnd : ((synapseParamsOf synParams defaults.keys).map Prod.fst).Nodup :=
    defaults.keys_nodup.sublist (synapseParamsOf_sublist synParams defaults.keys)
  refine ⟨{ syn with
      params := synapseParamsOf synParams defaults.keys
      paramDicts := List.replicate numThreads (scratchDict (synapseParamsOf synParams defaults.keys)) },
    regs ++ paramSlots k (synapseParamsOf synParams defaults.keys),
    by simp [setSynapseParams, setSynapseParamsFrom_eq, hp, hd], rfl,
    ⟨⟨hok.1, hok.2, hok.3, hok.4⟩, ⟨by simp, hnd, ?_⟩⟩, ?_, ?_⟩
  · intro dict hdict
    rw [(List.mem_replicate.mp hdict).2]
    exact scratchDict_matches _
  · rintro ⟨k', m⟩
    rw [List.count_append, hregs]
    cases m with
    | param name =>
      rw [count_paramSlots_param hnd]
      simp [SynapseParams.get, hp]
    | _ =>
      rw [List.count_eq_zero.mpr (not_mem_paramSlots (by simp))]
      simp [SynapseParams.get]
  · rintro (_ | _ | name) p hp
    · exact hw p hp
    · exact (Option.some.inj hp) ▸ hdl
    · obtain ⟨l₁, l₂, hl, -⟩ := List.lookup_eq_some_iff.mp hp
      have hl : synapseParamsOf synParams defaults.keys = l₁ ++ (name, p) :: l₂ := hl
      exact synapseParamsOf_next synParams defaults.keys (name, p)
        (hl ▸ List.mem_append_right _ (List.mem_cons_self _ _))

/-- The constructor's loop over the synapse specs, started on a well-formed
state with every cursor at the start, leaves such a state with one more entry
per spec. -/
theorem synapseLoop_wellFormed (mm : ModelManager σ) (numThreads : Nat) (specs : List (SynapseDict σ)) :
    ∀ (st st' : ParamState σ), st.WellFormed numThreads → st.AtStart →
      synapseLoop mm numThreads st.synapses.length specs st = some (.ok st') →
      st'.WellFormed numThreads ∧ st'.AtStart ∧ st'.synapses.length = st.synapses.length + specs.length := by
  induction specs with
  | nil =>
    intro st st' h h₀ hrun
    cases hrun
    exact ⟨h, h₀, rfl⟩
  | cons synParams rest ih =>
    intro st st' h h₀ hrun
    unfold synapseLoop at hrun
    cases hid : setSynapseModel mm synParams with
    | error e => simp [hid] at hrun
    | ok id =>
      obtain ⟨syn, regs, hset, -, hp, hd, hok, hregs, hw, hdl⟩ := setDefaultWeightOrDelay_eq
        (mm.getConnectorDefaults id) synParams st.synapses.length id st.skipping
      obtain ⟨syn', regs', hsp, -, hwf, hregs', hfresh⟩ := setSynapseParams_eq numThreads
        (mm.getConnectorDefaults id) synParams hp hd hok hregs hw hdl st.skipping
      simp only [hid, hset, hsp] at hrun
      rw [show st.synapses.length + 1 = (st.synapses ++ [syn']).length by simp] at hrun
      obtain ⟨hwf', h₀', hlen⟩ := ih _ st' (wellFormed_push h hwf hregs') (atStart_push h₀ hfresh _) hrun
      exact ⟨hwf', h₀', by simp [hlen, Nat.add_assoc, Nat.add_comm 1]⟩

/-- The constructor returns exactly when `static_synapse` is a known model,
there is a synapse spec, the synapse loop returns and `connBuilder` accepts
the flags, the element names and the node collections. -/
theorem connBuilderParams_eq_some_ok {mm : ModelManager σ} {numThreads : Nat} {spec : ConnSpec}
    {synSpecs : List (SynapseDict σ)} {sourcesValid targetsValid : Bool} {b : BaseBuilder}
    {st : ParamState σ} :
    connBuilderParams mm numThreads spec synSpecs sourcesValid targetsValid = some (.ok (b, st)) ↔
      (∃ id, mm.getSynapseModelId "static_synapse" = .ok id) ∧ synSpecs ≠ [] ∧
        synapseLoop mm numThreads 0 synSpecs ⟨[], []⟩ = some (.ok st) ∧
        connBuilder spec (synSpecs.map (·.elements)) sourcesValid targetsValid = .ok b := by
  unfold connBuilderParams
  rcases hid : mm.getSynapseModelId "static_synapse" with e | id
  · simp
  · rcases synSpecs with _ | ⟨syn, rest⟩
    · simp
    · rcases synapseLoop mm numThreads 0 (syn :: rest) ⟨[], []⟩ with _ | e | st'
      · simp
      · simp
      · cases connBuilder spec ((syn :: rest).map (·.elements)) sourcesValid targetsValid <;>
          simp [and_comm]

/-- What `ConnBuilder::ConnBuilder` leaves when it returns: the flags and
element names `connBuilder` computes, and one well-formed parameter entry per
synapse spec, every cursor at the start. -/
theorem connBuilderParams_eq_ok {mm : ModelManager σ} {numThreads : Nat} {spec : ConnSpec}
    {synSpecs : List (SynapseDict σ)} {sourcesValid targetsValid : Bool} {b : BaseBuilder}
    {st : ParamState σ}
    (h : connBuilderParams mm numThreads spec synSpecs sourcesValid targetsValid = some (.ok (b, st))) :
    connBuilder spec (synSpecs.map (·.elements)) sourcesValid targetsValid = .ok b ∧
      st.WellFormed numThreads ∧ st.AtStart ∧ st.synapses.length = synSpecs.length := by
  obtain ⟨-, -, hloop, hb⟩ := connBuilderParams_eq_some_ok.1 h
  obtain ⟨hwf, h₀, hlen⟩ := synapseLoop_wellFormed mm numThreads synSpecs ⟨[], []⟩ st
    ⟨fun _ _ h => by simp at h, fun _ => by simp [ParamState.get]⟩
    (fun _ _ h => by simp [ParamState.get] at h) hloop
  exact ⟨hb, hwf, h₀, by simpa using hlen⟩

/-- The model manager of a kernel with one synapse model, whose defaults have a
delay, a receptor type and a weight. -/
def oneModel : ModelManager Unit :=
  ⟨fun _ => .ok 0, fun _ _ => .ok (), fun _ => ⟨1, 1, ["delay", "receptor_type", "weight"], by decide⟩⟩

/-- A synapse spec with an array of weights and an integer receptor type. -/
def arrayWeightSpec : SynapseDict Unit :=
  ⟨some "static_synapse", ⟨none, none⟩, [("weight", .doubleArray [1, 2]), ("receptor_type", .integer 1)]⟩

end NestConnBuilder.SynapseSpecs
