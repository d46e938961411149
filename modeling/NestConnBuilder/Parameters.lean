import NestConnBuilder.Construction

/-!
# Synapse parameters, their cursors and the per-thread scratch dictionaries

For every synapse spec `k` a `ConnBuilder` owns a weight `weights_[ k ]`, a
delay `delays_[ k ]`, a map `synapse_params_[ k ]` from the other settable keys
to their `ConnParameter`s, and `param_dicts_[ k ]`, one scratch dictionary per
thread. Every parameter that requires skipping is listed once in
`parameters_requiring_skipping_`. On the hot path `update_param_dict_` writes
each synapse parameter's next value into the thread's dictionary through an
unchecked `static_cast`, and `skip_conn_parameter_` moves the listed parameters
on without reading them.

The parameter classes, `ConnParameter::create`,
`register_parameters_requiring_skipping_` and `skip_conn_parameter_` are not in
this source; they are modelled after the design: a number becomes a constant of
its own kind (long or double), a distribution draws from the thread's stream,
and an array is read at a cursor per thread that every `value` call and every
`skip` moves on; arrays are exactly the parameters that require skipping. A
parameter object is addressed by its `Slot` (synapse spec and member), and
`parameters_requiring_skipping_` is the list of registered slots.

## Main results

* `get_modify`, `get_skipConnParameter` — a write to one slot leaves the
  others, and `skip_conn_parameter_( thr, n )` moves each parameter by `n`
  times the number of its registrations.
* `updateParamDict_eq` — with the scratch dictionaries ready, every cast of
  `update_param_dict_` meets the kind it casts to and its `assert` holds; the
  call advances each synapse parameter once and leaves the dictionaries ready.
* `WellFormed.modify`, `WellFormed.updateParamDict`, `WellFormed.skipConnParameter`
  — the builder invariant survives every write to a cursor and every
  `update_param_dict_`.
-/

namespace NestConnBuilder.Parameters

open Construction

variable {σ : Type}

/-- A value of a synapse-spec dictionary as `ConnParameter::create` reads it:
a number of either kind, a distribution (its draw from the thread's stream),
or an array of either kind. -/
inductive ParamSource (σ : Type)
  | double (value : ℚ)
  | integer (value : Int)
  | distribution (draw : σ → ℚ × σ)
  | doubleArray (values : List ℚ)
  | integerArray (values : List Int)

/-- A `ConnParameter` object: what it was created from, and for an array the
cursor `next_[ tid ]` of every thread. -/
structure ConnParameter (σ : Type) where
  source : ParamSource σ
  next : Nat → Nat

namespace ConnParameter

/-- `ConnParameter::create( value, num_threads )`: every cursor at the start. -/
def create (v : ParamSource σ) : ConnParameter σ := ⟨v, fun _ => 0⟩

/-- `provides_long()`: integer numbers and integer arrays. -/
def providesLong (p : ConnParameter σ) : Bool :=
  match p.source with
  | .integer _ | .integerArray _ => true
  | _ => false

/-- `requires_skipping()`: the arrays, whose values are indexed by the pairs a
rule considers. -/
def requiresSkipping (p : ConnParameter σ) : Bool :=
  match p.source with
  | .doubleArray _ | .integerArray _ => true
  | _ => false

/-- `value_double( thr, rng, … )` before its cursor move: an array's entry at
thread `thr`'s cursor, a draw for a distribution. A read past the end of an
array is left out: the parameter classes are not in the sources, and `getD`
gives `0` there. -/
def valueDouble (p : ConnParameter σ) (thr : Nat) (g : σ) : ℚ × σ :=
  match p.source with
  | .double v => (v, g)
  | .integer v => (v, g)
  | .distribution draw => draw g
  | .doubleArray vs => (vs.getD (p.next thr) 0, g)
  | .integerArray vs => ((vs.getD (p.next thr) 0 : Int), g)

/-- `value_int( thr, rng, … )` before its cursor move; only a parameter that
provides long values has one (`none`: the call throws). A read past the end of
an array is left out, as for `valueDouble`. -/
def valueInt (p : ConnParameter σ) (thr : Nat) (g : σ) : Option (Int × σ) :=
  match p.source with
  | .integer v => some (v, g)
  | .integerArray vs => some (vs.getD (p.next thr) 0, g)
  | _ => none

/-- `skip( thr, n )`, and with `n = 1` the cursor move of every `value` call:
an array moves thread `thr`'s cursor `n` on; other parameters have no cursor. -/
def skip (p : ConnParameter σ) (thr n : Nat) : ConnParameter σ :=
  if p.requiresSkipping then { p with next := Function.update p.next thr (p.next thr + n) } else p

@[simp] theorem skip_source (p : ConnParameter σ) (thr n : Nat) : (p.skip thr n).source = p.source := by
  unfold skip; split <;> rfl

@[simp] theorem requiresSkipping_skip (p : ConnParameter σ) (thr n : Nat) :
    (p.skip thr n).requiresSkipping = p.requiresSkipping := by
  simp only [requiresSkipping, skip_source]

@[simp] theorem providesLong_skip (p : ConnParameter σ) (thr n : Nat) :
    (p.skip thr n).providesLong = p.providesLong := by
  simp only [providesLong, skip_source]

theorem skip_of_not_requiresSkipping {p : ConnParameter σ} (h : p.requiresSkipping = false)
    (thr n : Nat) : p.skip thr n = p := by
  simp [skip, h]

@[simp] theorem skip_zero (p : ConnParameter σ) (thr : Nat) : p.skip thr 0 = p := by
  unfold skip; split <;> simp

theorem skip_skip (p : ConnParameter σ) (thr a b : Nat) :
    (p.skip thr a).skip thr b = p.skip thr (a + b) := by
  cases h : p.requiresSkipping
  · simp [skip_of_not_requiresSkipping h]
  · have h' : (p.skip thr a).requiresSkipping = true := by rw [requiresSkipping_skip, h]
    rw [skip, if_pos h', skip, if_pos h, skip, if_pos h]
    congr 1
    funext i
    by_cases hi : i = thr <;> simp [Function.update, hi, Nat.add_assoc]

/-- The cursor of thread `thr` moves exactly `n` on, every other thread's stays. -/
theorem next_skip {p : ConnParameter σ} (h : p.requiresSkipping = true) (thr n i : Nat) :
    (p.skip thr n).next i = if i = thr then p.next thr + n else p.next i := by
  by_cases hi : i = thr <;> simp [skip, h, Function.update, hi]

end ConnParameter

/-! ## Key-value lists -/

/-- `List.lookup` on a string key, as a case split. -/
theorem lookup_cons_ite {α : Type} (k a : String) (b : α) (es : List (String × α)) :
    ((k, b) :: es).lookup a = if a = k then some b else es.lookup a := by
  by_cases h : a = k
  · simp [List.lookup, h]
  · simp [List.lookup, h, beq_false_of_ne h]

/-- A lookup in a key-value list after one key's value was rewritten. -/
theorem lookup_map_update {α : Type} (l : List (String × α)) (f : α → α) (n n' : String) :
    (l.map fun e => if e.1 = n then (e.1, f e.2) else e).lookup n' =
      if n = n' then (l.lookup n').map f else l.lookup n' := by
  induction l with
  | nil => simp
  | cons e l ih =>
    obtain ⟨m, a⟩ := e
    by_cases hm : m = n
    · subst hm
      by_cases hn : n' = m
      · subst hn; simp [lookup_cons_ite]
      · simp [lookup_cons_ite, hn, Ne.symm hn, ih]
    · by_cases hn : n' = m
      · subst hn; simp [lookup_cons_ite, hm, Ne.symm hm]
      · simp [lookup_cons_ite, hm, hn, ih]

/-- A lookup in a key-value list after every value was rewritten. -/
theorem lookup_map_snd {α β : Type} (l : List (String × α)) (f : α → β) (n : String) :
    (l.map fun e => (e.1, f e.2)).lookup n = (l.lookup n).map f := by
  induction l with
  | nil => rfl
  | cons e l ih =>
    obtain ⟨m, a⟩ := e
    by_cases hm : n = m <;> simp_all [lookup_cons_ite]

/-! ## Scratch dictionaries -/

/-- A datum of a scratch dictionary. -/
inductive Datum
  | integer (v : Int)
  | double (v : ℚ)
  deriving DecidableEq, Repr

/-- Whether the datum is an `IntegerDatum`. -/
def Datum.isInteger : Datum → Bool
  | .integer _ => true
  | .double _ => false

/-- A scratch dictionary: its keys and datums. -/
abbrev Dict := List (String × Datum)

/-- `( *dict )[ name ]` overwritten with `d`. -/
def Dict.set (dict : Dict) (name : String) (d : Datum) : Dict :=
  dict.map fun e => if e.1 = name then (name, d) else e

/-- `( *id ) = v` after `static_cast< IntegerDatum* >( ( *dict )[ name ].datum() )`,
or its `DoubleDatum` twin: defined when the entry exists and holds a datum of
the kind cast to; `none` where the cast or the null datum of a missing key is
undefined behaviour. -/
def Dict.assign (dict : Dict) (name : String) (d : Datum) : Option Dict :=
  match dict.lookup name with
  | some old => if old.isInteger = d.isInteger then some (dict.set name d) else none
  | none => none

/-- The dictionary has the keys of `params`, in order, each with a datum of the
kind the parameter's `provides_long()` names. -/
def Dict.Matches (dict : Dict) (params : List (String × ConnParameter σ)) : Prop :=
  List.Forall₂ (fun e q => e.1 = q.1 ∧ e.2.isInteger = q.2.providesLong) dict params

theorem Dict.Matches.lookup {dict : Dict} {params : List (String × ConnParameter σ)}
    (h : dict.Matches params) (hnd : (params.map Prod.fst).Nodup) {name : String}
    {p : ConnParameter σ} (hp : (name, p) ∈ params) :
    ∃ d, dict.lookup name = some d ∧ d.isInteger = p.providesLong := by
  induction h with
  | nil => cases hp
  | @cons e q dict params hq _ ih =>
    obtain ⟨n, d⟩ := e
    obtain ⟨hq₁, hq₂⟩ := hq
    simp only [List.map_cons, List.nodup_cons, List.mem_map] at hnd
    rcases List.mem_cons.mp hp with rfl | hp
    · exact ⟨d, by rw [lookup_cons_ite, if_pos hq₁.symm], hq₂⟩
    · have hne : name ≠ n := fun he => hnd.1 ⟨_, hp, by rw [← hq₁, he]⟩
      simpa [lookup_cons_ite, hne] using ih hnd.2 hp

theorem Dict.Matches.set {dict : Dict} {params : List (String × ConnParameter σ)}
    (h : dict.Matches params) (hnd : (params.map Prod.fst).Nodup) {name : String}
    {p : ConnParameter σ} (hp : (name, p) ∈ params) {d : Datum}
    (hd : d.isInteger = p.providesLong) : (dict.set name d).Matches params := by
  unfold Dict.Matches Dict.set at *
  rw [List.forall₂_map_left_iff]
  rw [List.forall₂_iff_zip] at h ⊢
  refine ⟨h.1, fun {e q} heq => ?_⟩
  obtain ⟨hq₁, hq₂⟩ := h.2 heq
  split_ifs with he
  · -- the entry of `name` is the one aligned with `p`, the only parameter of that name
    obtain rfl : q = (name, p) :=
      List.inj_on_of_nodup_map hnd (List.of_mem_zip heq).2 hp (by simp [← hq₁, he])
    exact ⟨rfl, hd⟩
  · exact ⟨hq₁, hq₂⟩

theorem Dict.assign_eq {dict : Dict} {name : String} {old : Datum} (h : dict.lookup name = some old)
    {d : Datum} (hd : old.isInteger = d.isInteger) : dict.assign name d = some (dict.set name d) := by
  simp [Dict.assign, h, hd]

/-! ## Parameter objects and their slots -/

/-- A parameter of one synapse spec: `weights_[ k ]`, `delays_[ k ]` or
`synapse_params_[ k ][ name ]`. -/
inductive Member
  | weight
  | delay
  | param (name : String)
  deriving DecidableEq, Repr

/-- The address of a parameter object; `parameters_requiring_skipping_` holds
these. -/
structure Slot where
  index : Nat
  member : Member
  deriving DecidableEq, Repr

/-- The members of `ConnBuilder` at index `k` of their vectors:
`synapse_model_id_`, the three default flags, `weights_` (null when both weight
and delay are defaults), `delays_`, `synapse_params_` and `param_dicts_`. -/
structure SynapseParams (σ : Type) where
  synapseModelId : Nat
  defaultWeight : Bool
  defaultDelay : Bool
  defaultWeightAndDelay : Bool
  weight : Option (ConnParameter σ)
  delay : ConnParameter σ
  params : List (String × ConnParameter σ)
  paramDicts : List Dict

namespace SynapseParams

/-- The parameter object of a member, if there is one. -/
def get (syn : SynapseParams σ) : Member → Option (ConnParameter σ)
  | .weight => syn.weight
  | .delay => some syn.delay
  | .param name => syn.params.lookup name

/-- A call on the parameter object of a member, through its pointer. -/
def modify (syn : SynapseParams σ) (f : ConnParameter σ → ConnParameter σ) :
    Member → SynapseParams σ
  | .weight => { syn with weight := syn.weight.map f }
  | .delay => { syn with delay := f syn.delay }
  | .param name => { syn with params := syn.params.map fun e => if e.1 = name then (e.1, f e.2) else e }

@[simp] theorem get_weight (syn : SynapseParams σ) : syn.get .weight = syn.weight := rfl

@[simp] theorem get_delay (syn : SynapseParams σ) : syn.get .delay = some syn.delay := rfl

theorem get_modify (syn : SynapseParams σ) (f : ConnParameter σ → ConnParameter σ) (m m' : Member) :
    (syn.modify f m).get m' = if m = m' then (syn.get m').map f else syn.get m' := by
  cases m <;> cases m' <;> simp [modify, get, lookup_map_update]

end SynapseParams

/-- The parameter members of a `ConnBuilder`: one entry per synapse spec, and
`parameters_requiring_skipping_`. -/
structure ParamState (σ : Type) where
  synapses : List (SynapseParams σ)
  skipping : List Slot

namespace ParamState

/-- The parameter object at a slot. -/
def get (st : ParamState σ) (s : Slot) : Option (ConnParameter σ) :=
  st.synapses[s.index]?.bind (·.get s.member)

/-- A change to the members of synapse spec `k`. -/
def updateSynapse (st : ParamState σ) (k : Nat) (f : SynapseParams σ → SynapseParams σ) :
    ParamState σ :=
  { st with synapses := st.synapses.modify f k }

/-- A call on the parameter object at a slot. -/
def modify (st : ParamState σ) (s : Slot) (f : ConnParameter σ → ConnParameter σ) : ParamState σ :=
  st.updateSynapse s.index (·.modify f s.member)

@[simp] theorem skipping_updateSynapse (st : ParamState σ) (k : Nat)
    (f : SynapseParams σ → SynapseParams σ) : (st.updateSynapse k f).skipping = st.skipping := rfl

@[simp] theorem skipping_modify (st : ParamState σ) (s : Slot) (f : ConnParameter σ → ConnParameter σ) :
    (st.modify s f).skipping = st.skipping := rfl

@[simp] theorem length_updateSynapse (st : ParamState σ) (k : Nat) (f : SynapseParams σ → SynapseParams σ) :
    (st.updateSynapse k f).synapses.length = st.synapses.length :=
  List.length_modify _ _ _

@[simp] theorem length_modify (st : ParamState σ) (s : Slot) (f : ConnParameter σ → ConnParameter σ) :
    (st.modify s f).synapses.length = st.synapses.length :=
  List.length_modify _ _ _

theorem getElem?_updateSynapse (st : ParamState σ) (k : Nat) (f : SynapseParams σ → SynapseParams σ)
    (i : Nat) : (st.updateSynapse k f).synapses[i]? =
      if k = i then st.synapses[i]?.map f else st.synapses[i]? := by
  simp only [updateSynapse, List.getElem?_modify]
  split <;> simp [*]

theorem get_updateSynapse (st : ParamState σ) (k : Nat) (f : SynapseParams σ → SynapseParams σ)
    (s : Slot) : (st.updateSynapse k f).get s =
      if k = s.index then st.synapses[k]?.bind (fun syn => (f syn).get s.member) else st.get s := by
  simp only [get, getElem?_updateSynapse]
  split
  · subst_vars; cases st.synapses[s.index]? <;> rfl
  · rfl

/-- A call on one object leaves every other slot as it was. -/
theorem get_modify (st : ParamState σ) (s s' : Slot) (f : ConnParameter σ → ConnParameter σ) :
    (st.modify s f).get s' = if s = s' then (st.get s').map f else st.get s' := by
  obtain ⟨k, m⟩ := s
  obtain ⟨k', m'⟩ := s'
  rw [modify, get_updateSynapse]
  simp only [get, SynapseParams.get_modify, Slot.mk.injEq]
  by_cases hk : k = k'
  · subst hk; cases st.synapses[k]? <;> by_cases hm : m = m' <;> simp [hm]
  · simp [hk]

/-- A call on a member of spec `k` after a change to spec `k` is one change to it. -/
theorem modify_updateSynapse (st : ParamState σ) (k : Nat) (f : SynapseParams σ → SynapseParams σ)
    (m : Member) (g : ConnParameter σ → ConnParameter σ) :
    (st.updateSynapse k f).modify ⟨k, m⟩ g = st.updateSynapse k ((·.modify g m) ∘ f) := by
  simp only [modify, updateSynapse, List.modify_modify_eq]

end ParamState

/-- Every cursor of every parameter object is at the start, where
`ConnParameter::create` puts it. -/
def ParamState.AtStart (st : ParamState σ) : Prop :=
  ∀ sl p, st.get sl = some p → p.next = fun _ => 0

/-! ## `skip_conn_parameter_` -/

/-- `register_parameters_requiring_skipping_( param )` for the object at slot
`s`: an array is appended to `parameters_requiring_skipping_`. -/
def registerParametersRequiringSkipping (skipping : List Slot) (s : Slot) (p : ConnParameter σ) :
    List Slot :=
  if p.requiresSkipping then skipping ++ [s] else skipping

/-- The loop of `skip_conn_parameter_( thr, n )` over the registered slots. -/
def skipSlots (thr n : Nat) : List Slot → ParamState σ → ParamState σ
  | [], st => st
  | s :: slots, st => skipSlots thr n slots (st.modify s (·.skip thr n))

/-- `skip_conn_parameter_( thr, n )`. -/
def ParamState.skipConnParameter (st : ParamState σ) (thr n : Nat) : ParamState σ :=
  skipSlots thr n st.skipping st

theorem get_skipSlots (thr n : Nat) (slots : List Slot) (st : ParamState σ) (s : Slot) :
    (skipSlots thr n slots st).get s = (st.get s).map (·.skip thr (slots.count s * n)) := by
  induction slots generalizing st with
  | nil => cases h : st.get s <;> simp [skipSlots, h]
  | cons s' slots ih =>
    rw [skipSlots, ih, ParamState.get_modify]
    by_cases hs : s' = s
    · subst hs
      cases st.get s' <;> simp [ConnParameter.skip_skip, Nat.add_mul, Nat.add_comm]
    · simp [hs, List.count_cons]

/-- Each parameter moves `n` on for every time it is registered. -/
theorem ParamState.get_skipConnParameter (st : ParamState σ) (thr n : Nat) (s : Slot) :
    (st.skipConnParameter thr n).get s = (st.get s).map (·.skip thr (st.skipping.count s * n)) :=
  get_skipSlots thr n st.skipping st s

@[simp] theorem skipping_skipSlots (thr n : Nat) (slots : List Slot) (st : ParamState σ) :
    (skipSlots thr n slots st).skipping = st.skipping := by
  induction slots generalizing st with
  | nil => rfl
  | cons s slots ih => simp [skipSlots, ih]

@[simp] theorem ParamState.skipping_skipConnParameter (st : ParamState σ) (thr n : Nat) :
    (st.skipConnParameter thr n).skipping = st.skipping :=
  skipping_skipSlots thr n st.skipping st

/-! ## `update_param_dict_` -/

/-- The loop of `update_param_dict_( …, thr, rng, k )` over
`synapse_params_[ k ]`, from `params` on: each parameter's value goes into the
thread's dictionary through the cast its `provides_long()` picks, `value_int`
into an `IntegerDatum`, `value_double` into a `DoubleDatum`. -/
def fillDict (thr : Nat) : List (String × ConnParameter σ) → Dict → σ → Option (Dict × σ)
  | [], dict, g => some (dict, g)
  | (name, p) :: params, dict, g =>
    if p.providesLong then
      match p.valueInt thr g with
      | none => none
      | some (v, g) => (dict.assign name (.integer v)).bind fun dict => fillDict thr params dict g
    else
      let (v, g) := p.valueDouble thr g
      (dict.assign name (.double v)).bind fun dict => fillDict thr params dict g

/-- Synapse spec `k` after `update_param_dict_` on thread `thr`: every synapse
parameter has been read once, and the thread's dictionary holds the values. -/
def SynapseParams.fill (syn : SynapseParams σ) (thr : Nat) (dict : Dict) : SynapseParams σ :=
  { syn with
    params := syn.params.map fun e => (e.1, e.2.skip thr 1)
    paramDicts := syn.paramDicts.set thr dict }

@[simp] theorem SynapseParams.fill_synapseModelId (syn : SynapseParams σ) (thr : Nat) (dict : Dict) :
    (syn.fill thr dict).synapseModelId = syn.synapseModelId := rfl

@[simp] theorem SynapseParams.fill_defaultWeight (syn : SynapseParams σ) (thr : Nat) (dict : Dict) :
    (syn.fill thr dict).defaultWeight = syn.defaultWeight := rfl

@[simp] theorem SynapseParams.fill_defaultDelay (syn : SynapseParams σ) (thr : Nat) (dict : Dict) :
    (syn.fill thr dict).defaultDelay = syn.defaultDelay := rfl

@[simp] theorem SynapseParams.fill_defaultWeightAndDelay (syn : SynapseParams σ) (thr : Nat) (dict : Dict) :
    (syn.fill thr dict).defaultWeightAndDelay = syn.defaultWeightAndDelay := rfl

@[simp] theorem SynapseParams.fill_weight (syn : SynapseParams σ) (thr : Nat) (dict : Dict) :
    (syn.fill thr dict).weight = syn.weight := rfl

@[simp] theorem SynapseParams.fill_delay (syn : SynapseParams σ) (thr : Nat) (dict : Dict) :
    (syn.fill thr dict).delay = syn.delay := rfl

/-- `update_param_dict_( snode_id, target, thr, rng, k )` with `numThreads`
threads in the kernel; `none` where `synapse_params_[ k ]` or
`param_dicts_[ k ][ thr ]` is out of range, the `assert` fails or a cast is
undefined. The thread's dictionary is looked up once, before the loop; the code
looks it up in each iteration, so it reads it not at all when there is no
synapse parameter, and `single_connect_` reads it right after. -/
def updateParamDict (numThreads : Nat) (st : ParamState σ) (k thr : Nat) (g : σ) :
    Option (ParamState σ × σ) :=
  match st.synapses[k]? with
  | none => none
  | some syn =>
    if numThreads = syn.paramDicts.length then
      match syn.paramDicts[thr]? with
      | none => none
      | some dict =>
        match fillDict thr syn.params dict g with
        | none => none
        | some (dict, g) => some (st.updateSynapse k (·.fill thr dict), g)
    else none

/-- The scratch dictionaries of one synapse spec are ready for
`update_param_dict_`: one per thread, each with exactly the keys of
`synapse_params_[ k ]` (a map, so no key twice) and under each key the datum
kind its parameter's `provides_long()` names. -/
structure SynapseParams.ScratchReady (numThreads : Nat) (syn : SynapseParams σ) : Prop where
  length : syn.paramDicts.length = numThreads
  keys_nodup : (syn.params.map Prod.fst).Nodup
  kinds : ∀ dict ∈ syn.paramDicts, dict.Matches syn.params

theorem ConnParameter.valueInt_of_providesLong {p : ConnParameter σ} (h : p.providesLong = true)
    (thr : Nat) (g : σ) : ∃ v g', p.valueInt thr g = some (v, g') := by
  rcases p with ⟨_ | v | _ | _ | vs, next⟩
  all_goals first | exact ⟨_, _, rfl⟩ | cases h

/-- Every parameter finds its entry holding the datum kind it casts to, so the
loop runs to its end and leaves the dictionary matching. -/
theorem fillDict_eq {params : List (String × ConnParameter σ)} (hnd : (params.map Prod.fst).Nodup)
    (thr : Nat) (rest : List (String × ConnParameter σ)) (hsub : rest ⊆ params) {dict : Dict}
    (h : dict.Matches params) (g : σ) :
    ∃ dict' g', fillDict thr rest dict g = some (dict', g') ∧ dict'.Matches params := by
  induction rest generalizing dict g with
  | nil => exact ⟨dict, g, rfl, h⟩
  | cons e rest ih =>
    obtain ⟨name, p⟩ := e
    have hp : (name, p) ∈ params := hsub (List.mem_cons_self _ _)
    have hrest : rest ⊆ params := fun x hx => hsub (List.mem_cons_of_mem _ hx)
    obtain ⟨old, hold, hkind⟩ := h.lookup hnd hp
    cases hl : p.providesLong
    · -- `value_double` into the `DoubleDatum` the entry holds
      rcases hv : p.valueDouble thr g with ⟨v, g₁⟩
      obtain ⟨dict', g', hfill, hm⟩ := ih hrest (h.set hnd hp (d := .double v) (by rw [hl]; rfl)) g₁
      refine ⟨dict', g', ?_, hm⟩
      rw [fillDict, if_neg (by simp [hl]), hv]
      simp only [Dict.assign_eq hold (show old.isInteger = (Datum.double v).isInteger by rw [hkind, hl]; rfl)]
      exact hfill
    · -- `value_int` into the `IntegerDatum` the entry holds
      obtain ⟨v, g₁, hv⟩ := p.valueInt_of_providesLong hl thr g
      obtain ⟨dict', g', hfill, hm⟩ := ih hrest (h.set hnd hp (d := .integer v) (by rw [hl]; rfl)) g₁
      refine ⟨dict', g', ?_, hm⟩
      rw [fillDict, if_pos hl, hv]
      simp only [Dict.assign_eq hold (show old.isInteger = (Datum.integer v).isInteger by rw [hkind, hl]; rfl)]
      exact hfill

/-- With the dictionaries ready, `update_param_dict_` on a thread of the kernel
passes its `assert`, casts every entry to the kind it holds, reads each
synapse parameter once and writes the thread's dictionary. -/
theorem updateParamDict_eq {numThreads : Nat} {st : ParamState σ} {k : Nat} {syn : SynapseParams σ}
    (hk : st.synapses[k]? = some syn) (hready : syn.ScratchReady numThreads) {thr : Nat}
    (hthr : thr < numThreads) (g : σ) :
    ∃ dict g', updateParamDict numThreads st k thr g = some (st.updateSynapse k (·.fill thr dict), g') ∧
      dict.Matches syn.params := by
  have hthr' : thr < syn.paramDicts.length := hready.length ▸ hthr
  obtain ⟨dict', g', hfill, hm⟩ := fillDict_eq hready.keys_nodup thr syn.params (fun _ hx => hx)
    (hready.kinds _ (List.getElem_mem hthr')) g
  refine ⟨dict', g', ?_, hm⟩
  simp [updateParamDict, hk, hready.length, List.getElem?_eq_getElem hthr', hfill]

/-- Rewriting parameters without changing their names or kinds keeps a
dictionary matching. -/
theorem Dict.Matches.map {dict : Dict} {params : List (String × ConnParameter σ)}
    (h : dict.Matches params) {f : String × ConnParameter σ → String × ConnParameter σ}
    (hf : ∀ q, (f q).1 = q.1 ∧ (f q).2.providesLong = q.2.providesLong) : dict.Matches (params.map f) := by
  unfold Dict.Matches at *
  rw [List.forall₂_map_right_iff]
  exact h.imp fun _ q he => by rw [(hf q).1, (hf q).2]; exact he

theorem map_fst_map {α : Type} {params : List (String × α)} {f : String × α → String × α}
    (hf : ∀ q, (f q).1 = q.1) : (params.map f).map Prod.fst = params.map Prod.fst := by
  simp [hf, Function.comp_def]

/-- `update_param_dict_` keeps the dictionaries ready. -/
theorem SynapseParams.ScratchReady.fill {numThreads : Nat} {syn : SynapseParams σ}
    (h : syn.ScratchReady numThreads) {dict : Dict} (hd : dict.Matches syn.params) (thr : Nat) :
    (syn.fill thr dict).ScratchReady numThreads where
  length := by simp [SynapseParams.fill, h.length]
  keys_nodup := by simpa [SynapseParams.fill, Function.comp_def] using h.keys_nodup
  kinds := fun d hd' => by
    rcases List.mem_or_eq_of_mem_set hd' with hd' | rfl
    · exact (h.kinds d hd').map fun _ => ⟨rfl, by simp⟩
    · exact hd.map fun _ => ⟨rfl, by simp⟩

/-- Every synapse spec's scratch dictionaries are ready. -/
def ParamState.ScratchReady (numThreads : Nat) (st : ParamState σ) : Prop :=
  ∀ (k : Nat) (syn : SynapseParams σ), st.synapses[k]? = some syn → syn.ScratchReady numThreads

/-- From a state whose dictionaries are ready, `update_param_dict_` for a synapse
spec of the builder on a thread of the kernel returns, and leaves them ready. -/
theorem ParamState.ScratchReady.updateParamDict {numThreads : Nat} {st : ParamState σ}
    (h : st.ScratchReady numThreads) {k : Nat} (hk : k < st.synapses.length) {thr : Nat}
    (hthr : thr < numThreads) (g : σ) :
    ∃ st' g', Parameters.updateParamDict numThreads st k thr g = some (st', g') ∧
      st'.ScratchReady numThreads := by
  have hsyn : st.synapses[k]? = some st.synapses[k] := List.getElem?_eq_getElem hk
  obtain ⟨dict, g', heq, hm⟩ := updateParamDict_eq hsyn (h k _ hsyn) hthr g
  refine ⟨_, g', heq, fun k' syn' hk' => ?_⟩
  rw [getElem?_updateSynapse] at hk'
  split at hk'
  · subst k'
    rw [hsyn] at hk'
    cases hk'
    exact (h k _ hsyn).fill hm thr
  · exact h k' syn' hk'

/-! ## The builder invariant -/

/-- The weight and delay of one synapse spec as the constructor leaves them:
the fast-path flag is the conjunction of the two default flags, a weight object
exists unless both are defaults, and a weight or delay taken from the synapse
model's defaults is a number, so never requires skipping. -/
structure SynapseParams.DefaultsOk (syn : SynapseParams σ) : Prop where
  defaultWeightAndDelay_eq : syn.defaultWeightAndDelay = (syn.defaultWeight && syn.defaultDelay)
  weight_isSome : syn.defaultWeightAndDelay = false → syn.weight.isSome = true
  weight_default : syn.defaultWeight = true → ∀ p ∈ syn.weight, p.requiresSkipping = false
  delay_default : syn.defaultDelay = true → syn.delay.requiresSkipping = false

/-- What the constructor establishes for one synapse spec: its weight and delay
as above, and scratch dictionaries ready. -/
structure SynapseParams.WellFormed (numThreads : Nat) (syn : SynapseParams σ)
    extends SynapseParams.DefaultsOk syn : Prop where
  ready : syn.ScratchReady numThreads

/-- The invariant of a constructed builder: every synapse spec well formed, and
every slot listed in `parameters_requiring_skipping_` once if it holds an array
and never otherwise. -/
structure ParamState.WellFormed (numThreads : Nat) (st : ParamState σ) : Prop where
  synapses : ∀ (k : Nat) (syn : SynapseParams σ), st.synapses[k]? = some syn → syn.WellFormed numThreads
  registered : ∀ s, st.skipping.count s = if (st.get s).any ConnParameter.requiresSkipping then 1 else 0

theorem SynapseParams.WellFormed.modify_skip {numThreads : Nat} {syn : SynapseParams σ}
    (h : syn.WellFormed numThreads) (thr n : Nat) (m : Member) :
    (syn.modify (·.skip thr n) m).WellFormed numThreads := by
  cases m with
  | weight =>
    refine ⟨⟨h.defaultWeightAndDelay_eq, by simpa [modify] using h.weight_isSome,
      fun hw p hp => ?_, h.delay_default⟩, ⟨h.ready.1, h.ready.2, h.ready.3⟩⟩
    obtain ⟨q, hq, rfl⟩ := Option.map_eq_some'.mp hp
    rw [ConnParameter.requiresSkipping_skip]
    exact h.weight_default hw q hq
  | delay =>
    exact ⟨⟨h.defaultWeightAndDelay_eq, h.weight_isSome, h.weight_default,
      by simpa [modify] using h.delay_default⟩, ⟨h.ready.1, h.ready.2, h.ready.3⟩⟩
  | param name =>
    have hf : ∀ q : String × ConnParameter σ,
        (if q.1 = name then (q.1, q.2.skip thr n) else q).1 = q.1 ∧
          (if q.1 = name then (q.1, q.2.skip thr n) else q).2.providesLong = q.2.providesLong :=
      fun q => by split <;> simp
    exact ⟨⟨h.defaultWeightAndDelay_eq, h.weight_isSome, h.weight_default, h.delay_default⟩,
      ⟨h.ready.length, by rw [modify, map_fst_map fun q => (hf q).1]; exact h.ready.keys_nodup,
        fun d hd => (h.ready.kinds d hd).map hf⟩⟩

theorem SynapseParams.WellFormed.fill {numThreads : Nat} {syn : SynapseParams σ}
    (h : syn.WellFormed numThreads) {dict : Dict} (hd : dict.Matches syn.params) (thr : Nat) :
    (syn.fill thr dict).WellFormed numThreads :=
  ⟨⟨h.defaultWeightAndDelay_eq, h.weight_isSome, h.weight_default, h.delay_default⟩,
    h.ready.fill hd thr⟩

@[simp] theorem SynapseParams.get_fill (syn : SynapseParams σ) (thr : Nat) (dict : Dict) (m : Member) :
    (syn.fill thr dict).get m = match m with
      | .param _ => (syn.get m).map (·.skip thr 1)
      | _ => syn.get m := by
  cases m with
  | param name => exact lookup_map_snd syn.params (·.skip thr 1) name
  | _ => rfl

@[simp] theorem ConnParameter.any_requiresSkipping_map_skip (o : Option (ConnParameter σ)) (thr n : Nat) :
    (o.map (·.skip thr n)).any ConnParameter.requiresSkipping = o.any ConnParameter.requiresSkipping := by
  cases o <;> simp

namespace ParamState.WellFormed

variable {numThreads : Nat} {st : ParamState σ}

/-- A change to one synapse spec that keeps it well formed and keeps which of
its members hold arrays keeps the invariant. -/
theorem updateSynapse (h : st.WellFormed numThreads) {k : Nat} {f : SynapseParams σ → SynapseParams σ}
    (hf : ∀ syn, st.synapses[k]? = some syn → (f syn).WellFormed numThreads ∧
      ∀ m, ((f syn).get m).any ConnParameter.requiresSkipping = (syn.get m).any ConnParameter.requiresSkipping) :
    (st.updateSynapse k f).WellFormed numThreads where
  synapses k' syn' hk' := by
    rw [getElem?_updateSynapse] at hk'
    split at hk'
    · subst k'
      obtain ⟨syn, hsyn, rfl⟩ := Option.map_eq_some'.mp hk'
      exact (hf syn hsyn).1
    · exact h.synapses k' syn' hk'
  registered s := by
    rw [skipping_updateSynapse, h.registered, get_updateSynapse]
    by_cases hk : k = s.index
    · subst hk
      cases hsyn : st.synapses[s.index]? with
      | none => simp [get, hsyn]
      | some syn => simp [get, hsyn, (hf syn hsyn).2]
    · simp [hk]

theorem scratchReady (h : st.WellFormed numThreads) : st.ScratchReady numThreads :=
  fun k syn hk => (h.synapses k syn hk).ready

theorem modify_skip (h : st.WellFormed numThreads) (s : Slot) (thr n : Nat) :
    (st.modify s (·.skip thr n)).WellFormed numThreads :=
  h.updateSynapse fun syn hsyn => ⟨(h.synapses _ syn hsyn).modify_skip thr n s.member, fun m => by
    rw [SynapseParams.get_modify]; split <;> simp⟩

theorem fill (h : st.WellFormed numThreads) {k : Nat} {syn : SynapseParams σ}
    (hk : st.synapses[k]? = some syn) {dict : Dict} (hd : dict.Matches syn.params) (thr : Nat) :
    (st.updateSynapse k (·.fill thr dict)).WellFormed numThreads :=
  h.updateSynapse fun syn' hsyn' => by
    obtain rfl : syn = syn' := Option.some.inj (hk.symm.trans hsyn')
    exact ⟨(h.synapses k syn hk).fill hd thr, fun m => by cases m <;> simp⟩

theorem skipSlots (h : st.WellFormed numThreads) (thr n : Nat) (slots : List Slot) :
    (Parameters.skipSlots thr n slots st).WellFormed numThreads := by
  induction slots generalizing st with
  | nil => exact h
  | cons s slots ih => exact ih (h.modify_skip s thr n)

theorem skipConnParameter (h : st.WellFormed numThreads) (thr n : Nat) :
    (st.skipConnParameter thr n).WellFormed numThreads :=
  h.skipSlots thr n st.skipping

end ParamState.WellFormed


/-! ## What a parameter stands for, and what the loops leave of it -/

/-- The value `value_double` returns for a parameter created from `v` whose
cursor stands at `i`; `none` for a distribution, whose value is the stream's. -/
def ParamSource.doubleAt : ParamSource σ → Nat → Option ℚ
  | .double v, _ => some v
  | .integer v, _ => some v
  | .distribution _, _ => none
  | .doubleArray vs, i => some (vs.getD i 0)
  | .integerArray vs, i => some (vs.getD i 0 : Int)

/-- The datum `update_param_dict_` writes for such a parameter: `value_int`
into an `IntegerDatum` where it provides longs, `value_double` into a
`DoubleDatum` otherwise. -/
def ParamSource.datumAt : ParamSource σ → Nat → Option Datum
  | .double v, _ => some (.double v)
  | .integer v, _ => some (.integer v)
  | .distribution _, _ => none
  | .doubleArray vs, i => some (.double (vs.getD i 0))
  | .integerArray vs, i => some (.integer (vs.getD i 0))

namespace ConnParameter

/-- A parameter that is not an array has the same value at every position. -/
theorem doubleAt_of_not_requiresSkipping {p : ConnParameter σ} (h : p.requiresSkipping = false)
    (i j : Nat) : p.source.doubleAt i = p.source.doubleAt j := by
  rcases p with ⟨_ | _ | _ | _ | _, _⟩ <;> first | rfl | cases h

theorem datumAt_of_not_requiresSkipping {p : ConnParameter σ} (h : p.requiresSkipping = false)
    (i j : Nat) : p.source.datumAt i = p.source.datumAt j := by
  rcases p with ⟨_ | _ | _ | _ | _, _⟩ <;> first | rfl | cases h

/-- `value_double` returns the value at the cursor, from any stream. -/
theorem valueDouble_fst {p : ConnParameter σ} {thr : Nat} {v : ℚ}
    (h : p.source.doubleAt (p.next thr) = some v) (g : σ) : (p.valueDouble thr g).1 = v := by
  rcases p with ⟨_ | _ | _ | _ | _, _⟩ <;> first | exact Option.some.inj h | cases h

/-- The datum `value_int` writes is the one at the cursor. -/
theorem datumAt_of_valueInt {p : ConnParameter σ} {thr : Nat} {g g' : σ} {v : Int}
    (h : p.valueInt thr g = some (v, g')) {d : Datum} (hd : p.source.datumAt (p.next thr) = some d) :
    d = .integer v := by
  rcases p with ⟨_ | _ | _ | _ | _, _⟩ <;> cases h <;> exact (Option.some.inj hd).symm

/-- The datum `value_double` writes, for a parameter that does not provide
longs, is the one at the cursor. -/
theorem datumAt_of_not_providesLong {p : ConnParameter σ} (hl : p.providesLong = false) {thr : Nat}
    {d : Datum} (hd : p.source.datumAt (p.next thr) = some d) (g : σ) :
    d = .double (p.valueDouble thr g).1 := by
  rcases p with ⟨_ | _ | _ | _ | _, _⟩
  · exact (Option.some.inj hd).symm
  · cases hl
  · cases hd
  · exact (Option.some.inj hd).symm
  · cases hl

/-- `is_scalar()`: a number, the same for every connection. -/
def isScalar (p : ConnParameter σ) : Bool :=
  match p.source with
  | .double _ | .integer _ => true
  | _ => false

/-- A number has one value, at every position. -/
theorem doubleAt_of_isScalar {p : ConnParameter σ} (h : p.isScalar = true) :
    ∃ v, ∀ i, p.source.doubleAt i = some v := by
  rcases p with ⟨_ | _ | _ | _ | _, _⟩ <;> first | exact ⟨_, fun _ => rfl⟩ | cases h

theorem datumAt_of_isScalar {p : ConnParameter σ} (h : p.isScalar = true) :
    ∃ d, ∀ i, p.source.datumAt i = some d := by
  rcases p with ⟨_ | _ | _ | _ | _, _⟩ <;> first | exact ⟨_, fun _ => rfl⟩ | cases h

theorem requiresSkipping_of_isScalar {p : ConnParameter σ} (h : p.isScalar = true) :
    p.requiresSkipping = false := by
  rcases p with ⟨_ | _ | _ | _ | _, _⟩ <;> first | rfl | cases h

/-- The parameter with every cursor back at the start. -/
def rewind (p : ConnParameter σ) : ConnParameter σ := create p.source

@[simp] theorem rewind_skip (p : ConnParameter σ) (thr n : Nat) : (p.skip thr n).rewind = p.rewind := by
  simp [rewind]

theorem source_eq_of_rewind {p p' : ConnParameter σ} (h : p'.rewind = p.rewind) : p'.source = p.source := by
  have hs := congrArg ConnParameter.source h
  exact hs

@[simp] theorem rewind_rewind (p : ConnParameter σ) : p.rewind.rewind = p.rewind := rfl

@[simp] theorem requiresSkipping_rewind (p : ConnParameter σ) :
    p.rewind.requiresSkipping = p.requiresSkipping := rfl

@[simp] theorem providesLong_rewind (p : ConnParameter σ) : p.rewind.providesLong = p.providesLong := rfl

/-- `reset()`: an array's cursors back at the start; a number has no cursor. A
distribution cannot be reset, and the call throws (`none`). -/
def reset (p : ConnParameter σ) : Option (ConnParameter σ) :=
  match p.source with
  | .distribution _ => none
  | _ => some p.rewind

theorem reset_eq {p : ConnParameter σ} (h : p.reset.isSome = true) : p.reset = some p.rewind := by
  rcases p with ⟨_ | _ | _ | _ | _, _⟩ <;> first | rfl | cases h

@[simp] theorem reset_rewind (p : ConnParameter σ) : p.rewind.reset = p.reset := rfl

/-- A parameter that can be reset does not draw: it has a value at every
position. -/
theorem doubleAt_isSome_of_reset {p : ConnParameter σ} (h : p.reset.isSome = true) (i : Nat) :
    (p.source.doubleAt i).isSome = true := by
  rcases p with ⟨_ | _ | _ | _ | _, _⟩ <;> first | rfl | cases h

theorem datumAt_isSome_of_reset {p : ConnParameter σ} (h : p.reset.isSome = true) (i : Nat) :
    (p.source.datumAt i).isSome = true := by
  rcases p with ⟨_ | _ | _ | _ | _, _⟩ <;> first | rfl | cases h

end ConnParameter

/-- Synapse spec `k` with every cursor back at the start and without its
scratch dictionaries: what the builder's loops cannot change. -/
def SynapseParams.rewind (syn : SynapseParams σ) : SynapseParams σ :=
  { syn with
    weight := syn.weight.map ConnParameter.rewind
    delay := syn.delay.rewind
    params := syn.params.map fun q => (q.1, q.2.rewind)
    paramDicts := [] }

namespace SynapseParams

@[simp] theorem rewind_fill (syn : SynapseParams σ) (thr : Nat) (dict : Dict) :
    (syn.fill thr dict).rewind = syn.rewind := by
  simp [rewind, fill, Function.comp_def]

@[simp] theorem rewind_modify_skip (syn : SynapseParams σ) (thr n : Nat) (m : Member) :
    (syn.modify (·.skip thr n) m).rewind = syn.rewind := by
  cases m with
  | param name =>
    simp only [rewind, modify, List.map_map, SynapseParams.mk.injEq, and_true, true_and]
    congr 1
    funext q
    by_cases hq : q.1 = name <;> simp [hq]
  | _ => simp [rewind, modify, Function.comp_def]

theorem get_rewind (syn : SynapseParams σ) (m : Member) :
    syn.rewind.get m = (syn.get m).map ConnParameter.rewind := by
  cases m with
  | param name => exact lookup_map_snd syn.params ConnParameter.rewind name
  | _ => rfl

/-- Two specs with the same rewinding hold, member by member, parameters made
from the same values. -/
theorem source_of_rewind {syn syn' : SynapseParams σ} (h : syn'.rewind = syn.rewind) {m : Member}
    {p : ConnParameter σ} (hp : syn.get m = some p) :
    ∃ p', syn'.get m = some p' ∧ p'.source = p.source := by
  have hm := congrArg (·.get m) h
  simp only [get_rewind, hp, Option.map_some'] at hm
  obtain ⟨p', hp', hrw⟩ := Option.map_eq_some'.mp hm
  exact ⟨p', hp', ConnParameter.source_eq_of_rewind hrw⟩

end SynapseParams

/-- Synapse spec `k` with every cursor back at the start, as the resets before
the replay of `make_symmetric` leave it. -/
def SynapseParams.restart (syn : SynapseParams σ) : SynapseParams σ :=
  { syn with
    weight := syn.weight.map ConnParameter.rewind
    delay := syn.delay.rewind
    params := syn.params.map fun q => (q.1, q.2.rewind) }

namespace SynapseParams

@[simp] theorem rewind_restart (syn : SynapseParams σ) : syn.restart.rewind = syn.rewind := by
  simp [rewind, restart, Function.comp_def]

theorem get_restart (syn : SynapseParams σ) (m : Member) :
    syn.restart.get m = (syn.get m).map ConnParameter.rewind := by
  cases m with
  | param name => exact lookup_map_snd syn.params ConnParameter.rewind name
  | _ => rfl

/-- Putting the cursors back keeps a spec well formed: its flags, dictionaries,
keys and kinds stay. -/
theorem WellFormed.restart {numThreads : Nat} {syn : SynapseParams σ} (h : syn.WellFormed numThreads) :
    syn.restart.WellFormed numThreads where
  defaultWeightAndDelay_eq := h.defaultWeightAndDelay_eq
  weight_isSome := by simpa [SynapseParams.restart] using h.weight_isSome
  weight_default hw p hp := by
    obtain ⟨q, hq, rfl⟩ := Option.map_eq_some'.mp hp
    exact h.weight_default hw q hq
  delay_default := h.delay_default
  ready := ⟨h.ready.length, by simpa [SynapseParams.restart, Function.comp_def] using h.ready.keys_nodup,
    fun d hd => (h.ready.kinds d hd).map fun _ => ⟨rfl, rfl⟩⟩

end SynapseParams

/-- What the builder's loops cannot change: every synapse spec rewound. -/
def ParamState.rewind (st : ParamState σ) : List (SynapseParams σ) :=
  st.synapses.map SynapseParams.rewind

namespace ParamState

theorem rewind_updateSynapse (st : ParamState σ) (k : Nat) {f : SynapseParams σ → SynapseParams σ}
    (hf : ∀ syn, (f syn).rewind = syn.rewind) : (st.updateSynapse k f).rewind = st.rewind := by
  refine List.ext_getElem (by simp [rewind, updateSynapse]) fun i _ _ => ?_
  simp only [rewind, updateSynapse, List.getElem_map, List.getElem_modify]
  split <;> simp [hf]

@[simp] theorem rewind_modify_skip (st : ParamState σ) (s : Slot) (thr n : Nat) :
    (st.modify s (·.skip thr n)).rewind = st.rewind :=
  st.rewind_updateSynapse _ fun syn => syn.rewind_modify_skip thr n s.member

theorem rewind_skipConnParameter (st : ParamState σ) (thr n : Nat) :
    (st.skipConnParameter thr n).rewind = st.rewind := by
  unfold skipConnParameter
  generalize st.skipping = slots
  induction slots generalizing st with
  | nil => rfl
  | cons s slots ih => rw [skipSlots, ih, rewind_modify_skip]

/-- The state with every cursor back at the start. -/
def restart (st : ParamState σ) : ParamState σ := { st with synapses := st.synapses.map SynapseParams.restart }

theorem get_restart (st : ParamState σ) (s : Slot) :
    st.restart.get s = (st.get s).map ConnParameter.rewind := by
  simp only [get, restart, List.getElem?_map]
  cases st.synapses[s.index]? <;> simp [SynapseParams.get_restart]

@[simp] theorem rewind_restart (st : ParamState σ) : st.restart.rewind = st.rewind := by
  simp [rewind, restart, Function.comp_def]

theorem atStart_restart (st : ParamState σ) : st.restart.AtStart := fun s p hp => by
  rw [get_restart] at hp
  obtain ⟨q, -, rfl⟩ := Option.map_eq_some'.mp hp
  rfl

theorem WellFormed.restart {numThreads : Nat} {st : ParamState σ} (h : st.WellFormed numThreads) :
    st.restart.WellFormed numThreads where
  synapses k syn hk := by
    simp only [ParamState.restart, List.getElem?_map] at hk
    obtain ⟨syn₀, hk₀, rfl⟩ := Option.map_eq_some'.mp hk
    exact (h.synapses k syn₀ hk₀).restart
  registered s := by
    rw [get_restart, show st.restart.skipping = st.skipping from rfl, h.registered s]
    cases st.get s <;> rfl

/-- A spec of a state with the same rewinding as `st` is its spec rewound. -/
theorem synapse_of_rewind {st st' : ParamState σ} (h : st'.rewind = st.rewind) {k : Nat}
    {syn : SynapseParams σ} (hk : st.synapses[k]? = some syn) :
    ∃ syn', st'.synapses[k]? = some syn' ∧ syn'.rewind = syn.rewind := by
  have hk' := congrArg (·[k]?) h
  simp only [rewind, List.getElem?_map, hk, Option.map_some'] at hk'
  exact Option.map_eq_some'.mp hk'

end ParamState

/-! ## The scratch dictionary after `update_param_dict_` -/

theorem Dict.lookup_set (dict : Dict) (name n : String) (d : Datum) :
    (dict.set name d).lookup n = if n = name then (dict.lookup n).map fun _ => d else dict.lookup n := by
  induction dict with
  | nil => simp [Dict.set]
  | cons e dict ih =>
    obtain ⟨m, a⟩ := e
    simp only [Dict.set, List.map_cons] at ih ⊢
    by_cases hm : m = name
    · subst hm
      by_cases hn : n = m <;> simp [lookup_cons_ite, hn, ih]
    · by_cases hn : n = m
      · subst hn; simp [lookup_cons_ite, hm]
      · simp [lookup_cons_ite, hm, hn, ih]

theorem mem_of_lookup_eq_some {α : Type} {l : List (String × α)} {k : String} {b : α}
    (h : l.lookup k = some b) : (k, b) ∈ l := by
  obtain ⟨l₁, l₂, rfl, -⟩ := List.lookup_eq_some_iff.mp h
  exact List.mem_append_right _ (List.mem_cons_self _ _)

theorem lookup_eq_none_of_not_mem {α : Type} {l : List (String × α)} {k : String}
    (h : k ∉ l.map Prod.fst) : l.lookup k = none :=
  List.lookup_eq_none_iff.mpr fun _ hq => bne_iff_ne.mpr fun he => h (he ▸ List.mem_map_of_mem _ hq)

/-- Two dictionaries with the same keys, none twice, and the same entries are
equal. -/
theorem Dict.eq_of_lookup : ∀ {dict dict' : Dict}, dict.map Prod.fst = dict'.map Prod.fst →
    (dict.map Prod.fst).Nodup → (∀ n, dict.lookup n = dict'.lookup n) → dict = dict'
  | [], [], _, _, _ => rfl
  | (n, a) :: dict, (n', a') :: dict', hk, hnd, hl => by
    simp only [List.map_cons, List.cons.injEq, List.nodup_cons] at hk hnd
    obtain ⟨rfl, hk⟩ := hk
    have ha : a = a' := by simpa [lookup_cons_ite] using hl n
    refine ha ▸ congrArg _ (Dict.eq_of_lookup hk hnd.2 fun m => ?_)
    by_cases hm : m = n
    · subst hm
      rw [lookup_eq_none_of_not_mem hnd.1, lookup_eq_none_of_not_mem (hk ▸ hnd.1)]
    · simpa [lookup_cons_ite, hm] using hl m

theorem Dict.keys_set (dict : Dict) (name : String) (d : Datum) :
    (dict.set name d).map Prod.fst = dict.map Prod.fst := by
  simp only [Dict.set, List.map_map]
  congr 1
  funext e
  by_cases he : e.1 = name <;> simp [he]

/-- A write that succeeds stores the datum under its key and nothing else. -/
theorem Dict.assign_some {dict dict' : Dict} {name : String} {d : Datum}
    (h : dict.assign name d = some dict') :
    dict'.lookup name = some d ∧ (∀ n, n ≠ name → dict'.lookup n = dict.lookup n) ∧
      dict'.map Prod.fst = dict.map Prod.fst := by
  unfold Dict.assign at h
  split at h
  · next old hold =>
    split_ifs at h
    cases h
    exact ⟨by simp [Dict.lookup_set, hold], fun n hn => by simp [Dict.lookup_set, hn],
      Dict.keys_set dict name d⟩
  · cases h

theorem Dict.Matches.keys {dict : Dict} {params : List (String × ConnParameter σ)}
    (h : dict.Matches params) : dict.map Prod.fst = params.map Prod.fst := by
  induction h with
  | nil => rfl
  | cons he _ ih => simp [he.1, ih]

/-- One iteration of the loop of `update_param_dict_`: the datum it writes for a
parameter that does not draw from the stream is the parameter's value at the
cursor. -/
theorem fillDict_cons_some {thr : Nat} {name : String} {p : ConnParameter σ}
    {rest : List (String × ConnParameter σ)} {dict : Dict} {g : σ} {r : Dict × σ}
    (h : fillDict thr ((name, p) :: rest) dict g = some r) :
    ∃ d g₁ dict₁, dict.assign name d = some dict₁ ∧ fillDict thr rest dict₁ g₁ = some r ∧
      ∀ d', p.source.datumAt (p.next thr) = some d' → d' = d := by
  unfold fillDict at h
  split_ifs at h with hl
  · split at h
    · cases h
    · next v g₁ hv =>
      obtain ⟨dict₁, hd, hrest⟩ := Option.bind_eq_some.mp h
      exact ⟨_, g₁, dict₁, hd, hrest, fun d' hd' => ConnParameter.datumAt_of_valueInt hv hd'⟩
  · obtain ⟨dict₁, hd, hrest⟩ := Option.bind_eq_some.mp h
    exact ⟨_, _, dict₁, hd, hrest, fun d' hd' =>
      ConnParameter.datumAt_of_not_providesLong (Bool.of_not_eq_true hl) hd' g⟩

/-- After the loop of `update_param_dict_` the dictionary has its keys, and the
entry of every parameter that does not draw from the stream holds the
parameter's value at the cursor; the other entries are as they were. -/
theorem fillDict_lookup (thr : Nat) :
    ∀ {rest : List (String × ConnParameter σ)} {dict dict' : Dict} {g g' : σ},
      fillDict thr rest dict g = some (dict', g') → (rest.map Prod.fst).Nodup →
        dict'.map Prod.fst = dict.map Prod.fst ∧
        (∀ n, n ∉ rest.map Prod.fst → dict'.lookup n = dict.lookup n) ∧
        ∀ name p, rest.lookup name = some p → ∀ d, p.source.datumAt (p.next thr) = some d →
          dict'.lookup name = some d
  | [], _, _, _, _, h, _ => by
    cases h
    exact ⟨rfl, fun _ _ => rfl, fun _ _ hp => by cases hp⟩
  | (name, p) :: rest, dict, dict', g, g', h, hnd => by
    obtain ⟨d, g₁, dict₁, hassign, hrest, hd⟩ := fillDict_cons_some h
    rw [List.map_cons, List.nodup_cons] at hnd
    obtain ⟨hset₁, hframe₁, hkeys₁⟩ := Dict.assign_some hassign
    obtain ⟨hkeys, hframe, hvals⟩ := fillDict_lookup thr hrest hnd.2
    refine ⟨hkeys.trans hkeys₁, fun n hn => ?_, fun n q hq d' hd' => ?_⟩
    · rw [List.map_cons, List.mem_cons, not_or] at hn
      rw [hframe n hn.2, hframe₁ n hn.1]
    · rw [lookup_cons_ite] at hq
      split_ifs at hq with hn
      · -- the entry of this iteration, which no later one overwrites
        cases hq
        subst hn
        rw [hframe n hnd.1, hset₁, hd d' hd']
      · exact hvals n q hq d' hd'

end NestConnBuilder.Parameters
