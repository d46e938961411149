import NestConnBuilder.Values

/-!
# The threads of `connect_` do not interfere through the parameters

Every thread of the parallel region of a rule's `connect_` calls
`single_connect_( s, target, tid, rng )` and `skip_conn_parameter_( tid, n )`
on one `ConnBuilder`, whose weight, delay and synapse-parameter objects all
threads share. An array keeps one cursor `next_[ tid ]` per thread, and
`param_dicts_[ k ]` one scratch dictionary per thread: a call of thread `tid`
moves only its own cursors, writes only its own dictionaries, and reads
nothing another thread writes. A distribution draws from the stream the
caller passes, the thread's own.

The proof separates what a thread sees (`ConnParameter.view`,
`SynapseParams.SameFor`, `ParamState.SameFor`) from the rest. A run of thread
`tid` leaves what every other thread sees unchanged, and its calls, its stream
and what it leaves for itself depend only on what it sees (`execCalls_local`).
A state is determined by what all threads see (`ParamState.SameFor.ext`), so
the runs of two threads commute, and a whole region, in any interleaving of
its threads' steps, ends as every thread's solo run says (`SoloAgrees`).

## Main results

* `execCalls_local` — a run of thread `tid` changes only what `tid` sees, and
  from every state where `tid` sees the same it makes the same calls.
* `threads_commute` — the runs of two different threads, in either order,
  make the same calls, leave the same streams and end in the same state.
* `schedules_agree` — two interleavings that give every thread the same
  actions in the same order end alike.
* `region_values` — from a constructed builder, every interleaving of a
  region runs to its end, and every thread's calls read each synapse spec at
  the positions of the edges its own actions create.
-/

namespace NestConnBuilder.Parameters

variable {σ : Type}

/-! ## What one thread sees -/

namespace ConnParameter

/-- What thread `thr` sees of a parameter object: what it was made from and
its own cursor. -/
def view (p : ConnParameter σ) (thr : Nat) : ConnParameter σ := ⟨p.source, fun _ => p.next thr⟩

theorem view_eq_view {p q : ConnParameter σ} {thr : Nat} :
    p.view thr = q.view thr ↔ p.source = q.source ∧ p.next thr = q.next thr := by
  refine ⟨fun h => ⟨(congrArg source h :), (congrFun (congrArg next h) 0 :)⟩, fun ⟨hs, hn⟩ => ?_⟩
  simp [view, hs, hn]

/-- A parameter object is what all threads see of it. -/
theorem ext_view {p q : ConnParameter σ} (h : ∀ i, p.view i = q.view i) : p = q := by
  obtain ⟨ps, pn⟩ := p
  obtain ⟨qs, qn⟩ := q
  have hs : ps = qs := (view_eq_view.mp (h 0)).1
  have hn : pn = qn := funext fun i => (view_eq_view.mp (h i)).2
  rw [hs, hn]

theorem valueDouble_view (p : ConnParameter σ) (thr : Nat) (g : σ) :
    (p.view thr).valueDouble thr g = p.valueDouble thr g := by
  rcases p with ⟨_ | _ | _ | _ | _, _⟩ <;> rfl

theorem valueInt_view (p : ConnParameter σ) (thr : Nat) (g : σ) :
    (p.view thr).valueInt thr g = p.valueInt thr g := by
  rcases p with ⟨_ | _ | _ | _ | _, _⟩ <;> rfl

@[simp] theorem providesLong_view (p : ConnParameter σ) (thr : Nat) :
    (p.view thr).providesLong = p.providesLong := rfl

@[simp] theorem requiresSkipping_view (p : ConnParameter σ) (thr : Nat) :
    (p.view thr).requiresSkipping = p.requiresSkipping := rfl

/-- A step of another thread's cursor is invisible to thread `i`. -/
theorem view_skip_of_ne {i thr : Nat} (hi : i ≠ thr) (p : ConnParameter σ) (n : Nat) :
    (p.skip thr n).view i = p.view i := by
  unfold skip
  split <;> simp [view, Function.update_noteq hi]

@[simp] theorem view_source (p : ConnParameter σ) (thr : Nat) : (p.view thr).source = p.source := rfl

@[simp] theorem view_next (p : ConnParameter σ) (thr i : Nat) : (p.view thr).next i = p.next thr := rfl

@[simp] theorem view_view (p : ConnParameter σ) (thr : Nat) : (p.view thr).view thr = p.view thr := rfl

/-- What thread `thr` sees after a step of its own cursor. -/
theorem view_skip_eq (p : ConnParameter σ) (thr n : Nat) :
    (p.skip thr n).view thr = ⟨p.source, fun _ => p.next thr + if p.requiresSkipping then n else 0⟩ := by
  unfold skip
  split <;> simp [view, *]

end ConnParameter

theorem eq_of_map_view {o o' : Option (ConnParameter σ)}
    (h : ∀ i, o.map (·.view i) = o'.map (·.view i)) : o = o' := by
  cases o with
  | none => cases o' with
    | none => rfl
    | some _ => cases h 0
  | some p => cases o' with
    | none => cases h 0
    | some q => exact congrArg some (ConnParameter.ext_view fun i => Option.some.inj (h i))

theorem eq_of_map_view_params {l l' : List (String × ConnParameter σ)}
    (h : ∀ i, l.map (fun q => (q.1, q.2.view i)) = l'.map fun q => (q.1, q.2.view i)) : l = l' :=
  List.ext_getElem? fun k => by
    have hk := fun i => congrArg (·[k]?) (h i)
    simp only [List.getElem?_map] at hk
    cases hl : l[k]? with
    | none => cases hl' : l'[k]? with
      | none => rfl
      | some _ => simp [hl, hl'] at hk
    | some q => cases hl' : l'[k]? with
      | none => simp [hl, hl'] at hk
      | some q' =>
        simp only [hl, hl', Option.map_some', Option.some.injEq, Prod.mk.injEq] at hk
        exact congrArg some (Prod.ext (hk 0).1 (ConnParameter.ext_view fun i => (hk i).2))

namespace SynapseParams

/-- What thread `thr` sees of a synapse spec besides its scratch dictionaries:
the model and flags, and every parameter object through its cursor. -/
def view (syn : SynapseParams σ) (thr : Nat) : SynapseParams σ :=
  { syn with
    weight := syn.weight.map (·.view thr)
    delay := syn.delay.view thr
    params := syn.params.map fun q => (q.1, q.2.view thr)
    paramDicts := [] }

/-- Thread `thr` sees the same of two synapse specs: the same objects through
its cursors, as many scratch dictionaries, and the same one of its own. -/
structure SameFor (thr : Nat) (syn syn₀ : SynapseParams σ) : Prop where
  view : syn₀.view thr = syn.view thr
  length : syn₀.paramDicts.length = syn.paramDicts.length
  dict : syn₀.paramDicts[thr]? = syn.paramDicts[thr]?

namespace SameFor

variable {thr : Nat} {syn syn₀ syn₁ : SynapseParams σ}

theorem refl (syn : SynapseParams σ) : syn.SameFor thr syn := ⟨rfl, rfl, rfl⟩

theorem symm (h : syn.SameFor thr syn₀) : syn₀.SameFor thr syn := ⟨h.view.symm, h.length.symm, h.dict.symm⟩

theorem trans (h : syn.SameFor thr syn₁) (h' : syn₁.SameFor thr syn₀) : syn.SameFor thr syn₀ :=
  ⟨h'.view.trans h.view, h'.length.trans h.length, h'.dict.trans h.dict⟩

theorem synapseModelId (h : syn.SameFor thr syn₀) : syn₀.synapseModelId = syn.synapseModelId :=
  (congrArg SynapseParams.synapseModelId h.view :)

theorem defaultWeight (h : syn.SameFor thr syn₀) : syn₀.defaultWeight = syn.defaultWeight :=
  (congrArg SynapseParams.defaultWeight h.view :)

theorem defaultDelay (h : syn.SameFor thr syn₀) : syn₀.defaultDelay = syn.defaultDelay :=
  (congrArg SynapseParams.defaultDelay h.view :)

theorem defaultWeightAndDelay (h : syn.SameFor thr syn₀) :
    syn₀.defaultWeightAndDelay = syn.defaultWeightAndDelay :=
  (congrArg SynapseParams.defaultWeightAndDelay h.view :)

theorem params (h : syn.SameFor thr syn₀) :
    syn₀.params.map (fun q => (q.1, q.2.view thr)) = syn.params.map fun q => (q.1, q.2.view thr) :=
  (congrArg SynapseParams.params h.view :)

theorem delay_valueDouble (h : syn.SameFor thr syn₀) (g : σ) :
    syn₀.delay.valueDouble thr g = syn.delay.valueDouble thr g := by
  rw [← ConnParameter.valueDouble_view, ← ConnParameter.valueDouble_view syn.delay]
  exact congrArg (·.valueDouble thr g) (congrArg SynapseParams.delay h.view)

theorem weight_some (h : syn.SameFor thr syn₀) {w : ConnParameter σ} (hw : syn.weight = some w) :
    ∃ w₀, syn₀.weight = some w₀ ∧ ∀ g, w₀.valueDouble thr g = w.valueDouble thr g := by
  have hv : syn₀.weight.map (·.view thr) = syn.weight.map (·.view thr) :=
    (congrArg SynapseParams.weight h.view :)
  rw [hw, Option.map_some'] at hv
  obtain ⟨w₀, hw₀, he⟩ := Option.map_eq_some'.mp hv
  refine ⟨w₀, hw₀, fun g => ?_⟩
  rw [← ConnParameter.valueDouble_view, he, ConnParameter.valueDouble_view]

end SameFor

/-- A spec is what all threads see of it. -/
theorem SameFor.ext {syn syn₀ : SynapseParams σ} (h : ∀ i, syn.SameFor i syn₀) : syn₀ = syn := by
  have hw := eq_of_map_view fun i => congrArg SynapseParams.weight (h i).view
  have hd := ConnParameter.ext_view fun i => congrArg SynapseParams.delay (h i).view
  have hp := eq_of_map_view_params fun i => (h i).params
  have hdicts : syn₀.paramDicts = syn.paramDicts := List.ext_getElem? fun i => (h i).dict
  obtain ⟨_, _, _, _, _, _, _, _⟩ := syn
  obtain ⟨_, _, _, _, _, _, _, _⟩ := syn₀
  simp only [SynapseParams.mk.injEq]
  exact ⟨(h 0).synapseModelId, (h 0).defaultWeight, (h 0).defaultDelay, (h 0).defaultWeightAndDelay, hw, hd,
    hp, hdicts⟩

@[simp] theorem paramDicts_modify (syn : SynapseParams σ) (f : ConnParameter σ → ConnParameter σ) (m : Member) :
    (syn.modify f m).paramDicts = syn.paramDicts := by
  cases m <;> rfl

/-- What thread `thr` sees after a step of its cursor on a member is what it
saw before, stepped. -/
theorem view_modify_skip (syn : SynapseParams σ) (thr n : Nat) (m : Member) :
    (syn.modify (·.skip thr n) m).view thr = ((syn.view thr).modify (·.skip thr n) m).view thr := by
  cases m with
  | param name =>
    simp only [view, modify, List.map_map, SynapseParams.mk.injEq, true_and, and_true, Option.map_map,
      Function.comp_def, ConnParameter.view_view]
    refine List.map_congr_left fun e _ => ?_
    by_cases he : e.1 = name <;> simp only [he, ↓reduceIte, ConnParameter.view_skip_eq, ConnParameter.view_source,
      ConnParameter.view_next, ConnParameter.requiresSkipping_view, ConnParameter.view_view]
  | _ => simp only [view, modify, Option.map_map, Function.comp_def, ConnParameter.view_skip_eq,
      ConnParameter.view_source, ConnParameter.view_next, ConnParameter.requiresSkipping_view,
      ConnParameter.view_view, List.map_map]

/-- A step of another thread's cursor on a member is invisible to thread `i`. -/
theorem view_modify_skip_of_ne {i thr : Nat} (hi : i ≠ thr) (syn : SynapseParams σ) (n : Nat) (m : Member) :
    (syn.modify (·.skip thr n) m).view i = syn.view i := by
  cases m with
  | param name =>
    simp only [view, modify, List.map_map, SynapseParams.mk.injEq, true_and, and_true]
    refine List.map_congr_left fun e _ => ?_
    by_cases he : e.1 = name <;> simp only [Function.comp_apply, he, ↓reduceIte, ConnParameter.view_skip_of_ne hi]
  | _ => simp only [view, modify, Option.map_map, Function.comp_def, ConnParameter.view_skip_of_ne hi]

theorem view_fill (syn : SynapseParams σ) (thr : Nat) (dict : Dict) :
    (syn.fill thr dict).view thr = ((syn.view thr).fill thr dict).view thr := by
  simp only [view, fill, List.map_map, Function.comp_def, ConnParameter.view_skip_eq, List.set_nil,
    Option.map_map, ConnParameter.view_view, ConnParameter.view_source, ConnParameter.view_next,
    ConnParameter.requiresSkipping_view]

theorem view_fill_of_ne {i thr : Nat} (hi : i ≠ thr) (syn : SynapseParams σ) (dict : Dict) :
    (syn.fill thr dict).view i = syn.view i := by
  simp only [view, fill, List.map_map, Function.comp_def, ConnParameter.view_skip_of_ne hi]

/-- A step of thread `thr` on a member keeps what `thr` sees the same on both
sides. -/
theorem SameFor.modify_skip {thr : Nat} {syn syn₀ : SynapseParams σ} (h : syn.SameFor thr syn₀) (n : Nat)
    (m : Member) : (syn.modify (·.skip thr n) m).SameFor thr (syn₀.modify (·.skip thr n) m) :=
  ⟨by rw [view_modify_skip, h.view, ← view_modify_skip], by simpa using h.length, by simpa using h.dict⟩

theorem sameFor_modify_skip {i thr : Nat} (hi : i ≠ thr) (syn : SynapseParams σ) (n : Nat) (m : Member) :
    syn.SameFor i (syn.modify (·.skip thr n) m) :=
  ⟨view_modify_skip_of_ne hi syn n m, by simp, by simp⟩

theorem SameFor.fill {thr : Nat} {syn syn₀ : SynapseParams σ} (h : syn.SameFor thr syn₀) (dict : Dict) :
    (syn.fill thr dict).SameFor thr (syn₀.fill thr dict) :=
  ⟨by rw [view_fill, h.view, ← view_fill], by simp [SynapseParams.fill, h.length],
    by simp [SynapseParams.fill, List.getElem?_set, h.length]⟩

theorem sameFor_fill {i thr : Nat} (hi : i ≠ thr) (syn : SynapseParams σ) (dict : Dict) :
    syn.SameFor i (syn.fill thr dict) :=
  ⟨view_fill_of_ne hi syn dict, by simp [fill], by simp [fill, List.getElem?_set_ne (Ne.symm hi)]⟩

end SynapseParams

/-- Thread `thr` sees the same of two parameter states: the same registered
slots, as many synapse specs, and spec by spec the same. -/
structure ParamState.SameFor (thr : Nat) (st st₀ : ParamState σ) : Prop where
  skipping : st₀.skipping = st.skipping
  length : st₀.synapses.length = st.synapses.length
  synapse : ∀ (k : Nat) (syn syn₀ : SynapseParams σ), st.synapses[k]? = some syn → st₀.synapses[k]? = some syn₀ →
    syn.SameFor thr syn₀

/-- Only what thread `thr` sees differs between the two states. -/
def ParamState.Frame (thr : Nat) (st st' : ParamState σ) : Prop :=
  ∀ i, i ≠ thr → st.SameFor i st'

namespace ParamState

namespace SameFor

variable {thr : Nat} {st st₀ st₁ : ParamState σ}

theorem refl (st : ParamState σ) : st.SameFor thr st :=
  ⟨rfl, rfl, fun k _ _ hk hk₀ => by rw [hk₀] at hk; cases hk; exact .refl _⟩

theorem getElem? (h : st.SameFor thr st₀) {k : Nat} {syn : SynapseParams σ} (hk : st.synapses[k]? = some syn) :
    ∃ syn₀, st₀.synapses[k]? = some syn₀ ∧ syn.SameFor thr syn₀ := by
  have hlt : k < st₀.synapses.length := h.length ▸ (List.getElem?_eq_some_iff.mp hk).1
  exact ⟨_, List.getElem?_eq_getElem hlt, h.synapse k syn _ hk (List.getElem?_eq_getElem hlt)⟩

theorem symm (h : st.SameFor thr st₀) : st₀.SameFor thr st :=
  ⟨h.skipping.symm, h.length.symm, fun k syn₀ syn hk₀ hk => (h.synapse k syn syn₀ hk hk₀).symm⟩

theorem trans (h : st.SameFor thr st₁) (h' : st₁.SameFor thr st₀) : st.SameFor thr st₀ :=
  ⟨h'.skipping.trans h.skipping, h'.length.trans h.length, fun k syn syn₀ hk hk₀ => by
    obtain ⟨syn₁, hk₁, hs⟩ := h.getElem? hk
    exact hs.trans (h'.synapse k syn₁ syn₀ hk₁ hk₀)⟩

/-- A change to spec `k` that keeps what thread `thr` sees the same on both
sides keeps the states the same for it. -/
theorem updateSynapse (h : st.SameFor thr st₀) (k : Nat) {F : SynapseParams σ → SynapseParams σ}
    (hF : ∀ syn syn₀, syn.SameFor thr syn₀ → (F syn).SameFor thr (F syn₀)) :
    (st.updateSynapse k F).SameFor thr (st₀.updateSynapse k F) := by
  refine ⟨h.skipping, by simp [h.length], fun j syn syn₀ hj hj₀ => ?_⟩
  rw [getElem?_updateSynapse] at hj hj₀
  split_ifs at hj hj₀
  · obtain ⟨a, ha, rfl⟩ := Option.map_eq_some'.mp hj
    obtain ⟨b, hb, rfl⟩ := Option.map_eq_some'.mp hj₀
    exact hF a b (h.synapse j a b ha hb)
  · exact h.synapse j syn syn₀ hj hj₀

theorem modify_skip (h : st.SameFor thr st₀) (sl : Slot) (n : Nat) :
    (st.modify sl (·.skip thr n)).SameFor thr (st₀.modify sl (·.skip thr n)) :=
  h.updateSynapse sl.index fun _ _ hs => hs.modify_skip n sl.member

/-- A parameter state is what all threads see of it. -/
theorem ext (h : ∀ i, st.SameFor i st₀) : st₀ = st := by
  have hsyn : st₀.synapses = st.synapses := List.ext_getElem? fun k => by
    cases hk : st.synapses[k]? with
    | none =>
      rw [List.getElem?_eq_none_iff, (h 0).length]
      exact List.getElem?_eq_none_iff.mp hk
    | some syn =>
      obtain ⟨syn₀, hk₀, -⟩ := (h 0).getElem? hk
      rw [hk₀, SynapseParams.SameFor.ext fun i => (h i).synapse k syn syn₀ hk hk₀]
  obtain ⟨_, _⟩ := st
  obtain ⟨_, _⟩ := st₀
  exact congrArg₂ ParamState.mk hsyn (h 0).skipping

end SameFor

theorem sameFor_updateSynapse {i : Nat} (st : ParamState σ) (k : Nat) {F : SynapseParams σ → SynapseParams σ}
    (hF : ∀ syn : SynapseParams σ, syn.SameFor i (F syn)) : st.SameFor i (st.updateSynapse k F) := by
  refine ⟨rfl, by simp, fun j syn syn₀ hj hj₀ => ?_⟩
  rw [getElem?_updateSynapse] at hj₀
  split_ifs at hj₀
  · obtain ⟨a, ha, rfl⟩ := Option.map_eq_some'.mp hj₀
    obtain rfl := Option.some.inj (hj.symm.trans ha)
    exact hF syn
  · obtain rfl := Option.some.inj (hj.symm.trans hj₀)
    exact .refl syn

namespace Frame

variable {thr : Nat} {st st₁ st' : ParamState σ}

theorem refl (st : ParamState σ) : st.Frame thr st := fun _ _ => .refl st

theorem trans (h : st.Frame thr st₁) (h' : st₁.Frame thr st') : st.Frame thr st' :=
  fun i hi => (h i hi).trans (h' i hi)

theorem modify_skip (h : st.Frame thr st₁) (sl : Slot) (n : Nat) :
    st.Frame thr (st₁.modify sl (·.skip thr n)) :=
  fun i hi => (h i hi).trans (sameFor_updateSynapse st₁ sl.index fun syn =>
    SynapseParams.sameFor_modify_skip hi syn n sl.member)

theorem fill (h : st.Frame thr st₁) (k : Nat) (dict : Dict) :
    st.Frame thr (st₁.updateSynapse k (·.fill thr dict)) :=
  fun i hi => (h i hi).trans (sameFor_updateSynapse st₁ k fun syn => SynapseParams.sameFor_fill hi syn dict)

end Frame

end ParamState

end NestConnBuilder.Parameters

namespace NestConnBuilder.Threads

open Construction Parameters SynapseSpecs SingleConnect Values

variable {σ α : Type}

/-! ## A run of one thread -/

/-- A call of thread `thr` that took `st` to `st'` with outputs `out` is
local: it changed only what `thr` sees, and from every state where `thr` sees
the same it returns the same outputs and leaves the same for `thr`. -/
def Local (thr : Nat) (run : ParamState σ → Option (ParamState σ × α)) (st st' : ParamState σ) (out : α) :
    Prop :=
  st.Frame thr st' ∧ ∀ st₀, st.SameFor thr st₀ → ∃ st₀', run st₀ = some (st₀', out) ∧ st'.SameFor thr st₀'

/-- The cursor loop of a thread reads only the registered slots and moves
only its own cursors. -/
theorem skipSlots_local (thr n : Nat) :
    ∀ (slots : List Slot) (st : ParamState σ), st.Frame thr (skipSlots thr n slots st) ∧
      ∀ st₀, st.SameFor thr st₀ → (skipSlots thr n slots st).SameFor thr (skipSlots thr n slots st₀)
  | [], st => ⟨.refl st, fun _ h => h⟩
  | sl :: slots, st => by
    obtain ⟨hF, hS⟩ := skipSlots_local thr n slots (st.modify sl (·.skip thr n))
    exact ⟨((ParamState.Frame.refl st).modify_skip sl n).trans hF, fun st₀ h => hS _ (h.modify_skip sl n)⟩

theorem skipConnParameter_local (thr n : Nat) (st : ParamState σ) :
    st.Frame thr (st.skipConnParameter thr n) ∧
      ∀ st₀, st.SameFor thr st₀ → (st.skipConnParameter thr n).SameFor thr (st₀.skipConnParameter thr n) := by
  obtain ⟨hF, hS⟩ := skipSlots_local (σ := σ) thr n st.skipping st
  exact ⟨hF, fun st₀ h => by rw [ParamState.skipConnParameter, ParamState.skipConnParameter, h.skipping]; exact hS st₀ h⟩

/-- The loop of `update_param_dict_` reads each parameter only through the
thread's cursor. -/
theorem fillDict_view (thr : Nat) :
    ∀ (params : List (String × ConnParameter σ)) (dict : Dict) (g : σ),
      fillDict thr (params.map fun q => (q.1, q.2.view thr)) dict g = fillDict thr params dict g
  | [], _, _ => rfl
  | (name, p) :: params, dict, g => by
    simp only [List.map_cons, fillDict, ConnParameter.providesLong_view, ConnParameter.valueInt_view,
      ConnParameter.valueDouble_view, fillDict_view thr params]

theorem updateParamDict_local {numThreads k thr : Nat} {st st₁ : ParamState σ} {g g₁ : σ}
    (h : updateParamDict numThreads st k thr g = some (st₁, g₁)) :
    Local thr (updateParamDict numThreads · k thr g) st st₁ g₁ := by
  obtain ⟨syn, hsyn⟩ : ∃ syn, st.synapses[k]? = some syn := by
    cases hk : st.synapses[k]? with
    | none => simp [updateParamDict, hk] at h
    | some syn => exact ⟨syn, rfl⟩
  obtain ⟨hn, dict₀, dict, hd₀, hfill, rfl⟩ := updateParamDict_some hsyn h
  refine ⟨(ParamState.Frame.refl st).fill k dict, fun st₀ hR => ?_⟩
  obtain ⟨syn₀, hsyn₀, hs⟩ := hR.getElem? hsyn
  have hfill₀ : fillDict thr syn₀.params dict₀ g = some (dict, g₁) := by
    rw [← fillDict_view, hs.params, fillDict_view, hfill]
  refine ⟨st₀.updateSynapse k (·.fill thr dict), ?_, hR.updateSynapse k fun _ _ h => h.fill dict⟩
  simp [updateParamDict, hsyn₀, hs.length, hs.dict, hd₀, hfill₀, ← hn]

/-- One iteration of the loop of `single_connect_` on thread `thr` is local. -/
theorem connectSynapse_local {numThreads s t thr k : Nat} {st st' : ParamState σ} {g g' : σ}
    {call : ConnectCall} (h : connectSynapse numThreads s t thr k st g = some (st', g', call)) :
    Local thr (connectSynapse numThreads s t thr k · g) st st' (g', call) := by
  unfold connectSynapse at h
  split at h
  · cases h
  rename_i st₁ g₁ hupd
  obtain ⟨hF₁, hS₁⟩ := updateParamDict_local hupd
  split at h
  · cases h
  rename_i syn hsyn
  split at h
  · cases h
  rename_i dict hdict
  -- on a state where `thr` sees the same, the call reaches the same spec and dictionary
  have hpre : ∀ st₀, st.SameFor thr st₀ → ∃ st₁₀ syn₀, updateParamDict numThreads st₀ k thr g = some (st₁₀, g₁) ∧
      st₁₀.synapses[k]? = some syn₀ ∧ syn₀.paramDicts[thr]? = some dict ∧ st₁.SameFor thr st₁₀ ∧
      syn.SameFor thr syn₀ := fun st₀ hR => by
    obtain ⟨st₁₀, hupd₀, hR₁⟩ := hS₁ st₀ hR
    obtain ⟨syn₀, hsyn₀, hs⟩ := hR₁.getElem? hsyn
    exact ⟨st₁₀, syn₀, hupd₀, hsyn₀, hs.dict.trans hdict, hR₁, hs⟩
  -- and then takes the same path, which reads the same values
  cases hwd : syn.defaultWeightAndDelay
  · cases hw : syn.defaultWeight
    · cases hd : syn.defaultDelay
      · -- the delay is read, then the weight
        simp only [hwd, hw, hd, Bool.false_eq_true, if_false] at h
        split at h
        · cases h
        rename_i w hwt
        cases h
        refine ⟨(hF₁.modify_skip _ _).modify_skip _ _, fun st₀ hR => ?_⟩
        obtain ⟨st₁₀, syn₀, hupd₀, hsyn₀, hdict₀, hR₁, hs⟩ := hpre st₀ hR
        obtain ⟨w₀, hw₀, hv⟩ := hs.weight_some hwt
        refine ⟨_, ?_, (hR₁.modify_skip _ _).modify_skip _ _⟩
        simp only [connectSynapse, hupd₀, hsyn₀, hdict₀, hs.defaultWeightAndDelay, hs.defaultWeight,
          hs.defaultDelay, hs.synapseModelId, hs.delay_valueDouble, hwd, hw, hd, Bool.false_eq_true, if_false,
          hw₀, hv]
      · -- the delay is the default: only the weight is read
        simp only [hwd, hw, hd, Bool.false_eq_true, if_false, if_true] at h
        split at h
        · cases h
        rename_i w hwt
        cases h
        refine ⟨hF₁.modify_skip _ _, fun st₀ hR => ?_⟩
        obtain ⟨st₁₀, syn₀, hupd₀, hsyn₀, hdict₀, hR₁, hs⟩ := hpre st₀ hR
        obtain ⟨w₀, hw₀, hv⟩ := hs.weight_some hwt
        refine ⟨_, ?_, hR₁.modify_skip _ _⟩
        simp only [connectSynapse, hupd₀, hsyn₀, hdict₀, hs.defaultWeightAndDelay, hs.defaultWeight,
          hs.defaultDelay, hs.synapseModelId, hwd, hw, hd, Bool.false_eq_true, if_false, if_true, hw₀, hv]
    · -- the weight is the default: only the delay is read
      simp only [hwd, hw, Bool.false_eq_true, if_false, if_true] at h
      cases h
      refine ⟨hF₁.modify_skip _ _, fun st₀ hR => ?_⟩
      obtain ⟨st₁₀, syn₀, hupd₀, hsyn₀, hdict₀, hR₁, hs⟩ := hpre st₀ hR
      refine ⟨_, ?_, hR₁.modify_skip _ _⟩
      simp only [connectSynapse, hupd₀, hsyn₀, hdict₀, hs.defaultWeightAndDelay, hs.defaultWeight,
        hs.synapseModelId, hs.delay_valueDouble, hwd, hw, Bool.false_eq_true, if_false, if_true]
  · -- both are defaults: neither is read
    simp only [hwd, if_true] at h
    cases h
    refine ⟨hF₁, fun st₀ hR => ?_⟩
    obtain ⟨st₁₀, syn₀, hupd₀, hsyn₀, hdict₀, hR₁, hs⟩ := hpre st₀ hR
    refine ⟨_, ?_, hR₁⟩
    simp only [connectSynapse, hupd₀, hsyn₀, hdict₀, hs.defaultWeightAndDelay, hs.synapseModelId, hwd, if_true]

theorem connectSynapses_local {numThreads s t thr : Nat} :
    ∀ {ks : List Nat} {st st' : ParamState σ} {g g' : σ} {calls : List ConnectCall},
      connectSynapses numThreads s t thr ks st g = some (st', g', calls) →
        Local thr (connectSynapses numThreads s t thr ks · g) st st' (g', calls)
  | [], st, _, _, _, _, h => by
    cases h
    exact ⟨.refl st, fun st₀ hR => ⟨st₀, rfl, hR⟩⟩
  | k :: ks, st, st', g, g', calls, h => by
    simp only [connectSynapses] at h
    split at h
    · cases h
    rename_i st₁ g₁ call hone
    split at h
    · cases h
    rename_i st₂ g₂ calls₂ hrest
    cases h
    obtain ⟨hF₁, hS₁⟩ := connectSynapse_local hone
    obtain ⟨hF₂, hS₂⟩ := connectSynapses_local hrest
    refine ⟨hF₁.trans hF₂, fun st₀ hR => ?_⟩
    obtain ⟨st₁₀, hone₀, hR₁⟩ := hS₁ st₀ hR
    obtain ⟨st₀', hrest₀, hR'⟩ := hS₂ st₁₀ hR₁
    exact ⟨st₀', by simp [connectSynapses, hone₀, hrest₀], hR'⟩

theorem singleConnect_local {numThreads s t thr : Nat} {st st' : ParamState σ} {g g' : σ}
    {calls : List ConnectCall} (h : singleConnect numThreads st s t thr g = some (st', g', calls)) :
    Local thr (singleConnect numThreads · s t thr g) st st' (g', calls) := by
  obtain ⟨hF, hS⟩ := connectSynapses_local h
  exact ⟨hF, fun st₀ hR => by
    obtain ⟨st₀', hrun, hR'⟩ := hS st₀ hR
    exact ⟨st₀', by simp only [singleConnect, hR.length]; exact hrun, hR'⟩⟩

/-- **A run of a thread is local.** Along any run of thread `tid`, its calls
change only the cursors and scratch dictionaries of `tid`, and from every
state where `tid` sees the same it makes the same calls, leaves the same
stream, and leaves the same for `tid`. -/
theorem execCalls_local {numThreads tid : Nat} :
    ∀ (acts : List Action) {st st' : ParamState σ} {g g' : σ} {callss : List (List ConnectCall)},
      execCalls numThreads tid acts st g = some (st', g', callss) →
        Local tid (execCalls numThreads tid acts · g) st st' (g', callss)
  | [], st, _, _, _, _, h => by
    cases h
    exact ⟨.refl st, fun st₀ hR => ⟨st₀, rfl, hR⟩⟩
  | .skip n :: acts, st, _, g, _, _, h => by
    obtain ⟨hF₁, hS₁⟩ := skipConnParameter_local tid n st
    obtain ⟨hF, hS⟩ := execCalls_local acts h
    exact ⟨hF₁.trans hF, fun st₀ hR => hS _ (hS₁ st₀ hR)⟩
  | .connect s t _ :: acts, st, _, g, _, _, h => by
    simp only [execCalls] at h
    split at h
    · cases h
    rename_i st₁ g₁ calls hone
    split at h
    · cases h
    rename_i st₂ g₂ callss₂ hrest
    cases h
    obtain ⟨hF₁, hS₁⟩ := singleConnect_local hone
    obtain ⟨hF₂, hS₂⟩ := execCalls_local acts hrest
    refine ⟨hF₁.trans hF₂, fun st₀ hR => ?_⟩
    obtain ⟨st₁₀, hone₀, hR₁⟩ := hS₁ st₀ hR
    obtain ⟨st₀', hrest₀, hR'⟩ := hS₂ st₁₀ hR₁
    exact ⟨st₀', by simp [execCalls, hone₀, hrest₀], hR'⟩
  | .disconnect _ _ _ :: acts, _, _, _, _, _, h => execCalls_local acts h
  | .pre _ _ :: acts, _, _, _, _, _, h => execCalls_local acts h
  | .post _ _ :: acts, _, _, _, _, _, h => execCalls_local acts h

/-! ## Two threads -/

/-- **The runs of two threads commute.** If thread `a` runs `acts₁` and then a
different thread `b` runs `acts₂`, then `b` can run `acts₂` first and `a`
`acts₁` after it: each makes the same calls to the connection manager and
leaves the same stream, and the parameters end in the same state. -/
theorem threads_commute {numThreads a b : Nat} (hab : a ≠ b) {acts₁ acts₂ : List Action}
    {st st₁ st₁₂ : ParamState σ} {g₁ g₁' g₂ g₂' : σ} {callss₁ callss₂ : List (List ConnectCall)}
    (h₁ : execCalls numThreads a acts₁ st g₁ = some (st₁, g₁', callss₁))
    (h₂ : execCalls numThreads b acts₂ st₁ g₂ = some (st₁₂, g₂', callss₂)) :
    ∃ st₂, execCalls numThreads b acts₂ st g₂ = some (st₂, g₂', callss₂) ∧
      execCalls numThreads a acts₁ st₂ g₁ = some (st₁₂, g₁', callss₁) := by
  obtain ⟨hF₁, hS₁⟩ := execCalls_local acts₁ h₁
  obtain ⟨hF₂, hS₂⟩ := execCalls_local acts₂ h₂
  -- `b` sees the same before and after the run of `a`
  obtain ⟨st₂, hrun₂, hR₂⟩ := hS₂ st (hF₁ b (Ne.symm hab)).symm
  have hF₂' := (execCalls_local acts₂ hrun₂).1
  -- and `a` the same before and after the run of `b`
  obtain ⟨st₂₁, hrun₂₁, hR₂₁⟩ := hS₁ st₂ (hF₂' a hab)
  have hF₁' := (execCalls_local acts₁ hrun₂₁).1
  refine ⟨st₂, hrun₂, hrun₂₁.trans ?_⟩
  -- both orders leave every thread seeing the same
  suffices hend : ∀ i, st₁₂.SameFor i st₂₁ by rw [ParamState.SameFor.ext hend]
  intro i
  by_cases ha : i = a
  · subst ha
    exact (hF₂ i hab).symm.trans hR₂₁
  by_cases hb : i = b
  · subst hb
    exact hR₂.trans (hF₁' i ha)
  · exact ((hF₁ i ha).trans (hF₂ i hb)).symm.trans ((hF₂' i hb).trans (hF₁' i ha))

theorem threads_commute_two_threads :
    ∃ b st st₁ st₁₂ g₁' g₂' callss₁ callss₂,
      connBuilderParams oneModel 2 ⟨none, none, none⟩ [arrayWeightSpec] true true = some (.ok (b, st)) ∧
      execCalls 2 0 [.connect 0 5 0] st () = some (st₁, g₁', callss₁) ∧
      execCalls 2 1 [.skip 1, .connect 1 6 1] st₁ () = some (st₁₂, g₂', callss₂) ∧
      ∃ st₂, execCalls 2 1 [.skip 1, .connect 1 6 1] st () = some (st₂, g₂', callss₂) ∧
        execCalls 2 0 [.connect 0 5 0] st₂ () = some (st₁₂, g₁', callss₁) :=
  ⟨_, _, _, _, _, _, _, _, rfl, rfl, rfl, threads_commute (by decide) rfl rfl⟩

/-! ## Any interleaving -/

/-- A parallel region in one interleaving of its threads: the steps of `sched`
in order, each a thread and a part of its action list, every thread drawing
from its own stream (`get_vp_specific_rng( tid )`); the calls each thread
hands to the connection manager are collected in order. -/
def runSchedule (numThreads : Nat) :
    List (Nat × List Action) → ParamState σ × (Nat → σ) × (Nat → List (List ConnectCall)) →
      Option (ParamState σ × (Nat → σ) × (Nat → List (List ConnectCall)))
  | [], r => some r
  | (tid, acts) :: sched, (st, gs, outs) =>
    match execCalls numThreads tid acts st (gs tid) with
    | none => none
    | some (st', g', callss) =>
      runSchedule numThreads sched (st', Function.update gs tid g', Function.update outs tid (outs tid ++ callss))

/-- The actions of thread `t` in the schedule, in order. -/
def soloActs (t : Nat) (sched : List (Nat × List Action)) : List Action :=
  sched.flatMap fun s => if s.1 = t then s.2 else []

@[simp] theorem soloActs_nil (t : Nat) : soloActs t [] = [] := rfl

@[simp] theorem soloActs_cons (t tid : Nat) (acts : List Action) (sched : List (Nat × List Action)) :
    soloActs t ((tid, acts) :: sched) = (if tid = t then acts else []) ++ soloActs t sched := rfl

@[simp] theorem soloActs_append (t : Nat) (sched sched' : List (Nat × List Action)) :
    soloActs t (sched ++ sched') = soloActs t sched ++ soloActs t sched' :=
  List.flatMap_append _ _ _

/-- A thread that takes no step of the schedule has no actions. -/
theorem soloActs_eq_nil {t : Nat} :
    ∀ {sched : List (Nat × List Action)}, (∀ s ∈ sched, s.1 ≠ t) → soloActs t sched = []
  | [], _ => rfl
  | (_, _) :: _, h => by
    rw [soloActs_cons, if_neg (h _ (List.mem_cons_self _ _)),
      soloActs_eq_nil fun s hs => h s (List.mem_cons_of_mem _ hs)]
    rfl

/-- A thread running two action lists one after the other. -/
theorem execCalls_append {numThreads tid : Nat} :
    ∀ (acts₁ acts₂ : List Action) (st : ParamState σ) (g : σ),
      execCalls numThreads tid (acts₁ ++ acts₂) st g =
        (execCalls numThreads tid acts₁ st g).bind fun r =>
          (execCalls numThreads tid acts₂ r.1 r.2.1).map fun r' => (r'.1, r'.2.1, r.2.2 ++ r'.2.2)
  | [], acts₂, st, g => by simp [execCalls]
  | .skip _ :: acts₁, acts₂, _, g => execCalls_append acts₁ acts₂ _ g
  | .connect s t _ :: acts₁, acts₂, st, g => by
    rw [List.cons_append]
    simp only [execCalls]
    cases singleConnect numThreads st s t tid g with
    | none => rfl
    | some r =>
      obtain ⟨st₁, g₁, calls⟩ := r
      simp only [execCalls_append acts₁ acts₂ st₁ g₁]
      cases execCalls numThreads tid acts₁ st₁ g₁ with
      | none => rfl
      | some r₁ =>
        obtain ⟨st₂, g₂, callss₂⟩ := r₁
        simp only [Option.some_bind]
        cases execCalls numThreads tid acts₂ st₂ g₂ <;> rfl
  | .disconnect _ _ _ :: acts₁, acts₂, st, g => execCalls_append acts₁ acts₂ st g
  | .pre _ _ :: acts₁, acts₂, st, g => execCalls_append acts₁ acts₂ st g
  | .post _ _ :: acts₁, acts₂, st, g => execCalls_append acts₁ acts₂ st g

theorem isSome_execCalls_append {numThreads tid : Nat} {acts₁ : List Action} {st st₁ : ParamState σ}
    {g g₁ : σ} {callss₁ : List (List ConnectCall)}
    (h : execCalls numThreads tid acts₁ st g = some (st₁, g₁, callss₁)) (acts₂ : List Action) :
    (execCalls numThreads tid (acts₁ ++ acts₂) st g).isSome = (execCalls numThreads tid acts₂ st₁ g₁).isSome := by
  rw [execCalls_append, h, Option.some_bind, Option.isSome_map']

theorem isSome_of_execCalls_append {numThreads tid : Nat} {acts₁ acts₂ : List Action} {st : ParamState σ}
    {g : σ} (h : (execCalls numThreads tid (acts₁ ++ acts₂) st g).isSome) :
    (execCalls numThreads tid acts₁ st g).isSome := by
  rw [execCalls_append] at h
  cases h₁ : execCalls numThreads tid acts₁ st g with
  | none => rw [h₁] at h; cases h
  | some _ => rfl

section Schedule

variable {numThreads : Nat} {st₀ : ParamState σ} {gs₀ : Nat → σ}

/-- After the steps `pre`, every thread has made the calls and left the stream
of its solo run of its actions so far from `st₀`, and sees what that solo run
leaves. -/
def SoloAgrees (numThreads : Nat) (st₀ : ParamState σ) (gs₀ : Nat → σ) (pre : List (Nat × List Action))
    (st : ParamState σ) (gs : Nat → σ) (outs : Nat → List (List ConnectCall)) : Prop :=
  ∀ t, ∃ stt, execCalls numThreads t (soloActs t pre) st₀ (gs₀ t) = some (stt, gs t, outs t) ∧ st.SameFor t stt

theorem soloAgrees_nil : SoloAgrees numThreads st₀ gs₀ [] st₀ gs₀ fun _ => [] :=
  fun _ => ⟨st₀, rfl, .refl st₀⟩

/-- One step of the schedule keeps every thread in agreement with its solo run. -/
theorem SoloAgrees.step {pre : List (Nat × List Action)} {st st' : ParamState σ} {gs : Nat → σ}
    {outs : Nat → List (List ConnectCall)} (h : SoloAgrees numThreads st₀ gs₀ pre st gs outs) {tid : Nat}
    {acts : List Action} {g' : σ} {callss : List (List ConnectCall)}
    (hstep : execCalls numThreads tid acts st (gs tid) = some (st', g', callss)) :
    SoloAgrees numThreads st₀ gs₀ (pre ++ [(tid, acts)]) st' (Function.update gs tid g')
      (Function.update outs tid (outs tid ++ callss)) := by
  obtain ⟨hF, hS⟩ := execCalls_local acts hstep
  intro t
  obtain ⟨stt, hsolo, hR⟩ := h t
  simp only [soloActs_append, soloActs_cons, soloActs_nil, List.append_nil]
  by_cases ht : tid = t
  · -- the thread that ran: its solo run continues from what it saw
    subst ht
    obtain ⟨stt', hrun, hR'⟩ := hS stt hR
    refine ⟨stt', ?_, hR'⟩
    rw [if_pos rfl, execCalls_append, hsolo, Option.some_bind, Function.update_same, Function.update_same,
      show execCalls numThreads tid acts stt (gs tid) = _ from hrun]
    rfl
  · -- every other thread sees what it saw
    refine ⟨stt, ?_, (hF t (Ne.symm ht)).symm.trans hR⟩
    rw [if_neg ht, List.append_nil, Function.update_noteq (Ne.symm ht), Function.update_noteq (Ne.symm ht)]
    exact hsolo

/-- A schedule run ends in agreement with every thread's solo run. -/
theorem runSchedule_soloAgrees :
    ∀ (sched pre : List (Nat × List Action)) {st : ParamState σ} {gs : Nat → σ}
      {outs : Nat → List (List ConnectCall)} {r : ParamState σ × (Nat → σ) × (Nat → List (List ConnectCall))},
      SoloAgrees numThreads st₀ gs₀ pre st gs outs → runSchedule numThreads sched (st, gs, outs) = some r →
        SoloAgrees numThreads st₀ gs₀ (pre ++ sched) r.1 r.2.1 r.2.2
  | [], pre, _, _, _, _, h, hrun => by
    cases hrun
    simpa using h
  | (tid, acts) :: sched, pre, st, gs, _, _, h, hrun => by
    simp only [runSchedule] at hrun
    split at hrun
    · cases hrun
    rename_i st' g' callss hstep
    have := runSchedule_soloAgrees sched _ (h.step hstep) hrun
    rwa [List.append_assoc, List.singleton_append] at this

/-- A schedule whose threads' solo runs all return returns. -/
theorem runSchedule_isSome :
    ∀ (sched pre : List (Nat × List Action)) {st : ParamState σ} {gs : Nat → σ}
      {outs : Nat → List (List ConnectCall)},
      SoloAgrees numThreads st₀ gs₀ pre st gs outs →
      (∀ t, (execCalls numThreads t (soloActs t (pre ++ sched)) st₀ (gs₀ t)).isSome) →
        (runSchedule numThreads sched (st, gs, outs)).isSome
  | [], _, _, _, _, _, _ => rfl
  | (tid, acts) :: sched, pre, st, gs, outs, h, hsolo => by
    -- the solo run of `tid` reaches this step and runs its actions from what `tid` sees
    obtain ⟨stt, hrun, hR⟩ := h tid
    have hall := hsolo tid
    rw [soloActs_append, soloActs_cons, if_pos rfl, isSome_execCalls_append hrun] at hall
    obtain ⟨⟨st₁, g₁, c₁⟩, hacts⟩ := Option.isSome_iff_exists.mp (isSome_of_execCalls_append hall)
    obtain ⟨st', hstep, -⟩ := (execCalls_local acts hacts).2 st hR.symm
    simp only [runSchedule, show execCalls numThreads tid acts st (gs tid) = _ from hstep]
    exact runSchedule_isSome sched (pre ++ [(tid, acts)]) (h.step hstep) fun t => by
      simpa only [List.append_assoc, List.singleton_append] using hsolo t

end Schedule

/-- **Every interleaving of the threads gives the same result.** Two schedules
of a parallel region that give every thread the same actions in the same
order, however they cut and interleave them, end alike: if one returns, the
other returns the same parameter state, the same stream of every thread and
the same calls of every thread to the connection manager. -/
theorem schedules_agree {numThreads : Nat} {sched sched' : List (Nat × List Action)}
    (hsame : ∀ t, soloActs t sched = soloActs t sched') (st : ParamState σ) (gs : Nat → σ)
    {r : ParamState σ × (Nat → σ) × (Nat → List (List ConnectCall))}
    (h : runSchedule numThreads sched (st, gs, fun _ => []) = some r) :
    runSchedule numThreads sched' (st, gs, fun _ => []) = some r := by
  have hA := runSchedule_soloAgrees sched [] soloAgrees_nil h
  obtain ⟨r', hr'⟩ := Option.isSome_iff_exists.mp (runSchedule_isSome sched' [] soloAgrees_nil fun t => by
    obtain ⟨stt, hsolo, -⟩ := hA t
    rw [List.nil_append] at hsolo ⊢
    rw [← hsame t, hsolo]
    rfl)
  have hA' := runSchedule_soloAgrees sched' [] soloAgrees_nil hr'
  -- every thread's solo run is the same in both, so are the ends
  obtain ⟨st', gs', outs'⟩ := r
  obtain ⟨st'', gs'', outs''⟩ := r'
  have hsolo : ∀ t, gs'' t = gs' t ∧ outs'' t = outs' t ∧ st'.SameFor t st'' := fun t => by
    obtain ⟨stt, h₁, hR₁⟩ := hA t
    obtain ⟨stt', h₂, hR₂⟩ := hA' t
    rw [List.nil_append] at h₁ h₂
    rw [← hsame t, h₁, Option.some.injEq, Prod.mk.injEq, Prod.mk.injEq] at h₂
    obtain ⟨rfl, hg, ho⟩ := h₂
    exact ⟨hg.symm, ho.symm, hR₁.trans hR₂.symm⟩
  rw [hr', ParamState.SameFor.ext fun t => (hsolo t).2.2, funext fun t => (hsolo t).1,
    funext fun t => (hsolo t).2.1]

theorem schedules_agree_two_threads :
    ∃ b st r, connBuilderParams oneModel 2 ⟨none, none, none⟩ [arrayWeightSpec] true true = some (.ok (b, st)) ∧
      runSchedule 2 [(0, [.connect 0 5 0]), (1, [.skip 1]), (0, [.skip 2]), (1, [.connect 1 6 1])]
        (st, fun _ => (), fun _ => []) = some r ∧
      runSchedule 2 [(1, [.skip 1, .connect 1 6 1]), (0, [.connect 0 5 0, .skip 2])]
        (st, fun _ => (), fun _ => []) = some r := by
  refine ⟨_, _, _, rfl, rfl, ?_⟩
  apply @schedules_agree _ _ [(0, [.connect 0 5 0]), (1, [.skip 1]), (0, [.skip 2]), (1, [.connect 1 6 1])]
  · exact fun | 0 => rfl | 1 => rfl | _ + 2 => rfl
  · rfl

/-- **Values in any interleaving.** From a builder the constructor returns,
every schedule of a parallel region over threads `0 … numThreads - 1`, from
any streams, runs to its end, and each thread hands the connection manager,
for the `i`-th edge its own actions create, the calls of `execCalls_reads`:
every synapse spec read at the edge's position. -/
theorem region_values {mm : ModelManager σ} {numThreads : Nat} {spec : ConnSpec}
    {synSpecs : List (SynapseDict σ)} {sourcesValid targetsValid : Bool} {b : BaseBuilder}
    {st : ParamState σ}
    (h : connBuilderParams mm numThreads spec synSpecs sourcesValid targetsValid = some (.ok (b, st)))
    (sched : List (Nat × List Action)) (hsched : ∀ s ∈ sched, s.1 < numThreads) (gs : Nat → σ) :
    ∃ st' gs' outs, runSchedule numThreads sched (st, gs, fun _ => []) = some (st', gs', outs) ∧
      ∀ t < numThreads, List.Forall₂ (EdgeCalls st.synapses t) (Worker.init.exec (soloActs t sched)).edges
        (outs t) := by
  obtain ⟨-, hwf, h₀, -⟩ := connBuilderParams_eq_ok h
  -- every thread's solo run returns and reads at its edges' positions
  have hsolo : ∀ t < numThreads, ∃ st' g' callss,
      execCalls numThreads t (soloActs t sched) st (gs t) = some (st', g', callss) ∧
        List.Forall₂ (EdgeCalls st.synapses t) (Worker.init.exec (soloActs t sched)).edges callss :=
    fun t ht => by
      obtain ⟨st', g', callss, hrun, -, hcalls⟩ :=
        execCalls_reads ht (soloActs t sched) st (gs t) 0 hwf (lockstep_of_atStart hwf h₀ t)
      exact ⟨st', g', callss, hrun, by rwa [Worker.exec_edges, Worker.init, List.nil_append]⟩
  obtain ⟨⟨st', gs', outs⟩, hr⟩ := Option.isSome_iff_exists.mp
    (runSchedule_isSome sched [] soloAgrees_nil fun t => by
      rw [List.nil_append]
      by_cases ht : t < numThreads
      · obtain ⟨_, _, _, hrun, -⟩ := hsolo t ht
        rw [hrun]
        rfl
      · rw [soloActs_eq_nil (t := t) fun s hs hst => ht (hst ▸ hsched s hs)]
        rfl)
  refine ⟨st', gs', outs, hr, fun t ht => ?_⟩
  -- the schedule leaves each thread the calls of its solo run
  obtain ⟨stt, hrun, -⟩ := runSchedule_soloAgrees sched [] soloAgrees_nil hr t
  obtain ⟨_, _, callss, hrun', hcalls⟩ := hsolo t ht
  rw [List.nil_append, hrun', Option.some.injEq, Prod.mk.injEq, Prod.mk.injEq] at hrun
  obtain ⟨-, -, rfl⟩ := hrun
  exact hcalls

theorem region_values_two_threads :
    ∃ b st, connBuilderParams oneModel 2 ⟨none, none, none⟩ [arrayWeightSpec] true true =
      some (.ok (b, st)) ∧ ∃ st' gs' outs,
        runSchedule 2 [(0, [.connect 0 5 0]), (1, [.skip 1]), (0, [.skip 2]), (1, [.connect 1 6 1])]
          (st, fun _ => (), fun _ => []) = some (st', gs', outs) ∧
        ∀ t < 2, List.Forall₂ (EdgeCalls st.synapses t) (Worker.init.exec (soloActs t
          [(0, [.connect 0 5 0]), (1, [.skip 1]), (0, [.skip 2]), (1, [.connect 1 6 1])])).edges (outs t) :=
  ⟨_, _, rfl, @region_values Unit oneModel 2 ⟨none, none, none⟩ [arrayWeightSpec] true true _ _ rfl _
    (by decide) _⟩

end NestConnBuilder.Threads
