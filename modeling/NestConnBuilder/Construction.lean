import NestConnBuilder.Kernel

/-!
# What the builders' constructors accept

`ConnBuilder::ConnBuilder` reads three flags from `conn_spec` (autapses and
multapses allowed, no symmetric replay, unless the dictionary says
otherwise), takes the structural-plasticity element names from the synapse
specs (`set_structural_plasticity_parameters`) and refuses invalid node
collections. Each rule's constructor then checks its own parameters and
throws `BadProperty`, `DimensionMismatch` or `NotImplemented` with a fixed
text, and `ConnBuilder::connect` makes a last round of checks before it runs
the rule. Each check is modelled here in the order the code makes it, as a
function into `Except ConnError`, next to a declarative statement of what it
admits; a theorem ties the two.

The synapse dictionaries (models, weights, delays, synapse parameters) are
modelled in `SynapseSpecs`, whose model of the whole constructor ends in
`connBuilder`; no check modelled here reads them. Collection sizes are exact integers: the
`static_cast< long >` of a size, or of the `size_t` product of two sizes,
differs from them only beyond `2^63`.

## Main results

* `setStructuralPlasticityParameters_ok_iff` — structural plasticity is on
  exactly when one synapse spec names both elements (`SynapseSpecs.spBuilder_accepts`
  adds the synapse loop of the whole constructor).
* `checkDegree_ok_iff` — the in- and out-degree checks admit a non-empty
  population and a degree in `[0, n]` (`[0, ∞)` with multapses); the `return`
  after the warning for `K = n` skips the sign check but lets no negative
  degree through.
* `fixedTotalNumberBuilder_ok_iff` — `N ≥ 0` with multapses allowed, and
  nothing without them.
* `symmetricBernoulliBuilder_ok_iff` — `p` in `[0, 1)` or NaN, with multapses
  on, autapses off and `make_symmetric` on, the last two given explicitly.
* `connect_eq_replay_iff` — `ConnBuilder::connect` replays the rule with
  sources and targets swapped exactly when `make_symmetric` is set, the rule
  supports it without creating symmetric connections itself, and structural
  plasticity is off.
-/

namespace NestConnBuilder.Construction

/-- The exceptions the constructors and `ConnBuilder::connect` throw, with
their texts. -/
inductive ConnError
  | badProperty (what : String)
  | dimensionMismatch (what : String)
  | notImplemented (what : String)
  | kernelException (what : String)
  deriving DecidableEq, Repr

/-- The keys of `conn_spec` that `ConnBuilder::ConnBuilder` reads with
`updateValue`, each `none` where the dictionary lacks it. -/
structure ConnSpec where
  allowAutapses : Option Bool
  allowMultapses : Option Bool
  makeSymmetric : Option Bool
  deriving DecidableEq, Repr

/-- The keys of one synapse spec that `set_structural_plasticity_parameters`
reads. -/
structure SynSpec where
  preSynapticElement : Option String
  postSynapticElement : Option String
  deriving DecidableEq, Repr, Inhabited

/-- `syn_spec->known( names::pre_synaptic_element ) or
syn_spec->known( names::post_synaptic_element )`. -/
def SynSpec.namesElement (s : SynSpec) : Bool :=
  s.preSynapticElement.isSome || s.postSynapticElement.isSome

/-- The members of `ConnBuilder` that its constructor sets and the checks
read. The code sets `use_structural_plasticity_` together with the element
names, so it is kept as whether there are names. -/
structure BaseBuilder where
  allowAutapses : Bool
  allowMultapses : Bool
  makeSymmetric : Bool
  synapticElements : Option (String × String)
  deriving DecidableEq, Repr

/-- `use_structural_plasticity_`. -/
def BaseBuilder.useStructuralPlasticity (b : BaseBuilder) : Bool :=
  b.synapticElements.isSome

/-- `ConnBuilder::set_structural_plasticity_parameters( syn_specs )`: the
pre- and post-synaptic element names, `none` when no spec names one. -/
def setStructuralPlasticityParameters (synSpecs : List SynSpec) :
    Except ConnError (Option (String × String)) :=
  if !synSpecs.any SynSpec.namesElement then .ok none
  else if 1 < synSpecs.length then
    .error (.kernelException "Structural plasticity can only be used with a single syn_spec.")
  else
    let synSpec := synSpecs.headD ⟨none, none⟩
    if synSpec.preSynapticElement.isSome != synSpec.postSynapticElement.isSome then
      .error (.badProperty "Structural plasticity requires both a pre- and postsynaptic element.")
    else .ok (some (synSpec.preSynapticElement.getD "", synSpec.postSynapticElement.getD ""))

/-- Structural plasticity is switched on exactly by a single synapse spec that
names both elements; with no spec naming one it stays off. -/
theorem setStructuralPlasticityParameters_ok_iff (synSpecs : List SynSpec)
    (e : Option (String × String)) :
    setStructuralPlasticityParameters synSpecs = .ok e ↔
      (e = none ∧ ∀ s ∈ synSpecs, s.namesElement = false) ∨
        ∃ pre post, synSpecs = [⟨some pre, some post⟩] ∧ e = some (pre, post) := by
  unfold setStructuralPlasticityParameters
  cases hany : synSpecs.any SynSpec.namesElement
  · -- no spec names an element: structural plasticity stays off
    have hnone : ∀ s ∈ synSpecs, s.namesElement = false := by simpa using hany
    simp only [Bool.not_false, if_true, Except.ok.injEq]
    constructor
    · exact fun h => .inl ⟨h.symm, hnone⟩
    · rintro (⟨rfl, -⟩ | ⟨pre, post, rfl, -⟩)
      · rfl
      · simp [SynSpec.namesElement] at hany
  · -- some spec names one: only a single spec naming both is accepted
    have hsome : ¬∀ s ∈ synSpecs, s.namesElement = false := by simpa using hany
    simp only [Bool.not_true, Bool.false_eq_true, if_false, hsome, and_false, false_or]
    rcases synSpecs with _ | ⟨⟨pre, post⟩, _ | ⟨t, rest⟩⟩
    · cases hany
    · cases pre <;> cases post <;> simp [SynSpec.namesElement, and_assoc] at hany ⊢
      exact eq_comm
    · simp only [List.length_cons, show 1 < rest.length + 1 + 1 by omega, ↓reduceIte, reduceCtorEq,
        List.cons.injEq, and_false, false_and, exists_const]

/-- `ConnBuilder::ConnBuilder( sources, targets, conn_spec, syn_specs )` for
the members the checks read: `allow_autapses_` and `allow_multapses_` start
true and `make_symmetric_` false, each overwritten where `conn_spec` has the
key. -/
def connBuilder (spec : ConnSpec) (synSpecs : List SynSpec) (sourcesValid targetsValid : Bool) :
    Except ConnError BaseBuilder :=
  match setStructuralPlasticityParameters synSpecs with
  | .error e => .error e
  | .ok elements =>
    if !(sourcesValid && targetsValid) then
      .error (.kernelException
        "InvalidNodeCollection: sources and targets must be valid NodeCollections.")
    else .ok ⟨spec.allowAutapses.getD true, spec.allowMultapses.getD true,
      spec.makeSymmetric.getD false, elements⟩

/-- What `ConnBuilder::ConnBuilder` leaves when it returns: the flags from
`conn_spec` or their defaults, the element names, and valid collections. -/
theorem connBuilder_eq_ok {spec : ConnSpec} {synSpecs : List SynSpec}
    {sourcesValid targetsValid : Bool} {b : BaseBuilder}
    (h : connBuilder spec synSpecs sourcesValid targetsValid = .ok b) :
    b.allowAutapses = spec.allowAutapses.getD true ∧ b.allowMultapses = spec.allowMultapses.getD true ∧
      b.makeSymmetric = spec.makeSymmetric.getD false ∧
      setStructuralPlasticityParameters synSpecs = .ok b.synapticElements ∧
      sourcesValid = true ∧ targetsValid = true := by
  unfold connBuilder at h
  split at h
  · cases h
  · rename_i elements hel
    split at h
    · cases h
    · rename_i hv
      cases h
      simpa [hel] using hv

example : connBuilder ⟨none, none, none⟩ [] true true = .ok ⟨true, true, false, none⟩ := rfl

/-- `ConnBuilder::set_synaptic_element_names( pre_name, post_name )`, the
setter the structural-plasticity manager uses: it refuses empty names. -/
def setSynapticElementNames (b : BaseBuilder) (pre post : String) : Except ConnError BaseBuilder :=
  if pre = "" ∨ post = "" then .error (.badProperty "synaptic element names cannot be empty.")
  else .ok { b with synapticElements := some (pre, post) }

/-! ## The rules' constructors -/

/-- A rule parameter in `conn_spec`: a `ParameterDatum`, whose range the
constructors leave unchecked, or a scalar. -/
inductive RuleParameter (α : Type)
  | parameter
  | scalar (value : α)
  deriving DecidableEq, Repr

/-- `OneToOneBuilder::OneToOneBuilder`. -/
def oneToOneBuilder (nSources nTargets : Nat) : Except ConnError Unit :=
  if nSources ≠ nTargets then
    .error (.dimensionMismatch "Source and Target population must be of the same size.")
  else .ok ()

/-- The checks `FixedInDegreeBuilder` and `FixedOutDegreeBuilder` make on a
degree drawn from a population of `n` nodes, with the texts of their three
`BadProperty` exceptions. With multapses disabled, a scalar degree equal to
`n` with autapses disabled only logs a warning and returns, skipping the sign
check. -/
def checkDegree (emptyText largerText negativeText : String) (allowAutapses allowMultapses : Bool)
    (n : Nat) (degree : RuleParameter Int) : Except ConnError Unit :=
  if n = 0 then .error (.badProperty emptyText)
  else match degree with
    | .parameter => .ok ()
    | .scalar value =>
      if allowMultapses = false ∧ (n : Int) < value then .error (.badProperty largerText)
      else if allowMultapses = false ∧ value = n ∧ allowAutapses = false then .ok ()
      else if value < 0 then .error (.badProperty negativeText)
      else .ok ()

/-- `FixedInDegreeBuilder::FixedInDegreeBuilder`: the in-degree against the
sources. -/
def fixedInDegreeBuilder (b : BaseBuilder) (nSources : Nat) (indegree : RuleParameter Int) :
    Except ConnError Unit :=
  checkDegree "Source array must not be empty." "Indegree cannot be larger than population size."
    "Indegree cannot be less than zero." b.allowAutapses b.allowMultapses nSources indegree

/-- `FixedOutDegreeBuilder::FixedOutDegreeBuilder`: the out-degree against
the targets. -/
def fixedOutDegreeBuilder (b : BaseBuilder) (nTargets : Nat) (outdegree : RuleParameter Int) :
    Except ConnError Unit :=
  checkDegree "Target array must not be empty." "Outdegree cannot be larger than population size."
    "Outdegree cannot be less than zero." b.allowAutapses b.allowMultapses nTargets outdegree

/-- What the degree checks are meant to admit: a population that is not
empty and, for a scalar degree, a value that is not negative and, with
multapses disabled, at most the population. -/
def AdmitsDegree (allowMultapses : Bool) (n : Nat) : RuleParameter Int → Prop
  | .parameter => 0 < n
  | .scalar value => 0 < n ∧ 0 ≤ value ∧ (allowMultapses = false → value ≤ n)

instance (allowMultapses : Bool) (n : Nat) : DecidablePred (AdmitsDegree allowMultapses n)
  | .parameter => inferInstanceAs (Decidable (0 < n))
  | .scalar value =>
    inferInstanceAs (Decidable (0 < n ∧ 0 ≤ value ∧ (allowMultapses = false → value ≤ n)))

theorem AdmitsDegree.pos {allowMultapses : Bool} {n : Nat} {degree : RuleParameter Int}
    (h : AdmitsDegree allowMultapses n degree) : 0 < n := by
  cases degree
  · exact h
  · exact h.1

/-- **The degree checks admit exactly `AdmitsDegree`.** The `return` after the
warning skips the sign check only for a degree equal to the population, which
is positive by then, so whether autapses are allowed never matters. -/
theorem checkDegree_ok_iff (emptyText largerText negativeText : String)
    (allowAutapses allowMultapses : Bool) (n : Nat) (degree : RuleParameter Int) :
    checkDegree emptyText largerText negativeText allowAutapses allowMultapses n degree = .ok ()
      ↔ AdmitsDegree allowMultapses n degree := by
  unfold checkDegree
  by_cases hn : n = 0
  · rw [if_pos hn]
    exact iff_of_false nofun fun h => absurd h.pos (by omega)
  rw [if_neg hn]
  cases degree with
  | parameter => exact iff_of_true rfl (Nat.pos_of_ne_zero hn)
  | scalar value =>
    dsimp only [AdmitsDegree]
    split_ifs with hlarger hreturn hnegative
    · exact iff_of_false nofun fun ⟨_, _, h⟩ => absurd (h hlarger.1) (not_le.2 hlarger.2)
    · -- the warning's `return`: the degree is the population, which is positive
      obtain ⟨-, rfl, -⟩ := hreturn
      exact iff_of_true rfl ⟨by omega, by omega, fun _ => le_rfl⟩
    · exact iff_of_false nofun fun ⟨_, h, _⟩ => absurd h (by omega)
    · exact iff_of_true rfl ⟨by omega, by omega, fun hm => by simpa [hm] using hlarger⟩

example : fixedInDegreeBuilder ⟨false, false, false, none⟩ 3 (.scalar 3) = .ok () := rfl

/-- `FixedTotalNumberBuilder::FixedTotalNumberBuilder`: `N` against the
product of the population sizes, its sign, and then multapses, which the
builder cannot suppress. -/
def fixedTotalNumberBuilder (b : BaseBuilder) (nSources nTargets : Nat) (N : Int) :
    Except ConnError Unit :=
  if b.allowMultapses = false ∧ ((nSources * nTargets : Nat) : Int) < N then
    .error (.badProperty
      "Total number of connections cannot exceed product of source and target population sizes.")
  else if N < 0 then .error (.badProperty "Total number of connections cannot be negative.")
  else if b.allowMultapses = false then
    .error (.notImplemented
      "Connect doesn't support the suppression of multapses in the FixedTotalNumber connector.")
  else .ok ()

/-- The fixed-total-number constructor admits `N ≥ 0` with multapses allowed
and nothing without them: the bound `|S|·|T|` only picks the error text. -/
theorem fixedTotalNumberBuilder_ok_iff (b : BaseBuilder) (nSources nTargets : Nat) (N : Int) :
    fixedTotalNumberBuilder b nSources nTargets N = .ok () ↔ b.allowMultapses = true ∧ 0 ≤ N := by
  unfold fixedTotalNumberBuilder
  cases b.allowMultapses
  · simp only [Bool.false_eq_true, false_and, iff_false, true_and, if_true]
    split_ifs <;> simp
  · simp only [Bool.true_eq_false, false_and, if_false, true_and]
    split_ifs <;> simp <;> omega

/-- A `double` from `conn_spec` as the range checks compare it: a number, or
`NaN`, for which every comparison is false. -/
inductive Double
  | nan
  | num (x : ℚ)
  deriving DecidableEq, Repr

/-- `<` on doubles. -/
def Double.lt : Double → Double → Bool
  | .num x, .num y => decide (x < y)
  | _, _ => false

/-- `<=` on doubles. -/
def Double.le : Double → Double → Bool
  | .num x, .num y => decide (x ≤ y)
  | _, _ => false

/-- `BernoulliBuilder::BernoulliBuilder`: a scalar `p` must not lie outside
`[0, 1]`. -/
def bernoulliBuilder (p : RuleParameter Double) : Except ConnError Unit :=
  match p with
  | .parameter => .ok ()
  | .scalar value =>
    if value.lt (.num 0) || (Double.num 1).lt value then
      .error (.badProperty "Connection probability 0 <= p <= 1 required.")
    else .ok ()

/-- `SymmetricBernoulliBuilder::SymmetricBernoulliBuilder`: `p` must not lie
outside `[0, 1)`, then the three flags the rule fixes. The constructor also
sets `creates_symmetric_connections_`. -/
def symmetricBernoulliBuilder (b : BaseBuilder) (p : Double) : Except ConnError Unit :=
  if p.lt (.num 0) || (Double.num 1).le p then
    .error (.badProperty "Connection probability 0 <= p < 1 required.")
  else if b.allowMultapses = false then .error (.badProperty "Multapses must be enabled.")
  else if b.allowAutapses = true then .error (.badProperty "Autapses must be disabled.")
  else if b.makeSymmetric = false then .error (.badProperty "Symmetric connections must be enabled.")
  else .ok ()

/-- The symmetric-Bernoulli constructor admits `p` in `[0, 1)`, and `NaN`,
which fails both comparisons, with multapses on, autapses off and
`make_symmetric` on. -/
theorem symmetricBernoulliBuilder_ok_iff (b : BaseBuilder) (p : Double) :
    symmetricBernoulliBuilder b p = .ok () ↔
      (p = .nan ∨ ∃ x, p = .num x ∧ 0 ≤ x ∧ x < 1) ∧ b.allowMultapses = true ∧
        b.allowAutapses = false ∧ b.makeSymmetric = true := by
  have hp : (p.lt (.num 0) || (Double.num 1).le p) = false ↔
      p = .nan ∨ ∃ x, p = .num x ∧ 0 ≤ x ∧ x < 1 := by
    cases p <;> simp [Double.lt, Double.le]
  rw [← hp]
  unfold symmetricBernoulliBuilder
  cases p.lt (.num 0) || (Double.num 1).le p <;> cases b.allowMultapses <;> cases b.allowAutapses <;>
    cases b.makeSymmetric <;> simp

/-- Two of those flags are not the defaults: a `conn_spec` the rule accepts
sets `allow_autapses` to false and `make_symmetric` to true. -/
theorem symmetricBernoulliBuilder_needs_flags {spec : ConnSpec} {synSpecs : List SynSpec}
    {sourcesValid targetsValid : Bool} {b : BaseBuilder} (p : Double)
    (hb : connBuilder spec synSpecs sourcesValid targetsValid = .ok b)
    (hsb : symmetricBernoulliBuilder b p = .ok ()) :
    spec.allowAutapses = some false ∧ spec.makeSymmetric = some true := by
  obtain ⟨ha, -, hm, -⟩ := connBuilder_eq_ok hb
  obtain ⟨-, -, ha', hm'⟩ := (symmetricBernoulliBuilder_ok_iff b p).1 hsb
  rw [ha'] at ha
  rw [hm'] at hm
  constructor
  · cases h : spec.allowAutapses <;> simp_all
  · cases h : spec.makeSymmetric <;> simp_all

/-- `SPBuilder::SPBuilder`: the element names must have been given. -/
def spBuilder (b : BaseBuilder) : Except ConnError Unit :=
  if b.useStructuralPlasticity = false then
    .error (.badProperty "pre_synaptic_element and/or post_synaptic_elements is missing.")
  else .ok ()

/-! ## The checks of `ConnBuilder::connect` -/

/-- How `ConnBuilder::connect` goes on once its checks pass. -/
inductive ConnectRun
  /-- `sp_connect_()`. -/
  | spConnect
  /-- `connect_()`. -/
  | connect
  /-- `connect_()`, then again with `sources_` and `targets_` swapped
  (`MakeSymmetric.connect` for the one-to-one rule). -/
  | connectAndReplay
  deriving DecidableEq, Repr

/-- `ConnBuilder::connect()` up to running the rule. `requiresSymmetric` holds,
per synapse spec, whether its model has `REQUIRES_SYMMETRIC`; `isSymmetric`,
`supportsSymmetric` and `createsSymmetric` are the builder's `is_symmetric()`,
`supports_symmetric()` and `creates_symmetric_connections_`. -/
def connect (b : BaseBuilder) (requiresSymmetric : List Bool)
    (isSymmetric supportsSymmetric createsSymmetric : Bool) : Except ConnError ConnectRun :=
  if requiresSymmetric.any fun r => r && !(isSymmetric || b.makeSymmetric) then
    .error (.badProperty ("Connections with this synapse model can only be created as " ++
      "one-to-one connections with \"make_symmetric\" set to true " ++
      "or as all-to-all connections with equal source and target " ++
      "populations and default or scalar parameters."))
  else if b.makeSymmetric && !supportsSymmetric then
    .error (.notImplemented "This connection rule does not support symmetric connections.")
  else if b.useStructuralPlasticity then
    if b.makeSymmetric then
      .error (.notImplemented
        "Symmetric connections are not supported in combination with structural plasticity.")
    else .ok .spConnect
  else if b.makeSymmetric && !createsSymmetric then .ok .connectAndReplay
  else .ok .connect

/-- The replay with `sources_` and `targets_` swapped runs exactly when
`make_symmetric` is set, the rule supports it and does not create symmetric
connections itself, and structural plasticity is off. -/
theorem connect_eq_replay_iff (b : BaseBuilder) (requiresSymmetric : List Bool)
    (isSymmetric supportsSymmetric createsSymmetric : Bool) :
    connect b requiresSymmetric isSymmetric supportsSymmetric createsSymmetric = .ok .connectAndReplay
      ↔ b.makeSymmetric = true ∧ supportsSymmetric = true ∧ b.useStructuralPlasticity = false ∧
        createsSymmetric = false := by
  unfold connect
  cases b.makeSymmetric
  · -- without `make_symmetric` there is no replay
    simp only [Bool.false_and, Bool.false_eq_true, if_false, false_and, iff_false]
    split_ifs <;> simp
  · -- with it, every synapse model's requirement is met
    rw [if_neg (by simp)]
    cases supportsSymmetric <;> cases b.useStructuralPlasticity <;> cases createsSymmetric <;> simp

/-- What `ConnBuilder::disconnect()` runs before it scans the threads'
exception slots. -/
inductive DisconnectRun
  /-- `sp_disconnect_()`. -/
  | spDisconnect
  /-- `disconnect_()`. -/
  | disconnect
  deriving DecidableEq, Repr

/-- `ConnBuilder::disconnect()` up to running the rule: the structural-plasticity
loop exactly when the builder uses structural plasticity. -/
def disconnect (b : BaseBuilder) : DisconnectRun :=
  if b.useStructuralPlasticity then .spDisconnect else .disconnect

end NestConnBuilder.Construction
