import Sluice.Proofs.Assembly.FilledParams
import Sluice.Proofs.Assembly.Trials
import Sluice.Proofs.Param.TableOrder
import Sluice.Proofs.Route.FanOuts

set_option autoImplicit false

namespace Sluice

variable {σ : Type}

namespace Reference

def resolved? (enclosing : ParamTable) (value : Value) : Option Value :=
  (resolve enclosing "" "" value).toOption

theorem resolve_ok_iff {enclosing : ParamTable} {stage parameter : String} {value r : Value} :
    resolve enclosing stage parameter value = .ok r ↔ resolved? enclosing value = some r := by
  unfold resolved? resolve
  cases value with
  | text text =>
    dsimp only
    split
    · cases substitute enclosing.get? text <;> simp [Except.mapError, Except.toOption]
    · simp [Except.toOption]
  | _ => simp [Except.toOption]

end Reference

def Value.bare : Value → Bool
  | .text s => !Reference.occurs s.toList
  | _ => true

theorem Reference.resolved?_bare (enclosing : ParamTable) {value : Value} (bare : value.bare = true) :
    resolved? enclosing value = some value := by
  cases value with
  | text s =>
    have none : occurs s.toList = false := by simpa [Value.bare] using bare
    simp [resolved?, resolve, none, Except.toOption]
  | _ => rfl

theorem Value.eq_text {v : Value} {t : String} (same : (v == .text t) = true) : v = .text t := by
  change v.same (.text t) = true at same
  cases v <;> simp_all [Value.same]

namespace Binding

open ParamTable (Accounts)
open Reference (resolved?)
open Value (Agree pick)

variable {essentials : Dict Value} {env : Environment} {enclosing : ParamTable}

def resolvedPairs (enclosing : ParamTable) (pairs : List (String × Value)) : List (String × Value) :=
  pairs.filterMap fun pair => (resolved? enclosing pair.2).map fun r => (pair.1, r)

theorem valuesAt_resolvedPairs (key : String) (pairs : List (String × Value)) :
    valuesAt key (resolvedPairs enclosing pairs) =
      (valuesAt key pairs).filterMap (resolved? enclosing) := by
  induction pairs with
  | nil => rfl
  | cons pair rest ih =>
    unfold valuesAt resolvedPairs at ih ⊢
    cases known : resolved? enclosing pair.2 with
    | none => by_cases same : pair.1 = key <;> simp [known, same, ih]
    | some r => by_cases same : pair.1 = key <;> simp [known, same, ih]

theorem bindEach_resolved {path : String} {pairs : List (String × Value)}
    (resolves : ∀ pair ∈ pairs, (resolved? enclosing pair.2).isSome = true) (t : ParamTable) :
    bindEach enclosing path t pairs =
      (resolvedPairs enclosing pairs).foldlM (fun t pair => t.bind pair.1 pair.2) t := by
  induction pairs generalizing t with
  | nil => rfl
  | cons pair rest ih =>
    obtain ⟨first, later⟩ := List.forall_mem_cons.mp resolves
    obtain ⟨r, known⟩ := Option.isSome_iff_exists.mp first
    have opened : bindEach enclosing path t (pair :: rest) =
        (t.bind pair.1 r >>= fun t => bindEach enclosing path t rest) := by
      change ((Reference.resolve enclosing path pair.1 pair.2 >>= fun r => t.bind pair.1 r) >>= _) = _
      rw [Reference.resolve_ok_iff.mpr known]
      rfl
    rw [opened, resolvedPairs, List.filterMap_cons, known]
    exact congrArg _ (funext (ih later))

theorem bindValues_all {node : Node σ} {references : List (List Value)}
    (fits : ∀ values ∈ references, values.length ≤ node.declared.size) (t : ParamTable) :
    references.foldlM (bindValues enclosing node) t =
      bindEach enclosing node.path t (references.flatMap node.declared.names.zip) := by
  induction references generalizing t with
  | nil => rfl
  | cons values rest ih =>
    obtain ⟨first, later⟩ := List.forall_mem_cons.mp fits
    rw [List.foldlM_cons, List.flatMap_cons, bindEach, List.foldlM_append, bindValues,
      if_neg (Nat.not_lt.mpr first)]
    exact congrArg _ (funext (ih later))

def fallback (essentials : Dict Value) (declared : ParamSet) (key : String) : Option Value :=
  declared.specs.findSome? fun spec =>
    if spec.name = key then spec.default?.or (essentials.at? key) else none

theorem foldl_get? {fill : ParamTable → ParamSpec → ParamTable}
    {given : String → ParamSpec → Option Value}
    (step : ∀ t spec, t.values.Ordered → (fill t spec).values.Ordered ∧
      ∀ key, (fill t spec).get? key = (t.get? key).or (given key spec))
    (specs : List ParamSpec) {t : ParamTable} (ordered : t.values.Ordered) :
    (specs.foldl fill t).values.Ordered ∧
      ∀ key, (specs.foldl fill t).get? key = (t.get? key).or (specs.findSome? (given key)) := by
  induction specs generalizing t with
  | nil => exact ⟨ordered, fun key => by simp⟩
  | cons spec rest ih =>
    obtain ⟨ordered, filled⟩ := step t spec ordered
    obtain ⟨ordered, later⟩ := ih ordered
    refine ⟨ordered, fun key => ?_⟩
    rw [List.foldl_cons, later, filled, Option.or_assoc, List.findSome?_cons]
    cases given key spec <;> rfl

theorem fillDefaults_get? {t : ParamTable} (essentials : Dict Value) (declared : ParamSet)
    (ordered : t.values.Ordered) :
    (fillDefaults essentials declared t).values.Ordered ∧ ∀ key,
      (fillDefaults essentials declared t).get? key =
        (t.get? key).or (fallback essentials declared key) := by
  refine foldl_get? (fun t spec ordered => ?_) declared.specs ordered
  split
  next value given =>
    constructor
    · unfold ParamTable.putDefault
      split
      · exact ordered
      · exact ordered.put _ _
    · intro key
      rw [t.get?_putDefault]
      by_cases same : spec.name = key
      · rw [if_pos same, if_pos same, ← same, given]
      · rw [if_neg same, if_neg same]
  next none =>
    refine ⟨ordered, fun key => ?_⟩
    by_cases same : spec.name = key
    · rw [if_pos same, ← same, none, Option.or_none]
    · rw [if_neg same, Option.or_none]

theorem resolveBound_ok {t : ParamTable} (enclosing : ParamTable) (ordered : t.values.Ordered)
    (resolves : ∀ key v, t.get? key = some v → (resolved? enclosing v).isSome = true) (path : String) :
    ∃ after, resolveBound enclosing path t = .ok after ∧
      ∀ key, after.get? key = (t.get? key).bind (resolved? enclosing) := by
  -- A parameter that is still to come is as it was, and any other is as it was resolved.
  have goes (entries : Dict Value) (distinct : entries.keys.Nodup)
      (resolves : ∀ key v, entries.at? key = some v → (resolved? enclosing v).isSome = true)
      (found : ParamTable) : ∃ after, entries.foldlM (fun t entry => do
        return t.put entry.1 (← Reference.resolve enclosing path entry.1 entry.2)) found =
          (.ok after : Except ConfigError ParamTable) ∧
        ∀ key, after.get? key = ((entries.at? key).bind (resolved? enclosing)).or (found.get? key) := by
    induction entries generalizing found with
    | nil => exact ⟨found, rfl, fun _ => rfl⟩
    | cons entry rest ih =>
      obtain ⟨key, value⟩ := entry
      obtain ⟨fresh, distinct⟩ := List.nodup_cons.mp distinct
      have absent : Dict.at? rest key = none := Dict.at?_eq_none fresh
      obtain ⟨r, known⟩ := Option.isSome_iff_exists.mp (resolves key value (by simp [Dict.at?_cons]))
      have later (other : String) (v : Value) (at' : Dict.at? rest other = some v) :
          (resolved? enclosing v).isSome = true := by
        refine resolves other v ?_
        rw [Dict.at?_cons, if_neg (by rintro rfl; simp [absent] at at'), at']
      obtain ⟨after, done, bound⟩ := ih distinct later (found.put key r)
      refine ⟨after, ?_, fun other => ?_⟩
      · rw [List.foldlM_cons]
        dsimp only
        rw [Reference.resolve_ok_iff.mpr known]
        exact done
      · rw [bound, Dict.at?_cons]
        by_cases same : other = key
        · rw [if_pos same, same, absent, found.get?_put_self, Option.bind_some, known]
          rfl
        · rw [if_neg same, found.get?_put_of_ne r same]
  obtain ⟨after, done, bound⟩ := goes t.values ordered.nodup resolves t
  refine ⟨after, done, fun key => ?_⟩
  rw [bound]
  cases given : t.get? key with
  | none =>
    change ((t.get? key).bind _).or none = _
    rw [given]
    rfl
  | some v =>
    obtain ⟨r, known⟩ := Option.isSome_iff_exists.mp (resolves key v given)
    change ((t.get? key).bind _).or _ = _
    rw [given, Option.bind_some, known]
    rfl

/-- What is written for the parameters of a member: the values at its references, each for the
parameter in the same place, and then its settings. -/
def written (declared : ParamSet) (references : List (List Value)) (settings : Dict Value) :
    List (String × Value) :=
  references.flatMap declared.names.zip ++ settings.filter fun (key, _) => declared.declares key

/-- Whether two values were written for one parameter of which neither gives way. -/
def Conflicts (node : Node σ) (result : Except ConfigError (Node σ)) : Prop :=
  ∃ key old new, result = .error (.conflictingValue node.path key old new)

structure Precedence (node : Node σ) (values : String → List Value) (left : String → Option Value)
    (result : Except ConfigError (Node σ)) : Prop where
  conflicts : Conflicts node result ↔ ∃ key, ¬(values key).Pairwise Agree
  binds : (∀ key, (values key).Pairwise Agree) → ∃ after, result = .ok after ∧
    ∀ key, after.params.get? key = (pick (values key)).or (left key)

def standing (enclosing : ParamTable) (pairs : List (String × Value)) (key : String) : List Value :=
  (valuesAt key pairs).filterMap (resolved? enclosing)

def bindWritten (enclosing : ParamTable) (member : Member) (node : Node σ) :
    Except ConfigError ParamTable := do
  let t ← member.routeValues.foldlM (bindValues enclosing node) node.params
  bindEach enclosing node.path t (member.settings.filter fun (key, _) => node.declared.declares key)

theorem bindWritten_eq {member : Member} {node : Node σ}
    (fits : ∀ values ∈ member.routeValues, values.length ≤ node.declared.size) :
    bindWritten enclosing member node = bindEach enclosing node.path node.params
      (written node.declared member.routeValues member.settings) := by
  rw [bindWritten, bindValues_all fits, written, bindEach, bindEach, List.foldlM_append]
  rfl

theorem bindMember_eq (essentials : Dict Value) (env : Environment) (enclosing : ParamTable)
    (dynamic : Bool) (member : Member) (node : Node σ) :
    bindMember essentials env enclosing dynamic member node = (do
      let t ← bindWritten enclosing member node
      let t ← resolveBound enclosing node.path (fillDefaults essentials node.declared t)
      if dynamic then
        let (params, dynamic) ← followVariables env node.path t
        return { node with params, dynamic }
      else return { node with params := t }) := by
  rw [bindWritten, bind_assoc]
  rfl

theorem bindMember_precedence (env : Environment) (member : Member) {node : Node σ}
    (empty : node.params = .make node.path node.typeName)
    (fits : ∀ values ∈ member.routeValues, values.length ≤ node.declared.size)
    (resolves : ∀ pair ∈ written node.declared member.routeValues member.settings,
      ∃ r, resolved? enclosing pair.2 = some r ∧ r.bare = true)
    (others : ∀ key v, fallback essentials node.declared key = some v →
      (resolved? enclosing v).isSome = true) :
    Precedence node (standing enclosing (written node.declared member.routeValues member.settings))
      (fun key => (fallback essentials node.declared key).bind (resolved? enclosing))
      (bindMember essentials env enclosing false member node) := by
  rw [bindMember_eq, bindWritten_eq fits]
  simp only [Bool.false_eq_true, if_false]
  generalize written node.declared member.routeValues member.settings = pairs at *
  have known (pair : String × Value) (listed : pair ∈ pairs) :
      (resolved? enclosing pair.2).isSome = true := by
    obtain ⟨r, known, -⟩ := resolves pair listed
    simp [known]
  have blank : node.params.Accounts [] :=
    empty ▸ ⟨.nil, fun key => .nil, fun key => rfl⟩
  have standing' : standing enclosing pairs = fun key => valuesAt key (resolvedPairs enclosing pairs) :=
    funext fun key => (valuesAt_resolvedPairs key pairs).symm
  rw [standing']
  have bare (key : String) (v : Value) (listed : v ∈ valuesAt key (resolvedPairs enclosing pairs)) :
      v.bare = true := by
    rw [valuesAt_resolvedPairs] at listed
    obtain ⟨u, listed, known⟩ := List.mem_filterMap.mp listed
    obtain ⟨r, known', bare⟩ := resolves (key, u) (mem_valuesAt.mp listed)
    exact Option.some.inj (known'.symm.trans known) ▸ bare
  have stage : node.params.stage = node.path := empty ▸ rfl
  rw [bindEach_resolved known]
  -- Either the bindings go through, and then each parameter has the value picked among those
  -- written for it, or two of them are in conflict.
  rcases blank.foldlM (resolvedPairs enclosing pairs) with
    ⟨t, bound, accounts⟩ | ⟨⟨key, old, new, failed⟩, disagree⟩
  · rw [bound]
    rw [List.nil_append] at accounts
    obtain ⟨ordered, filled⟩ := fillDefaults_get? essentials node.declared accounts.ordered
    obtain ⟨params, done, last⟩ := resolveBound_ok enclosing ordered (fun key v given => by
      rw [filled, accounts.picked] at given
      rcases Option.or_eq_some_iff.mp given with picked | ⟨-, given⟩
      · rw [Reference.resolved?_bare enclosing (bare key v (Value.pick_mem picked))]
        rfl
      · exact others key v given) node.path
    have ended : (do
        let t ← (.ok t : Except ConfigError ParamTable)
        let params ← resolveBound enclosing node.path (fillDefaults essentials node.declared t)
        return { node with params } : Except ConfigError (Node σ)) = .ok { node with params } := by
      change (resolveBound enclosing node.path (fillDefaults essentials node.declared t) >>= _) = _
      rw [done]
      rfl
    rw [ended]
    refine ⟨iff_of_false nofun (not_exists.mpr fun key => not_not.mpr (accounts.agree key)),
      fun _ => ⟨_, rfl, fun key => ?_⟩⟩
    rw [last, filled, accounts.picked]
    cases picked : pick (valuesAt key (resolvedPairs enclosing pairs)) with
    | none => rfl
    | some v => exact Reference.resolved?_bare enclosing (bare key v (Value.pick_mem picked))
  · rw [failed]
    rw [List.nil_append] at disagree
    refine ⟨iff_of_true ⟨key, old, new, ?_⟩ disagree, fun agree => ?_⟩
    · rw [← stage]
      rfl
    · obtain ⟨key, disagree⟩ := disagree
      exact absurd (agree key) disagree

def Alike (node : Node σ) (result other : Except ConfigError (Node σ)) : Prop :=
  (Conflicts node result ↔ Conflicts node other) ∧ ∀ after after', result = .ok after →
    other = .ok after' → ∀ key, Value.Alike (after.params.get? key) (after'.params.get? key)

theorem Precedence.of_ok {node after : Node σ} {values : String → List Value}
    {left : String → Option Value} {result : Except ConfigError (Node σ)}
    (precedence : Precedence node values left result) (done : result = .ok after) :
    (∀ key, (values key).Pairwise Agree) ∧
      ∀ key, after.params.get? key = (pick (values key)).or (left key) := by
  have agree : ∀ key, (values key).Pairwise Agree := by
    by_contra conflict
    obtain ⟨key, old, new, failed⟩ := precedence.conflicts.mpr (not_forall.mp conflict)
    exact nomatch failed.symm.trans done
  obtain ⟨_, same, bound⟩ := precedence.binds agree
  cases done.symm.trans same
  exact ⟨agree, bound⟩

theorem Precedence.perm {node : Node σ} {values moved : String → List Value}
    {left : String → Option Value} {result other : Except ConfigError (Node σ)}
    (first : Precedence node values left result) (second : Precedence node moved left other)
    (perm : ∀ key, (values key).Perm (moved key)) : Alike node result other := by
  refine ⟨?_, fun after after' done done' key => ?_⟩
  · rw [first.conflicts, second.conflicts]
    exact exists_congr fun key => not_congr ((perm key).pairwise_iff fun agree => Value.Agree.symm agree)
  · obtain ⟨agree, bound⟩ := first.of_ok done
    obtain ⟨-, bound'⟩ := second.of_ok done'
    rw [bound, bound']
    exact (Value.pick_perm (perm key) (agree key)).or _

def referenceValues (route : List Route.Element) (name : String) : List (List Value) :=
  ((Route.stagesOf route).filter fun reference => Literal.bareName reference == name).map
    fun reference => (Literal.split reference).2

def sectionValues (p : Pipeline) (name : String) : Dict Value :=
  ((p.sections.at? name).map Section.values).getD []

theorem written_filter (declared : ParamSet) (references : List (List Value)) (settings : Dict Value) :
    written declared (references.filter fun values => !values.isEmpty) settings =
      written declared references settings := by
  unfold written
  congr 1
  induction references with
  | nil => rfl
  | cons values rest ih =>
    cases values <;> simp [ih]

theorem written_perm (declared : ParamSet) {references moved : List (List Value)}
    (perm : references.Perm moved) (settings : Dict Value) :
    (written declared references settings).Perm (written declared moved settings) :=
  (perm.flatMap_right _).append_right _

theorem member_written {r : Registry σ} {p : Pipeline} {outline : Outline σ}
    (declared : (Outline.declare r p).run.1 = .ok outline) {s : Level}
    (listed : s ∈ (Layout.ofOutline outline).levels) {id : NodeId} {member : Member}
    (own : (id, member) ∈ s.members) : ∃ node route,
      (Layout.ofOutline outline).nodes[id]? = some node ∧ Route.read s.pipeline.route = .ok route ∧
      node.params = .make node.path node.typeName ∧
      member.routeValues = (referenceValues route member.name).filter (fun values => !values.isEmpty) ∧
      member.settings = sectionValues s.pipeline member.name := by
  obtain ⟨-, allTyped⟩ := Outline.declare_allTyped declared
  obtain ⟨part, path, of, same, found⟩ := (Layout.ofOutline_lays listed).member allTyped own
  have whole := (Layout.ofOutline_declared (Outline.declare_declared declared)).levels s listed
  obtain ⟨route, parsed, plan⟩ := (Route.Plan.read_ok_iff _ _).mp whole.1
  have references := Route.ofElements_references ((Route.read_ok_iff _ _).mp parsed).1
  obtain ⟨typeName, made⟩ := of.member_eq
  refine ⟨_, route, found, parsed, ?_, ?_, ?_⟩
  · cases part <;> rfl
  · rw [← same, made, referenceValues, ← references, plan]
    rfl
  · rw [← same, made]
    rfl

/-- The values that are written for a parameter settle what is bound: the first that is not blank, or
else the first, or else a default or a value from the pool. -/
theorem member_precedence {b : Blueprint σ} {outline : Outline σ}
    (declared : (Outline.declare b.registry b.pipeline).run.1 = .ok outline) {s : Level}
    (listed : s ∈ (Layout.ofOutline outline).levels) (static : s.pipeline.dynamic = false)
    {id : NodeId} {member : Member} (own : (id, member) ∈ s.members) (enclosing : ParamTable) :
    ∃ node route, (Layout.ofOutline outline).nodes[id]? = some node ∧
      Route.read s.pipeline.route = .ok route ∧
      ∀ pairs, pairs = written node.declared (referenceValues route member.name)
          (sectionValues s.pipeline member.name) →
        (∀ values ∈ referenceValues route member.name, values.length ≤ node.declared.size) →
        (∀ pair ∈ pairs, ∃ r, resolved? enclosing pair.2 = some r ∧ r.bare = true) →
        (∀ spec ∈ node.declared.specs, ∀ v,
          spec.default?.or (b.registry.essentials.at? spec.name) = some v →
            (resolved? enclosing v).isSome = true) →
        Precedence node (standing enclosing pairs)
          (fun key => (fallback b.registry.essentials node.declared key).bind (resolved? enclosing))
          (bindMember b.registry.essentials b.environment enclosing s.pipeline.dynamic member node) ∧
        ∀ moved, moved.Perm member.routeValues → Alike node
          (bindMember b.registry.essentials b.environment enclosing s.pipeline.dynamic member node)
          (bindMember b.registry.essentials b.environment enclosing s.pipeline.dynamic
            { member with routeValues := moved } node) := by
  obtain ⟨node, route, found, parsed, empty, routed, settings⟩ := member_written declared listed own
  refine ⟨node, route, found, parsed, fun pairs given fits resolves others => ?_⟩
  rw [← written_filter, ← routed, ← settings] at given
  replace fits : ∀ values ∈ member.routeValues, values.length ≤ node.declared.size :=
    fun values inside => fits values (List.mem_of_mem_filter (by rwa [routed] at inside))
  replace others (key : String) (v : Value) (left : fallback b.registry.essentials
      node.declared key = some v) : (resolved? enclosing v).isSome = true := by
    obtain ⟨spec, inside, given⟩ := List.exists_of_findSome?_eq_some left
    split at given
    next here => exact others spec inside v (here ▸ given)
    next => cases given
  subst given
  rw [static]
  have bound := bindMember_precedence b.environment member empty fits resolves others
  refine ⟨bound, fun moved perm => ?_⟩
  have reordered := written_perm node.declared perm member.settings
  refine bound.perm (bindMember_precedence b.environment { member with routeValues := moved } empty
    (fun values inside => fits values (perm.mem_iff.mp inside))
    (fun pair inside => resolves pair (reordered.mem_iff.mp inside)) others) fun key => ?_
  exact ((reordered.symm.filter _).map _).filterMap _

def letters : Blueprint Stock where
  pipeline := ⟨"demo", "", ["a:x"], false, "wrap:$\x7ba\x7d wrap::y sink",
    [("wrap", ⟨none, [("data_suffix", .text "y")]⟩)]⟩
  registry := Stock.registry
  params := []
  environment := .empty

def spells (enclosing : ParamTable) (s : Level) (member : Member) (node : Node Stock)
    (route : List Route.Element) : Bool :=
  let pairs := written node.declared (referenceValues route member.name)
    (sectionValues s.pipeline member.name)
  (referenceValues route member.name).all (fun values => decide (values.length ≤ node.declared.size)) &&
    pairs.all (fun pair => (resolved? enclosing pair.2).any Value.bare) &&
    node.declared.specs.all (fun spec => spec.default?.all fun v => (resolved? enclosing v).isSome) &&
    (bindMember [] .empty enclosing false member node).toOption.isSome &&
    (pick (standing enclosing pairs "data_prefix")).any (fun v => v == .text "x") &&
    (pick (standing enclosing pairs "data_suffix")).any (fun v => v == .text "y")

set_option maxRecDepth 100000 in
theorem member_precedence_letters : ∃ outline s id member node,
    (Outline.declare letters.registry letters.pipeline).run.1 = .ok outline ∧
      s ∈ (Layout.ofOutline outline).levels ∧ s.pipeline.dynamic = false ∧
      (id, member) ∈ s.members ∧ (Layout.ofOutline outline).nodes[id]? = some node ∧
      ∃ after, bindMember [] .empty ⟨"", "demo", [("a", .text "x")]⟩ false member node = .ok after ∧
        after.params.get? "data_prefix" = some (.text "x") ∧
        after.params.get? "data_suffix" = some (.text "y") := by
  let enclosing : ParamTable := ⟨"", "demo", [("a", .text "x")]⟩
  have checked : (Outline.declare letters.registry letters.pipeline).run.1.toOption.any (fun outline =>
      (Layout.ofOutline outline).levels.any fun s => !s.pipeline.dynamic &&
        s.members.any fun entry => (Layout.ofOutline outline).nodes[entry.1]?.any fun node =>
          (Route.read s.pipeline.route).toOption.any (spells enclosing s entry.2 node)) = true := by
    decide +kernel
  obtain ⟨outline, declared, checked⟩ := except_of_any checked
  obtain ⟨s, listed, checked⟩ := List.any_eq_true.mp checked
  obtain ⟨static, checked⟩ := (Bool.and_eq_true _ _).mp checked
  obtain ⟨⟨id, member⟩, own, checked⟩ := List.any_eq_true.mp checked
  obtain ⟨node, found, checked⟩ := (Option.any_eq_true _ _).mp checked
  obtain ⟨route, parsed, spelled⟩ := except_of_any checked
  replace static : s.pipeline.dynamic = false := by simpa using static
  obtain ⟨node', route', found', parsed', settle⟩ :=
    member_precedence declared listed static own enclosing
  obtain rfl : node = node' := Option.some.inj (found.symm.trans found')
  obtain rfl : route = route' := Except.ok.inj (parsed.symm.trans parsed')
  simp only [spells, Bool.and_eq_true] at spelled
  obtain ⟨⟨⟨⟨⟨fits, resolves⟩, others⟩, fine⟩, first⟩, second⟩ := spelled
  -- The evaluation above has checked each side condition of the theorem at this member.
  obtain ⟨precedence, -⟩ := settle _ rfl (by simpa using fits)
    (fun pair inside => by simpa [Option.any_eq_true] using List.all_eq_true.mp resolves pair inside)
    (fun spec inside v given => by
      rw [show letters.registry.essentials.at? spec.name = none from rfl, Option.or_none] at given
      simpa [given] using List.all_eq_true.mp others spec inside)
  rw [static] at precedence
  obtain ⟨after, done⟩ : ∃ after, bindMember [] .empty enclosing false member node = .ok after := by
    cases result : bindMember [] .empty enclosing false member node with
    | ok after => exact ⟨after, rfl⟩
    | error e => simp [result, Except.toOption] at fine
  have bound := (precedence.of_ok done).2
  refine ⟨outline, s, id, member, node, declared, listed, static, own, found, after, done, ?_, ?_⟩
  · obtain ⟨v, picked, same⟩ := (Option.any_eq_true _ _).mp first
    rw [bound, picked, Value.eq_text same]
    rfl
  · obtain ⟨v, picked, same⟩ := (Option.any_eq_true _ _).mp second
    rw [bound, picked, Value.eq_text same]
    rfl

end Binding

def Graph.paramAt (g : Graph σ) (path key : String) : Option Value :=
  (g.find? path).bind fun (_, node) => node.params.get? key

theorem Value.eq_float {v : Value} {x : Double}
    (here : (match v with
      | .float y => decide (y = x)
      | _ => false) = true) : v = .float x := by
  cases v <;> simp_all

/-- The two zeros are different values that are not in conflict, so that the order of the references
shows although neither value is blank. -/
theorem zeros_in_order : ∃ zero minus, zero ≠ minus ∧ zero.isBlank = false ∧ minus.isBlank = false ∧
    (∃ g, (Graph.line "wrap:0.0 wrap:-0.0").build.1 = .ok g ∧
      g.paramAt "wrap" "data_prefix" = some zero) ∧
    ∃ g, (Graph.line "wrap:-0.0 wrap:0.0").build.1 = .ok g ∧
      g.paramAt "wrap" "data_prefix" = some minus := by
  have bound (x : Double) (route : String) (passes : (Graph.line route).passes (fun g =>
      (g.paramAt "wrap" "data_prefix").any fun v => match v with
        | .float y => decide (y = x)
        | _ => false) = true) : ∃ g, (Graph.line route).build.1 = .ok g ∧
          g.paramAt "wrap" "data_prefix" = some (.float x) := by
    obtain ⟨g, built, passes⟩ := Blueprint.of_passes passes
    obtain ⟨v, bound, here⟩ := (Option.any_eq_true _ _).mp passes
    exact ⟨g, built, Value.eq_float here ▸ bound⟩
  refine ⟨.float .zero, .float ⟨true, 0⟩, fun same => ?_, rfl, rfl, bound _ _ (by decide +kernel),
    bound _ _ (by decide +kernel)⟩
  cases same

end Sluice
