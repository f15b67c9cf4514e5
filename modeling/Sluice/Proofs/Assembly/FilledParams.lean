import Sluice.Proofs.Assembly.Phases

set_option autoImplicit false

namespace Sluice

variable {σ : Type}

theorem ParamTable.has_put_iff (t : ParamTable) (key : String) (value : Value) (other : String) :
    (t.put key value).has other = true ↔ other = key ∨ t.has other = true := by
  simp only [ParamTable.has, ParamTable.put, Dict.has]
  by_cases same : other = key
  · subst same
    simp [Dict.at?_put_self]
  · simp [Dict.at?_put_of_ne _ value same, same]

theorem ParamTable.has_of_mem {t : ParamTable} {key : String} {value : Value}
    (listed : (key, value) ∈ t.values) : t.has key = true :=
  List.lookup_isSome_iff.mpr ⟨_, listed, beq_self_eq_true key⟩

namespace ParamSet

theorem declares_iff {set : ParamSet} {name : String} :
    set.declares name = true ↔ name ∈ set.names := by
  simp [declares, get?, names]

theorem declares_of_mem {set : ParamSet} {spec : ParamSpec} (listed : spec ∈ set.specs) :
    set.declares spec.name = true := declares_iff.mpr (List.mem_map_of_mem listed)

end ParamSet

structure ParamTable.Gains (declared : ParamSet) (t after : ParamTable) : Prop where
  keeps : ∀ key, t.has key = true → after.has key = true
  closed : ∀ key, after.has key = true → t.has key = true ∨ declared.declares key = true

namespace ParamTable.Gains

variable {declared : ParamSet} {t mid after : ParamTable}

theorem refl (declared : ParamSet) (t : ParamTable) : Gains declared t t :=
  ⟨fun _ => id, fun _ => .inl⟩

theorem trans (first : Gains declared t mid) (second : Gains declared mid after) :
    Gains declared t after where
  keeps := fun key has => second.keeps key (first.keeps key has)
  closed := fun key has => (second.closed key has).elim (first.closed key) .inr

theorem put (gains : Gains declared t after) {key : String} (value : Value)
    (known : t.has key = true ∨ declared.declares key = true) :
    Gains declared t (after.put key value) where
  keeps := fun other has => (after.has_put_iff key value other).mpr (.inr (gains.keeps other has))
  closed := fun other has => by
    rcases (after.has_put_iff key value other).mp has with rfl | has
    · exact known
    · exact gains.closed other has

theorem putDefault {key : String} (value : Value) (declares : declared.declares key = true) :
    Gains declared t (t.putDefault key value) := by
  unfold ParamTable.putDefault
  split
  · exact refl declared t
  · exact (refl declared t).put value (.inr declares)

theorem bind {key : String} {value : Value} (declares : declared.declares key = true)
    (done : t.bind key value = .ok after) : Gains declared t after := by
  have written : Gains declared t (t.put key value) := (refl declared t).put value (.inr declares)
  unfold ParamTable.bind at done
  repeat' split at done
  all_goals cases done
  · exact written
  · exact refl declared t
  · exact written

theorem foldlM {δ : Type} {f : ParamTable → δ → Except ConfigError ParamTable} {items : List δ}
    (step : ∀ x ∈ items, ∀ found next, f found x = .ok next → Gains declared found next)
    (done : items.foldlM f t = .ok after) : Gains declared t after :=
  foldlM_keeps (fun x listed found _ gains one => gains.trans (step x listed found _ one))
    (refl declared t) done

end ParamTable.Gains

namespace Binding

open ParamTable (Gains)

theorem Gains.foldl_fills {declared : ParamSet} {fill : ParamTable → ParamSpec → ParamTable}
    (gains : ∀ spec ∈ declared.specs, ∀ t, Gains declared t (fill t spec))
    (fills : ∀ spec : ParamSpec, spec.isEssential = false → ∀ t, (fill t spec).has spec.name = true)
    {specs : List ParamSpec} (within : specs ⊆ declared.specs) (t : ParamTable) :
    Gains declared t (specs.foldl fill t) ∧ ∀ spec ∈ specs,
      spec.isEssential = false → (specs.foldl fill t).has spec.name = true := by
  induction specs generalizing t with
  | nil => exact ⟨.refl declared t, nofun⟩
  | cons spec rest ih =>
    rw [List.cons_subset] at within
    rw [List.foldl_cons]
    obtain ⟨later, filled⟩ := ih within.2 (fill t spec)
    refine ⟨.trans (gains spec within.1 t) later, List.forall_mem_cons.mpr ⟨fun given => ?_, filled⟩⟩
    exact later.keeps _ (fills spec given t)

theorem fillDefaults_gains (essentials : Dict Value) (declared : ParamSet) (t : ParamTable) :
    Gains declared t (fillDefaults essentials declared t) ∧ ∀ spec ∈ declared.specs,
      spec.isEssential = false → (fillDefaults essentials declared t).has spec.name = true := by
  unfold fillDefaults
  refine Gains.foldl_fills (fun spec listed t => ?_) (fun spec given t => ?_) (List.Subset.refl _) t
  · split
    · exact .putDefault _ (ParamSet.declares_of_mem listed)
    · exact .refl declared t
  · obtain ⟨value, default⟩ : ∃ value, spec.default? = some value := by
      simpa [ParamSpec.isEssential, Option.isSome_iff_exists] using given
    rw [default, Option.some_or]
    dsimp only
    unfold ParamTable.putDefault
    split
    next has => exact has
    next => exact (t.has_put_iff _ _ _).mpr (.inl rfl)

variable {essentials : Dict Value} {declared : ParamSet} {enclosing t after : ParamTable}

theorem bindEach_gains {path : String} {pairs : List (String × Value)}
    (declares : ∀ pair ∈ pairs, declared.declares pair.1 = true)
    (done : bindEach enclosing path t pairs = .ok after) : Gains declared t after :=
  .foldlM (fun pair listed _ _ one =>
    have ⟨_, _, bound⟩ := except_bind_ok one
    .bind (declares pair listed) bound) done

theorem bindValues_gains {node : Node σ} {values : List Value}
    (done : bindValues enclosing node t values = .ok after) : Gains node.declared t after := by
  unfold bindValues at done
  split at done
  · cases done
  · refine bindEach_gains (fun pair listed => ?_) done
    exact ParamSet.declares_iff.mpr (List.of_mem_zip listed).1

theorem resolveBound_gains (declared : ParamSet) {path : String}
    (done : resolveBound enclosing path t = .ok after) : Gains declared t after := by
  refine foldlM_keeps (fun pair listed _ _ gains one => ?_) (.refl declared t) done
  obtain ⟨value, _, ended⟩ := except_bind_ok one
  cases ended
  exact gains.put value (.inl (ParamTable.has_of_mem listed))

theorem followVariables_gains (declared : ParamSet) {env : Environment} {path : String}
    {dynamic : List (String × String)} (done : followVariables env path t = .ok (after, dynamic)) :
    Gains declared t after ∧ ∀ pair ∈ dynamic, t.has pair.1 = true := by
  refine @foldlM_keeps _ _ _ _ (fun found => Gains declared t found.1 ∧
    ∀ pair ∈ found.2, t.has pair.1 = true) _ ?_ _ _ ⟨.refl declared t, nofun⟩ done
  intro pair listed found next good one
  have has := ParamTable.has_of_mem listed
  dsimp only at one
  repeat' split at one
  all_goals cases one
  · exact good
  · refine ⟨good.1.put _ (.inl has), fun other added => ?_⟩
    rcases List.mem_append.mp added with before | new
    · exact good.2 other before
    · obtain rfl := List.mem_singleton.mp new
      exact has

end Binding

def Node.Blank (node : Node σ) : Prop := node.params.values = [] ∧ node.dynamic = []

structure Node.Filled (node : Node σ) : Prop where
  closed : ∀ key, node.params.has key = true → node.declared.declares key = true
  defaults : ∀ spec ∈ node.declared.specs, spec.isEssential = false →
    node.params.has spec.name = true
  followed : ∀ pair ∈ node.dynamic, node.params.has pair.1 = true

def Node.Supplied (node : Node σ) : Prop :=
  ∀ spec ∈ node.declared.specs, spec.isEssential = true → node.params.has spec.name = true

theorem Node.Blank.none {node : Node σ} (blank : node.Blank) (key : String) :
    node.params.has key = false := by
  rw [ParamTable.has, blank.1]
  rfl

theorem Node.Filled.of_bare {node other : Node σ} (filled : node.Filled)
    (same : other.bare = node.bare) : other.Filled := by
  have declared := Node.declared_of_bare same
  have params := Node.params_of_bare same
  exact ⟨params ▸ declared ▸ filled.closed, params ▸ declared ▸ filled.defaults,
    params ▸ Node.dynamic_of_bare same ▸ filled.followed⟩

namespace Binding

open ParamTable (Gains)

variable {essentials : Dict Value}

theorem bindRoot_filled {overrides : List (String × Value)} {root after : Node σ}
    (blank : root.Blank) (done : bindRoot essentials overrides root = .ok after) : after.Filled := by
  obtain ⟨t, given, ended⟩ := except_bind_ok done
  cases ended
  have gains : Gains root.declared root.params t := by
    refine .foldlM (fun _ _ _ _ one => ?_) given
    dsimp only at one
    split at one
    next declares => exact .bind declares one
    next => cases one
  obtain ⟨filled, defaults⟩ := fillDefaults_gains essentials root.declared t
  refine ⟨fun key has => ?_, defaults, fun pair listed => ?_⟩
  · exact ((gains.trans filled).closed key has).resolve_left (by simp [blank.none])
  · rw [blank.2] at listed
    cases listed

theorem bindMember_filled {env : Environment} {enclosing : ParamTable} {dynamic : Bool}
    {member : Member} {node after : Node σ} (blank : node.Blank)
    (done : bindMember essentials env enclosing dynamic member node = .ok after) : after.Filled := by
  obtain ⟨routed, references, done⟩ := except_bind_ok done
  obtain ⟨bound, settings, done⟩ := except_bind_ok done
  obtain ⟨resolved, substituted, done⟩ := except_bind_ok done
  have given : Gains node.declared node.params routed :=
    .foldlM (fun _ _ _ _ one => bindValues_gains one) references
  have given := given.trans (bindEach_gains (fun pair listed => (List.mem_filter.mp listed).2) settings)
  obtain ⟨filled, defaults⟩ := fillDefaults_gains essentials node.declared bound
  have resolves := resolveBound_gains node.declared substituted
  have whole := (given.trans filled).trans resolves
  have defaults := fun spec listed given => resolves.keeps _ (defaults spec listed given)
  split at done
  · obtain ⟨⟨params, followed⟩, follows, ended⟩ := except_bind_ok done
    cases ended
    obtain ⟨last, reads⟩ := followVariables_gains node.declared follows
    refine ⟨fun key has => ?_, fun spec listed given => last.keeps _ (defaults spec listed given),
      fun pair listed => last.keeps _ (reads pair listed)⟩
    exact ((whole.trans last).closed key has).resolve_left (by simp [blank.none])
  · cases done
    refine ⟨fun key has => ?_, defaults, fun pair listed => ?_⟩
    · exact (whole.closed key has).resolve_left (by simp [blank.none])
    · rw [blank.2] at listed
      cases listed

end Binding

namespace Inspection

theorem checkEssentials_ok {node : Node σ} (checked : checkEssentials node = .ok ()) :
    node.Supplied := by
  intro spec listed essential
  unfold checkEssentials at checked
  split at checked
  · cases checked
  next all =>
    have bound := List.find?_eq_none.mp all spec (List.mem_filter.mpr ⟨listed, essential⟩)
    simpa using bound

theorem checkMember_ok {member : Member} {node : Node σ} (checked : checkMember member node = .ok ()) :
    (∀ key ∈ member.settings.keys, key ∈ reservedKeys ∨ node.declared.declares key = true) ∧
      node.Supplied := by
  unfold checkMember at checked
  split at checked
  · cases checked
  obtain ⟨_, settings, checked⟩ := except_bind_ok checked
  refine ⟨fun key listed => ?_, checkEssentials_ok checked⟩
  unfold checkSettings at settings
  split at settings
  · cases settings
  next all =>
    have known := List.find?_eq_none.mp all key listed
    by_cases reserved : key ∈ reservedKeys
    · exact .inl reserved
    · exact .inr (by simpa [reserved] using known)

end Inspection

def Node.Complete (node : Node σ) : Prop :=
  ∀ key, node.params.has key = node.declared.declares key

theorem Node.Complete.of_bare {node other : Node σ} (complete : node.Complete)
    (same : other.bare = node.bare) : other.Complete := fun key => by
  rw [Node.params_of_bare same, Node.declared_of_bare same, complete key]

theorem Node.Filled.complete {node : Node σ} (filled : node.Filled) (supplied : node.Supplied) :
    node.Complete := by
  refine fun key => Bool.eq_iff_iff.mpr ⟨filled.closed key, fun declares => ?_⟩
  obtain ⟨spec, listed, rfl⟩ := List.mem_map.mp (ParamSet.declares_iff.mp declares)
  cases essential : spec.isEssential with
  | false => exact filled.defaults spec listed essential
  | true => exact supplied spec listed essential

end Sluice
