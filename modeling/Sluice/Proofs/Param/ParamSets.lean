import Mathlib.Data.List.Induction
import Sluice.Registry

set_option autoImplicit false

namespace Sluice

section

variable (names : List String) (name : String)

theorem eraseDups_concat : (names ++ [name]).eraseDups =
    if name ∈ names then names.eraseDups else names.eraseDups ++ [name] := by
  by_cases known : name ∈ names <;>
    simp [List.eraseDups_append, List.removeAll, List.eraseDups_cons, known]

theorem eraseDups_nodup : names.eraseDups.Nodup := by
  induction names using List.reverseRecOn with
  | nil => simp
  | append_singleton names name ih =>
    rw [eraseDups_concat]
    split
    next => exact ih
    next new =>
      refine (List.nodup_cons.mpr ⟨?_, ih⟩).perm (List.perm_append_singleton name _).symm
      rwa [List.mem_eraseDups]

theorem eraseDups_append_eraseDups (later : List String) :
    (names ++ later.eraseDups).eraseDups = (names ++ later).eraseDups := by
  induction later using List.reverseRecOn with
  | nil => simp
  | append_singleton later name ih =>
    rw [eraseDups_concat later, ← List.append_assoc, eraseDups_concat (names ++ later)]
    by_cases known : name ∈ later
    · simp [known, ih]
    · simp [known, ← List.append_assoc, eraseDups_concat, ih]

end

namespace ParamSpec

def latest? (name : String) (specs : List ParamSpec) : Option Value :=
  (specs.reverse.filter fun spec => spec.name == name).findSome? ParamSpec.default?

variable {name : String} {specs : List ParamSpec}

theorem latest?_append (later : List ParamSpec) :
    latest? name (specs ++ later) = (latest? name later).or (latest? name specs) := by
  simp [latest?, List.findSome?_append]

theorem latest?_one (spec : ParamSpec) :
    latest? name [spec] = if spec.name = name then spec.default? else none := by
  by_cases same : spec.name = name <;> simp [latest?, same]

theorem latest?_eq_none_iff : latest? name specs = none ↔
    ∀ spec ∈ specs, spec.name = name → spec.default? = none := by
  simp [latest?]

theorem latest?_map (f : String → Option Value) (names : List String) :
    latest? name (names.map fun n => ⟨n, f n⟩) = if name ∈ names then f name else none := by
  induction names with
  | nil => rfl
  | cons first rest ih =>
    rw [List.map_cons, ← List.singleton_append, latest?_append, latest?_one, ih]
    by_cases same : first = name
    · by_cases again : name ∈ rest <;> simp [same, again]
    · simp [same, Ne.symm same]

def gathered (specs : List ParamSpec) : List ParamSpec :=
  (specs.map ParamSpec.name).eraseDups.map fun name => ⟨name, latest? name specs⟩

theorem gathered_names (specs : List ParamSpec) :
    (gathered specs).map ParamSpec.name = (specs.map ParamSpec.name).eraseDups := by
  simp [gathered, Function.comp_def]

theorem latest?_gathered (specs : List ParamSpec) :
    latest? name (gathered specs) = latest? name specs := by
  by_cases known : name ∈ specs.map ParamSpec.name
  · simp only [gathered, latest?_map, List.mem_eraseDups, known, if_true]
  · simp only [gathered, latest?_map, List.mem_eraseDups, known, if_false]
    exact (latest?_eq_none_iff.mpr fun spec listed same =>
      absurd (List.mem_map.mpr ⟨spec, listed, same⟩) known).symm

theorem gathered_append_gathered (specs later : List ParamSpec) :
    gathered (specs ++ gathered later) = gathered (specs ++ later) := by
  have names : ((specs ++ gathered later).map ParamSpec.name).eraseDups =
      ((specs ++ later).map ParamSpec.name).eraseDups := by
    rw [List.map_append, gathered_names, eraseDups_append_eraseDups, List.map_append]
  have latest (name : String) :
      latest? name (specs ++ gathered later) = latest? name (specs ++ later) := by
    simp only [latest?_append, latest?_gathered]
  rw [gathered, names]
  simp only [latest]
  rfl

end ParamSpec

namespace ParamSet

open ParamSpec (latest? gathered)

theorem addSpec_map (later : ParamSpec) {f : String → Option Value} {names : List String}
    (once : names.Nodup) (none : later.name ∉ names → f later.name = none) :
    addSpec later (names.map fun name => ⟨name, f name⟩) =
      (if later.name ∈ names then names else names ++ [later.name]).map fun name =>
        ⟨name, if later.name = name then later.default?.or (f name) else f name⟩ := by
  induction names with
  | nil => simp [addSpec, none]
  | cons first rest ih =>
    obtain ⟨new, once⟩ := List.nodup_cons.mp once
    by_cases same : first = later.name
    -- The name comes only once, so that the rest stays as it is.
    · have others : ∀ name ∈ rest, later.name ≠ name := by
        rintro name listed rfl
        exact new (same ▸ listed)
      have kept : (rest.map fun name => (⟨name, if later.name = name then later.default?.or (f name)
          else f name⟩ : ParamSpec)) = rest.map fun name => ⟨name, f name⟩ :=
        List.map_congr_left fun name listed => by rw [if_neg (others name listed)]
      simp [addSpec, same, ParamSpec.update, kept]
    · have differs := Ne.symm same
      have step := ih once fun absent => none (by simp [differs, absent])
      by_cases known : later.name ∈ rest <;> simp [addSpec, same, differs, known, step]

theorem add_gathered (specs : List ParamSpec) (later : ParamSpec) :
    (⟨gathered specs⟩ : ParamSet).add later = ⟨gathered (specs ++ [later])⟩ := by
  have unset (absent : later.name ∉ (specs.map ParamSpec.name).eraseDups) :
      latest? later.name specs = none := by
    rw [List.mem_eraseDups] at absent
    exact ParamSpec.latest?_eq_none_iff.mpr fun spec listed same =>
      absurd (List.mem_map.mpr ⟨spec, listed, same⟩) absent
  have latest (name : String) : latest? name (specs ++ [later]) =
      if later.name = name then later.default?.or (latest? name specs) else latest? name specs := by
    rw [ParamSpec.latest?_append, ParamSpec.latest?_one]
    split <;> rfl
  have names : ((specs ++ [later]).map ParamSpec.name).eraseDups =
      if later.name ∈ (specs.map ParamSpec.name).eraseDups then (specs.map ParamSpec.name).eraseDups
      else (specs.map ParamSpec.name).eraseDups ++ [later.name] := by
    simp [eraseDups_concat]
  rw [add, gathered, addSpec_map later (eraseDups_nodup _) unset, gathered, names]
  simp only [latest]

theorem foldl_add_gathered (specs later : List ParamSpec) :
    later.foldl add ⟨gathered specs⟩ = ⟨gathered (specs ++ later)⟩ := by
  induction later generalizing specs with
  | nil => simp
  | cons spec rest ih => rw [List.foldl_cons, add_gathered, ih, List.append_assoc, List.singleton_append]

theorem parse_gathered (keys : List String) : parse keys = ⟨gathered (keys.map ParamSpec.parse)⟩ :=
  foldl_add_gathered [] (keys.map ParamSpec.parse)

theorem merge_gathered (specs later : List ParamSpec) :
    (⟨gathered specs⟩ : ParamSet).merge ⟨gathered later⟩ = ⟨gathered (specs ++ later)⟩ := by
  rw [merge, foldl_add_gathered, ParamSpec.gathered_append_gathered]

theorem latestDefaults_gathered (sets : List ParamSet) :
    latestDefaults sets = ⟨gathered (sets.flatMap ParamSet.specs)⟩ := by
  have merged (specs : List ParamSpec) : sets.foldl merge ⟨gathered specs⟩ =
      ⟨gathered (specs ++ sets.flatMap ParamSet.specs)⟩ := by
    induction sets generalizing specs with
    | nil => simp
    | cons set rest ih =>
      rw [List.foldl_cons, merge, foldl_add_gathered, ih, List.flatMap_cons, List.append_assoc]
  exact merged []

theorem parse_append (keys later : List String) :
    parse (keys ++ later) = (parse keys).merge (parse later) := by
  rw [parse_gathered, parse_gathered, parse_gathered, merge_gathered, List.map_append]

inductive Composition where
  | none
  | read (keys : List String)
  | merged (first later : Composition)

namespace Composition

def set : Composition → ParamSet
  | .none => empty
  | .read keys => parse keys
  | .merged first later => first.set.merge later.set

def parts : Composition → List (List String)
  | .none => []
  | .read keys => [keys]
  | .merged first later => first.parts ++ later.parts

theorem set_eq : (c : Composition) → c.set = parse c.parts.flatten
  | .none => rfl
  | .read keys => by simp [set, parts]
  | .merged first later => by
    rw [set, first.set_eq, later.set_eq, ← parse_append, parts, List.flatten_append]

end Composition

theorem latestDefaults_parse (parts : List (List String)) :
    latestDefaults (parts.map parse) = parse parts.flatten := by
  have folded (keys : List String) :
      (parts.map parse).foldl merge (parse keys) = parse (keys ++ parts.flatten) := by
    induction parts generalizing keys with
    | nil => simp
    | cons part rest ih =>
      rw [List.map_cons, List.foldl_cons, ← parse_append, ih, List.flatten_cons, List.append_assoc]
  exact folded []

/-- A set with each of the declared names once, where it first comes up, and with the last default
that is given for it. -/
structure Latest (given : List ParamSpec) (set : ParamSet) : Prop where
  names : set.names = (given.map ParamSpec.name).eraseDups
  once : set.names.Nodup
  default : ∀ spec ∈ set.specs, spec.default? = latest? spec.name given
  essential : ∀ spec ∈ set.specs, spec.isEssential = true ↔
    ∀ other ∈ given, other.name = spec.name → other.default? = none

theorem latest_gathered (given : List ParamSpec) : Latest given ⟨gathered given⟩ := by
  have names : (⟨gathered given⟩ : ParamSet).names = (given.map ParamSpec.name).eraseDups :=
    ParamSpec.gathered_names given
  have default : ∀ spec ∈ gathered given, spec.default? = latest? spec.name given := by
    intro spec listed
    obtain ⟨name, -, rfl⟩ := List.mem_map.mp listed
    rfl
  constructor
  case names => exact names
  case once => exact names ▸ eraseDups_nodup _
  case default => exact default
  case essential =>
    intro spec listed
    rw [ParamSpec.isEssential, Option.isNone_iff_eq_none, default spec listed,
      ParamSpec.latest?_eq_none_iff]

/-- Sets that are read from keys form a monoid, and it does not matter in which steps they are put
together. -/
theorem merging_independent_of_steps :
    (∀ a b c : List String,
      ((parse a).merge (parse b)).merge (parse c) = (parse a).merge ((parse b).merge (parse c)) ∧
      empty.merge (parse a) = parse a ∧ (parse a).merge empty = parse a ∧
      ((parse a).merge (parse b)).names.Nodup) ∧
    (∀ sets : List ParamSet, Latest (sets.flatMap ParamSet.specs) (latestDefaults sets)) ∧
    (∀ c : Composition, c.set = latestDefaults (c.parts.map parse) ∧ c.set.names.Nodup ∧
      ∀ {σ : Type} (typeName description : String) (keys : List String) (initial : σ),
        let d := Descriptor.make typeName description c.parts keys initial
        d.params = c.set.merge (parse keys) ∧ d.params.names =
          ((c.parts.flatten ++ keys).map fun key => (ParamSpec.parse key).name).eraseDups) := by
  have once (keys : List String) : (parse keys).names.Nodup := by
    rw [parse_gathered]
    exact (latest_gathered _).once
  refine ⟨fun a b c => ⟨?_, ?_, ?_, ?_⟩, fun sets => ?_, fun c => ⟨?_, ?_, ?_⟩⟩
  · simp only [← parse_append, List.append_assoc]
  · exact (parse_append [] a).symm
  · rfl
  · rw [← parse_append]
    exact once _
  · rw [latestDefaults_gathered]
    exact latest_gathered _
  · rw [c.set_eq, latestDefaults_parse]
  · rw [c.set_eq]
    exact once _
  · intro σ typeName description keys initial
    have params : (Descriptor.make typeName description c.parts keys initial).params =
        parse (c.parts.flatten ++ keys) := by
      rw [Descriptor.make, latestDefaults_parse, List.flatten_append, List.flatten_singleton]
    refine ⟨by rw [params, parse_append, c.set_eq], ?_⟩
    rw [params, parse_gathered, (latest_gathered _).names, List.map_map]
    rfl

example : (latestDefaults [parse ["a:1", "b"], parse ["b:2", "c", "a"]]).specs.map ParamSpec.name =
    ["a", "b", "c"] := by decide +kernel

end ParamSet

end Sluice
