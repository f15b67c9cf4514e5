import Sluice.Proofs.Assembly.Build
import Sluice.Proofs.Assembly.StageTypes

set_option autoImplicit false

namespace Sluice

variable {σ α β : Type}

namespace Registry

structure Contains (r : Registry σ) (p : Pipeline) (plan : Route.Plan) (name : String)
    (graph : Pipeline) : Prop where
  plain : name ∉ plan.fanOuts
  other : Outline.firstRegistered r.stages (Outline.typeNames p name) = none
  found : ∃ typeName,
    Outline.firstRegistered r.graphs (Outline.typeNames p name) = some (typeName, graph)

structure Unnamed (r : Registry σ) (p : Pipeline) (plan : Route.Plan) (name : String) : Prop where
  plain : name ∉ plan.fanOuts
  stages : Outline.firstRegistered r.stages (Outline.typeNames p name) = none
  graphs : Outline.firstRegistered r.graphs (Outline.typeNames p name) = none

def Includes (r : Registry σ) (p graph : Pipeline) : Prop :=
  ∃ plan name, Route.Plan.read p.route = .ok plan ∧ name ∈ Outline.memberNames p plan ∧
    r.Contains p plan name graph

/-- A pipeline that lies so many levels deep can be expanded. Nothing but the depth bounds this, so
a derivation is a whole expansion, and a finite one. -/
inductive Expands (r : Registry σ) : Nat → Pipeline → Prop
  | typed {depth : Nat} {p : Pipeline} {plan : Route.Plan} (shallow : depth ≤ Outline.maxNesting)
      (read : Route.Plan.read p.route = .ok plan)
      (named : ∀ name ∈ Outline.memberNames p plan, ¬ r.Unnamed p plan name)
      (inner : ∀ name ∈ Outline.memberNames p plan, ∀ graph, r.Contains p plan name graph →
        Expands r (depth + 1) graph) : Expands r depth p

def Settles (r : Registry σ) (depth : Nat) (p : Pipeline) (plan : Route.Plan) (name : String) :
    Prop :=
  ¬ r.Unnamed p plan name ∧ ∀ graph, r.Contains p plan name graph → r.Expands (depth + 1) graph

inductive Fails (r : Registry σ) : Nat → Pipeline → ConfigError → Prop
  | deep {depth : Nat} {p : Pipeline} (deep : Outline.maxNesting < depth) :
      Fails r depth p (.nestingTooDeep p.typeName Outline.maxNesting)
  | route {depth : Nat} {p : Pipeline} {e : Route.RouteError} (shallow : depth ≤ Outline.maxNesting)
      (read : Route.Plan.read p.route = .error e) : Fails r depth p (.route e)
  | unnamed {depth : Nat} {p : Pipeline} {plan : Route.Plan} {before after : List String}
      {name : String} (shallow : depth ≤ Outline.maxNesting)
      (read : Route.Plan.read p.route = .ok plan)
      (names : Outline.memberNames p plan = before ++ name :: after)
      (settled : ∀ earlier ∈ before, r.Settles depth p plan earlier)
      (unnamed : r.Unnamed p plan name) :
      Fails r depth p
        (.unknownType name (((p.sections.at? name).bind Section.typeName?).getD name))
  | inner {depth : Nat} {p : Pipeline} {plan : Route.Plan} {before after : List String}
      {name : String} {graph : Pipeline} {c : ConfigError} (shallow : depth ≤ Outline.maxNesting)
      (read : Route.Plan.read p.route = .ok plan)
      (names : Outline.memberNames p plan = before ++ name :: after)
      (settled : ∀ earlier ∈ before, r.Settles depth p plan earlier)
      (contains : r.Contains p plan name graph) (fails : Fails r (depth + 1) graph c) :
      Fails r depth p c

variable {r : Registry σ}

theorem Contains.unique {p : Pipeline} {plan : Route.Plan} {name : String} {graph other : Pipeline}
    (one : r.Contains p plan name graph) (also : r.Contains p plan name other) : graph = other := by
  obtain ⟨typeName, found⟩ := one.found
  obtain ⟨typeName', found'⟩ := also.found
  rw [found] at found'
  cases found'
  rfl

theorem Contains.named {p : Pipeline} {plan : Route.Plan} {name : String} {graph : Pipeline}
    (contains : r.Contains p plan name graph) : ¬ r.Unnamed p plan name := by
  obtain ⟨typeName, found⟩ := contains.found
  intro unnamed
  rw [unnamed.graphs] at found
  cases found

theorem Includes.nests {p graph q : Pipeline} (includes : r.Includes p graph)
    (nests : r.Nests graph q) : r.Nests p q := by
  obtain ⟨plan, name, read, listed, contains⟩ := includes
  obtain ⟨typeName, found⟩ := contains.found
  exact .inner read listed contains.plain contains.other found nests

theorem Includes.of_plan {p graph : Pipeline} (name typeName : String)
    (listed : (Route.Plan.read p.route).toOption.any (fun plan =>
      (Outline.memberNames p plan).contains name && !plan.fanOuts.contains name) = true)
    (other : (Outline.firstRegistered r.stages (Outline.typeNames p name)).isNone = true)
    (found : Outline.firstRegistered r.graphs (Outline.typeNames p name) = some (typeName, graph)) :
    r.Includes p graph := by
  obtain ⟨plan, read, holds⟩ := except_of_any listed
  obtain ⟨listed, plain⟩ := (Bool.and_eq_true _ _).mp holds
  exact ⟨plan, name, read, by simpa using listed, by simpa using plain,
    Option.isNone_iff_eq_none.mp other, typeName, found⟩

theorem Nests.trans {p q s : Pipeline} (nests : r.Nests p q) (more : r.Nests q s) : r.Nests p s := by
  induction nests with
  | refl p => exact more
  | inner read named plain other found _ ih => exact .inner read named plain other found (ih more)

theorem Expands.chain {depth : Nat} {p : Pipeline} (expands : r.Expands depth p)
    {chain : List Pipeline} (chained : (p :: chain).IsChain r.Includes) :
    depth + chain.length ≤ Outline.maxNesting := by
  induction expands generalizing chain with
  | typed shallow read named inner ih =>
    cases chain with
    | nil => exact shallow
    | cons graph rest =>
      obtain ⟨⟨plan', name, read', listed, contains⟩, chained⟩ := List.isChain_cons_cons.mp chained
      obtain rfl := Except.ok.inj (read.symm.trans read')
      have bound := ih name listed graph contains chained
      rw [List.length_cons]
      omega

theorem Expands.inner {depth : Nat} {p graph : Pipeline} (expands : r.Expands depth p)
    (includes : r.Includes p graph) : r.Expands (depth + 1) graph := by
  obtain ⟨plan, name, read, listed, contains⟩ := includes
  cases expands with
  | typed _ read' _ inner =>
    obtain rfl := Except.ok.inj (read.symm.trans read')
    exact inner name listed graph contains

theorem Expands.nests {depth : Nat} {p q : Pipeline} (expands : r.Expands depth p)
    (nests : r.Nests p q) : ∃ deeper, r.Expands deeper q := by
  induction nests generalizing depth with
  | refl p => exact ⟨depth, expands⟩
  | inner read named plain other found _ ih =>
    exact ih (expands.inner ⟨_, _, read, named, plain, other, _, found⟩)

/-- What contains itself is contained in each of the sub-graphs on the way round, so none of them
could come to an end first. -/
theorem Expands.acyclic {depth : Nat} {p graph : Pipeline} (expands : r.Expands depth p)
    (includes : r.Includes p graph) : ¬ r.Nests graph p := by
  induction expands generalizing graph with
  | @typed _ p plan _ read _ _ ih =>
    intro nests
    obtain ⟨plan', name, read', listed, contains⟩ := id includes
    obtain rfl := Except.ok.inj (read.symm.trans read')
    cases nests with
    | refl => exact ih name listed p contains includes (.refl p)
    | inner read' named plain other found nests =>
      exact ih name listed graph contains ⟨_, _, read', named, plain, other, _, found⟩
        (nests.trans (includes.nests (.refl graph)))

theorem Expands.not_fails {depth : Nat} {p : Pipeline} (expands : r.Expands depth p)
    (c : ConfigError) : ¬ r.Fails depth p c := by
  induction expands generalizing c with
  | typed shallow read named inner ih =>
    intro fails
    cases fails with
    | deep deep => omega
    | route _ read' => cases read.symm.trans read'
    | unnamed _ read' names _ unnamed =>
      obtain rfl := Except.ok.inj (read.symm.trans read')
      exact named _ (names ▸ List.mem_append_right _ List.mem_cons_self) unnamed
    | inner _ read' names _ contains fails =>
      obtain rfl := Except.ok.inj (read.symm.trans read')
      exact ih _ (names ▸ List.mem_append_right _ List.mem_cons_self) _ contains c fails

theorem first_met {α : Type} {settles : α → Prop} {before before' after after' : List α} {x x' : α}
    (same : before ++ x :: after = before' ++ x' :: after') (one : ∀ y ∈ before, settles y)
    (also : ∀ y ∈ before', settles y) (here : ¬ settles x) (there : ¬ settles x') :
    x = x' := by
  -- Two splits of one list at its first unsettled member. If one of them is further to the right,
  -- it has the other's member among those that are settled.
  induction before generalizing before' with
  | nil =>
    cases before' with
    | nil => exact (List.cons.inj same).1
    | cons y rest =>
      obtain ⟨rfl, -⟩ := List.cons.inj same
      exact absurd (also x List.mem_cons_self) here
  | cons y rest ih =>
    cases before' with
    | nil =>
      obtain ⟨rfl, -⟩ := List.cons.inj same
      exact absurd (one y List.mem_cons_self) there
    | cons y' rest' =>
      obtain ⟨-, same⟩ := List.cons.inj same
      exact ih same (fun z listed => one z (List.mem_cons_of_mem _ listed))
        fun z listed => also z (List.mem_cons_of_mem _ listed)

theorem Unnamed.unsettled {p : Pipeline} {plan : Route.Plan} {name : String} {depth : Nat}
    (unnamed : r.Unnamed p plan name) : ¬ r.Settles depth p plan name :=
  fun settles => settles.1 unnamed

theorem Contains.unsettled {p graph : Pipeline} {plan : Route.Plan} {name : String} {depth : Nat}
    {c : ConfigError} (contains : r.Contains p plan name graph) (fails : r.Fails (depth + 1) graph c) :
    ¬ r.Settles depth p plan name :=
  fun settles => (settles.2 graph contains).not_fails c fails

theorem Fails.unique {depth : Nat} {p : Pipeline} {c other : ConfigError}
    (fails : r.Fails depth p c) (also : r.Fails depth p other) : c = other := by
  -- Both derivations stop at the first member that is not settled, which is the same by
  -- `first_met`.
  induction fails generalizing other with
  | deep deep =>
    cases also with
    | deep => rfl
    | route | unnamed | inner => omega
  | route shallow read =>
    cases also with
    | deep => omega
    | route _ read' => rw [Except.error.inj (read.symm.trans read')]
    | unnamed _ read' | inner _ read' => cases read.symm.trans read'
  | unnamed shallow read names settled unnamed =>
    cases also with
    | deep => omega
    | route _ read' => cases read.symm.trans read'
    | unnamed _ read' names' settled' unnamed' =>
      obtain rfl := Except.ok.inj (read.symm.trans read')
      rw [first_met (names.symm.trans names') settled settled' unnamed.unsettled unnamed'.unsettled]
    | inner _ read' names' settled' contains fails =>
      obtain rfl := Except.ok.inj (read.symm.trans read')
      obtain rfl := first_met (names.symm.trans names') settled settled' unnamed.unsettled
        (contains.unsettled fails)
      exact absurd unnamed contains.named
  | inner shallow read names settled contains fails ih =>
    cases also with
    | deep => omega
    | route _ read' => cases read.symm.trans read'
    | unnamed _ read' names' settled' unnamed =>
      obtain rfl := Except.ok.inj (read.symm.trans read')
      obtain rfl := first_met (names.symm.trans names') settled settled' (contains.unsettled fails)
        unnamed.unsettled
      exact absurd unnamed contains.named
    | inner _ read' names' settled' contains' fails' =>
      obtain rfl := Except.ok.inj (read.symm.trans read')
      obtain rfl := first_met (names.symm.trans names') settled settled' (contains.unsettled fails)
        (contains'.unsettled fails')
      obtain rfl := contains.unique contains'
      exact ih fails'

inductive Ails (r : Registry σ) (p : Pipeline) : ConfigError → Prop
  | route {q : Pipeline} {e : Route.RouteError} (nests : r.Nests p q)
      (read : Route.Plan.read q.route = .error e) : Ails r p (.route e)
  | unnamed {q : Pipeline} {plan : Route.Plan} {name : String} (nests : r.Nests p q)
      (read : Route.Plan.read q.route = .ok plan) (named : name ∈ Outline.memberNames q plan)
      (unnamed : r.Unnamed q plan name) :
      Ails r p (.unknownType name (((q.sections.at? name).bind Section.typeName?).getD name))

theorem Ails.outer {p graph : Pipeline} {c : ConfigError} (ails : r.Ails graph c)
    (includes : r.Includes p graph) : r.Ails p c := by
  cases ails with
  | route nests read => exact .route (includes.nests nests) read
  | unnamed nests read named unnamed => exact .unnamed (includes.nests nests) read named unnamed

theorem Fails.cause {depth : Nat} {p : Pipeline} {c : ConfigError} (fails : r.Fails depth p c)
    (within : depth ≤ Outline.maxNesting + 1) : r.Ails p c ∨
      ∃ chain, ∃ last ∈ (p :: chain).getLast?, (p :: chain).IsChain r.Includes ∧
        depth + chain.length = Outline.maxNesting + 1 ∧
        c = .nestingTooDeep last.typeName Outline.maxNesting := by
  induction fails with
  | @deep depth p deep =>
    exact .inr ⟨[], p, rfl, .singleton p, by rw [List.length_nil]; omega, rfl⟩
  | route _ read => exact .inl (.route (.refl _) read)
  | unnamed _ read names _ unnamed =>
    exact .inl (.unnamed (.refl _) read (names ▸ List.mem_append_right _ List.mem_cons_self) unnamed)
  -- Either the error comes from within, or the chain of pipelines grows by the one that is left
  -- here.
  | @inner depth p _ _ _ _ graph _ shallow read names _ contains _ ih =>
    have includes : r.Includes p graph :=
      ⟨_, _, read, names ▸ List.mem_append_right _ List.mem_cons_self, contains⟩
    rcases ih (by omega) with ails | ⟨chain, last, ends, chained, length, same⟩
    · exact .inl (ails.outer includes)
    · refine .inr ⟨graph :: chain, last, ?_, .cons_cons includes chained, ?_, same⟩
      · rwa [List.getLast?_cons_cons]
      · rw [List.length_cons]
        omega

end Registry

namespace Outline

open Building (Yields Blames)

variable {r : Registry σ} {p : Pipeline} {plan : Route.Plan} {depth : Nat}

theorem part_settles {inner : Pipeline → Building σ (Outline σ)}
    (expands : ∀ graph, (inner graph).Yields fun _ => r.Expands (depth + 1) graph) (name : String) :
    (part r inner p plan name).Yields fun _ => r.Settles depth p plan name := by
  rcases part_cases r inner p plan name with ⟨forks, settled⟩ | ⟨plain, ⟨typeName, type, found, settled⟩ |
    ⟨other, ⟨typeName, graph, found, settled⟩ | ⟨-, settled⟩⟩⟩ <;> rw [settled]
  · exact .pure ⟨fun unnamed => unnamed.plain forks, fun graph contains => absurd forks contains.plain⟩
  · refine .pure ⟨fun unnamed => ?_, fun graph contains => ?_⟩
    · cases found.symm.trans unnamed.stages
    · cases found.symm.trans contains.other
  · have contains : r.Contains p plan name graph := ⟨plain, other, typeName, found⟩
    refine (expands graph).bind fun o expands => .pure ⟨contains.named, fun graph' contains' => ?_⟩
    exact contains.unique contains' ▸ expands
  · exact .throw _ _

theorem parts_settle {inner : Pipeline → Building σ (Outline σ)}
    (expands : ∀ graph, (inner graph).Yields fun _ => r.Expands (depth + 1) graph)
    (names : List String) :
    (parts? r inner p plan names).Yields fun _ => ∀ name ∈ names, r.Settles depth p plan name := by
  induction names with
  | nil => exact .pure nofun
  | cons name rest ih =>
    refine (part_settles expands name).bind fun _ first => ih.bind fun _ later => ?_
    exact .pure (List.forall_mem_cons.mpr ⟨first, later⟩)

inductive Stops (r : Registry σ) (depth : Nat) (p : Pipeline) (plan : Route.Plan) (name : String) :
    EngineError → Prop
  | unnamed (unnamed : r.Unnamed p plan name) : Stops r depth p plan name
      (.config (.unknownType name (((p.sections.at? name).bind Section.typeName?).getD name)))
  | inner {graph : Pipeline} {c : ConfigError} (contains : r.Contains p plan name graph)
      (fails : r.Fails (depth + 1) graph c) : Stops r depth p plan name (.config c)

theorem part_stops {inner : Pipeline → Building σ (Outline σ)}
    (expands : ∀ graph, (inner graph).Yields fun _ => r.Expands (depth + 1) graph)
    (fails : ∀ graph, (inner graph).Blames fun e => ∃ c, e = .config c ∧ r.Fails (depth + 1) graph c)
    (name : String) : (part r inner p plan name).Blames (Stops r depth p plan name) := by
  rcases part_cases r inner p plan name with ⟨-, settled⟩ | ⟨plain, ⟨_, _, -, settled⟩ |
    ⟨other, ⟨typeName, graph, found, settled⟩ | ⟨missing, settled⟩⟩⟩ <;> rw [settled]
  · exact .pure _ _
  · exact .pure _ _
  · refine .bind (expands graph) (fun history uncalled e failed => ?_) fun _ _ => .pure _ _
    obtain ⟨c, rfl, fails⟩ := fails graph history uncalled e failed
    exact .inner ⟨plain, other, typeName, found⟩ fails
  · exact .throw (.unnamed ⟨plain, other, missing⟩)

theorem parts_stop {inner : Pipeline → Building σ (Outline σ)}
    (expands : ∀ graph, (inner graph).Yields fun _ => r.Expands (depth + 1) graph)
    (fails : ∀ graph, (inner graph).Blames fun e => ∃ c, e = .config c ∧ r.Fails (depth + 1) graph c)
    (names : List String) : (parts? r inner p plan names).Blames fun e =>
      ∃ before name after, names = before ++ name :: after ∧
        (∀ earlier ∈ before, r.Settles depth p plan earlier) ∧ Stops r depth p plan name e := by
  induction names with
  | nil => exact .pure _ _
  | cons name rest ih =>
    refine .bind (part_settles expands name) (fun history uncalled e failed => ?_)
      fun _ settles => .bind (parts_settle expands rest) (fun history uncalled e failed => ?_)
        fun _ _ => .pure _ _
    · exact ⟨[], name, rest, rfl, nofun, part_stops expands fails name history uncalled e failed⟩
    · obtain ⟨before, other, after, rfl, settled, stops⟩ := ih history uncalled e failed
      exact ⟨name :: before, other, after, rfl, List.forall_mem_cons.mpr ⟨settles, settled⟩, stops⟩

theorem declareWithin_expands (r : Registry σ) (left : Nat) {depth : Nat}
    (allTyped : left + depth = maxNesting + 1) (p : Pipeline) :
    (declareWithin r left p).Yields fun _ => r.Expands depth p := by
  induction left generalizing depth p with
  | zero => exact .throw _ _
  | succ left ih =>
    have deeper (graph : Pipeline) : (declareWithin r left graph).Yields fun _ =>
        r.Expands (depth + 1) graph := ih (by omega) graph
    refine (compile_yields p).bind fun plan read =>
      (parts_settle deeper _).bind fun _ settled => .pure ?_
    exact .typed (by omega) read (fun name listed => (settled name listed).1)
      fun name listed => (settled name listed).2

theorem declareWithin_fails (r : Registry σ) (left : Nat) {depth : Nat}
    (allTyped : left + depth = maxNesting + 1) (p : Pipeline) :
    (declareWithin r left p).Blames fun e => ∃ c, e = .config c ∧ r.Fails depth p c := by
  induction left generalizing depth p with
  | zero => exact .throw ⟨_, rfl, .deep (by omega)⟩
  | succ left ih =>
    have below : left + (depth + 1) = maxNesting + 1 := by omega
    have expands := declareWithin_expands r left below
    refine .bind (compile_yields p) (.ofReporting fun c failed => ?_) fun plan read =>
      .bind (parts_settle expands _) (fun history uncalled e failed => ?_) fun _ _ => .pure _ _
    -- The route is read by a compiler that also keeps reports, which do not matter for the result.
    · have failed : (Route.Plan.read p.route).mapError ConfigError.route = .error c := by
        rw [← Route.Plan.compile_run p.route []]
        exact failed
      cases read : Route.Plan.read p.route with
      | ok plan =>
        rw [read] at failed
        cases failed
      | error problem =>
        rw [read] at failed
        cases failed
        exact ⟨_, rfl, .route (by omega) read⟩
    · obtain ⟨before, name, after, names, settled, stops⟩ :=
        parts_stop expands (ih below) _ history uncalled e failed
      cases stops with
      | unnamed unnamed => exact ⟨_, rfl, .unnamed (by omega) read names settled unnamed⟩
      | inner contains fails => exact ⟨_, rfl, .inner (by omega) read names settled contains fails⟩

theorem declare_expands (r : Registry σ) (p : Pipeline) :
    (declare r p).Yields fun _ => r.Expands 0 p :=
  declareWithin_expands r (maxNesting + 1) (Nat.add_zero _) p

theorem declare_fails (r : Registry σ) (p : Pipeline) :
    (declare r p).Blames fun e => ∃ c, e = .config c ∧ r.Fails 0 p c :=
  declareWithin_fails r (maxNesting + 1) (Nat.add_zero _) p

theorem declare_ok_iff (r : Registry σ) (p : Pipeline) :
    (∃ o, (declare r p).run.1 = .ok o) ↔ r.Expands 0 p := by
  constructor
  · rintro ⟨o, declared⟩
    exact (declare_expands r p [] .nil).2 o declared
  · intro expands
    cases declared : (declare r p).run.1 with
    | ok o => exact ⟨o, rfl⟩
    | error e =>
      obtain ⟨c, -, fails⟩ := declare_fails r p [] .nil e declared
      exact absurd fails (expands.not_fails c)

theorem declare_error_iff (r : Registry σ) (p : Pipeline) (e : EngineError) :
    (declare r p).run.1 = .error e ↔ ∃ c, e = .config c ∧ r.Fails 0 p c := by
  constructor
  · exact declare_fails r p [] .nil e
  · rintro ⟨c, rfl, fails⟩
    cases declared : (declare r p).run.1 with
    | ok o => exact absurd fails (((declare_ok_iff r p).mp ⟨o, declared⟩).not_fails c)
    | error e =>
      obtain ⟨c', rfl, fails'⟩ := declare_fails r p [] .nil e declared
      rw [fails.unique fails']

end Outline

namespace Blueprint

variable [Stage σ]

theorem build_undeclared {b : Blueprint σ} {e : EngineError}
    (failed : (Outline.declare b.registry b.pipeline).run.1 = .error e) : b.build.1 = .error e := by
  have assembled : b.assemble.run.1 = .error e := by
    rcases ran : (Outline.declare b.registry b.pipeline).run with ⟨result, history⟩
    rw [ran] at failed
    cases failed
    change (StateT.run (ExceptT.run b.assemble) []).1 = _
    rw [assemble, ExceptT.run_bind, StateT.run_bind]
    change StateT.run (ExceptT.run (Outline.declare b.registry b.pipeline)) [] = _ at ran
    rw [ran]
    rfl
  rcases ran : b.assemble.run with ⟨result, history⟩
  rw [ran] at assembled
  cases assembled
  simp only [build, ran]

theorem build_declared {b : Blueprint σ} {g : Graph σ} (built : b.build.1 = .ok g) :
    b.registry.Expands 0 b.pipeline := by
  refine (Outline.declare_ok_iff b.registry b.pipeline).mp ?_
  cases declared : (Outline.declare b.registry b.pipeline).run.1 with
  | ok o => exact ⟨o, rfl⟩
  | error e => cases built.symm.trans (build_undeclared declared)

/-- Expanding a pipeline comes to an end, with an outline or with the error that is met first. A graph
is built only if no chain of sub-graphs is longer than allowed, an expansion that is too deep is so
at the end of a chain that is one longer, and a sub-graph that contains itself is never built. -/
theorem expansion_bounded (b : Blueprint σ) :
    ((∃ o, (Outline.declare b.registry b.pipeline).run.1 = .ok o) ↔
      b.registry.Expands 0 b.pipeline) ∧
    (∀ e, (Outline.declare b.registry b.pipeline).run.1 = .error e ↔
      ∃ c, e = .config c ∧ b.registry.Fails 0 b.pipeline c) ∧
    (∀ g, b.build.1 = .ok g → ∀ chain, (b.pipeline :: chain).IsChain b.registry.Includes →
      chain.length ≤ 50) ∧
    (∀ typeName depth, b.registry.Fails 0 b.pipeline (.nestingTooDeep typeName depth) →
      depth = 50 ∧ ∃ chain, ∃ last ∈ (b.pipeline :: chain).getLast?,
        (b.pipeline :: chain).IsChain b.registry.Includes ∧ chain.length = 51 ∧
        last.typeName = typeName) ∧
    ∀ q graph, b.registry.Nests b.pipeline q → b.registry.Includes q graph →
      b.registry.Nests graph q → ∃ c, b.build.1 = .error (.config c) ∧
        b.registry.Fails 0 b.pipeline c ∧
        ((∃ typeName, c = .nestingTooDeep typeName 50) ∨ b.registry.Ails b.pipeline c) := by
  refine ⟨Outline.declare_ok_iff _ _, Outline.declare_error_iff _ _, fun g built chain chained => ?_,
    fun typeName depth fails => ?_, fun q graph nests includes back => ?_⟩
  · have bound := (build_declared built).chain chained
    rwa [Nat.zero_add] at bound
  · rcases fails.cause (Nat.zero_le _) with ails | ⟨chain, last, ends, chained, length, same⟩
    · cases ails
    · obtain ⟨named, rfl⟩ := ConfigError.nestingTooDeep.inj same
      exact ⟨rfl, chain, last, ends, chained, by rwa [Nat.zero_add] at length, named.symm⟩
  · have endless : ¬ b.registry.Expands 0 b.pipeline := by
      intro expands
      obtain ⟨deeper, expands⟩ := expands.nests nests
      exact expands.acyclic includes back
    cases declared : (Outline.declare b.registry b.pipeline).run.1 with
    | ok o => exact absurd ((Outline.declare_ok_iff _ _).mp ⟨o, declared⟩) endless
    | error e =>
      obtain ⟨c, rfl, fails⟩ := (Outline.declare_error_iff _ _ e).mp declared
      refine ⟨c, build_undeclared declared, fails, ?_⟩
      rcases fails.cause (Nat.zero_le _) with ails | ⟨_, last, -, -, -, same⟩
      · exact .inr ails
      · exact .inl ⟨last.typeName, same⟩

def nesting (name inner : String) : Blueprint Stock where
  pipeline := ⟨"line", "", [], false, name, []⟩
  registry := { Stock.registry with graphs := [(name, ⟨name, "", [], false, inner, []⟩)] }
  params := []
  environment := .empty

def around : Blueprint Stock := nesting "round" "round"

theorem expansion_bounded_around :
    (∃ g graph, (nesting "inner" "wrap:x").build.1 = .ok g ∧
      (nesting "inner" "wrap:x").registry.Includes (nesting "inner" "wrap:x").pipeline graph ∧
      [graph].length ≤ 50) ∧
    (∃ c, around.build.1 = .error (.config c) ∧ around.registry.Fails 0 around.pipeline c) ∧
    ∃ chain, (around.pipeline :: chain).IsChain around.registry.Includes ∧ chain.length = 51 := by
  refine ⟨?_, ?_, ?_⟩
  · have passes : (nesting "inner" "wrap:x").passes (fun _ => true) = true := by decide +kernel
    obtain ⟨g, built, -⟩ := of_passes passes
    have includes : (nesting "inner" "wrap:x").registry.Includes
        (nesting "inner" "wrap:x").pipeline ⟨"inner", "", [], false, "wrap:x", []⟩ :=
      .of_plan "inner" "inner" (by decide +kernel) (by decide +kernel) rfl
    exact ⟨g, _, built, includes, (expansion_bounded (nesting "inner" "wrap:x")).2.2.1 g built
      _ (.cons_cons includes (.singleton _))⟩
  -- A pipeline that is its own member: the chain can be made as long as wanted.
  · have outer : around.registry.Includes around.pipeline ⟨"round", "", [], false, "round", []⟩ :=
      .of_plan "round" "round" (by decide +kernel) (by decide +kernel) rfl
    have again : around.registry.Includes ⟨"round", "", [], false, "round", []⟩
        ⟨"round", "", [], false, "round", []⟩ :=
      .of_plan "round" "round" (by decide +kernel) (by decide +kernel) rfl
    obtain ⟨c, failed, fails, -⟩ := (expansion_bounded around).2.2.2.2 _ _ (outer.nests (.refl _))
      again (.refl _)
    exact ⟨c, failed, fails⟩
  · have declared : (match (Outline.declare around.registry around.pipeline).run.1 with
        | .error (.config (.nestingTooDeep typeName depth)) => typeName == "round" && depth == 50
        | _ => false) = true := by
      decide +kernel
    split at declared
    next typeName depth failed =>
      obtain ⟨c, same, fails⟩ := ((expansion_bounded around).2.1 _).mp failed
      cases same
      obtain ⟨-, chain, -, -, chained, length, -⟩ :=
        (expansion_bounded around).2.2.2.1 typeName depth fails
      exact ⟨chain, chained, length⟩
    next => cases declared

end Blueprint

end Sluice
