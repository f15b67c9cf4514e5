import Sluice.Command
import Sluice.Proofs.Config.LibraryRegistration
import Sluice.Proofs.Graph.Chains

set_option autoImplicit false

namespace Sluice

theorem Registry.Change.registerLibrary_stages {σ : Type} (library : Library) (r : Registry σ)
    (reports : List Report) :
    (StateT.run ((registerLibrary library).run r) reports).1.2.stages = r.stages := by
  have kept {set : Registry σ → String × Datum → Registry σ}
      (keeps : ∀ r entry, (set r entry).stages = r.stages) (essentials : Dict Datum) (r : Registry σ) :
      (essentials.foldl set r).stages = r.stages := by
    induction essentials generalizing r with
    | nil => rfl
    | cons entry rest ih => exact (ih _).trans (keeps r entry)
  obtain ⟨pooled, run, stages⟩ : ∃ pooled, (registerLibrary library).run r =
      (registerGraphs library.pipelines).run pooled ∧ pooled.stages = r.stages := by
    refine ⟨_, rfl, kept (fun r entry => ?_) library.essentials r⟩
    rfl
  obtain ⟨result, after, later, taken, left, ran, takes⟩ :=
    registerGraphs_run library.pipelines pooled reports
  rw [run, ran]
  exact takes.stages.trans stages

namespace Command

variable {α β ε : Type}

def Answers (command : Command α) (good : α → Prop) : Prop :=
  ∀ reports a later, StateT.run (ExceptT.run command) reports = (.ok a, later) → good a

namespace Answers

variable {command : Command α} {good : α → Prop}

theorem pure {a : α} (holds : good a) : (Pure.pure a : Command α).Answers good := by
  rintro reports _ _ ⟨⟩
  exact holds

theorem bind {next : α → Command β} {last : β → Prop} (first : command.Answers good)
    (rest : ∀ a, good a → (next a).Answers last) : (command >>= next).Answers last := by
  intro reports b later ran
  rw [ExceptT.run_bind, StateT.run_bind] at ran
  have first := first reports
  generalize StateT.run (ExceptT.run command) reports = ended at first ran
  obtain ⟨result, mid⟩ := ended
  cases result with
  | error e => cases ran
  | ok a => exact rest a (first a mid rfl) mid b later ran

theorem ofExcept (failure : ε → Failure) (result : Except ε α) :
    (Command.ofExcept failure result).Answers fun a => result = .ok a := by
  cases result with
  | error e => exact nofun
  | ok a =>
    rintro reports _ later ⟨⟩
    rfl

theorem lift {answer : Reporting α} (holds : ∀ reports, good (StateT.run answer reports).1) :
    Answers (ExceptT.lift answer) good := by
  intro reports a later ran
  have same : Except.ok (StateT.run answer reports).1 = Except.ok a := congrArg Prod.fst ran
  exact Except.ok.inj same ▸ holds reports

theorem part {failure : ε → Failure} {result : ExceptT ε Reporting α}
    (holds : ∀ reports a, (StateT.run (ExceptT.run result) reports).1 = .ok a → good a) :
    (Command.part failure result).Answers good := by
  intro reports a later ran
  have run : (StateT.run (ExceptT.run (Command.part failure result)) reports).1 =
      (StateT.run (ExceptT.run result) reports).1.mapError failure := rfl
  have ended := run.symm.trans (congrArg Prod.fst ran)
  refine holds reports a ?_
  cases same : (StateT.run (ExceptT.run result) reports).1 with
  | error e =>
    rw [same] at ended
    cases ended
  | ok b =>
    rw [same] at ended
    exact congrArg _ (Except.ok.inj ended)

end Answers

def Describes (readers : Readers) (files : Files) (path : String) (p : Pipeline) : Prop :=
  ∃ text, files path = .ok text ∧ readers.pipeline (.ofPath path) inlinePath text = .ok p

section

variable {readers : Readers} {files : Files}

theorem Describes.once {path : String} {p q : Pipeline} (first : Describes readers files path p)
    (second : Describes readers files path q) : p = q := by
  obtain ⟨text, found, parsed⟩ := first
  obtain ⟨other, found', parsed'⟩ := second
  obtain rfl : text = other := Except.ok.inj (found.symm.trans found')
  exact Except.ok.inj (parsed.symm.trans parsed')

theorem readPipeline_answers (path : String) :
    (readPipeline readers files path).Answers (Describes readers files path) := by
  refine .bind (.ofExcept _ _) fun text read => .bind (.ofExcept _ _) fun p parsed => ?_
  have checks : Answers (ExceptT.lift p.validate) fun _ => True := fun _ _ _ _ => trivial
  exact checks.bind fun valid _ => .bind (.ofExcept _ _) fun _ _ => .pure ⟨text, read, parsed⟩

theorem addLibrary_answers (library : Library) (b : Blueprint Stock) :
    (addLibrary library b).Answers fun after => ∃ registry : Registry Stock,
      registry.stages = b.registry.stages ∧ after = { b with registry } := by
  refine .part fun reports after done => ?_
  have stages := Registry.Change.registerLibrary_stages library b.registry reports
  rcases ran : StateT.run ((Registry.Change.registerLibrary library).run b.registry) reports with
    ⟨⟨result, registry⟩, later⟩
  rw [ran] at stages
  have run : (StateT.run (ExceptT.run (b.register (Registry.Change.registerLibrary library))) reports).1 =
      result.map fun _ => { b with registry } := by
    unfold Blueprint.register
    rw [ExceptT.run_bind, ExceptT.run_lift, StateT.run_bind, StateT.run_map, ran]
    cases result <;> rfl
  cases result with
  | error e => cases run.symm.trans done
  | ok _ => exact ⟨registry, stages, (Except.ok.inj (run.symm.trans done)).symm⟩

theorem build_answers (b : Blueprint Stock) (failure : EngineError → Failure) :
    (part failure b.buildReporting).Answers fun g => b.build.1 = .ok g := by
  refine .part fun reports g done => ?_
  have run : (StateT.run (ExceptT.run b.buildReporting) reports).1 = b.build.1 := rfl
  exact run.symm.trans done

theorem onGraph_answers (run : Run Stock α) (g : Graph Stock) :
    (onGraph run g).Answers fun ended => run.start g = some ended := by
  have reported : Answers (ExceptT.lift (run.reporting g)) fun ended => ended = run.start g := by
    refine .lift fun reports => ?_
    unfold Run.reporting
    cases run.start g with
    | none => rfl
    | some ended => rfl
  refine .bind reported fun ended same => ?_
  subst same
  cases run.start g with
  | none => exact nofun
  | some ended => exact .pure rfl

theorem pumpAndClose_answers (g : Graph Stock) (parcels : List Parcel) :
    (pumpAndClose g parcels).Answers fun results => ∃ handles after last,
      (Graph.pumpHandles depth parcels).start g = some (.ok handles, after) ∧
        (Graph.shutdown depth).start after = some (.ok (), last) ∧
          results = handles.map last.store.read := by
  refine .bind (onGraph_answers _ _) fun ended pumped => ?_
  obtain ⟨result, after⟩ := ended
  refine .bind (onGraph_answers _ _) fun ended closed => ?_
  obtain ⟨closing, last⟩ := ended
  refine .bind (.ofExcept _ _) fun handles same => .bind (.ofExcept _ _) fun _ done => ?_
  subst same done
  exact .pure ⟨handles, after, last, pumped, closed, rfl⟩

/-- What there is when a command line has been followed to its end: the graph that was built for its
pipeline, what came of pumping its inputs into that, the graph after it, and the results as they are
when that graph has been shut down. -/
structure Followed (readers : Readers) (files : Files) (environment : Environment)
    (arguments : List String) (i : Invocation) (p : Pipeline) (g : Graph Stock)
    (results : List Parcel) (after : Graph Stock) : Prop where
  parsed : Invocation.parse arguments = .ok i
  read : Describes readers files i.pipeline p
  built : ∃ b : Blueprint Stock, b.pipeline = p ∧ b.params = i.params ∧ b.environment = environment ∧
    b.registry.stages = Stock.registry.stages ∧ b.build.1 = .ok g
  pumped : ∃ handles last, (Graph.pumpHandles depth (parcels i)).start g = some (.ok handles, after) ∧
    (Graph.shutdown depth).start after = some (.ok (), last) ∧ results = handles.map last.store.read

theorem run_answers (environment : Environment) (arguments : List String) :
    (runWith readers files environment arguments).Answers fun lines => ∃ i p g results after,
      Followed readers files environment arguments i p g results after ∧ lines = results.map line := by
  refine .bind (.ofExcept _ _) fun i parsed => .bind (readPipeline_answers _) fun p read => ?_
  have builds (b : Blueprint Stock) (pipeline : b.pipeline = p) (params : b.params = i.params)
      (surrounding : b.environment = environment) (stages : b.registry.stages = Stock.registry.stages) :
      Answers (do
        let g ← part (engine "Failed to build graph") b.buildReporting
        let results ← pumpAndClose g (parcels i)
        return results.map line) fun lines => ∃ i p g results after,
          Followed readers files environment arguments i p g results after ∧
            lines = results.map line := by
    refine .bind (build_answers b _) fun g built => .bind (pumpAndClose_answers g _) fun results pumped => ?_
    obtain ⟨handles, after, last, pumped, closed, same⟩ := pumped
    exact .pure ⟨i, p, g, results, after,
      { parsed, read
        built := ⟨b, pipeline, params, surrounding, stages, built⟩
        pumped := ⟨handles, last, pumped, closed, same⟩ }, rfl⟩
  cases i.library with
  | none => exact builds _ rfl rfl rfl rfl
  | some path =>
    have reads : (some <$> readLibrary readers files path).Answers fun _ => True :=
      fun _ _ _ _ => trivial
    refine reads.bind fun library _ => ?_
    cases library with
    | none => exact builds _ rfl rfl rfl rfl
    | some library =>
      refine .bind (addLibrary_answers library _) fun b registered => ?_
      obtain ⟨registry, stages, rfl⟩ := registered
      exact builds _ rfl rfl rfl stages

theorem parcels_length (i : Invocation) : (parcels i).length = max 1 i.inputs.length := by
  unfold parcels
  rw [List.length_map]
  cases i.inputs with
  | nil => rfl
  | cons input rest => simp

/-- Each input comes to a line, or has stayed behind in a tank queue of the chain when the pumping ends.
Tank queues do not hold more than their capacity, unless that is negative. So all is printed if there
are none, or if they have no capacity. -/
theorem inputs_printed_or_retained {environment : Environment} {arguments : List String}
    {i : Invocation} {p : Pipeline} {references : List String} (parsed : Invocation.parse arguments = .ok i)
    (read : Describes readers files i.pipeline p) (chains : p.Chains references) :
    (runWith readers files environment arguments).Answers fun lines => ∃ g results after,
      Followed readers files environment arguments i p g results after ∧ lines = results.map line ∧
        lines.length + after.retained = max 1 i.inputs.length ∧
        (∀ id node, after.node? id = some node → node.tank.held ≠ 0 →
          node.kind = .stage .tankQueue ∧
            (node.tank.capacity < 0 ∨ (node.tank.held : Int) ≤ node.tank.capacity) ∧
            p.Queues references) ∧
        (¬p.Queues references ∨ (∀ id node, after.node? id = some node →
            node.kind = .stage .tankQueue → node.tank.capacity = 0) →
          lines.length = max 1 i.inputs.length) := by
  intro reports lines later ran
  obtain ⟨i', p', g, results, after, followed, rfl⟩ := run_answers _ _ reports lines later ran
  obtain rfl : i = i' := Except.ok.inj (parsed.symm.trans followed.parsed)
  obtain rfl : p = p' := read.once followed.read
  obtain ⟨b, rfl, -, -, stages, built⟩ := followed.built
  have conserves := Blueprint.chain_conserves built stages chains depth (parcels i)
  obtain ⟨handles, last, pumped, -, rfl⟩ := followed.pumped
  obtain ⟨all, kept⟩ := Run.Ends.of_start conserves (Graph.pump_of_handles pumped) _ rfl
  -- What came out and what is held back make up all the inputs.
  have total : ((handles.map last.store.read).map line).length + after.retained =
      max 1 i.inputs.length := by
    rw [List.length_map, ← parcels_length, ← all, List.length_map, List.length_map]
  have fits (id : NodeId) (node : Node Stock) (found : after.node? id = some node)
      (filled : node.tank.held ≠ 0) : node.kind = .stage .tankQueue ∧
        (node.tank.capacity < 0 ∨ (node.tank.held : Int) ≤ node.tank.capacity) ∧
        b.pipeline.Queues references := by
    obtain ⟨kind, relieved, queues⟩ := kept id node found filled
    refine ⟨kind, ?_, queues⟩
    have fits := Tank.popExcess_none_iff.mp relieved
    have held : node.tank.held ≤ node.tank.size := List.length_filterMap_le _ _
    omega
  refine ⟨g, _, after, followed, rfl, total, fits, fun nothing => ?_⟩
  -- With no queue, or with capacities of zero only, nothing is held back.
  have retained : after.retained = 0 := Graph.retained_zero fun id node found => by
    by_contra filled
    obtain ⟨kind, bounded, queues⟩ := fits id node found filled
    rcases nothing with none | empty
    · exact none queues
    · have := empty id node found kind
      omega
  rw [← total, retained, Nat.add_zero]

end

def holdingBack : Files := fun _ =>
  .ok "main:\n  type: demo\n  description: d\nroute: reverse_string tank_queue:1\n"

def heldBack : Pipeline := ⟨"demo", "d", [], false, "reverse_string tank_queue:1", []⟩

theorem heldBack_described : Describes .standard holdingBack "p.yaml" heldBack := by
  have reads : (holdingBack "p.yaml").toOption.any (fun text =>
      (Pipeline.parse (.ofPath "p.yaml") inlinePath text).toOption.any fun p =>
        p.typeName = "demo" ∧ p.description = "d" ∧ p.keys = [] ∧ p.dynamic = false ∧
          p.route = "reverse_string tank_queue:1" ∧ p.sections.isEmpty) = true := by decide +kernel
  obtain ⟨text, found, reads⟩ := except_of_any reads
  obtain ⟨p, parsed, fields⟩ := except_of_any reads
  obtain ⟨typeName, description, keys, dynamic, route, sections⟩ := p
  obtain ⟨rfl, rfl, rfl, rfl, rfl, none⟩ := of_decide_eq_true fields
  obtain rfl := List.isEmpty_iff.mp none
  exact ⟨text, found, parsed⟩

theorem heldBack_chains : heldBack.Chains ["reverse_string", "tank_queue:1"] where
  read := by rfl
  distinct := by decide +kernel
  plain := by decide +kernel
  passing := by
    have first : heldBack.stageType? "reverse_string" = some "reverse_string" := by decide +kernel
    have second : heldBack.stageType? "tank_queue:1" = some "tank_queue" := by decide +kernel
    simp [Stock.passing, first, second]

theorem answers_of_toOption {command : Command α} {reports : List Report} {a : α}
    (given : (StateT.run (ExceptT.run command) reports).1.toOption = some a) :
    ∃ later, StateT.run (ExceptT.run command) reports = (.ok a, later) := by
  generalize StateT.run (ExceptT.run command) reports = ended at given
  obtain ⟨result, later⟩ := ended
  cases result with
  | error e => cases given
  | ok b =>
    cases given
    exact ⟨later, rfl⟩

theorem one_of_two_printed : ∃ i, Invocation.parse ["p.yaml", "one", "two"] = .ok i ∧
    Describes .standard holdingBack i.pipeline heldBack ∧ heldBack.Chains ["reverse_string", "tank_queue:1"] ∧
      ∃ lines g results after, lines.length = 1 ∧
        Followed .standard holdingBack .empty ["p.yaml", "one", "two"] i heldBack g results after ∧
        lines = results.map line ∧ lines.length + after.retained = 2 ∧
        (∀ id node, after.node? id = some node → node.tank.held ≠ 0 →
          node.kind = .stage .tankQueue ∧
            (node.tank.capacity < 0 ∨ (node.tank.held : Int) ≤ node.tank.capacity) ∧
            heldBack.Queues ["reverse_string", "tank_queue:1"]) ∧
        (¬heldBack.Queues ["reverse_string", "tank_queue:1"] ∨ (∀ id node, after.node? id = some node →
            node.kind = .stage .tankQueue → node.tank.capacity = 0) → lines.length = 2) := by
  have printed : (StateT.run (ExceptT.run (run holdingBack .empty ["p.yaml", "one", "two"])) []).1.toOption =
      some ["eno\t\x7b\x7d"] := by decide +kernel
  obtain ⟨later, ran⟩ := answers_of_toOption printed
  have parsed : Invocation.parse ["p.yaml", "one", "two"] =
      .ok ⟨"p.yaml", none, [], [], ["one", "two"]⟩ := by rfl
  obtain ⟨g, results, after, followed, same, all, kept⟩ :=
    inputs_printed_or_retained parsed heldBack_described heldBack_chains _ _ _ ran
  exact ⟨_, parsed, heldBack_described, heldBack_chains, _, g, results, after, rfl, followed, same, all,
    kept⟩

/-- A single input comes to no line at all. -/
theorem only_input_not_printed : ¬ ∀ (files : Files) (environment : Environment) (arguments : List String)
    (i : Invocation) (p : Pipeline) (references : List String), Invocation.parse arguments = .ok i →
      Describes .standard files i.pipeline p → p.Chains references →
        (run files environment arguments).Answers fun lines => lines.length = max 1 i.inputs.length := by
  intro claimed
  have printed : (StateT.run (ExceptT.run (run holdingBack .empty ["p.yaml", "one"])) []).1.toOption =
      some [] := by decide +kernel
  obtain ⟨later, ran⟩ := answers_of_toOption printed
  have parsed : Invocation.parse ["p.yaml", "one"] = .ok ⟨"p.yaml", none, [], [], ["one"]⟩ := by rfl
  exact absurd (claimed _ _ _ _ _ _ parsed heldBack_described heldBack_chains _ _ _ ran) (by decide)

end Command

end Sluice
