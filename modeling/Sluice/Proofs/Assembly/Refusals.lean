import Sluice.Proofs.Assembly.Expansion
import Sluice.Proofs.Assembly.Substitution
import Sluice.Proofs.Stage.Settings

set_option autoImplicit false

namespace Sluice

variable {σ α β : Type}

def OffRoute (result : Except ConfigError α) : Prop :=
  ∀ problem, result ≠ .error (.route problem)

namespace OffRoute

theorem ok (x : α) : OffRoute (.ok x) := nofun

theorem bind {result : Except ConfigError α} {next : α → Except ConfigError β}
    (first : OffRoute result) (after : ∀ x, OffRoute (next x)) : OffRoute (result >>= next) := by
  intro problem failed
  rcases Binding.except_bind_error failed with failed | ⟨x, -, failed⟩
  · exact first problem failed
  · exact after x problem failed

theorem map {result : Except ConfigError α} (first : OffRoute result) (f : α → β) :
    OffRoute (result.map f) := by
  rintro problem failed
  cases result with
  | ok x => cases failed
  | error e =>
    cases failed
    exact first problem rfl

theorem foldlM {f : α → β → Except ConfigError α} (step : ∀ x y, OffRoute (f x y))
    (items : List β) (start : α) : OffRoute (items.foldlM f start) := by
  intro problem failed
  obtain ⟨y, -, x, failed⟩ := Binding.foldlM_error failed
  exact step x y problem failed

end OffRoute

namespace ParamTable

theorem bind_offRoute (t : ParamTable) (key : String) (value : Value) :
    OffRoute (t.bind key value) := by
  unfold bind
  repeat' split
  all_goals nofun

theorem value_offRoute (t : ParamTable) (key : String) : OffRoute (t.value key) := by
  unfold value
  split <;> nofun

theorem text_offRoute (t : ParamTable) (key : String) : OffRoute (t.text key) :=
  (t.value_offRoute key).map _

theorem readAs_offRoute (t : ParamTable) (wanted : String) (read : Value → Option α)
    (key : String) : OffRoute (t.readAs wanted read key) := by
  refine .bind (t.value_offRoute key) fun value => ?_
  split <;> nofun

end ParamTable

namespace Binding

theorem resolve_offRoute (enclosing : ParamTable) (stage parameter : String) (value : Value) :
    OffRoute (Reference.resolve enclosing stage parameter value) := by
  intro problem failed
  obtain ⟨_, same, -⟩ := Reference.resolve_error failed
  cases same

theorem bindRoot_offRoute (essentials : Dict Value) (overrides : List (String × Value))
    (root : Node σ) : OffRoute (bindRoot essentials overrides root) := by
  refine .bind (.foldlM (fun t ⟨key, value⟩ => ?_) _ _) fun _ => .ok _
  dsimp only
  split
  · exact t.bind_offRoute key value
  · nofun

theorem bindEach_offRoute (enclosing : ParamTable) (path : String) (t : ParamTable)
    (pairs : List (String × Value)) : OffRoute (bindEach enclosing path t pairs) :=
  .foldlM (fun t ⟨key, _⟩ => .bind (resolve_offRoute _ _ _ _) (t.bind_offRoute key)) _ _

theorem bindValues_offRoute (enclosing : ParamTable) (node : Node σ) (t : ParamTable)
    (values : List Value) : OffRoute (bindValues enclosing node t values) := by
  unfold bindValues
  split
  · nofun
  · exact bindEach_offRoute _ _ _ _

theorem followVariables_offRoute (env : Environment) (path : String) (t : ParamTable) :
    OffRoute (followVariables env path t) := by
  refine .foldlM (fun ⟨t, dynamic⟩ ⟨key, value⟩ => ?_) _ _
  dsimp only
  repeat' split
  all_goals nofun

theorem bindMember_offRoute (essentials : Dict Value) (env : Environment) (enclosing : ParamTable)
    (dynamic : Bool) (member : Member) (node : Node σ) :
    OffRoute (bindMember essentials env enclosing dynamic member node) := by
  refine .bind (.foldlM (bindValues_offRoute enclosing node) _ _) fun t => ?_
  refine .bind (bindEach_offRoute _ _ _ _) fun t => ?_
  have again (t : ParamTable) : OffRoute (resolveBound enclosing node.path t) :=
    .foldlM (fun _ _ => .bind (resolve_offRoute _ _ _ _) fun _ => .ok _) _ _
  refine .bind (again _) fun t => ?_
  split
  · exact .bind (followVariables_offRoute _ _ _) fun _ => .ok _
  · exact .ok _

theorem bindAll_offRoute (essentials : Dict Value) (env : Environment)
    (overrides : List (String × Value)) (layout : Layout σ) :
    OffRoute (bindAll essentials env overrides layout) := by
  have members (nodes : Array (Node σ)) (s : Level) :
      OffRoute (bindLevel essentials env nodes s) := by
    refine .foldlM (fun nodes ⟨id, member⟩ => ?_) _ _
    dsimp only
    split
    · exact .bind (bindMember_offRoute _ _ _ _ _ _) fun _ => .ok _
    · exact .ok _
  have rest (nodes : Array (Node σ)) : OffRoute (do
      let nodes ← layout.levels.foldlM (bindLevel essentials env) nodes
      return { layout with nodes }) := .bind (.foldlM members _ _) fun _ => .ok _
  unfold bindAll
  dsimp only
  split
  · exact .bind (bindRoot_offRoute _ _ _) fun _ => rest _
  · exact rest _

end Binding

namespace Wiring

theorem lookup_offRoute (s : Level) (reference : String) : OffRoute (lookup s reference) := by
  unfold lookup
  split <;> nofun

theorem linkHop_offRoute (s : Level) (linked : Linked σ) (hop : Route.Hop) :
    OffRoute (linkHop s linked hop) := by
  refine .bind (lookup_offRoute _ _) fun source => ?_
  dsimp only
  split
  · exact .ok _
  · refine .bind (lookup_offRoute _ _) fun target => ?_
    split <;> exact .ok _

theorem linkAll_offRoute (layout : Layout σ) : OffRoute (linkAll layout) :=
  .bind (.foldlM (fun _ s => .bind (.foldlM (linkHop_offRoute s) _ _) fun _ => .ok _) _ _)
    fun _ => .ok _

end Wiring

namespace Inspection

theorem checkEssentials_offRoute (node : Node σ) : OffRoute (checkEssentials node) := by
  unfold checkEssentials
  split <;> nofun

theorem checkKeys_offRoute (typeName : String) (before names : List String) :
    OffRoute (checkKeys typeName before names) := by
  induction names generalizing before with
  | nil => exact .ok _
  | cons name rest ih =>
    unfold checkKeys
    repeat' split
    · nofun
    · nofun
    · exact ih _

theorem checkMember_offRoute (member : Member) (node : Node σ) :
    OffRoute (checkMember member node) := by
  have settings : OffRoute (checkSettings member node) := by
    unfold checkSettings
    split <;> nofun
  unfold checkMember
  split
  · nofun
  · exact .bind settings fun _ => checkEssentials_offRoute node

end Inspection

namespace Building

theorem Blames.ofConfig {result : Except ConfigError α} {bad : EngineError → Prop}
    (blamed : ∀ e, result = .error e → bad (.config e)) :
    (ofConfig result : Building σ α).Blames bad := by
  intro history uncalled e failed
  change result.mapError .config = .error e at failed
  cases result with
  | ok x => cases failed
  | error e' =>
    cases failed
    exact blamed e' rfl

structure OffRoute (b : Building σ α) : Prop where
  quiet : b.Yields fun _ => True
  blames : b.Blames fun e => ∀ problem, e ≠ .config (.route problem)

namespace OffRoute

theorem pure (x : α) : OffRoute (pure x : Building σ α) := ⟨.pure trivial, .pure _ _⟩

theorem get {result : Except EngineError α}
    (other : ∀ problem, result ≠ .error (.config (.route problem))) :
    OffRoute (get result : Building σ α) :=
  ⟨.get fun _ _ => trivial, fun _ _ _ failed problem same => other problem (same ▸ failed)⟩

theorem ofConfig {result : Except ConfigError α} (other : Sluice.OffRoute result) :
    OffRoute (ofConfig result : Building σ α) := by
  refine ⟨.ofConfig fun _ _ => trivial, .ofConfig fun e failed problem same => ?_⟩
  cases same
  exact other problem failed

theorem remember {event : Event σ} (quiet : event.begins = false) : OffRoute (remember event) :=
  ⟨.remember quiet, nofun⟩

theorem bind {b : Building σ α} {next : α → Building σ β} (first : OffRoute b)
    (after : ∀ x, OffRoute (next x)) : OffRoute (b >>= next) :=
  ⟨first.quiet.bind fun x _ => (after x).quiet,
    .bind first.quiet first.blames fun x _ => (after x).blames⟩

theorem noteAll (lines : List String) : OffRoute (noteAll lines : Building σ Unit) := by
  induction lines with
  | nil => exact .pure ()
  | cons line rest ih => exact (remember rfl).bind fun _ => ih

theorem then_blames {b : Building σ α} {next : α → Building σ β} {bad : Route.RouteError → Prop}
    (first : OffRoute b)
    (after : ∀ x, (next x).Blames fun e => ∀ problem, e = .config (.route problem) → bad problem) :
    (b >>= next).Blames fun e => ∀ problem, e = .config (.route problem) → bad problem :=
  .bind first.quiet (fun history uncalled e failed problem same =>
    absurd same (first.blames history uncalled e failed problem)) fun x _ => after x

end OffRoute

end Building

namespace Wiring

theorem attachFrom_offRoute [Stage σ] (count : Nat) (id : NodeId) (nodes : Array (Node σ)) :
    (attachFrom count id nodes).OffRoute := by
  have routing (attached : Except RoutingError σ) (problem : Route.RouteError) :
      attached.mapError EngineError.routing ≠ .error (.config (.route problem)) := by
    cases attached <;> nofun
  induction count generalizing id nodes with
  | zero => exact .pure _
  | succ count ih =>
    unfold attachFrom
    split
    · exact .pure _
    · split
      · exact (Building.OffRoute.noteAll _).bind fun _ => .bind (.get (routing _)) fun _ => ih _ _
      · exact ih _ _

end Wiring

namespace Inspection

theorem inspectMembers_offRoute (nodes : Array (Node σ)) (members : List (NodeId × Member)) :
    (inspectMembers nodes members).OffRoute := by
  induction members with
  | nil => exact .pure ()
  | cons entry rest ih =>
    unfold inspectMembers
    dsimp only
    split
    · refine (Building.OffRoute.ofConfig (checkMember_offRoute _ _)).bind fun _ => ?_
      split
      · exact (Building.OffRoute.remember rfl).bind fun _ => ih
      · exact ih
    · exact ih

theorem inspectLevels_offRoute (nodes : Array (Node σ)) (levels : List Level) :
    (inspectLevels nodes levels).OffRoute := by
  induction levels with
  | nil => exact .pure ()
  | cons s rest ih =>
    exact .bind (.ofConfig (checkKeys_offRoute _ _ _)) fun _ =>
      (inspectMembers_offRoute nodes s.members).bind fun _ => ih

theorem inspect_offRoute (layout : Layout σ) : (inspect layout).OffRoute := by
  have levels := inspectLevels_offRoute layout.nodes layout.levels
  unfold inspect
  split
  · exact .bind (.ofConfig (checkEssentials_offRoute _)) fun _ => levels
  · exact levels

end Inspection

def Stage.Refuses (σ : Type) [Stage σ] (e : ConfigError) : Prop :=
  ∃ params, ∃ fitted : Fitted σ, ((Stage.configure params).run fitted).1 = .error e

namespace Blueprint

variable [Stage σ]

theorem configureAll_refuses {nodes : Array (Node σ)} {e : ConfigError}
    (failed : nodes.mapM configureNode = .error e) : Stage.Refuses σ e := by
  rw [Array.mapM_eq_foldlM, ← Array.foldlM_toList] at failed
  obtain ⟨node, -, _, failed⟩ := Binding.foldlM_error failed
  rcases Binding.except_bind_error failed with failed | ⟨_, -, done⟩
  · unfold configureNode at failed
    split at failed
    next state _ =>
      refine ⟨node.params, ⟨state, node.tank⟩, ?_⟩
      dsimp only at failed
      cases result : ((Stage.configure node.params).run ⟨state, node.tank⟩).1 with
      | ok _ => rw [result] at failed; cases failed
      | error e' => rw [result] at failed; cases failed; rfl
    next => cases failed
  · cases done

/-- A graph is not built for a route only if expanding the pipeline fails with it, or a stage that is
configured says so itself. -/
theorem assemble_blames (b : Blueprint σ) : b.assemble.Blames fun e => ∀ problem,
    e = .config (.route problem) →
      b.registry.Fails 0 b.pipeline (.route problem) ∨ Stage.Refuses σ (.route problem) := by
  refine .bind (Outline.declare_expands _ _) (fun history uncalled e failed problem same => ?_)
    fun outline _ => ?_
  · obtain ⟨c, rfl, fails⟩ := Outline.declare_fails _ _ history uncalled e failed
    cases same
    exact .inl fails
  -- No route is compiled after the pipeline has been expanded.
  · refine (Building.OffRoute.ofConfig (Binding.bindAll_offRoute _ _ _ _)).then_blames fun _ => ?_
    refine (Building.OffRoute.ofConfig (Wiring.linkAll_offRoute _)).then_blames fun _ => ?_
    refine (Wiring.attachFrom_offRoute _ _ _).then_blames fun _ => ?_
    refine (Inspection.inspect_offRoute _).then_blames fun _ => ?_
    refine .ofConfig fun e failed problem same => .inr ?_
    cases same
    exact configureAll_refuses failed

theorem build_blames {b : Blueprint σ} {problem : Route.RouteError}
    (failed : b.build.1 = .error (.config (.route problem))) :
    b.registry.Fails 0 b.pipeline (.route problem) ∨ Stage.Refuses σ (.route problem) := by
  refine b.assemble_blames [] .nil _ ?_ problem rfl
  change b.assemble.run.1 = _
  unfold build at failed
  dsimp only at failed
  cases assembled : b.assemble.run.1 with
  | ok nodes => rw [assembled] at failed; cases failed
  | error e => rw [assembled] at failed; cases failed; rfl

end Blueprint

namespace Configuring

def OffRoute (c : Configuring α β) : Prop :=
  ∀ a, Sluice.OffRoute (StateT.run (ExceptT.run c) a).1

namespace OffRoute

theorem get {result : Except ConfigError β} (other : Sluice.OffRoute result) :
    OffRoute (get result : Configuring α β) := by
  intro a
  cases result with
  | ok x => exact .ok x
  | error e => exact fun problem same => other problem (by cases same; rfl)

theorem modify (f : α → α) : OffRoute (modify f : Configuring α Unit) := fun _ => .ok ()

theorem throw {e : ConfigError} (other : ∀ problem, e ≠ .route problem) :
    OffRoute (throw e : Configuring α β) :=
  fun _ problem same => other problem (Except.error.inj same)

theorem bind {γ : Type} {c : Configuring α β} {next : β → Configuring α γ} (first : OffRoute c)
    (after : ∀ x, OffRoute (next x)) : OffRoute (c >>= next) := by
  intro a
  rw [ExceptT.run_bind, StateT.run_bind]
  have here := first a
  rcases ran : StateT.run (ExceptT.run c) a with ⟨result, later⟩
  rw [ran] at here
  cases result with
  | error e => exact fun problem same => here problem (by cases same; rfl)
  | ok x => exact after x later

end OffRoute

end Configuring

section

variable (t : ParamTable)

theorem Sink.configure_offRoute : (Sink.configure t).OffRoute := by
  refine .bind (.get (t.readAs_offRoute _ _ _)) fun limit => ?_
  have rest : Configuring.OffRoute (do
      modify fun s : Sink => { s with maxResults := limit.toNat }
      let capture ← Configuring.get (t.flag "capture_msgs")
      modify fun s => trim { s with capture }) :=
    .bind (.modify _) fun _ => .bind (.get (t.readAs_offRoute _ _ _)) fun _ => .modify _
  split
  · exact .bind (.throw nofun) fun _ => rest
  · exact rest

theorem Wrap.configure_offRoute : (Wrap.configure t).OffRoute := by
  have affix (key : String) : OffRoute (affix t key) := (t.value_offRoute key).map _
  refine .bind (.get (affix _)) fun _ => .bind (.modify _) fun _ => ?_
  exact .bind (.get (affix _)) fun _ => .modify _

theorem SeqPacket.configure_offRoute : (SeqPacket.configure t).OffRoute := by
  refine .bind ?_ fun _ => .modify _
  refine .bind (.get (t.text_offRoute _)) fun _ => .bind (.modify _) fun _ => ?_
  exact .bind (.get (t.readAs_offRoute _ _ _)) fun _ => .modify _

theorem TankQueue.configure_offRoute : (TankQueue.configure t).OffRoute := by
  refine .bind ?_ fun _ => .modify _
  refine .bind (.get (t.readAs_offRoute _ _ _)) fun _ => .bind (.modify _) fun _ => ?_
  exact .bind (.get (t.text_offRoute _)) fun _ => .modify _

theorem BranchIf.configure_offRoute : (BranchIf.configure t).OffRoute := by
  refine .bind (.get (t.text_offRoute _)) fun _ => .bind (.modify _) fun _ => ?_
  refine .bind (.get (t.text_offRoute _)) fun name => ?_
  have rest : Configuring.OffRoute (do
      let against ← Configuring.get (t.value "compare_value")
      modify fun b : BranchIf => { b with against }
      let ofParcel ← Configuring.get (t.flag "branch_on_packet")
      modify fun b => { b with ofParcel, params := t }) :=
    .bind (.get (t.value_offRoute _)) fun _ => .bind (.modify _) fun _ =>
      .bind (.get (t.readAs_offRoute _ _ _)) fun _ => .modify _
  split
  · exact .bind (.throw nofun) fun _ => rest
  · exact .bind (.modify _) fun _ => rest

theorem SendMessage.configure_offRoute : (SendMessage.configure t).OffRoute := by
  refine .bind (.get (t.text_offRoute _)) fun _ => .bind (.get (t.text_offRoute _)) fun _ => ?_
  split
  · exact .throw nofun
  · exact .bind (.get (t.readAs_offRoute _ _ _)) fun _ => .modify _

theorem Reset.configure_offRoute : (Reset.configure t).OffRoute := by
  refine .bind (.get (t.text_offRoute _)) fun _ => .bind (.modify _) fun _ => ?_
  refine .bind (.get (t.value_offRoute _)) fun _ => .bind (.modify _) fun _ => ?_
  exact .bind (.get (t.value_offRoute _)) fun _ => .modify _

end

theorem Stock.not_refuses (problem : Route.RouteError) :
    ¬ Stage.Refuses Stock (.route problem) := by
  rintro ⟨t, ⟨state, tank⟩, failed⟩
  change ((Stock.configure t).run ⟨state, tank⟩).1 = _ at failed
  rw [Stock.configure_run] at failed
  cases state with
  | sink s => exact Sink.configure_offRoute t s problem failed
  | wrap w => exact Wrap.configure_offRoute t w problem failed
  | seqPacket s => exact SeqPacket.configure_offRoute t s problem failed
  | branchIf b => exact BranchIf.configure_offRoute t b problem failed
  | tankQueue => exact TankQueue.configure_offRoute t tank problem failed
  | sendMessage s => exact SendMessage.configure_offRoute t s problem failed
  | reset r => exact Reset.configure_offRoute t r problem failed
  | _ => cases failed

end Sluice
