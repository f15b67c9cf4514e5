import Sluice.Proofs.Graph.Calm
import Sluice.Proofs.Stage.Settings

set_option autoImplicit false

namespace Sluice

/-- Writes variables up to the first that is missing. The answer is the parameters that changed,
unless one was. -/
def rebind (e : Environment) :
    List (String × String) → ParamTable → List String → Option (List String) × ParamTable
  | [], t, changed => (some changed.reverse, t)
  | (parameter, name) :: rest, t, changed =>
    match e.resolve name with
    | none => (none, t)
    | some value =>
      rebind e rest (t.put parameter value)
        (if t.differs parameter value then parameter :: changed else changed)

namespace Node

def fitted? (node : Node Stock) : Option (Fitted Stock) :=
  node.state?.map fun state => ⟨state, node.tank⟩

def settings (node : Node Stock) : Option (Fitted Stock) := node.fitted?.map Fitted.settings

def Accepts (node : Node Stock) : Prop :=
  ∀ fitted, node.fitted? = some fitted → ((Stage.configure node.params).run fitted).1 = .ok ()

def configured (node : Node Stock) : Node Stock :=
  match node.fitted? with
  | some fitted =>
    let fitted := ((Stage.configure node.params).run fitted).2
    { node with kind := .stage fitted.state, tank := fitted.tank }
  | none => node

/-- The settings of the stage are those that configuring it from its parameters would set. -/
def Current (node : Node Stock) : Prop :=
  node.Accepts ∧ node.configured.settings = node.settings

/-- The node with the variables of an environment written to the parameters that follow them. -/
def written (e : Environment) (node : Node Stock) : Node Stock :=
  { node with params := (rebind e node.dynamic node.params []).2 }

/-- Whether no variable is missing and some parameter is found to have changed. -/
def reconfigures (e : Environment) (node : Node Stock) : Bool :=
  (rebind e node.dynamic node.params []).1.any fun changed => !changed.isEmpty

/-- Whether a refresh leaves a stage with the settings for its parameters, given whether it had them
before. The stage has to accept what changed. When it is not configured again, nothing may have been
written that makes a difference to it. -/
def Settles (e : Environment) (node : Node Stock) (before : Prop) : Prop :=
  if node.reconfigures e then (node.written e).Accepts
  else (node.written e).params = node.params ∧ before ∨
    (node.written e).params ≠ node.params ∧ (node.written e).Current

end Node

/-- Whether the last refresh of a node that wrote anything new has settled it. The history has the
latest first. -/
def Settled (id : NodeId) : List (Event Stock) → Prop
  | [] => True
  | .began other node (.refresh e) :: older =>
    if other = id then node.Settles e (Settled id older) else Settled id older
  | _ :: older => Settled id older

def Unreset (history : List (Event Stock)) : Prop :=
  ∀ id node m, .began id node (.opening m) ∈ history → m.verb ≠ Traffic.resetVerb

namespace Node

theorem settings_eq (node : Node Stock) :
    node.settings = node.state?.map fun state => ⟨state.settings, node.tank.emptied⟩ := by
  unfold Node.settings fitted?
  rw [Option.map_map]
  rfl

theorem fitted?_stage {node : Node Stock} {state : Stock} (stage : node.kind = .stage state) :
    node.fitted? = some ⟨state, node.tank⟩ := by
  unfold fitted? state?
  rw [stage]
  rfl

theorem fitted?_congr {node other : Node Stock} (settings : node.settings = other.settings) :
    (node.fitted? = none ∧ other.fitted? = none) ∨
      ∃ fitted fitted', node.fitted? = some fitted ∧ other.fitted? = some fitted' ∧
        fitted.settings = fitted'.settings := by
  unfold Node.settings at settings
  cases here : node.fitted? <;> cases there : other.fitted? <;> simp_all

theorem accepts_congr {node other : Node Stock} (params : node.params = other.params)
    (settings : node.settings = other.settings) : node.Accepts ↔ other.Accepts := by
  unfold Accepts
  rcases fitted?_congr settings with ⟨here, there⟩ | ⟨fitted, fitted', here, there, same⟩
  · simp [here, there]
  · have result : ((Stage.configure node.params).run fitted).1 =
        ((Stage.configure node.params).run fitted').1 := (Stock.configure_congr _ same).1
    simp [here, there, ← params, result]

theorem configured_fitted? {node : Node Stock} {fitted : Fitted Stock}
    (here : node.fitted? = some fitted) :
    node.configured.fitted? = some ((Stage.configure node.params).run fitted).2 := by
  unfold configured
  rw [here]
  rfl

theorem configured_settings {node : Node Stock} {fitted : Fitted Stock}
    (here : node.fitted? = some fitted) :
    node.configured.settings = some ((Stage.configure node.params).run fitted).2.settings := by
  rw [Node.settings, configured_fitted? here, Option.map_some]

theorem configured_settings_congr {node other : Node Stock} (params : node.params = other.params)
    (settings : node.settings = other.settings) :
    node.configured.settings = other.configured.settings := by
  rcases fitted?_congr settings with ⟨here, there⟩ | ⟨fitted, fitted', here, there, same⟩
  · simp only [configured, here, there, settings]
  · rw [configured_settings here, configured_settings there, ← params]
    exact congrArg some (Stock.configure_congr node.params same).2

theorem current_congr {node other : Node Stock} (params : node.params = other.params)
    (settings : node.settings = other.settings) : node.Current ↔ other.Current := by
  unfold Current
  rw [accepts_congr params settings, configured_settings_congr params settings, settings]

@[simp] theorem configured_params (node : Node Stock) : node.configured.params = node.params := by
  unfold configured
  split <;> rfl

@[simp] theorem configured_closeDeferred (node : Node Stock) :
    node.configured.closeDeferred = node.closeDeferred := by
  unfold configured
  split <;> rfl

theorem configured_current_iff (node : Node Stock) : node.configured.Current ↔ node.Accepts := by
  cases here : node.fitted? with
  | none =>
    have none : node.configured = node := by simp only [configured, here]
    simp [none, Current, Accepts, here]
  | some fitted =>
    have ⟨result, same⟩ := Stock.configure_again node.params fitted
    have there := configured_fitted? here
    have accepts : node.configured.Accepts ↔ node.Accepts := by
      simp only [Accepts, here, there, configured_params, Option.some.injEq, forall_eq']
      exact iff_of_eq (congrArg (· = .ok ()) result)
    refine ⟨fun current => accepts.mp current.1, fun accepted => ⟨accepts.mpr accepted, ?_⟩⟩
    rw [configured_settings there, configured_settings here, configured_params]
    exact congrArg some (same (accepted fitted here))

end Node

theorem Graph.node?_updateNode {σ : Type} (g : Graph σ) (id other : NodeId)
    (f : Node σ → Node σ) :
    (g.updateNode id f).node? other = if id = other then (g.node? other).map f else g.node? other :=
  Array.getElem?_modify

theorem Graph.node?_updateNode_self {σ : Type} {g : Graph σ} {id : NodeId} {node : Node σ}
    (found : g.node? id = some node) (f : Node σ → Node σ) :
    (g.updateNode id f).node? id = some (f node) := by
  rw [node?_updateNode, if_pos rfl, found, Option.map_some]

theorem Graph.updateNode_cases {σ : Type} {g : Graph σ} {id other : NodeId} {f : Node σ → Node σ}
    {node : Node σ} (found : (g.updateNode id f).node? other = some node) :
    ∃ before, g.node? other = some before ∧
      (id = other ∧ node = f before ∨ id ≠ other ∧ node = before) := by
  rw [node?_updateNode] at found
  split at found
  next same =>
    obtain ⟨before, was, rfl⟩ := Option.map_eq_some_iff.mp found
    exact ⟨before, was, .inl ⟨same, rfl⟩⟩
  next other => exact ⟨node, found, .inr ⟨other, rfl⟩⟩

theorem Graph.map_updateNode {σ β : Type} {g : Graph σ} {id : NodeId} {f : Node σ → Node σ}
    {view : Node σ → β} (same : ∀ node, g.node? id = some node → view (f node) = view node)
    (other : NodeId) :
    ((g.updateNode id f).node? other).map view = (g.node? other).map view := by
  rw [node?_updateNode]
  split
  next here =>
    subst here
    rw [Option.map_map]
    exact Option.map_congr same
  next => rfl

def Event.plain : Event Stock → Bool
  | .began _ _ (.refresh _) => false
  | .began _ _ (.accept _ _) => false
  | _ => true

theorem settled_cons (id : NodeId) {event : Event Stock} (older : List (Event Stock))
    (plain : event.plain = true) : Settled id (event :: older) ↔ Settled id older := by
  cases event with
  | began _ _ hook =>
    cases hook with
    | refresh e => cases plain
    | _ => rfl
  | _ => rfl

theorem settled_append (id : NodeId) {events : List (Event Stock)} (older : List (Event Stock))
    (plain : ∀ event ∈ events, event.plain = true) :
    Settled id (events ++ older) ↔ Settled id older := by
  induction events with
  | nil => rfl
  | cons event rest ih =>
    rw [List.cons_append, settled_cons id _ (plain event List.mem_cons_self)]
    exact ih fun other member => plain other (List.mem_cons_of_mem _ member)

theorem accepted_suffix {events older rest : List (Event Stock)} {event : Event Stock}
    (plain : ∀ event ∈ events, event.plain = true) (accepts : event.plain = false)
    (suffix : (event :: rest) <:+ events ++ older) : (event :: rest) <:+ older := by
  induction events with
  | nil => exact suffix
  | cons first events ih =>
    rcases List.suffix_cons_iff.mp suffix with same | suffix
    · obtain ⟨rfl, -⟩ := List.cons.inj same
      exact absurd (plain event List.mem_cons_self) (by simp [accepts])
    · exact ih (fun other member => plain other (List.mem_cons_of_mem _ member)) suffix

/-- Every stage has the settings for its parameters just when its last refresh to write anything new
has settled it, and so had every stage that accepted a parcel. -/
structure Sound (g : Graph Stock) : Prop where
  nodes : ∀ id node, g.node? id = some node → (node.Current ↔ Settled id g.history)
  accepted : ∀ id node h p older, (.began id node (.accept h p) :: older) <:+ g.history →
    (node.Current ↔ Settled id older)

def Followed (g : Graph Stock) : Prop := g.Calm ∧ (Unreset g.history → Sound g)

theorem Unreset.of_append {events older : List (Event Stock)}
    (unreset : Unreset (events ++ older)) : Unreset older :=
  fun id node m member => unreset id node m (List.mem_append_right _ member)

theorem Unreset.of_cons {event : Event Stock} {older : List (Event Stock)}
    (unreset : Unreset (event :: older)) : Unreset older :=
  fun id node m member => unreset id node m (List.mem_cons_of_mem event member)

namespace Graph

structure Alike (g after : Graph Stock) : Prop where
  nodes : ∀ id node, after.node? id = some node → ∃ before, g.node? id = some before ∧
    node.params = before.params ∧ node.settings = before.settings ∧
      node.closeDeferred = before.closeDeferred
  shuttingDown : after.shuttingDown = g.shuttingDown
  history : ∃ events, (∀ event ∈ events, event.plain = true) ∧
    after.history = events ++ g.history

theorem Alike.followed {g after : Graph Stock} (alike : Alike g after) (followed : Followed g) :
    Followed after := by
  obtain ⟨⟨running, kept⟩, sound⟩ := followed
  obtain ⟨events, plain, grown⟩ := alike.history
  refine ⟨⟨alike.shuttingDown.trans running, fun id node found => ?_⟩, fun unreset => ?_⟩
  · obtain ⟨before, was, -, -, same⟩ := alike.nodes id node found
    exact same.trans (kept id before was)
  · rw [grown] at unreset
    have ⟨nodes, accepted⟩ := sound unreset.of_append
    constructor
    · intro id node found
      obtain ⟨before, was, params, settings, -⟩ := alike.nodes id node found
      rw [Node.current_congr params settings, nodes id before was, grown,
        settled_append id g.history plain]
    · intro id node h p older suffix
      rw [grown] at suffix
      exact accepted id node h p older (accepted_suffix plain rfl suffix)

theorem Alike.update (g : Graph Stock) (id : NodeId) {f : Node Stock → Node Stock}
    (same : ∀ node, g.node? id = some node → (f node).params = node.params ∧
      (f node).settings = node.settings ∧ (f node).closeDeferred = node.closeDeferred) :
    Alike g (g.updateNode id f) where
  nodes := by
    intro other node found
    obtain ⟨before, was, ⟨rfl, rfl⟩ | ⟨-, rfl⟩⟩ := updateNode_cases found
    · exact ⟨before, was, same before was⟩
    · exact ⟨node, was, rfl, rfl, rfl⟩
  shuttingDown := rfl
  history := ⟨[], by simp, rfl⟩

theorem Alike.remember (g : Graph Stock) {event : Event Stock} (plain : event.plain = true) :
    Alike g { g with history := event :: g.history } where
  nodes := fun _ node found => ⟨node, found, rfl, rfl, rfl⟩
  shuttingDown := rfl
  history := ⟨[event], by simpa using plain, rfl⟩

theorem Idle.alike {g after : Graph Stock} (idle : Idle g after) : Alike g after := by
  cases idle with
  | report r => exact .remember g rfl
  | note line => exact .remember g rfl
  | refused id packet => exact .remember g rfl
  | store store => exact ⟨fun _ node found => ⟨node, found, rfl, rfl, rfl⟩, rfl, [], by simp, rfl⟩
  | busy id busy => exact .update g id fun _ _ => ⟨rfl, rfl, rfl⟩
  | tank id fill fits =>
    refine .update g id fun node found => ⟨rfl, ?_, rfl⟩
    have ⟨capacity, field⟩ := fits node found
    have same : (fill node).emptied = node.tank.emptied := by
      unfold Tank.emptied
      rw [capacity, field]
    rw [Node.settings_eq, Node.settings_eq]
    exact congrArg (fun tank => node.state?.map fun state => Fitted.mk state.settings tank) same

end Graph

theorem followed_idle : Traffic.Idle Followed where
  calm := fun _ followed => followed.1
  idle := fun _ _ idle followed => idle.alike.followed followed

structure Graph.Rewritten (id : NodeId) (node : Node Stock) (g after : Graph Stock) : Prop where
  here : after.node? id = some node
  others : ∀ other, other ≠ id → after.node? other = g.node? other
  shuttingDown : after.shuttingDown = g.shuttingDown
  environment : after.environment = g.environment
  history : ∃ events, (∀ event ∈ events, event.plain = true) ∧
    after.history = events ++ g.history

namespace Graph.Rewritten

variable {id : NodeId} {node next : Node Stock} {g after last : Graph Stock}

theorem refl (found : g.node? id = some node) : Rewritten id node g g where
  here := found
  others _ _ := rfl
  shuttingDown := rfl
  environment := rfl
  history := ⟨[], by simp, rfl⟩

theorem cases (rewritten : Rewritten id node g after) {other : NodeId} {now : Node Stock}
    (found : after.node? other = some now) :
    other = id ∧ now = node ∨ other ≠ id ∧ g.node? other = some now := by
  by_cases same : other = id
  · subst same
    exact .inl ⟨rfl, Option.some.inj (found.symm.trans rewritten.here)⟩
  · rw [rewritten.others other same] at found
    exact .inr ⟨same, found⟩

theorem calm (rewritten : Rewritten id node g after) (calm : g.Calm)
    (kept : node.closeDeferred = false) : after.Calm := by
  refine ⟨rewritten.shuttingDown.trans calm.1, fun other now found => ?_⟩
  rcases rewritten.cases found with ⟨-, rfl⟩ | ⟨-, found⟩
  · exact kept
  · exact calm.2 other now found

theorem update (rewritten : Rewritten id node g after) {f : Node Stock → Node Stock}
    (becomes : f node = next) : Rewritten id next g (after.updateNode id f) := by
  obtain ⟨here, others, shuttingDown, environment, history⟩ := rewritten
  refine
    { here := ?_
      others other ne := ?_
      shuttingDown
      environment
      history }
  · rw [node?_updateNode, if_pos rfl, here, Option.map_some, becomes]
  · rw [node?_updateNode, if_neg (Ne.symm ne), others other ne]

theorem remember (rewritten : Rewritten id node g after) (event : Event Stock)
    (plain : event.plain = true) :
    Rewritten id node g { after with history := event :: after.history } := by
  obtain ⟨here, others, shuttingDown, environment, events, all, grown⟩ := rewritten
  refine
    { here
      others
      shuttingDown
      environment
      history := ⟨event :: events, ?_, by rw [grown]; rfl⟩ }
  intro other member
  rcases List.mem_cons.mp member with rfl | member
  · exact plain
  · exact all other member

theorem trans (first : Rewritten id node g after) (second : Rewritten id next after last) :
    Rewritten id next g last := by
  obtain ⟨events, plain, grown⟩ := first.history
  obtain ⟨events', plain', grown'⟩ := second.history
  refine
    { here := second.here
      others other ne := (second.others other ne).trans (first.others other ne)
      shuttingDown := second.shuttingDown.trans first.shuttingDown
      environment := second.environment.trans first.environment
      history :=
        ⟨events' ++ events, fun event member => ?_, by rw [grown', grown, List.append_assoc]⟩ }
  exact (List.mem_append.mp member).elim (plain' event) (plain event)

end Graph.Rewritten

namespace Traffic

open Sluice.Graph (Rewritten)

theorem refreshEach_ends (id : NodeId) (path : String) {g after : Graph Stock} {node : Node Stock}
    (pairs : List (String × String)) (changed : List String)
    (rewritten : Rewritten id node g after) :
    (refreshEach id path pairs changed).Ends after fun result last =>
      let rebound := rebind g.environment pairs node.params changed
      Rewritten id { node with params := rebound.2 } g last ∧
        result.toOption = rebound.1 := by
  -- What has been written so far is in the node, and what of it is new in `changed`.
  induction pairs generalizing node after changed with
  | nil => exact ⟨rewritten, rfl⟩
  | cons pair rest ih =>
    obtain ⟨parameter, name⟩ := pair
    unfold refreshEach rebind
    rw [Run.ends_bind, Run.ends_graph]
    dsimp only
    rw [rewritten.environment]
    cases g.environment.resolve name with
    | none => exact ⟨rewritten, rfl⟩
    | some value =>
      have wrote : Rewritten id { node with params := node.params.put parameter value } g
          (after.updateNode id fun node =>
            { node with params := node.params.put parameter value }) :=
        rewritten.update rfl
      rw [rewritten.here]
      dsimp only [Option.any]
      simp only [Run.ends_bind]
      split
      · exact ih _ (wrote.remember _ rfl)
      · exact ih _ wrote

variable {again : Call → Run Stock Unit}

theorem ofConfig_ends {id : NodeId} {g : Graph Stock} {post : Graph Stock → Prop} (holds : post g)
    (result : Except ConfigError Unit) :
    (interpret again id (Program.ofConfig result)).Ends g fun _ after => post after := by
  cases result <;> exact holds

theorem tankOf_ends {id : NodeId} {g : Graph Stock} {node : Node Stock}
    {post : Except EngineError Tank → Graph Stock → Prop} (found : g.node? id = some node) :
    (Run.tankOf id).Ends g post ↔ post (.ok node.tank) g := by
  unfold Run.tankOf
  rw [Run.ends_bind, Run.ends_graph]
  dsimp only
  rw [found]
  exact Iff.rfl

theorem configureAgain_ends {id : NodeId} {g : Graph Stock} {node : Node Stock} {state : Stock}
    {post : Graph Stock → Prop} (found : g.node? id = some node)
    (stage : node.kind = .stage state)
    (done : ∀ after, Rewritten id node.configured g after → post after) :
    (interpret again id (Fitted.configureAgain Stock.configure node.params state)).Ends g
      fun _ after => post after := by
  rw [interpret_configureAgain, Run.ends_bind, tankOf_ends found]
  dsimp only
  unfold Run.setState Run.setTank Run.updateNode
  simp only [Run.ends_bind, Run.ends_update]
  refine ofConfig_ends (done _ ?_) _
  refine ((Rewritten.refl found).update rfl).update ?_
  unfold Node.configured
  rw [Node.fitted?_stage stage]
  rfl

theorem seqPacket_settings {node : Node Stock} {s t : SeqPacket}
    (stage : node.kind = .stage (.seqPacket s))
    (same : t.uncounted = ((SeqPacket.settings node.params).run s).2.uncounted) :
    ({ node with kind := .stage (.seqPacket t) } : Node Stock).settings =
      node.configured.settings := by
  have restarted := (Configuring.run_followed SeqPacket.uncounted (SeqPacket.settings node.params)
    SeqPacket.restart (fun _ => rfl) s).2
  rw [← restarted] at same
  have configured : (Stage.configure node.params).run ⟨Stock.seqPacket s, node.tank⟩ = _ :=
    Stock.configure_run node.params (.seqPacket s) node.tank
  rw [Node.configured_settings (Node.fitted?_stage stage), configured]
  exact congrArg (fun s => some (Fitted.mk (Stock.seqPacket s) node.tank.emptied)) same

theorem tankQueue_settings {node : Node Stock} {t : Tank} (stage : node.kind = .stage .tankQueue)
    (same : t.emptied = ((TankQueue.settings node.params).run node.tank).2.emptied) :
    ({ node with tank := t } : Node Stock).settings = node.configured.settings := by
  have padded := (Configuring.run_followed Tank.emptied (TankQueue.settings node.params) Tank.pad
    (fun _ => rfl) node.tank).2
  rw [← padded] at same
  have configured : (Stage.configure node.params).run ⟨Stock.tankQueue, node.tank⟩ = _ :=
    Stock.configure_run node.params .tankQueue node.tank
  have there : ({ node with tank := t } : Node Stock).fitted? = some ⟨.tankQueue, t⟩ :=
    Node.fitted?_stage stage
  rw [Node.configured_settings (Node.fitted?_stage stage), configured, Node.settings, there]
  exact congrArg (fun tank => some (Fitted.mk Stock.tankQueue tank)) same

theorem reconfigure_seqPacket_ends {id : NodeId} {g : Graph Stock} {node : Node Stock}
    {s : SeqPacket} {post : Graph Stock → Prop} (changed : List String)
    (found : g.node? id = some node)
    (done : ∀ t after, t.uncounted = ((SeqPacket.settings node.params).run s).2.uncounted →
      Rewritten id { node with kind := .stage (.seqPacket t) } g after → post after) :
    (interpret again id ((s.reconfigure node.params changed).mapState .seqPacket)).Ends g
      fun _ after => post after := by
  rw [interpret_reconfigure_seqPacket]
  -- The counter starts again or goes on; neither is a setting.
  generalize ran : (SeqPacket.settings node.params).run s = ended at done
  obtain ⟨result, t⟩ := ended
  have kept : post (g.updateNode id fun node => { node with kind := .stage (.seqPacket t) }) :=
    done t _ rfl ((Rewritten.refl found).update rfl)
  unfold Run.setState Run.updateNode
  simp only [Run.ends_bind, Run.ends_update]
  cases result with
  | error e => exact kept
  | ok _ =>
    dsimp only [Program.ofConfig, Program.bind]
    split
    · exact done t.restart _ rfl (((Rewritten.refl found).update rfl).update rfl)
    · exact kept

theorem reconfigure_tankQueue_ends
    (keeps : ∀ call, call.closes = false → Run.Keeps Followed (again call)) {id : NodeId}
    {g : Graph Stock} {node : Node Stock} (found : g.node? id = some node)
    (done : ∀ t after, t.emptied = ((TankQueue.settings node.params).run node.tank).2.emptied →
      Rewritten id { node with tank := t } g after → Followed after) :
    (interpret again id (TankQueue.reconfigure (node.here id) node.params)).Ends g
      fun _ after => Followed after := by
  -- After draining the tank may be any, so that padding is shown for whatever the node has then.
  have padded : Run.Keeps Followed (do
      let t ← Run.tankOf id
      Run.setTank id t.pad
      Run.report (.tankResized node.path t.pad.capacity t.pad.held t.pad.size)
      pure ()) := by
    intro g followed
    unfold Run.tankOf Run.setTank Run.updateNode
    simp only [Run.ends_bind, Run.ends_graph, Run.ends_pure, Run.ends_update]
    have kept := followed_idle.idle _ _ (.tank g id
      (fun _ => (((g.node? id).map Node.tank).getD .empty).pad) ?_) followed
    · exact (Run.Keeps.bind (followed_idle.report _) fun _ => .pure ()) _ kept
    intro node found
    simp only [found]
    exact ⟨rfl, rfl⟩
  rw [interpret_reconfigure_tankQueue, Run.ends_bind, tankOf_ends found]
  dsimp only
  generalize ran : (TankQueue.settings node.params).run node.tank = ended at done
  obtain ⟨result, t⟩ := ended
  have kept : Followed (g.updateNode id fun node => { node with tank := t }) :=
    done t _ rfl ((Rewritten.refl found).update rfl)
  unfold Run.setTank Run.updateNode
  simp only [Run.ends_bind, Run.ends_update]
  cases result with
  | error e => exact kept
  | ok _ =>
    have drained : Run.Keeps Followed (interpret again id (do
        Program.drain
        let t ← Program.gauge
        Program.refill t.pad
        Program.report (.tankResized node.path t.pad.capacity t.pad.held t.pad.size))) :=
      Run.Keeps.bind (keeps _ rfl) fun _ => padded
    exact drained _ kept

theorem reconfigure_ends (keeps : ∀ call, call.closes = false → Run.Keeps Followed (again call))
    (id : NodeId) (changed : List String) {g : Graph Stock} {node : Node Stock}
    (found : g.node? id = some node)
    (done : ∀ next after, Rewritten id next g after → next.params = node.params →
      next.settings = node.configured.settings → next.closeDeferred = node.closeDeferred →
        Followed after) :
    (reconfigure again id changed).Ends g fun _ after => Followed after := by
  -- A node without a stage is configured by doing nothing.
  have idle (kind : node.fitted? = none) : Followed g := by
    have none : node.configured = node := by simp only [Node.configured, kind]
    exact done node g (.refl found) rfl (by rw [none]) rfl
  unfold reconfigure runStage
  refine .at found ?_
  cases kind : node.kind with
  | stage state =>
    have program : Stage.reconfigure (node.here id) node.params changed state =
        Stock.reconfigure (node.here id) node.params changed state := rfl
    dsimp only
    rw [program]
    unfold Stock.reconfigure
    split
    next s =>
      exact reconfigure_seqPacket_ends changed found fun t after same rewritten =>
        done _ after rewritten rfl (seqPacket_settings kind same) rfl
    next =>
      exact reconfigure_tankQueue_ends keeps found fun t after same rewritten =>
        done _ after rewritten rfl (tankQueue_settings kind same) rfl
    next =>
      exact configureAgain_ends found kind fun after rewritten =>
        done _ after rewritten node.configured_params rfl node.configured_closeDeferred
  | fanOut => exact idle (by simp [Node.fitted?, Node.state?, kind])
  | subGraph entry exit => exact idle (by simp [Node.fitted?, Node.state?, kind])

end Traffic

end Sluice
