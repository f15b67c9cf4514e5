import Sluice.Proofs.Assembly.Build

set_option autoImplicit false

namespace Sluice

variable {σ τ α β γ δ : Type}

def NodeKind.map (φ : σ → τ) : NodeKind σ → NodeKind τ
  | .stage s => .stage (φ s)
  | .fanOut => .fanOut
  | .subGraph entry exit => .subGraph entry exit

def Node.map (φ : σ → τ) (node : Node σ) : Node τ := { node with kind := node.kind.map φ }

mutual

def Outline.map (φ : σ → τ) : Outline σ → Outline τ
  | .make p plan parts => .make p plan (mapParts φ parts)

def Part.map (φ : σ → τ) : Part σ → Part τ
  | .fanOut member => .fanOut member
  | .stage member type => .stage member (type.map φ)
  | .subGraph member inner => .subGraph member (inner.map φ)

def mapParts (φ : σ → τ) : List (Part σ) → List (Part τ)
  | [] => []
  | part :: rest => part.map φ :: mapParts φ rest

end

def Layout.map (φ : σ → τ) (layout : Layout σ) : Layout τ :=
  ⟨layout.nodes.map (Node.map φ), layout.levels⟩

def Wiring.Linked.map (φ : σ → τ) (linked : Linked σ) : Linked τ :=
  ⟨linked.nodes.map (Node.map φ), linked.entry, linked.exit⟩

def Blueprint.recast (φ : σ → τ) (b : Blueprint σ) : Blueprint τ :=
  ⟨b.pipeline, b.registry.map φ, b.params, b.environment⟩

structure Stage.Recasts [Stage σ] [Stage τ] (φ : σ → τ) : Prop where
  attach : ∀ path successor s,
    Stage.attach path successor (φ s) = Stage.mapAttached φ (Stage.attach path successor s)
  hasTank : ∀ s, Stage.hasTank (φ s) = Stage.hasTank s
  configure : ∀ params s tank, (Stage.configure params).run ⟨φ s, tank⟩ =
    let (result, fitted) := (Stage.configure params).run (Fitted.mk s tank)
    (result, ⟨φ fitted.state, fitted.tank⟩)

namespace Building

def Recasts (view : α → β) (b : Building σ α) (c : Building τ β) : Prop :=
  ∀ before after,
    (StateT.run (ExceptT.run c) after).1 = (StateT.run (ExceptT.run b) before).1.map view

namespace Recasts

variable {view : α → β} {view' : γ → δ}

theorem get (result : Except EngineError α) :
    Recasts view (get result : Building σ α) (get (result.map view) : Building τ β) :=
  fun _ _ => rfl

theorem pure (a : α) : Recasts view (pure a : Building σ α) (pure (view a) : Building τ β) :=
  fun _ _ => rfl

theorem ofConfig {result : Except ConfigError α} {result' : Except ConfigError β}
    (same : result' = result.map view) :
    Recasts view (ofConfig result : Building σ α) (ofConfig result' : Building τ β) := by
  subst same
  cases result <;> exact fun _ _ => rfl

theorem check (result : Except ConfigError α) :
    Recasts id (Building.ofConfig result : Building σ α) (Building.ofConfig result : Building τ α) :=
  ofConfig (by cases result <;> rfl)

theorem remember (event : Event σ) (event' : Event τ) :
    Recasts id (remember event) (remember event') :=
  fun _ _ => rfl

theorem bind {b : Building σ α} {c : Building τ β} {next : α → Building σ γ}
    {next' : β → Building τ δ} (first : Recasts view b c)
    (rest : ∀ a, Recasts view' (next a) (next' (view a))) :
    Recasts view' (b >>= next) (c >>= next') := by
  intro before after
  rw [ExceptT.run_bind, ExceptT.run_bind, StateT.run_bind, StateT.run_bind]
  have same := first before after
  rcases ran : StateT.run (ExceptT.run b) before with ⟨result, mid⟩
  rcases ran' : StateT.run (ExceptT.run c) after with ⟨result', mid'⟩
  rw [ran, ran'] at same
  subst same
  cases result with
  | error e => rfl
  | ok a => exact rest a mid mid'

theorem noteAll (lines : List String) :
    Recasts id (noteAll lines : Building σ Unit) (noteAll lines : Building τ Unit) := by
  induction lines with
  | nil => exact pure ()
  | cons line rest ih => exact (remember _ _).bind fun _ => ih

theorem ofReporting (r : Reporting (Except ConfigError α)) :
    Recasts id (ofReporting r : Building σ α) (ofReporting r : Building τ α) := by
  intro before after
  change (StateT.run r []).1.mapError _ = ((StateT.run r []).1.mapError _).map id
  cases (StateT.run r []).1 <;> rfl

end Recasts

theorem run_bind_congr {b : Building σ α} {next next' : α → Building σ β}
    (same : ∀ a, b.run.1 = .ok a → next a = next' a) : (b >>= next).run = (b >>= next').run := by
  change StateT.run (ExceptT.run (b >>= next)) [] = StateT.run (ExceptT.run (b >>= next')) []
  rw [ExceptT.run_bind, ExceptT.run_bind, StateT.run_bind, StateT.run_bind]
  rcases built : StateT.run (ExceptT.run b) [] with ⟨result, history⟩
  cases result with
  | error e => rfl
  | ok a =>
    have same := same a (congrArg Prod.fst built)
    change StateT.run (ExceptT.run (next a)) history = StateT.run (ExceptT.run (next' a)) history
    rw [same]

end Building

theorem except_map_bind {ε : Type} (result : Except ε α) (next : α → Except ε β) (view : β → γ) :
    (result >>= next).map view = result >>= fun a => (next a).map view := by
  cases result <;> rfl

theorem foldlM_map {ε : Type} {f : α → γ → Except ε α} {f' : β → γ → Except ε β} {view : α → β}
    (items : List γ) (same : ∀ a, ∀ item ∈ items, f' (view a) item = (f a item).map view) (a : α) :
    items.foldlM f' (view a) = (items.foldlM f a).map view := by
  induction items generalizing a with
  | nil => rfl
  | cons item rest ih =>
    rw [List.foldlM_cons, List.foldlM_cons, same a item List.mem_cons_self]
    cases done : f a item with
    | error e => rfl
    | ok next => exact ih (fun a item member => same a item (List.mem_cons_of_mem _ member)) next

theorem foldlM_congr {ε : Type} {f f' : α → γ → Except ε α} {items : List γ}
    (same : ∀ item ∈ items, ∀ a, f a item = f' a item) (a : α) :
    items.foldlM f a = items.foldlM f' a := by
  induction items generalizing a with
  | nil => rfl
  | cons item rest ih =>
    rw [List.foldlM_cons, List.foldlM_cons, same item List.mem_cons_self]
    exact congrArg _ (funext (ih fun item member => same item (List.mem_cons_of_mem _ member)))

theorem modify_map (view : α → β) {f : α → α} {f' : β → β} (same : ∀ a, f' (view a) = view (f a))
    (items : Array α) (i : Nat) : (items.map view).modify i f' = (items.modify i f).map view := by
  refine Array.ext_getElem? fun j => ?_
  simp only [Array.getElem?_modify, Array.getElem?_map]
  split
  · cases items[j]? with
    | none => rfl
    | some a => exact congrArg some (same a)
  · rfl

namespace Outline

open Building (Recasts)

variable (φ : σ → τ)

theorem at?_map (stages : Dict (Descriptor σ)) (name : String) :
    Dict.at? (stages.map fun (name, d) => (name, d.map φ)) name =
      (Dict.at? stages name).map (Descriptor.map φ) := by
  induction stages with
  | nil => rfl
  | cons entry rest ih =>
    obtain ⟨key, d⟩ := entry
    rw [List.map_cons, Dict.at?_cons, Dict.at?_cons, ih]
    split <;> rfl

theorem firstRegistered_map (stages : Dict (Descriptor σ)) (names : List String) :
    firstRegistered (stages.map fun (name, d) => (name, d.map φ)) names =
      (firstRegistered stages names).map fun (name, d) => (name, d.map φ) := by
  unfold firstRegistered
  induction names with
  | nil => rfl
  | cons name rest ih =>
    rw [List.findSome?_cons, List.findSome?_cons, at?_map, ih]
    cases Dict.at? stages name <;> rfl

theorem part_recasts {r : Registry σ} {inner : Pipeline → Building σ (Outline σ)}
    {inner' : Pipeline → Building τ (Outline τ)}
    (recasts : ∀ p, Recasts (Outline.map φ) (inner p) (inner' p)) (p : Pipeline)
    (plan : Route.Plan) (name : String) :
    Recasts (Part.map φ) (part r inner p plan name) (part (r.map φ) inner' p plan name) := by
  unfold part
  split
  · exact .pure (Part.fanOut _)
  · dsimp only [Registry.map]
    rw [firstRegistered_map]
    cases firstRegistered r.stages _ with
    | some found => exact .pure (Part.stage _ found.2)
    | none =>
      dsimp only [Option.map_none]
      split
      · exact .bind (recasts _) fun inner => .pure (Part.subGraph _ inner)
      · exact .get (.error _)

theorem parts_recasts {r : Registry σ} {inner : Pipeline → Building σ (Outline σ)}
    {inner' : Pipeline → Building τ (Outline τ)}
    (recasts : ∀ p, Recasts (Outline.map φ) (inner p) (inner' p)) (p : Pipeline)
    (plan : Route.Plan) (names : List String) :
    Recasts (mapParts φ) (parts? r inner p plan names) (parts? (r.map φ) inner' p plan names) := by
  induction names with
  | nil => exact .pure []
  | cons name rest ih =>
    exact .bind (part_recasts φ recasts p plan name) fun first =>
      .bind ih fun later => .pure (first :: later)

theorem declareWithin_recasts (r : Registry σ) (depth : Nat) (p : Pipeline) :
    Recasts (Outline.map φ) (declareWithin r depth p) (declareWithin (r.map φ) depth p) := by
  induction depth generalizing p with
  | zero => exact .get (.error _)
  | succ depth ih =>
    exact .bind (.ofReporting _) fun plan =>
      .bind (parts_recasts φ ih p plan _) fun parts => .pure (Outline.make p plan parts)

end Outline

namespace Layout

variable (φ : σ → τ)

theorem nodeOf_map (parent : String) (part : Part σ) :
    nodeOf parent (part.map φ) = (nodeOf parent part).map φ := by
  cases part with
  | fanOut member => rfl
  | stage member type => rfl
  | subGraph member inner =>
    obtain ⟨p, plan, parts⟩ := inner
    rfl

theorem mapParts_eq (parts : List (Part σ)) : mapParts φ parts = parts.map (Part.map φ) := by
  induction parts with
  | nil => rfl
  | cons part rest ih => rw [mapParts, ih, List.map_cons]

theorem part_member (part : Part σ) : (part.map φ).member = part.member := by
  cases part <;> rfl

theorem addMembers_map (parent : String) (parts : List (Part σ)) (layout : Layout σ) :
    addMembers parent (parts.map (Part.map φ)) (layout.map φ) =
      (addMembers parent parts layout).map φ := by
  simp [addMembers, map, nodeOf_map, Function.comp_def]

theorem level_map (node first : NodeId) (p : Pipeline) (plan : Route.Plan)
    (parts : List (Part σ)) :
    level node first p plan (parts.map (Part.map φ)) = level node first p plan parts := by
  simp [level, List.zipIdx_map, part_member, Function.comp_def]

mutual

theorem addOutline_map (node : NodeId) (path : String) : (outline : Outline σ) →
    (layout : Layout σ) →
    addOutline node path (outline.map φ) (layout.map φ) = (addOutline node path outline layout).map φ
  | .make p plan parts, layout => by
    have size : (layout.map φ).nodes.size = layout.nodes.size := Array.size_map
    rw [Outline.map, mapParts_eq]
    unfold addOutline
    dsimp only
    rw [addMembers_map, level_map, size, ← mapParts_eq]
    exact addInner_map layout.nodes.size path parts
      { addMembers path parts layout with
        levels := layout.levels ++ [level node layout.nodes.size p plan parts] }

theorem addInner_map (id : NodeId) (parent : String) : (parts : List (Part σ)) →
    (layout : Layout σ) →
    addInner id parent (mapParts φ parts) (layout.map φ) = (addInner id parent parts layout).map φ
  | [], _ => rfl
  | part :: rest, layout => by
    rw [mapParts, addInner, addInner, addPart_map id parent part layout]
    exact addInner_map (id + 1) parent rest _

theorem addPart_map (id : NodeId) (parent : String) : (part : Part σ) → (layout : Layout σ) →
    addPart id parent (part.map φ) (layout.map φ) = (addPart id parent part layout).map φ
  | .subGraph member inner, layout =>
    addOutline_map id (joinPath parent member.name) inner layout
  | .fanOut _, _ => rfl
  | .stage _ _, _ => rfl

end

theorem ofOutline_map (outline : Outline σ) :
    ofOutline (outline.map φ) = (ofOutline outline).map φ := by
  have root : rootNode (outline.map φ) = (rootNode outline).map φ := by
    obtain ⟨p, plan, parts⟩ := outline
    rfl
  have start : (⟨#[(rootNode outline).map φ], []⟩ : Layout τ) = map φ ⟨#[rootNode outline], []⟩ := by
    simp [map]
  rw [ofOutline, ofOutline, root, start, addOutline_map]

end Layout

namespace Binding

variable (φ : σ → τ)

theorem bindMember_map (essentials : Dict Value) (env : Environment) (enclosing : ParamTable)
    (dynamic : Bool) (member : Member) (node : Node σ) :
    bindMember essentials env enclosing dynamic member (node.map φ) =
      (bindMember essentials env enclosing dynamic member node).map (Node.map φ) := by
  unfold bindMember
  cases dynamic <;> simp only [except_map_bind, ↓reduceIte] <;> rfl

theorem bindRoot_map (essentials : Dict Value) (overrides : List (String × Value)) (root : Node σ) :
    bindRoot essentials overrides (root.map φ) =
      (bindRoot essentials overrides root).map (Node.map φ) := by
  unfold bindRoot
  simp only [except_map_bind]
  rfl

theorem paramsOf_map (nodes : Array (Node σ)) (id : NodeId) :
    paramsOf (nodes.map (Node.map φ)) id = paramsOf nodes id := by
  simp [paramsOf, Function.comp_def, Node.map]

theorem bindLevel_map (essentials : Dict Value) (env : Environment) (nodes : Array (Node σ))
    (s : Level) :
    bindLevel essentials env (nodes.map (Node.map φ)) s =
      (bindLevel essentials env nodes s).map (Array.map (Node.map φ)) := by
  unfold bindLevel
  rw [paramsOf_map]
  refine foldlM_map s.members (fun nodes entry _ => ?_) nodes
  dsimp only
  rw [Array.getElem?_map]
  cases nodes[entry.1]? with
  | none => rfl
  | some node =>
    dsimp only [Option.map_some]
    rw [bindMember_map, except_map_bind]
    cases bindMember essentials env _ _ entry.2 node with
    | error e => rfl
    | ok bound => exact congrArg Except.ok Array.map_setIfInBounds.symm

theorem bindAll_map (essentials : Dict Value) (env : Environment) (overrides : List (String × Value))
    (layout : Layout σ) :
    bindAll essentials env overrides (layout.map φ) =
      (bindAll essentials env overrides layout).map (Layout.map φ) := by
  -- All but the root is bound in the same way whether there is a root or not.
  have rest (nodes : Array (Node σ)) :
      (do
        let nodes ← layout.levels.foldlM (bindLevel essentials env) (nodes.map (Node.map φ))
        return { layout.map φ with nodes } : Except ConfigError (Layout τ)) =
      (do
        let nodes ← layout.levels.foldlM (bindLevel essentials env) nodes
        return { layout with nodes } : Except ConfigError (Layout σ)).map (Layout.map φ) := by
    rw [foldlM_map layout.levels fun nodes s _ => bindLevel_map φ essentials env nodes s]
    cases layout.levels.foldlM (bindLevel essentials env) nodes <;> rfl
  have first : (layout.map φ).nodes[0]? = layout.nodes[0]?.map (Node.map φ) := Array.getElem?_map
  unfold bindAll
  dsimp only
  rw [first]
  cases layout.nodes[0]? with
  | none => exact rest layout.nodes
  | some root =>
    dsimp only [Option.map_some]
    rw [bindRoot_map]
    cases bindRoot essentials overrides root with
    | error e => rfl
    | ok bound =>
      have set : (layout.map φ).nodes.setIfInBounds 0 (bound.map φ) =
        (layout.nodes.setIfInBounds 0 bound).map (Node.map φ) := Array.map_setIfInBounds.symm
      have rest := rest (layout.nodes.setIfInBounds 0 bound)
      rw [← set] at rest
      exact rest

theorem bindAll_environment {layout : Layout σ}
    (static : ∀ s ∈ layout.levels, s.pipeline.dynamic = false) (essentials : Dict Value)
    (env env' : Environment) (overrides : List (String × Value)) :
    bindAll essentials env overrides layout = bindAll essentials env' overrides layout := by
  have level (s : Level) (member : s ∈ layout.levels) (nodes : Array (Node σ)) :
      bindLevel essentials env nodes s = bindLevel essentials env' nodes s := by
    unfold bindLevel
    rw [static s member]
    rfl
  have levels (nodes : Array (Node σ)) :
      layout.levels.foldlM (bindLevel essentials env) nodes =
        layout.levels.foldlM (bindLevel essentials env') nodes :=
    foldlM_congr level nodes
  unfold bindAll
  simp only [levels]

end Binding

namespace Graph

variable (φ : σ → τ)

theorem linkMainBy_map (depth : Nat) (source : NodeId) (target : Option NodeId)
    (nodes : Array (Node σ)) :
    linkMainBy depth source target (nodes.map (Node.map φ)) =
      (linkMainBy depth source target nodes).map (Node.map φ) := by
  induction depth generalizing source nodes with
  | zero => rfl
  | succ depth ih =>
    have linked : (nodes.map (Node.map φ)).modify source (fun node => { node with main := target }) =
        (nodes.modify source fun node => { node with main := target }).map (Node.map φ) :=
      modify_map (Node.map φ) (fun _ => rfl) nodes source
    -- Recasting changes the states of stages only, so it finds the same exits.
    have exits : Node.exit ∘ Node.map φ = (Node.exit : Node σ → _) := by
      funext node
      rcases node with ⟨_, _, _, kind⟩
      cases kind <;> rfl
    unfold linkMainBy
    dsimp only
    rw [linked, Array.getElem?_map, Option.bind_map, exits]
    generalize nodes.modify source _ = nodes
    cases nodes[source]?.bind Node.exit with
    | none => rfl
    | some exit => exact ih exit nodes

end Graph

namespace Wiring

variable (φ : σ → τ)

theorem linkHop_map (s : Level) (linked : Linked σ) (hop : Route.Hop) :
    linkHop s (linked.map φ) hop = (linkHop s linked hop).map (Linked.map φ) := by
  unfold linkHop
  cases lookup s hop.source with
  | error e => rfl
  | ok source =>
    dsimp only [bind, Except.bind]
    cases hop.target with
    | none => rfl
    | some reference =>
      dsimp only
      cases lookup s reference with
      | error e => rfl
      | ok target =>
        dsimp only
        cases hop.edge with
        | branch =>
          have branches : linkBranch source target (linked.map φ).nodes =
            (linkBranch source target linked.nodes).map (Node.map φ) :=
              modify_map (Node.map φ) (fun _ => rfl) _ _
          dsimp only
          rw [branches]
          rfl
        | main =>
          have mains : Graph.linkMain source (some target) (linked.map φ).nodes =
              (Graph.linkMain source (some target) linked.nodes).map (Node.map φ) := by
            unfold Graph.linkMain Linked.map
            rw [Array.size_map, Graph.linkMainBy_map]
          dsimp only
          rw [mains]
          rfl

theorem setEnds_map (entry exit : Option NodeId) (node : Node σ) :
    setEnds entry exit (node.map φ) = (setEnds entry exit node).map φ := by
  obtain ⟨_, _, _, kind⟩ := node
  cases kind <;> rfl

theorem linkLevel_map (nodes : Array (Node σ)) (s : Level) :
    linkLevel (nodes.map (Node.map φ)) s =
      (linkLevel nodes s).map (Array.map (Node.map φ)) := by
  have hops := foldlM_map s.plan.hops (fun linked hop _ => linkHop_map φ s linked hop)
    ⟨nodes, none, none⟩
  unfold linkLevel
  change (do
    let linked ← s.plan.hops.foldlM (linkHop s) (Linked.map φ ⟨nodes, none, none⟩)
    return linked.nodes.modify s.node (setEnds linked.entry linked.exit)) = _
  rw [hops]
  cases s.plan.hops.foldlM (linkHop s) ⟨nodes, none, none⟩ with
  | error e => rfl
  | ok linked =>
    exact congrArg Except.ok (modify_map (Node.map φ) (setEnds_map φ linked.entry linked.exit) _ _)

theorem linkAll_map (layout : Layout σ) :
    linkAll (layout.map φ) = (linkAll layout).map (Layout.map φ) := by
  have levels := foldlM_map layout.levels.reverse
    (fun nodes s _ => linkLevel_map φ nodes s) layout.nodes
  unfold linkAll
  change (do
    let nodes ← layout.levels.reverse.foldlM linkLevel (layout.nodes.map (Node.map φ))
    return { layout.map φ with nodes }) = _
  rw [levels]
  cases layout.levels.reverse.foldlM linkLevel layout.nodes <;> rfl

variable [Stage σ] [Stage τ] {φ} (recasts : Stage.Recasts φ)
include recasts

open Building (Recasts)

theorem successorOf_map (nodes : Array (Node σ)) (node : Node σ) :
    successorOf (nodes.map (Node.map φ)) (node.map φ) = successorOf nodes node := by
  have same (next : Node σ) :
      (next.map φ).state?.any Stage.hasTank = next.state?.any Stage.hasTank := by
    obtain ⟨_, _, _, kind⟩ := next
    cases kind with
    | stage s => exact recasts.hasTank s
    | _ => rfl
  unfold successorOf
  simp only [Array.getElem?_map, Option.map_map, Function.comp_def, same]
  rfl

theorem attachFrom_recasts (count : Nat) (id : NodeId) (nodes : Array (Node σ)) :
    Recasts (Array.map (Node.map φ)) (attachFrom count id nodes)
      (attachFrom count id (nodes.map (Node.map φ))) := by
  induction count generalizing id nodes with
  | zero => exact .pure nodes
  | succ count ih =>
    unfold attachFrom
    rw [Array.getElem?_map]
    cases nodes[id]? with
    | none => exact .pure nodes
    | some node =>
      have successor := successorOf_map recasts nodes node
      dsimp only [Option.map_some]
      rw [successor]
      cases kind : node.kind with
      | stage s =>
        have kind' : (node.map φ).kind = .stage (φ s) :=
          congrArg (NodeKind.map φ) kind
        rw [kind']
        dsimp only
        change Recasts _ _ (do
          Building.noteAll (Stage.attach node.path (successorOf nodes node) (φ s)).1
          let state ← Building.get
            ((Stage.attach node.path (successorOf nodes node) (φ s)).2.mapError .routing)
          attachFrom count (id + 1) ((nodes.map (Node.map φ)).setIfInBounds id
            { node.map φ with kind := .stage state }))
        rw [recasts.attach]
        -- The same lines are noted, and what is attached is recast unless it fails.
        rcases Stage.attach node.path (successorOf nodes node) s with ⟨lines, attached⟩
        have got : Recasts φ (Building.get (attached.mapError .routing) : Building σ σ)
            (Building.get ((attached.map φ).mapError .routing) : Building τ τ) := by
          cases attached <;> exact fun _ _ => rfl
        refine .bind (.noteAll lines) fun _ => .bind got fun state => ?_
        have set := @Array.map_setIfInBounds _ _ (Node.map φ) nodes id
          { node with kind := .stage state }
        have rest := ih (id + 1) (nodes.setIfInBounds id { node with kind := .stage state })
        rw [set] at rest
        exact rest
      | fanOut =>
        rw [show (node.map φ).kind = .fanOut from congrArg (NodeKind.map φ) kind]
        exact ih _ _
      | subGraph entry exit =>
        rw [show (node.map φ).kind = .subGraph entry exit from congrArg (NodeKind.map φ) kind]
        exact ih _ _

end Wiring

namespace Inspection

open Building (Recasts)

variable (φ : σ → τ)

theorem inspectMembers_recasts (nodes : Array (Node σ)) (members : List (NodeId × Member)) :
    Recasts id (inspectMembers nodes members) (inspectMembers (nodes.map (Node.map φ)) members) := by
  induction members with
  | nil => exact .pure ()
  | cons entry rest ih =>
    obtain ⟨id, member⟩ := entry
    unfold inspectMembers
    dsimp only
    rw [Array.getElem?_map]
    cases nodes[id]? with
    | none => exact ih
    | some node =>
      refine .bind (.check (checkMember member node)) fun _ => ?_
      split
      · exact .bind (.remember _ _) fun _ => ih
      · exact ih

theorem inspectLevels_recasts (nodes : Array (Node σ)) (levels : List Level) :
    Recasts id (inspectLevels nodes levels)
      (inspectLevels (nodes.map (Node.map φ)) levels) := by
  induction levels with
  | nil => exact .pure ()
  | cons s rest ih =>
    exact .bind (.check _) fun _ => .bind (inspectMembers_recasts φ nodes s.members) fun _ => ih

theorem inspect_recasts (layout : Layout σ) :
    Recasts id (inspect layout) (inspect (layout.map φ)) := by
  have levels := inspectLevels_recasts φ layout.nodes layout.levels
  have first : (layout.map φ).nodes[0]? = layout.nodes[0]?.map (Node.map φ) := Array.getElem?_map
  unfold inspect
  rw [first]
  cases layout.nodes[0]? with
  | none => exact levels
  | some root => exact .bind (.check (checkEssentials root)) fun _ => levels

end Inspection

namespace Blueprint

open Building (Recasts)

variable [Stage σ] [Stage τ] {φ : σ → τ} (recasts : Stage.Recasts φ)
include recasts

theorem configureNode_map (node : Node σ) :
    configureNode (node.map φ) = (configureNode node).map (Node.map φ) := by
  cases kind : node.kind with
  | stage s =>
    have same : (Stage.configure (node.map φ).params).run ⟨φ s, (node.map φ).tank⟩ =
        let (result, fitted) := (Stage.configure node.params).run (Fitted.mk s node.tank)
        (result, ⟨φ fitted.state, fitted.tank⟩) := recasts.configure node.params s node.tank
    unfold configureNode
    rw [show (node.map φ).kind = .stage (φ s) from congrArg (NodeKind.map φ) kind, kind]
    dsimp only
    rw [same]
    cases (Stage.configure node.params).run (Fitted.mk s node.tank) |>.1 <;> rfl
  | fanOut =>
    unfold configureNode
    rw [show (node.map φ).kind = .fanOut from congrArg (NodeKind.map φ) kind, kind]
    rfl
  | subGraph entry exit =>
    unfold configureNode
    rw [show (node.map φ).kind = .subGraph entry exit from congrArg (NodeKind.map φ) kind, kind]
    rfl

theorem configureAll_map (nodes : Array (Node σ)) :
    (nodes.map (Node.map φ)).mapM configureNode =
      (nodes.mapM configureNode).map (Array.map (Node.map φ)) := by
  have listed (items : List (Node σ)) : (items.map (Node.map φ)).mapM configureNode =
      (items.mapM configureNode).map (List.map (Node.map φ)) := by
    induction items with
    | nil => rfl
    | cons item rest ih =>
      rw [List.map_cons, List.mapM_cons, List.mapM_cons, configureNode_map recasts, ih]
      cases configureNode item with
      | error e => rfl
      | ok first => cases rest.mapM configureNode <;> rfl
  rw [Array.mapM_eq_mapM_toList, Array.mapM_eq_mapM_toList, Array.toList_map, listed]
  cases nodes.toList.mapM configureNode with
  | error e => rfl
  | ok configured => exact congrArg Except.ok (List.map_toArray).symm

theorem assemble_recasts (b : Blueprint σ) :
    Recasts (Array.map (Node.map φ)) b.assemble (b.recast φ).assemble := by
  refine .bind (Outline.declareWithin_recasts φ b.registry _ b.pipeline) fun outline => ?_
  rw [Layout.ofOutline_map]
  refine .bind (.ofConfig (Binding.bindAll_map φ _ _ _ _)) fun bound => ?_
  refine .bind (.ofConfig (Wiring.linkAll_map φ bound)) fun linked => ?_
  have attached := Wiring.attachFrom_recasts recasts linked.nodes.size 0 linked.nodes
  have size : (linked.nodes.map (Node.map φ)).size = linked.nodes.size := Array.size_map
  have attached : Recasts (Array.map (Node.map φ)) (Wiring.attachAll linked.nodes)
      (Wiring.attachAll (linked.map φ).nodes) := by
    change Recasts _ (Wiring.attachFrom _ _ _) (Wiring.attachFrom (linked.nodes.map _).size _ _)
    rw [size]
    exact attached
  refine .bind attached fun nodes => ?_
  refine .bind (Inspection.inspect_recasts φ { linked with nodes }) fun _ => ?_
  exact .ofConfig (configureAll_map recasts nodes)

theorem assemble_recast (b : Blueprint σ) :
    (b.recast φ).assemble.run.1 = b.assemble.run.1.map (Array.map (Node.map φ)) :=
  assemble_recasts recasts b [] []

omit [Stage τ] recasts in
theorem assemble_environment {b : Blueprint σ}
    (static : ∀ outline, (Outline.declare b.registry b.pipeline).run.1 = .ok outline →
      ∀ s ∈ (Layout.ofOutline outline).levels, s.pipeline.dynamic = false)
    (environment : Environment) : { b with environment }.assemble.run = b.assemble.run := by
  refine Building.run_bind_congr fun outline declared => ?_
  dsimp only
  rw [Binding.bindAll_environment (static outline declared) _ environment b.environment]

end Blueprint

end Sluice
