import Sluice.Assembly.Binding
import Sluice.Assembly.Building
import Sluice.Proofs.Route.Grammar

set_option autoImplicit false

namespace Sluice

variable {σ α β : Type}

def Event.begins : Event σ → Bool
  | .began _ _ _ => true
  | _ => false

def Uncalled (history : List (Event σ)) : Prop := ∀ event ∈ history, event.begins = false

theorem Uncalled.nil : Uncalled ([] : List (Event σ)) := fun _ member => by cases member

theorem Uncalled.cons {event : Event σ} {history : List (Event σ)} (first : event.begins = false)
    (uncalled : Uncalled history) : Uncalled (event :: history) :=
  List.forall_mem_cons.mpr ⟨first, uncalled⟩

theorem mapError_ok {ε δ : Type} {f : ε → δ} {result : Except ε α} {x : α}
    (done : result.mapError f = .ok x) : result = .ok x := by
  cases result with
  | error e => cases done
  | ok _ =>
    cases done
    rfl

theorem except_bind_ok {ε : Type} {result : Except ε α} {next : α → Except ε β} {y : β}
    (done : result >>= next = .ok y) : ∃ x, result = .ok x ∧ next x = .ok y := by
  cases result with
  | error e => cases done
  | ok x => exact ⟨x, rfl, done⟩

namespace Building

def Yields (b : Building σ α) (good : α → Prop) : Prop :=
  ∀ history, Uncalled history →
    Uncalled (StateT.run (ExceptT.run b) history).2 ∧
      ∀ x, (StateT.run (ExceptT.run b) history).1 = .ok x → good x

namespace Yields

theorem pure {good : α → Prop} {x : α} (holds : good x) : Yields (pure x : Building σ α) good := by
  refine fun history uncalled => ⟨uncalled, ?_⟩
  rintro _ ⟨⟩
  exact holds

theorem get {result : Except EngineError α} {good : α → Prop}
    (holds : ∀ x, result = .ok x → good x) : Yields (get result : Building σ α) good :=
  fun _ uncalled => ⟨uncalled, holds⟩

theorem throw (good : α → Prop) (e : EngineError) : Yields (throw e : Building σ α) good :=
  get nofun

theorem ofConfig {result : Except ConfigError α} {good : α → Prop}
    (holds : ∀ x, result = .ok x → good x) : Yields (ofConfig result : Building σ α) good :=
  get fun x done => holds x (mapError_ok done)

theorem remember {event : Event σ} (quiet : event.begins = false) :
    (remember event).Yields fun _ => True :=
  fun _ uncalled => ⟨uncalled.cons quiet, fun _ _ => trivial⟩

theorem bind {b : Building σ α} {next : α → Building σ β} {first : α → Prop} {good : β → Prop}
    (before : b.Yields first) (after : ∀ x, first x → (next x).Yields good) :
    (b >>= next).Yields good := by
  intro history uncalled
  have ⟨quiet, built⟩ := before history uncalled
  rw [ExceptT.run_bind, StateT.run_bind]
  rcases ran : StateT.run (ExceptT.run b) history with ⟨result, later⟩
  rw [ran] at quiet built
  cases result with
  | error e => exact ⟨quiet, nofun⟩
  | ok x => exact after x (built x rfl) later quiet

theorem mono {b : Building σ α} {good weaker : α → Prop} (yields : b.Yields good)
    (implies : ∀ x, good x → weaker x) : b.Yields weaker := fun history uncalled =>
  ⟨(yields history uncalled).1, fun x done => implies x ((yields history uncalled).2 x done)⟩

theorem and {b : Building σ α} {good also : α → Prop} (yields : b.Yields good)
    (more : b.Yields also) : b.Yields fun x => good x ∧ also x := by
  intro history uncalled
  have ⟨quiet, built⟩ := yields history uncalled
  exact ⟨quiet, fun x done => ⟨built x done, (more history uncalled).2 x done⟩⟩

theorem noteAll (lines : List String) : (noteAll lines : Building σ Unit).Yields fun _ => True := by
  induction lines with
  | nil => exact .pure trivial
  | cons line rest ih => exact (remember rfl).bind fun _ _ => ih

theorem ofReporting {r : Reporting (Except ConfigError α)} {good : α → Prop}
    (holds : ∀ x, (StateT.run r []).1 = .ok x → good x) :
    Yields (ofReporting r : Building σ α) good := by
  intro history uncalled
  have run : StateT.run (ExceptT.run (Building.ofReporting r : Building σ α)) history =
      ((StateT.run r []).1.mapError .config,
        ((StateT.run r []).2.map Event.report).reverse ++ history) := rfl
  rw [run]
  refine ⟨fun event member => ?_, fun x done => holds x (mapError_ok done)⟩
  rcases List.mem_append.mp member with member | member
  · obtain ⟨r, -, rfl⟩ := List.mem_map.mp (List.mem_reverse.mp member)
    rfl
  · exact uncalled event member

end Yields

def Gives (b : Building σ α) (x : α) : Prop :=
  ∃ history, Uncalled history ∧ (StateT.run (ExceptT.run b) history).1 = .ok x

theorem Yields.gives {b : Building σ α} {good : α → Prop} (yields : b.Yields good) :
    b.Yields b.Gives := fun history uncalled =>
  ⟨(yields history uncalled).1, fun _ done => ⟨history, uncalled, done⟩⟩

theorem Gives.yields {b : Building σ α} {x : α} (gives : b.Gives x) {good : α → Prop}
    (yields : b.Yields good) : good x := by
  obtain ⟨history, uncalled, done⟩ := gives
  exact (yields history uncalled).2 x done

def Starts (b : Building σ α) (good : α → Prop) : Prop :=
  Uncalled b.run.2 ∧ ∀ x, b.run.1 = .ok x → good x

theorem Yields.starts {b : Building σ α} {good : α → Prop} (yields : b.Yields good) :
    b.Starts good := yields [] .nil

theorem Starts.bind {b : Building σ α} {next : α → Building σ β} {first : α → Prop} {good : β → Prop}
    (before : b.Yields first) (after : ∀ x, b.run.1 = .ok x → first x → (next x).Yields good) :
    (b >>= next).Starts good := by
  have ⟨quiet, built⟩ := before [] .nil
  have ran : (b >>= next).run = StateT.run (ExceptT.run (b >>= next)) [] := rfl
  have ran' : b.run = StateT.run (ExceptT.run b) [] := rfl
  rw [ran'] at after
  rw [Starts, ran, ExceptT.run_bind, StateT.run_bind]
  rcases started : StateT.run (ExceptT.run b) [] with ⟨result, later⟩
  rw [started] at quiet built after
  cases result with
  | error e => exact ⟨quiet, nofun⟩
  | ok x => exact after x rfl (built x rfl) later quiet

end Building

def Node.Fresh (node : Node σ) : Prop :=
  node.phase = .running ∧ node.busy = false ∧ node.closeDeferred = false

def Node.New (node : Node σ) : Prop := node.Fresh ∧ node.tank = .empty

def AllFresh (nodes : Array (Node σ)) : Prop :=
  ∀ (id : NodeId) (node : Node σ), nodes[id]? = some node → node.New

namespace AllFresh

variable {nodes : Array (Node σ)} (fresh : AllFresh nodes)
include fresh

theorem append {added : List (Node σ)} (more : ∀ node ∈ added, node.New) :
    AllFresh (nodes ++ added.toArray) := by
  intro id node found
  rcases Array.mem_append.mp (Array.mem_of_getElem? found) with member | member
  · obtain ⟨other, found⟩ := Array.mem_iff_getElem?.mp member
    exact fresh other node found
  · exact more node (by simpa using member)

theorem set {id : NodeId} {node : Node σ} (one : node.New) :
    AllFresh (nodes.setIfInBounds id node) := by
  intro other next found
  rw [Array.getElem?_setIfInBounds] at found
  split at found
  · split at found
    · cases found
      exact one
    · cases found
  · exact fresh other next found

theorem modify {id : NodeId} {f : Node σ → Node σ} (keeps : ∀ node, node.New → (f node).New) :
    AllFresh (nodes.modify id f) := by
  intro other next found
  rw [Array.getElem?_modify] at found
  split at found
  · obtain ⟨before, was, rfl⟩ := Option.map_eq_some_iff.mp found
    exact keeps before (fresh other before was)
  · exact fresh other next found

end AllFresh

mutual

/-- The plans are those of the routes, and the members have the names that a pipeline gives them,
with that of a fan-out for those that are one. -/
def Outline.Declared : Outline σ → Prop
  | .make p plan parts =>
    Route.Plan.read p.route = .ok plan ∧
      parts.map (fun part => part.member.name) = Outline.memberNames p plan ∧ PartsDeclared parts

def Part.Declared : Part σ → Prop
  | .fanOut member => Route.isFanOutName member.name = true
  | .stage _ _ => True
  | .subGraph _ inner => inner.Declared

def PartsDeclared : List (Part σ) → Prop
  | [] => True
  | part :: rest => part.Declared ∧ PartsDeclared rest

end

theorem PartsDeclared.mem {parts : List (Part σ)} (declared : PartsDeclared parts) {part : Part σ}
    (member : part ∈ parts) : part.Declared := by
  induction parts with
  | nil => cases member
  | cons first rest ih =>
    rcases List.mem_cons.mp member with rfl | member
    · exact declared.1
    · exact ih declared.2 member

namespace Outline

open Building (Yields)

theorem part_yields {r : Registry σ} {inner : Pipeline → Building σ (Outline σ)}
    (declares : ∀ p, (inner p).Yields Declared) (p : Pipeline) (plan : Route.Plan) (name : String) :
    (part r inner p plan name).Yields fun part => part.member.name = name ∧ part.Declared := by
  unfold part
  split
  next forks =>
    have listed : name ∈ plan.names.filter Route.isFanOutName := by simpa [Route.Plan.fanOuts] using forks
    exact .pure ⟨rfl, (List.mem_filter.mp listed).2⟩
  · dsimp only
    split
    · exact .pure ⟨rfl, trivial⟩
    · split
      · exact (declares _).bind fun outline declared => .pure ⟨rfl, declared⟩
      · exact .throw _ _

theorem parts_yields {r : Registry σ} {inner : Pipeline → Building σ (Outline σ)}
    (declares : ∀ p, (inner p).Yields Declared) (p : Pipeline) (plan : Route.Plan)
    (names : List String) :
    (parts? r inner p plan names).Yields fun parts =>
      parts.map (fun part => part.member.name) = names ∧ PartsDeclared parts := by
  induction names with
  | nil => exact .pure ⟨rfl, trivial⟩
  | cons name rest ih =>
    refine (part_yields declares p plan name).bind fun first good => ?_
    refine ih.bind fun later whole => ?_
    exact .pure ⟨by rw [List.map_cons, good.1, whole.1], good.2, whole.2⟩

theorem compile_yields (p : Pipeline) :
    Yields (σ := σ) (Building.ofReporting ((·.mapError .route) <$> Route.Plan.compile p.route))
      fun plan => Route.Plan.read p.route = .ok plan := by
  -- The reports of the compiler become events, none of which is a call.
  refine .ofReporting fun plan compiled => ?_
  have compiled : (Route.Plan.read p.route).mapError ConfigError.route = .ok plan := by
    rw [← Route.Plan.compile_run p.route []]
    exact compiled
  exact mapError_ok compiled

theorem declareWithin_yields (r : Registry σ) (depth : Nat) (p : Pipeline) :
    (declareWithin r depth p).Yields Declared := by
  induction depth generalizing p with
  | zero => exact .throw _ _
  | succ depth ih =>
    exact (compile_yields p).bind fun plan read =>
      (parts_yields ih p plan _).bind fun parts whole => .pure ⟨read, whole⟩

theorem declare_declared {r : Registry σ} {p : Pipeline} {outline : Outline σ}
    (declared : (declare r p).run.1 = .ok outline) : outline.Declared :=
  (declareWithin_yields r (maxNesting + 1) p [] .nil).2 outline declared

end Outline

def Level.Declared (s : Level) : Prop :=
  Route.Plan.read s.pipeline.route = .ok s.plan ∧
    s.members.map (fun entry => entry.2.name) = Outline.memberNames s.pipeline s.plan

namespace Layout

theorem level_declared (node first : NodeId) {p : Pipeline} {plan : Route.Plan}
    {parts : List (Part σ)} (read : Route.Plan.read p.route = .ok plan)
    (names : parts.map (fun part => part.member.name) = Outline.memberNames p plan) :
    (level node first p plan parts).Declared := by
  refine ⟨read, ?_⟩
  rw [level, List.map_map, ← names]
  -- Numbering the parts and dropping the numbers again gives them back.
  have whole : parts.map (fun part => part.member.name) =
      ((parts.zipIdx first).map Prod.fst).map fun part => part.member.name := by
    rw [List.zipIdx_map_fst]
  rw [whole, List.map_map]
  rfl

structure Declared (layout : Layout σ) : Prop where
  fresh : AllFresh layout.nodes
  levels : ∀ s ∈ layout.levels, s.Declared

theorem nodeOf_fresh (parent : String) (part : Part σ) : (nodeOf parent part).New := by
  cases part <;> exact ⟨⟨rfl, rfl, rfl⟩, rfl⟩

mutual

theorem addOutline_declared (node : NodeId) (path : String) : (outline : Outline σ) →
    (layout : Layout σ) → outline.Declared → layout.Declared →
    (addOutline node path outline layout).Declared
  | .make p plan parts, layout, ⟨read, names, inner⟩, before => by
    refine addInner_declared _ path parts _ inner ⟨?_, fun s member => ?_⟩
    · refine before.fresh.append fun node member => ?_
      obtain ⟨part, -, rfl⟩ := List.mem_map.mp member
      exact nodeOf_fresh path part
    · rcases List.mem_append.mp member with member | member
      · exact before.levels s member
      · obtain rfl := List.mem_singleton.mp member
        exact level_declared node _ read names

theorem addInner_declared (id : NodeId) (parent : String) : (parts : List (Part σ)) →
    (layout : Layout σ) → PartsDeclared parts → layout.Declared →
    (addInner id parent parts layout).Declared
  | [], _, _, before => before
  | part :: rest, layout, ⟨first, later⟩, before =>
    addInner_declared (id + 1) parent rest _ later
      (addPart_declared id parent part layout first before)

theorem addPart_declared (id : NodeId) (parent : String) : (part : Part σ) →
    (layout : Layout σ) → part.Declared → layout.Declared →
    (addPart id parent part layout).Declared
  | .subGraph member inner, layout, declared, before =>
    addOutline_declared id (joinPath parent member.name) inner layout declared before
  | .fanOut _, _, _, before => before
  | .stage _ _, _, _, before => before

end

theorem ofOutline_declared {outline : Outline σ} (declared : outline.Declared) :
    (ofOutline outline).Declared := by
  refine addOutline_declared 0 "" outline _ declared ⟨fun id node found => ?_, by simp⟩
  obtain rfl := Array.mem_singleton.mp (Array.mem_of_getElem? found)
  exact ⟨⟨rfl, rfl, rfl⟩, rfl⟩

end Layout

theorem foldlM_keeps {ε γ δ : Type} {f : γ → δ → Except ε γ} {good : γ → Prop} {items : List δ}
    (step : ∀ x ∈ items, ∀ found next, good found → f found x = .ok next → good next)
    {start last : γ} (before : good start) (done : items.foldlM f start = .ok last) : good last := by
  induction items generalizing start with
  | nil =>
    cases done
    exact before
  | cons x rest ih =>
    obtain ⟨next, first, done⟩ := except_bind_ok done
    exact ih (fun y member => step y (List.mem_cons_of_mem x member))
      (step x List.mem_cons_self start next before first) done

namespace Binding

theorem bindMember_form {essentials : Dict Value} {env : Environment} {enclosing : ParamTable}
    {dynamic : Bool} {member : Member} {node after : Node σ}
    (done : bindMember essentials env enclosing dynamic member node = .ok after) :
    ∃ params dynamic, after = { node with params, dynamic } := by
  unfold bindMember at done
  obtain ⟨_, -, done⟩ := except_bind_ok done
  obtain ⟨_, -, done⟩ := except_bind_ok done
  obtain ⟨t, -, done⟩ := except_bind_ok done
  split at done
  · obtain ⟨followed, -, done⟩ := except_bind_ok done
    cases done
    exact ⟨_, _, rfl⟩
  · cases done
    exact ⟨t, node.dynamic, rfl⟩

theorem bindMember_fresh {essentials : Dict Value} {env : Environment} {enclosing : ParamTable}
    {dynamic : Bool} {member : Member} {node bound : Node σ} (fresh : node.New)
    (done : bindMember essentials env enclosing dynamic member node = .ok bound) :
    bound.New := by
  obtain ⟨_, _, rfl⟩ := bindMember_form done
  exact fresh

theorem bindLevel_fresh {essentials : Dict Value} {env : Environment}
    {nodes bound : Array (Node σ)} {s : Level} (fresh : AllFresh nodes)
    (done : bindLevel essentials env nodes s = .ok bound) : AllFresh bound := by
  refine foldlM_keeps ?_ fresh done
  rintro ⟨id, member⟩ - current next fresh done
  dsimp only at done
  cases found : current[id]? with
  | none =>
    rw [found] at done
    cases done
    exact fresh
  | some node =>
    rw [found] at done
    obtain ⟨bound, one, ended⟩ := except_bind_ok done
    cases ended
    exact fresh.set (bindMember_fresh (fresh id node found) one)

theorem bindRoot_fresh {essentials : Dict Value} {overrides : List (String × Value)}
    {root bound : Node σ} (fresh : root.New)
    (done : bindRoot essentials overrides root = .ok bound) : bound.New := by
  obtain ⟨table, -, ended⟩ := except_bind_ok done
  cases ended
  exact fresh

theorem bindAll_declared {essentials : Dict Value} {env : Environment}
    {overrides : List (String × Value)} {layout bound : Layout σ} (declared : layout.Declared)
    (done : bindAll essentials env overrides layout = .ok bound) : bound.Declared := by
  have members {nodes : Array (Node σ)} (fresh : AllFresh nodes)
      (done : (do
        let nodes ← layout.levels.foldlM (bindLevel essentials env) nodes
        return { layout with nodes }) = Except.ok bound) : bound.Declared := by
    obtain ⟨last, members, ended⟩ := except_bind_ok done
    cases ended
    exact ⟨foldlM_keeps (fun _ _ _ _ fresh done => bindLevel_fresh fresh done) fresh members,
      declared.levels⟩
  unfold bindAll at done
  dsimp only at done
  split at done
  next root found =>
    obtain ⟨rooted, one, done⟩ := except_bind_ok done
    exact members (declared.fresh.set (bindRoot_fresh (declared.fresh 0 root found) one)) done
  next => exact members declared.fresh done

end Binding

end Sluice
