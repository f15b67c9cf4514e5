import Sluice.Proofs.Assembly.Bindings

set_option autoImplicit false

namespace Sluice

variable {σ : Type}

theorem Node.state?_loose : Wiring.Loose (Node.state? : Node σ → Option σ) where
  main _ _ := rfl
  branch _ _ := rfl
  ends node _ _ _ _ kind := by simp [Node.state?, kind]

def Node.nests (node : Node σ) : Bool :=
  match node.kind with
  | .subGraph _ _ => true
  | _ => false

theorem Node.nests_iff {node : Node σ} :
    node.nests = true ↔ ∃ entry exit, node.kind = .subGraph entry exit := by
  unfold nests
  split
  next kind => simp [kind]
  next other => simpa using other

theorem Node.nests_settled : Node.Settled (Node.nests : Node σ → Bool) where
  bound _ _ _ := rfl
  configured node s t tank kind := by simp [Node.nests, kind]

theorem Node.nests_loose : Wiring.Loose (Node.nests : Node σ → Bool) where
  main _ _ := rfl
  branch _ _ := rfl
  ends node _ _ _ _ kind := by simp [Node.nests, kind]

theorem Node.isStage_steady : Node.Steady fun node : Node σ => node.state?.isSome where
  configured node s t tank kind := by simp [Node.state?, kind]

namespace Wiring

open Building (Yields)

variable [Stage σ]

def Follows (nodes : Array (Node σ)) (node : Node σ) (next : Option Successor) : Prop :=
  ∀ a, next = some a → node.main = some a.id ∧
    (a.hasTank = true → (nodes[a.id]?.bind Node.state?).isSome = true)

inductive Attached (nodes : Array (Node σ)) (node : Node σ) : Node σ → Prop
  | stage {s t : σ} {next : Option Successor} (kind : node.kind = .stage s)
      (follows : Follows nodes node next) (done : (Stage.attach node.path next s).2 = .ok t) :
      Attached nodes node { node with kind := .stage t }
  | other (plain : node.state? = none) : Attached nodes node node

theorem successorOf_follows {nodes start : Array (Node σ)}
    (same : nodes.map (fun node => node.state?.isSome) = start.map fun node => node.state?.isSome)
    (node : Node σ) : Follows start node (successorOf nodes node) := by
  intro a told
  obtain ⟨id, main, told⟩ := Option.bind_eq_some_iff.mp told
  obtain ⟨next, there, rfl⟩ := Option.map_eq_some_iff.mp told
  refine ⟨main, fun tank => ?_⟩
  obtain ⟨s, state, -⟩ := (Option.any_eq_true _ _).mp tank
  have kinds := congrArg (·[id]?) same
  simp only [Array.getElem?_map, there, Option.map_some, state, Option.isSome_some] at kinds
  obtain ⟨first, was, stage⟩ := Option.map_eq_some_iff.mp kinds.symm
  rw [was]
  exact stage

theorem attachFrom_attaches {start : Array (Node σ)} (count : Nat) (id : Nat) {nodes : Array (Node σ)}
    (same : nodes.map (fun node => node.state?.isSome) = start.map fun node => node.state?.isSome)
    (waits : ∀ j ≥ id, nodes[j]? = start[j]?) :
    (attachFrom count id nodes).Yields fun out => (∀ j < id, out[j]? = nodes[j]?) ∧
      ∀ j node, id ≤ j → j < id + count → start[j]? = some node →
        ∃ after, out[j]? = some after ∧ Attached start node after := by
  induction count generalizing id nodes with
  | zero => exact .pure ⟨fun _ _ => rfl, fun j _ low high => absurd high (by omega)⟩
  | succ count ih =>
    unfold attachFrom
    split
    next missing =>
      refine .pure ⟨fun _ _ => rfl, fun j node low _ found => ?_⟩
      rw [← waits j low, Array.getElem?_eq_none (Nat.le_trans (Array.getElem?_eq_none_iff.mp missing) low)]
        at found
      cases found
    next node found =>
      -- The node is done with, and those after it are still as they were.
      have onward {nodes' : Array (Node σ)} {after : Node σ} (attached : Attached start node after)
          (here : nodes'[id]? = some after) (others : ∀ j ≠ id, nodes'[j]? = nodes[j]?)
          (same' : nodes'.map (fun node => node.state?.isSome) =
            start.map fun node => node.state?.isSome) :
          (attachFrom count (id + 1) nodes').Yields fun out => (∀ j < id, out[j]? = nodes[j]?) ∧
            ∀ j node, id ≤ j → j < id + (count + 1) → start[j]? = some node →
              ∃ after, out[j]? = some after ∧ Attached start node after := by
        have later := ih (id + 1) same' fun j low => by rw [others j (by omega), waits j (by omega)]
        refine later.mono fun out whole => ⟨fun j low => ?_, fun j other low high there => ?_⟩
        · rw [whole.1 j (by omega), others j (by omega)]
        · by_cases first : j = id
          · subst first
            rw [← waits j low, found] at there
            cases there
            exact ⟨after, by rw [whole.1 j (by omega), here], attached⟩
          · exact whole.2 j other (by omega) (by omega) there
      split
      next s kind =>
        have follows := successorOf_follows same node
        refine (Yields.noteAll _).bind fun _ _ => ?_
        refine .bind (.get fun t done => mapError_ok done) fun t done => ?_
        refine onward (.stage kind follows done) ?_ (fun j other => ?_) ?_
        · exact Array.getElem?_setIfInBounds_self_of_lt (Array.getElem?_eq_some_iff.mp found).1
        · exact Array.getElem?_setIfInBounds_ne (Ne.symm other)
        · exact (map_set_same found (Node.isStage_steady.configured node s t node.tank kind)).trans same
      next other =>
        refine onward (.other ?_) found (fun _ _ => rfl) same
        unfold Node.state?
        split
        next s kind => exact absurd kind (other s)
        next => rfl

theorem attachAll_attaches (nodes : Array (Node σ)) :
    (attachAll nodes).Yields fun out => ∀ (id : Nat) (node : Node σ), nodes[id]? = some node →
      ∃ after, out[id]? = some after ∧ Attached nodes node after := by
  refine (attachFrom_attaches nodes.size 0 rfl fun _ _ => rfl).mono fun _ whole id node found => ?_
  have within := (Array.getElem?_eq_some_iff.mp found).1
  exact whole.2 id node (Nat.zero_le id) (by omega) found

end Wiring

namespace Blueprint

variable [Stage σ]

structure Furnished (nodes : Array (Node σ)) (node : Node σ) (s : σ) (final : Node σ) : Prop where
  bare : final.bare = node.bare
  settled : ∃ next told t u, Wiring.Follows nodes final next ∧
    (Stage.attach node.path next s).2 = .ok told ∧
    (Stage.configure node.params).run ⟨told, .empty⟩ = (.ok u, ⟨t, final.tank⟩) ∧
      final.kind = .stage t

namespace Takes

variable {b : Blueprint σ} {c : Course σ} {nodes : Array (Node σ)} (takes : b.Takes c nodes)
include takes

theorem steps {id : NodeId} {node : Node σ} (found : c.bound.nodes[id]? = some node) :
    ∃ linked attached final, c.linked.nodes[id]? = some linked ∧ linked.bare = node.bare ∧
      linked.state? = node.state? ∧ Wiring.Attached c.linked.nodes linked attached ∧
        nodes[id]? = some final ∧ configureNode attached = .ok final := by
  have bares := congrArg (·[id]?) (Wiring.linkAll_same Node.bare_loose takes.linked).1
  have states := congrArg (·[id]?) (Wiring.linkAll_same Node.state?_loose takes.linked).1
  simp only [Array.getElem?_map, found, Option.map_some] at bares states
  obtain ⟨linked, there, bare⟩ := Option.map_eq_some_iff.mp bares
  rw [there] at states
  obtain ⟨attached, there', done⟩ := takes.attached.yields (Wiring.attachAll_attaches _) id linked there
  have size := congrArg Array.size (configureAll_same Node.bare_steady takes.configured)
  rw [Array.size_map, Array.size_map] at size
  have within : id < nodes.size := size ▸ (Array.getElem?_eq_some_iff.mp there').1
  obtain ⟨other, there'', configured⟩ :=
    mapM_getElem? takes.configured (Array.getElem?_eq_getElem within)
  obtain rfl := Option.some.inj (there'.symm.trans there'')
  exact ⟨linked, attached, _, there, bare, Option.some.inj states, done,
    Array.getElem?_eq_getElem within, configured⟩

theorem linked_fresh : AllFresh c.linked.nodes :=
  Wiring.linkAll_fresh (Binding.bindAll_declared (Layout.ofOutline_declared
    (Outline.declare_declared takes.declared)) takes.bound).fresh takes.linked

theorem same {β : Type} {f : Node σ → β} (steady : Node.Steady f) :
    nodes.map f = c.linked.nodes.map f :=
  (configureAll_same steady takes.configured).trans
    (takes.attached.yields (Wiring.attachFrom_same steady _ 0 rfl))

theorem furnished {id : NodeId} {node : Node σ} (found : c.bound.nodes[id]? = some node) {s : σ}
    (kind : node.kind = .stage s) :
    ∃ final, nodes[id]? = some final ∧ Furnished nodes node s final := by
  obtain ⟨linked, attached, final, there, bare, state, done, last, configured⟩ := takes.steps found
  have params := Node.params_of_bare bare
  have path := Node.path_of_bare bare
  have fresh := (takes.linked_fresh id linked there).2
  have state : linked.state? = some s := state.trans (by rw [Node.state?, kind])
  cases done with
  | other plain =>
    rw [plain] at state
    cases state
  | @stage s' told next kind' follows done =>
    rw [Node.state?, kind'] at state
    cases state
    -- A stage is configured in the state in which attaching left it.
    rcases configureNode_cases configured with ⟨told', fitted, kind, ran, rfl⟩ | ⟨other, -⟩
    · obtain rfl : told = told' := NodeKind.stage.inj kind
      have ran : (Stage.configure linked.params).run ⟨told, linked.tank⟩ = (.ok (), fitted) := ran
      rw [fresh] at ran
      refine ⟨_, last, bare, next, told, fitted.state, (), fun a follow => ?_, path ▸ done,
        params ▸ ran, rfl⟩
      obtain ⟨main, tank⟩ := follows a follow
      refine ⟨main, fun holds => ?_⟩
      obtain ⟨state, was⟩ := Option.isSome_iff_exists.mp (tank holds)
      obtain ⟨target, was, stage⟩ := Option.bind_eq_some_iff.mp was
      -- What follows was a stage before anything was attached, and no step makes it anything else.
      have stages := congrArg (·[a.id]?) (takes.same Node.isStage_steady)
      simp only [Array.getElem?_map, was, Option.map_some, stage] at stages
      obtain ⟨after, there, same⟩ := Option.map_eq_some_iff.mp stages
      rw [there]
      exact same
    · exact absurd rfl (other told)

theorem kept {β : Type} {f : Node σ → β} (settled : Node.Settled f) (loose : Wiring.Loose f) :
    nodes.map f = (Layout.ofOutline c.outline).nodes.map f :=
  (takes.same settled.toSteady).trans ((Wiring.linkAll_same loose takes.linked).1.trans
    (Binding.bindAll_same settled takes.bound).1)

end Takes

structure Shaped (outline : Outline σ) (nodes : Array (Node σ)) : Prop
    extends Connected outline nodes where
  ended : Wiring.Ended (Layout.ofOutline outline).levels nodes
  nests : nodes.map Node.nests = (Layout.ofOutline outline).nodes.map Node.nests

theorem Takes.ended {b : Blueprint σ} {c : Course σ} {nodes : Array (Node σ)} (takes : b.Takes c nodes) :
    Wiring.Ended (Layout.ofOutline c.outline).levels nodes := by
  have same : SameLinks nodes c.linked.nodes := SameLinks.symm (takes.same Node.links_settled.toSteady)
  have ordered := (Layout.ofOutline_ordered c.outline).order
  rw [← takes.binds.levels] at ordered ⊢
  intro s listed node entry exit found kind
  obtain ⟨linked, there, links⟩ := same.symm.node found
  refine Wiring.linkAll_ended ordered takes.linked s listed linked entry exit there ?_
  have shape := Node.shape_of_links links
  rw [kind] at shape
  cases other : linked.kind with
  | subGraph entry' exit' =>
    rw [other] at shape
    cases shape
    rfl
  | _ =>
    rw [other] at shape
    cases shape

theorem build_shaped {b : Blueprint σ} {g : Graph σ} (built : b.build.1 = .ok g) :
    ∃ c nodes history, g = Graph.make nodes 0 b.environment history ∧ Uncalled history ∧
      b.Takes c nodes ∧ Shaped c.outline nodes := by
  obtain ⟨c, nodes, history, rfl, uncalled, takes⟩ := build_takes built
  obtain ⟨outline, nodes', history', declared, same, connected⟩ := build_connected built
  obtain rfl := Except.ok.inj (takes.declared.symm.trans declared)
  obtain rfl : nodes = nodes' := by
    have pushed := congrArg (fun g => g.nodes.pop) same
    simpa [Graph.make] using pushed
  refine ⟨c, nodes, history, rfl, uncalled, takes, { connected with
    ended := takes.ended
    nests := takes.kept Node.nests_settled Node.nests_loose }⟩

namespace Shaped

omit [Stage σ]

variable {outline : Outline σ} {nodes : Array (Node σ)} (shaped : Shaped outline nodes)
include shaped

section

variable {s : Level} (listed : s ∈ (Layout.ofOutline outline).levels)
include listed

theorem within {id : Nat} (inside : id ∈ s.ids) : id < nodes.size := by
  rw [shaped.size]
  exact (Layout.ofOutline_ordered outline).members s listed id inside

theorem main {id : Nat} (inside : id ∈ s.ids) :
    nodes[id]?.bind Node.main = (Wiring.outward nodes s id).or (s.next .main id) := by
  have ordered := (Layout.ofOutline_ordered outline).order
  rw [← Wiring.follower_own ordered listed inside]
  exact shaped.wired.main s (by simpa using listed) id inside (shaped.within listed inside)

theorem branch {id : Nat} (inside : id ∈ s.ids) :
    nodes[id]?.bind Node.branch = s.next .branch id := by
  have ordered := (Layout.ofOutline_ordered outline).order
  rw [← Wiring.follower_own ordered listed inside]
  exact shaped.wired.branch id (shaped.within listed inside)

omit listed in
theorem keeps {id : Nat} {node : Node σ} (found : (Layout.ofOutline outline).nodes[id]? = some node) :
    ∃ final, nodes[id]? = some final ∧ final.nests = node.nests ∧ final.isFanOut = node.isFanOut := by
  have nests := congrArg (·[id]?) shaped.nests
  have forks := congrArg (·[id]?) shaped.forks
  simp only [Array.getElem?_map, found, Option.map_some] at nests forks
  obtain ⟨final, there, nests⟩ := Option.map_eq_some_iff.mp nests
  rw [there] at forks
  exact ⟨final, there, nests, Option.some.inj forks⟩

theorem ends {node : Node σ} (found : (Layout.ofOutline outline).nodes[s.node]? = some node)
    (nests : node.nests = true) :
    ∃ node, nodes[s.node]? = some node ∧ node.kind = .subGraph s.enters s.leaves := by
  obtain ⟨final, there, same, -⟩ := shaped.keeps found
  obtain ⟨entry, exit, kind⟩ := Node.nests_iff.mp (same.trans nests)
  obtain ⟨rfl, rfl⟩ := shaped.ended s listed final entry exit there kind
  exact ⟨final, there, kind⟩

end

theorem ends_of_has {id first : Nat} {path : String} {o : Outline σ}
    (has : (Layout.ofOutline outline).Has id first path o) {node : Node σ}
    (found : (Layout.ofOutline outline).nodes[id]? = some node) (nests : node.nests = true) :
    ∃ node, nodes[id]? = some node ∧ node.kind =
      .subGraph (o.level.enters.map (first + ·)) (o.level.leaves.map (first + ·)) := by
  rw [← @Layout.level_enters _ id, ← @Layout.level_leaves _ id]
  exact shaped.ends has.listed found nests

end Shaped

theorem Furnished.twin {nodes nodes' : Array (Node Stock)} {node node' final final' : Node Stock}
    {s : Stock} (furnished : Furnished nodes node s final)
    (furnished' : Furnished nodes' node' s final') (alike : node.params.Alike node'.params)
    (pathless : ∀ run params, s = .script run params → run.Pathless) {feeds : NodeId → NodeId → Prop}
    (meets : ∀ a b, final.main = some a → final'.main = some b →
      (nodes[a]?.bind Node.state?).isSome = true → feeds a b) :
    (∃ t t', final.kind = .stage t ∧ final'.kind = .stage t' ∧ Stock.Twin feeds t t') ∧
      final'.tank = final.tank := by
  obtain ⟨next, told, t, u, follows, done, configured, kind⟩ := furnished.settled
  obtain ⟨next', told', t', u', follows', done', configured', kind'⟩ := furnished'.settled
  have twin : Stock.Twin feeds told told' :=
    Stock.attach_twin pathless done done' fun a b follow follow' tank =>
      meets a.id b.id (follows a follow).1 (follows' b follow').1 ((follows a follow).2 tank)
  have ⟨_, states, tanks⟩ := Stock.configure_twin alike twin .empty
  have fitted : ((Stock.configure node.params).run ⟨told, .empty⟩).2 = ⟨t, final.tank⟩ :=
    congrArg Prod.snd configured
  have fitted' : ((Stock.configure node'.params).run ⟨told', .empty⟩).2 = ⟨t', final'.tank⟩ :=
    congrArg Prod.snd configured'
  rw [fitted, fitted'] at states tanks
  exact ⟨⟨t, t', kind, kind', states⟩, tanks⟩

end Blueprint

end Sluice
