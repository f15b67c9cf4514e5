import Sluice.Proofs.Assembly.Trials
import Sluice.Proofs.Assembly.FilledParams
import Sluice.Proofs.Assembly.RouteEdges
import Sluice.Proofs.Graph.Sessions
import Sluice.Proofs.Stage.ParamReads

set_option autoImplicit false

namespace Sluice

variable {σ : Type}

def Part.params : Part σ → ParamSet
  | .fanOut _ => .empty
  | .stage _ type => type.params
  | .subGraph _ inner => inner.declared

/-- The parameters that are declared for a node: for the root those of the pipeline, and for a
member those of the type or the pipeline that its name stands for. -/
inductive Blueprint.Declares (b : Blueprint σ) (outline : Outline σ) : NodeId → ParamSet → Prop
  | root : Declares b outline 0 (.parse b.pipeline.keys)
  | member {s : Level} {id : NodeId} {member : Member} {part : Part σ}
      (listed : s ∈ (Layout.ofOutline outline).levels) (inside : (id, member) ∈ s.members)
      (of : Part.Of b.registry s.pipeline s.plan member.name part) :
      Declares b outline id part.params

namespace Layout

theorem nodeOf_declared (parent : String) (part : Part σ) :
    (nodeOf parent part).declared = part.params := by
  cases part <;> rfl

theorem nodeOf_blank (parent : String) (part : Part σ) : (nodeOf parent part).Blank := by
  cases part <;> exact ⟨rfl, rfl⟩

theorem ofOutline_first (outline : Outline σ) :
    (ofOutline outline).nodes[0]? = some (rootNode outline) :=
  (addOutline_grows 0 "" outline ⟨#[rootNode outline], []⟩).nodes 0 _ rfl

end Layout

namespace Blueprint

variable [Stage σ]

namespace Takes

variable {b : Blueprint σ} {c : Course σ} {nodes : Array (Node σ)} (takes : b.Takes c nodes)
include takes

theorem attached_filled {id : NodeId} {node : Node σ} (found : c.attached[id]? = some node) :
    b.Declares c.outline id node.declared ∧ node.Filled ∧ node.Supplied := by
  have binds := takes.binds
  obtain ⟨pipeline, allTyped⟩ := Outline.declare_allTyped takes.declared
  have settled : Node.Settled (Node.declared : Node σ → ParamSet) :=
    ⟨⟨fun _ _ _ _ _ => rfl⟩, fun _ _ _ => rfl⟩
  -- What is declared is the same before and after binding.
  have declared {first after : Node σ} (was : (Layout.ofOutline c.outline).nodes[id]? = some first)
      (bound : c.bound.nodes[id]? = some after) : after.declared = first.declared := by
    have same := congrArg (·[id]?) (Binding.bindAll_same settled takes.bound).1
    simpa [was, bound] using same
  have last {after : Node σ} (bound : c.bound.nodes[id]? = some after) : node.bare = after.bare := by
    obtain ⟨other, there, same⟩ := takes.attached_node bound
    obtain rfl := Option.some.inj (found.symm.trans there)
    exact same
  have kept {after : Node σ} (bound : c.bound.nodes[id]? = some after) :
      node.declared = after.declared := Node.declared_of_bare (last bound)
  have size : c.attached.size = (Layout.ofOutline c.outline).nodes.size := by
    have bare := congrArg Array.size takes.attached_bare
    have whole := congrArg Array.size (Binding.bindAll_same settled takes.bound).1
    simp only [Array.size_map] at bare whole
    exact bare.trans whole
  have within := size ▸ (Array.getElem?_eq_some_iff.mp found).1
  rcases Layout.ofOutline_owned c.outline id within with root | ⟨s, listed, inside⟩
  · obtain rfl : id = 0 := Nat.lt_one_iff.mp root
    obtain ⟨root, after, first, done, bound⟩ := binds.root
    obtain rfl := Option.some.inj ((Layout.ofOutline_first c.outline).symm.trans first)
    have declares : node.declared = .parse b.pipeline.keys := by
      rw [kept bound, declared first bound, ← pipeline]
      rfl
    exact ⟨declares ▸ .root, (Binding.bindRoot_filled ⟨rfl, rfl⟩ done).of_bare (last bound),
      Inspection.checkEssentials_ok (takes.inspected.root node found)⟩
  · obtain ⟨⟨_, member⟩, inside', rfl⟩ := List.mem_map.mp inside
    obtain ⟨first, after, was, done, bound⟩ := binds.members s listed _ inside'
    obtain ⟨part, path, of, -, there⟩ := (Layout.ofOutline_lays listed).member allTyped inside'
    obtain rfl := Option.some.inj (was.symm.trans there)
    have declares : node.declared = part.params := by
      rw [kept bound, declared was bound, Layout.nodeOf_declared]
    have checked := takes.inspected.members s (takes.levels ▸ listed) _ inside' node found
    exact ⟨declares ▸ .member listed inside' of,
      (Binding.bindMember_filled (Layout.nodeOf_blank path part) done).of_bare (last bound),
      (Inspection.checkMember_ok checked).2⟩

theorem sections_declared {s : Level} (listed : s ∈ (Layout.ofOutline c.outline).levels)
    {name : String} {given : Section} (named : s.pipeline.sections.at? name = some given) :
    ∃ id member declared, (id, member) ∈ s.members ∧ member.name = name ∧
      b.Declares c.outline id declared ∧
        ∀ key ∈ given.params.keys, key ∈ Inspection.reservedKeys ∨ declared.declares key = true := by
  have whole := (Layout.ofOutline_declared (Outline.declare_declared takes.declared)).levels s listed
  obtain ⟨pipeline, allTyped⟩ := Outline.declare_allTyped takes.declared
  have within : name ∈ s.members.map fun entry => entry.2.name := by
    rw [whole.2, Outline.memberNames, List.mem_append]
    by_cases onRoute : name ∈ s.plan.names
    · exact .inl onRoute
    · refine .inr (List.mem_filter.mpr ⟨?_, by simpa using onRoute⟩)
      obtain ⟨entry, inside, same⟩ := List.lookup_isSome_iff.mp (Option.isSome_of_eq_some named)
      exact List.mem_map.mpr ⟨entry, inside, (beq_iff_eq.mp same).symm⟩
  obtain ⟨⟨id, member⟩, inside, rfl⟩ := List.mem_map.mp within
  obtain ⟨_, after, _, _, bound⟩ := takes.binds.members s listed _ inside
  obtain ⟨node, found, -⟩ := takes.attached_node bound
  have checked := takes.inspected.members s (takes.levels ▸ listed) _ inside node found
  obtain ⟨part, path, of, same, -⟩ := (Layout.ofOutline_lays listed).member allTyped inside
  obtain ⟨typeName, made⟩ := of.member_eq
  refine ⟨id, member, node.declared, inside, rfl, (takes.attached_filled found).1, fun key inside => ?_⟩
  refine (Inspection.checkMember_ok checked).1 key ?_
  rw [← same, made]
  simpa [Outline.member, named, Section.values, Dict.keys] using inside

theorem node {id : NodeId} {node : Node σ} (found : nodes[id]? = some node) :
    ∃ before, c.attached[id]? = some before ∧ configureNode before = .ok node :=
  mapM_getElem? takes.configured found

theorem complete {id : NodeId} {node : Node σ} (found : nodes[id]? = some node) :
    b.Declares c.outline id node.declared ∧ node.Complete ∧
      ∀ pair ∈ node.dynamic, node.params.has pair.1 = true := by
  obtain ⟨before, attached, configured⟩ := takes.node found
  obtain ⟨declares, filled, supplied⟩ := takes.attached_filled attached
  have same := configureNode_same Node.bare_steady configured
  exact ⟨Node.declared_of_bare same ▸ declares, (filled.complete supplied).of_bare same,
    (filled.of_bare same).followed⟩

end Takes

end Blueprint

structure Node.Keyed (node : Node σ) : Prop where
  declared : ∀ key, node.declared.declares key = true → node.params.has key = true
  followed : ∀ pair ∈ node.dynamic, node.params.has pair.1 = true

def paramCharter (g : Graph σ) : Charter σ where
  node id node := ∃ first, g.node? id = some first ∧ node.declared = first.declared ∧
    node.dynamic = first.dynamic ∧ ∀ key, node.params.has key = first.params.has key
  keeps _ _ := True
  writes id key := ∃ first, g.node? id = some first ∧ first.params.has key = true
  error _ := True

section

variable [Stage σ] {g : Graph σ} (keyed : ∀ id node, g.node? id = some node → node.Keyed)
include keyed

theorem paramCharter_lawful : (paramCharter g).Lawful where
  same := by
    rintro id before node same ⟨first, found, declared, dynamic, keys⟩
    exact ⟨first, found, same.declared.trans declared, same.dynamic.trans dynamic,
      fun key => same.params ▸ keys key⟩
  state := fun whole _ => whole
  written := by
    rintro id node value key ⟨first, found, declared, dynamic, keys⟩ ⟨first', found', has⟩
    obtain rfl := Option.some.inj (found.symm.trans found')
    refine ⟨first, found, declared, dynamic, fun other => Bool.eq_iff_iff.mpr ?_⟩
    rw [ParamTable.has_put_iff, keys]
    exact or_iff_right_of_imp fun same => same ▸ has
  declared := by
    rintro id node key ⟨first, found, declared, -⟩ declares
    exact ⟨first, found, (keyed id first found).declared key (declared ▸ declares)⟩
  followed := by
    rintro id node key name ⟨first, found, -, dynamic, -⟩ listed
    exact ⟨first, found, (keyed id first found).followed _ (dynamic ▸ listed)⟩
  incidental := fun _ _ => trivial
  missing := fun _ _ _ => trivial
  programs := fun _ _ =>
    have any {α : Type} (program : Program σ α) :
        program.Obeys (fun _ => True) (fun _ => True) (fun _ => True) :=
      program.obeys_any (fun _ => trivial) (fun _ => trivial) fun _ => trivial
    { accept := fun _ => any _
      beforeAccept := fun _ => any _
      afterAccept := any _
      notice := fun _ => trivial
      onMessage := fun _ => any _
      reconfigure := fun _ => any _
      flush := any _
      close := any _ }
  taken := fun _ _ _ => trivial

omit [Stage σ] keyed in
theorem paramCharter_holds (uncalled : Uncalled g.history) : (paramCharter g).Holds g where
  nodes := fun id node found => ⟨node, found, rfl, rfl, fun _ => rfl⟩
  began := fun id node hook listed => by cases uncalled _ listed

end

structure Node.Suits (node : Node Stock) (s : Stock) : Prop where
  reads : ∀ key ∈ s.reads, node.params.has key = true
  holds : ∀ t, s.table? = some t → ∀ key, t.has key = node.params.has key

def keyCharter (g : Graph Stock) : Charter Stock where
  node id node := (paramCharter g).node id node ∧
    ∃ first, g.node? id = some first ∧ ∀ s, node.kind = .stage s → first.Suits s
  keeps id s := ∃ first, g.node? id = some first ∧ first.Suits s
  writes := (paramCharter g).writes
  error e := e.isMissing = false

theorem EngineError.not_missing (e : EngineError) (incidental : e.isIncidental = true) :
    e.isMissing = false := by
  cases e with
  | config _ => cases incidental
  | _ => rfl

section

variable {g : Graph Stock} (keyed : ∀ id node, g.node? id = some node → node.Keyed)
include keyed

theorem keyCharter_lawful : (keyCharter g).Lawful where
  same := by
    rintro id before node same ⟨keys, first, found, suits⟩
    exact ⟨(paramCharter_lawful keyed).same same keys, first, found,
      fun s kind => suits s (same.kind ▸ kind)⟩
  state := by
    rintro id node s ⟨keys, -⟩ ⟨first, found, suits⟩
    refine ⟨keys, first, found, ?_⟩
    rintro _ ⟨⟩
    exact suits
  written := by
    rintro id node value key ⟨keys, suits⟩ writes
    exact ⟨(paramCharter_lawful keyed).written value keys writes, suits⟩
  declared := fun ⟨keys, _⟩ => (paramCharter_lawful keyed).declared keys
  followed := fun ⟨keys, _⟩ => (paramCharter_lawful keyed).followed keys
  incidental := fun e incidental => e.not_missing incidental
  missing := fun _ _ _ => rfl
  programs := by
    rintro id node s ⟨⟨first, found, -, -, keys⟩, first', found', suits⟩ kind
    obtain rfl := Option.some.inj (found.symm.trans found')
    have suits := suits s kind
    -- What a stage asks for is among the parameters it reads, and its node has values for all of
    -- these.
    refine Stock.minds
      (fun t reads table => ⟨first, found, reads ▸ suits.reads, table ▸ suits.holds⟩)
      (fun t reads table => ⟨first, found, reads ▸ suits.reads, fun other holds key => ?_⟩)
      EngineError.not_missing
      (fun e finds => finds fun key listed => (keys key).trans (suits.reads key listed)) _
    rw [table] at holds
    obtain ⟨_, _, rfl⟩ := Option.map_eq_some_iff.mp holds
    exact keys key
  taken := by
    rintro id node s sink ⟨-, first, found, suits⟩ kind sinks
    refine ⟨first, found, ?_, nofun⟩
    cases s with
    | sink _ => exact (suits _ kind).reads
    | _ => cases sinks

omit keyed in
theorem keyCharter_holds (uncalled : Uncalled g.history)
    (suits : ∀ id node, g.node? id = some node → ∀ s, node.kind = .stage s → node.Suits s) :
    (keyCharter g).Holds g where
  nodes := fun id node found =>
    ⟨(paramCharter_holds uncalled).nodes id node found, node, found, suits id node found⟩
  began := fun id node hook listed => by cases uncalled _ listed

end

theorem Blueprint.configureNode_suits {before node : Node Stock}
    (done : configureNode before = .ok node) {s : Stock} (kind : node.kind = .stage s) :
    node.Suits s := by
  rcases configureNode_cases done with ⟨start, fitted, -, ran, rfl⟩ | ⟨other, rfl⟩
  · have ran : (Stock.configure before.params).run ⟨start, before.tank⟩ = (.ok (), fitted) := ran
    have needs := (Stock.configure_reads before.params start before.tank).1
    have same := Stock.configure_same before.params start before.tank
    rw [ran] at needs same
    cases kind
    refine ⟨fun key listed => needs rfl key (same.1 ▸ listed), fun t table key => ?_⟩
    obtain ⟨_, _, rfl⟩ := Option.map_eq_some_iff.mp (same.2.symm.trans table)
    rfl
  · exact absurd kind (other s)

theorem Graph.pumpSinkNode_keyed [Stage σ] : (pumpSinkNode : Node σ).Keyed where
  declared := nofun
  followed := nofun

theorem Graph.pumpSinkNode_suits {s : Stock} (kind : pumpSinkNode.kind = .stage s) :
    pumpSinkNode.Suits s := by
  cases kind
  exact ⟨by decide, nofun⟩

/-- A node has the parameters that are declared for it, and so has the table that a script holds. -/
structure Node.Stocked (node : Node Stock) (declared : ParamSet) : Prop where
  table : ∀ key, node.params.has key = declared.declares key
  script : ∀ t, node.state?.bind Stock.table? = some t → ∀ key, t.has key = declared.declares key

namespace Blueprint

theorem Takes.keyed [Stage σ] {b : Blueprint σ} {c : Course σ} {nodes : Array (Node σ)}
    {history : List (Event σ)} (takes : b.Takes c nodes) (id : NodeId) (node : Node σ)
    (found : (Graph.make nodes 0 b.environment history).node? id = some node) : node.Keyed := by
  rcases node?_make_cases found with found | ⟨-, rfl⟩
  · obtain ⟨-, complete, followed⟩ := takes.complete found
    exact ⟨fun key declares => (complete key).trans declares, followed⟩
  · exact Graph.pumpSinkNode_keyed

/-- Whatever stages do, a node goes on to have values for just the parameters that are declared for
it, also while stages are called. -/
theorem Takes.params_complete [Stage σ] {b : Blueprint σ} {c : Course σ} {nodes : Array (Node σ)}
    {history : List (Event σ)} (takes : b.Takes c nodes) (uncalled : Uncalled history)
    {mid : Graph σ} (leads : (Graph.make nodes 0 b.environment history).Leads mid) {id : NodeId}
    {node : Node σ} (here : mid.node? id = some node ∨ ∃ hook, .began id node hook ∈ mid.history)
    (other : id ≠ (Graph.make nodes 0 b.environment history).pumpSink) :
    ∃ declared, b.Declares c.outline id declared ∧
      ∀ key, node.params.has key = declared.declares key := by
  have kept := leads.upheld (paramCharter_lawful takes.keyed) (paramCharter_holds uncalled)
  obtain ⟨first, found, -, -, keys⟩ : (paramCharter _).node id node := by
    rcases here with found | ⟨hook, listed⟩
    · exact kept.nodes id node found
    · exact kept.began id node hook listed
  rcases node?_make_cases found with found | ⟨last, -⟩
  · obtain ⟨declares, complete, -⟩ := takes.complete found
    exact ⟨first.declared, declares, fun key => (keys key).trans (complete key)⟩
  · exact absurd last other

/-- Every key of a section is declared. All along, also while stages are called, all nodes but the
pump sink have values for just the parameters that are declared for them, and so do the tables of
scripts. Hence nothing that is done with the graph ever misses a parameter. -/
theorem tables_stay_complete {b : Blueprint Stock} {g : Graph Stock} (built : b.build.1 = .ok g) :
    ∃ outline, (Outline.declare b.registry b.pipeline).run.1 = .ok outline ∧
      (∀ s ∈ (Layout.ofOutline outline).levels, ∀ name given,
        s.pipeline.sections.at? name = some given → ∃ id member declared,
          (id, member) ∈ s.members ∧ member.name = name ∧ b.Declares outline id declared ∧
            ∀ key ∈ given.params.keys,
              key ∈ Inspection.reservedKeys ∨ declared.declares key = true) ∧
      ∀ mid, g.Leads mid →
        (∀ id node, (mid.node? id = some node ∨ ∃ hook, .began id node hook ∈ mid.history) →
          id ≠ g.pumpSink → ∃ declared, b.Declares outline id declared ∧ node.Stocked declared) ∧
        ∀ depth (operation : Graph.Operation) e after,
          (operation.run depth).start mid = some (.error e, after) → e.isMissing = false := by
  obtain ⟨c, nodes, history, rfl, uncalled, takes⟩ := build_takes built
  have suits (id : NodeId) (node : Node Stock)
      (found : (Graph.make nodes 0 b.environment history).node? id = some node) (s : Stock)
      (kind : node.kind = .stage s) : node.Suits s := by
    rcases node?_make_cases found with found | ⟨-, rfl⟩
    · obtain ⟨before, -, configured⟩ := takes.node found
      exact configureNode_suits configured kind
    · exact Graph.pumpSinkNode_suits kind
  have keyed (id : NodeId) (node : Node Stock)
      (found : (Graph.make nodes 0 b.environment history).node? id = some node) : node.Keyed :=
    takes.keyed id node found
  have lawful := keyCharter_lawful keyed
  have holds := keyCharter_holds uncalled suits
  refine ⟨c.outline, takes.declared, fun s listed name given named =>
    takes.sections_declared listed named, fun mid reached => ⟨fun id node here other => ?_,
      fun depth operation e after failed => reached.allowed lawful holds failed⟩⟩
  obtain ⟨declared, declares, complete⟩ := takes.params_complete uncalled reached here other
  refine ⟨declared, declares, complete, fun t table key => ?_⟩
  -- The charter ties the keys of a node to those of its first state, also in what the history
  -- shows.
  have kept := reached.upheld lawful holds
  obtain ⟨⟨first, found, -, -, keys⟩, first', found', suits⟩ : (keyCharter _).node id node := by
    rcases here with found | ⟨hook, listed⟩
    · exact kept.nodes id node found
    · exact kept.began id node hook listed
  obtain rfl := Option.some.inj (found.symm.trans found')
  obtain ⟨s, state, table⟩ := Option.bind_eq_some_iff.mp table
  rw [(suits s (Node.kind_of_state state)).holds t table key, ← keys, complete]

def supplied : Blueprint Stock where
  pipeline := ⟨"line", "", ["mark", "size:3"], true, "tank_queue inner label sink",
    [("sink", ⟨none, [("max_results", .text "%LIMIT")]⟩),
      ("tank_queue", ⟨none, [("tank_size", .text "$\x7bsize\x7d")]⟩)]⟩
  registry := { Stock.registry with
    stages := Stock.registry.stages.put "label" (.make "label" "" [] ["note", "tone:plain"]
      (.script (fun _ p => (p, none)) (.make "" "")))
    graphs := [("inner", ⟨"inner", "", ["mark"], false, "wrap",
      [("wrap", ⟨none, [("data_prefix", .text "$\x7bmark\x7d")]⟩)]⟩)]
    essentials := [("mark", .text "<"), ("note", .text "kept")] }
  params := [("mark", .text "[")]
  environment := .ofPairs [("LIMIT", "7")]

theorem supplied_stays_complete : ∃ g outline, supplied.build.1 = .ok g ∧
    (g.nodes.toList.map fun node => node.params.values.keys) = [["mark", "size"],
      ["priority_field_name", "tank_size"], ["mark"], ["note", "tone"],
      ["capture_msgs", "max_results"], ["data_prefix", "data_suffix"],
      ["capture_msgs", "max_results"]] ∧
    (Outline.declare supplied.registry supplied.pipeline).run.1 = .ok outline ∧
      ∀ mid, g.Leads mid →
        (∀ id node, (mid.node? id = some node ∨ ∃ hook, .began id node hook ∈ mid.history) →
          id ≠ g.pumpSink → ∃ declared, supplied.Declares outline id declared ∧
            node.Stocked declared) ∧
        ∀ depth (operation : Graph.Operation) e after,
          (operation.run depth).start mid = some (.error e, after) → e.isMissing = false := by
  have keys : supplied.passes (fun g => (g.nodes.toList.map fun node => node.params.values.keys) ==
      [["mark", "size"], ["priority_field_name", "tank_size"], ["mark"], ["note", "tone"],
        ["capture_msgs", "max_results"], ["data_prefix", "data_suffix"],
        ["capture_msgs", "max_results"]]) = true := by decide +kernel
  obtain ⟨g, built, keys⟩ := of_passes keys
  obtain ⟨outline, declared, -, complete⟩ := tables_stay_complete built
  exact ⟨g, outline, built, beq_iff_eq.mp keys, declared, complete⟩

end Blueprint

end Sluice
