import Sluice.Proofs.Assembly.NodeIds
import Sluice.Proofs.Route.Edges

set_option autoImplicit false

namespace Sluice

variable {σ : Type}

theorem foldlM_tracks {ε γ δ : Type} {f : γ → δ → Except ε γ} {good : List δ → γ → Prop}
    {items : List δ}
    (step : ∀ seen x, x ∈ items → ∀ found next, good seen found → f found x = .ok next →
      good (seen ++ [x]) next)
    {start last : γ} (before : good [] start) (done : items.foldlM f start = .ok last) :
    good items last := by
  have from' (rest : List δ) : ∀ seen found, rest ⊆ items → good seen found →
      rest.foldlM f found = .ok last → good (seen ++ rest) last := by
    induction rest with
    | nil =>
      intro seen found _ reached done
      cases done
      rwa [List.append_nil]
    | cons x rest ih =>
      intro seen found within reached done
      obtain ⟨next, first, done⟩ := except_bind_ok done
      rw [List.append_cons]
      exact ih _ next (fun y member => within (List.mem_cons_of_mem x member))
        (step seen x (within List.mem_cons_self) found next reached first) done
  exact from' items [] start (List.Subset.refl _) before done

namespace Graph

section

variable {nodes : Array (Node σ)}

theorem source_mem_exitsBy {depth : Nat} (deep : 0 < depth) (source : Nat)
    (nodes : Array (Node σ)) : source ∈ exitsBy depth source nodes := by
  cases depth with
  | zero => omega
  | succ depth => exact List.mem_cons_self

theorem exitsBy_follows {depth source id : Nat} (member : id ∈ exitsBy depth source nodes) :
    id = source ∨ ∃ before ∈ exitsBy depth source nodes, nodes[before]?.bind Node.exit = some id := by
  induction depth generalizing source with
  | zero => cases member
  | succ depth ih =>
    unfold exitsBy at member ⊢
    rcases List.mem_cons.mp member with here | member
    · exact .inl here
    · split at member
      next exit leaves =>
        rcases ih member with rfl | ⟨before, within, leaves'⟩
        · exact .inr ⟨source, List.mem_cons_self, leaves⟩
        · exact .inr ⟨before, List.mem_cons_of_mem _ within, leaves'⟩
      next => cases member

theorem exitsBy_closed (descends : Descends nodes) {depth source id inner : Nat}
    (enough : nodes.size ≤ depth + source) (member : id ∈ exitsBy depth source nodes)
    (leaves : nodes[id]?.bind Node.exit = some inner) : inner ∈ exitsBy depth source nodes := by
  induction depth generalizing source with
  | zero => cases member
  | succ depth ih =>
    have := descends id inner leaves
    unfold exitsBy at member ⊢
    rcases List.mem_cons.mp member with rfl | member
    · rw [leaves]
      exact List.mem_cons_of_mem _ (source_mem_exitsBy (by omega) inner nodes)
    · split at member
      next exit first =>
        have := descends source exit first
        exact List.mem_cons_of_mem _ (ih (by omega) member)
      next => cases member

theorem linkMainBy_bind {α : Type} {f : Node σ → Option α}
    (same : ∀ node main, f { node with main } = f node) (depth : Nat) (source id : NodeId)
    (target : Option NodeId) :
    (linkMainBy depth source target nodes)[id]?.bind f = nodes[id]?.bind f := by
  rw [linkMainBy_getElem?]
  cases nodes[id]? with
  | none => rfl
  | some node =>
    rw [Option.map_some, Option.bind_some, Option.bind_some]
    split
    · exact same node target
    · rfl

theorem main_linkMain (source : NodeId) (target : Option NodeId) {id : Nat}
    (within : id < nodes.size) :
    (linkMain source target nodes)[id]?.bind Node.main =
      if id ∈ exitsBy nodes.size source nodes then target else nodes[id]?.bind Node.main := by
  rw [linkMain, linkMainBy_getElem?, Array.getElem?_eq_getElem within]
  rw [Option.map_some, Option.bind_some, Option.bind_some]
  split <;> rfl

end

end Graph

namespace Wiring

def leadsFrom (edge : Edge) (id : Nat) (s : Level) (hop : Route.Hop) : Option Nat :=
  if hop.edge = edge ∧ s.find? (Literal.bareName hop.source) = some id then
    hop.target.bind fun reference => s.find? (Literal.bareName reference)
  else none

/-- Where the first of some edges leads that is of a kind and starts at a node. -/
def follower (edge : Edge) (id : Nat) (edges : List (Level × Route.Hop)) : Option Nat :=
  edges.findSome? fun entry => leadsFrom edge id entry.1 entry.2

theorem leadsFrom_mem {edge : Edge} {id target : Nat} {s : Level} {hop : Route.Hop}
    (leads : leadsFrom edge id s hop = some target) : id ∈ s.ids := by
  unfold leadsFrom at leads
  split at leads
  next starts => exact Level.find?_mem starts.2
  next => cases leads

def outward (nodes : Array (Node σ)) (s : Level) (id : Nat) : Option Nat :=
  if nodes[s.node]?.bind Node.exit = some id then nodes[s.node]?.bind Node.main else none

structure Wired (waiting linked : List Level) (edges : List (Level × Route.Hop))
    (nodes : Array (Node σ)) : Prop where
  entries : ∀ id inner : Nat, nodes[id]?.bind Node.entry = some inner → ∃ s ∈ linked, s.node = id ∧
    (s.plan.hops.head?.bind fun hop => s.find? (Literal.bareName hop.source)) = some inner
  exits : ∀ id inner : Nat, nodes[id]?.bind Node.exit = some inner →
    ∃ s ∈ linked, s.node = id ∧ inner ∈ s.ids
  waits : ∀ s ∈ waiting, nodes[s.node]?.bind Node.main = none
  main : ∀ s ∈ waiting ++ linked, ∀ id ∈ s.ids, id < nodes.size →
    nodes[id]?.bind Node.main = (outward nodes s id).or (follower .main id edges)
  branch : ∀ id : Nat, id < nodes.size → nodes[id]?.bind Node.branch = follower .branch id edges
  outside : ∀ id : Nat, (∀ s ∈ waiting ++ linked, id ∉ s.ids) → nodes[id]?.bind Node.main = none

theorem entry_of_setEnds {entry exit : Option NodeId} {node : Node σ} {inner : NodeId}
    (enters : (setEnds entry exit node).entry = some inner) : entry = some inner := by
  unfold setEnds at enters
  split at enters
  next => exact enters
  next other =>
    unfold Node.entry at enters
    split at enters
    next kind => exact absurd kind (other _ _)
    next => cases enters

theorem exit_of_setEnds {entry exit : Option NodeId} {node : Node σ} {inner : NodeId}
    (leaves : (setEnds entry exit node).exit = some inner) : exit = some inner := by
  unfold setEnds at leaves
  split at leaves
  next => exact leaves
  next other =>
    unfold Node.exit at leaves
    split at leaves
    next kind => exact absurd kind (other _ _)
    next => cases leaves

namespace Wired

variable {waiting linked : List Level} {edges : List (Level × Route.Hop)}
  {nodes : Array (Node σ)}

theorem descends (wired : Wired waiting linked edges nodes)
    (placed : ∀ s ∈ linked, s.Placed nodes.size) : Graph.Descends nodes := by
  intro id inner leaves
  obtain ⟨s, member, rfl, inside⟩ := wired.exits id inner leaves
  exact (placed s member).after inside

section

variable {s : Level} (wired : Wired (waiting ++ [s]) linked edges nodes)
  (ordered : (waiting ++ s :: linked).Pairwise Level.Before)
  (placed : ∀ other ∈ waiting ++ s :: linked, other.Placed nodes.size)
include wired

theorem onward_member {source id : Nat} (starts : source ∈ s.ids)
    (member : id ∈ Graph.exitsBy nodes.size source nodes) :
    ∃ other ∈ s :: linked, id ∈ other.ids := by
  rcases Graph.exitsBy_follows member with rfl | ⟨before, -, leaves⟩
  · exact ⟨s, List.mem_cons_self, starts⟩
  · obtain ⟨other, within, -, inside⟩ := wired.exits before id leaves
    exact ⟨other, List.mem_cons_of_mem s within, inside⟩

include ordered placed

theorem waiting_apart {source : Nat} (starts : source ∈ s.ids) {other : Level}
    (member : other ∈ waiting ++ [s]) :
    (other.node : Nat) ∉ Graph.exitsBy nodes.size source nodes := by
  intro within
  obtain ⟨owner, linked, inside⟩ := wired.onward_member starts within
  have after : other.node < other.node := by
    have ⟨first, second, between⟩ := List.pairwise_append.mp ordered
    rcases List.mem_append.mp member with member | member
    · exact (between other member owner linked).own _ inside
    · obtain rfl := List.mem_singleton.mp member
      rcases List.mem_cons.mp linked with rfl | linked
      · exact ((placed owner (by simp)).after inside).1
      · exact ((List.pairwise_cons.mp second).1 owner linked).own _ inside
  exact Nat.lt_irrefl _ after

theorem linkMain {source target : Nat} {hop : Route.Hop} (starts : source ∈ s.ids)
    (main : ∀ id, leadsFrom .main id s hop = if id = source then some target else none)
    (branch : ∀ id, leadsFrom .branch id s hop = none) :
    Wired (waiting ++ [s]) linked ((s, hop) :: edges)
      (Graph.linkMain source (some target) nodes) := by
  have size : (Graph.linkMain source (some target) nodes).size = nodes.size :=
    Graph.linkMainBy_size ..
  have exits (id : Nat) : (Graph.linkMain source (some target) nodes)[id]?.bind Node.exit =
      nodes[id]?.bind Node.exit := Graph.linkMainBy_bind (fun _ _ => rfl) _ _ _ _
  have whole : waiting ++ [s] ++ linked = waiting ++ s :: linked := by simp
  have placed' (other : Level) (member : other ∈ linked) : other.Placed nodes.size :=
    placed other (by simp [member])
  have descends := wired.descends placed'
  have outside (id : Nat) (apart : id ∉ Graph.exitsBy nodes.size source nodes) :
      (Graph.linkMain source (some target) nodes)[id]?.bind Node.main =
        nodes[id]?.bind Node.main := by
    by_cases within : id < nodes.size
    · rw [Graph.main_linkMain _ _ within, if_neg apart]
    · rw [Array.getElem?_eq_none (by omega), Array.getElem?_eq_none (by omega)]
  refine
    { entries := ?_
      exits := ?_
      waits := ?_
      main := ?_
      branch := ?_
      outside := ?_ }
  · intro id inner
    rw [Graph.linkMain, Graph.linkMainBy_bind fun _ _ => rfl]
    exact wired.entries id inner
  · intro id inner
    rw [exits]
    exact wired.exits id inner
  · intro other member
    rw [outside _ (wired.waiting_apart ordered placed starts member)]
    exact wired.waits other member
  · intro other member id inside within
    rw [size] at within
    rw [follower, List.findSome?_cons, main]
    have same {owner : Level} (member' : owner ∈ waiting ++ s :: linked) (inside' : id ∈ owner.ids) :
        other = owner := ordered_unique ordered (whole ▸ member) member' inside inside'
    unfold outward
    rw [exits]
    by_cases linked : id ∈ Graph.exitsBy nodes.size source nodes
    · rw [Graph.main_linkMain _ _ within, if_pos linked]
      by_cases here : id = source
      · -- The node of the pipeline being linked leads nowhere yet.
        obtain rfl := same (by simp) (here ▸ starts)
        rw [outside _ (wired.waiting_apart ordered placed starts (by simp)), if_pos here,
          wired.waits other (by simp), ite_self]
        rfl
      · -- An exit is linked onward with the sub-graph that is left there.
        obtain ⟨before, within', leaves⟩ := (Graph.exitsBy_follows linked).resolve_left here
        obtain ⟨owner, member', rfl, inside'⟩ := wired.exits before id leaves
        obtain rfl := same (by simp [member']) inside'
        obtain ⟨_, there, -⟩ := Option.bind_eq_some_iff.mp leaves
        have room := (Array.getElem?_eq_some_iff.mp there).1
        rw [if_pos leaves, Graph.main_linkMain _ _ room, if_pos within']
        rfl
    -- A node that is not on the chain of exits keeps its main link, and so does the sub-graph it
    -- may be left by.
    · have apart : id ≠ source := by
        rintro rfl
        exact linked (Graph.source_mem_exitsBy (by omega) id nodes)
      have still : nodes[other.node]?.bind Node.exit = some id →
          (Graph.linkMain source (some target) nodes)[other.node]?.bind Node.main =
            nodes[other.node]?.bind Node.main := fun leaves =>
        outside _ fun within => linked
          (Graph.exitsBy_closed descends (Nat.le_add_right _ _) within leaves)
      rw [outside id linked, if_neg apart, wired.main other member id inside within]
      unfold outward
      split
      next leaves =>
        rw [still leaves]
        rfl
      next => rfl
  · intro id within
    rw [size] at within
    rw [Graph.linkMain, Graph.linkMainBy_bind fun _ _ => rfl, follower, List.findSome?_cons, branch]
    exact wired.branch id within
  · intro id apart
    rw [outside]
    · exact wired.outside id apart
    · intro member
      obtain ⟨owner, linked, inside⟩ := wired.onward_member starts member
      exact apart owner (whole ▸ List.mem_append_right _ linked) inside

omit ordered placed

theorem linkBranch {source target : Nat} {hop : Route.Hop}
    (main : ∀ id, leadsFrom .main id s hop = none)
    (branch : ∀ id, leadsFrom .branch id s hop = if id = source then some target else none) :
    Wired (waiting ++ [s]) linked ((s, hop) :: edges) (Wiring.linkBranch source target nodes) := by
  have same {α : Type} {f : Node σ → Option α} (heedless : ∀ node branch, f { node with branch } = f node)
      (id : Nat) : (Wiring.linkBranch source target nodes)[id]?.bind f = nodes[id]?.bind f := by
    rw [Wiring.linkBranch, Array.getElem?_modify]
    split
    · cases nodes[id]? with
      | none => rfl
      | some node => exact heedless node _
    · rfl
  have exits (id : Nat) : (Wiring.linkBranch source target nodes)[id]?.bind Node.exit =
      nodes[id]?.bind Node.exit := same (fun _ _ => rfl) id
  have mains (id : Nat) : (Wiring.linkBranch source target nodes)[id]?.bind Node.main =
      nodes[id]?.bind Node.main := same (fun _ _ => rfl) id
  have size : (Wiring.linkBranch source target nodes).size = nodes.size := Array.size_modify
  -- A branch link touches one field of one node; all that is said of main links carries over.
  refine
    { entries id inner := ?_
      exits id inner := ?_
      waits other member := ?_
      main other member id inside within := ?_
      branch id within := ?_
      outside id apart := ?_ }
  · rw [same fun _ _ => rfl]
    exact wired.entries id inner
  · rw [exits]
    exact wired.exits id inner
  · rw [mains]
    exact wired.waits other member
  · rw [mains, follower, List.findSome?_cons, main, outward, exits, mains]
    exact wired.main other member id inside (size ▸ within)
  · rw [follower, List.findSome?_cons, branch, Wiring.linkBranch, Array.getElem?_modify]
    rw [size] at within
    by_cases here : source = id
    · rw [if_pos here, if_pos here.symm, Array.getElem?_eq_getElem within]
      rfl
    · rw [if_neg here, if_neg (Ne.symm here)]
      exact wired.branch id within
  · rw [mains]
    exact wired.outside id apart

theorem skip {hop : Route.Hop} (nowhere : ∀ edge id, leadsFrom edge id s hop = none) :
    Wired (waiting ++ [s]) linked ((s, hop) :: edges) nodes where
  entries := wired.entries
  exits := wired.exits
  waits := wired.waits
  main other member id inside within := by
    rw [follower, List.findSome?_cons, nowhere]
    exact wired.main other member id inside within
  branch id within := by
    rw [follower, List.findSome?_cons, nowhere]
    exact wired.branch id within
  outside := wired.outside

theorem setEnds {entry exit : Option NodeId}
    (enters : ∀ inner, entry = some inner →
      (s.plan.hops.head?.bind fun hop => s.find? (Literal.bareName hop.source)) = some inner)
    (leaves : ∀ inner : Nat, exit = some inner → inner ∈ s.ids) :
    Wired waiting (s :: linked) edges (nodes.modify s.node (Wiring.setEnds entry exit)) := by
  have same {α : Type} {f : Node σ → Option α} (heedless : ∀ node kind, f { node with kind } = f node)
      (id : Nat) : (nodes.modify s.node (Wiring.setEnds entry exit))[id]?.bind f =
        nodes[id]?.bind f := by
    rw [Array.getElem?_modify]
    split
    · cases nodes[id]? with
      | none => rfl
      | some node =>
        rw [Option.map_some, Option.bind_some, Option.bind_some, Wiring.setEnds]
        split
        · exact heedless node _
        · rfl
    · rfl
  have elsewhere {α : Type} {f : Node σ → Option α} {id : Nat} (apart : id ≠ s.node) :
      (nodes.modify s.node (Wiring.setEnds entry exit))[id]?.bind f = nodes[id]?.bind f := by
    rw [Array.getElem?_modify, if_neg (Ne.symm apart)]
  -- Ends are set at the node of this pipeline only, and elsewhere they are what they were before.
  have ends {f : Node σ → Option NodeId} {set : Option NodeId} {id inner : Nat}
      (reads : ∀ {node inner}, f (Wiring.setEnds entry exit node) = some inner → set = some inner)
      (found : (nodes.modify s.node (Wiring.setEnds entry exit))[id]?.bind f = some inner) :
      id = s.node ∧ set = some inner ∨ nodes[id]?.bind f = some inner := by
    by_cases here : id = s.node
    · rw [here, Array.getElem?_modify, if_pos rfl] at found
      obtain ⟨_, there, found⟩ := Option.bind_eq_some_iff.mp found
      obtain ⟨before, -, rfl⟩ := Option.map_eq_some_iff.mp there
      exact .inl ⟨here, reads found⟩
    · exact .inr (elsewhere here ▸ found)
  have mains (id : Nat) : (nodes.modify s.node (Wiring.setEnds entry exit))[id]?.bind Node.main =
      nodes[id]?.bind Node.main := same (fun _ _ => rfl) id
  have size : (nodes.modify s.node (Wiring.setEnds entry exit)).size = nodes.size :=
    Array.size_modify
  have whole : waiting ++ s :: linked = waiting ++ [s] ++ linked := by simp
  refine
    { entries id inner enters' := ?_
      exits id inner leaves' := ?_
      waits other member := ?_
      main other member id inside within := ?_
      branch id within := ?_
      outside id apart := ?_ }
  · rcases ends entry_of_setEnds enters' with ⟨here, now⟩ | before
    · exact ⟨s, List.mem_cons_self, here.symm, enters inner now⟩
    · obtain ⟨other, member, rest⟩ := wired.entries id inner before
      exact ⟨other, List.mem_cons_of_mem s member, rest⟩
  · rcases ends exit_of_setEnds leaves' with ⟨here, now⟩ | before
    · exact ⟨s, List.mem_cons_self, here.symm, leaves inner now⟩
    · obtain ⟨other, member, rest⟩ := wired.exits id inner before
      exact ⟨other, List.mem_cons_of_mem s member, rest⟩
  · rw [mains]
    exact wired.waits other (List.mem_append_left _ member)
  · have same : outward (nodes.modify s.node (Wiring.setEnds entry exit)) other id =
        outward nodes other id := by
      unfold outward
      rw [mains]
      by_cases here : other.node = s.node
      · rw [here, wired.waits s (by simp), ite_self, ite_self]
      · rw [elsewhere here]
    rw [mains, same]
    exact wired.main other (whole ▸ member) id inside (size ▸ within)
  · rw [same fun _ _ => rfl]
    exact wired.branch id (size ▸ within)
  · rw [mains]
    exact wired.outside id (whole ▸ apart)

end

end Wired

theorem lookup_found {s : Level} {reference : String} {id : NodeId}
    (done : lookup s reference = .ok id) : s.find? (Literal.bareName reference) = some id := by
  unfold lookup at done
  split at done
  next found =>
    cases done
    exact found
  next => cases done

def tagged (s : Level) (hops : List Route.Hop) : List (Level × Route.Hop) :=
  hops.reverse.map fun hop => (s, hop)

structure Along (waiting linked : List Level) (edges : List (Level × Route.Hop)) (s : Level)
    (size : Nat) (seen : List Route.Hop) (current : Linked σ) : Prop where
  wired : Wired (waiting ++ [s]) linked (tagged s seen ++ edges) current.nodes
  size : current.nodes.size = size
  start : seen = [] → current.entry = none
  entry : ∀ hop, seen.head? = some hop → ∃ inner,
    s.find? (Literal.bareName hop.source) = some inner ∧ current.entry = some inner
  exit : ∀ inner : Nat, current.exit = some inner → inner ∈ s.ids

section

variable {waiting linked : List Level} {edges : List (Level × Route.Hop)} {s : Level}
  {size : Nat} (ordered : (waiting ++ s :: linked).Pairwise Level.Before)
  (placed : ∀ other ∈ waiting ++ s :: linked, other.Placed size)
include ordered placed

theorem linkHop_along {seen : List Route.Hop} {hop : Route.Hop} {current next : Linked σ}
    (along : Along waiting linked edges s size seen current)
    (done : linkHop s current hop = .ok next) :
    Along waiting linked edges s size (seen ++ [hop]) next := by
  obtain ⟨source, leads, done⟩ := except_bind_ok done
  have leads := lookup_found leads
  have member := Level.find?_mem leads
  have latest : tagged s (seen ++ [hop]) ++ edges = (s, hop) :: (tagged s seen ++ edges) := by
    simp [tagged]
  have placed' : ∀ other ∈ waiting ++ s :: linked, other.Placed current.nodes.size :=
    along.size.symm ▸ placed
  have entry (first : Route.Hop) (head : (seen ++ [hop]).head? = some first) : ∃ inner,
      s.find? (Literal.bareName first.source) = some inner ∧
        current.entry.or (some source) = some inner := by
    cases seen with
    | nil =>
      cases head
      exact ⟨source, leads, by rw [along.start rfl]; rfl⟩
    | cons other rest =>
      obtain ⟨inner, named, enters⟩ := along.entry first head
      exact ⟨inner, named, by rw [enters]; rfl⟩
  -- Only a hop with a target links anything; the one without says where the pipeline is left.
  cases ends : hop.target with
  | none =>
    rw [ends] at done
    cases done
    refine
      { wired := latest ▸ along.wired.skip fun edge id => ?_
        size := along.size
        start := by simp
        entry
        exit := ?_ }
    · simp [leadsFrom, ends]
    · rintro _ ⟨⟩
      exact member
  | some reference =>
    rw [ends] at done
    obtain ⟨target, follows, done⟩ := except_bind_ok done
    have follows := lookup_found follows
    have leads (edge : Edge) (id : Nat) : leadsFrom edge id s hop =
        if hop.edge = edge ∧ source = id then some target else none := by
      simp [leadsFrom, leads, ends, follows]
    split at done
    next kind =>
      cases done
      have mains (id : Nat) : leadsFrom .main id s hop = none := by simp [leads, kind]
      have branches (id : Nat) : leadsFrom .branch id s hop =
          if id = source then some target else none := by simp [leads, kind, eq_comm]
      exact
        { wired := latest ▸ along.wired.linkBranch mains branches
          size := Array.size_modify.trans along.size
          start := by simp
          entry
          exit := along.exit }
    next kind =>
      cases done
      have mains (id : Nat) : leadsFrom .main id s hop =
          if id = source then some target else none := by simp [leads, kind, eq_comm]
      have branches (id : Nat) : leadsFrom .branch id s hop = none := by simp [leads, kind]
      exact
        { wired := latest ▸ along.wired.linkMain ordered placed' member mains branches
          size := (Graph.linkMainBy_size _ _ _ _).trans along.size
          start := by simp
          entry
          exit := along.exit }

theorem linkLevel_wired {nodes next : Array (Node σ)} (size_eq : nodes.size = size)
    (wired : Wired (waiting ++ [s]) linked edges nodes) (done : linkLevel nodes s = .ok next) :
    Wired waiting (s :: linked) (tagged s s.plan.hops ++ edges) next ∧ next.size = size := by
  obtain ⟨last, hops, ended⟩ := except_bind_ok done
  cases ended
  have start : Along waiting linked edges s size [] (.mk nodes none none) :=
      { wired
        size := size_eq
        start _ := rfl
        entry := nofun
        exit := nofun }
  have along : Along waiting linked edges s size s.plan.hops last :=
    foldlM_tracks (fun _ _ _ _ _ along done => linkHop_along ordered placed along done) start hops
  refine ⟨along.wired.setEnds (fun inner enters => ?_) along.exit,
    Array.size_modify.trans along.size⟩
  cases head : s.plan.hops.head? with
  | none =>
    rw [along.start (List.head?_eq_none_iff.mp head)] at enters
    cases enters
  | some hop =>
    obtain ⟨inner', named, enters'⟩ := along.entry hop head
    rw [Option.bind_some, named, ← enters', enters]

end

/-- The edges of some pipelines in the order in which they are linked, the last first. -/
def edgesOf (levels : List Level) : List (Level × Route.Hop) :=
  levels.flatMap fun s => tagged s s.plan.hops

theorem linkLevels_wired {levels : List Level} (waiting : List Level)
    {nodes next : Array (Node σ)}
    (ordered : (waiting ++ levels).Pairwise Level.Before)
    (placed : ∀ s ∈ waiting ++ levels, s.Placed nodes.size)
    (wired : Wired (waiting ++ levels) [] [] nodes)
    (done : levels.reverse.foldlM linkLevel nodes = .ok next) :
    Wired waiting levels (edgesOf levels) next ∧ next.size = nodes.size := by
  induction levels generalizing waiting next with
  | nil =>
    cases done
    exact ⟨List.append_nil waiting ▸ wired, rfl⟩
  | cons s rest ih =>
    have whole : waiting ++ s :: rest = waiting ++ [s] ++ rest := by simp
    rw [List.reverse_cons, List.foldlM_append] at done
    obtain ⟨between, inner, last⟩ := except_bind_ok done
    have ⟨wired, size⟩ := ih (waiting ++ [s]) (whole ▸ ordered) (whole ▸ placed) (whole ▸ wired) inner
    rw [List.foldlM_cons] at last
    obtain ⟨linked, last, ended⟩ := except_bind_ok last
    cases ended
    exact linkLevel_wired ordered placed size wired last

theorem wired_of_unlinked {levels : List Level} {nodes : Array (Node σ)}
    (unlinked : ∀ node ∈ nodes, node.Unlinked) : Wired levels [] [] nodes := by
  have nowhere {f : Node σ → Option NodeId} (none' : ∀ node, node.Unlinked → f node = none) (id : Nat) :
      nodes[id]?.bind f = none := by
    cases found : nodes[id]? with
    | none => rfl
    | some node => exact none' node (unlinked node (Array.mem_of_getElem? found))
  have entries := nowhere (f := Node.entry) fun _ unlinked => unlinked.2.2.1
  have exits := nowhere (f := Node.exit) fun _ unlinked => unlinked.2.2.2
  have mains := nowhere (f := Node.main) fun _ unlinked => unlinked.1
  refine
    { entries id inner enters := ?_
      exits id inner leaves := ?_
      waits s _ := mains s.node
      main s _ id _ _ := ?_
      branch id _ := nowhere (fun _ unlinked => unlinked.2.1) id
      outside id _ := mains id }
  · rw [entries] at enters
    cases enters
  · rw [exits] at leaves
    cases leaves
  · rw [mains, outward, mains, ite_self]
    rfl

theorem encloses_of_linkLevel {nodes next : Array (Node σ)} {s : Level} {id : Nat}
    (done : linkLevel nodes s = .ok next) (encloses : Encloses id next) : Encloses id nodes := by
  obtain ⟨last, hops, ended⟩ := except_bind_ok done
  cases ended
  have kinds : last.nodes.map Node.kind = nodes.map Node.kind :=
    foldlM_keeps (fun _ _ _ _ same done => (linkHop_kinds done).trans same) rfl hops
  have kept {node : Node σ} (found : last.nodes[id]? = some node) :
      ∃ first, nodes[id]? = some first ∧ first.kind = node.kind := by
    have was := congrArg (·[id]?) kinds
    simp only [Array.getElem?_map, found, Option.map_some] at was
    exact Option.map_eq_some_iff.mp was.symm
  obtain ⟨node, entry, exit, found, kind⟩ := encloses
  rw [Array.getElem?_modify] at found
  split at found
  · obtain ⟨node', there, rfl⟩ := Option.map_eq_some_iff.mp found
    obtain ⟨first, was, same⟩ := kept there
    cases kind' : node'.kind with
    | subGraph entry' exit' => exact ⟨first, entry', exit', was, same.trans kind'⟩
    | _ => simp [setEnds, kind'] at kind
  · obtain ⟨first, was, same⟩ := kept found
    exact ⟨first, entry, exit, was, same.trans kind⟩

theorem encloses_of_linkAll {layout linked : Layout σ} {id : Nat}
    (done : linkAll layout = .ok linked) (encloses : Encloses id linked.nodes) :
    Encloses id layout.nodes := by
  obtain ⟨nodes, levels, ended⟩ := except_bind_ok done
  cases ended
  have step (s : Level) (_ : s ∈ layout.levels.reverse) (before after : Array (Node σ))
      (holds : Encloses id before → Encloses id layout.nodes)
      (done : linkLevel before s = .ok after) (encloses : Encloses id after) :
      Encloses id layout.nodes := holds (encloses_of_linkLevel done encloses)
  exact foldlM_keeps step (fun start => start) levels encloses

structure Loose {β : Type} (f : Node σ → β) : Prop extends Node.Aside f where
  ends : ∀ node entry exit entry' exit', node.kind = .subGraph entry exit →
    f { node with kind := .subGraph entry' exit' } = f node

theorem isFanOut_loose : Loose (Node.isFanOut : Node σ → Bool) where
  main _ _ := rfl
  branch _ _ := rfl
  ends node entry exit _ _ kind := by simp [Node.isFanOut, kind]

section

variable {β : Type} {f : Node σ → β} (loose : Loose f)
include loose

theorem setEnds_same (entry exit : Option NodeId) (node : Node σ) :
    f (setEnds entry exit node) = f node := by
  unfold setEnds
  split
  next kind => exact loose.ends node _ _ _ _ kind
  next => rfl

theorem linkLevel_same {nodes next : Array (Node σ)} {s : Level}
    (done : linkLevel nodes s = .ok next) : next.map f = nodes.map f := by
  obtain ⟨last, hops, ended⟩ := except_bind_ok done
  cases ended
  have same : last.nodes.map f = nodes.map f :=
    foldlM_keeps (fun _ _ _ _ same done => (linkHop_same loose.toAside done).trans same) rfl hops
  exact (map_modify_same fun node _ => setEnds_same loose _ _ node).trans same

theorem linkAll_same {layout linked : Layout σ} (done : linkAll layout = .ok linked) :
    linked.nodes.map f = layout.nodes.map f ∧ linked.levels = layout.levels := by
  obtain ⟨nodes, levels, ended⟩ := except_bind_ok done
  cases ended
  have step (s : Level) (_ : s ∈ layout.levels.reverse) (before after : Array (Node σ))
      (same : before.map f = layout.nodes.map f) (done : linkLevel before s = .ok after) :
      after.map f = layout.nodes.map f := (linkLevel_same loose done).trans same
  exact ⟨foldlM_keeps step rfl levels, rfl⟩

end

theorem linkAll_wired {layout linked : Layout σ} (ordered : layout.levels.Pairwise Level.Before)
    (placed : ∀ s ∈ layout.levels, s.Placed layout.nodes.size)
    (unlinked : ∀ node ∈ layout.nodes, node.Unlinked) (done : linkAll layout = .ok linked) :
    Wired [] layout.levels (edgesOf layout.levels) linked.nodes ∧
      linked.nodes.size = layout.nodes.size := by
  obtain ⟨nodes, levels, ended⟩ := except_bind_ok done
  cases ended
  exact linkLevels_wired [] ordered placed (wired_of_unlinked unlinked) levels

end Wiring

namespace SameLinks

variable {nodes after : Array (Node σ)} (same : SameLinks nodes after)
include same

theorem wired {levels : List Level} {edges : List (Level × Route.Hop)}
    (wired : Wiring.Wired [] levels edges nodes) : Wiring.Wired [] levels edges after := by
  have mains := same.bind (f := Node.main) Node.main_of_links
  have exits := same.exit
  refine
    { entries id inner := ?_
      exits id inner := ?_
      waits := nofun
      main s member id inside within := ?_
      branch id within := ?_
      outside id apart := ?_ }
  · rw [same.bind fun links => (Node.ends_of_links links).1]
    exact wired.entries id inner
  · rw [exits]
    exact wired.exits id inner
  · rw [mains, Wiring.outward, exits, mains]
    exact wired.main s member id inside (same.size ▸ within)
  · rw [same.bind Node.branch_of_links]
    exact wired.branch id (same.size ▸ within)
  · rw [mains]
    exact wired.outside id apart

end SameLinks

namespace Blueprint

open Building (Starts Yields)

variable [Stage σ]

structure Connected (outline : Outline σ) (nodes : Array (Node σ)) : Prop where
  declared : outline.Declared
  wired : Wiring.Wired [] (Layout.ofOutline outline).levels
    (Wiring.edgesOf (Layout.ofOutline outline).levels) nodes
  size : nodes.size = (Layout.ofOutline outline).nodes.size
  left : ∀ id, Wiring.Encloses id nodes → Wiring.Left id nodes
  forks : nodes.map Node.isFanOut = (Layout.ofOutline outline).nodes.map Node.isFanOut

theorem assemble_connected (b : Blueprint σ) : b.assemble.Starts fun nodes =>
    ∃ outline, (Outline.declare b.registry b.pipeline).run.1 = .ok outline ∧
      Connected outline nodes := by
  refine Starts.bind (Outline.declareWithin_yields b.registry _ b.pipeline)
    fun outline ran declared => ?_
  have ⟨placed, _⟩ := Layout.ofOutline_placed outline
  have ordered := (Layout.ofOutline_ordered outline).order
  have named := (Layout.ofOutline_declared declared).levels
  refine .bind (.ofConfig fun bound done => And.intro (Binding.bindAll_links done)
    (Binding.bindAll_same Node.isFanOut_settled done).1) fun bound ⟨⟨before, levels⟩, forks⟩ => ?_
  have placed' : ∀ s ∈ bound.levels, s.Placed bound.nodes.size :=
    levels ▸ before.size ▸ placed.levels
  have unlinked (node : Node σ) (member : node ∈ bound.nodes) : node.Unlinked := by
    obtain ⟨id, found⟩ := Array.mem_iff_getElem?.mp member
    obtain ⟨other, was, links⟩ := before.node found
    have := placed.unlinked other (Array.mem_of_getElem? was)
    have ends := Node.ends_of_links links
    exact ⟨(Node.main_of_links links).trans this.1, (Node.branch_of_links links).trans this.2.1,
      ends.1.trans this.2.2.1, ends.2.trans this.2.2.2⟩
  -- Every sub-graph is that of a pipeline, and every pipeline is left somewhere.
  have linking (linked : Layout σ) (done : Wiring.linkAll bound = .ok linked) :
      (Wiring.Wired [] bound.levels (Wiring.edgesOf bound.levels) linked.nodes ∧
        linked.nodes.size = bound.nodes.size) ∧
      (∀ id, Wiring.Encloses id linked.nodes → Wiring.Left id linked.nodes) ∧
        linked.nodes.map Node.isFanOut = bound.nodes.map Node.isFanOut := by
    refine ⟨Wiring.linkAll_wired (levels ▸ ordered) placed' unlinked done, fun id encloses => ?_,
      (Wiring.linkAll_same Wiring.isFanOut_loose done).1⟩
    have encloses := Wiring.encloses_of_linkAll done encloses
    obtain ⟨s, member, rfl⟩ := Layout.ofOutline_covers outline id (before.symm.encloses encloses)
    exact Wiring.linkAll_left (levels ▸ named) (levels ▸ member) encloses done
  refine .bind (.ofConfig linking) fun linked ⟨⟨wired, size⟩, left, forks'⟩ => ?_
  refine .bind ((Wiring.attachFrom_links _ 0 (.refl linked.nodes)).and
    (Wiring.attachFrom_same Node.isFanOut_settled.toSteady _ 0 rfl)) fun nodes ⟨attached, forks''⟩ => ?_
  refine (Inspection.inspect_yields _).bind fun _ _ => ?_
  refine .ofConfig fun configured done => ⟨outline, ran, declared, ?_, ?_, fun id encloses => ?_, ?_⟩
  all_goals have same := attached.trans (configureAll_links done)
  · exact same.wired (levels ▸ wired)
  · rw [same.size, size, before.size]
  · exact same.left (left id (same.symm.encloses encloses))
  · exact ((configureAll_same Node.isFanOut_settled.toSteady done).trans forks'').trans (forks'.trans forks)

theorem build_connected {b : Blueprint σ} {g : Graph σ} (built : b.build.1 = .ok g) :
    ∃ outline nodes history, (Outline.declare b.registry b.pipeline).run.1 = .ok outline ∧
      g = Graph.make nodes 0 b.environment history ∧ Connected outline nodes := by
  obtain ⟨nodes, history, made, -, outline, declared, connected⟩ :=
    build_starts b.assemble_connected built
  exact ⟨outline, nodes, history, declared, made, connected⟩

end Blueprint

end Sluice
