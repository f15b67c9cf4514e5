import Sluice.Proofs.Assembly.Mates
import Sluice.Proofs.Graph.MirroredRuns

set_option autoImplicit false

namespace Sluice

open Blueprint (Course Shaped Takes)
open Layout (ofOutline)

theorem Level.next_mem {s : Level} {edge : Edge} {id target : Nat}
    (leads : s.next edge id = some target) : target ∈ s.ids := by
  obtain ⟨hop, -, leads⟩ := List.exists_of_findSome?_eq_some leads
  unfold Wiring.leadsFrom at leads
  split at leads
  · obtain ⟨reference, -, found⟩ := Option.bind_eq_some_iff.mp leads
    exact Level.find?_mem found
  · cases leads

theorem Outline.level_member {σ : Type} {o : Outline σ} {i : Nat} (inside : i ∈ o.level.ids) :
    ∃ part, o.parts[i]? = some part := by
  have within := (Layout.mem_level_ids inside).2
  rw [Nat.zero_add] at within
  exact ⟨_, List.getElem?_eq_getElem within⟩

theorem Pairing.Meets.or {p : Pairing} {x y u v : Option NodeId} (first : p.Meets x y)
    (second : p.Meets u v) : p.Meets (x.or u) (y.or v) := by
  cases first with
  | nowhere => exact second
  | there pairs => exact .there pairs
  | through passes pairs other => exact .through passes pairs other

namespace Facing

variable {o o' : Outline Stock}

def pairing (facing : Facing o o') (passes : NodeId → NodeId → Prop) (leads : Bool) : Pairing where
  stage a b := ∃ m m' type, facing.Faces a b (.stage m type) (.stage m' type)
  fork a b := ∃ m m', facing.Faces a b (.fanOut m) (.fanOut m')
  nest a b := a = 0 ∧ b = 0 ∨ ∃ m m' inner, facing.Faces a b (.subGraph m inner) (.subGraph m' inner)
  passes
  foreign := facing.foreign
  leads
  left := by
    rintro a b c ⟨_, _, _, faces⟩ ⟨_, _, _, faces'⟩
    exact facing.left faces faces'
  right := by
    rintro a b c ⟨_, _, _, faces⟩ ⟨_, _, _, faces'⟩
    exact facing.right faces faces'

theorem pairs {facing : Facing o o'} {passes : NodeId → NodeId → Prop} {leads : Bool} {a b : NodeId}
    {part part' : Part Stock} (faces : facing.Faces a b part part') (peers : part.Peers part') :
    (facing.pairing passes leads).Pairs a b := by
  cases peers with
  | fanOut m m' => exact .fork ⟨m, m', faces⟩
  | @stage m m' same type => exact .stage ⟨m, m', type, faces⟩
  | @subGraph m m' same inner => exact .nest (.inr ⟨m, m', inner, faces⟩)

end Facing

structure Grounds {c c' : Course Stock} (facing : Facing c.outline c'.outline) (p : Pairing)
    (nodes nodes' : Array (Node Stock)) : Prop where
  mates : ∀ a b part part', facing.base a b part part' → ∃ s s' path path',
    (ofOutline c.outline).Mates (ofOutline c'.outline) facing.foreign s s' a b path path' part part' ∧
      (Binding.paramsOf c.bound.nodes s.node).Covers (Binding.paramsOf c'.bound.nodes s'.node)
  main : ∀ a b part part', facing.base a b part part' →
    p.Meets (nodes[a]?.bind Node.main) (nodes'[b]?.bind Node.main)
  branch : ∀ a b part part', facing.base a b part part' →
    p.Meets (nodes[a]?.bind Node.branch) (nodes'[b]?.bind Node.branch)
  entry : p.Meets (nodes[0]?.bind Node.entry) (nodes'[0]?.bind Node.entry)
  passing : ∀ a inner, p.passes a inner →
    ∃ node exit, nodes[a]? = some node ∧ node.kind = .subGraph (some inner) exit

namespace Grounds

variable {b : Blueprint Stock} {q : Pipeline} {c c' : Course Stock} {nodes nodes' : Array (Node Stock)}
  {facing : Facing c.outline c'.outline} {passes : NodeId → NodeId → Prop} {leads : Bool}
  (grounds : Grounds facing (facing.pairing passes leads) nodes nodes')
  (takes : b.Takes c nodes) (takes' : Takes { b with pipeline := q } c' nodes')
  (shaped : Shaped c.outline nodes) (shaped' : Shaped c'.outline nodes')
  {x y : Nat} {part part' : Part Stock}

section

variable {first first' i : Nat} {path path' : String} {m m' : Member} {inner : Outline Stock}
  (faces : facing.Faces x y (.subGraph m inner) (.subGraph m' inner))
  (has : (ofOutline c.outline).Has x first path inner)
  (has' : (ofOutline c'.outline).Has y first' path' inner)
include faces has has'

theorem onward (edge : Edge) : (facing.pairing passes leads).Meets
    ((inner.level.next edge i).map (first + ·)) ((inner.level.next edge i).map (first' + ·)) := by
  cases follows : inner.level.next edge i with
  | none => exact .nowhere
  | some t =>
    obtain ⟨part, at'⟩ := Outline.level_member (Level.next_mem follows)
    exact .there (Facing.pairs (.deeper faces has has' at') (.refl part))

end

include grounds

section

include shaped shaped'

theorem branches (faces : facing.Faces x y part part') : (facing.pairing passes leads).Meets
    (nodes[x]?.bind Node.branch) (nodes'[y]?.bind Node.branch) := by
  cases faces with
  | base base => exact grounds.branch _ _ _ _ base
  | deeper outer has has' at' =>
    rw [shaped.branch has.listed (has.seats at').id_mem,
      shaped'.branch has'.listed (has'.seats at').id_mem, Layout.level_next, Layout.level_next]
    exact onward outer has has' .branch

end

section

include takes takes'

theorem held (faces : facing.Faces x y part part') : ∃ s s' path path',
    (ofOutline c.outline).Mates (ofOutline c'.outline) facing.foreign s s' x y path path' part part' ∧
      (part.forks = false →
        ∃ t t', Layout.Holding c.bound c'.bound x y path path' part part' t t') :=
  facing.held takes.binds takes'.binds grounds.mates faces

include shaped shaped'

theorem ends {m m' : Member} {inner : Outline Stock}
    (faces : facing.Faces x y (.subGraph m inner) (.subGraph m' inner)) :
    ∃ first first' path path' node node', (ofOutline c.outline).Has x first path inner ∧
      (ofOutline c'.outline).Has y first' path' inner ∧ nodes[x]? = some node ∧ nodes'[y]? = some node' ∧
        node.kind = .subGraph (inner.level.enters.map (first + ·))
          (inner.level.leaves.map (first + ·)) ∧
        node'.kind = .subGraph (inner.level.enters.map (first' + ·))
          (inner.level.leaves.map (first' + ·)) := by
  obtain ⟨s, s', path, path', mates, -⟩ := grounds.held takes takes' faces
  obtain ⟨first, has⟩ := mates.seats.inner m inner rfl
  obtain ⟨first', has'⟩ := mates.seats'.inner m' inner rfl
  obtain ⟨node, found, kind⟩ := shaped.ends_of_has has mates.seats.node rfl
  obtain ⟨node', found', kind'⟩ := shaped'.ends_of_has has' mates.seats'.node rfl
  exact ⟨first, first', _, _, node, node', has, has', found, found', kind, kind'⟩

theorem mains (faces : facing.Faces x y part part') : (facing.pairing passes leads).Meets
    (nodes[x]?.bind Node.main) (nodes'[y]?.bind Node.main) := by
  induction faces with
  | base base => exact grounds.main _ _ _ _ base
  | @deeper x y first first' i _ _ m m' inner part outer has has' at' ih =>
    obtain ⟨low, low', _, _, node, node', has₁, has₁', found, found', kind, kind'⟩ :=
      grounds.ends takes takes' shaped shaped' outer
    obtain rfl := has.first_eq (Layout.ofOutline_ordered _).order has₁ at'
    obtain rfl := has'.first_eq (Layout.ofOutline_ordered _).order has₁' at'
    rw [shaped.main has.listed (has.seats at').id_mem, shaped'.main has'.listed (has'.seats at').id_mem,
      Layout.level_next, Layout.level_next]
    refine .or ?_ (onward outer has has' .main)
    -- Both are left at the same member or neither is.
    have left {nodes : Array (Node Stock)} {id low : Nat} {node : Node Stock} {entry : Option NodeId}
        (found : nodes[id]? = some node)
        (kind : node.kind = .subGraph entry (inner.level.leaves.map (low + ·))) :
        Wiring.outward nodes (Layout.level id low inner.pipeline inner.plan inner.parts) (low + i) =
          if inner.level.leaves = some i then nodes[id]?.bind Node.main else none := by
      unfold Wiring.outward Layout.level
      dsimp only
      rw [found, Option.bind_some, Node.exit, kind]
      cases inner.level.leaves <;> simp
    rw [left found kind, left found' kind']
    split
    · exact ih
    · exact .nowhere

omit shaped' in
theorem fed {x y : NodeId} (meets : (facing.pairing passes leads).Meets (some x) (some y))
    (stage : (nodes[x]?.bind Node.state?).isSome = true) : (facing.pairing passes leads).stage x y := by
  obtain ⟨s, found⟩ := Option.isSome_iff_exists.mp stage
  obtain ⟨node, found, state⟩ := Option.bind_eq_some_iff.mp found
  have plain (other : node.nests = true ∨ node.isFanOut = true) : False := by
    unfold Node.nests Node.isFanOut at other
    cases kind : node.kind <;> simp [Node.state?, kind] at state other
  have kept {first : Node Stock} (was : (ofOutline c.outline).nodes[x]? = some first)
      (other : first.nests = true ∨ first.isFanOut = true) : False := by
    obtain ⟨final, there, nests, forks⟩ := shaped.keeps was
    obtain rfl := Option.some.inj (found.symm.trans there)
    exact plain (nests ▸ forks ▸ other)
  cases meets with
  | there pairs =>
    cases pairs with
    | stage both => exact both
    | fork both =>
      obtain ⟨m, m', faces⟩ := both
      obtain ⟨s, s', path, path', mates, -⟩ := grounds.held takes takes' faces
      exact (kept mates.seats.node (.inr rfl)).elim
    | nest both =>
      rcases both with ⟨rfl, -⟩ | ⟨m, m', inner, faces⟩
      · obtain ⟨root, entry, exit, was, kind⟩ := (Layout.ofOutline_root c.outline).1
        exact (kept was (.inl (Node.nests_iff.mpr ⟨entry, exit, kind⟩))).elim
      · obtain ⟨s, s', path, path', mates, -⟩ := grounds.held takes takes' faces
        exact (kept mates.seats.node (.inl rfl)).elim
  | through passed _ _ =>
    obtain ⟨other, exit, there, kind⟩ := grounds.passing _ _ passed
    obtain rfl := Option.some.inj (found.symm.trans there)
    exact (plain (.inl (Node.nests_iff.mpr ⟨_, exit, kind⟩))).elim

theorem stands {m m' : Member} {type : Descriptor Stock}
    (pathless : ∀ run params, type.initial = .script run params → run.Pathless)
    (faces : facing.Faces x y (.stage m type) (.stage m' type)) :
    ∃ node other, nodes[x]? = some node ∧ nodes'[y]? = some other ∧
      (facing.pairing passes leads).Stands node other := by
  obtain ⟨s, s', path, path', mates, holding⟩ := grounds.held takes takes' faces
  obtain ⟨t, t', alike, dynamic, found, found'⟩ := holding rfl
  obtain ⟨node, last, furnished⟩ := takes.furnished found rfl
  obtain ⟨other, last', furnished'⟩ := takes'.furnished found' rfl
  have meets := grounds.mains takes takes' shaped shaped' faces
  -- Both members face each other, so their main links lead to members that do too.
  rw [last, last', Option.bind_some, Option.bind_some] at meets
  have fed (a b : NodeId) (onward : node.main = some a) (onward' : other.main = some b)
      (stage : (nodes[a]?.bind Node.state?).isSome = true) :
      (facing.pairing passes leads).stage a b :=
    grounds.fed takes takes' shaped (onward ▸ onward' ▸ meets) stage
  obtain ⟨⟨u, u', kind, kind', twin⟩, tank⟩ := furnished.twin furnished' alike pathless fed
  have same := mates.peers.same rfl
  -- Assembly changes no more than kind, links and tank of a node once it is bound.
  have reads {β : Type} (f : Node Stock → β) (steady : ∀ node : Node Stock, f node.bare = f node) :
      f node = f { Layout.nodeOf path (.stage m type) with params := t, dynamic } ∧
        f other = f { Layout.nodeOf path' (.stage m' type) with params := t', dynamic } := by
    rw [← steady node, ← steady other, furnished.bare, furnished'.bare, steady, steady]
    exact ⟨rfl, rfl⟩
  have ⟨name, name'⟩ := reads Node.name fun _ => rfl
  have ⟨typeName, typeName'⟩ := reads Node.typeName fun _ => rfl
  have ⟨path₁, path₁'⟩ := reads Node.path fun _ => rfl
  have ⟨declared, declared'⟩ := reads Node.declared fun _ => rfl
  have ⟨params, params'⟩ := reads Node.params fun _ => rfl
  have ⟨dynamic₁, dynamic₁'⟩ := reads Node.dynamic fun _ => rfl
  have ⟨phase, phase'⟩ := reads Node.phase fun _ => rfl
  have ⟨busy, busy'⟩ := reads Node.busy fun _ => rfl
  have ⟨calm, calm'⟩ := reads Node.closeDeferred fun _ => rfl
  refine ⟨node, other, last, last',
    { kind := ⟨u, u', kind, kind', twin⟩
      main := meets
      name := ?_
      typeName := ?_
      path := ?_
      declared := ?_
      params := ?_
      dynamic := ?_
      phase := ?_
      busy := ?_
      tank
      calm
      calm' }⟩
  · rw [name, name']
    exact same.name
  · rw [typeName, typeName']
    exact same.typeName
  · unfold Pairing.Hidden
    rw [path₁, path₁', name, name']
    rcases mates.moved rfl with here | ⟨hidden, other | ⟨named, -⟩⟩
    · exact .inl here
    · exact .inr ⟨.inr hidden, .inr other⟩
    · exact .inr ⟨.inr hidden, .inl (named.trans same.name.symm)⟩
  · rw [declared, declared']
    rfl
  · rw [params, params']
    exact alike
  · rw [dynamic₁, dynamic₁']
  · rw [phase, phase']
    rfl
  · rw [busy, busy']
    rfl

theorem forks {m m' : Member} (faces : facing.Faces x y (.fanOut m) (.fanOut m')) :
    ∃ node other, nodes[x]? = some node ∧ nodes'[y]? = some other ∧ node.kind = .fanOut ∧
      other.kind = .fanOut ∧ (facing.pairing passes leads).Meets node.main other.main ∧
        (facing.pairing passes leads).Meets node.branch other.branch := by
  obtain ⟨s, s', path, path', mates, -⟩ := grounds.held takes takes' faces
  obtain ⟨node, found, -, fork⟩ := shaped.keeps mates.seats.node
  obtain ⟨other, found', -, fork'⟩ := shaped'.keeps mates.seats'.node
  have kind {node : Node Stock} (fork : node.isFanOut = true) : node.kind = .fanOut := by
    unfold Node.isFanOut at fork
    split at fork
    · assumption
    · cases fork
  have meets := grounds.mains takes takes' shaped shaped' faces
  have meets' := grounds.branches shaped shaped' faces
  rw [found, found', Option.bind_some, Option.bind_some] at meets meets'
  exact ⟨node, other, found, found', kind fork, kind fork', meets, meets'⟩

theorem nests {m m' : Member} {inner : Outline Stock}
    (faces : facing.Faces x y (.subGraph m inner) (.subGraph m' inner)) :
    ∃ node other entry exit entry' exit', nodes[x]? = some node ∧ nodes'[y]? = some other ∧
      node.kind = .subGraph entry exit ∧ other.kind = .subGraph entry' exit' ∧
        (facing.pairing passes leads).Meets entry entry' := by
  obtain ⟨first, first', path, path', node, other, has, has', found, found', kind, kind'⟩ :=
    grounds.ends takes takes' shaped shaped' faces
  refine ⟨node, other, _, _, _, _, found, found', kind, kind', ?_⟩
  cases enters : inner.level.enters with
  | none => exact .nowhere
  | some t =>
    obtain ⟨hop, -, named⟩ := Option.bind_eq_some_iff.mp enters
    obtain ⟨part, at'⟩ := Outline.level_member (Level.find?_mem named)
    exact .there (Facing.pairs (.deeper faces has has' at') (.refl part))

omit shaped shaped' in
theorem registered {m m' : Member} {type : Descriptor Stock}
    (faces : facing.Faces x y (.stage m type) (.stage m' type)) :
    ∃ name type', (name, type') ∈ b.registry.stages ∧ type'.initial = type.initial := by
  obtain ⟨s, s', path, path', mates, -⟩ := grounds.held takes takes' faces
  obtain ⟨-, allTyped⟩ := Outline.declare_allTyped takes.declared
  obtain ⟨part, inside, of, -, found⟩ :=
    (Layout.ofOutline_lays mates.seats.listed).member allTyped mates.seats.inside
  have kind := congrArg Node.kind (Option.some.inj (found.symm.trans mates.seats.node))
  cases of with
  | fanOut _ => cases kind
  | subGraph _ _ _ => cases kind
  | @stage typeName type' _ registered =>
    obtain ⟨name, -, there⟩ := List.exists_of_findSome?_eq_some registered
    obtain ⟨type'', there, same⟩ := Option.map_eq_some_iff.mp there
    cases same
    exact ⟨typeName, type', Dict.mem_of_at? there, NodeKind.stage.inj kind⟩

theorem mirrors (pathless : ∀ entry ∈ b.registry.stages, ∀ run params,
      entry.2.initial = .script run params → run.Pathless)
    {history history' : List (Event Stock)} (uncalled : Uncalled history) (uncalled' : Uncalled history') :
    (facing.pairing passes leads).Mirrors (Graph.make nodes 0 b.environment history)
      (Graph.make nodes' 0 b.environment history') := by
  have there {nodes : Array (Node Stock)} {history : List (Event Stock)} {id : NodeId}
      {node : Node Stock} (found : nodes[id]? = some node) :
      (Graph.make nodes 0 b.environment history).node? id = some node :=
    (Blueprint.node?_make (Array.getElem?_eq_some_iff.mp found).1).trans found
  have silent {history : List (Event Stock)} (uncalled : Uncalled history) : hooks history = [] := by
    refine List.filterMap_eq_nil_iff.mpr fun event listed => ?_
    have quiet := uncalled event listed
    cases event with
    | began id node hook => cases quiet
    | _ => rfl
  have root : ∃ node other entry exit entry' exit', nodes[0]? = some node ∧ nodes'[0]? = some other ∧
      node.kind = .subGraph entry exit ∧ other.kind = .subGraph entry' exit' ∧
        (facing.pairing passes leads).Meets entry entry' := by
    obtain ⟨first, _, _, was, kind⟩ := (Layout.ofOutline_root c.outline).1
    obtain ⟨first', _, _, was', kind'⟩ := (Layout.ofOutline_root c'.outline).1
    obtain ⟨node, found, nests, -⟩ := shaped.keeps was
    obtain ⟨other, found', nests', -⟩ := shaped'.keeps was'
    obtain ⟨entry, exit, kind⟩ := Node.nests_iff.mp (nests.trans (Node.nests_iff.mpr ⟨_, _, kind⟩))
    obtain ⟨entry', exit', kind'⟩ :=
      Node.nests_iff.mp (nests'.trans (Node.nests_iff.mpr ⟨_, _, kind'⟩))
    have meets := grounds.entry
    simp only [found, found', Option.bind_some, Node.entry, kind, kind'] at meets
    exact ⟨node, other, entry, exit, entry', exit', found, found', kind, kind', meets⟩
  refine
    { root := .inl ⟨rfl, rfl⟩
      stages := ?_
      forks := ?_
      nests := ?_
      passing := ?_
      environment := rfl
      running := rfl
      running' := rfl
      store := rfl
      calls := ?_ }
  · rintro x y ⟨m, m', type, faces⟩
    obtain ⟨name, type', listed, same⟩ := grounds.registered takes takes' faces
    have pathless (run : Script) (params : ParamTable) (script : type.initial = .script run params) :
        run.Pathless := pathless _ listed run params (same.trans script)
    obtain ⟨node, other, found, found', stands⟩ :=
      grounds.stands takes takes' shaped shaped' pathless faces
    exact ⟨node, other, there found, there found', stands⟩
  · rintro x y ⟨m, m', faces⟩
    obtain ⟨node, other, found, found', rest⟩ := grounds.forks takes takes' shaped shaped' faces
    exact ⟨node, other, there found, there found', rest⟩
  · rintro x y (⟨rfl, rfl⟩ | ⟨m, m', inner, faces⟩)
    · obtain ⟨node, other, entry, exit, entry', exit', found, found', rest⟩ := root
      exact ⟨node, other, entry, exit, entry', exit', there found, there found', rest⟩
    · obtain ⟨node, other, entry, exit, entry', exit', found, found', rest⟩ :=
        grounds.nests takes takes' shaped shaped' faces
      exact ⟨node, other, entry, exit, entry', exit', there found, there found', rest⟩
  · rintro x inner passed
    obtain ⟨node, exit, found, kind⟩ := grounds.passing x inner passed
    exact ⟨node, exit, there found, kind⟩
  · have calls : hooks (Graph.make nodes 0 b.environment history).history = [] := silent uncalled
    have calls' : hooks (Graph.make nodes' 0 b.environment history').history = [] := silent uncalled'
    rw [calls, calls']
    exact .nil

end

end Grounds

end Sluice
