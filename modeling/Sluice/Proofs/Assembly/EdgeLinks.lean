import Sluice.Assembly.Wiring
import Sluice.Proofs.Assembly.Declarations
import Sluice.Proofs.Route.Edges

set_option autoImplicit false

namespace Sluice

variable {σ : Type}

namespace Wiring

theorem foldlM_ok {ε γ δ : Type} {f : γ → δ → Except ε γ} {items : List δ}
    (step : ∀ x ∈ items, ∀ found, ∃ next, f found x = .ok next) (start : γ) :
    ∃ found, items.foldlM f start = .ok found := by
  induction items generalizing start with
  | nil => exact ⟨start, rfl⟩
  | cons x rest ih =>
    obtain ⟨next, done⟩ := step x List.mem_cons_self start
    rw [List.foldlM_cons, done]
    exact ih (fun y member => step y (List.mem_cons_of_mem x member)) next

theorem lookup_ok {s : Level} (declared : s.Declared) {reference : String}
    (named : Literal.bareName reference ∈ s.plan.names) : ∃ id, lookup s reference = .ok id := by
  have member : Literal.bareName reference ∈ s.members.map fun entry => entry.2.name := by
    rw [declared.2]
    exact List.mem_append_left _ named
  obtain ⟨entry, within, same⟩ := List.mem_map.mp member
  -- Of two members with one name the later counts, so that the search goes backwards.
  have found : (s.members.reverse.find? fun entry =>
      entry.2.name == Literal.bareName reference).isSome := by
    rw [List.find?_isSome]
    exact ⟨entry, List.mem_reverse.mpr within, by simp [same]⟩
  obtain ⟨entry, found⟩ := Option.isSome_iff_exists.mp found
  exact ⟨entry.1, by rw [lookup, Level.find?, found]; rfl⟩

theorem lookup_end_ok {s : Level} (declared : s.Declared) {hop : Route.Hop}
    (member : hop ∈ s.plan.hops) {reference : String} (either : reference ∈ hop.ends) :
    ∃ id, lookup s reference = .ok id := by
  refine lookup_ok declared ((Route.read_names declared.1 _).mpr ?_)
  exact ⟨hop, member, List.mem_map_of_mem either⟩

theorem linkHop_ok {s : Level} (declared : s.Declared) {hop : Route.Hop}
    (member : hop ∈ s.plan.hops) (linked : Linked σ) : ∃ next, linkHop s linked hop = .ok next := by
  obtain ⟨source, leads⟩ := lookup_end_ok declared member List.mem_cons_self
  cases ends : hop.target with
  | none => exact ⟨_, by rw [linkHop, leads, ends]; rfl⟩
  | some reference =>
    obtain ⟨target, follows⟩ := lookup_end_ok declared member
      (List.mem_cons_of_mem _ (Option.mem_toList.mpr ends))
    cases edge : hop.edge with
    | main => exact ⟨_, by simp only [linkHop, leads, ends, follows, edge]; rfl⟩
    | branch => exact ⟨_, by simp only [linkHop, leads, ends, follows, edge]; rfl⟩

theorem linkLevel_ok {s : Level} (declared : s.Declared) (nodes : Array (Node σ)) :
    ∃ next, linkLevel nodes s = .ok next := by
  obtain ⟨linked, done⟩ := foldlM_ok (f := linkHop s)
    (fun hop member linked => linkHop_ok declared member linked) ⟨nodes, none, none⟩
  exact ⟨_, by rw [linkLevel, done]; rfl⟩

theorem linkAll_ok {layout : Layout σ} (declared : layout.Declared) :
    ∃ linked, linkAll layout = .ok linked := by
  obtain ⟨nodes, done⟩ := foldlM_ok (f := linkLevel)
    (fun s member nodes => linkLevel_ok (declared.levels s (List.mem_reverse.mp member)) nodes)
    layout.nodes
  exact ⟨_, by rw [linkAll, done]; rfl⟩

end Wiring

/-- A plan has the edges of its route in document order and names their ends, so that linking finds
whatever a reference stands for. -/
theorem edges_of_route_link :
    (∀ text route, Route.read text = .ok route → ∀ reports, ∃ plan,
      ((Route.Plan.compile text).run reports).1 = .ok plan ∧
        plan.hops = (Route.edgesOf 0 route).eraseDups ∧
        ∀ name, name ∈ plan.names ↔ ∃ hop ∈ plan.hops, name ∈ hop.ends.map Literal.bareName) ∧
    ∀ (σ : Type) (r : Registry σ) (p : Pipeline) (outline : Outline σ),
      (Outline.declare r p).run.1 = .ok outline →
        ∀ essentials env overrides bound,
          Binding.bindAll essentials env overrides (.ofOutline outline) = .ok bound →
            ∃ linked, Wiring.linkAll bound = .ok linked := by
  constructor
  next =>
    intro text route parsed reports
    have proper := ((Route.read_ok_iff text route).mp parsed).1
    refine ⟨.ofElements route, ?_, Route.ofElements_hops proper, Route.ofElements_names proper⟩
    rw [Route.Plan.compile_run]
    exact (Route.Plan.read_ok_iff text _).mpr ⟨route, parsed, rfl⟩
  next =>
    intro σ r p outline declared essentials env overrides bound done
    have laid := Layout.ofOutline_declared (Outline.declare_declared declared)
    exact Wiring.linkAll_ok (Binding.bindAll_declared laid done)

def relays : Registry Unit :=
  ⟨["a", "b", "c", "d"].map fun name => (name, .make name "" [] ["size:1"] ()), [], []⟩

def branching : Pipeline := ⟨"line", "", [], false, "a:2 (b (c) a) d # rest", []⟩

theorem branching_edges_link :
    (∃ plan, ((Route.Plan.compile branching.route).run []).1 = .ok plan ∧
      plan.hops.map Route.Hop.text = [
        "a:2 >>> hidden_brancher_01", "hidden_brancher_01 ^^^ b", "hidden_brancher_01 >>> d",
        "b >>> hidden_brancher_02", "hidden_brancher_02 ^^^ c", "hidden_brancher_02 >>> a",
        "c >>> None", "a >>> None", "d >>> None"]) ∧
    ∃ outline bound linked, (Outline.declare relays branching).run.1 = .ok outline ∧
      Binding.bindAll [] .empty [] (.ofOutline outline) = .ok bound ∧
      Wiring.linkAll bound = .ok linked := by
  have parsed : Route.read branching.route = .ok [.stage "a:2", .branch [.stage "b",
      .branch [.stage "c"], .stage "a"], .stage "d"] := by rfl
  have built : (match (Outline.declare relays branching).run.1 with
      | .ok outline => (Binding.bindAll [] .empty [] (.ofOutline outline)).toBool
      | .error _ => false) = true := by decide +kernel
  obtain ⟨plan, compiled, hops, -⟩ := edges_of_route_link.1 _ _ parsed []
  refine ⟨⟨plan, compiled, by rw [hops]; decide +kernel⟩, ?_⟩
  cases declared : (Outline.declare relays branching).run.1 with
  | error e => rw [declared] at built; cases built
  | ok outline =>
    rw [declared] at built
    dsimp only at built
    cases done : Binding.bindAll [] .empty [] (.ofOutline outline) with
    | error e => rw [done] at built; cases built
    | ok bound =>
      obtain ⟨linked, link⟩ := edges_of_route_link.2 Unit relays branching outline declared
        [] .empty [] bound done
      exact ⟨outline, bound, linked, rfl, done, link⟩

end Sluice
