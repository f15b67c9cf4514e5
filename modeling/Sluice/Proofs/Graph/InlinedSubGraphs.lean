import Sluice.Proofs.Graph.SplicedLevels

set_option autoImplicit false

namespace Sluice

open Blueprint (Course Takes)
open Route (Element inlineOf stagesOf)

/-- A stage of the second graph receives what one of the first does when parcels are sent, if no
message has a foreign destination. -/
def Graph.ReceivesAs (foreign : String → Prop) (g g' : Graph Stock) (a b : NodeId) : Prop :=
  ∀ (parcels : List Parcel) (depth : Nat) (after : Graph Stock),
    Graph.actAll depth (parcels.map .send) g = some after → ¬Strays foreign after.history →
      ∃ depth' after', Graph.actAll depth' (parcels.map .send) g' = some after' ∧
        received b after'.history = received a after.history

namespace Pairing.Mirrors

variable {p : Pairing} {g g' : Graph Stock} {a b : NodeId} (mirrors : p.Mirrors g g') (both : p.stage a b)
include mirrors both

theorem receivesAs (leads : p.leads = true) : Graph.ReceivesAs p.foreign g g' a b := by
  intro parcels depth after ran clean
  have reaches : p.Reaches depth depth := by
    unfold Reaches
    rw [if_pos leads]
  have tallies := sent_tallies reaches mirrors parcels
  rw [ran] at tallies
  generalize ended : Graph.actAll depth (parcels.map .send) g' = other at tallies
  cases tallies with
  | ahead follows =>
    rw [leads] at follows
    cases follows
  | strays left _ => exact absurd (left after rfl) clean
  | done mirrors => exact ⟨depth, _, ended, mirrors.received both⟩

theorem receivesAs_symm (follows : p.leads = false) : Graph.ReceivesAs p.foreign g' g b a := by
  intro parcels depth after ran clean
  have reaches : p.Reaches (2 * depth) depth := by
    unfold Reaches
    rw [if_neg (by simp [follows])]
  have tallies := sent_tallies reaches mirrors parcels
  rw [ran] at tallies
  generalize ended : Graph.actAll (2 * depth) (parcels.map .send) g = other at tallies
  cases tallies with
  | behind leads =>
    rw [leads] at follows
    cases follows
  | strays _ right => exact absurd (right after rfl) clean
  | done mirrors => exact ⟨2 * depth, _, ended, (mirrors.received both).symm⟩

end Pairing.Mirrors

/-- A stage of a pipeline with a sub-graph on its route receives what it does where the route of the
sub-graph is in place of it, and goes on there at its last node. -/
theorem sub_graph_as_inlined {b : Blueprint Stock} {sub q : Pipeline} {g g' : Graph Stock}
    {name reference : String} {route body : List Element} (built : b.build.1 = .ok g)
    (built' : (Blueprint.build { b with pipeline := q }).1 = .ok g')
    (inlines : Inlines b.registry b.pipeline sub q name route body)
    (pathless : ∀ entry ∈ b.registry.stages, ∀ run params,
      entry.2.initial = .script run params → run.Pathless)
    (listed : reference ∈ stagesOf route) (other : Literal.bareName reference ≠ name)
    (staged : Outline.firstRegistered b.registry.stages
      (Outline.typeNames b.pipeline (Literal.bareName reference)) ≠ none) :
    ∃ id node id' node', g.find? (Literal.bareName reference) = some (id, node) ∧
      g'.find? (Literal.bareName reference) = some (id', node') ∧
        g.ReceivesAs (LeadsInto name body) g' id id' ∧ g'.ReceivesAs (LeadsInto name body) g id' id := by
  obtain ⟨c, nodes, history, rfl, uncalled, takes, shaped⟩ := Blueprint.build_shaped built
  obtain ⟨c', nodes', history', rfl, uncalled', takes', shaped'⟩ := Blueprint.build_shaped built'
  obtain ⟨inlay, inside⟩ := takes.inlay takes' inlines
  have ⟨whole, allTyped⟩ := Outline.declare_allTyped takes.declared
  rw [← Route.spotsOf_references 0 none route] at listed
  obtain ⟨x, spot, written⟩ := List.mem_filterMap.mp listed
  -- The stage has a place of its own on the route.
  have apart : x.place ≠ inlay.here.place := by
    intro same
    obtain rfl := Route.spotsOf_place_inj spot inlay.splices.listed same
    obtain ⟨reference', written', named⟩ := inlay.splices.named
    rw [written] at written'
    cases written'
    exact other named
  obtain ⟨part, part', sits, sits'⟩ := inlay.sits_outer (Route.spot_within spot)
  have named := (sits.written spot rfl written).1
  have peers := Inlay.peers takes takes' inlines inside (.outer apart sits sits')
  have plain := (sits.plain inlay.outer allTyped spot rfl written).1
  have filled := Route.bareName_filled inlines.outer (sits.written spot rfl written).2
  have same := (peers.same (sits.plain inlay.outer allTyped spot rfl written).2).name
  obtain ⟨node, -, found⟩ := takes.find?_member sits.seats.inside
    (sits.named ▸ inlay.outer.named sits.within) (named ▸ filled) b.environment history
  obtain ⟨node', -, found'⟩ := takes'.find?_member sits'.seats.inside
    (sits'.named ▸ inlay.flat.named sits'.within) (same ▸ named ▸ filled) b.environment history'
  rw [named] at found
  rw [same, named] at found'
  have both (leads : Bool) : (inlay.pairing leads).stage (c.outline.root.seat route x.place)
      (c'.outline.root.seat (inlineOf name body route) (inlay.moved x.place)) := by
    have of := sits.of allTyped
    rw [named] at of plain
    have faces : inlay.facing.Faces (c.outline.root.seat route x.place)
        (c'.outline.root.seat (inlineOf name body route) (inlay.moved x.place)) part part' :=
      .base (.outer apart sits sits')
    cases peers with
    | fanOut _ _ =>
      cases of with
      | fanOut forks => exact absurd forks plain
    | @stage m m' _ type => exact ⟨m, m', type, faces⟩
    | subGraph _ _ =>
      cases of with
      | subGraph _ none _ => exact absurd (whole ▸ none) staged
  have grounds (leads : Bool) : Grounds inlay.facing (inlay.pairing leads) nodes nodes' :=
    Inlay.grounds takes takes' inlines inside shaped shaped'
  have mirrors (leads : Bool) :=
    (grounds leads).mirrors takes takes' shaped shaped' pathless uncalled uncalled'
  exact ⟨_, node, _, node', found, found', (mirrors true).receivesAs (both true) rfl,
    (mirrors false).receivesAs_symm (both false) rfl⟩

def Event.notices (event : Event Stock) : Bool :=
  match event with
  | .began _ _ (.notice _) => true
  | _ => false

theorem Event.notices_of_strays {foreign : String → Prop} {event : Event Stock}
    (strays : event.Strays foreign) : event.notices = true := by
  unfold Strays at strays
  split at strays
  · rfl
  · exact strays.elim

def Stock.isScript : Stock → Bool
  | .script _ _ => true
  | _ => false

def Blueprint.heard (b : Blueprint Stock) (stage : String) (texts : List String) :
    Option (List String) := do
  let g ← b.build.1.toOption
  let entry ← g.find? stage
  let after ← Graph.actAll 16 (texts.map fun text => .send (.ofText text)) g
  return (received entry.1 after.history).map fun call => call.2.text

namespace Nested

def plain (route : String) (sections : Dict Section) : Pipeline :=
  ⟨"line", "", [], false, route, sections⟩

def around (sub p : Pipeline) : Blueprint Stock where
  pipeline := p
  registry := { Stock.registry with graphs := [("sub", sub)] }
  params := []
  environment := .empty

def branching : Pipeline := ⟨"sub", "", [], false, "branch_clone (wrap:a)", []⟩

def outer : Pipeline := plain "reverse_string sub sink" []

def inlined : Pipeline := plain "reverse_string branch_clone (wrap:a sink)" []

theorem branching_inlines : Inlines (around branching outer).registry (around branching outer).pipeline
    branching inlined "sub" [.stage "reverse_string", .stage "sub", .stage "sink"]
    [.stage "branch_clone", .branch [.stage "wrap:a"]] where
  outer := rfl
  inner := rfl
  flat := rfl
  uses := by decide +kernel
  apart := ⟨by decide +kernel, by decide +kernel⟩
  unstaged := Option.isNone_iff_eq_none.mp (by decide +kernel)
  registered := ⟨"sub", rfl⟩
  keyless := rfl
  typeName := rfl
  keys := rfl
  dynamic := rfl
  dynamic' := rfl
  sections _ _ _ := rfl
  sections' _ _ := rfl

theorem branching_as_inlined : ∃ g g' after after' depth' id node id' node',
    (around branching outer).build.1 = .ok g ∧
      (Blueprint.build { around branching outer with pipeline := inlined }).1 = .ok g' ∧
        g.find? "sink" = some (id, node) ∧ g'.find? "sink" = some (id', node') ∧
          Graph.actAll 16 [.send (.ofText "one")] g = some after ∧
            Graph.actAll depth' [.send (.ofText "one")] g' = some after' ∧
              received id' after'.history = received id after.history ∧
                (received id after.history).map (fun call => call.2.text) = ["aeno"] := by
  have runs : (around branching outer).passes (fun g =>
      (g.find? "sink").any fun entry => (Graph.actAll 16 [.send (.ofText "one")] g).any fun after =>
        !after.history.any Event.notices &&
          decide ((received entry.1 after.history).map (fun call => call.2.text) = ["aeno"])) = true := by
    decide +kernel
  have runs' : Blueprint.passes { around branching outer with pipeline := inlined }
      (fun _ => true) = true := by decide +kernel
  obtain ⟨g, built, runs⟩ := Blueprint.of_passes runs
  obtain ⟨g', built', -⟩ := Blueprint.of_passes runs'
  have scriptless : Stock.registry.stages.all (fun entry => !entry.2.initial.isScript) = true := by
    decide +kernel
  have pathless : ∀ entry ∈ Stock.registry.stages, ∀ run params,
      entry.2.initial = .script run params → run.Pathless := by
    intro entry listed run params script
    have none := List.all_eq_true.mp scriptless entry listed
    rw [script] at none
    cases none
  have listed : "sink" ∈ stagesOf [.stage "reverse_string", .stage "sub", .stage "sink"] := by
    decide +kernel
  have named : Literal.bareName "sink" = "sink" := by decide +kernel
  obtain ⟨id, node, id', node', found, found', hears, -⟩ := sub_graph_as_inlined built built'
    branching_inlines pathless listed (by decide +kernel) (Option.isSome_iff_ne_none.mp (by decide +kernel))
  rw [named] at found found'
  rw [found, Option.any_some] at runs
  obtain ⟨after, ran, checks⟩ := (Option.any_eq_true _ _).mp runs
  obtain ⟨quiet, texts⟩ := Bool.and_eq_true_iff.mp checks
  -- The run called on nothing that tells the two routes apart, as no stage noticed a message.
  have clean : ¬Strays (LeadsInto "sub" [.stage "branch_clone", .branch [.stage "wrap:a"]])
      after.history := by
    rintro ⟨event, inside, strays⟩
    have noticed := List.any_eq_true.mpr ⟨event, inside, event.notices_of_strays strays⟩
    simp [noticed] at quiet
  obtain ⟨depth', after', ran', same⟩ := hears [.ofText "one"] 16 after ran clean
  exact ⟨g, g', after, after', depth', id, node, id', node', built, built', found, found', ran, ran',
    same, of_decide_eq_true texts⟩

def addressing : Dict Section :=
  [("send_message", ⟨none, [("destination", .text "sub.wrap"), ("message", .text "reset:data_prefix:b")]⟩)]

def wrapping : Pipeline := ⟨"sub", "", [], false, "wrap:a", []⟩

def prefixed : Dict Section := [("wrap", ⟨none, [("data_prefix", .text "%A")]⟩)]

def following : Pipeline := ⟨"sub", "", [], true, "wrap", prefixed⟩

def locate : Script := fun t _ => (.ofText t.stage, none)

def locating (p : Pipeline) : Blueprint Stock :=
  let b := around ⟨"sub", "", [], false, "locate", []⟩ p
  { b with registry := { b.registry with
      stages := b.registry.stages.put "locate" (Stock.scriptType "locate" [] locate) } }

def withVariable (sub p : Pipeline) : Blueprint Stock :=
  { around sub p with environment := Environment.empty.set "A" "b" }

/-- What follows a sub-graph goes on at the end of its last branch, and not where its outermost
sequence ends. Besides, the stages inside go by other paths, and by the variables of their own
pipeline. -/
theorem inlined_text_differs :
    ((around branching (plain "sub sink" [])).heard "sink" ["one"] = some ["aone"] ∧
      (around branching (plain "branch_clone (wrap:a) sink" [])).heard "sink" ["one"] = some ["one"]) ∧
    ((around wrapping (plain "send_message sub sink" addressing)).heard "sink" ["one"] = some ["bone"] ∧
      (around wrapping (plain "send_message wrap:a sink" addressing)).heard "sink" ["one"] =
        some ["aone"]) ∧
    ((withVariable following (plain "sub sink" [])).heard "sink" ["one"] = some ["bone"] ∧
      (withVariable following (plain "wrap sink" prefixed)).heard "sink" ["one"] = some ["%Aone"]) ∧
    ((locating (plain "sub sink" [])).heard "sink" ["one"] = some ["sub.locate"] ∧
      (locating (plain "locate sink" [])).heard "sink" ["one"] = some ["locate"]) := by
  refine ⟨⟨?_, ?_⟩, ⟨?_, ?_⟩, ⟨?_, ?_⟩, ?_, ?_⟩ <;> decide +kernel

end Nested

end Sluice
