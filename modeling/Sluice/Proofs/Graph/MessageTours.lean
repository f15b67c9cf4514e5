import Sluice.Proofs.Assembly.Trials
import Sluice.Proofs.Graph.MessageCycles

set_option autoImplicit false

namespace Sluice

open Stage (LawfulFeeders)

variable {σ α β : Type} [Stage σ]

/-- Where a message goes on from a node. A stage that keeps it, or that feeds back, hands it to
nobody. -/
def Node.takes (m : Message) (node : Node σ) : List NodeId :=
  match node.kind with
  | .subGraph entry _ => entry.toList
  | .fanOut => node.branch.toList ++ node.main.toList
  | .stage s =>
    if node.answersTo m.destination && m.singleUse || Stage.feedsBack s then []
    else node.main.toList

theorem Node.takes_stage {node : Node σ} {s : σ} (stage : node.kind = .stage s) (m : Message) :
    node.takes m = if node.answersTo m.destination && m.singleUse ||
      (node.state?).any Stage.feedsBack then [] else node.main.toList := by
  simp [takes, state?, stage]

theorem Node.takes_of_passive {node : Node σ} (passive : node.state? = none) (m : Message) :
    node.takes m = node.next := by
  unfold takes next
  cases kind : node.kind <;> simp_all [state?]

theorem Node.takes_of_lasting {m : Message} {node : Node σ} (lasting : m.singleUse = false) :
    node.takes m = node.next := by
  unfold takes next
  cases node.kind <;> simp [lasting]

theorem Node.takes_of_fixed {before node : Node σ} (fixed : node.fixed = before.fixed)
    (feeds : (node.state?).any Stage.feedsBack = (before.state?).any Stage.feedsBack)
    (m : Message) : node.takes m = before.takes m := by
  cases kind : before.kind with
  | stage s =>
    obtain ⟨t, stage⟩ := stage_of_fixed fixed kind
    have answersTo : node.answersTo m.destination = before.answersTo m.destination :=
      congrArg (fun node : Node Unit => node.answersTo m.destination) fixed
    rw [takes_stage stage, takes_stage kind, feeds, answersTo, main_of_fixed fixed]
  | _ =>
    have shape := shape_of_fixed fixed
    rw [kind] at shape
    cases other : node.kind <;> rw [other] at shape <;> cases shape
    all_goals
      rw [takes_of_passive (by simp [state?, other]), takes_of_passive (by simp [state?, kind]),
        next_of_fixed fixed feeds]

namespace Graph

def stage? (g : Graph σ) (id : NodeId) : Option σ := (g.node? id).bind Node.state?

def takes (m : Message) (g : Graph σ) (id : NodeId) : List NodeId :=
  ((g.node? id).map (Node.takes m)).getD []

/-- The way of a message through nodes that it is still to be taken to, and the stages that it is
shown to: a node comes before those that it hands the message on to, and these come before what was
still to come. -/
inductive Walks (m : Message) (g : Graph σ) : List NodeId → List NodeId → Prop
  | done : Walks m g [] []
  | shows {id : NodeId} {s : σ} {pending ids : List NodeId} (here : g.stage? id = some s)
      (rest : Walks m g (g.takes m id ++ pending) ids) : Walks m g (id :: pending) (id :: ids)
  | through {id : NodeId} {pending ids : List NodeId} (passive : g.stage? id = none)
      (rest : Walks m g (g.takes m id ++ pending) ids) : Walks m g (id :: pending) ids

namespace Walks

variable {m : Message} {g : Graph σ} {pending more ids others : List NodeId}

theorem unique (first : g.Walks m pending ids) (second : g.Walks m pending others) :
    ids = others := by
  induction first generalizing others with
  | done =>
    cases second
    rfl
  | shows here _ ih =>
    cases second with
    | shows _ rest => rw [ih rest]
    | through passive _ => simp [here] at passive
  | through passive _ ih =>
    cases second with
    | shows here _ => simp [here] at passive
    | through _ rest => exact ih rest

theorem append (first : g.Walks m pending ids) (second : g.Walks m more others) :
    g.Walks m (pending ++ more) (ids ++ others) := by
  induction first with
  | done => exact second
  | shows here _ ih => exact .shows here (by simpa using ih)
  | through passive _ ih => exact .through passive (by simpa using ih)

theorem reaches (walks : g.Walks m pending ids) (lasting : m.singleUse = false) {id : NodeId}
    {s : σ} (stage : g.stage? id = some s)
    (downstream : ∃ start ∈ pending, id = start ∨ g.Downstream start id) : id ∈ ids := by
  -- A way downstream starts with one of the steps a message takes here.
  have takes {here target : NodeId} (there : g.Downstream here target) :
      ∃ start ∈ g.takes m here, target = start ∨ g.Downstream start target := by
    induction there with
    | @next target node found leads =>
      have member : target ∈ g.takes m here := by
        simpa [Graph.takes, found, Node.takes_of_lasting lasting] using leads
      exact ⟨target, member, .inl rfl⟩
    | onward _ found leads ih =>
      obtain ⟨start, member, rfl | further⟩ := ih
      · exact ⟨_, member, .inr (.next found leads)⟩
      · exact ⟨_, member, .inr (further.onward found leads)⟩
  have later {here : NodeId} {pending : List NodeId} (other : here ≠ id)
      (downstream : ∃ start ∈ here :: pending, id = start ∨ g.Downstream start id) :
      ∃ start ∈ g.takes m here ++ pending, id = start ∨ g.Downstream start id := by
    obtain ⟨start, member, leads⟩ := downstream
    rcases List.mem_cons.mp member with rfl | member
    · obtain ⟨start, member, leads⟩ := takes (leads.resolve_left (Ne.symm other))
      exact ⟨start, by simp [member], leads⟩
    · exact ⟨start, by simp [member], leads⟩
  -- On the walk: a node that is passed leaves its own successors pending.
  induction walks with
  | done => simp at downstream
  | @shows here _ _ _ _ _ ih =>
    by_cases same : here = id
    · simp [same]
    · exact List.mem_cons_of_mem _ (ih (later same downstream))
  | @through here _ _ passive _ ih =>
    refine ih (later (fun same => ?_) downstream)
    rw [same, stage] at passive
    cases passive

end Walks

def tour (m : Message) (g : Graph σ) : Nat → List NodeId → Option (List NodeId)
  | _, [] => some []
  | 0, _ :: _ => none
  | steps + 1, id :: pending =>
    let later := tour m g steps (g.takes m id ++ pending)
    if (g.stage? id).isSome then later.map (id :: ·) else later

theorem tour_walks {m : Message} {g : Graph σ} {steps : Nat} {pending ids : List NodeId}
    (toured : g.tour m steps pending = some ids) : g.Walks m pending ids := by
  -- On the number of steps, which bounds the walk only in this function and not in the relation.
  induction steps generalizing pending ids with
  | zero =>
    cases pending with
    | nil =>
      cases toured
      exact .done
    | cons id pending => cases toured
  | succ steps ih =>
    cases pending with
    | nil =>
      cases toured
      exact .done
    | cons id pending =>
      rw [tour] at toured
      cases here : g.stage? id with
      | none => exact .through here (ih (by simpa [here] using toured))
      | some s =>
        rw [here] at toured
        obtain ⟨later, walks, rfl⟩ := Option.map_eq_some_iff.mp toured
        exact .shows here (ih walks)

/-- What comes of a message that a stage has noticed: it is opened if it is meant for that stage,
and otherwise nothing happens. -/
inductive Opens (m : Message) (id : NodeId) (node : Node σ) : List (Event σ) → Prop
  | meant (answersTo : node.answersTo m.destination = true) (opener : Node σ)
      (inner : List (Event σ)) : Opens m id node
        (inner ++ [.began id opener (.opening m), .report (.messageOpened node.path m)])
  | passed (other : node.answersTo m.destination = false) : Opens m id node []

/-- The stage at a node is shown a message. It notices it once, and what it does on opening it,
further calls included, is done before anything else happens. -/
structure Shown (m : Message) (id : NodeId) (g after : Graph σ) : Prop where
  met : ∃ depth node ends, g.node? id = some node ∧
    (Traffic.meet (Traffic.perform depth) id node m).start g = some (.ok ends, after)
  events : ∃ (node : Node σ) (lines : List String) (opened : List (Event σ)),
    g.node? id = some node ∧ Opens m id node opened ∧
      after.history = opened ++ (lines.map Event.note).reverse ++
        .began id { node with busy := true } (.notice m) :: g.history

/-- Some stages are shown a message one after another, and nothing happens in between. -/
inductive ShownTo (m : Message) : List NodeId → Graph σ → Graph σ → Prop
  | nobody (g : Graph σ) : ShownTo m [] g g
  | next {id : NodeId} {ids : List NodeId} {g mid after : Graph σ} (first : g.Shown m id mid)
      (rest : ShownTo m ids mid after) : ShownTo m (id :: ids) g after

theorem ShownTo.append {m : Message} {ids others : List NodeId} {g mid after : Graph σ}
    (first : ShownTo m ids g mid) (second : ShownTo m others mid after) :
    ShownTo m (ids ++ others) g after := by
  induction first with
  | nobody => exact second
  | next shown _ ih => exact .next shown (ih second)

end Graph

namespace Run

omit [Stage σ] in
theorem start_bind_ok {run : Run σ α} {next : α → Run σ β} {g after : Graph σ} {b : β}
    (ran : (run >>= next).start g = some (.ok b, after)) :
    ∃ a mid, run.start g = some (.ok a, mid) ∧ (next a).start mid = some (.ok b, after) := by
  rw [start_bind] at ran
  obtain ⟨⟨result, mid⟩, first, rest⟩ := Option.bind_eq_some_iff.mp ran
  cases result with
  | ok a => exact ⟨a, mid, first, rest⟩
  | error e => cases rest

end Run

namespace Traffic

variable {g mid after : Graph σ} {id : NodeId} {node : Node σ} {s : σ} {m : Message}

theorem since_guards (start : Graph σ) :
    Guards (fun _ => False) (fun _ => True) (fun _ _ => True) fun g : Graph σ =>
      start.history <:+ g.history ∧ (start.shuttingDown = true → g.shuttingDown = true) :=
  Unowned.guards
    { changed := fun holds _ => holds
      state := fun holds _ => holds
      programs := fun _ _ _ => Stage.obeys_any (fun _ => trivial) (fun _ => trivial)
        (fun _ => trivial) _ _
      logged := fun _ holds => ⟨holds.1.trans (List.suffix_cons _ _), holds.2⟩
      store := fun _ holds => holds
      requested := fun holds => ⟨holds.1, fun _ => rfl⟩
      environment := fun _ holds => holds }

omit [Stage σ] in
theorem awake_of {run : Run σ α} {result : Except EngineError α}
    (keeps : Run.Keeps (fun g : Graph σ => mid.history <:+ g.history ∧
      (mid.shuttingDown = true → g.shuttingDown = true)) run)
    (ran : run.start mid = some (result, after)) (running : after.shuttingDown = false) :
    mid.shuttingDown = false := by
  have since := (keeps mid ⟨List.suffix_refl _, fun began => began⟩).of_start ran
  by_contra began
  simp [since.2 (by simpa using began)] at running

theorem openMessage_opens (depth : Nat) (found : g.node? id = some node) {shown : Node σ}
    {kept : Bool}
    (ran : (openMessage (perform depth) id shown m).start g = some (.ok kept, after)) :
    kept = (shown.answersTo m.destination && m.singleUse) ∧
      ∃ opened, Graph.Opens m id shown opened ∧ after.history = opened ++ g.history := by
  have guards (start : Graph σ) := since_guards start
  unfold openMessage at ran
  split at ran
  next answersTo =>
    obtain ⟨_, reported, first, ran⟩ := Run.start_bind_ok ran
    obtain ⟨_, opening, began, ran⟩ := Run.start_bind_ok ran
    cases first
    have there : (g.remember (.report (.messageOpened shown.path m))).node? id = some node := found
    cases (Run.atNode_start there _).symm.trans began
    -- What is done on opening it comes on top of the beginning.
    let opening := (g.remember (.report (.messageOpened shown.path m))).remember
      (.began id node (.opening m))
    have serves (call : Call) (_ : True) := (guards opening).perform depth call trivial
    have later : opening.history <:+ after.history ∧ kept = m.singleUse := by
      dsimp only at ran
      split at ran
      · obtain ⟨_, last, opens, ended⟩ := Run.start_bind_ok ran
        cases ended
        exact ⟨(((guards opening).resetParameter serves trivial not_false m opening
          ⟨List.suffix_refl _, fun began => began⟩).of_start opens).1, rfl⟩
      · obtain ⟨_, last, opens, ended⟩ := Run.start_bind_ok ran
        cases ended
        exact ⟨(((guards opening).runStage serves trivial not_false
          (fun _ _ _ obeys => obeys.onMessage m) opening
            ⟨List.suffix_refl _, fun began => began⟩).of_start opens).1, rfl⟩
    obtain ⟨⟨inner, same⟩, rfl⟩ := later
    exact ⟨by simp [answersTo], _, .meant answersTo node inner, by simp [← same, opening, Graph.remember]⟩
  next other =>
    cases ran
    exact ⟨by simp [other], [], .passed (by simpa using other), rfl⟩

theorem meet_shown {depth : Nat} {ends : Bool} (found : g.node? id = some node)
    (stage : node.kind = .stage s)
    (ran : (meet (perform depth) id node m).start g = some (.ok ends, after)) :
    g.Shown m id after ∧
      ends = (node.answersTo m.destination && m.singleUse || after.feedsBack id) := by
  have held := ran
  rw [meet, Run.holding_start] at held
  obtain ⟨⟨result, last⟩, body, same⟩ := Option.map_eq_some_iff.mp held
  cases same
  obtain ⟨lines, noticed⟩ := notice_notes (Graph.node?_mark found true) stage m
  obtain ⟨_, mid, notices, body⟩ := Run.start_bind_ok body
  cases noticed.symm.trans notices
  obtain ⟨kept, opened, opens, body⟩ := Run.start_bind_ok body
  have ended : some (Except.ok (kept || opened.feedsBack id), opened) =
      some ((Except.ok ends : Except EngineError Bool), last) := body
  cases ended
  have feeds : (last.mark id false).feedsBack id = last.feedsBack id := by
    unfold Graph.feedsBack Graph.mark
    rw [Graph.node?_updateNode, if_pos rfl]
    cases last.node? id <;> rfl
  have shown : ((g.mark id true).updateNode id fun node =>
      { node with kind := .stage (Stage.notice m s).1 }).node? id =
        some { node with busy := true, kind := .stage (Stage.notice m s).1 } :=
    Graph.node?_updateNode_self (Graph.node?_mark found _) _
  obtain ⟨rfl, events, opens, history⟩ := openMessage_opens depth (by exact shown) opens
  refine ⟨⟨⟨depth, node, _, found, ran⟩, node, lines, events, found, opens, ?_⟩, by rw [feeds]⟩
  simpa [Graph.mark, Graph.updateNode] using history

end Traffic

namespace Graph

variable {before mid after : Graph σ} {id : NodeId} {m : Message}

theorem Carries.stage? [LawfulFeeders σ] (carries : before.Carries mid) (id : NodeId) :
    (mid.stage? id).isSome = (before.stage? id).isSome := by
  have fixed := carries.fixed id
  unfold Graph.stage?
  cases was : before.node? id with
  | none =>
    rw [was] at fixed
    rw [Option.map_eq_none_iff.mp fixed]
  | some node =>
    rw [was] at fixed
    obtain ⟨last, there, same⟩ := Option.map_eq_some_iff.mp fixed
    have shape := Node.shape_of_fixed same
    rw [there]
    cases kind : node.kind <;> cases other : last.kind <;> rw [kind, other] at shape <;>
      cases shape <;> simp [Node.state?, kind, other]

theorem Carries.takes [LawfulFeeders σ] (carries : before.Carries mid) (id : NodeId) :
    mid.takes m id = before.takes m id := by
  unfold Graph.takes
  cases found : mid.node? id with
  | none =>
    have fixed := carries.fixed id
    rw [found] at fixed
    rw [Option.map_eq_none_iff.mp fixed.symm]
  | some node =>
    obtain ⟨first, was, fixed, -⟩ := carries.node found
    have feeds := carries.feeders id
    unfold Graph.feedsBack at feeds
    rw [found, was] at feeds
    rw [was]
    exact Node.takes_of_fixed fixed feeds m

structure Tours (m : Message) (before : Graph σ) (pending : List NodeId) (mid after : Graph σ) :
    Prop where
  meets : Meets m before after
  walks : ∃ ids, before.Walks m pending ids ∧ ShownTo m ids mid after

namespace Tours

theorem none (meets : Meets m before mid) : Tours m before [] mid mid :=
  ⟨meets, [], .done, .nobody mid⟩

theorem append {pending more : List NodeId} {last : Graph σ}
    (first : Tours m before pending mid after) (second : Tours m before more after last) :
    Tours m before (pending ++ more) mid last := by
  obtain ⟨-, ids, walks, shown⟩ := first
  obtain ⟨meets, others, further, later⟩ := second
  exact ⟨meets, ids ++ others, walks.append further, shown.append later⟩

theorem through (passive : before.stage? id = Option.none)
    (tours : Tours m before (before.takes m id) mid after) : Tours m before [id] mid after := by
  obtain ⟨meets, ids, walks, shown⟩ := tours
  exact ⟨meets, ids, .through passive (by simpa using walks), shown⟩

theorem shows {next : Graph σ} (here : (before.stage? id).isSome) (shown : mid.Shown m id next)
    (tours : Tours m before (before.takes m id) next after) : Tours m before [id] mid after := by
  obtain ⟨s, here⟩ := Option.isSome_iff_exists.mp here
  obtain ⟨meets, ids, walks, later⟩ := tours
  exact ⟨meets, id :: ids, .shows here (by simpa using walks), .next shown later⟩

end Tours

end Graph

namespace Traffic

open Sluice.Graph (Meets Tours)

variable [LawfulFeeders σ] {before mid after : Graph σ} {id : NodeId} {m : Message} {depth : Nat}

section

variable (takes : ∀ {mid after : Graph σ} {id : NodeId}, Meets m before mid →
  (perform depth (.deliver id (.message m))).start mid = some (.ok (), after) →
    after.shuttingDown = false → Tours m before [id] mid after)
include takes

omit [LawfulFeeders σ] in
theorem onward_tours {target : Option NodeId} (meets : Meets m before mid)
    (ran : (onward (perform depth) target (.deliver · (.message m))).start mid =
      some (.ok (), after)) (running : after.shuttingDown = false) :
    Tours m before target.toList mid after := by
  cases target with
  | none =>
    cases ran
    exact .none meets
  | some next => exact takes meets ran running

theorem pass_tours (orderly : before.Orderly) (meets : Meets m before mid) (opened : mid.Open id)
    {node : Node σ} {s : σ} (found : mid.node? id = some node) (stage : node.kind = .stage s)
    (ran : (pass (perform depth) id node m).start mid = some (.ok (), after))
    (running : after.shuttingDown = false) : Tours m before [id] mid after := by
  rw [pass_eq] at ran
  obtain ⟨ends, next, met, ran⟩ := Run.start_bind_ok ran
  obtain ⟨shown, ended⟩ := meet_shown found stage met
  have last := meets.shown opened found met
  have here : (before.stage? id).isSome := by
    rw [← (meets.carries orderly).stage?]
    simp [Graph.stage?, found, Node.state?, stage]
  -- Whether the stage feeds back is the same before and after it has opened the message.
  have feeds : next.feedsBack id = (node.state?).any Stage.feedsBack := by
    rw [(last.carries orderly).feeders, ← (meets.carries orderly).feeders, Graph.feedsBack, found]
    rfl
  have goes : before.takes m id = if ends then [] else node.main.toList := by
    rw [← (meets.carries orderly).takes, Graph.takes, found, ended, feeds]
    exact Node.takes_stage stage m
  refine .shows here shown ?_
  rw [goes]
  cases ends with
  | true =>
    cases ran
    exact .none last
  | false => exact onward_tours takes last ran running

theorem deliverToStage_tours (orderly : before.Orderly) (meets : Meets m before mid)
    {node : Node σ} {s : σ} (found : mid.node? id = some node) (stage : node.kind = .stage s)
    (ran : (deliverToStage (perform depth) id node (.message m)).start mid = some (.ok (), after))
    (running : after.shuttingDown = false) : Tours m before [id] mid after := by
  have carries := meets.carries orderly
  unfold deliverToStage at ran
  split at ran
  · cases ran
  next ongoing =>
    split at ran
    · -- A stage that is busy is passed over in a shutdown only.
      have requested : (if mid.shuttingDown then Run.report (.reentrancySuppressed node.path)
          else throw (.reentrancy node.path) : Run σ Unit).start mid = some (.ok (), after) := ran
      split at requested
      next began =>
        cases requested
        simp [began] at running
      next => cases requested
    next idle =>
      have opened : mid.Open id := ⟨node, s, found, stage, by simpa using idle, ongoing⟩
      obtain ⟨result, last, passes, settles⟩ := Run.start_bind_ok ran
      obtain ⟨⟨passed, between⟩, passes, ended⟩ := Option.bind_eq_some_iff.mp passes
      cases ended
      have since := since_guards last
      have awake : last.shuttingDown = false := awake_of (since.settle
        (fun call _ => since.perform depth call trivial) trivial result) settles running
      -- No close has been put off while nobody asked for shutdown.
      have later : last.Orderly := ((lifecycle_lawful.pass (lifecycle_serves fun call orderly
        fits => perform_orderly depth call orderly fits) carries.orderly trivial opened found
          m).of_start passes).1
      have kept : (last.node? id).any Node.closeDeferred = false := by
        cases there : last.node? id with
        | none => rfl
        | some node => exact ((later.nodes id node there).waking awake).2
      cases (settle_start kept).symm.trans settles
      exact pass_tours takes orderly meets opened found stage passes running

theorem deliver_tours (orderly : before.Orderly) (meets : Meets m before mid)
    (ran : (deliver (perform depth) id (.message m)).start mid = some (.ok (), after))
    (running : after.shuttingDown = false) : Tours m before [id] mid after := by
  have carries := meets.carries orderly
  cases found : mid.node? id with
  | none =>
    cases (Run.atNode_start_none found _).symm.trans ran
    refine .through (Option.not_isSome_iff_eq_none.mp ?_) ?_
    · rw [← carries.stage?]
      simp [Graph.stage?, found]
    · rw [← carries.takes, Graph.takes, found]
      exact .none meets
  | some node =>
    replace ran := (Run.atNode_start found _).symm.trans ran
    have passive (kind : node.state? = none) : before.stage? id = none := by
      refine Option.not_isSome_iff_eq_none.mp ?_
      rw [← carries.stage?]
      simp [Graph.stage?, found, kind]
    -- What the node takes was read off the graph before; calls in between move no links.
    have goes : before.takes m id = node.takes m := by
      rw [← carries.takes, Graph.takes, found]
      rfl
    cases kind : node.kind with
    | subGraph entry exit =>
      rw [kind] at ran
      refine .through (passive (by simp [Node.state?, kind])) ?_
      simp only [goes, Node.takes, kind]
      exact onward_tours takes meets ran running
    | fanOut =>
      rw [kind] at ran
      refine .through (passive (by simp [Node.state?, kind])) ?_
      simp only [goes, Node.takes, kind]
      obtain ⟨_, between, first, second⟩ := Run.start_bind_ok ran
      -- The branch comes first, and only if it ended well does the message go on along the main
      -- link.
      have since := since_guards between
      have guarded : Run.Keeps _ (onward (perform depth) node.main fun id =>
          .deliver id (.message m)) :=
        Guards.onward (fun call _ => since.perform depth call trivial) (fun _ => rfl)
          fun _ _ => trivial
      have awake : between.shuttingDown = false := awake_of guarded second running
      have left := onward_tours takes meets first awake
      exact left.append (onward_tours takes left.meets second running)
    | stage s =>
      rw [kind] at ran
      exact deliverToStage_tours takes orderly meets found kind ran running

end

theorem perform_tours (orderly : before.Orderly) (depth : Nat) (meets : Meets m before mid)
    (ran : (perform depth (.deliver id (.message m))).start mid = some (.ok (), after))
    (running : after.shuttingDown = false) : Tours m before [id] mid after := by
  induction depth generalizing mid after id with
  | zero => cases ran
  | succ depth ih => exact deliver_tours ih orderly meets ran running

end Traffic

namespace Graph

variable [LawfulFeeders σ] {before after : Graph σ} {m : Message} {depth : Nat}

omit [LawfulFeeders σ] in
theorem Reachable.downstream {g : Graph σ} {id : NodeId} (reachable : g.Reachable id) :
    id = g.root ∨ g.Downstream g.root id := by
  induction reachable with
  | root => exact .inl rfl
  | next _ found leads ih =>
    rcases ih with rfl | downstream
    · exact .inr (.next found leads)
    · exact .inr (downstream.onward found leads)

/-- A message that gets through goes from the root on, the branch first, and there is one such way.
The stages on it are shown the message one after another and nothing happens in between. It is
opened by those that it is for, and unless it is for one only it gets to every stage. -/
theorem message_walks_preorder {b : Blueprint σ} {g : Graph σ} (built : b.build.1 = .ok g)
    (leads : g.Leads before) (ran : (sendMessage depth m).start before = some (.ok (), after))
    (running : after.shuttingDown = false) :
    ∃ ids, (∀ others, before.Walks m [before.root] others ↔ others = ids) ∧
      ShownTo m ids before after ∧
      (m.singleUse = false → ∀ id s, before.Reachable id → before.stage? id = some s → id ∈ ids) := by
  have ⟨resting, _⟩ := leads.rested (b.build_resting built)
  obtain ⟨-, ids, walks, shown⟩ := Traffic.perform_tours resting.orderly depth .sent ran running
  refine ⟨ids, fun others => ⟨fun other => other.unique walks, ?_⟩, shown, ?_⟩
  · rintro rfl
    exact walks
  · intro lasting id s reachable stage
    exact walks.reaches lasting stage ⟨before.root, by simp, reachable.downstream⟩

def lapping : Blueprint Stock where
  pipeline := ⟨"line", "", [], false,
    "tank_queue inner branch_clone (tank_feed tank_queue) sink", []⟩
  registry := { Stock.registry with
    graphs := [("inner", ⟨"inner", "", [], false, "wrap pass_through", []⟩)] }
  params := []
  environment := .empty

theorem lapping_walks_preorder : ∃ g after, lapping.build.1 = .ok g ∧
    (sendMessage 12 rewrap).start g = some (.ok (), after) ∧ after.shuttingDown = false ∧
      ShownTo rewrap [1, 7, 8, 3, 5, 6] g after := by
  have runs : lapping.passes (fun g => (sendMessage 12 rewrap).succeeds g fun _ after =>
      !after.shuttingDown && g.tour rewrap 12 [g.root] == some [1, 7, 8, 3, 5, 6]) = true := by
    decide +kernel
  obtain ⟨g, built, runs⟩ := Blueprint.of_passes runs
  obtain ⟨_, after, ran, runs⟩ := Run.of_succeeds runs
  simp only [Bool.and_eq_true, Bool.not_eq_true', beq_iff_eq] at runs
  obtain ⟨running, tour⟩ := runs
  obtain ⟨ids, walks, shown, -⟩ := message_walks_preorder built .refl ran running
  obtain rfl := (walks _).mp (tour_walks tour)
  exact ⟨g, after, built, ran, running, shown⟩

end Graph

end Sluice
