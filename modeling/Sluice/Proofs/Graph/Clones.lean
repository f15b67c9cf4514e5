import Sluice.Proofs.Assembly.RouteEdges
import Sluice.Proofs.Assembly.Trials
import Sluice.Proofs.Graph.Custody
import Sluice.Proofs.Graph.EndlessCalls
import Sluice.Proofs.Stage.Scripts

set_option autoImplicit false

namespace Sluice

namespace Store

variable {s : Store} {h k : Handle}

theorem size_write (s : Store) (h : Handle) (p : Parcel) : (s.write h p).cells.size = s.cells.size :=
  Array.size_setIfInBounds

theorem size_add (s : Store) (p : Parcel) : (s.add p).2.cells.size = s.cells.size + 1 :=
  Array.size_push p

end Store

namespace Custody

def whole : Custody where
  scope _ := True
  may s h := h < s.cells.size
  good _ := True
  write p lt := (Store.size_write _ _ p).symm ▸ lt
  wrote _ _ _ := trivial
  add p lt := Nat.lt_of_lt_of_eq (Nat.lt_succ_of_lt lt) (Store.size_add _ p).symm
  fresh p _ := Nat.lt_of_lt_of_eq (Nat.lt_succ_self _) (Store.size_add _ p).symm
  added _ _ := trivial

def sparing (region : NodeId → Prop) (h : Handle) (p : Parcel) : Custody where
  scope := region
  may _ k := k ≠ h
  good s := h < s.cells.size ∧ s.read h = p
  write _ other := other
  wrote q good other :=
    ⟨(Store.size_write _ _ q).symm ▸ good.1, (Store.read_write_of_ne _ q other).trans good.2⟩
  add _ other := other
  fresh _ good := Nat.ne_of_gt good.1
  added q good := ⟨Nat.lt_of_lt_of_eq (Nat.lt_succ_of_lt good.1) (Store.size_add _ q).symm,
    (Store.read_add_of_lt _ q good.1).trans good.2⟩

end Custody

namespace Blueprint

theorem configureNode_handles {before node : Node Stock} (new : before.New)
    (done : configureNode before = .ok node) (h : Handle) : h ∉ node.tank.handles := by
  intro held
  have none : h ∉ before.tank.handles := by
    rw [new.2]
    exact nofun
  rcases configureNode_cases done with ⟨s, fitted, -, ran, rfl⟩ | ⟨-, rfl⟩
  · have kept := Stock.configure_handles before.params s before.tank (h := h)
    rw [show (Stock.configure before.params).run ⟨s, before.tank⟩ = (.ok (), fitted) from ran] at kept
    exact none (kept held)
  · exact none held

theorem build_handles {b : Blueprint Stock} {g : Graph Stock} (built : b.build.1 = .ok g) {id : NodeId}
    {node : Node Stock} (found : g.node? id = some node) (h : Handle) : h ∉ node.tank.handles := by
  obtain ⟨nodes, history, rfl, -, configured⟩ := build_configured built
  rcases node?_make_cases found with found | ⟨-, rfl⟩
  · obtain ⟨before, new, done⟩ := configured node (Array.mem_of_getElem? found)
    exact configureNode_handles new done h
  · exact nofun

theorem build_whole {b : Blueprint Stock} {g : Graph Stock} (built : b.build.1 = .ok g) :
    Custody.whole.Holds g :=
  ⟨trivial, fun _ found held => absurd held (build_handles built found _), fun _ _ _ => trivial⟩

end Blueprint

def Stock.isClone : Stock → Bool
  | .branchClone => true
  | _ => false

def Event.text? (id : NodeId) : Event Stock → Option String
  | .began other _ (.accept _ p) => if other = id then some p.text else none
  | _ => none

def Node.seat (node : Node Stock) : NodeKind Stock × Option NodeId × Option NodeId × Tank :=
  (node.kind, node.main, node.branch, node.tank)

namespace Graph

structure Seated (g after : Graph Stock) : Prop where
  store : after.store = g.store
  seats : ∀ id, (after.node? id).map Node.seat = (g.node? id).map Node.seat

def sent (g : Graph Stock) (stage next : Node Stock) (h : Handle) (edge : Edge) : Graph Stock :=
  { g with store := g.store.write h { g.store.read h with fork := edge, origin := some stage.name } }.remember
    (.report (.parcelForwarded stage.path next.path edge))

def routed (g : Graph Stock) (fan : Node Stock) (h : Handle) : Graph Stock :=
  { g with store := g.store.write h { g.store.read h with fork := .main } }.remember
    (.report (.fanOutRouted fan.path (g.store.read h).fork))

inductive Reaches (g : Graph Stock) (source : NodeId) : NodeId → Prop
  | here : g.Reaches source source
  | next {id target : NodeId} {node : Node Stock} (before : g.Reaches source id)
      (found : g.node? id = some node) (leads : node.Leads target) : g.Reaches source target

def fan? (g : Graph Stock) (id : NodeId) : Option (Node Stock) :=
  ((g.node? id).bind Node.main).bind g.node?

def Clear (g : Graph Stock) (id : NodeId) (h : Handle) : Prop :=
  ∀ fan branch, g.fan? id = some fan → fan.branch = some branch →
    ∀ other node, g.Reaches branch other → g.node? other = some node → h ∉ node.tank.handles

variable {g mid after : Graph Stock} {id : NodeId} {node : Node Stock}

namespace Seated

theorem refl (g : Graph Stock) : g.Seated g := ⟨rfl, fun _ => rfl⟩

theorem update (seated : g.Seated mid) {f : Node Stock → Node Stock}
    (same : ∀ node, mid.node? id = some node → (f node).seat = node.seat) :
    g.Seated (mid.updateNode id f) :=
  ⟨seated.store, fun other => (map_updateNode same other).trans (seated.seats other)⟩

theorem remember (seated : g.Seated mid) (event : Event Stock) : g.Seated (mid.remember event) :=
  ⟨seated.store, seated.seats⟩

theorem symm (seated : g.Seated after) : after.Seated g :=
  ⟨seated.store.symm, fun id => (seated.seats id).symm⟩

end Seated

theorem seat_before (seats : ∀ id, (after.node? id).map Node.seat = (g.node? id).map Node.seat)
    (found : after.node? id = some node) :
    ∃ before, g.node? id = some before ∧ before.seat = node.seat := by
  have same := seats id
  rw [found] at same
  exact Option.map_eq_some_iff.mp same.symm

theorem Reaches.of_seats (seats : ∀ id, (after.node? id).map Node.seat = (g.node? id).map Node.seat)
    {source : NodeId} (reaches : after.Reaches source id) : g.Reaches source id := by
  induction reaches with
  | here => exact .here
  | next _ found leads ih =>
    obtain ⟨before, was, same⟩ := seat_before seats found
    obtain ⟨kind, main, branch, -⟩ := Prod.mk.inj same |>.imp_right fun rest =>
      (Prod.mk.inj rest).imp_right Prod.mk.inj
    exact ih.next was (leads.of_around ⟨kind.symm, main.symm, branch.symm⟩)

theorem Clear.of_seats {h : Handle} (clear : g.Clear id h)
    (seats : ∀ id, (after.node? id).map Node.seat = (g.node? id).map Node.seat) : after.Clear id h := by
  intro fan branch follows leads other node reaches there held
  obtain ⟨fork, main, follows⟩ := Option.bind_eq_some_iff.mp follows
  obtain ⟨stage, found, main⟩ := Option.bind_eq_some_iff.mp main
  obtain ⟨stage', found', same⟩ := seat_before seats found
  obtain ⟨fan', follows', same'⟩ := seat_before seats follows
  obtain ⟨node', there', same''⟩ := seat_before seats there
  simp only [Node.seat, Prod.mk.injEq] at same same' same''
  have fans : g.fan? id = some fan' := by
    simp only [fan?, found', Option.bind_some, same.2.1, main, follows']
  refine clear fan' branch fans (same'.2.2.1.trans leads) other node' (reaches.of_seats seats) there' ?_
  rwa [same''.2.2.2]

def Clones (g : Graph Stock) (id : NodeId) : Prop :=
  ∃ node, g.node? id = some node ∧ node.kind = .stage .branchClone

theorem Clones.seated (clones : g.Clones id) (seated : g.Seated after) : after.Clones id := by
  obtain ⟨node, found, stage⟩ := clones
  obtain ⟨last, there, same⟩ := seat_before seated.symm.seats found
  exact ⟨last, there, (congrArg Prod.fst same).trans stage⟩

end Graph

namespace Traffic

def enter (again : Call → Run Stock Unit) (id : NodeId) (h : Handle) : Run Stock Unit := do
  refresh again id
  runStage again id fun here _ s => Stage.beforeAccept here s h
  Run.began id (.accept h (← Run.look h))

def cloneOff (again : Call → Run Stock Unit) (id : NodeId) (h : Handle) : Run Stock Unit := do
  enter again id h
  let copy ← Run.add (← Run.look h)
  forward again id copy .branch

variable {again : Call → Run Stock Unit} {g after : Graph Stock} {id : NodeId} {h : Handle}

theorem runStage_idle {program : Here → Node Stock → Stock → Program Stock Unit}
    (skips : ∀ here node s, program here node s = Program.skip) (g : Graph Stock) :
    (runStage again id program).start g = some (.ok (), g) := by
  unfold runStage
  cases found : g.node? id with
  | none => exact Run.atNode_start_none found _
  | some node =>
    rw [Run.atNode_start found]
    split
    · rw [skips]
      rfl
    · rfl

theorem refreshEach_seated (path : String) (pairs : List (String × String)) (changed : List String) :
    Run.Keeps g.Seated (refreshEach id path pairs changed) := by
  induction pairs generalizing changed with
  | nil => exact .pure _
  | cons pair rest ih =>
    refine .bind .graph fun _ => ?_
    dsimp only
    split
    · exact .throw _
    · refine .bind (.update fun _ seated => seated.update fun _ _ => rfl) fun _ => ?_
      split
      · exact .bind (.update fun _ seated => seated.remember _) fun _ => ih _
      · exact ih _

theorem reconfigure_seated (clones : g.Clones id) (changed : List String) :
    Run.Keeps g.Seated (reconfigure again id changed) := by
  intro mid seated
  obtain ⟨node, found, stage⟩ := clones.seated seated
  unfold Run.Ends reconfigure
  rw [runStage_start found stage]
  change Run.Ends (do
    let t ← Run.tankOf id
    Run.setState id .branchClone
    Run.setTank id t
    pure () : Run Stock Unit) mid fun _ after => g.Seated after
  have tank : Run.Ends (Run.tankOf id) mid fun result after => result = .ok node.tank ∧ mid = after := by
    have there : ((mid.node? id).map Node.tank).getD .empty = node.tank := by
      rw [found]
      rfl
    exact ⟨congrArg Except.ok there, rfl⟩
  rw [Run.ends_bind]
  refine tank.mono ?_
  rintro _ _ ⟨rfl, rfl⟩
  have kept : g.Seated ((mid.updateNode id fun node => { node with kind := .stage .branchClone }).updateNode
      id fun last => { last with tank := node.tank }) := by
    refine (seated.update fun last there => ?_).update fun last there => ?_
    · obtain rfl := Option.some.inj (found.symm.trans there)
      unfold Node.seat
      rw [stage]
    · rw [Graph.node?_updateNode, if_pos rfl, found] at there
      cases there
      rfl
  exact kept

theorem enter_seated (clones : g.Clones id) : Run.Keeps g.Seated (enter again id h) := by
  have began (hook : Hook) : Run.Keeps g.Seated (Run.began id hook) :=
    .atNode fun _ => .update fun _ seated => seated.remember _
  have refreshed : Run.Keeps g.Seated (refresh again id) := by
    refine .bind .graph fun _ => .bind (began _) fun _ => .atNode fun node => ?_
    refine .bind (refreshEach_seated node.path _ _) fun changed => ?_
    split
    · exact .pure _
    · exact reconfigure_seated clones changed
  refine .bind refreshed fun _ => .bind (fun mid seated => ?_) fun _ => .bind (keeps_look h) fun _ => began _
  have skipped : (runStage again id fun here _ s => Stage.beforeAccept here s h).start mid =
      some (.ok (), mid) := runStage_idle (fun _ _ _ => rfl) mid
  unfold Run.Ends
  rw [skipped]
  exact seated

theorem accept_cloned (clones : g.Clones id) (cloned : (cloneOff again id h).start g = some (.ok (), after)) :
    (accept again id h).start g = (forward again id h .main).start after := by
  -- Up to the copy on the branch the two runs are the same calls, so they agree wherever the copy
  -- got through.
  have opened : accept again id h = (do
      enter again id h
      runStage again id fun here _ s => Stage.accept here s h
      runStage again id fun here _ s => Stage.afterAccept here s : Run Stock Unit) := by
    unfold accept enter
    simp only [bind_assoc]
  rw [cloneOff, Run.start_bind] at cloned
  rw [opened, Run.start_bind]
  cases entered : (enter again id h).start g with
  | none =>
    rw [entered] at cloned
    cases cloned
  | some ended =>
    obtain ⟨result, mid⟩ := ended
    rw [entered] at cloned
    cases result with
    | error e => cases cloned
    | ok _ =>
      have seated := (enter_seated clones g (.refl g)).of_start entered
      obtain ⟨node, found, stage⟩ := clones.seated seated
      rw [Option.bind_some] at cloned ⊢
      dsimp only at cloned ⊢
      have accepts : (runStage again id fun here _ s => Stage.accept here s h).start mid = (do
          (do
            let copy ← Run.add (← Run.look h)
            forward again id copy .branch)
          forward again id h .main : Run Stock Unit).start mid := by
        rw [runStage_start found stage]
        change (do
          let copy ← (do Run.add (← Run.look h))
          forward again id copy .branch
          forward again id h .main
          pure () : Run Stock Unit).start mid = _
        simp only [bind_assoc, bind_pure_unit]
      rw [Run.start_bind, accepts, Run.start_bind, cloned, Option.bind_some]
      dsimp only
      cases (forward again id h .main).start after with
      | none => rfl
      | some ended =>
        obtain ⟨result, last⟩ := ended
        cases result with
        | error e => rfl
        | ok _ => exact runStage_idle (fun _ _ _ => rfl) last

theorem forward_main {first : NodeId} {clone fan : Node Stock} (found : g.node? id = some clone)
    (main : clone.main = some first) (follows : g.node? first = some fan) :
    (forward again id h .main).start g =
      (again (.deliver first (.parcel h))).start (g.sent clone fan h .main) := by
  have looked : (Run.graph : Run Stock (Graph Stock)).start g = some (.ok g, g) := rfl
  unfold forward
  rw [Run.atNode_start found, Run.start_bind, looked, Option.bind_some]
  dsimp only
  rw [main, Option.bind_some, follows]
  rfl

theorem fanOut_main {first : NodeId} {fan : Node Stock} (main : fan.main = some first)
    (fork : (g.store.read h).fork = .main) : (fanOut again fan (.parcel h)).start g =
      (again (.deliver first (.parcel h))).start (g.routed fan h) := by
  have looked : (Run.look h : Run Stock Parcel).start g = some (.ok (g.store.read h), g) := rfl
  have edited : (Run.edit h { g.store.read h with fork := .main } : Run Stock Unit).start g =
      some (.ok (), { g with store := g.store.write h { g.store.read h with fork := .main } }) := rfl
  have reported (g : Graph Stock) (r : Report) :
      (Run.report r : Run Stock Unit).start g = some (.ok (), g.remember (.report r)) := rfl
  unfold fanOut
  rw [Run.start_bind, looked, Option.bind_some]
  dsimp only
  rw [Run.start_bind, edited, Option.bind_some]
  dsimp only
  rw [Run.start_bind, reported, Option.bind_some, fork, main, Graph.routed, fork]
  rfl

section

variable {p : Parcel} {copy : Handle}

theorem fanOut_spares {fan : Node Stock} {region : NodeId → Prop}
    (holds : (Custody.sparing region h p).Holds g)
    (other : copy ≠ h) (forked : (g.store.read copy).fork = .branch)
    (leads : ∀ branch, fan.branch = some branch → region branch) (depth : Nat) :
    (fanOut (perform depth) fan (.parcel copy)).Ends g fun result after =>
      result = .ok () → h < after.store.cells.size ∧ after.store.read h = p := by
  have edited := (holds.edit other { g.store.read copy with fork := .main }).holds
  have reported := (edited.remember (.report (.fanOutRouted fan.path (g.store.read copy).fork))).holds
  unfold fanOut
  simp only [Run.ends_bind, Run.look, Run.edit, Run.report, Run.remember, Run.ends_graph, Run.ends_update,
    Run.ends_pure]
  rw [forked] at reported ⊢
  cases branch : fan.branch with
  | none => rintro ⟨⟩
  | some target =>
    have makes (g : Graph Stock) : (Custody.sparing region h p).Makes (.deliver target (.parcel copy)) g :=
      ⟨leads target branch, other⟩
    exact (Custody.serves_perform depth reported (makes _)).2.mono fun _ _ meets _ => meets.1.holds.good

theorem forward_spares (clear : g.Clear id h) (whole : h < g.store.cells.size) (other : copy ≠ h)
    (there : copy < g.store.cells.size) (depth : Nat) :
    (forward (perform depth) id copy .branch).Ends g fun result after =>
      result = .ok () → h < after.store.cells.size ∧ after.store.read h = g.store.read h := by
  unfold forward
  rw [Run.ends_atNode]
  refine ⟨fun stage found => ?_, fun _ _ => ⟨whole, rfl⟩⟩
  rw [Run.ends_bind, Run.ends_graph]
  dsimp only
  cases leads : stage.main.bind fun target => (g.node? target).map fun next => (target, next) with
  | none => exact nofun
  | some entry =>
    obtain ⟨target, fan⟩ := entry
    obtain ⟨target', main, next⟩ := Option.bind_eq_some_iff.mp leads
    obtain ⟨fan', follows, same⟩ := Option.map_eq_some_iff.mp next
    cases same
    split
    · exact nofun
    next forks =>
      have forks : fan.isFanOut = true := by simpa using forks
      -- What the copy can reach is the region below the branch, which never holds the original.
      let region (last : NodeId) : Prop := ∃ branch, fan.branch = some branch ∧ g.Reaches branch last
      have holds : (Custody.sparing region h (g.store.read h)).Holds g := by
        refine ⟨⟨whole, rfl⟩, ?_, ?_⟩
        · rintro last node k ⟨branch, leads, reaches⟩ there held rfl
          have fans : g.fan? id = some fan := by
            simp only [Graph.fan?, found, Option.bind_some, main, follows]
          exact clear fan branch fans leads last node reaches there held
        · rintro last node next ⟨branch, leads, reaches⟩ there leading
          exact ⟨branch, leads, reaches.next there leading⟩
      let p : Parcel := { g.store.read copy with fork := .branch, origin := some stage.name }
      have sent := (holds.edit other p).holds.remember
        (.report (.parcelForwarded stage.path fan.path .branch))
      cases depth with
      | zero => trivial
      | succ depth =>
        change (deliver (perform depth) target (.parcel copy)).Ends ({ g with
          store := g.store.write copy p }.remember (.report (.parcelForwarded stage.path fan.path .branch))) _
        refine Run.Ends.at follows ?_
        cases kind : fan.kind with
        | fanOut =>
          refine fanOut_spares sent.holds other ?_ (fun branch leads => ⟨branch, leads, .here⟩) depth
          exact congrArg Parcel.fork (Store.read_write_self _ p there)
        | _ =>
          rw [Node.isFanOut, kind] at forks
          cases forks

theorem copy_ends {next : Handle → Run Stock Unit} {post : Except EngineError Unit → Graph Stock → Prop} :
    (do
      let copy ← Run.add (← Run.look h)
      next copy : Run Stock Unit).Ends g post ↔ (next (g.store.add (g.store.read h)).1).Ends
        { g with store := (g.store.add (g.store.read h)).2 } post := Iff.rfl

/-- A clone leaves the parcel as it is, whatever the branch does with its copy, unless a tank that the branch
gets to holds the parcel itself. -/
theorem cloneOff_spares (clones : g.Clones id) (clear : g.Clear id h) (whole : h < g.store.cells.size)
    (depth : Nat) : (cloneOff (perform depth) id h).Ends g fun result after =>
      result = .ok () → h < after.store.cells.size ∧ after.store.read h = g.store.read h := by
  unfold cloneOff
  rw [Run.ends_bind]
  refine (enter_seated clones g (.refl g)).mono fun result entered seated => ?_
  cases result with
  | error e => exact nofun
  | ok _ =>
    have size : h < entered.store.cells.size := seated.store ▸ whole
    let copied : Graph Stock := { entered with store := (entered.store.add (entered.store.read h)).2 }
    refine copy_ends.mpr ?_
    have apart : copied.Clear id h := clear.of_seats seated.seats
    have grown := Store.size_add entered.store (entered.store.read h)
    refine (forward_spares apart (Nat.lt_of_lt_of_eq (Nat.lt_succ_of_lt size) grown.symm) (Nat.ne_of_gt size)
      (Nat.lt_of_lt_of_eq (Nat.lt_succ_self _) grown.symm) depth).mono fun _ _ spares done => ?_
    obtain ⟨whole, same⟩ := spares done
    refine ⟨whole, same.trans ?_⟩
    exact (Store.read_add_of_lt _ _ size).trans (congrArg (Store.read · h) seated.store)

end

end Traffic

namespace Graph

/-- A parcel comes to a clone, and no tank that the branch reaches holds that parcel. -/
structure Arrives (g : Graph Stock) (call : Call) (id : NodeId) (h : Handle) : Prop where
  call : call = .deliver id (.parcel h)
  clones : g.Clones id
  clear : g.Clear id h

/-- Once its branch has returned without an error, the clone hands the parcel to the first stage on main as
it is then. -/
def Hands (g : Graph Stock) (depth : Nat) (id : NodeId) (h : Handle) (first : NodeId) (given : Graph Stock) :
    Prop :=
  ∃ after clone fan, (Traffic.cloneOff (Traffic.perform (depth + 1)) id h).start (g.mark id true) =
      some (.ok (), after) ∧ after.node? id = some clone ∧ after.fan? id = some fan ∧ fan.isFanOut = true ∧
    fan.main = some first ∧ given = (after.sent clone fan h .main).routed fan h

structure Unspoilt (g : Graph Stock) (depth : Nat) (id : NodeId) (h : Handle) (first : NodeId)
    (given : Graph Stock) : Prop where
  accepts : (Traffic.accept (Traffic.perform (depth + 1)) id h).start (g.mark id true) =
    (Traffic.perform depth (.deliver first (.parcel h))).start given
  content : (given.store.read h).content = (g.store.read h).content

/-- When parcels of one content come to two clones, main gets parcels of that content from both of them. -/
def Isolates (g g' : Graph Stock) (call call' : Call) : Prop :=
  ∀ id id' h h', g.Arrives call id h → g'.Arrives call' id' h' →
    (g.store.read h).content = (g'.store.read h').content →
    ∀ depth depth' first first' given given',
      g.Hands depth id h first given → g'.Hands depth' id' h' first' given' →
        g.Unspoilt depth id h first given ∧ g'.Unspoilt depth' id' h' first' given' ∧
          (given.store.read h).content = (given'.store.read h').content

section

variable {g given : Graph Stock} {call : Call} {id first : NodeId} {h : Handle} {depth : Nat}

theorem Arrives.unspoilt (arrives : g.Arrives call id h) (whole : h < g.store.cells.size)
    (hands : g.Hands depth id h first given) : g.Unspoilt depth id h first given := by
  have marked : g.Seated (g.mark id true) := .update (.refl g) fun _ _ => rfl
  have clones := arrives.clones.seated marked
  obtain ⟨after, clone, fan, cloned, found, fans, forks, main, rfl⟩ := hands
  have ⟨size, same⟩ := (Traffic.cloneOff_spares clones (arrives.clear.of_seats marked.seats) whole
    (depth + 1)).of_start cloned rfl
  obtain ⟨fork, leads, follows⟩ := Option.bind_eq_some_iff.mp fans
  rw [found, Option.bind_some] at leads
  have sent : (after.sent clone fan h .main).store.read h =
      { after.store.read h with fork := .main, origin := some clone.name } := Store.read_write_self _ _ size
  constructor
  · rw [Traffic.accept_cloned clones cloned, Traffic.forward_main found leads follows]
    have there : (after.sent clone fan h .main).node? fork = some fan := follows
    change (Traffic.deliver (Traffic.perform depth) fork (.parcel h)).start _ = _
    unfold Traffic.deliver
    rw [Run.atNode_start there]
    cases kind : fan.kind with
    | fanOut => exact Traffic.fanOut_main main (congrArg Parcel.fork sent)
    | _ =>
      rw [Node.isFanOut, kind] at forks
      cases forks
  · have still : h < (after.sent clone fan h .main).store.cells.size :=
      Nat.lt_of_lt_of_eq size (Store.size_write _ _ _).symm
    have routed : ((after.sent clone fan h .main).routed fan h).store.read h =
        { (after.sent clone fan h .main).store.read h with fork := .main } := Store.read_write_self _ _ still
    rw [routed, sent, same]
    rfl

end

theorem clones_of_isClone {g : Graph Stock} {id : NodeId}
    (clones : ((g.node? id).bind Node.state?).any Stock.isClone = true) : g.Clones id := by
  obtain ⟨s, there, clone⟩ := (Option.any_eq_true _ _).mp clones
  obtain ⟨node, found, state⟩ := Option.bind_eq_some_iff.mp there
  cases s with
  | branchClone => exact ⟨node, found, Node.kind_of_state state⟩
  | _ => cases clone

def holding (g : Graph Stock) (p : Parcel) : Graph Stock := { g with store := (g.store.add p).2 }

def closes (g : Graph Stock) (region : List NodeId) : Bool :=
  region.all fun id => (g.node? id).all fun node =>
    (node.main.toList ++ node.branch.toList ++ node.entry.toList).all region.contains

theorem Reaches.within {g : Graph Stock} {region : List NodeId} (closed : g.closes region = true)
    {source id : NodeId} (inside : source ∈ region) (reaches : g.Reaches source id) : id ∈ region := by
  simp only [closes, List.all_eq_true, Option.all_eq_true, List.contains_iff_mem] at closed
  induction reaches with
  | here => exact inside
  | next _ found leads ih =>
    refine closed _ ih _ found _ ?_
    rcases leads with main | branch | entry
    · simp [main]
    · simp [branch]
    · simp [entry]

/-- Whatever two graphs do on the branches of clones: as long as no tank there holds the very parcel that the
clone gets, main gets what came. -/
theorem clones_isolate_main {b b' : Blueprint Stock} {g g' before before' : Graph Stock}
    (built : b.build.1 = .ok g) (built' : b'.build.1 = .ok g') (leads : g.Leads before)
    (leads' : g'.Leads before') (depth depth' : Nat) (operation operation' : Operation) :
    before.Throughout depth operation fun call mid =>
      before'.Throughout depth' operation' fun call' mid' => mid.Isolates mid' call call' := by
  have all (id : NodeId) : Custody.whole.scope id := trivial
  have holds := (Blueprint.build_whole built).leads_to all leads
  have holds' := (Blueprint.build_whole built').leads_to all leads'
  refine .of_custody holds all (fun {call mid} _ makes => ?_) depth operation
  refine .of_custody holds' all (fun {call' mid'} _ makes' => ?_) depth' operation'
  intro id id' h h' arrives arrives' same _ _ _ _ _ _ hands hands'
  obtain rfl := arrives.call
  obtain rfl := arrives'.call
  have unspoilt := arrives.unspoilt makes.2 hands
  have unspoilt' := arrives'.unspoilt makes'.2 hands'
  exact ⟨unspoilt, unspoilt', unspoilt.content.trans (same.trans unspoilt'.content.symm)⟩

theorem branches_isolated : ∃ g g' given given', (line "branch_clone (wrap:x) sink").build.1 = .ok g ∧
    (line "branch_clone (reverse_string) sink").build.1 = .ok g' ∧
      (g.holding (.ofText "one")).Arrives (.deliver 1 (.parcel 0)) 1 0 ∧
      (g'.holding (.ofText "one")).Arrives (.deliver 1 (.parcel 0)) 1 0 ∧
      (g.holding (.ofText "one")).Hands 20 1 0 4 given ∧ (g'.holding (.ofText "one")).Hands 20 1 0 4 given' ∧
      (given.store.read 0).text = "one" ∧ (given'.store.read 0).text = "one" ∧
      g.Throughout 40 (.act (.send (.ofText "one"))) fun call mid =>
        g'.Throughout 40 (.act (.send (.ofText "one"))) fun call' mid' => mid.Isolates mid' call call' := by
  have runs (route : String) (passes : (line route).passes (fun g =>
      ((g.node? 1).bind Node.state?).any Stock.isClone &&
      (Traffic.cloneOff (Traffic.perform 21) 1 0).succeeds ((g.holding (.ofText "one")).mark 1 true)
        fun _ after => (after.node? 1).any fun clone => (after.fan? 1).any fun fan =>
          fan.isFanOut && fan.main == some 4 &&
            (((after.sent clone fan 0 .main).routed fan 0).store.read 0).text == "one") = true) :
      ∃ g given, (line route).build.1 = .ok g ∧
        (g.holding (.ofText "one")).Arrives (.deliver 1 (.parcel 0)) 1 0 ∧
        (g.holding (.ofText "one")).Hands 20 1 0 4 given ∧ (given.store.read 0).text = "one" := by
    obtain ⟨g, built, passes⟩ := Blueprint.of_passes passes
    obtain ⟨clones, passes⟩ := (Bool.and_eq_true _ _).mp passes
    obtain ⟨_, after, cloned, passes⟩ := Run.of_succeeds passes
    obtain ⟨clone, found, passes⟩ := (Option.any_eq_true _ _).mp passes
    obtain ⟨fan, follows, passes⟩ := (Option.any_eq_true _ _).mp passes
    simp only [Bool.and_eq_true, beq_iff_eq] at passes
    obtain ⟨⟨forks, main⟩, text⟩ := passes
    have clear : (g.holding (.ofText "one")).Clear 1 0 := fun _ _ _ _ _ _ _ there =>
      Blueprint.build_handles built there 0
    refine ⟨g, _, built, ⟨rfl, clones_of_isClone clones, clear⟩, ?_, text⟩
    exact ⟨after, clone, fan, cloned, found, follows, forks, main, rfl⟩
  obtain ⟨g, given, built, arrives, hands, text⟩ := runs "branch_clone (wrap:x) sink" (by decide +kernel)
  obtain ⟨g', given', built', arrives', hands', text'⟩ :=
    runs "branch_clone (reverse_string) sink" (by decide +kernel)
  exact ⟨g, g', given, given', built, built', arrives, arrives', hands, hands', text, text',
    clones_isolate_main built built' .refl .refl 40 40 _ _⟩

def texts (g : Graph Stock) (id : NodeId) : List String := g.history.filterMap (Event.text? id)

structure Parts (g : Graph Stock) (id branch main : NodeId) : Prop where
  clones : g.Clones id
  forks : ∃ fan, g.fan? id = some fan ∧ fan.branch = some branch ∧ fan.main = some main
  apart : ∀ other, ¬(g.Reaches branch other ∧ g.Reaches main other)

def parts (g : Graph Stock) (id branch main : NodeId) (left right : List NodeId) : Bool :=
  ((g.node? id).bind Node.state?).any Stock.isClone &&
    (g.fan? id).any (fun fan => fan.branch == some branch && fan.main == some main) &&
    left.contains branch && right.contains main && g.closes left && g.closes right &&
    left.all fun other => !right.contains other

theorem parts_of_parts {g : Graph Stock} {id branch main : NodeId} {left right : List NodeId}
    (parts : g.parts id branch main left right = true) : g.Parts id branch main := by
  simp only [Graph.parts, Bool.and_eq_true, List.contains_iff_mem, List.all_eq_true,
    Bool.not_eq_true'] at parts
  obtain ⟨⟨⟨⟨⟨⟨clones, forks⟩, branch⟩, main⟩, closed⟩, closed'⟩, apart⟩ := parts
  obtain ⟨fan, follows, leads⟩ := (Option.any_eq_true _ _).mp forks
  simp only [Bool.and_eq_true, beq_iff_eq] at leads
  refine ⟨clones_of_isClone clones, ⟨fan, follows, leads⟩, fun other both => ?_⟩
  obtain ⟨first, second⟩ := both
  have none := apart other (first.within closed branch)
  rw [List.contains_iff_mem.mpr (second.within closed' main)] at none
  cases none

/-- A queue on the branch of a clone to which the parcel itself has gone before. -/
def recalling (front : String) : Blueprint Stock :=
  line ("branch_ref (tank_queue:1 wrap:" ++ front ++ ") branch_clone (tank_queue) sink")

/-- The copy drives the parcel itself out of the queue, so that main gets what the branch has made of it. -/
theorem recalling_spoils : ∃ g g' after after', (recalling "x").build.1 = .ok g ∧
    (recalling "y").build.1 = .ok g' ∧ g.Parts 5 3 7 ∧ g'.Parts 5 3 7 ∧
      (send 40 (.ofText "one")).start g = some (.ok (), after) ∧
      (send 40 (.ofText "one")).start g' = some (.ok (), after') ∧
      after.texts 5 = ["one"] ∧ after'.texts 5 = ["one"] ∧
      after.texts 7 = ["xone"] ∧ after'.texts 7 = ["yone"] := by
  have runs (front : String) (text : String) (passes : (recalling front).passes (fun g =>
      g.parts 5 3 7 [3, 4] [7] && (send 40 (.ofText "one")).succeeds g fun _ after =>
        after.texts 5 == ["one"] && after.texts 7 == [text]) = true) :
      ∃ g after, (recalling front).build.1 = .ok g ∧ g.Parts 5 3 7 ∧
        (send 40 (.ofText "one")).start g = some (.ok (), after) ∧ after.texts 5 = ["one"] ∧
          after.texts 7 = [text] := by
    obtain ⟨g, built, passes⟩ := Blueprint.of_passes passes
    obtain ⟨parts, sends⟩ := (Bool.and_eq_true _ _).mp passes
    obtain ⟨_, after, sent, texts⟩ := Run.of_succeeds sends
    simp only [Bool.and_eq_true, beq_iff_eq] at texts
    exact ⟨g, after, built, parts_of_parts parts, sent, texts⟩
  obtain ⟨g, after, built, parts, sent, came, got⟩ := runs "x" "xone" (by decide +kernel)
  obtain ⟨g', after', built', parts', sent', came', got'⟩ := runs "y" "yone" (by decide +kernel)
  exact ⟨g, g', after, after', built, built', parts, parts', sent, sent', came, came', got, got'⟩

end Graph

end Sluice
