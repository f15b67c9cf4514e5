import Sluice.Proofs.Graph.Guards

set_option autoImplicit false

namespace Sluice

variable {σ α β : Type}

namespace Run

/-- However much deeper calls within calls are followed, the run comes to the same end. -/
def Returns (run : Nat → Run σ α) (g : Graph σ)
    (post : Except EngineError α → Graph σ → Prop) : Prop :=
  ∃ depth result after, (∀ more, depth ≤ more → (run more).start g = some (result, after)) ∧
    post result after

theorem holding_start (id : NodeId) (run : Run σ α) (g : Graph σ) :
    (holding id run).start g =
      (run.start (g.mark id true)).map fun ended => (ended.1, ended.2.mark id false) := by
  have opened : (holding id run).start g = (do
      let result ← run.attempt
      updateNode id fun node => { node with busy := false }
      get result : Run σ α).start (g.mark id true) := rfl
  rw [opened, start_bind, attempt_start]
  cases run.start (g.mark id true) <;> rfl

namespace Returns

variable {g : Graph σ} {run : Nat → Run σ α} {post weaker : Except EngineError α → Graph σ → Prop}

theorem of_start {run : Run σ α} {result : Except EngineError α} {after : Graph σ}
    (started : run.start g = some (result, after)) (holds : post result after) :
    Returns (fun _ => run) g post :=
  ⟨0, result, after, fun _ _ => started, holds⟩

theorem congr {run' : Nat → Run σ α} {g' : Graph σ}
    (same : ∀ depth, (run depth).start g = (run' depth).start g') (returns : Returns run' g' post) :
    Returns run g post := by
  obtain ⟨depth, result, after, started, holds⟩ := returns
  exact ⟨depth, result, after, fun more deep => (same more).trans (started more deep), holds⟩

theorem mono (returns : Returns run g post)
    (implies : ∀ result after, post result after → weaker result after) : Returns run g weaker := by
  obtain ⟨depth, result, after, started, holds⟩ := returns
  exact ⟨depth, result, after, started, implies result after holds⟩

theorem deeper {run' : Nat → Run σ α}
    (same : ∀ depth, (run (depth + 1)).start g = (run' depth).start g) (returns : Returns run' g post) :
    Returns run g post := by
  obtain ⟨depth, result, after, started, holds⟩ := returns
  refine ⟨depth + 1, result, after, fun more deep => ?_, holds⟩
  obtain ⟨less, rfl⟩ : ∃ less, more = less + 1 := ⟨more - 1, by omega⟩
  exact (same less).trans (started less (Nat.le_of_succ_le_succ deep))

theorem and_ends (returns : Returns run g post) (ends : ∀ depth, (run depth).Ends g weaker) :
    Returns run g fun result after => post result after ∧ weaker result after := by
  obtain ⟨depth, result, after, started, holds⟩ := returns
  refine ⟨depth, result, after, started, holds, ?_⟩
  exact (ends depth).of_start (started depth (Nat.le_refl _))

theorem started (returns : Returns run g post) : Returns run g fun result after =>
    post result after ∧ ∃ depth, (run depth).start g = some (result, after) := by
  obtain ⟨depth, result, after, started, holds⟩ := returns
  exact ⟨depth, result, after, started, holds, depth, started depth (Nat.le_refl _)⟩

theorem pure {a : α} (holds : post (.ok a) g) : Returns (fun _ => Pure.pure a) g post :=
  of_start rfl holds

theorem throw {e : EngineError} (holds : post (.error e) g) :
    Returns (fun _ => MonadExcept.throw e) g post :=
  of_start rfl holds

theorem update {f : Graph σ → Graph σ} {post : Except EngineError Unit → Graph σ → Prop}
    (holds : post (.ok ()) (f g)) : Returns (fun _ => Run.update f) g post :=
  of_start rfl holds

theorem bind {next : Nat → α → Run σ β} {post : Except EngineError β → Graph σ → Prop}
    (first : Returns run g fun result after => match result with
      | .ok a => Returns (fun depth => next depth a) after post
      | .error e => post (.error e) after) :
    Returns (fun depth => run depth >>= next depth) g post := by
  obtain ⟨depth, result, after, started, rest⟩ := first
  cases result with
  | error e =>
    refine ⟨depth, .error e, after, fun more deep => ?_, rest⟩
    rw [start_bind, started more deep]
    rfl
  | ok a =>
    obtain ⟨deeper, result, last, started', holds⟩ := rest
    refine ⟨max depth deeper, result, last, fun more deep => ?_, holds⟩
    rw [start_bind, started more (Nat.le_trans (Nat.le_max_left _ _) deep)]
    exact started' more (Nat.le_trans (Nat.le_max_right _ _) deep)

theorem attempt {post : Except EngineError (Except EngineError α) → Graph σ → Prop}
    (returns : Returns run g fun result after => post (.ok result) after) :
    Returns (fun depth => (run depth).attempt) g post := by
  obtain ⟨depth, result, after, started, holds⟩ := returns
  refine ⟨depth, .ok result, after, fun more deep => ?_, holds⟩
  rw [attempt_start, started more deep]
  rfl

theorem graph_bind {next : Nat → Graph σ → Run σ α}
    (rest : Returns (fun depth => next depth g) g post) :
    Returns (fun depth => graph >>= next depth) g post :=
  congr (fun _ => rfl) rest

theorem update_bind {f : Graph σ → Graph σ} {next : Nat → Unit → Run σ α}
    (rest : Returns (fun depth => next depth ()) (f g) post) :
    Returns (fun depth => Run.update f >>= next depth) g post :=
  congr (fun _ => rfl) rest

theorem atNode {id : NodeId} {f : Nat → Node σ → Run σ Unit}
    {post : Except EngineError Unit → Graph σ → Prop}
    (absent : g.node? id = none → post (.ok ()) g)
    (there : ∀ node, g.node? id = some node → Returns (fun depth => f depth node) g post) :
    Returns (fun depth => Run.atNode id (f depth)) g post := by
  refine congr (fun depth => Run.atNode_elim g id (f depth)) ?_
  cases found : g.node? id with
  | none => exact pure (absent found)
  | some node => exact there node found

theorem holding {id : NodeId} (returns : Returns run (g.mark id true) fun result after =>
    post result (after.mark id false)) :
    Returns (fun depth => Run.holding id (run depth)) g post := by
  refine update_bind (bind (attempt (returns.mono fun result after holds => ?_)))
  exact update_bind (of_start rfl holds)

end Returns

end Run

namespace Traffic

open Run (Returns)

variable {g : Graph σ} {id : NodeId} {again : Nat → Call → Run σ Unit}
  {post : Except EngineError Unit → Graph σ → Prop}

theorem onward_returns {target : Option NodeId} {call : NodeId → Call}
    (none : target = none → post (.ok ()) g)
    (some : ∀ next, target = some next → Returns (fun depth => again depth (call next)) g post) :
    Returns (fun depth => onward (again depth) target call) g post := by
  cases target with
  | none => exact .pure (none rfl)
  | some next => exact some next rfl

theorem settle_start {again : Call → Run σ Unit} {result : Except EngineError Unit}
    (kept : (g.node? id).any Node.closeDeferred = false) :
    (settle again id result).start g = some (result, g) := by
  have opened : (settle again id result).start g =
      (if (g.node? id).any Node.closeDeferred then do
        Run.updateNode id fun node => { node with closeDeferred := false }
        let closed ← Run.attempt (again (.close id))
        Run.get result
        Run.get closed
      else Run.get result : Run σ Unit).start g := rfl
  rw [opened, kept]
  rfl

theorem settle_returns {result : Except EngineError Unit}
    (kept : (g.node? id).any Node.closeDeferred = false → post result g)
    (closes : (g.node? id).any Node.closeDeferred = true →
      Returns (fun depth => again depth (.close id)) (g.defer id false) fun closed after =>
        post (result.bind fun _ => closed) after) :
    Returns (fun depth => settle (again depth) id result) g post := by
  cases deferred : (g.node? id).any Node.closeDeferred with
  | false => exact ⟨0, result, g, fun _ _ => settle_start deferred, kept deferred⟩
  | true =>
    refine .graph_bind ?_
    rw [deferred]
    refine .update_bind (.bind (.attempt ((closes deferred).mono fun closed after holds => ?_)))
    cases result with
    | error e => exact .of_start rfl holds
    | ok _ => exact .of_start rfl holds

theorem deliver_open [Stage σ] (opened : g.Open id) (again : Call → Run σ Unit)
    (h : Handle) : (deliver again id (.parcel h)).start g = (do
      let result ← Run.attempt (Run.holding id (accept again id h))
      settle again id result : Run σ Unit).start g := by
  obtain ⟨node, s, found, stage, idle, ongoing⟩ := opened
  unfold deliver
  rw [Run.atNode_start found, stage]
  dsimp only
  rw [deliverToStage, if_neg ongoing, if_neg (by simp [idle])]

theorem perform_returns [Stage σ] {call : Call}
    (returns : Returns (fun depth => step (perform depth) call) g post) :
    Returns (fun depth => perform depth call) g post :=
  .deeper (fun _ => rfl) returns

end Traffic

def Request.quiet : Request → Bool
  | .forward _ _ => false
  | .post _ => false
  | .drain => false
  | .shutdown => false
  | _ => true

abbrev Program.Quiet (program : Program σ α) : Prop :=
  program.Obeys (fun r => r.quiet = true) (fun _ => True) (fun _ => True)

namespace Traffic

open Run (Returns)

variable {g : Graph σ} {id : NodeId} {node : Node σ} {s : σ} {m : Message}

theorem noteAll_start (lines : List String) (g : Graph σ) : (Run.noteAll lines).start g =
    some (.ok (), { g with history := (lines.map Event.note).reverse ++ g.history }) := by
  induction lines generalizing g with
  | nil => rfl
  | cons line rest ih =>
    have noted : (Run.noteAll (line :: rest)).start g =
        (Run.noteAll rest).start (g.remember (.note line)) := rfl
    simp [noted, ih, Graph.remember]

theorem notice_notes [Stage σ] (found : g.node? id = some node) (stage : node.kind = .stage s)
    (m : Message) : ∃ lines : List String, (notice id m).start g =
      some (.ok (), { g.updateNode id fun node =>
        { node with kind := .stage (Stage.notice m s).1 } with
          history := (lines.map Event.note).reverse ++
            .began id node (.notice m) :: g.history }) := by
  refine ⟨(Stage.notice m s).2, ?_⟩
  unfold notice Run.began
  rw [Run.start_bind, Run.atNode_start found]
  have there : (g.remember (.began id node (.notice m))).node? id = some node := found
  refine (Run.atNode_start there _).trans ?_
  rw [stage]
  exact noteAll_start (Stage.notice m s).2 _

theorem notice_start [Stage σ] (found : g.node? id = some node) (stage : node.kind = .stage s)
    (m : Message) : ∃ history, (notice id m).start g = some (.ok (), { g.updateNode id fun node =>
      { node with kind := .stage (Stage.notice m s).1 } with history }) :=
  have ⟨_, noticed⟩ := notice_notes found stage m
  ⟨_, noticed⟩

variable (again : Nat → Call → Run σ Unit)

theorem answer_returns {r : Request} (quiet : r.quiet = true) :
    Returns (fun depth => answer (again depth) id r) g fun result _ => ∃ a, result = .ok a := by
  cases r with
  | forward h edge => cases quiet
  | post m => cases quiet
  | drain => cases quiet
  | shutdown => cases quiet
  | _ => exact .of_start rfl ⟨_, rfl⟩

theorem interpret_returns (program : Program σ α) (quiet : program.Quiet) :
    Returns (fun depth => interpret (again depth) id program) g fun _ _ => True := by
  induction program generalizing g with
  | done a => exact .pure trivial
  | fail e => exact .throw trivial
  | keep s next ih => exact .update_bind (ih quiet.2)
  | ask r next ih =>
    refine .bind ((answer_returns again quiet.1).mono fun result after ok => ?_)
    obtain ⟨a, rfl⟩ := ok
    exact ih a (quiet.2 a)

theorem runStage_returns {program : Here → Node σ → σ → Program σ Unit}
    (found : g.node? id = some node) (stage : node.kind = .stage s)
    (quiet : (program (node.here id) node s).Quiet) :
    Returns (fun depth => runStage (again depth) id program) g fun _ _ => True := by
  refine .atNode (fun _ => trivial) fun other same => ?_
  obtain rfl : node = other := Option.some.inj (found.symm.trans same)
  rw [stage]
  exact interpret_returns again _ quiet

variable [Stage σ]

theorem resetParameter_returns (found : g.node? id = some node) (stage : node.kind = .stage s)
    (quiet : ∀ here params changed, (Stage.reconfigure here params changed s).Quiet) (m : Message) :
    Returns (fun depth => resetParameter (again depth) id m) g fun _ _ => True := by
  refine .atNode (fun _ => trivial) fun other same => ?_
  obtain rfl : node = other := Option.some.inj (found.symm.trans same)
  split
  next name value _ =>
    dsimp only
    split
    · exact .throw trivial
    · have there : (g.updateNode id fun node =>
          { node with params := node.params.put name.render value }).node? id =
            some { node with params := node.params.put name.render value } :=
        Graph.node?_updateNode_self found _
      exact .update_bind (.update_bind (runStage_returns again there stage (quiet _ _ _)))
  next => exact .throw trivial

structure Quietly (m : Message) (s : σ) : Prop where
  onMessage : ∀ here, (Stage.onMessage here s m).Quiet
  reconfigure : ∀ here params changed, (Stage.reconfigure here params changed s).Quiet

theorem openMessage_returns (found : g.node? id = some node) (stage : node.kind = .stage s)
    {shown : Node σ} (quiet : shown.answersTo m.destination = true → Quietly m s) :
    Returns (fun depth => openMessage (again depth) id shown m) g fun _ _ => True := by
  unfold openMessage
  split
  next answersTo =>
    have quiet := quiet answersTo
    let reported := g.remember (.report (.messageOpened shown.path m))
    let opened := reported.remember (.began id node (.opening m))
    have began : (Run.began id (.opening m)).start reported = some (.ok (), opened) :=
      Run.atNode_start (g := reported) found _
    have there : opened.node? id = some node := found
    refine .update_bind (.bind (.of_start began ?_))
    dsimp only
    split
    · refine .bind ((resetParameter_returns again there stage quiet.reconfigure m).mono ?_)
      rintro (e | _) after -
      · exact trivial
      · exact .pure trivial
    · refine .bind ((runStage_returns again there stage (quiet.onMessage _)).mono ?_)
      rintro (e | _) after -
      · exact trivial
      · exact .pure trivial
  next => exact .pure trivial

theorem meet_returns (found : g.node? id = some node) (stage : node.kind = .stage s)
    {shown : Node σ}
    (quiet : shown.answersTo m.destination = true → Quietly m (Stage.notice m s).1) :
    Returns (fun depth => meet (again depth) id shown m) g fun _ _ => True := by
  obtain ⟨history, noticed⟩ := notice_start (Graph.node?_mark found true) stage m
  refine .holding (.bind (.of_start noticed ?_))
  let after : Graph σ := { (g.mark id true).updateNode id fun node =>
    { node with kind := .stage (Stage.notice m s).1 } with history }
  have there : after.node? id =
      some { node with busy := true, kind := .stage (Stage.notice m s).1 } := by
    change ((g.mark id true).updateNode id _).node? id = _
    exact Graph.node?_updateNode_self (Graph.node?_mark found _) _
  refine .bind ((openMessage_returns again there rfl quiet).mono ?_)
  rintro (e | _) after -
  · exact trivial
  · exact .graph_bind (.pure trivial)

end Traffic

end Sluice
