import Sluice.Graph.Traffic
import Sluice.Stage.Stock

set_option autoImplicit false

namespace Sluice

namespace Configuring

variable {α β γ : Type}

@[simp] theorem run_throw (e : ConfigError) (a : α) :
    run (throw e : Configuring α Unit) a = (.error e, a) := rfl

@[simp] theorem run_modify (f : α → α) (a : α) :
    run (modify f : Configuring α Unit) a = (.ok (), f a) := rfl

@[simp] theorem run_set (b a : α) : run (set b : Configuring α Unit) a = (.ok (), b) := rfl

theorem run_state_bind (next : α → Configuring α Unit) (a : α) :
    run (MonadState.get >>= next) a = run (next a) a := rfl

@[simp] theorem run_part (put : α → β) (a : α) (c : Configuring α Unit) (b : β) :
    run (part put a c) b = ((run c a).1, put (run c a).2) := by
  have split : run (part put a c) b = run (get (run c a).1) (put (run c a).2) := rfl
  rw [split]
  cases (run c a).1 <;> rfl

@[simp] theorem run_modify_bind (f : α → α) (next : Unit → Configuring α Unit) (a : α) :
    run (modify f >>= next) a = run (next ()) (f a) := rfl

@[simp] theorem run_ok_bind (x : β) (next : β → Configuring α Unit) (a : α) :
    run (get (.ok x) >>= next) a = run (next x) a := rfl

@[simp] theorem run_error_bind (e : ConfigError) (next : β → Configuring α Unit) (a : α) :
    run (get (.error e) >>= next) a = (.error e, a) := rfl

/-- What is set up, seen through a view, is settled by what it is set up from: the result does not
depend on what was there before, nor does a success on anything that was set before. -/
structure Determined (view : α → β) (c : Configuring α Unit) : Prop where
  result : ∀ a b, (c.run a).1 = (c.run b).1
  same : ∀ a b, view a = view b → view (c.run a).2 = view (c.run b).2
  fresh : ∀ a b, (c.run a).1 = .ok () → view (c.run a).2 = view (c.run b).2

theorem run_followed (view : α → β) (c : Configuring α Unit) (change : α → α)
    (hidden : ∀ a, view (change a) = view a) (a : α) :
    (run (c >>= fun _ => modify change) a).1 = (run c a).1 ∧
      view (run (c >>= fun _ => modify change) a).2 = view (run c a).2 := by
  unfold run
  rw [ExceptT.run_bind, StateT.run_bind]
  rcases StateT.run (ExceptT.run c) a with ⟨_ | _, b⟩
  · exact ⟨rfl, rfl⟩
  · exact ⟨rfl, hidden b⟩

theorem Determined.followed {view : α → β} {c : Configuring α Unit} (determined : Determined view c)
    {change : α → α} (hidden : ∀ a, view (change a) = view a) :
    Determined view (c >>= fun _ => modify change) := by
  have ran := run_followed view c change hidden
  refine ⟨fun a b => ?_, fun a b shown => ?_, fun a b done => ?_⟩
  · rw [(ran a).1, (ran b).1, determined.result a b]
  · rw [(ran a).2, (ran b).2, determined.same a b shown]
  · rw [(ran a).1] at done
    rw [(ran a).2, (ran b).2, determined.fresh a b done]

theorem Determined.again {view : α → β} {c : Configuring α Unit} (determined : Determined view c)
    (a : α) :
    (c.run (c.run a).2).1 = (c.run a).1 ∧
      ((c.run a).1 = .ok () → view (c.run (c.run a).2).2 = view (c.run a).2) :=
  ⟨determined.result _ a, fun done =>
    determined.fresh _ a ((determined.result _ a).trans done)⟩

end Configuring

open Configuring (Determined)

def Sink.emptied (s : Sink) : Sink := { s with results := [], messages := [] }

theorem Sink.emptied_trim (s : Sink) : s.trim.emptied = s.emptied := by
  unfold trim
  split <;> rfl

theorem Sink.configure_determined (params : ParamTable) :
    Determined emptied (configure params) := by
  unfold configure
  cases params.int "max_results" with
  | error e => constructor <;> simp
  | ok limit =>
    by_cases negative : limit < 0
    · constructor <;> simp +contextual [negative]
    · cases params.flag "capture_msgs" <;> constructor <;>
        simp +contextual [negative, emptied_trim] <;> simp +contextual [emptied]

theorem Wrap.configure_determined (params : ParamTable) : Determined id (configure params) := by
  unfold configure
  cases affix params "data_prefix" <;> cases affix params "data_suffix" <;>
    constructor <;> simp +contextual

def SeqPacket.uncounted (s : SeqPacket) : SeqPacket := { s with counter := 0 }

theorem SeqPacket.settings_determined (params : ParamTable) :
    Determined uncounted (settings params) := by
  unfold settings
  cases params.text "seq_packet_field_name" <;> cases params.int "start" <;>
    constructor <;> simp +contextual [uncounted]

theorem SeqPacket.configure_determined (params : ParamTable) :
    Determined uncounted (configure params) :=
  (settings_determined params).followed fun _ => rfl

theorem BranchIf.configure_determined (params : ParamTable) :
    Determined id (configure params) := by
  unfold configure
  cases params.text "branch_key" with
  | error e => constructor <;> simp
  | ok key =>
    cases params.text "comparison" with
    | error e => constructor <;> simp +contextual
    | ok name =>
      cases named : Comparison.ofName? name with
      | none => constructor <;> simp +contextual [named]
      | some comparison =>
        cases params.value "compare_value" <;> cases params.flag "branch_on_packet" <;>
          constructor <;> simp +contextual [named]

theorem SendMessage.configure_determined (params : ParamTable) :
    Determined id (configure params) := by
  unfold configure
  cases params.text "destination" with
  | error e => constructor <;> simp
  | ok destination =>
    cases params.text "message" with
    | error e => constructor <;> simp
    | ok command =>
      cases read : Message.parse destination command with
      | error e => constructor <;> simp [read]
      | ok m => cases params.flag "single_use" <;> constructor <;> simp [read]

theorem Reset.configure_determined (params : ParamTable) : Determined id (configure params) := by
  unfold configure
  cases params.text "destination" <;> cases params.value "param_name" <;>
    cases params.value "new_value" <;> constructor <;> simp +contextual

def Tank.emptied (t : Tank) : Tank := .make t.capacity t.field

def TankQueue.resize {σ : Type} (path : String) (params : ParamTable) (t : Tank) :
    Program σ Unit := do
  let (result, t) := (settings params).run t
  Program.refill t
  Program.ofConfig result
  Program.drain
  let t ← Program.gauge
  let t := t.pad
  Program.refill t
  Program.report (.tankResized path t.capacity t.held t.size)

theorem TankQueue.settings_determined (params : ParamTable) :
    Determined Tank.emptied (settings params) := by
  unfold settings
  cases params.int "tank_size" <;> cases params.text "priority_field_name" <;>
    constructor <;> simp +contextual [Tank.emptied, Tank.make]

theorem TankQueue.configure_determined (params : ParamTable) :
    Determined Tank.emptied (configure params) :=
  (settings_determined params).followed fun _ => rfl

/-- A stage without what it gathers while it runs: what configuring sets, and what never changes. -/
def Stock.settings : Stock → Stock
  | .waste _ => .waste 0
  | .sink s => .sink s.emptied
  | .seqPacket s => .seqPacket s.uncounted
  | s => s

def Fitted.settings (fitted : Fitted Stock) : Fitted Stock :=
  ⟨fitted.state.settings, fitted.tank.emptied⟩

namespace Stock

@[simp] theorem configure_run (params : ParamTable) (state : Stock) (tank : Tank) :
    (configure params).run ⟨state, tank⟩ = match state with
      | .sink s => let ran := (Sink.configure params).run s; (ran.1, ⟨.sink ran.2, tank⟩)
      | .wrap w => let ran := (Wrap.configure params).run w; (ran.1, ⟨.wrap ran.2, tank⟩)
      | .seqPacket s =>
        let ran := (SeqPacket.configure params).run s
        (ran.1, ⟨.seqPacket ran.2, tank⟩)
      | .branchIf b =>
        let ran := (BranchIf.configure params).run b
        (ran.1, ⟨.branchIf ran.2, tank⟩)
      | .tankQueue => let ran := (TankQueue.configure params).run tank; (ran.1, ⟨.tankQueue, ran.2⟩)
      | .sendMessage s =>
        let ran := (SendMessage.configure params).run s
        (ran.1, ⟨.sendMessage ran.2, tank⟩)
      | .reset r => let ran := (Reset.configure params).run r; (ran.1, ⟨.reset ran.2, tank⟩)
      | .script run _ => (.ok (), ⟨.script run params, tank⟩)
      | other => (.ok (), ⟨other, tank⟩) := by
  unfold configure configureState
  rw [Configuring.run_state_bind]
  cases state <;> first | rfl | exact Configuring.run_part _ _ _ _

theorem configure_settings (params : ParamTable) (fitted : Fitted Stock) :
    ((configure params).run fitted.settings).1 = ((configure params).run fitted).1 ∧
      ((configure params).run fitted.settings).2.settings =
        ((configure params).run fitted).2.settings := by
  obtain ⟨state, tank⟩ := fitted
  cases state with
  | sink s =>
    have ⟨result, same, _⟩ := Sink.configure_determined params
    simp [Fitted.settings, settings, result s.emptied s, same s.emptied s rfl]
    rfl
  | seqPacket s =>
    have ⟨result, same, _⟩ := SeqPacket.configure_determined params
    simp [Fitted.settings, settings, result s.uncounted s, same s.uncounted s rfl]
    rfl
  | tankQueue =>
    have ⟨result, same, _⟩ := TankQueue.configure_determined params
    simp [Fitted.settings, settings, result tank.emptied tank, same tank.emptied tank rfl]
  | _ => simp [Fitted.settings, settings]; try rfl

theorem configure_congr (params : ParamTable) {fitted other : Fitted Stock}
    (same : fitted.settings = other.settings) :
    ((configure params).run fitted).1 = ((configure params).run other).1 ∧
      ((configure params).run fitted).2.settings = ((configure params).run other).2.settings := by
  have left := configure_settings params fitted
  have right := configure_settings params other
  rw [same] at left
  exact ⟨left.1.symm.trans right.1, left.2.symm.trans right.2⟩

theorem configure_again (params : ParamTable) (fitted : Fitted Stock) :
    let first := (configure params).run fitted
    let second := (configure params).run first.2
    second.1 = first.1 ∧ (first.1 = .ok () → second.2.settings = first.2.settings) := by
  obtain ⟨state, tank⟩ := fitted
  cases state with
  | sink s =>
    have ⟨result, same⟩ := (Sink.configure_determined params).again s
    simpa [Fitted.settings, settings] using ⟨result, same⟩
  | wrap w =>
    have ⟨result, same⟩ := (Wrap.configure_determined params).again w
    simpa [Fitted.settings, settings] using ⟨result, same⟩
  | seqPacket s =>
    have ⟨result, same⟩ := (SeqPacket.configure_determined params).again s
    simpa [Fitted.settings, settings] using ⟨result, same⟩
  | branchIf b =>
    have ⟨result, same⟩ := (BranchIf.configure_determined params).again b
    simpa [Fitted.settings, settings] using ⟨result, same⟩
  | tankQueue =>
    have ⟨result, same⟩ := (TankQueue.configure_determined params).again tank
    simpa [Fitted.settings, settings] using ⟨result, same⟩
  | sendMessage s =>
    have ⟨result, same⟩ := (SendMessage.configure_determined params).again s
    simpa [Fitted.settings, settings] using ⟨result, same⟩
  | reset r =>
    have ⟨result, same⟩ := (Reset.configure_determined params).again r
    simpa [Fitted.settings, settings] using ⟨result, same⟩
  | _ => simp

end Stock

namespace Traffic

variable (again : Call → Run Stock Unit) (id : NodeId) (params : ParamTable)

theorem interpret_configureAgain (s : Stock) :
    interpret again id (Fitted.configureAgain Stock.configure params s) = (do
      let tank ← Run.tankOf id
      let ended := (Stock.configure params).run ⟨s, tank⟩
      Run.setState id ended.2.state
      Run.setTank id ended.2.tank
      interpret again id (Program.ofConfig ended.1)) := rfl

theorem interpret_reconfigure_seqPacket (s : SeqPacket) (changed : List String) :
    interpret again id ((s.reconfigure params changed).mapState .seqPacket) = (do
      let ended := (SeqPacket.settings params).run s
      Run.setState id (.seqPacket ended.2)
      interpret again id ((Program.bind (Program.ofConfig ended.1) fun _ =>
        if changed.contains "start" then Program.become ended.2.restart
        else pure ()).mapState .seqPacket)) := rfl

theorem interpret_reconfigure_tankQueue (here : Here) :
    interpret again id (TankQueue.reconfigure here params) = (do
      let t ← Run.tankOf id
      let ended := (TankQueue.settings params).run t
      Run.setTank id ended.2
      interpret again id (Program.bind (Program.ofConfig ended.1) fun _ => do
        Program.drain
        let t ← Program.gauge
        Program.refill t.pad
        Program.report (.tankResized here.path t.pad.capacity t.pad.held t.pad.size))) := rfl

end Traffic

end Sluice
