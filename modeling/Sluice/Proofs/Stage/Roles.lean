import Sluice.Proofs.Graph.Regime
import Sluice.Proofs.Stage.Settings

set_option autoImplicit false

namespace Sluice

variable {σ τ α β : Type}

namespace Program

variable {asks : Request → Prop} {error : EngineError → Prop}

theorem Obeys.bind {keeps : σ → Prop} {program : Program σ α} {next : α → Program σ β}
    (first : program.Obeys asks keeps error) (rest : ∀ a, (next a).Obeys asks keeps error) :
    (program >>= next).Obeys asks keeps error := by
  induction program with
  | done a => exact rest a
  | fail e => exact first
  | keep s later ih => exact ⟨first.1, ih first.2⟩
  | ask r later ih => exact ⟨first.1, fun a => ih a (first.2 a)⟩

theorem Obeys.mapState {keeps : τ → Prop} {f : σ → τ} {program : Program σ α}
    (obeys : program.Obeys asks (fun s => keeps (f s)) error) :
    (program.mapState f).Obeys asks keeps error := by
  induction program with
  | done a => exact trivial
  | fail e => exact obeys
  | keep s next ih => exact ⟨obeys.1, ih obeys.2⟩
  | ask r next ih => exact ⟨obeys.1, fun a => ih a (obeys.2 a)⟩

theorem Obeys.request {keeps : σ → Prop} {r : Request} (allowed : asks r) :
    (Program.request r : Program σ r.Answer).Obeys asks keeps error :=
  ⟨allowed, fun _ => trivial⟩

theorem Obeys.become {keeps : σ → Prop} {s : σ} (kept : keeps s) :
    (Program.become s).Obeys asks keeps error :=
  ⟨kept, trivial⟩

theorem Obeys.ofConfig {keeps : σ → Prop} (config : ∀ e, error (.config e))
    (result : Except ConfigError Unit) :
    (Program.ofConfig result : Program σ Unit).Obeys asks keeps error := by
  cases result with
  | ok _ => exact trivial
  | error e => exact config e

end Program

namespace Stock

def role : Stock → Stock
  | .tankQueue => .tankQueue
  | .tankFeed f => .tankFeed f
  | _ => .passThrough

theorem feedsBack_role (s : Stock) : s.role.feedsBack = s.feedsBack := by
  cases s <;> rfl

theorem feedsBack_of_role {s t : Stock} (same : s.role = t.role) : s.feedsBack = t.feedsBack := by
  rw [← s.feedsBack_role, same, t.feedsBack_role]

theorem role_tankQueue {s : Stock} (same : s.role = .tankQueue) : s = .tankQueue := by
  cases s with
  | tankQueue => rfl
  | _ => cases same

theorem role_tankFeed {s : Stock} {f : TankFeed} (same : s.role = .tankFeed f) :
    s = .tankFeed f := by
  cases s with
  | tankFeed _ => exact same
  | _ => cases same

def Asks (id : NodeId) : Stock → Request → Prop
  | _, .shutdown => False
  | .tankFeed f, .feed node _ => f.target = some node
  | _, .feed node _ => node = id
  | .tankFeed _, .forward _ _ => False
  | .tankFeed _, .post _ => False
  | .tankFeed _, .drain => False
  | _, _ => True

theorem Asks.fed {id node : NodeId} {s : Stock} {h : Handle} (asks : Asks id s.role (.feed node h)) :
    node = id ∨ ∃ f, s = .tankFeed f ∧ f.target = some node := by
  cases s with
  | tankFeed f => exact .inr ⟨f, rfl, asks⟩
  | _ => exact .inl asks

theorem Asks.sent {id : NodeId} {s : Stock} {r : Request} (asks : Asks id s.role r)
    (sends : r.sends = true) : s.feedsBack = false := by
  cases s with
  | tankFeed f =>
    cases r with
    | forward h edge => cases asks
    | post m => cases asks
    | drain => cases asks
    | _ => cases sends
  | _ => rfl

abbrev Plays (here : Here) (role : Stock) (program : Program Stock Unit) : Prop :=
  program.Obeys (Asks here.id role) (fun s => s.role = role) (fun e => e.isStageClosed = false)

theorem accept_plays (here : Here) (s : Stock) (h : Handle) :
    Plays here s.role (s.accept here h) := by
  cases s with
  | passThrough => exact ⟨trivial, fun _ => trivial⟩
  | waste n => exact ⟨rfl, trivial⟩
  | sink s => exact ⟨rfl, trivial, fun _ => trivial⟩
  | reverseString =>
    refine ⟨trivial, fun p => ⟨trivial, fun _ => ?_⟩⟩
    dsimp only
    split
    · exact ⟨trivial, fun _ => rfl⟩
    · exact ⟨trivial, fun _ => ⟨trivial, fun _ => ⟨trivial, fun _ => trivial⟩⟩⟩
  | wrap w => exact ⟨trivial, fun _ => ⟨trivial, fun _ => ⟨trivial, fun _ => trivial⟩⟩⟩
  | seqPacket s => exact ⟨trivial, fun _ => ⟨trivial, fun _ => ⟨rfl, trivial, fun _ => trivial⟩⟩⟩
  | branchClone => exact ⟨trivial, fun _ => ⟨trivial, fun _ => ⟨trivial, fun _ => trivial⟩⟩⟩
  | branchRef => exact ⟨trivial, fun _ => ⟨trivial, fun _ => trivial⟩⟩
  | branchIf b =>
    refine .mapState (.bind (.request trivial) fun p => ?_)
    split
    · exact .request trivial
    · rfl
  | factorial =>
    refine .bind (.request trivial) fun p => ?_
    split
    · exact .bind (.request trivial) fun _ => .request trivial
    · rfl
  | tankQueue => exact ⟨rfl, fun _ => ⟨trivial, fun _ => trivial⟩⟩
  | tankFeed f =>
    refine .mapState ?_
    unfold TankFeed.accept
    split
    next node target => exact .request target
    next => rfl
  | sendMessage s =>
    obtain ⟨message⟩ := s
    cases message with
    | none => exact ⟨trivial, fun _ => trivial⟩
    | some m => exact ⟨trivial, fun _ => ⟨trivial, fun _ => trivial⟩⟩
  | reset r =>
    refine .mapState (.bind (.request trivial) fun p => ?_)
    split
    next e failed =>
      unfold Reset.messageFor at failed
      split at failed
      · cases failed
        rfl
      next value _ =>
        cases made : Message.make r.destination "reset" [.text r.param, value] with
        | ok m =>
          rw [made] at failed
          cases failed
        | error e =>
          rw [made] at failed
          cases failed
          rfl
    next => exact .bind (.request trivial) fun _ => .request trivial
  | script run params =>
    refine .bind (.request trivial) fun p => ?_
    dsimp only
    refine .bind (.request trivial) fun _ => ?_
    split
    · exact ⟨trivial, fun _ => rfl⟩
    · exact .request trivial

theorem onMessage_plays (here : Here) (s : Stock) (m : Message) :
    Plays here s.role (s.onMessage here m) := by
  unfold onMessage
  split
  next s =>
    refine .mapState ?_
    unfold SeqPacket.onMessage
    split
    · exact ⟨rfl, trivial⟩
    · rfl
  next => rfl

theorem configure_role (params : ParamTable) (s : Stock) (tank : Tank) :
    ((Stock.configure params).run ⟨s, tank⟩).2.state.role = s.role := by
  rw [configure_run]
  cases s <;> rfl

theorem reconfigure_plays (here : Here) (s : Stock) (params : ParamTable) (changed : List String) :
    Plays here s.role (s.reconfigure here params changed) := by
  have config (e : ConfigError) : (EngineError.config e).isStageClosed = false := rfl
  unfold reconfigure
  split
  next s =>
    refine .mapState (.bind (.become rfl) fun _ => .bind (.ofConfig config _) fun _ => ?_)
    split
    · exact .become rfl
    · exact trivial
  next =>
    refine .bind (.request trivial) fun t => .bind (.request trivial) fun _ => ?_
    refine .bind (.ofConfig config _) fun _ => .bind (.request trivial) fun _ => ?_
    exact .bind (.request trivial) fun t => .bind (.request trivial) fun _ => .request trivial
  next =>
    have quiet : Asks here.id s.role .gauge ∧ ∀ t, Asks here.id s.role (.refill t) := by
      cases s <;> exact ⟨trivial, fun _ => trivial⟩
    refine .bind (.request quiet.1) fun t => .bind (.become (configure_role params s t)) fun _ => ?_
    exact .bind (.request (quiet.2 _)) fun _ => .ofConfig config _

theorem flush_plays (here : Here) (s : Stock) : Plays here s.role s.flush := by
  cases s with
  | tankQueue => exact ⟨trivial, fun _ => ⟨trivial, fun _ => ⟨trivial, fun _ => trivial⟩⟩⟩
  | _ => exact trivial

theorem obeys (here : Here) (s : Stock) : Stage.Obeys (Asks here.id s.role)
    (fun t => t.role = s.role) (fun e => e.isStageClosed = false) here s where
  accept := accept_plays here s
  beforeAccept := fun _ => trivial
  afterAccept := trivial
  notice := fun m => by cases s <;> rfl
  onMessage := onMessage_plays here s
  reconfigure := reconfigure_plays here s
  flush := flush_plays here s
  close := trivial

end Stock

end Sluice
