import Sluice.Proofs.Stage.Roles

set_option autoImplicit false

namespace Sluice.Stage

variable {σ τ : Type}

class LawfulSinks (σ : Type) [Stage σ] : Prop where
  toSink?_ofSink : ∀ s, toSink? (ofSink s : σ) = some s
  accept_ofSink : ∀ here s h, accept here (ofSink s : σ) h = (s.accept h).mapState ofSink
  beforeAccept_ofSink : ∀ here s h, beforeAccept here (ofSink s : σ) h = Program.skip
  afterAccept_ofSink : ∀ here s, afterAccept here (ofSink s : σ) = Program.skip
  notice_ofSink : ∀ m s, notice m (ofSink s : σ) = (ofSink (s.notice m), [])
  onMessage_ofSink : ∀ here s m, onMessage here (ofSink s : σ) m =
    .fail (.message (.unrecognised here.path m.verb))
  flush_ofSink : ∀ here s, flush here (ofSink s : σ) = Program.skip
  close_ofSink : ∀ here s, close here (ofSink s : σ) = Program.skip
  feedsBack_ofSink : ∀ s, feedsBack (ofSink s : σ) = false
  hasTank_ofSink : ∀ s, hasTank (ofSink s : σ) = false

attribute [simp] LawfulSinks.toSink?_ofSink LawfulSinks.accept_ofSink
  LawfulSinks.beforeAccept_ofSink LawfulSinks.afterAccept_ofSink LawfulSinks.notice_ofSink
  LawfulSinks.onMessage_ofSink LawfulSinks.flush_ofSink LawfulSinks.close_ofSink
  LawfulSinks.feedsBack_ofSink LawfulSinks.hasTank_ofSink

instance : LawfulSinks Stock where
  toSink?_ofSink _ := rfl
  accept_ofSink _ _ _ := rfl
  beforeAccept_ofSink _ _ _ := rfl
  afterAccept_ofSink _ _ := rfl
  notice_ofSink _ _ := rfl
  onMessage_ofSink _ _ _ := rfl
  flush_ofSink _ _ := rfl
  close_ofSink _ _ := rfl
  feedsBack_ofSink _ := rfl
  hasTank_ofSink _ := rfl

instance [Stage σ] [Stage τ] [LawfulSinks σ] : LawfulSinks (σ ⊕ τ) where
  toSink?_ofSink s := LawfulSinks.toSink?_ofSink (σ := σ) s
  accept_ofSink here s h :=
    congrArg (Program.mapState Sum.inl) (LawfulSinks.accept_ofSink (σ := σ) here s h)
  beforeAccept_ofSink here s h :=
    congrArg (Program.mapState Sum.inl) (LawfulSinks.beforeAccept_ofSink (σ := σ) here s h)
  afterAccept_ofSink here s :=
    congrArg (Program.mapState Sum.inl) (LawfulSinks.afterAccept_ofSink (σ := σ) here s)
  notice_ofSink m s := by
    have same := LawfulSinks.notice_ofSink (σ := σ) m s
    change (Sum.inl (notice m (ofSink s : σ)).1, (notice m (ofSink s : σ)).2) = _
    rw [same]
    rfl
  onMessage_ofSink here s m :=
    congrArg (Program.mapState Sum.inl) (LawfulSinks.onMessage_ofSink (σ := σ) here s m)
  flush_ofSink here s :=
    congrArg (Program.mapState Sum.inl) (LawfulSinks.flush_ofSink (σ := σ) here s)
  close_ofSink here s :=
    congrArg (Program.mapState Sum.inl) (LawfulSinks.close_ofSink (σ := σ) here s)
  feedsBack_ofSink s := LawfulSinks.feedsBack_ofSink (σ := σ) s
  hasTank_ofSink s := LawfulSinks.hasTank_ofSink (σ := σ) s

class LawfulFeeders (σ : Type) [Stage σ] : Prop where
  obeys : ∀ here (s : σ), Obeys (fun _ => True) (fun t => feedsBack t = feedsBack s)
    (fun _ => True) here s

instance : LawfulFeeders Stock where
  obeys here s := (s.obeys here).mono (fun _ _ => trivial) (fun _ => Stock.feedsBack_of_role)
    fun _ _ => trivial

section

variable [Stage σ] [Stage τ] {asks : Request → Prop} {keeps : σ ⊕ τ → Prop}
  {error : EngineError → Prop} {here : Here}

theorem Obeys.inl {s : σ} (obeys : Obeys asks (fun t : σ => keeps (.inl t)) error here s) :
    Obeys asks keeps error here (.inl s : σ ⊕ τ) where
  accept h := (obeys.accept h).mapState
  beforeAccept h := (obeys.beforeAccept h).mapState
  afterAccept := obeys.afterAccept.mapState
  notice := obeys.notice
  onMessage m := (obeys.onMessage m).mapState
  reconfigure params changed := (obeys.reconfigure params changed).mapState
  flush := obeys.flush.mapState
  close := obeys.close.mapState

theorem Obeys.inr {s : τ} (obeys : Obeys asks (fun t : τ => keeps (.inr t)) error here s) :
    Obeys asks keeps error here (.inr s : σ ⊕ τ) where
  accept h := (obeys.accept h).mapState
  beforeAccept h := (obeys.beforeAccept h).mapState
  afterAccept := obeys.afterAccept.mapState
  notice := obeys.notice
  onMessage m := (obeys.onMessage m).mapState
  reconfigure params changed := (obeys.reconfigure params changed).mapState
  flush := obeys.flush.mapState
  close := obeys.close.mapState

instance [LawfulFeeders σ] [LawfulFeeders τ] : LawfulFeeders (σ ⊕ τ) where
  obeys here s := match s with
    | .inl s => (LawfulFeeders.obeys here s).inl
    | .inr s => (LawfulFeeders.obeys here s).inr

end

end Sluice.Stage

namespace Sluice.Stock

def isPlain : Stock → Bool
  | .tankFeed _ => false
  | .sendMessage _ => false
  | .reset _ => false
  | _ => true

def Modest (id : NodeId) : Request → Prop
  | .shutdown => False
  | .post _ => False
  | .feed node _ => node = id
  | _ => True

abbrev StaysPlain (here : Here) (plain : Bool) (program : Program Stock Unit) : Prop :=
  program.Obeys (fun r => plain = true → Modest here.id r) (fun s => s.isPlain = plain)
    (fun _ => True)

theorem accept_plain (here : Here) (s : Stock) (h : Handle) :
    StaysPlain here s.isPlain (s.accept here h) := by
  cases s with
  | passThrough => exact ⟨fun _ => trivial, fun _ => trivial⟩
  | waste n => exact ⟨rfl, trivial⟩
  | sink s => exact ⟨rfl, fun _ => trivial, fun _ => trivial⟩
  | reverseString =>
    refine ⟨fun _ => trivial, fun p => ⟨fun _ => trivial, fun _ => ?_⟩⟩
    dsimp only
    split
    · exact ⟨fun _ => trivial, fun _ => trivial⟩
    · exact ⟨fun _ => trivial, fun _ => ⟨fun _ => trivial, fun _ => ⟨fun _ => trivial,
        fun _ => trivial⟩⟩⟩
  | wrap w =>
    exact ⟨fun _ => trivial, fun _ => ⟨fun _ => trivial, fun _ => ⟨fun _ => trivial,
      fun _ => trivial⟩⟩⟩
  | seqPacket s =>
    exact ⟨fun _ => trivial, fun _ => ⟨fun _ => trivial, fun _ => ⟨rfl, fun _ => trivial,
      fun _ => trivial⟩⟩⟩
  | branchClone =>
    exact ⟨fun _ => trivial, fun _ => ⟨fun _ => trivial, fun _ => ⟨fun _ => trivial,
      fun _ => trivial⟩⟩⟩
  | branchRef => exact ⟨fun _ => trivial, fun _ => ⟨fun _ => trivial, fun _ => trivial⟩⟩
  | branchIf b =>
    refine .mapState (.bind (.request fun _ => trivial) fun p => ?_)
    split
    · exact .request fun _ => trivial
    · exact trivial
  | factorial =>
    refine .bind (.request fun _ => trivial) fun p => ?_
    split
    · exact .bind (.request fun _ => trivial) fun _ => .request fun _ => trivial
    · exact trivial
  | tankQueue => exact ⟨fun _ => rfl, fun _ => ⟨fun _ => trivial, fun _ => trivial⟩⟩
  | tankFeed f =>
    refine .mapState ?_
    unfold TankFeed.accept
    split
    · exact .request nofun
    · exact trivial
  | sendMessage s =>
    obtain ⟨message⟩ := s
    cases message with
    | none => exact ⟨fun _ => trivial, fun _ => trivial⟩
    | some m => exact ⟨nofun, fun _ => ⟨fun _ => trivial, fun _ => trivial⟩⟩
  | reset r =>
    refine .mapState (.bind (.request fun _ => trivial) fun p => ?_)
    split
    · exact trivial
    · exact .bind (.request nofun) fun _ => .request fun _ => trivial
  | script run params =>
    refine .bind (.request fun _ => trivial) fun p => ?_
    dsimp only
    refine .bind (.request fun _ => trivial) fun _ => ?_
    split
    · exact ⟨fun _ => trivial, fun _ => trivial⟩
    · exact .request fun _ => trivial

theorem onMessage_plain (here : Here) (s : Stock) (m : Message) :
    StaysPlain here s.isPlain (s.onMessage here m) := by
  unfold onMessage
  split
  next s =>
    refine .mapState ?_
    unfold SeqPacket.onMessage
    split
    · exact ⟨rfl, trivial⟩
    · exact trivial
  next => exact trivial

theorem configure_plain (params : ParamTable) (s : Stock) (tank : Tank) :
    ((Stock.configure params).run ⟨s, tank⟩).2.state.isPlain = s.isPlain := by
  rw [configure_run]
  cases s <;> rfl

theorem reconfigure_plain (here : Here) (s : Stock) (params : ParamTable) (changed : List String) :
    StaysPlain here s.isPlain (s.reconfigure here params changed) := by
  have config (e : ConfigError) : (fun _ : EngineError => True) (.config e) := trivial
  unfold reconfigure
  split
  next s =>
    refine .mapState (.bind (.become rfl) fun _ => .bind (.ofConfig config _) fun _ => ?_)
    split
    · exact .become rfl
    · exact trivial
  next =>
    refine .bind (.request fun _ => trivial) fun t => .bind (.request fun _ => trivial) fun _ => ?_
    refine .bind (.ofConfig config _) fun _ => .bind (.request fun _ => trivial) fun _ => ?_
    exact .bind (.request fun _ => trivial) fun t => .bind (.request fun _ => trivial) fun _ =>
      .request fun _ => trivial
  next =>
    refine .bind (.request fun _ => trivial) fun t =>
      .bind (.become (configure_plain params s t)) fun _ => ?_
    exact .bind (.request fun _ => trivial) fun _ => .ofConfig config _

theorem flush_plain (here : Here) (s : Stock) : StaysPlain here s.isPlain s.flush := by
  cases s with
  | tankQueue =>
    exact ⟨fun _ => trivial, fun _ => ⟨fun _ => trivial, fun _ => ⟨fun _ => trivial,
      fun _ => trivial⟩⟩⟩
  | _ => exact trivial

theorem stays_plain (here : Here) (s : Stock) :
    Stage.Obeys (fun r => s.isPlain = true → Modest here.id r) (fun t => t.isPlain = s.isPlain)
      (fun _ => True) here s where
  accept := accept_plain here s
  beforeAccept := fun _ => trivial
  afterAccept := trivial
  notice := fun m => by cases s <;> rfl
  onMessage := onMessage_plain here s
  reconfigure := reconfigure_plain here s
  flush := flush_plain here s
  close := trivial

end Sluice.Stock
