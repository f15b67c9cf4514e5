import Sluice.Proofs.Graph.Charter
import Sluice.Proofs.Stage.Roles

set_option autoImplicit false

namespace Sluice

variable {α β : Type}

def ConfigError.isMissing : ConfigError → Bool
  | .missingParameter _ _ _ => true
  | _ => false

def EngineError.isMissing : EngineError → Bool
  | .config e => e.isMissing
  | _ => false

def EngineError.isReentrancy : EngineError → Bool
  | .reentrancy _ => true
  | _ => false

def EngineError.isOwn (e : EngineError) : Bool := e.isIncidental && !e.isReentrancy

theorem EngineError.incidental_of_own (e : EngineError) (own : e.isOwn = true) :
    e.isIncidental = true := by
  simp only [isOwn, Bool.and_eq_true] at own
  exact own.1

namespace ParamTable

structure Parses (t : ParamTable) (key : String) (result : Except ConfigError α) : Prop where
  needs : ∀ x, result = .ok x → t.has key = true
  finds : t.has key = true → ∀ e, result = .error e → e.isMissing = false

variable (t : ParamTable) (key : String)

theorem value_parses : t.Parses key (t.value key) := by
  unfold ParamTable.value get?
  cases found : t.values.at? key with
  | some value => exact ⟨fun _ _ => by simp [ParamTable.has, Dict.has, found], nofun⟩
  | none => exact ⟨nofun, fun present => by simp [ParamTable.has, Dict.has, found] at present⟩

variable {t key}

theorem Parses.map {result : Except ConfigError α} (parses : t.Parses key result) (f : α → β) :
    t.Parses key (result.map f) := by
  cases result with
  | ok x => exact ⟨fun _ _ => parses.needs x rfl, fun _ _ => nofun⟩
  | error e =>
    refine ⟨fun _ => nofun, fun present e' failed => ?_⟩
    cases failed
    exact parses.finds present e rfl

theorem Parses.bind {result : Except ConfigError α} (parses : t.Parses key result)
    {f : α → Except ConfigError β} (finds : ∀ x e, f x = .error e → e.isMissing = false) :
    t.Parses key (result.bind f) := by
  cases result with
  | ok x => exact ⟨fun _ _ => parses.needs x rfl, fun _ e failed => finds x e failed⟩
  | error e =>
    refine ⟨fun _ => nofun, fun present e' failed => ?_⟩
    cases failed
    exact parses.finds present e rfl

variable (t key)

theorem text_parses : t.Parses key (t.text key) := (t.value_parses key).map _

theorem readAs_parses (wanted : String) (read : Value → Option α) :
    t.Parses key (t.readAs wanted read key) := by
  refine (t.value_parses key).bind fun value e failed => ?_
  split at failed
  · cases failed
  · cases failed
    rfl

end ParamTable

namespace Configuring

structure Reads (params : ParamTable) (keys : List String) (c : Configuring α Unit) : Prop where
  needs : ∀ a, (c.run a).1 = .ok () → ∀ key ∈ keys, params.has key = true
  finds : (∀ key ∈ keys, params.has key = true) → ∀ a e, (c.run a).1 = .error e →
    e.isMissing = false

namespace Reads

variable {params : ParamTable} {keys : List String}

theorem get {key : String} {result : Except ConfigError β} (parses : params.Parses key result)
    {next : β → Configuring α Unit} (rest : ∀ x, result = .ok x → Reads params keys (next x)) :
    Reads params (key :: keys) (Configuring.get result >>= next) := by
  cases result with
  | ok x =>
    refine ⟨fun a done => ?_, fun present a e failed => ?_⟩
    · exact List.forall_mem_cons.mpr ⟨parses.needs x rfl, (rest x rfl).needs a done⟩
    · exact (rest x rfl).finds (fun key listed => present key (List.mem_cons_of_mem _ listed)) a e failed
  | error e =>
    refine ⟨fun a => nofun, fun present a e' failed => ?_⟩
    cases failed
    exact parses.finds (present key List.mem_cons_self) e rfl

theorem modify (f : α → α) : Reads params [] (modify f : Configuring α Unit) :=
  ⟨fun _ _ => nofun, fun _ _ _ => nofun⟩

theorem modify_bind {f : α → α} {next : Unit → Configuring α Unit} (rest : Reads params keys (next ())) :
    Reads params keys (MonadState.modifyGet (fun a => ((), f a)) >>= next) :=
  ⟨fun a => rest.needs (f a), fun present a => rest.finds present (f a)⟩

theorem set (b : α) : Reads params [] (set b : Configuring α Unit) :=
  ⟨fun _ _ => nofun, fun _ _ _ => nofun⟩

theorem throw {e : ConfigError} (other : e.isMissing = false) :
    Reads params keys (MonadExcept.throw e : Configuring α Unit) := by
  refine ⟨fun _ => nofun, fun _ a e' failed => ?_⟩
  cases failed
  exact other

theorem followed {c : Configuring α Unit} (reads : Reads params keys c) (change : α → α) :
    Reads params keys (c >>= fun _ => MonadState.modifyGet fun a => ((), change a)) := by
  have same (a : α) : (run (c >>= fun _ => MonadState.modifyGet fun a => ((), change a)) a).1 =
      (run c a).1 := (run_followed (fun _ => ()) c change (fun _ => rfl) a).1
  exact ⟨fun a done => reads.needs a (same a ▸ done),
    fun present a e failed => reads.finds present a e (same a ▸ failed)⟩

end Reads

end Configuring

open Configuring (Reads)

section

variable (params : ParamTable)

theorem Sink.configure_reads : Reads params ["max_results", "capture_msgs"] (Sink.configure params) := by
  refine .get (params.readAs_parses ..) fun limit _ => ?_
  dsimp only
  split
  · exact .throw rfl
  · exact .modify_bind (.get (params.readAs_parses ..) fun capture _ => .modify _)

theorem Wrap.configure_reads :
    Reads params ["data_prefix", "data_suffix"] (Wrap.configure params) :=
  .get ((params.value_parses _).map _) fun _ _ => .modify_bind <|
    .get ((params.value_parses _).map _) fun _ _ => .modify _

theorem SeqPacket.settings_reads :
    Reads params ["seq_packet_field_name", "start"] (SeqPacket.settings params) :=
  .get (params.text_parses _) fun _ _ => .modify_bind <|
    .get (params.readAs_parses ..) fun _ _ => .modify _

theorem BranchIf.configure_reads :
    Reads params ["branch_key", "comparison", "compare_value", "branch_on_packet"]
      (BranchIf.configure params) := by
  refine .get (params.text_parses _) fun _ _ => .modify_bind ?_
  refine .get (params.text_parses _) fun name _ => ?_
  cases Comparison.ofName? name with
  | none => exact .throw rfl
  | some comparison =>
    exact .modify_bind <| .get (params.value_parses _) fun _ _ => .modify_bind <|
      .get (params.readAs_parses ..) fun _ _ => .modify _

theorem SendMessage.configure_reads :
    Reads params ["destination", "message", "single_use"] (SendMessage.configure params) := by
  refine .get (params.text_parses _) fun destination _ => .get (params.text_parses _) fun command _ => ?_
  cases Message.parse destination command with
  | error e => exact .throw rfl
  | ok m => exact .get (params.readAs_parses ..) fun _ _ => .set _

theorem Reset.configure_reads :
    Reads params ["destination", "param_name", "new_value"] (Reset.configure params) :=
  .get (params.text_parses _) fun _ _ => .modify_bind <|
    .get (params.value_parses _) fun _ _ => .modify_bind <|
      .get (params.value_parses _) fun _ _ => .modify _

theorem TankQueue.settings_reads :
    Reads params ["tank_size", "priority_field_name"] (TankQueue.settings params) :=
  .get (params.readAs_parses ..) fun _ _ => .modify_bind <|
    .get (params.text_parses _) fun _ _ => .modify _

end

theorem Program.Obeys.ofResult {σ : Type} {keeps : σ → Prop} {error : EngineError → Prop}
    {result : Except ConfigError Unit} (allowed : ∀ e, result = .error e → error (.config e)) :
    (Program.ofConfig result : Program σ Unit).Obeys (fun _ => True) keeps error := by
  cases result with
  | ok _ => exact trivial
  | error e => exact allowed e rfl

namespace Stock

@[simp]
def reads : Stock → List String
  | .sink _ => ["max_results", "capture_msgs"]
  | .wrap _ => ["data_prefix", "data_suffix"]
  | .seqPacket _ => ["seq_packet_field_name", "start"]
  | .branchIf _ => ["branch_key", "comparison", "compare_value", "branch_on_packet"]
  | .tankQueue => ["tank_size", "priority_field_name"]
  | .sendMessage _ => ["destination", "message", "single_use"]
  | .reset _ => ["destination", "param_name", "new_value"]
  | _ => []

def table? : Stock → Option ParamTable
  | .script _ params => some params
  | _ => none

theorem configure_reads (params : ParamTable) (s : Stock) (tank : Tank) :
    (((configure params).run ⟨s, tank⟩).1 = .ok () → ∀ key ∈ s.reads, params.has key = true) ∧
      ((∀ key ∈ s.reads, params.has key = true) → ∀ e,
        ((configure params).run ⟨s, tank⟩).1 = .error e → e.isMissing = false) := by
  rw [configure_run]
  cases s with
  | sink s =>
    have reads := Sink.configure_reads params
    exact ⟨reads.needs s, fun present => reads.finds present s⟩
  | wrap w =>
    have reads := Wrap.configure_reads params
    exact ⟨reads.needs w, fun present => reads.finds present w⟩
  | seqPacket s =>
    have reads := (SeqPacket.settings_reads params).followed SeqPacket.restart
    exact ⟨reads.needs s, fun present => reads.finds present s⟩
  | branchIf b =>
    have reads := BranchIf.configure_reads params
    exact ⟨reads.needs b, fun present => reads.finds present b⟩
  | tankQueue =>
    have reads := (TankQueue.settings_reads params).followed Tank.pad
    exact ⟨reads.needs tank, fun present => reads.finds present tank⟩
  | sendMessage s =>
    have reads := SendMessage.configure_reads params
    exact ⟨reads.needs s, fun present => reads.finds present s⟩
  | reset r =>
    have reads := Reset.configure_reads params
    exact ⟨reads.needs r, fun present => reads.finds present r⟩
  | _ => exact ⟨fun _ => nofun, fun _ _ => nofun⟩

theorem configure_same (params : ParamTable) (s : Stock) (tank : Tank) :
    ((configure params).run ⟨s, tank⟩).2.state.reads = s.reads ∧
      ((configure params).run ⟨s, tank⟩).2.state.table? = s.table?.map fun _ => params := by
  rw [configure_run]
  cases s <;> exact ⟨rfl, rfl⟩

abbrev Stays (s : Stock) (program : Program Stock Unit) : Prop :=
  program.Obeys (fun _ => True) (fun t => t.reads = s.reads ∧ t.table? = s.table?)
    (fun e => e.isOwn = true)

theorem accept_stays (here : Here) (s : Stock) (h : Handle) : Stays s (s.accept here h) := by
  cases s with
  | passThrough => exact ⟨trivial, fun _ => trivial⟩
  | waste n => exact ⟨⟨rfl, rfl⟩, trivial⟩
  | sink s => exact ⟨⟨rfl, rfl⟩, trivial, fun _ => trivial⟩
  | reverseString =>
    refine ⟨trivial, fun p => ⟨trivial, fun _ => ?_⟩⟩
    dsimp only
    split
    · exact ⟨trivial, fun _ => rfl⟩
    · exact ⟨trivial, fun _ => ⟨trivial, fun _ => ⟨trivial, fun _ => trivial⟩⟩⟩
  | wrap w => exact ⟨trivial, fun _ => ⟨trivial, fun _ => ⟨trivial, fun _ => trivial⟩⟩⟩
  | seqPacket s =>
    exact ⟨trivial, fun _ => ⟨trivial, fun _ => ⟨⟨rfl, rfl⟩, trivial, fun _ => trivial⟩⟩⟩
  | branchClone => exact ⟨trivial, fun _ => ⟨trivial, fun _ => ⟨trivial, fun _ => trivial⟩⟩⟩
  | branchRef => exact ⟨trivial, fun _ => ⟨trivial, fun _ => trivial⟩⟩
  | branchIf b =>
    refine .mapState (.bind (.request trivial) fun p => ?_)
    split
    · exact .request trivial
    · rfl
  | factorial =>
    refine .bind (.request trivial) fun p => ?_
    split
    · exact .bind (.request trivial) fun _ => .request trivial
    · rfl
  | tankQueue => exact ⟨trivial, fun _ => ⟨trivial, fun _ => trivial⟩⟩
  | tankFeed f =>
    refine .mapState ?_
    unfold TankFeed.accept
    split
    next node target => exact .request trivial
    next => rfl
  | sendMessage s =>
    obtain ⟨message⟩ := s
    cases message with
    | none => exact ⟨trivial, fun _ => trivial⟩
    | some m => exact ⟨trivial, fun _ => ⟨trivial, fun _ => trivial⟩⟩
  | reset r =>
    refine .mapState (.bind (.request trivial) fun p => ?_)
    split
    next e failed =>
      unfold Reset.messageFor at failed
      split at failed
      · cases failed
        rfl
      next value _ =>
        cases made : Message.make r.destination "reset" [.text r.param, value] with
        | ok m =>
          rw [made] at failed
          cases failed
        | error e =>
          rw [made] at failed
          cases failed
          rfl
    next => exact .bind (.request trivial) fun _ => .request trivial
  | script run params =>
    refine .bind (.request trivial) fun p => ?_
    dsimp only
    refine .bind (.request trivial) fun _ => ?_
    split
    · exact ⟨trivial, fun _ => rfl⟩
    · exact .request trivial

theorem onMessage_stays (here : Here) (s : Stock) (m : Message) : Stays s (s.onMessage here m) := by
  unfold onMessage
  split
  next s =>
    refine .mapState ?_
    unfold SeqPacket.onMessage
    split
    · exact ⟨⟨rfl, rfl⟩, trivial⟩
    · rfl
  next => rfl

theorem flush_stays (s : Stock) : Stays s s.flush := by
  cases s with
  | tankQueue => exact ⟨trivial, fun _ => ⟨trivial, fun _ => ⟨trivial, fun _ => trivial⟩⟩⟩
  | _ => exact trivial

theorem reconfigure_reads (here : Here) (s : Stock) (params : ParamTable) (changed : List String) :
    (s.reconfigure here params changed).Obeys (fun _ => True)
      (fun t => t.reads = s.reads ∧ t.table? = s.table?.map fun _ => params)
      (fun e => ∃ config, e = .config config ∧
        ((∀ key ∈ s.reads, params.has key = true) → config.isMissing = false)) := by
  unfold reconfigure
  split
  next s =>
    have reads := SeqPacket.settings_reads params
    refine .mapState (.bind (.become ⟨rfl, rfl⟩) fun _ => .bind ?_ fun _ => ?_)
    · exact .ofResult fun e failed => ⟨e, rfl, fun present => reads.finds present s e failed⟩
    · split
      · exact .become ⟨rfl, rfl⟩
      · exact trivial
  next =>
    have reads := TankQueue.settings_reads params
    refine .bind (.request trivial) fun t => .bind (.request trivial) fun _ => ?_
    refine .bind (.ofResult fun e failed => ⟨e, rfl, fun present => reads.finds present t e failed⟩)
      fun _ => .bind (.request trivial) fun _ => ?_
    exact .bind (.request trivial) fun t => .bind (.request trivial) fun _ => .request trivial
  next =>
    refine .bind (.request trivial) fun t => .bind (.become (configure_same params s t)) fun _ => ?_
    refine .bind (.request trivial) fun _ => .ofResult fun e failed => ?_
    exact ⟨e, rfl, fun present => (configure_reads params s t).2 present e failed⟩

/-- A stage may do anything but change what it is configured from, and a script holds the parameters
that it was last configured with. -/
theorem minds {keeps : Stock → Prop} {error : EngineError → Prop} {params : ParamTable} {s : Stock}
    (stays : ∀ t : Stock, t.reads = s.reads → t.table? = s.table? → keeps t)
    (renews : ∀ t : Stock, t.reads = s.reads → (t.table? = s.table?.map fun _ => params) → keeps t)
    (own : ∀ e, e.isIncidental = true → error e)
    (config : ∀ e : ConfigError, ((∀ key ∈ s.reads, params.has key = true) → e.isMissing = false) →
      error (.config e))
    (here : Here) : Stage.Minds keeps error here params s where
  accept := fun h => (accept_stays here s h).mono (fun _ => id) (fun t same => stays t same.1 same.2)
    fun e mine => own e (e.incidental_of_own mine)
  beforeAccept := fun _ => trivial
  afterAccept := trivial
  notice := fun m => by cases s <;> exact stays _ rfl rfl
  onMessage := fun m =>
    (onMessage_stays here s m).mono (fun _ => id) (fun t same => stays t same.1 same.2)
      fun e mine => own e (e.incidental_of_own mine)
  reconfigure := fun changed => (reconfigure_reads here s params changed).mono (fun _ => id)
    (fun t same => renews t same.1 same.2) fun e ⟨e', same, finds⟩ => same ▸ config e' finds
  flush := (flush_stays s).mono (fun _ => id) (fun t same => stays t same.1 same.2)
    fun e mine => own e (e.incidental_of_own mine)
  close := trivial

theorem honest (here : Here) (s : Stock) : Stage.Obeys (fun _ => True) (fun _ => True)
    (fun e => e.isReentrancy = false) here s := by
  have own (e : EngineError) (mine : e.isOwn = true) : e.isReentrancy = false := by
    simp only [EngineError.isOwn, Bool.and_eq_true, Bool.not_eq_true'] at mine
    exact mine.2
  have any {program : Program Stock Unit} (stays : Stays s program) :
      program.Obeys (fun _ => True) (fun _ => True) (fun e => e.isReentrancy = false) :=
    stays.mono (fun _ => id) (fun _ _ => trivial) own
  refine
    { accept h := any (accept_stays here s h)
      beforeAccept _ := trivial
      afterAccept := trivial
      notice _ := trivial
      onMessage m := any (onMessage_stays here s m)
      reconfigure params changed := ?_
      flush := any (flush_stays s)
      close := trivial }
  refine (reconfigure_reads here s params changed).mono (fun _ => id) (fun _ _ => trivial)
    fun e ⟨config, same, _⟩ => ?_
  subst same
  rfl

end Stock

end Sluice
