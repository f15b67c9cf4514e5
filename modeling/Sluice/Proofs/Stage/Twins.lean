import Sluice.Proofs.Stage.Roles

set_option autoImplicit false

namespace Sluice

variable {σ τ α β : Type}

inductive Matches {ε : Type} : Except ε α → Except ε α → Prop
  | ok (a : α) : Matches (.ok a) (.ok a)
  | error (e e' : ε) : Matches (.error e) (.error e')

namespace Matches

variable {ε : Type} {r r' : Except ε α}

theorem refl : (r : Except ε α) → Matches r r
  | .ok a => .ok a
  | .error e => .error e e

theorem map (same : Matches r r') (f : α → β) : Matches (r.map f) (r'.map f) := by
  cases same with
  | ok a => exact .ok _
  | error e e' => exact .error e e'

theorem bind (same : Matches r r') {f f' : α → Except ε β} (rest : ∀ a, Matches (f a) (f' a)) :
    Matches (r.bind f) (r'.bind f') := by
  cases same with
  | ok a => exact rest a
  | error e e' => exact .error e e'

end Matches

structure ParamTable.Alike (t t' : ParamTable) : Prop where
  typeName : t'.typeName = t.typeName
  values : t'.values = t.values

namespace ParamTable.Alike

variable {t t' : ParamTable} (alike : t.Alike t')
include alike

theorem get? (key : String) : t'.get? key = t.get? key := by
  rw [ParamTable.get?, alike.values, ParamTable.get?]

theorem differs (key : String) (value : Value) : t'.differs key value = t.differs key value := by
  rw [ParamTable.differs, alike.get?, ParamTable.differs]

theorem put (key : String) (value : Value) : (t.put key value).Alike (t'.put key value) :=
  ⟨alike.typeName, congrArg (Dict.put key value) alike.values⟩

theorem value (key : String) : Matches (t.value key) (t'.value key) := by
  unfold ParamTable.value
  rw [alike.get?]
  cases t.get? key with
  | some value => exact .ok value
  | none => exact .error _ _

theorem text (key : String) : Matches (t.text key) (t'.text key) := (alike.value key).map _

theorem readAs (wanted : String) (read : Value → Option α) (key : String) :
    Matches (t.readAs wanted read key) (t'.readAs wanted read key) := by
  refine (alike.value key).bind fun value => ?_
  split
  · exact .ok _
  · exact .error _ _

end ParamTable.Alike

/-- What a script makes of a parcel, and whether it fails, does not depend on the path of its stage,
which it may name in the reason. -/
def Script.Pathless (run : Script) : Prop := ∀ t stage p,
  (run { t with stage } p).1 = (run t p).1 ∧
    (run { t with stage } p).2.isSome = (run t p).2.isSome

theorem Script.Pathless.same {run : Script} (pathless : run.Pathless) {t t' : ParamTable}
    (alike : t.Alike t') (p : Parcel) :
    (run t' p).1 = (run t p).1 ∧ (run t' p).2.isSome = (run t p).2.isSome := by
  obtain ⟨stage, typeName, values⟩ := t'
  obtain ⟨rfl, rfl⟩ := alike
  exact pathless t stage p

namespace Configuring

def Twin (rel : α → α → Prop) (c c' : Configuring α Unit) : Prop :=
  ∀ a a', rel a a' → Matches (c.run a).1 (c'.run a').1 ∧ rel (c.run a).2 (c'.run a').2

namespace Twin

variable {rel : α → α → Prop}

theorem get {r r' : Except ConfigError β} (same : Matches r r')
    {next next' : β → Configuring α Unit} (rest : ∀ b, Twin rel (next b) (next' b)) :
    Twin rel (Configuring.get r >>= next) (Configuring.get r' >>= next') := by
  cases same with
  | ok b => exact rest b
  | error e e' => exact fun a a' related => ⟨.error e e', related⟩

theorem modify {f f' : α → α} (keeps : ∀ a a', rel a a' → rel (f a) (f' a')) :
    Twin rel (modify f) (modify f') :=
  fun a a' related => ⟨.ok (), keeps a a' related⟩

theorem modify_bind {f f' : α → α} (keeps : ∀ a a', rel a a' → rel (f a) (f' a'))
    {next next' : Unit → Configuring α Unit} (rest : Twin rel (next ()) (next' ())) :
    Twin rel (MonadState.modifyGet (fun a => ((), f a)) >>= next)
      (MonadState.modifyGet (fun a => ((), f' a)) >>= next') :=
  fun a a' related => rest (f a) (f' a') (keeps a a' related)

theorem set {b b' : α} (related : rel b b') : Twin rel (set b) (set b') :=
  fun _ _ _ => ⟨.ok (), related⟩

theorem throw (e e' : ConfigError) : Twin rel (throw e) (throw e') :=
  fun _ _ related => ⟨.error e e', related⟩

theorem same_of_eq (f : α → α) : ∀ a a', a = a' → f a = f a' := fun _ _ => congrArg f

theorem followed {c c' : Configuring α Unit} (twin : Twin Eq c c') (change : α → α) :
    Twin Eq (c >>= fun _ => MonadState.modifyGet fun a => ((), change a))
      (c' >>= fun _ => MonadState.modifyGet fun a => ((), change a)) := by
  rintro a _ rfl
  have ⟨result, state⟩ := twin a a rfl
  unfold run at *
  rw [ExceptT.run_bind, ExceptT.run_bind, StateT.run_bind, StateT.run_bind]
  generalize StateT.run (ExceptT.run c) a = x, StateT.run (ExceptT.run c') a = y at result state
  obtain ⟨r, b⟩ := x
  obtain ⟨r', b'⟩ := y
  cases state
  cases result with
  | ok => exact ⟨.ok (), rfl⟩
  | error e e' => exact ⟨.error e e', rfl⟩

end Twin

end Configuring

open Configuring (Twin)
open Configuring.Twin (same_of_eq)

section

variable {t t' : ParamTable} (alike : t.Alike t')
include alike

theorem Sink.configure_twin : Twin Eq (Sink.configure t) (Sink.configure t') := by
  refine .get (alike.readAs ..) fun limit => ?_
  dsimp only
  split
  · exact .throw _ _
  · exact .modify_bind (same_of_eq _)
      (.get (alike.readAs ..) fun _ => .modify (same_of_eq _))

theorem Wrap.configure_twin : Twin Eq (Wrap.configure t) (Wrap.configure t') :=
  .get ((alike.value _).map _) fun _ => .modify_bind (same_of_eq _) <|
    .get ((alike.value _).map _) fun _ => .modify (same_of_eq _)

theorem SeqPacket.settings_twin : Twin Eq (SeqPacket.settings t) (SeqPacket.settings t') :=
  .get (alike.text _) fun _ => .modify_bind (same_of_eq _) <|
    .get (alike.readAs ..) fun _ => .modify (same_of_eq _)

theorem SeqPacket.configure_twin : Twin Eq (SeqPacket.configure t) (SeqPacket.configure t') :=
  (SeqPacket.settings_twin alike).followed _

theorem TankQueue.settings_twin : Twin Eq (TankQueue.settings t) (TankQueue.settings t') :=
  .get (alike.readAs ..) fun _ => .modify_bind (same_of_eq _) <|
    .get (alike.text _) fun _ => .modify (same_of_eq _)

theorem TankQueue.configure_twin : Twin Eq (TankQueue.configure t) (TankQueue.configure t') :=
  (TankQueue.settings_twin alike).followed _

theorem Reset.configure_twin : Twin Eq (Reset.configure t) (Reset.configure t') :=
  .get (alike.text _) fun _ => .modify_bind (same_of_eq _) <|
    .get (alike.value _) fun _ => .modify_bind (same_of_eq _) <|
      .get (alike.value _) fun _ => .modify (same_of_eq _)

theorem SendMessage.configure_twin :
    Twin Eq (SendMessage.configure t) (SendMessage.configure t') := by
  refine .get (alike.text _) fun destination => .get (alike.text _) fun command => ?_
  split
  · exact .throw _ _
  · exact .get (alike.readAs ..) fun _ => .set rfl

omit alike in
theorem Reset.messageFor_matches (r : Reset) (path path' : String) (p : Parcel) :
    Matches (r.messageFor path p) (r.messageFor path' p) := by
  unfold messageFor
  split
  · exact .error _ _
  · exact .refl _

def BranchIf.Alike (b b' : BranchIf) : Prop :=
  b' = { b with params := b'.params } ∧ b.params.Alike b'.params

omit alike in
theorem BranchIf.Alike.decideEdge {b b' : BranchIf} (alike : b.Alike b') (p : Parcel) :
    b'.decideEdge p = b.decideEdge p := by
  obtain ⟨same, params⟩ := alike
  have left : b'.left? p = b.left? p := by
    rw [same, left?, left?, params.get?]
  rw [BranchIf.decideEdge, left, same, BranchIf.decideEdge]

theorem BranchIf.configure_twin : Twin BranchIf.Alike (BranchIf.configure t) (BranchIf.configure t') := by
  have keeps {f : BranchIf → BranchIf}
      (apart : ∀ b params, f { b with params } = { f b with params }) (b b' : BranchIf)
      (both : b.Alike b') : (f b).Alike (f b') := by
    have params (b : BranchIf) : (f b).params = b.params := by
      have same : f b = { f b with params := b.params } := apart b b.params
      rw [same]
    refine ⟨?_, by rw [params, params]; exact both.2⟩
    rw [params]
    exact (congrArg f both.1).trans (apart b b'.params)
  refine .get (alike.text _) fun key => .modify_bind (keeps fun _ _ => rfl) ?_
  refine .get (alike.text _) fun name => ?_
  dsimp only
  split
  · exact .throw _ _
  · refine .modify_bind (keeps fun _ _ => rfl) (.get (alike.value _) fun _ => ?_)
    refine .modify_bind (keeps fun _ _ => rfl) (.get (alike.readAs ..) fun _ => .modify ?_)
    rintro b b' ⟨same, -⟩
    exact ⟨by rw [same], alike⟩

end

namespace Program

def Plain : Request → Prop
  | .feed _ _ => False
  | .shutdown => False
  | _ => True

/-- Two programs that ask for the same, up to which node they feed and what they report, and keep
related states. They fail both if one does. -/
inductive Twin (feeds : NodeId → NodeId → Prop) (keeps : σ → σ → Prop) :
    Program σ α → Program σ α → Prop
  | done (a : α) : Twin feeds keeps (.done a) (.done a)
  | fail (e e' : EngineError) : Twin feeds keeps (.fail e) (.fail e')
  | keep {s s' : σ} {next next' : Program σ α} (kept : keeps s s')
      (rest : Twin feeds keeps next next') : Twin feeds keeps (.keep s next) (.keep s' next')
  | ask {r : Request} {next next' : r.Answer → Program σ α} (plain : Plain r)
      (rest : ∀ a, Twin feeds keeps (next a) (next' a)) :
      Twin feeds keeps (.ask r next) (.ask r next')
  | report {r r' : Report} {next next' : Unit → Program σ α}
      (rest : Twin feeds keeps (next ()) (next' ())) :
      Twin feeds keeps (.ask (.report r) next) (.ask (.report r') next')
  | feed {node node' : NodeId} {h : Handle} {next next' : Unit → Program σ α}
      (fed : feeds node node') (rest : Twin feeds keeps (next ()) (next' ())) :
      Twin feeds keeps (.ask (.feed node h) next) (.ask (.feed node' h) next')

namespace Twin

variable {feeds : NodeId → NodeId → Prop} {keeps : σ → σ → Prop} {p p' : Program σ α}

theorem bind (first : Twin feeds keeps p p') {next next' : α → Program σ β}
    (rest : ∀ a, Twin feeds keeps (next a) (next' a)) :
    Twin feeds keeps (p >>= next) (p' >>= next') := by
  induction first with
  | done a => exact rest a
  | fail e e' => exact .fail e e'
  | keep kept _ ih => exact .keep kept ih
  | ask plain _ ih => exact .ask plain ih
  | report _ ih => exact .report ih
  | feed fed _ ih => exact .feed fed ih

theorem mapState {keeps' : τ → τ → Prop} {put : σ → τ} (twin : Twin feeds keeps p p')
    (puts : ∀ s s', keeps s s' → keeps' (put s) (put s')) :
    Twin feeds keeps' (p.mapState put) (p'.mapState put) := by
  induction twin with
  | done a => exact .done a
  | fail e e' => exact .fail e e'
  | keep kept _ ih => exact .keep (puts _ _ kept) ih
  | ask plain _ ih => exact .ask plain ih
  | report _ ih => exact .report ih
  | feed fed _ ih => exact .feed fed ih

theorem request {r : Request} (plain : Plain r := by trivial) :
    Twin feeds keeps (Program.request r) (Program.request r) :=
  .ask plain .done

theorem become {s s' : σ} (kept : keeps s s') :
    Twin feeds keeps (Program.become s) (Program.become s') :=
  .keep kept (.done ())

theorem ofConfig {r r' : Except ConfigError Unit} (same : Matches r r') :
    Twin feeds keeps (Program.ofConfig r) (Program.ofConfig r' : Program σ Unit) := by
  cases same with
  | ok a => exact .done a
  | error e e' => exact .fail _ _

theorem failReporting (path path' reason reason' : String) :
    Twin feeds keeps (Program.failReporting path reason)
      (Program.failReporting path' reason' : Program σ Unit) :=
  .report (.fail _ _)

end Twin

end Program

namespace Stock

def isLocal : Stock → Bool
  | .branchIf _ => true
  | .tankFeed _ => true
  | .script _ _ => true
  | _ => false

/-- Two stages that do the same, each in its place: feeders feed related nodes, and what others keep
of their parameters differs in the path of the stage at most. -/
inductive Twin (feeds : NodeId → NodeId → Prop) : Stock → Stock → Prop
  | same {s : Stock} (plain : s.isLocal = false) : Twin feeds s s
  | branchIf {b b' : BranchIf} (alike : b.Alike b') : Twin feeds (.branchIf b) (.branchIf b')
  | tankFeed {f f' : TankFeed} (targets : Option.Rel feeds f.target f'.target) :
      Twin feeds (.tankFeed f) (.tankFeed f')
  | script {run : Script} {t t' : ParamTable} (pathless : run.Pathless) (alike : t.Alike t') :
      Twin feeds (.script run t) (.script run t')

theorem Twin.of_eq {feeds : NodeId → NodeId → Prop} {s s' : Stock} (plain : s.isLocal = false)
    (same : s = s') : Twin feeds s s' :=
  same ▸ .same plain

section

variable {feeds : NodeId → NodeId → Prop} {here here' : Here} {s s' : Stock}

abbrev Doubles (feeds : NodeId → NodeId → Prop) (program program' : Program Stock Unit) : Prop :=
  Program.Twin feeds (Twin feeds) program program'

theorem accept_same (fed : feeds here.id here'.id) (plain : s.isLocal = false) (h : Handle) :
    Doubles feeds (s.accept here h) (s.accept here' h) := by
  cases s with
  | passThrough => exact .ask trivial .done
  | waste n => exact .become (.same rfl)
  | sink s => exact .keep (.same rfl) (.ask trivial .done)
  | reverseString =>
    refine .ask trivial fun p => .report ?_
    dsimp only
    split
    · exact .failReporting _ _ _ _
    · exact .ask trivial fun _ => .report .request
  | wrap w => exact .ask trivial fun p => .ask trivial fun _ => .request
  | seqPacket s =>
    exact .ask trivial fun p => .ask trivial fun _ => .keep (.same rfl) .request
  | branchClone => exact .ask trivial fun _ => .ask trivial fun _ => .request
  | branchRef => exact .ask trivial fun _ => .request
  | branchIf b => cases plain
  | factorial =>
    refine .bind .request fun (p : Parcel) => ?_
    split
    · exact .bind .request fun _ => .request
    · exact .fail _ _
  | tankQueue => exact .feed fed .request
  | tankFeed f => cases plain
  | sendMessage s =>
    obtain ⟨message⟩ := s
    cases message with
    | none => exact .ask trivial .done
    | some m => exact .ask trivial fun _ => .request
  | reset r =>
    refine .mapState (.bind .request fun (p : Parcel) => ?_) fun _ _ same => .of_eq rfl (congrArg Stock.reset same)
    have message := r.messageFor_matches here.path here'.path p
    generalize r.messageFor here.path p = x, r.messageFor here'.path p = y at message
    cases message with
    | ok m => exact .bind .request fun _ => .request
    | error e e' => exact .fail e e'
  | script run t => cases plain

theorem accept_twin (fed : feeds here.id here'.id) (twin : Twin feeds s s') (h : Handle) :
    Doubles feeds (s.accept here h) (s'.accept here' h) := by
  cases twin with
  | same plain => exact accept_same fed plain h
  | @branchIf b b' alike =>
    refine .mapState (.bind .request fun (p : Parcel) => ?_) fun _ _ same => same
    rw [alike.decideEdge]
    split
    · exact .request
    · exact .fail _ _
  | @tankFeed f f' targets =>
    refine .mapState ?_ fun _ _ same => same
    unfold TankFeed.accept
    generalize f.target = x, f'.target = y at targets
    cases targets with
    | none => exact .fail _ _
    | some fed => exact .feed fed (.done ())
  | @script run t t' pathless alike =>
    refine .bind .request fun (p : Parcel) => ?_
    obtain ⟨made, fails⟩ := pathless.same alike p
    generalize run t p = out, run t' p = out' at made fails ⊢
    obtain ⟨x, failure⟩ := out
    obtain ⟨x', failure'⟩ := out'
    dsimp only at made fails ⊢
    subst made
    refine .bind .request fun _ => ?_
    cases failure <;> cases failure' <;>
      simp only [Option.isSome_some, Option.isSome_none, reduceCtorEq] at fails
    · exact .request
    · exact .failReporting _ _ _ _

theorem notice_twin (twin : Twin feeds s s') (m : Message) : Twin feeds (s.notice m) (s'.notice m) := by
  cases twin with
  | same plain =>
    refine .same ?_
    cases s with
    | branchIf b => cases plain
    | tankFeed f => cases plain
    | script run t => cases plain
    | _ => rfl
  | branchIf alike => exact .branchIf alike
  | tankFeed targets => exact .tankFeed targets
  | script pathless alike => exact .script pathless alike

theorem onMessage_twin (twin : Twin feeds s s') (m : Message) :
    Doubles feeds (s.onMessage here m) (s'.onMessage here' m) := by
  cases twin with
  | same plain =>
    unfold onMessage
    split
    next s =>
      refine .mapState ?_ fun _ _ same => same
      unfold SeqPacket.onMessage
      split
      · exact .become (.same rfl)
      · exact .fail _ _
    next => exact .fail _ _
  | _ => exact .fail _ _

theorem feedsBack_twin (twin : Twin feeds s s') : s'.feedsBack = s.feedsBack := by
  cases twin with
  | _ => rfl

theorem configure_twin {t t' : ParamTable} (alike : t.Alike t') (twin : Twin feeds s s') (tank : Tank) :
    Matches ((configure t).run ⟨s, tank⟩).1 ((configure t').run ⟨s', tank⟩).1 ∧
      Twin feeds ((configure t).run ⟨s, tank⟩).2.state ((configure t').run ⟨s', tank⟩).2.state ∧
        ((configure t').run ⟨s', tank⟩).2.tank = ((configure t).run ⟨s, tank⟩).2.tank := by
  rw [configure_run, configure_run]
  cases twin with
  | same plain =>
    cases s with
    | sink s =>
      have ⟨result, state⟩ := Sink.configure_twin alike s s rfl
      exact ⟨result, .of_eq rfl (congrArg Stock.sink state), rfl⟩
    | wrap w =>
      have ⟨result, state⟩ := Wrap.configure_twin alike w w rfl
      exact ⟨result, .of_eq rfl (congrArg Stock.wrap state), rfl⟩
    | seqPacket s =>
      have ⟨result, state⟩ := SeqPacket.configure_twin alike s s rfl
      exact ⟨result, .of_eq rfl (congrArg Stock.seqPacket state), rfl⟩
    | branchIf b => cases plain
    | tankQueue =>
      have ⟨result, state⟩ := TankQueue.configure_twin alike tank tank rfl
      exact ⟨result, .same rfl, state.symm⟩
    | tankFeed f => cases plain
    | sendMessage s =>
      have ⟨result, state⟩ := SendMessage.configure_twin alike s s rfl
      exact ⟨result, .of_eq rfl (congrArg Stock.sendMessage state), rfl⟩
    | reset r =>
      have ⟨result, state⟩ := Reset.configure_twin alike r r rfl
      exact ⟨result, .of_eq rfl (congrArg Stock.reset state), rfl⟩
    | script run t => cases plain
    | _ => exact ⟨.ok (), .same rfl, rfl⟩
  | @branchIf b b' both =>
    have ⟨result, state⟩ := BranchIf.configure_twin alike b b' both
    exact ⟨result, .branchIf state, rfl⟩
  | tankFeed targets => exact ⟨.ok (), .tankFeed targets, rfl⟩
  | script pathless _ => exact ⟨.ok (), .script pathless alike, rfl⟩

theorem configureAgain_twin {t t' : ParamTable} (alike : t.Alike t') (twin : Twin feeds s s') :
    Doubles feeds (Fitted.configureAgain configure t s) (Fitted.configureAgain configure t' s') := by
  refine .bind .request fun (tank : Tank) => ?_
  have ⟨result, state, tank⟩ := configure_twin alike twin tank
  dsimp only
  rw [tank]
  exact .bind (.become state) fun _ => .bind .request fun _ => .ofConfig result

theorem reconfigure_twin {t t' : ParamTable} (alike : t.Alike t') (twin : Twin feeds s s')
    (changed : List String) :
    Doubles feeds (s.reconfigure here t changed) (s'.reconfigure here' t' changed) := by
  have again := configureAgain_twin alike twin
  cases twin with
  | same plain =>
    unfold reconfigure
    split
    next s =>
      have ⟨result, state⟩ := SeqPacket.settings_twin alike s s rfl
      refine .mapState ?_ fun _ _ same => same
      refine .bind (.become (.of_eq rfl (congrArg Stock.seqPacket state))) fun _ => .bind (.ofConfig result) fun _ => ?_
      split
      · exact .become (.of_eq rfl (congrArg (Stock.seqPacket ·.restart) state))
      · exact .done ()
    next =>
      refine .bind .request fun (tank : Tank) => ?_
      have ⟨result, state⟩ := TankQueue.settings_twin alike tank tank rfl
      dsimp only
      rw [← state]
      refine .bind .request fun _ => .bind (.ofConfig result) fun _ => ?_
      refine .bind .request fun _ => .bind .request fun (tank : Tank) => ?_
      exact .bind .request fun _ => .report (.done ())
    next => exact again
  | branchIf _ => exact again
  | tankFeed _ => exact again
  | script _ _ => exact again

theorem attach_tankFeed {t : Stock} {path : String} {next : Option Successor} {f : TankFeed}
    (done : (Stock.tankFeed f).attach path next = .ok t) :
    ∃ a, next = some a ∧ a.hasTank = true ∧ t = .tankFeed ⟨some a.id⟩ := by
  cases next with
  | none => cases done
  | some a =>
    simp only [attach, TankFeed.attach] at done
    by_cases tank : a.hasTank
    · rw [if_pos tank] at done
      cases done
      exact ⟨a, rfl, tank, rfl⟩
    · rw [if_neg tank] at done
      cases done

theorem attach_twin {t t' : Stock} {path path' : String} {next next' : Option Successor}
    (pathless : ∀ run params, s = .script run params → run.Pathless)
    (done : s.attach path next = .ok t) (done' : s.attach path' next' = .ok t')
    (meets : ∀ a b, next = some a → next' = some b → a.hasTank = true → feeds a.id b.id) :
    Twin feeds t t' := by
  cases s with
  | tankFeed f =>
    obtain ⟨a, rfl, tank, rfl⟩ := attach_tankFeed done
    obtain ⟨b, rfl, -, rfl⟩ := attach_tankFeed done'
    exact .tankFeed (.some (meets a b rfl rfl tank))
  | branchIf b =>
    cases done
    cases done'
    exact .branchIf ⟨rfl, rfl, rfl⟩
  | script run params =>
    cases done
    cases done'
    exact .script (pathless run params rfl) ⟨rfl, rfl⟩
  | _ =>
    cases done
    cases done'
    exact .same rfl

end

end Stock

end Sluice
