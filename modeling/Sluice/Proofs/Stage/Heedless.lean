import Sluice.Proofs.Stage.Laws

set_option autoImplicit false

namespace Sluice

variable {σ τ α β : Type}

namespace Request

/-- A parcel is read only as long as it is known, and nobody closes the graph. -/
def Fits (knows : Handle → Prop) : Request → Prop
  | .look h => knows h
  | .shutdown => False
  | _ => True

/-- Parcels that have been handed on may come back with another fork and another origin, and a copy
has those of its parcel. -/
def leaves (knows : Handle → Prop) : Request → Handle → Prop
  | .copy _ => fun _ => False
  | .forward _ _ => fun _ => False
  | .post _ => fun _ => False
  | .drain => fun _ => False
  | _ => knows

theorem Fits.mono {knows more : Handle → Prop} {r : Request} (fits : r.Fits knows)
    (implies : ∀ h, knows h → more h) : r.Fits more := by
  cases r with
  | look h => exact implies h fits
  | shutdown => exact fits
  | _ => trivial

theorem leaves_mono {knows more : Handle → Prop} (r : Request)
    (implies : ∀ h, knows h → more h) : ∀ h, r.leaves knows h → r.leaves more h := by
  cases r with
  | copy _ => exact fun _ => id
  | forward _ _ => exact fun _ => id
  | post _ => exact fun _ => id
  | drain => exact fun _ => id
  | _ => exact implies

end Request

namespace Program

/-- What the program does is settled without the forks and origins of parcels that it does not know
at first; if it is done, then it still knows the given ones. -/
def Heedless (keeps : σ → Prop) (still : Handle → Prop) : Program σ α → (Handle → Prop) → Prop
  | .done _, knows => ∀ h, still h → knows h
  | .fail _, _ => True
  | .keep s next, knows => keeps s ∧ next.Heedless keeps still knows
  | .ask r next, knows => r.Fits knows ∧ ∀ a, (next a).Heedless keeps still (r.leaves knows)

variable {keeps : σ → Prop} {still knows : Handle → Prop}

theorem Heedless.mono {more : Handle → Prop} {program : Program σ α}
    (heedless : program.Heedless keeps still knows) (implies : ∀ h, knows h → more h) :
    program.Heedless keeps still more := by
  induction program generalizing knows more with
  | done a => exact fun h holds => implies h (heedless h holds)
  | fail e => exact trivial
  | keep s next ih => exact ⟨heedless.1, ih heedless.2 implies⟩
  | ask r next ih =>
    exact ⟨heedless.1.mono implies, fun a => ih a (heedless.2 a) (r.leaves_mono implies)⟩

theorem Heedless.bind {mid : Handle → Prop} {program : Program σ α} {next : α → Program σ β}
    (first : program.Heedless keeps mid knows)
    (rest : ∀ a, (next a).Heedless keeps still mid) :
    (program >>= next).Heedless keeps still knows := by
  induction program generalizing knows with
  | done a => exact (rest a).mono first
  | fail e => exact trivial
  | keep s later ih => exact ⟨first.1, ih first.2⟩
  | ask r later ih => exact ⟨first.1, fun a => ih a (first.2 a)⟩

theorem Heedless.mapState {keeps : τ → Prop} {f : σ → τ} {program : Program σ α}
    (heedless : program.Heedless (fun s => keeps (f s)) still knows) :
    (program.mapState f).Heedless keeps still knows := by
  induction program generalizing knows with
  | done a => exact heedless
  | fail e => exact trivial
  | keep s next ih => exact ⟨heedless.1, ih heedless.2⟩
  | ask r next ih => exact ⟨heedless.1, fun a => ih a (heedless.2 a)⟩

theorem Heedless.request {r : Request} (fits : r.Fits knows) :
    (Program.request r : Program σ r.Answer).Heedless keeps (r.leaves knows) knows :=
  ⟨fits, fun _ _ => id⟩

theorem Heedless.skip : (Program.skip : Program σ Unit).Heedless keeps knows knows :=
  fun _ => id

theorem Heedless.ofConfig (result : Except ConfigError Unit) :
    (Program.ofConfig result : Program σ Unit).Heedless keeps knows knows := by
  cases result with
  | ok _ => exact .skip
  | error e => exact trivial

end Program

namespace Stage

def Knows (tank : Bool) (knows : Handle → Prop) (h : Handle) : Prop := tank = false ∧ knows h

/-- A family of stages that do not go by the forks and origins of parcels, unless it is those of
the one that has just come, and that never close the graph. A stage with a tank goes by none. -/
class Heedless (σ : Type) [Stage σ] : Prop where
  accept : ∀ here (s : σ) h, (accept here s h).Heedless (hasTank · = hasTank s) (fun _ => False)
    (Knows (hasTank s) (· = h))
  beforeAccept : ∀ here (s : σ) h, (beforeAccept here s h).Heedless (hasTank · = hasTank s)
    (Knows (hasTank s) (· = h)) (Knows (hasTank s) (· = h))
  afterAccept : ∀ here (s : σ), (afterAccept here s).Heedless (hasTank · = hasTank s)
    (fun _ => False) fun _ => False
  notice : ∀ m (s : σ), hasTank (notice m s).1 = hasTank s
  onMessage : ∀ here (s : σ) m, (onMessage here s m).Heedless (hasTank · = hasTank s)
    (fun _ => False) fun _ => False
  reconfigure : ∀ here params changed (s : σ) knows, (reconfigure here params changed s).Heedless
    (hasTank · = hasTank s) (Knows (hasTank s) knows) (Knows (hasTank s) knows)

end Stage

namespace Stock

theorem accept_heedless (here : Here) (s : Stock) (h : Handle) :
    (s.accept here h).Heedless (Stage.hasTank · = Stage.hasTank s) (fun _ => False)
      (Stage.Knows (Stage.hasTank s) (· = h)) := by
  have looks (untanked : Stage.hasTank s = false) :
      (Request.look h).Fits (Stage.Knows (Stage.hasTank s) (· = h)) := ⟨untanked, rfl⟩
  cases s with
  | passThrough => exact ⟨trivial, fun _ _ => False.elim⟩
  | waste n => exact ⟨rfl, fun _ => False.elim⟩
  | sink s => exact ⟨rfl, trivial, fun _ _ => False.elim⟩
  | reverseString =>
    refine ⟨looks rfl, fun p => ⟨trivial, fun _ => ?_⟩⟩
    dsimp only
    split
    · exact ⟨trivial, fun _ => trivial⟩
    · exact ⟨trivial, fun _ => ⟨trivial, fun _ => ⟨trivial, fun _ _ => False.elim⟩⟩⟩
  | wrap w =>
    exact ⟨looks rfl, fun _ => ⟨trivial, fun _ => ⟨trivial, fun _ _ => False.elim⟩⟩⟩
  | seqPacket s =>
    exact ⟨looks rfl, fun _ => ⟨trivial, fun _ => ⟨rfl, trivial, fun _ _ => False.elim⟩⟩⟩
  | branchClone =>
    exact ⟨trivial, fun _ => ⟨trivial, fun _ => ⟨trivial, fun _ _ => False.elim⟩⟩⟩
  | branchRef => exact ⟨trivial, fun _ => ⟨trivial, fun _ _ => False.elim⟩⟩
  | branchIf b =>
    refine .mapState (.bind (.request (looks rfl)) fun p => ?_)
    split
    · exact .request trivial
    · exact trivial
  | factorial =>
    refine .bind (.request (looks rfl)) fun p => ?_
    split
    · exact .bind (.request trivial) fun _ => .request trivial
    · exact trivial
  | tankQueue => exact ⟨trivial, fun _ => ⟨trivial, fun _ _ => False.elim⟩⟩
  | tankFeed f =>
    refine .mapState ?_
    unfold TankFeed.accept
    split
    · exact ⟨trivial, fun _ _ => False.elim⟩
    · exact trivial
  | sendMessage s =>
    obtain ⟨message⟩ := s
    cases message with
    | none => exact ⟨trivial, fun _ _ => False.elim⟩
    | some m => exact ⟨trivial, fun _ => ⟨trivial, fun _ _ => False.elim⟩⟩
  | reset r =>
    refine .mapState (.bind (.request (looks rfl)) fun p => ?_)
    split
    · exact trivial
    · exact .bind (.request trivial) fun _ => .request trivial
  | script run params =>
    refine .bind (.request (looks rfl)) fun p => ?_
    dsimp only
    refine .bind (.request trivial) fun _ => ?_
    split
    · exact ⟨trivial, fun _ => trivial⟩
    · exact .request trivial

theorem onMessage_heedless (here : Here) (s : Stock) (m : Message) :
    (s.onMessage here m).Heedless (Stage.hasTank · = Stage.hasTank s) (fun _ => False)
      fun _ => False := by
  unfold onMessage
  split
  · refine .mapState ?_
    unfold SeqPacket.onMessage
    split
    · exact ⟨rfl, fun _ => id⟩
    · exact trivial
  · exact trivial

theorem hasTank_of_role {s t : Stock} (same : s.role = t.role) :
    Stage.hasTank s = Stage.hasTank t := by
  have tank (s : Stock) : Stage.hasTank s = Stage.hasTank s.role := by cases s <;> rfl
  rw [tank s, same, ← tank t]

theorem reconfigure_heedless (here : Here) (params : ParamTable) (changed : List String)
    (s : Stock) (knows : Handle → Prop) :
    (s.reconfigure here params changed).Heedless (Stage.hasTank · = Stage.hasTank s)
      (Stage.Knows (Stage.hasTank s) knows) (Stage.Knows (Stage.hasTank s) knows) := by
  unfold reconfigure
  split
  · refine .mapState (.bind ⟨rfl, .skip⟩ fun _ => .bind (.ofConfig _) fun _ => ?_)
    split
    · exact ⟨rfl, .skip⟩
    · exact .skip
  · -- The tank is drained meanwhile.
    refine Program.Heedless.mono (?_ : Program.Heedless _ _ _ fun _ => False) fun _ => False.elim
    refine .bind (.request trivial) fun t => .bind (.request trivial) fun _ => ?_
    refine .bind (.ofConfig _) fun _ => .bind (.request trivial) fun _ => ?_
    refine .bind (.request trivial) fun t => .bind (.request trivial) fun _ => ?_
    exact ⟨trivial, fun _ h known => Bool.noConfusion known.1⟩
  · refine .bind (.request trivial) fun t => ?_
    refine .bind ⟨hasTank_of_role (configure_role params s t), .skip⟩ fun _ => ?_
    exact .bind (.request trivial) fun _ => .ofConfig _

end Stock

namespace Stage

instance : Heedless Stock where
  accept := Stock.accept_heedless
  beforeAccept _ _ _ := .skip
  afterAccept _ _ := .skip
  notice m s := by cases s <;> rfl
  onMessage := Stock.onMessage_heedless
  reconfigure := Stock.reconfigure_heedless

instance [Stage σ] [Stage τ] [Heedless σ] [Heedless τ] : Heedless (σ ⊕ τ) where
  accept here s h := match s with
    | .inl s => .mapState (Heedless.accept here s h)
    | .inr s => .mapState (Heedless.accept here s h)
  beforeAccept here s h := match s with
    | .inl s => .mapState (Heedless.beforeAccept here s h)
    | .inr s => .mapState (Heedless.beforeAccept here s h)
  afterAccept here s := match s with
    | .inl s => .mapState (Heedless.afterAccept here s)
    | .inr s => .mapState (Heedless.afterAccept here s)
  notice m s := match s with
    | .inl s => Heedless.notice m s
    | .inr s => Heedless.notice m s
  onMessage here s m := match s with
    | .inl s => .mapState (Heedless.onMessage here s m)
    | .inr s => .mapState (Heedless.onMessage here s m)
  reconfigure here params changed s knows := match s with
    | .inl s => .mapState (Heedless.reconfigure here params changed s knows)
    | .inr s => .mapState (Heedless.reconfigure here params changed s knows)

end Stage

end Sluice
