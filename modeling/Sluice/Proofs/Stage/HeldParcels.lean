import Sluice.Proofs.Stage.Feeds
import Sluice.Proofs.Tank.Releases

set_option autoImplicit false

namespace Sluice

variable {σ τ α β : Type}

namespace Tank

def handles (t : Tank) : List Handle := t.buffer.items

variable {t : Tank} {h : Handle}

theorem mem_handles_iff : h ∈ t.handles ↔ ∃ slot ∈ t.buffer.slots, slot.item = some h :=
  List.mem_filterMap

theorem mem_handles_push {p : Parcel} {k : Handle} :
    k ∈ (t.push h p).handles ↔ k = h ∨ k ∈ t.handles := by
  have perm := (Slot.insert_perm ⟨(t.priority p).getD (Double.ofInt (t.buffer.arrived + 1)),
    t.buffer.arrived + 1, some h⟩ t.buffer.slots).filterMap Slot.item
  exact perm.mem_iff.trans List.mem_cons

theorem items_padBy (n : Nat) (b : Buffer Handle) : (padBy n b).items.Perm b.items := by
  induction n generalizing b with
  | zero => exact .refl _
  | succ n ih => exact (ih _).trans ((Slot.insert_perm _ b.slots).filterMap Slot.item)

theorem mem_handles_pad : h ∈ t.pad.handles ↔ h ∈ t.handles := (items_padBy _ _).mem_iff

theorem Releases.handles {ended : Option Handle × Tank} (releases : t.Releases ended) :
    (∀ k, ended.1 = some k → k ∈ t.handles) ∧ ∀ k ∈ ended.2.handles, k ∈ t.handles := by
  induction releases with
  | stop => exact ⟨nofun, fun _ => id⟩
  | @drop t rest _ popped _ ih =>
    obtain ⟨-, -, slot, slots, same, -, rfl⟩ := popExcess_some popped
    have left : ∀ k ∈ Tank.handles { t with buffer := { t.buffer with slots } }, k ∈ t.handles := by
      intro k held
      obtain ⟨other, listed, item⟩ := mem_handles_iff.mp held
      exact mem_handles_iff.mpr ⟨other, same ▸ List.mem_cons_of_mem _ listed, item⟩
    exact ⟨fun k taken => left k (ih.1 k taken), fun k held => left k (ih.2 k held)⟩
  | @take t rest h popped =>
    obtain ⟨-, -, slot, slots, same, item, rfl⟩ := popExcess_some popped
    constructor
    · rintro _ ⟨⟩
      exact mem_handles_iff.mpr ⟨slot, same ▸ List.mem_cons_self, item.symm⟩
    · intro k held
      obtain ⟨other, listed, item⟩ := mem_handles_iff.mp held
      exact mem_handles_iff.mpr ⟨other, same ▸ List.mem_cons_of_mem _ listed, item⟩

end Tank

namespace Request

def Uses (may : Handle → Prop) : Request → Prop
  | .edit h _ => may h
  | .forward h _ => may h
  | .feed _ h => may h
  | .refill t => ∀ h ∈ t.handles, may h
  | .shutdown => False
  | _ => True

def Gives : (r : Request) → r.Answer → Handle → Prop
  | .copy _, copied, h => h = copied
  | .gauge, t, h => h ∈ Tank.handles t
  | _, _, _ => False

theorem Uses.mono {may more : Handle → Prop} {r : Request} (uses : r.Uses may)
    (implies : ∀ h, may h → more h) : r.Uses more := by
  cases r with
  | edit h p => exact implies h uses
  | forward h edge => exact implies h uses
  | feed node h => exact implies h uses
  | refill t => exact fun h held => implies h (uses h held)
  | shutdown => exact uses
  | _ => trivial

end Request

namespace Program

def Uses (may : Handle → Prop) : Program σ α → Prop
  | .done _ => True
  | .fail _ => True
  | .keep _ next => next.Uses may
  | .ask r next => r.Uses may ∧ ∀ a, (next a).Uses fun h => may h ∨ r.Gives a h

namespace Uses

variable {may : Handle → Prop}

theorem mono {more : Handle → Prop} {program : Program σ α} (uses : program.Uses may)
    (implies : ∀ h, may h → more h) : program.Uses more := by
  induction program generalizing may more with
  | done a => trivial
  | fail e => trivial
  | keep s next ih => exact ih uses implies
  | ask r next ih =>
    exact ⟨uses.1.mono implies, fun a => ih a (uses.2 a) fun h => .imp_left (implies h)⟩

theorem bind {program : Program σ α} {next : α → Program σ β} (first : program.Uses may)
    (rest : ∀ a, (next a).Uses may) : (program >>= next).Uses may := by
  induction program generalizing may with
  | done a => exact rest a
  | fail e => trivial
  | keep s later ih => exact ih first rest
  | ask r later ih =>
    exact ⟨first.1, fun a => ih a (first.2 a) fun b => (rest b).mono fun _ => .inl⟩

theorem mapState {f : σ → τ} {program : Program σ α} (uses : program.Uses may) :
    (program.mapState f).Uses may := by
  induction program generalizing may with
  | done a => trivial
  | fail e => trivial
  | keep s next ih => exact ih uses
  | ask r next ih => exact ⟨uses.1, fun a => ih a (uses.2 a)⟩

theorem request {r : Request} (uses : r.Uses may) :
    (Program.request r : Program σ r.Answer).Uses may := ⟨uses, fun _ => trivial⟩

theorem ofConfig (result : Except ConfigError Unit) :
    (Program.ofConfig result : Program σ Unit).Uses may := by
  cases result <;> trivial

theorem gauged {next : Tank → Program σ α}
    (rest : ∀ t, (next t).Uses fun h => may h ∨ h ∈ t.handles) : (Program.gauge >>= next).Uses may :=
  ⟨trivial, rest⟩

end Uses

end Program

theorem TankQueue.configure_handles (params : ParamTable) (t : Tank) {h : Handle}
    (held : h ∈ ((TankQueue.configure params).run t).2.handles) : h ∈ t.handles := by
  have set : ((settings params).run t).2.handles = t.handles :=
    congrArg Buffer.items (settings_buffer params t).1
  revert held
  unfold configure Configuring.run at *
  rw [ExceptT.run_bind, StateT.run_bind]
  rcases ran : StateT.run (ExceptT.run (settings params)) t with ⟨_ | _, settled⟩
  · rw [ran] at set
    exact fun held => set ▸ held
  · rw [ran] at set
    exact fun held => set ▸ Tank.mem_handles_pad.mp held

namespace Stock

theorem configure_handles (params : ParamTable) (s : Stock) (tank : Tank) {h : Handle}
    (held : h ∈ ((Stock.configure params).run ⟨s, tank⟩).2.tank.handles) : h ∈ tank.handles := by
  rw [configure_run] at held
  cases s with
  | tankQueue => exact TankQueue.configure_handles params tank held
  | _ => exact held

theorem accept_uses (here : Here) (s : Stock) (h : Handle) : (s.accept here h).Uses (· = h) := by
  cases s with
  | passThrough => exact ⟨rfl, fun _ => trivial⟩
  | waste n => trivial
  | sink s => exact ⟨rfl, fun _ => trivial⟩
  | reverseString =>
    refine .bind (.request trivial) fun p => .bind (.request trivial) fun _ => ?_
    split
    · exact ⟨trivial, fun _ => trivial⟩
    · exact .bind (.request rfl) fun _ => .bind (.request trivial) fun _ => .request rfl
  | wrap w => exact ⟨trivial, fun _ => ⟨.inl rfl, fun _ => ⟨.inl (.inl rfl), fun _ => trivial⟩⟩⟩
  | seqPacket s => exact ⟨trivial, fun _ => ⟨.inl rfl, fun _ => ⟨.inl (.inl rfl), fun _ => trivial⟩⟩⟩
  | branchClone =>
    exact ⟨trivial, fun _ => ⟨.inr rfl, fun _ => ⟨.inl (.inl rfl), fun _ => trivial⟩⟩⟩
  | branchRef => exact ⟨rfl, fun _ => ⟨.inl rfl, fun _ => trivial⟩⟩
  | branchIf b =>
    refine .mapState (.bind (.request trivial) fun p => ?_)
    split
    · exact .request rfl
    · trivial
  | factorial =>
    refine .bind (.request trivial) fun p => ?_
    split
    · exact .bind (.request rfl) fun _ => .request rfl
    · trivial
  | tankQueue => exact ⟨rfl, fun _ => ⟨trivial, fun _ => trivial⟩⟩
  | tankFeed f =>
    refine .mapState ?_
    unfold TankFeed.accept
    split
    · exact .request rfl
    · trivial
  | sendMessage s =>
    obtain ⟨message⟩ := s
    cases message with
    | none => exact ⟨rfl, fun _ => trivial⟩
    | some m => exact ⟨trivial, fun _ => ⟨.inl rfl, fun _ => trivial⟩⟩
  | reset r =>
    refine .mapState (.bind (.request trivial) fun p => ?_)
    split
    · trivial
    · exact .bind (.request trivial) fun _ => .request rfl
  | script run params =>
    refine .bind (.request trivial) fun p => ?_
    dsimp only
    refine .bind (.request rfl) fun _ => ?_
    split
    · exact ⟨trivial, fun _ => trivial⟩
    · exact .request rfl

variable {may : Handle → Prop}

theorem onMessage_uses (here : Here) (s : Stock) (m : Message) : (s.onMessage here m).Uses may := by
  unfold onMessage
  split
  · refine .mapState ?_
    unfold SeqPacket.onMessage
    split <;> trivial
  · trivial

theorem reconfigure_uses (here : Here) (s : Stock) (params : ParamTable) (changed : List String) :
    (s.reconfigure here params changed).Uses may := by
  unfold reconfigure
  split
  · refine .mapState (.bind trivial fun _ => .bind (.ofConfig _) fun _ => ?_)
    split <;> trivial
  · refine .gauged fun t => ?_
    have set : ((TankQueue.settings params).run t).2.handles = t.handles :=
      congrArg Buffer.items (TankQueue.settings_buffer params t).1
    refine .bind (.request fun h held => .inr (set ▸ held)) fun _ => .bind (.ofConfig _) fun _ => ?_
    refine .bind (.request trivial) fun _ => .gauged fun t => ?_
    exact .bind (.request fun h held => .inr (Tank.mem_handles_pad.mp held)) fun _ => .request trivial
  · refine .gauged fun t => .bind trivial fun _ => ?_
    exact .bind (.request fun h held => .inr (configure_handles params s t held)) fun _ => .ofConfig _

theorem flush_uses (s : Stock) : s.flush.Uses may := by
  cases s with
  | tankQueue => exact .gauged fun t => .bind (.request fun h held => .inr held) fun _ => .request trivial
  | _ => trivial

end Stock

end Sluice
