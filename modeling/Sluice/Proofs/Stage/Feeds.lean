import Sluice.Proofs.Stage.ParamReads

set_option autoImplicit false

namespace Sluice

def Request.tends : Request → Bool
  | .gauge => true
  | .refill _ => true
  | .drain => true
  | .report _ => true
  | _ => false

namespace TankQueue

variable {params : ParamTable} {t : Tank}

theorem settings_buffer (params : ParamTable) (t : Tank) :
    ((settings params).run t).2.buffer = t.buffer ∧ ((settings params).run t).2.released = t.released := by
  unfold settings
  cases params.int "tank_size" with
  | error e => exact ⟨rfl, rfl⟩
  | ok capacity =>
    cases params.text "priority_field_name" with
    | error e => exact ⟨rfl, rfl⟩
    | ok field => exact ⟨rfl, rfl⟩

theorem settings_failed (bound : params.has "priority_field_name" = true) {e : ConfigError}
    (failed : ((settings params).run t).1 = .error e) : ((settings params).run t).2 = t := by
  have ⟨field, named⟩ : ∃ field, params.text "priority_field_name" = .ok field := by
    have ⟨value, there⟩ := Option.isSome_iff_exists.mp bound
    refine ⟨value.render, ?_⟩
    unfold ParamTable.text ParamTable.value
    have got : params.get? "priority_field_name" = some value := there
    rw [got]
    rfl
  unfold settings at failed ⊢
  rw [named] at failed ⊢
  cases size : params.int "tank_size" with
  | error e => rfl
  | ok capacity =>
    rw [size] at failed
    cases failed

theorem configure_pads (done : ((configure params).run t).1 = .ok ()) :
    ((configure params).run t).2 = ((settings params).run t).2.pad := by
  revert done
  unfold configure Configuring.run
  rw [ExceptT.run_bind, StateT.run_bind]
  rcases StateT.run (ExceptT.run (settings params)) t with ⟨_ | _, set⟩
  · exact nofun
  · exact fun _ => rfl

end TankQueue

namespace Stock

def feeds (queue : NodeId) : Stock → Bool
  | .tankFeed f => f.target == some queue
  | _ => false

theorem feeds_iff {queue : NodeId} {s : Stock} :
    s.feeds queue = true ↔ s = .tankFeed ⟨some queue⟩ := by
  cases s with
  | tankFeed f =>
    obtain ⟨target⟩ := f
    simp [feeds]
  | _ => simp [feeds]

theorem feeds_role (queue : NodeId) (s : Stock) : s.role.feeds queue = s.feeds queue := by
  cases s <;> rfl

abbrev Tends (s : Stock) (program : Program Stock Unit) : Prop :=
  program.Obeys (fun r => r.tends = true ∧ (r = .drain → s = .tankQueue)) (fun t => t.role = s.role)
    (fun _ => True)

theorem onMessage_asks (here : Here) (s : Stock) (m : Message) :
    (s.onMessage here m).Obeys (fun _ => False) (fun t => t.role = s.role) (fun _ => True) := by
  unfold onMessage
  split
  next s =>
    refine .mapState ?_
    unfold SeqPacket.onMessage
    split
    · exact ⟨rfl, trivial⟩
    · exact trivial
  next => exact trivial

theorem flush_tends (s : Stock) : Tends s s.flush := by
  cases s with
  | tankQueue =>
    exact ⟨⟨rfl, nofun⟩, fun _ => ⟨⟨rfl, nofun⟩, fun _ => ⟨⟨rfl, fun _ => rfl⟩, fun _ => trivial⟩⟩⟩
  | _ => exact trivial

theorem reconfigure_tends (here : Here) (s : Stock) (params : ParamTable) (changed : List String) :
    Tends s (s.reconfigure here params changed) := by
  have config (e : ConfigError) : (fun _ : EngineError => True) (.config e) := trivial
  unfold reconfigure
  split
  next s =>
    refine .mapState (.bind (.become rfl) fun _ => .bind (.ofConfig config _) fun _ => ?_)
    split
    · exact .become rfl
    · exact trivial
  next =>
    have own (r : Request) (tends : r.tends = true) :
        r.tends = true ∧ (r = .drain → Stock.tankQueue = .tankQueue) := ⟨tends, fun _ => rfl⟩
    refine .bind (.request (own .gauge rfl)) fun t => .bind (.request (own (.refill _) rfl)) fun _ => ?_
    refine .bind (.ofConfig config _) fun _ => .bind (.request (own .drain rfl)) fun _ => ?_
    refine .bind (.request (own .gauge rfl)) fun t => .bind (.request (own (.refill _) rfl)) fun _ => ?_
    exact .request (own (.report _) rfl)
  next =>
    refine .bind (.request ⟨rfl, nofun⟩) fun t => .bind (.become (configure_role params s t)) fun _ => ?_
    exact .bind (.request ⟨rfl, nofun⟩) fun _ => .ofConfig config _

end Stock

end Sluice
