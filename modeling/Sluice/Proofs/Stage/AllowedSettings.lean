import Sluice.Proofs.Param.TableOrder
import Sluice.Proofs.Stage.ParamReads

set_option autoImplicit false

namespace Sluice

namespace Stock

@[simp]
def allows (s : Stock) (key : String) (value : Value) : Bool :=
  match s with
  | .sink _ =>
    if key = "max_results" then (ParamTable.readInt value).any fun limit => decide (0 ≤ limit)
    else if key = "capture_msgs" then (ParamTable.readFlag value).isSome
    else true
  | .seqPacket _ => if key = "start" then (ParamTable.readInt value).isSome else true
  | .branchIf _ =>
    if key = "comparison" then (Comparison.ofName? value.render).isSome
    else if key = "branch_on_packet" then (ParamTable.readFlag value).isSome
    else true
  | .tankQueue => if key = "tank_size" then (ParamTable.readInt value).isSome else true
  | .sendMessage _ =>
    if key = "destination" then !Text.isAllBlank value.render
    else if key = "message" then !Text.isAllBlank (Literal.split (Text.trim value.render)).1
    else if key = "single_use" then (ParamTable.readFlag value).isSome
    else true
  | _ => true

def Allows (s : Stock) (t : ParamTable) : Prop :=
  ∀ key ∈ s.reads, ∃ value, t.get? key = some value ∧ s.allows key value = true

end Stock

section

open ParamTable

variable (t : ParamTable)

theorem Sink.configure_ok_iff (s : Sink) :
    ((configure t).run s).1 = .ok () ↔ (Stock.sink s).Allows t := by
  unfold configure ParamTable.int flag readAs value
  simp only [Stock.Allows, Stock.reads, List.forall_mem_cons, Stock.allows]
  cases t.get? "max_results" with
  | none => simp [Except.bind]
  | some limit =>
    cases read : readInt limit with
    | none => simp [Except.bind, read]
    | some n =>
      by_cases negative : n < 0
      · have : ¬0 ≤ n := by omega
        simp [Except.bind, read, negative, this]
      · have : 0 ≤ n := by omega
        cases t.get? "capture_msgs" with
        | none => simp [Except.bind, read, negative]
        | some capture =>
          cases flag : readFlag capture <;> simp [Except.bind, read, negative, flag, this]

theorem Wrap.configure_ok_iff (w : Wrap) :
    ((configure t).run w).1 = .ok () ↔ (Stock.wrap w).Allows t := by
  unfold configure affix value
  simp only [Stock.Allows, Stock.reads, List.forall_mem_cons, Stock.allows]
  cases t.get? "data_prefix" <;> cases t.get? "data_suffix" <;> simp [Except.map]

theorem SeqPacket.settings_ok_iff (s : SeqPacket) :
    ((settings t).run s).1 = .ok () ↔ (Stock.seqPacket s).Allows t := by
  unfold settings ParamTable.int text readAs value
  simp only [Stock.Allows, Stock.reads, List.forall_mem_cons, Stock.allows]
  cases t.get? "seq_packet_field_name" with
  | none => simp [Except.map]
  | some field =>
    cases t.get? "start" with
    | none => simp [Except.map, Except.bind]
    | some start => cases read : readInt start <;> simp [Except.map, Except.bind, read]

theorem TankQueue.settings_ok_iff (tank : Tank) :
    ((settings t).run tank).1 = .ok () ↔ Stock.tankQueue.Allows t := by
  unfold settings ParamTable.int text readAs value
  simp only [Stock.Allows, Stock.reads, List.forall_mem_cons, Stock.allows]
  cases t.get? "tank_size" with
  | none => simp [Except.bind]
  | some size =>
    cases read : readInt size with
    | none => simp [Except.bind, read]
    | some n => cases t.get? "priority_field_name" <;> simp [Except.map, Except.bind, read]

theorem BranchIf.configure_ok_iff (b : BranchIf) :
    ((configure t).run b).1 = .ok () ↔ (Stock.branchIf b).Allows t := by
  unfold configure flag text readAs value
  simp only [Stock.Allows, Stock.reads, List.forall_mem_cons, Stock.allows]
  cases t.get? "branch_key" with
  | none => simp [Except.map]
  | some key =>
    cases t.get? "comparison" with
    | none => simp [Except.map]
    | some name =>
      cases named : Comparison.ofName? name.render with
      | none => simp [Except.map, named]
      | some comparison =>
        cases t.get? "compare_value" with
        | none => simp [Except.map, named]
        | some against =>
          cases t.get? "branch_on_packet" with
          | none => simp [Except.map, Except.bind, named]
          | some own => cases read : readFlag own <;> simp [Except.map, Except.bind, named, read]

theorem SendMessage.configure_ok_iff (s : SendMessage) :
    ((configure t).run s).1 = .ok () ↔ (Stock.sendMessage s).Allows t := by
  unfold configure flag text readAs value Message.parse Message.make
  simp only [Stock.Allows, Stock.reads, List.forall_mem_cons, Stock.allows]
  cases t.get? "destination" with
  | none => simp [Except.map]
  | some destination =>
    cases t.get? "message" with
    | none => simp [Except.map]
    | some command =>
      by_cases nobody : Text.isAllBlank destination.render = true
      · simp [Except.map, nobody]
      · by_cases nothing : Text.isAllBlank (Literal.split (Text.trim command.render)).1 = true
        · simp [Except.map, nobody, nothing]
        · cases t.get? "single_use" with
          | none => simp [Except.map, Except.bind, nobody, nothing]
          | some single =>
            cases read : readFlag single <;> simp [Except.map, Except.bind, nobody, nothing, read]

theorem Reset.configure_ok_iff (r : Reset) :
    ((configure t).run r).1 = .ok () ↔ (Stock.reset r).Allows t := by
  unfold configure text value
  simp only [Stock.Allows, Stock.reads, List.forall_mem_cons, Stock.allows]
  cases t.get? "destination" <;> cases t.get? "param_name" <;> cases t.get? "new_value" <;>
    simp [Except.map]

end

namespace Stock

theorem configure_ok_iff (t : ParamTable) (s : Stock) (tank : Tank) :
    ((configure t).run ⟨s, tank⟩).1 = .ok () ↔ s.Allows t := by
  rw [configure_run]
  cases s with
  | sink s => exact Sink.configure_ok_iff t s
  | wrap w => exact Wrap.configure_ok_iff t w
  | seqPacket s =>
    have settled := (Configuring.run_followed (fun _ => ()) (SeqPacket.settings t) SeqPacket.restart
      (fun _ => rfl) s).1
    exact settled ▸ SeqPacket.settings_ok_iff t s
  | branchIf b => exact BranchIf.configure_ok_iff t b
  | tankQueue =>
    have settled := (Configuring.run_followed (fun _ => ()) (TankQueue.settings t) Tank.pad
      (fun _ => rfl) tank).1
    exact settled ▸ TankQueue.settings_ok_iff t tank
  | sendMessage s => exact SendMessage.configure_ok_iff t s
  | reset r => exact Reset.configure_ok_iff t r
  | _ => exact iff_of_true rfl nofun

theorem Allows.rejected {s : Stock} {t : ParamTable} (allows : s.Allows t) {key : String}
    {value : Value} (rejects : ¬s.Allows (t.put key value)) :
    key ∈ s.reads ∧ s.allows key value = false := by
  by_contra other
  refine rejects fun read listed => ?_
  by_cases here : read = key
  · subst here
    exact ⟨value, t.get?_put_self value read, by simpa only [listed, true_and, Bool.not_eq_false] using other⟩
  · rw [t.get?_put_of_ne value here]
    exact allows read listed

theorem not_allows_put {s : Stock} (t : ParamTable) {key other : String} {value : Value}
    (listed : key ∈ s.reads) (rejects : s.allows key value = false) (ne : other ≠ key)
    (later : Value) : ¬s.Allows ((t.put key value).put other later) := by
  intro allows
  obtain ⟨found, there, allowed⟩ := allows key listed
  rw [ParamTable.get?_put_of_ne _ _ ne.symm, ParamTable.get?_put_self] at there
  cases there
  rw [rejects] at allowed
  cases allowed

end Stock

namespace Configuring

variable {α β : Type} {c : Configuring α β} {next : β → Configuring α Unit} {a b : α}

theorem run_bind_error {e : ConfigError} (ran : StateT.run (ExceptT.run c) a = (.error e, b)) :
    run (c >>= next) a = (.error e, b) := by
  unfold run
  rw [ExceptT.run_bind, StateT.run_bind, ran]
  rfl

end Configuring

theorem SeqPacket.configure_failed {t : ParamTable} {s after : SeqPacket} {e : ConfigError}
    (ran : (settings t).run s = (.error e, after)) : (configure t).run s = (.error e, after) :=
  Configuring.run_bind_error ran

theorem TankQueue.configure_failed {t : ParamTable} {tank after : Tank} {e : ConfigError}
    (ran : (settings t).run tank = (.error e, after)) :
    (configure t).run tank = (.error e, after) := Configuring.run_bind_error ran

section

open ParamTable

-- What stands before the rejected value is set as it was, and what stands after it is not reached.
variable {t : ParamTable} {key : String} {value : Value}

theorem Sink.configure_rejected {s : Sink} (allows : (Stock.sink s).Allows t)
    (same : ((configure t).run s).2.emptied = s.emptied) (listed : key ∈ (Stock.sink s).reads)
    (rejects : (Stock.sink s).allows key value = false) :
    ((configure (t.put key value)).run s).2 = s := by
  obtain ⟨limit, bound, taken⟩ := allows "max_results" (by simp [Stock.reads])
  obtain ⟨capture, bound', taken'⟩ := allows "capture_msgs" (by simp [Stock.reads])
  simp only [Stock.allows, reduceIte, String.reduceEq, Option.any_eq_true, Option.isSome_iff_exists,
    decide_eq_true_eq]
    at taken taken'
  obtain ⟨n, read, room⟩ := taken
  obtain ⟨flagged, read'⟩ := taken'
  have room : ¬n < 0 := by omega
  simp only [Stock.reads, List.mem_cons, List.not_mem_nil, or_false] at listed
  rcases listed with rfl | rfl
  · simp only [Stock.allows] at rejects
    cases now : readInt value with
    | none => simp [configure, int, readAs, ParamTable.value, get?_put_self, Except.bind, now]
    | some m =>
      have low : m < 0 := by simpa [now] using rejects
      simp [configure, int, readAs, ParamTable.value, get?_put_self, Except.bind, now, low]
  · simp only [Stock.allows, reduceIte, String.reduceEq, Option.isSome_eq_false_iff,
      Option.isNone_iff_eq_none] at rejects
    have other : (t.put "capture_msgs" value).get? "max_results" = some limit := by
      rw [t.get?_put_of_ne value (by decide), bound]
    simp [configure, int, flag, readAs, ParamTable.value, bound, bound', Except.bind, read, read',
      room, emptied_trim] at same
    simp only [emptied, Sink.mk.injEq] at same
    simp [configure, int, flag, readAs, ParamTable.value, get?_put_self, other, Except.bind, read,
      room, rejects, same]

theorem SeqPacket.settings_rejected {s : SeqPacket} (allows : (Stock.seqPacket s).Allows t)
    (same : ((settings t).run s).2.uncounted = s.uncounted) (listed : key ∈ (Stock.seqPacket s).reads)
    (rejects : (Stock.seqPacket s).allows key value = false) :
    ((settings (t.put key value)).run s).2 = s := by
  obtain ⟨field, bound, -⟩ := allows "seq_packet_field_name" (by simp [Stock.reads])
  obtain ⟨start, bound', taken⟩ := allows "start" (by simp [Stock.reads])
  simp only [Stock.allows, reduceIte, Option.isSome_iff_exists] at taken
  obtain ⟨n, read⟩ := taken
  simp only [Stock.reads, List.mem_cons, List.not_mem_nil, or_false] at listed
  rcases listed with rfl | rfl
  · cases rejects
  · simp only [Stock.allows, reduceIte, Option.isSome_eq_false_iff, Option.isNone_iff_eq_none] at rejects
    have other : (t.put "start" value).get? "seq_packet_field_name" = some field := by
      rw [t.get?_put_of_ne value (by decide), bound]
    simp [settings, int, text, readAs, ParamTable.value, bound, bound', Except.bind, Except.map,
      read, uncounted] at same
    simp [settings, int, text, readAs, ParamTable.value, get?_put_self, other, Except.bind,
      Except.map, rejects, same]

theorem TankQueue.settings_rejected (tank : Tank) (listed : key ∈ Stock.tankQueue.reads)
    (rejects : Stock.tankQueue.allows key value = false) :
    ((settings (t.put key value)).run tank).2 = tank := by
  simp only [Stock.reads, List.mem_cons, List.not_mem_nil, or_false] at listed
  rcases listed with rfl | rfl
  · simp only [Stock.allows, reduceIte, Option.isSome_eq_false_iff, Option.isNone_iff_eq_none] at rejects
    simp [settings, int, readAs, ParamTable.value, get?_put_self, Except.bind, rejects]
  · cases rejects

theorem BranchIf.configure_rejected {b : BranchIf} (allows : (Stock.branchIf b).Allows t)
    (same : ((configure t).run b).2 = b) (listed : key ∈ (Stock.branchIf b).reads)
    (rejects : (Stock.branchIf b).allows key value = false) :
    ((configure (t.put key value)).run b).2 = b := by
  obtain ⟨read, bound, -⟩ := allows "branch_key" (by simp [Stock.reads])
  obtain ⟨name, bound', taken⟩ := allows "comparison" (by simp [Stock.reads])
  obtain ⟨against, bound'', -⟩ := allows "compare_value" (by simp [Stock.reads])
  obtain ⟨own, last, taken'⟩ := allows "branch_on_packet" (by simp [Stock.reads])
  simp only [Stock.allows, reduceIte, String.reduceEq, Option.isSome_iff_exists] at taken taken'
  obtain ⟨comparison, named⟩ := taken
  obtain ⟨flagged, read'⟩ := taken'
  simp [configure, flag, text, readAs, ParamTable.value, bound, bound', bound'', last,
    Except.bind, Except.map, named, read'] at same
  simp only [Stock.reads, List.mem_cons, List.not_mem_nil, or_false] at listed
  rcases listed with rfl | rfl | rfl | rfl
  · cases rejects
  · simp only [Stock.allows, reduceIte, String.reduceEq, Option.isSome_eq_false_iff,
      Option.isNone_iff_eq_none] at rejects
    have other : (t.put "comparison" value).get? "branch_key" = some read := by
      rw [t.get?_put_of_ne value (by decide), bound]
    rw [← same]
    simp [configure, text, ParamTable.value, get?_put_self, other, Except.map, rejects]
  · cases rejects
  · simp only [Stock.allows, reduceIte, String.reduceEq, Option.isSome_eq_false_iff,
      Option.isNone_iff_eq_none] at rejects
    have others {before : String} (ne : before ≠ "branch_on_packet") :
        (t.put "branch_on_packet" value).get? before = t.get? before := t.get?_put_of_ne value ne
    rw [← same]
    simp [configure, flag, text, readAs, ParamTable.value, get?_put_self, others, bound, bound',
      bound'', Except.bind, Except.map, named, rejects]

theorem SendMessage.configure_rejected {s : SendMessage}
    (failed : ((configure t).run s).1 ≠ .ok ()) : ((configure t).run s).2 = s := by
  unfold configure at *
  cases destination : t.text "destination" with
  | error e => rfl
  | ok nobody =>
    cases command : t.text "message" with
    | error e => rfl
    | ok command' =>
      cases made : Message.parse nobody command' with
      | error e => simp [made]
      | ok m =>
        cases single : t.flag "single_use" with
        | error e => simp [made]
        | ok _ => simp [destination, command, made, single] at failed

end

theorem Stock.configure_rejected {t : ParamTable} {s : Stock} {tank : Tank} {key : String}
    {value : Value} (done : ((configure t).run ⟨s, tank⟩).1 = .ok ())
    (same : ((configure t).run ⟨s, tank⟩).2.settings = (Fitted.mk s tank).settings)
    (failed : ((configure (t.put key value)).run ⟨s, tank⟩).1 ≠ .ok ()) :
    ((configure (t.put key value)).run ⟨s, tank⟩).2 = ⟨s, tank⟩ ∧
      key ∈ s.reads ∧ s.allows key value = false := by
  have allows := (configure_ok_iff t s tank).mp done
  have rejected := mt (configure_ok_iff _ s tank).mpr failed
  obtain ⟨listed, rejects⟩ := allows.rejected rejected
  refine ⟨?_, listed, rejects⟩
  rw [configure_run] at *
  cases s with
  | sink s =>
    have kept := Sink.configure_rejected allows (by simpa [Fitted.settings, settings] using same)
      listed rejects
    simp [kept]
  | seqPacket s =>
    have follows := Configuring.run_followed SeqPacket.uncounted (SeqPacket.settings t)
      SeqPacket.restart (fun _ => rfl) s
    have same : ((SeqPacket.configure t).run s).2.uncounted = s.uncounted := by
      simpa [Fitted.settings, settings] using same
    have kept := SeqPacket.settings_rejected allows (follows.2.symm.trans same) listed rejects
    rcases ran : (SeqPacket.settings (t.put key value)).run s with ⟨_ | _, after⟩
    · rw [ran] at kept
      have stopped := congrArg Prod.snd (SeqPacket.configure_failed ran)
      exact congrArg (fun s => Fitted.mk (seqPacket s) tank) (stopped.trans kept)
    · exact absurd ((SeqPacket.settings_ok_iff _ s).mp (by rw [ran])) rejected
  | branchIf b =>
    have kept := BranchIf.configure_rejected allows (by simpa [Fitted.settings, settings] using same)
      listed rejects
    simp [kept]
  | tankQueue =>
    have kept := TankQueue.settings_rejected (t := t) tank listed rejects
    rcases ran : (TankQueue.settings (t.put key value)).run tank with ⟨_ | _, after⟩
    · rw [ran] at kept
      have stopped := congrArg Prod.snd (TankQueue.configure_failed ran)
      exact congrArg (Fitted.mk tankQueue) (stopped.trans kept)
    · exact absurd ((TankQueue.settings_ok_iff _ tank).mp (by rw [ran])) rejected
  | sendMessage s => simp [SendMessage.configure_rejected failed]
  | wrap w => simp [Stock.allows] at rejects
  | reset r => simp [Stock.allows] at rejects
  | _ => cases listed

end Sluice
