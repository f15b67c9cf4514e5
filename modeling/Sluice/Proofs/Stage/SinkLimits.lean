import Mathlib.Data.List.Basic
import Mathlib.Data.List.Induction
import Sluice.Proofs.Stage.Settings

set_option autoImplicit false

namespace Sluice.Sink

/-- What a sink meets with: a parcel, a message that passes, or parameters to be configured from. -/
inductive Input where
  | parcel (h : Handle)
  | message (m : Message)
  | settings (t : ParamTable)

def Input.parcel? : Input → Option Handle
  | .parcel h => some h
  | .message _ => none
  | .settings _ => none

def meet (s : Sink) : Input → Sink
  | .parcel h => s.keep h
  | .message m => s.notice m
  | .settings t => ((configure t).run s).2

def meetAll (s : Sink) (inputs : List Input) : Sink := inputs.foldl meet s

def limit? (t : ParamTable) : Option Nat :=
  match t.int "max_results" with
  | .error _ => none
  | .ok limit => if limit < 0 then none else some limit.toNat

theorem meetAll_concat (s : Sink) (inputs : List Input) (i : Input) :
    s.meetAll (inputs ++ [i]) = (s.meetAll inputs).meet i := by
  rw [meetAll, List.foldl_append]
  rfl

/-- A limit that is read becomes that of the sink, but too much is dropped only if the parameters are
not refused. -/
theorem meet_settings_cases (s : Sink) (t : ParamTable) :
    (limit? t = none ∧ s.meet (.settings t) = s) ∨ ∃ m, limit? t = some m ∧
      ((∃ e, t.flag "capture_msgs" = .error e ∧ s.meet (.settings t) = { s with maxResults := m }) ∨
        ∃ capture, t.flag "capture_msgs" = .ok capture ∧
          s.meet (.settings t) = trim { s with maxResults := m, capture }) := by
  unfold meet configure limit?
  dsimp only
  cases t.int "max_results" with
  | error e => exact .inl ⟨rfl, rfl⟩
  | ok limit =>
    dsimp only
    rw [Configuring.run_ok_bind]
    by_cases negative : limit < 0
    · rw [if_pos negative, if_pos negative]
      exact .inl ⟨rfl, rfl⟩
    · rw [if_neg negative, if_neg negative]
      refine .inr ⟨_, rfl, ?_⟩
      cases t.flag "capture_msgs" with
      | error e => exact .inl ⟨e, rfl, rfl⟩
      | ok capture => exact .inr ⟨capture, rfl, rfl⟩

/-- What goes from the kept parcels when a sink becomes another one goes from their front, and only
down to a limit that there is then. -/
def Sheds (s : Sink) (came : List Handle) (next : Sink) : Prop :=
  ∃ gone, s.results ++ came = gone ++ next.results ∧
    (gone ≠ [] → 0 < next.maxResults ∧ next.maxResults ≤ next.results.length)

theorem trim_sheds (s : Sink) : s.Sheds [] s.trim := by
  unfold trim
  split
  next => exact ⟨[], List.append_nil _, fun filled => absurd rfl filled⟩
  next limited =>
    refine ⟨s.results.take (s.results.length - s.maxResults), ?_, fun filled => ?_⟩
    · rw [List.append_nil]
      exact (List.take_append_drop _ _).symm
    · have many : s.results.length - s.maxResults ≠ 0 := fun none => filled (by rw [none]; rfl)
      refine ⟨Nat.pos_of_ne_zero limited, ?_⟩
      rw [List.length_drop]
      dsimp only
      omega

theorem keep_sheds (s : Sink) (h : Handle) : s.Sheds [h] (s.keep h) := by
  unfold keep
  dsimp only
  split
  next crowded =>
    simp only [Bool.and_eq_true, decide_eq_true_eq] at crowded
    refine ⟨(s.results ++ [h]).take 1, (List.take_append_drop 1 _).symm, fun _ => ⟨crowded.1, ?_⟩⟩
    dsimp only
    rw [List.length_drop]
    omega
  next => exact ⟨[], rfl, fun filled => absurd rfl filled⟩

theorem meet_sheds (s : Sink) (i : Input) : s.Sheds i.parcel?.toList (s.meet i) := by
  cases i with
  | parcel h => exact s.keep_sheds h
  | message m =>
    change s.Sheds [] (s.notice m)
    unfold notice
    split <;> exact ⟨[], List.append_nil _, fun filled => absurd rfl filled⟩
  | settings t =>
    change s.Sheds [] (s.meet (.settings t))
    rcases s.meet_settings_cases t with ⟨-, same⟩ | ⟨m, -, ⟨_, -, same⟩ | ⟨capture, -, same⟩⟩
    all_goals rw [same]
    · exact ⟨[], List.append_nil _, fun filled => absurd rfl filled⟩
    · exact ⟨[], List.append_nil _, fun filled => absurd rfl filled⟩
    · exact trim_sheds { s with maxResults := m, capture }

theorem meetAll_suffix (s : Sink) (inputs : List Input) :
    (s.meetAll inputs).results <:+ s.results ++ inputs.filterMap Input.parcel? := by
  induction inputs using List.reverseRecOn with
  | nil => exact ⟨[], (List.append_nil _).symm⟩
  | append_singleton inputs i ih =>
    obtain ⟨gone, came, -⟩ := (s.meetAll inputs).meet_sheds i
    obtain ⟨before, whole⟩ := ih
    have last : [i].filterMap Input.parcel? = i.parcel?.toList := by
      cases i <;> rfl
    refine ⟨before ++ gone, ?_⟩
    rw [meetAll_concat, List.filterMap_append, last, ← List.append_assoc, ← whole,
      List.append_assoc, List.append_assoc, came]

def Overfull (s : Sink) : Prop := 0 < s.maxResults ∧ s.maxResults < s.results.length

instance (s : Sink) : Decidable s.Overfull := inferInstanceAs (Decidable (_ ∧ _))

theorem keep_overfull (s : Sink) (h : Handle) : (s.keep h).Overfull ↔ s.Overfull := by
  have limit : (s.keep h).maxResults = s.maxResults := rfl
  have length : (s.keep h).results.length =
      if 0 < s.maxResults ∧ s.maxResults < s.results.length + 1 then s.results.length
      else s.results.length + 1 := by
    unfold keep
    simp only [List.length_append, List.length_singleton, Bool.and_eq_true, decide_eq_true_eq]
    split
    · rw [List.length_drop, List.length_append, List.length_singleton, Nat.add_sub_cancel]
    · rw [List.length_append, List.length_singleton]
  rw [Overfull, limit, length, Overfull]
  split <;> omega

theorem trim_fits (s : Sink) : ¬s.trim.Overfull := by
  rintro ⟨positive, more⟩
  unfold trim at positive more
  split at positive
  next none => exact absurd none (Nat.pos_iff_ne_zero.mp positive)
  next limited =>
    rw [if_neg limited] at more
    dsimp only at more
    rw [List.length_drop] at more
    omega

theorem configure_fits {s : Sink} {t : ParamTable} (taken : ((configure t).run s).1 = .ok ()) :
    ¬(s.meet (.settings t)).Overfull := by
  change ¬((configure t).run s).2.Overfull
  unfold configure at taken ⊢
  cases read : t.int "max_results" with
  | error e =>
    rw [read] at taken
    cases taken
  | ok limit =>
    rw [read, Configuring.run_ok_bind] at taken
    rw [Configuring.run_ok_bind]
    split at taken
    next => cases taken
    next positive =>
      rw [if_neg positive]
      cases flag : t.flag "capture_msgs" with
      | error e =>
        rw [flag] at taken
        cases taken
      | ok capture => exact trim_fits _

/-- The last parameters in which a limit could be read were refused, as they did not say whether to
capture messages, while more was kept than that limit. -/
def Unheeded (s : Sink) (inputs : List Input) : Prop :=
  ∃ before t after m e, inputs = before ++ .settings t :: after ∧ limit? t = some m ∧
    t.flag "capture_msgs" = .error e ∧ 0 < m ∧ m < (s.meetAll before).results.length ∧
      ∀ later, .settings later ∈ after → limit? later = none

theorem unheeded_concat_of_other {s : Sink} {inputs : List Input} {i : Input}
    (other : ∀ t, i = .settings t → limit? t = none) :
    s.Unheeded (inputs ++ [i]) ↔ s.Unheeded inputs := by
  constructor
  · rintro ⟨before, t, after, m, e, split, read, refused, positive, more, last⟩
    rcases List.eq_nil_or_concat' after with rfl | ⟨rest, j, rfl⟩
    · obtain ⟨-, same⟩ := List.append_inj' split rfl
      rw [other t (List.singleton_inj.mp same)] at read
      cases read
    · rw [← List.cons_append, ← List.append_assoc] at split
      obtain ⟨whole, -⟩ := List.append_inj' split rfl
      exact ⟨before, t, rest, m, e, whole, read, refused, positive, more,
        fun later listed => last later (List.mem_append_left _ listed)⟩
  · rintro ⟨before, t, after, m, e, rfl, read, refused, positive, more, last⟩
    refine ⟨before, t, after ++ [i], m, e, by simp, read, refused, positive, more, ?_⟩
    intro later listed
    rcases List.mem_append.mp listed with listed | same
    · exact last later listed
    · exact other later (List.mem_singleton.mp same).symm

theorem unheeded_concat_of_read {s : Sink} {inputs : List Input} {t : ParamTable} {m : Nat}
    (read : limit? t = some m) : s.Unheeded (inputs ++ [.settings t]) ↔
      (∃ e, t.flag "capture_msgs" = .error e) ∧ 0 < m ∧ m < (s.meetAll inputs).results.length := by
  constructor
  · rintro ⟨before, t', after, m', e, split, read', refused, positive, more, last⟩
    rcases List.eq_nil_or_concat' after with rfl | ⟨rest, j, rfl⟩
    · obtain ⟨rfl, same⟩ := List.append_inj' split rfl
      cases same
      cases read.symm.trans read'
      exact ⟨⟨e, refused⟩, positive, more⟩
    · rw [← List.cons_append, ← List.append_assoc] at split
      obtain ⟨-, same⟩ := List.append_inj' split rfl
      cases same
      rw [last t (List.mem_append_right _ (List.mem_singleton_self _))] at read
      cases read
  · rintro ⟨⟨e, refused⟩, positive, more⟩
    exact ⟨inputs, t, [], m, e, rfl, read, refused, positive, more, nofun⟩

theorem overfull_iff_unheeded {s : Sink} (fits : ¬s.Overfull) (inputs : List Input) :
    (s.meetAll inputs).Overfull ↔ s.Unheeded inputs := by
  induction inputs using List.reverseRecOn with
  | nil =>
    refine ⟨fun full => absurd full fits, ?_⟩
    rintro ⟨before, t, after, m, e, split, -⟩
    cases before <;> cases split
  | append_singleton inputs i ih =>
    rw [meetAll_concat]
    cases i with
    | parcel h =>
      rw [unheeded_concat_of_other (by rintro t ⟨⟩), ← ih]
      exact keep_overfull _ h
    | message m =>
      rw [unheeded_concat_of_other (by rintro t ⟨⟩), ← ih]
      change ((s.meetAll inputs).notice m).Overfull ↔ _
      unfold notice
      split <;> rfl
    | settings t =>
      rcases (s.meetAll inputs).meet_settings_cases t with
        ⟨unread, same⟩ | ⟨m, read, ⟨e, refused, same⟩ | ⟨capture, flag, same⟩⟩
      · rw [unheeded_concat_of_other (by rintro _ ⟨⟩; exact unread), same, ih]
      · rw [unheeded_concat_of_read read, same]
        exact ⟨fun full => ⟨⟨e, refused⟩, full⟩, fun full => full.2⟩
      · rw [unheeded_concat_of_read read, same]
        refine ⟨fun full => absurd full (trim_fits _), fun ⟨⟨e, refused⟩, _⟩ => ?_⟩
        rw [flag] at refused
        cases refused

end Sluice.Sink
