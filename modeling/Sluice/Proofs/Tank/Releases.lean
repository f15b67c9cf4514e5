import Sluice.Tank

set_option autoImplicit false

namespace Sluice

variable {α : Type}

theorem Slot.insert_perm (slot : Slot α) (slots : List (Slot α)) :
    (slot.insert slots).Perm (slot :: slots) := by
  induction slots with
  | nil => exact .refl _
  | cons other rest ih =>
    unfold insert
    split
    · exact .refl _
    · exact (ih.cons other).trans (.swap slot other rest)

theorem Slot.before_rank {a b : Slot α} (before : a.before b = true) :
    a.priority.rank ≤ b.priority.rank := by
  simp only [Slot.before, Bool.or_eq_true, decide_eq_true_eq, Bool.and_eq_true, beq_iff_eq] at before
  omega

theorem Slot.not_before_rank {a b : Slot α} (before : ¬a.before b = true) :
    b.priority.rank ≤ a.priority.rank := by
  simp only [Slot.before, Bool.or_eq_true, decide_eq_true_eq, Bool.and_eq_true, beq_iff_eq] at before
  omega

def Slot.Ascending (slots : List (Slot α)) : Prop :=
  slots.Pairwise fun first later => first.priority.rank ≤ later.priority.rank

theorem Slot.Ascending.insert {slots : List (Slot α)} (ascending : Ascending slots) (slot : Slot α) :
    Ascending (slot.insert slots) := by
  induction slots with
  | nil => exact List.pairwise_singleton _ _
  | cons other rest ih =>
    obtain ⟨first, later⟩ := List.pairwise_cons.mp ascending
    unfold Slot.insert
    split
    next before =>
      refine List.pairwise_cons.mpr ⟨fun next member => ?_, ascending⟩
      rcases List.mem_cons.mp member with rfl | member
      · exact before_rank before
      · exact Int.le_trans (before_rank before) (first next member)
    next after =>
      refine List.pairwise_cons.mpr ⟨fun next member => ?_, ih later⟩
      rcases List.mem_cons.mp ((insert_perm slot rest).mem_iff.mp member) with rfl | member
      · exact not_before_rank after
      · exact first next member

namespace Buffer

structure Sound (b : Buffer α) : Prop where
  ascending : Slot.Ascending b.slots
  placeholders : ∀ slot ∈ b.slots, slot.item = none → slot.priority = placeholderPriority

theorem Sound.empty : (empty : Buffer α).Sound := ⟨.nil, nofun⟩

theorem Sound.addSlot {b : Buffer α} (sound : b.Sound) {priority : Double} {item : Option α}
    (fits : item = none → priority = placeholderPriority) : (b.addSlot priority item).Sound := by
  refine ⟨sound.ascending.insert _, fun slot member none => ?_⟩
  rcases List.mem_cons.mp ((Slot.insert_perm _ b.slots).mem_iff.mp member) with rfl | member
  · exact fits none
  · exact sound.placeholders slot member none

theorem addSlot_size (b : Buffer α) (priority : Double) (item : Option α) :
    (b.addSlot priority item).size = b.size + 1 :=
  (Slot.insert_perm _ b.slots).length_eq

theorem addSlot_held (b : Buffer α) (priority : Double) (item : Option α) :
    (b.addSlot priority item).held = b.held + item.toList.length := by
  have perm := ((Slot.insert_perm ⟨priority, b.arrived + 1, item⟩ b.slots).filterMap Slot.item).length_eq
  cases item with
  | none => exact perm
  | some a => exact perm

end Buffer

namespace Tank

def Filled (t : Tank) : Prop := t.capacity ≤ t.size

def Full (t : Tank) : Prop := 0 ≤ t.capacity → (t.size : Int) = t.capacity

def intake (t : Tank) : Nat := t.released + t.held

section

variable {t rest : Tank} {item : Option Handle}

theorem popExcess_some (popped : t.popExcess = some (item, rest)) :
    0 ≤ t.capacity ∧ t.capacity < t.size ∧ ∃ slot slots, t.buffer.slots = slot :: slots ∧
      item = slot.item ∧ rest = { t with buffer := { t.buffer with slots } } := by
  unfold popExcess at popped
  split at popped
  next => cases popped
  next excess =>
    simp only [Bool.or_eq_true, decide_eq_true_eq, not_or, Int.not_lt, Int.not_le] at excess
    obtain ⟨⟨slot, buffer⟩, took, same⟩ := Option.map_eq_some_iff.mp popped
    obtain ⟨rfl, rfl⟩ := Prod.mk.inj same
    unfold Buffer.pop at took
    split at took
    next => cases took
    next first others slots =>
      obtain ⟨rfl, rfl⟩ := Prod.mk.inj (Option.some.inj took)
      exact ⟨excess.1, excess.2, first, others, slots, rfl, rfl⟩

theorem popExcess_none_iff : t.popExcess = none ↔ t.capacity < 0 ∨ (t.size : Int) ≤ t.capacity := by
  constructor
  · intro stopped
    refine Decidable.byContradiction fun excess => ?_
    simp only [not_or, Int.not_lt, Int.not_le] at excess
    have size : 0 < t.buffer.slots.length := by
      have : t.size = t.buffer.slots.length := rfl
      omega
    obtain ⟨slot, slots, same⟩ := List.exists_cons_of_length_pos size
    have popped : t.popExcess = some (slot.item, { t with buffer := { t.buffer with slots } }) := by
      have many : ¬(t.capacity < 0 || (t.buffer.size : Int) ≤ t.capacity) = true := by
        have : t.size = t.buffer.size := rfl
        simp only [Bool.or_eq_true, decide_eq_true_eq, not_or]
        omega
      unfold popExcess
      rw [if_neg many, Buffer.pop, same]
      rfl
    rw [stopped] at popped
    cases popped
  · intro fits
    have few : (t.capacity < 0 || (t.buffer.size : Int) ≤ t.capacity) = true := by
      simp only [Bool.or_eq_true, decide_eq_true_eq]
      exact fits
    unfold popExcess
    rw [if_pos few]

theorem Filled.full (filled : t.Filled) (relieved : t.popExcess = none) : t.Full := by
  intro bounded
  have fits := popExcess_none_iff.mp relieved
  unfold Filled at filled
  omega

theorem Full.relieved (full : t.Full) : t.popExcess = none := by
  refine popExcess_none_iff.mpr ?_
  by_cases bounded : 0 ≤ t.capacity
  · exact .inr (Int.le_of_eq (full bounded))
  · exact .inl (Int.not_le.mp bounded)

theorem Full.filled (full : t.Full) : t.Filled := by
  unfold Filled
  by_cases bounded : 0 ≤ t.capacity
  · exact Int.le_of_eq (full bounded).symm
  · omega

inductive Releases : Tank → Option Handle × Tank → Prop
  | stop {t : Tank} (relieved : t.popExcess = none) : Releases t (none, t)
  | drop {t rest : Tank} {ended : Option Handle × Tank} (popped : t.popExcess = some (none, rest))
      (later : Releases rest ended) : Releases t ended
  | take {t rest : Tank} {h : Handle} (popped : t.popExcess = some (some h, rest)) :
      Releases t (some h, { rest with released := rest.released + 1 })

theorem releaseBy_releases (n : Nat) (t : Tank) (enough : t.size ≤ n) : t.Releases (releaseBy n t) := by
  induction n generalizing t with
  | zero =>
    refine .stop (popExcess_none_iff.mpr ?_)
    omega
  | succ n ih =>
    unfold releaseBy
    split
    next none => exact .stop none
    next rest popped =>
      refine .drop popped (ih rest ?_)
      obtain ⟨-, -, slot, slots, same, -, rfl⟩ := popExcess_some popped
      simp only [size, Buffer.size, same, List.length_cons] at enough ⊢
      omega
    next h rest popped => exact .take popped

theorem release_releases (t : Tank) : t.Releases t.release :=
  releaseBy_releases t.size t (Nat.le_refl _)

theorem release_relieved (relieved : t.popExcess = none) : t.release = (none, t) := by
  unfold release
  cases t.size with
  | zero => rfl
  | succ n =>
    unfold releaseBy
    rw [relieved]

namespace Releases

variable {ended : Option Handle × Tank}

theorem relieved (releases : t.Releases ended) (stopped : ended.1 = none) :
    ended.2.popExcess = none := by
  induction releases with
  | stop relieved => exact relieved
  | drop _ _ ih => exact ih stopped
  | take _ => cases stopped

theorem intake (releases : t.Releases ended) : ended.2.intake = t.intake := by
  induction releases with
  | stop => rfl
  | drop popped _ ih =>
    obtain ⟨-, -, slot, slots, same, placeholder, rfl⟩ := popExcess_some popped
    rw [ih]
    simp only [Tank.intake, held, Buffer.held, Buffer.items, same,
      List.filterMap_cons_none placeholder.symm]
  | take popped =>
    obtain ⟨-, -, slot, slots, same, parcel, rfl⟩ := popExcess_some popped
    simp only [Tank.intake, held, Buffer.held, Buffer.items, same,
      List.filterMap_cons_some parcel.symm, List.length_cons]
    omega

theorem filled (releases : t.Releases ended) (filled : t.Filled) : ended.2.Filled := by
  have popped_filled {t rest : Tank} {item : Option Handle}
      (popped : t.popExcess = some (item, rest)) : rest.Filled := by
    obtain ⟨-, excess, slot, slots, same, -, rfl⟩ := popExcess_some popped
    simp only [size, Buffer.size, same, List.length_cons] at excess
    simp only [Filled, size, Buffer.size]
    omega
  induction releases with
  | stop => exact filled
  | drop popped _ ih => exact ih (popped_filled popped)
  | take popped =>
    have filled := popped_filled popped
    exact filled

theorem sound (releases : t.Releases ended) (sound : t.buffer.Sound) : ended.2.buffer.Sound := by
  have popped_sound {t rest : Tank} {item : Option Handle} (popped : t.popExcess = some (item, rest))
      (sound : t.buffer.Sound) : rest.buffer.Sound := by
    obtain ⟨-, -, slot, slots, same, -, rfl⟩ := popExcess_some popped
    obtain ⟨ascending, placeholders⟩ := sound
    rw [same] at ascending placeholders
    exact ⟨(List.pairwise_cons.mp ascending).2,
      fun other member => placeholders other (List.mem_cons_of_mem _ member)⟩
  induction releases with
  | stop => exact sound
  | drop popped _ ih => exact ih (popped_sound popped sound)
  | take popped =>
    have rest := popped_sound popped sound
    exact rest

theorem holds_back (releases : t.Releases ended) (sound : t.buffer.Sound) {h : Handle}
    (leaves : ended.1 = some h) : ∃ slot ∈ t.buffer.slots, slot.item = some h ∧
      (Buffer.placeholderPriority.rank < slot.priority.rank → t.capacity < t.held) := by
  induction releases with
  | stop => cases leaves
  | drop popped _ ih =>
    obtain ⟨-, -, first, slots, same, placeholder, rfl⟩ := popExcess_some popped
    have rest : Slot.Ascending slots := by
      have ascending := sound.ascending
      rw [same] at ascending
      exact (List.pairwise_cons.mp ascending).2
    obtain ⟨slot, member, item, holds⟩ := ih ⟨rest, fun slot member =>
      sound.placeholders slot (same ▸ List.mem_cons_of_mem _ member)⟩ leaves
    refine ⟨slot, same ▸ List.mem_cons_of_mem _ member, item, fun above => ?_⟩
    have more := holds above
    simpa only [held, Buffer.held, Buffer.items, same,
      List.filterMap_cons_none placeholder.symm] using more
  | @take t rest h popped =>
    obtain ⟨-, excess, slot, slots, same, parcel, rfl⟩ := popExcess_some popped
    obtain rfl := Option.some.inj leaves
    have ascending := sound.ascending
    rw [same] at ascending
    refine ⟨slot, same ▸ List.mem_cons_self, parcel.symm, fun above => ?_⟩
    -- A placeholder would have left before it, so that all slots hold parcels.
    have parcels : ∀ other ∈ t.buffer.slots, other.item.isSome = true := by
      intro other member
      refine Option.isSome_iff_ne_none.mpr fun empty => ?_
      have priority := sound.placeholders other member empty
      rw [same] at member
      rcases List.mem_cons.mp member with rfl | member
      · rw [empty] at parcel
        cases parcel
      · have later := (List.pairwise_cons.mp ascending).1 other member
        rw [priority] at later
        omega
    have all : t.held = t.size :=
      List.length_filterMap_eq_countP.trans (List.countP_eq_length.mpr parcels)
    omega

end Releases

end

section

variable (t : Tank) (h : Handle) (p : Parcel)

theorem push_held : (t.push h p).held = t.held + 1 := t.buffer.addSlot_held _ (some h)

theorem push_size : (t.push h p).size = t.size + 1 := t.buffer.addSlot_size _ _

theorem push_intake : (t.push h p).intake = t.intake + 1 := by
  have held := t.push_held h p
  have released : (t.push h p).released = t.released := rfl
  simp only [intake, held, released]
  omega

variable {t h p}

theorem Filled.push (filled : t.Filled) : (t.push h p).Filled := by
  have size := t.push_size h p
  have capacity : (t.push h p).capacity = t.capacity := rfl
  unfold Filled at *
  omega

end

theorem padBy_size (n : Nat) (b : Buffer Handle) : (padBy n b).size = b.size + n := by
  induction n generalizing b with
  | zero => rfl
  | succ n ih =>
    have size := b.addSlot_size Buffer.placeholderPriority none
    rw [padBy, ih, Buffer.pushPlaceholder, size]
    omega

theorem padBy_held (n : Nat) (b : Buffer Handle) : (padBy n b).held = b.held := by
  induction n generalizing b with
  | zero => rfl
  | succ n ih => exact (ih _).trans (b.addSlot_held _ none)

theorem padBy_sound (n : Nat) {b : Buffer Handle} (sound : b.Sound) : (padBy n b).Sound := by
  induction n generalizing b with
  | zero => exact sound
  | succ n ih => exact ih (sound.addSlot fun _ => rfl)

theorem pad_intake (t : Tank) : t.pad.intake = t.intake :=
  congrArg (t.released + ·) (padBy_held _ _)

theorem pad_full {t : Tank} (relieved : t.popExcess = none) : t.pad.Full := by
  intro bounded
  have fits := popExcess_none_iff.mp relieved
  have capacity : t.pad.capacity = t.capacity := rfl
  have size : t.pad.size = t.size + t.room := padBy_size _ _
  have room : t.room = (t.capacity - t.size).toNat := rfl
  omega

end Tank

end Sluice
