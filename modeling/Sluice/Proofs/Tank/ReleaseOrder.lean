import Sluice.Proofs.Param.Integers
import Sluice.Proofs.Tank.Queue

set_option autoImplicit false

namespace Sluice

open Double (roundInt)

structure Buffer.Keyed {α : Type} (key : Nat → Double) (b : Buffer α) : Prop where
  ordered : b.Ordered
  priority : ∀ slot ∈ b.slots, slot.item.isSome = true → slot.priority = key slot.order

namespace Buffer.Keyed

variable {α : Type} {key : Nat → Double} {b : Buffer α}

theorem addSlot (keyed : b.Keyed key) {priority : Double} {item : Option α}
    (fits : item.isSome = true → priority = key (b.arrived + 1)) :
    (b.addSlot priority item).Keyed key where
  ordered := keyed.ordered.addSlot priority item
  priority slot member some := by
    rcases List.mem_cons.mp ((Slot.insert_perm _ b.slots).mem_iff.mp member) with rfl | member
    · exact fits some
    · exact keyed.priority slot member some

theorem rest (keyed : b.Keyed key) {slot : Slot α} {slots : List (Slot α)}
    (same : b.slots = slot :: slots) : ({ b with slots } : Buffer α).Keyed key := by
  obtain ⟨⟨leaving, arrived⟩, priority⟩ := keyed
  simp only [same, List.mem_cons, forall_eq_or_imp] at leaving arrived priority
  exact ⟨⟨(List.pairwise_cons.mp leaving).2, arrived.2⟩, priority.2⟩

end Buffer.Keyed

namespace Tank

/-- Tanks that order parcels by their own numbers. What has come in as the `n`-th, if it is no
placeholder, had the number `number n`. -/
inductive Numbered (number : Nat → Int) : Tank → Prop
  | made (capacity : Int) : Numbered number (make capacity seqField)
  | pushed {t : Tank} (before : Numbered number t) (h : Handle) {p : Parcel}
      (seq : p.seq = some (number (t.buffer.arrived + 1))) : Numbered number (t.push h p)
  | padded {t : Tank} (before : Numbered number t) : Numbered number t.pad
  | resized {t : Tank} (before : Numbered number t) (capacity : Int) :
      Numbered number { t with capacity }
  | popped {t rest : Tank} {item : Option Handle} (before : Numbered number t)
      (excess : t.popExcess = some (item, rest)) : Numbered number rest
  | counted {t : Tank} (before : Numbered number t) (released : Nat) :
      Numbered number { t with released }

def popAll : Nat → Tank → List (Option Handle) × Tank
  | 0, t => ([], t)
  | n + 1, t =>
    match t.popExcess with
    | none => ([], t)
    | some (item, rest) => (item :: (popAll n rest).1, (popAll n rest).2)

def drained (t : Tank) : List (Option Handle) × Tank := popAll t.size { t with capacity := 0 }

/-- The parcels that are held with the numbers of their arrivals, as their slots stand. -/
def parcels (t : Tank) : List (Nat × Handle) :=
  t.buffer.slots.filterMap fun slot => slot.item.map fun h => (slot.order, h)

variable {number : Nat → Int} {t : Tank}

theorem padBy_keyed {key : Nat → Double} (n : Nat) {b : Buffer Handle} (keyed : b.Keyed key) :
    (padBy n b).Keyed key := by
  induction n generalizing b with
  | zero => exact keyed
  | succ n ih => exact ih (keyed.addSlot nofun)

theorem Numbered.keyed (numbered : Numbered number t) :
    t.field = seqField ∧ t.buffer.Keyed fun n => Double.ofInt (number n) := by
  induction numbered with
  | made => exact ⟨rfl, .empty, nofun⟩
  | pushed before h seq ih =>
    refine ⟨ih.1, ih.2.addSlot fun _ => ?_⟩
    simp [priority, seq, ih.1]
  | padded before ih => exact ⟨ih.1, padBy_keyed _ ih.2⟩
  | resized before capacity ih => exact ih
  | popped before excess ih =>
    obtain ⟨-, -, slot, slots, same, -, rfl⟩ := popExcess_some excess
    exact ⟨ih.1, ih.2.rest same⟩
  | counted before released ih => exact ih

theorem popAll_flushed (arrived : Nat) (field : String) (released : Nat) {n : Nat}
    {slots : List (Slot Handle)} (enough : slots.length ≤ n) :
    popAll n ⟨⟨slots, arrived⟩, 0, field, released⟩ =
      (slots.map Slot.item, ⟨⟨[], arrived⟩, 0, field, released⟩) := by
  induction slots generalizing n with
  | nil => cases n <;> rfl
  | cons slot rest ih =>
    obtain ⟨n, rfl⟩ := Nat.exists_eq_add_one_of_ne_zero (show n ≠ 0 by rintro rfl; cases enough)
    have excess : ¬((rest.length : Int) + 1 ≤ 0) := by omega
    simp [popAll, popExcess, Buffer.pop, Buffer.size, excess, ih (Nat.le_of_succ_le_succ enough)]

theorem drained_eq (t : Tank) : t.drained = (t.buffer.slots.map Slot.item,
    { t with capacity := 0, buffer := { t.buffer with slots := [] } }) :=
  popAll_flushed t.buffer.arrived t.field t.released (Nat.le_refl _)

def Precedes (number : Nat → Int) (first later : Nat × Handle) : Prop :=
  roundInt (number first.1) < roundInt (number later.1) ∨
    roundInt (number first.1) = roundInt (number later.1) ∧ first.1 < later.1

section

variable (words : ∀ n, Value.fits (number n) = true)

include words

theorem log2_number (n : Nat) : (number n).natAbs.log2 < 64 := by
  have ⟨low, high⟩ := Value.fits_iff_between.mp (words n)
  refine Value.Storable.log2 ⟨low, ?_⟩
  simp only [Value.greatest] at high
  omega

theorem Numbered.precedes (numbered : Numbered number t) : t.parcels.Pairwise (Precedes number) := by
  obtain ⟨-, ⟨leaving, -⟩, priority⟩ := numbered.keyed
  refine List.pairwise_filterMap.mpr (leaving.imp_of_mem ?_)
  intro first later listed listed' before entry found entry' found'
  obtain ⟨h, item, rfl⟩ := Option.map_eq_some_iff.mp found
  obtain ⟨h', item', rfl⟩ := Option.map_eq_some_iff.mp found'
  have short := log2_number words
  rw [Slot.before_iff, priority first listed (by simp [item]), priority later listed' (by simp [item']),
    Double.ofInt_rank_lt (short _) (short _), Double.ofInt_rank_eq (short _) (short _)] at before
  exact before

theorem Numbered.ascending_iff (numbered : Numbered number t) :
    t.parcels.Pairwise (fun first later => number first.1 < number later.1) ↔
      ∀ a ∈ t.parcels, ∀ b ∈ t.parcels, a.1 < b.1 →
        roundInt (number a.1) = roundInt (number b.1) → number a.1 < number b.1 := by
  have precedes := numbered.precedes words
  constructor
  · intro ascending a am b bm earlier same
    let Stands (a b : Nat × Handle) : Prop := Precedes number a b ∧ number a.1 < number b.1
    have : Std.Symm fun a b => Stands a b ∨ Stands b a := ⟨fun _ _ => Or.symm⟩
    have stand : t.parcels.Pairwise Stands := precedes.and ascending
    have apart : a ≠ b := by
      rintro rfl
      exact Nat.lt_irrefl _ earlier
    rcases (stand.imp (S := fun a b => Stands a b ∨ Stands b a) .inl).forall am bm apart with
      ⟨-, less⟩ | ⟨before, -⟩
    · exact less
    -- Of two that are rounded alike, the later arrival does not leave first.
    · rcases before with less | ⟨-, later⟩ <;> omega
  · intro alike
    refine precedes.imp_of_mem fun {a b} am bm before => ?_
    rcases before with less | ⟨same, earlier⟩
    · exact Double.lt_of_roundInt_lt (log2_number words _) (log2_number words _) less
    · exact alike a am b bm earlier same

/-- All parcels leave by their numbers rounded to 53 binary digits, and in the order of arrival where
these are the same. They leave by the numbers themselves just if all that are rounded alike came in
that order, as do numbers of which one has fewer digits or that are more than 2048 apart. -/
theorem releases_by_rounded_number (numbered : Numbered number t) :
    (t.drained.1.filterMap id = t.parcels.map Prod.snd ∧ t.drained.2.size = 0 ∧
      t.drained.2.popExcess = none) ∧
    t.parcels.Pairwise (Precedes number) ∧
    (t.parcels.Pairwise (fun first later => number first.1 < number later.1) ↔
      ∀ a ∈ t.parcels, ∀ b ∈ t.parcels, a.1 < b.1 →
        roundInt (number a.1) = roundInt (number b.1) → number a.1 < number b.1) ∧
    ((∀ a ∈ t.parcels, ∀ b ∈ t.parcels, a.1 < b.1 → number a.1 ≠ number b.1 ∧
        ((number a.1).natAbs < 2 ^ 53 ∨ (number b.1).natAbs < 2 ^ 53 ∨
          2 ^ 11 < (number a.1 - number b.1).natAbs)) →
      t.parcels.Pairwise fun first later => number first.1 < number later.1) := by
  have ascending := numbered.ascending_iff words
  refine ⟨⟨?_, ?_, ?_⟩, numbered.precedes words, ascending, fun apart => ?_⟩
  · rw [drained_eq, parcels, List.filterMap_map, List.map_filterMap]
    simp [Function.comp_def]
  · rw [drained_eq]
    rfl
  · rw [drained_eq]
    rfl
  · refine ascending.mpr fun a am b bm earlier same => ?_
    obtain ⟨differ, far⟩ := apart a am b bm earlier
    by_contra behind
    have less := Double.roundInt_lt (log2_number words b.1) (log2_number words a.1) (by omega) (by omega)
    omega

end

def crossed : Tank :=
  ((make (-1) seqField).push 0 { Parcel.empty with seq := some (2 ^ 53 + 1) }).push 1
    { Parcel.empty with seq := some (2 ^ 53) }

def crossing (n : Nat) : Int := if n = 1 then 2 ^ 53 + 1 else 2 ^ 53

theorem neighbours_leave_by_arrival :
    (∀ n, Value.fits (crossing n) = true) ∧ Numbered crossing crossed ∧
      crossed.drained.1.filterMap id = [0, 1] ∧
      ¬crossed.parcels.Pairwise fun first later => crossing first.1 < crossing later.1 := by
  have words (n : Nat) : Value.fits (crossing n) = true := by
    unfold crossing
    split <;> decide
  have numbered : Numbered crossing crossed := .pushed (.pushed (.made (-1)) 0 rfl) 1 rfl
  have ⟨⟨leaves, _⟩, _, ascending, _⟩ := releases_by_rounded_number words numbered
  have parcels : crossed.parcels = [(1, 0), (2, 1)] := by decide +kernel
  refine ⟨words, numbered, by rw [leaves, parcels]; rfl, fun ordered => ?_⟩
  have less := ascending.mp ordered (1, 0) (by simp [parcels]) (2, 1) (by simp [parcels]) (by decide)
    (by decide +kernel)
  exact absurd less (by decide)

end Tank

end Sluice
