import Mathlib.Data.List.Pairwise
import Sluice.Proofs.Tank.Releases

set_option autoImplicit false

namespace Sluice

variable {α : Type}

namespace Slot

theorem before_iff {a b : Slot α} : a.before b = true ↔
    a.priority.rank < b.priority.rank ∨
      a.priority.rank = b.priority.rank ∧ a.order < b.order := by
  simp [before]

theorem before_trans {a b c : Slot α} (first : a.before b = true) (later : b.before c = true) :
    a.before c = true := by
  rw [before_iff] at first later ⊢
  omega

theorem before_asymm {a b : Slot α} (first : a.before b = true) : b.before a = false := by
  rw [← Bool.not_eq_true, before_iff]
  rw [before_iff] at first
  omega

theorem before_of_not {a b : Slot α} (apart : a.order ≠ b.order) (behind : ¬a.before b = true) :
    b.before a = true := by
  rw [before_iff] at behind ⊢
  omega

def Leaving (slots : List (Slot α)) : Prop :=
  slots.Pairwise fun first later => first.before later = true

theorem Leaving.insert {slots : List (Slot α)} (leaving : Leaving slots) {slot : Slot α}
    (fresh : ∀ other ∈ slots, other.order < slot.order) : Leaving (slot.insert slots) := by
  induction slots with
  | nil => exact List.pairwise_singleton _ _
  | cons other rest ih =>
    obtain ⟨first, later⟩ := List.pairwise_cons.mp leaving
    obtain ⟨arrived, fresh⟩ := List.forall_mem_cons.mp fresh
    unfold Slot.insert
    by_cases before : slot.before other = true
    · simp only [before, if_true]
      refine List.pairwise_cons.mpr ⟨fun next member => ?_, leaving⟩
      rcases List.mem_cons.mp member with rfl | member
      · exact before
      · exact before_trans before (first next member)
    · simp only [before]
      have behind : other.before slot = true := before_of_not (by omega) before
      refine List.pairwise_cons.mpr ⟨fun next member => ?_, ih later fresh⟩
      rcases List.mem_cons.mp ((insert_perm slot rest).mem_iff.mp member) with rfl | member
      · exact behind
      · exact first next member

theorem Leaving.of_perm {slots entries : List (Slot α)} (leaving : Leaving slots)
    (perm : entries.Perm slots) : (entries.mergeSort fun a b => !b.before a) = slots := by
  let le (a b : Slot α) : Bool := !b.before a
  have trans (a b c : Slot α) (ab : le a b = true) (bc : le b c = true) : le a c = true := by
    simp only [le, Bool.not_eq_true', ← Bool.not_eq_true, before_iff] at *
    omega
  have total (a b : Slot α) : (le a b || le b a) = true := by
    cases before : a.before b <;> simp [le, before, before_asymm]
  have sorted := List.pairwise_mergeSort trans total entries
  have same : (entries.mergeSort le).Perm slots := (List.mergeSort_perm entries le).trans perm
  have stands : slots.Pairwise fun a b => le a b = true :=
    leaving.imp fun before => by simp [le, before_asymm before]
  refine List.Perm.eq_of_pairwise (fun a b am bm ab ba => ?_) sorted stands same
  -- Of two slots that are not the same, one leaves before the other.
  have : Std.Symm fun a b : Slot α => a.before b = true ∨ b.before a = true := ⟨fun _ _ => Or.symm⟩
  have either : slots.Pairwise fun a b => a.before b = true ∨ b.before a = true := leaving.imp .inl
  by_contra apart
  rcases either.forall (same.mem_iff.mp am) bm apart with before | before
  · simp [le, before] at ba
  · simp [le, before] at ab

end Slot

namespace Buffer

/-- Slots stand in the order in which they leave, and each has an arrival number of its own. -/
structure Ordered (b : Buffer α) : Prop where
  leaving : Slot.Leaving b.slots
  arrived : ∀ slot ∈ b.slots, slot.order ≤ b.arrived

theorem Ordered.empty : (empty : Buffer α).Ordered := ⟨.nil, nofun⟩

theorem Ordered.addSlot {b : Buffer α} (ordered : b.Ordered) (priority : Double) (item : Option α) :
    (b.addSlot priority item).Ordered where
  leaving := ordered.leaving.insert fun other member => Nat.lt_succ_of_le (ordered.arrived other member)
  arrived slot member := by
    rcases List.mem_cons.mp ((Slot.insert_perm _ b.slots).mem_iff.mp member) with rfl | member
    · exact Nat.le_refl _
    · exact Nat.le_succ_of_le (ordered.arrived slot member)

theorem pop_eq_none_iff {b : Buffer α} : b.pop = none ↔ b.slots = [] := by
  unfold pop
  cases b.slots <;> simp

theorem pop_eq_some_iff {b rest : Buffer α} {slot : Slot α} : b.pop = some (slot, rest) ↔
    b.slots = slot :: rest.slots ∧ rest.arrived = b.arrived := by
  obtain ⟨slots, arrived⟩ := b
  obtain ⟨others, arrived'⟩ := rest
  cases slots with
  | nil => simp [pop]
  | cons first others =>
    simp only [pop, Option.some.injEq, Prod.mk.injEq, Buffer.mk.injEq, List.cons.injEq]
    grind

inductive Operation (α : Type) where
  | push (item : α) (priority : Option Double)
  | placeholder
  | pop

def perform (b : Buffer α) : Operation α → Option (Slot α) × Buffer α
  | .push item priority => (none, b.push item priority)
  | .placeholder => (none, b.pushPlaceholder)
  | .pop =>
    match b.pop with
    | some (slot, rest) => (some slot, rest)
    | none => (none, b)

def performAll (b : Buffer α) : List (Operation α) → List (Slot α) × Buffer α
  | [] => ([], b)
  | operation :: rest =>
    let (left, mid) := b.perform operation
    let (later, last) := mid.performAll rest
    (left.toList ++ later, last)

/-- The slots that come in by some operations, numbered as they arrive. An item without a priority
takes its number. -/
def arrivals (arrived : Nat) : List (Operation α) → List (Slot α)
  | [] => []
  | .push item priority :: rest =>
    ⟨priority.getD (Double.ofInt (arrived + 1)), arrived + 1, some item⟩ :: arrivals (arrived + 1) rest
  | .placeholder :: rest => ⟨placeholderPriority, arrived + 1, none⟩ :: arrivals (arrived + 1) rest
  | .pop :: rest => arrivals arrived rest

theorem addSlot_perm (b : Buffer α) (priority : Double) (item : Option α) (later : List (Slot α)) :
    ((b.addSlot priority item).slots ++ later).Perm
      (b.slots ++ ⟨priority, b.arrived + 1, item⟩ :: later) := by
  have inserted := Slot.insert_perm ⟨priority, b.arrived + 1, item⟩ b.slots
  exact (inserted.append_right later).trans List.perm_middle.symm

theorem performAll_keeps {b : Buffer α} (ordered : b.Ordered) (operations : List (Operation α)) :
    (b.performAll operations).2.Ordered ∧
      ((b.performAll operations).1 ++ (b.performAll operations).2.slots).Perm
        (b.slots ++ arrivals b.arrived operations) := by
  induction operations generalizing b with
  | nil => simpa [performAll, arrivals] using ordered
  | cons operation rest ih =>
    cases operation with
    | push item priority =>
      obtain ⟨kept, perm⟩ := ih (ordered.addSlot (priority.getD (Double.ofInt (b.arrived + 1))) (some item))
      exact ⟨kept, perm.trans (addSlot_perm b _ _ _)⟩
    | placeholder =>
      obtain ⟨kept, perm⟩ := ih (ordered.addSlot placeholderPriority none)
      exact ⟨kept, perm.trans (addSlot_perm b _ _ _)⟩
    | pop =>
      cases popped : b.pop with
      | none => simpa [performAll, perform, popped, arrivals] using ih ordered
      | some found =>
        obtain ⟨slot, left⟩ := found
        obtain ⟨slots, arrived⟩ := pop_eq_some_iff.mp popped
        have leaving := ordered.leaving
        have numbered := ordered.arrived
        rw [slots] at leaving numbered
        have others : left.Ordered := ⟨(List.pairwise_cons.mp leaving).2, fun other member =>
          arrived ▸ numbered other (List.mem_cons_of_mem _ member)⟩
        obtain ⟨kept, perm⟩ := ih others
        simp only [performAll, perform, popped, arrivals, slots, Option.toList_some]
        exact ⟨kept, by simpa [arrived] using perm⟩

theorem performAll_pops (b : Buffer α) (n : Nat) :
    (b.performAll (List.replicate n .pop)).1 = b.slots.take n := by
  induction n generalizing b with
  | zero => simp [performAll]
  | succ n ih =>
    cases popped : b.pop with
    | none =>
      have empty := pop_eq_none_iff.mp popped
      simp [List.replicate_succ, performAll, perform, popped, ih, empty]
    | some found =>
      obtain ⟨slot, rest⟩ := found
      have slots := (pop_eq_some_iff.mp popped).1
      simp [List.replicate_succ, performAll, perform, popped, ih, slots]

/-- Of some slots that have arrived, these have left a buffer and those are in it. -/
structure Serves (arrived left : List (Slot α)) (b : Buffer α) : Prop where
  entries : (left ++ b.slots).Perm arrived
  empty : b.pop = none ↔ b.slots = []
  /-- The least priority leaves first, and of one priority what came first. -/
  least : ∀ slot rest, b.pop = some (slot, rest) →
    b.slots.Perm (slot :: rest.slots) ∧ ∀ other ∈ rest.slots, slot.before other = true
  size : left.length + b.size = arrived.length
  held : left.countP (fun slot => slot.item.isSome) + b.held =
    arrived.countP fun slot => slot.item.isSome
  /-- The items are listed as they would leave one after the other. -/
  listed : (b.performAll (List.replicate b.size .pop)).1.filterMap Slot.item = b.items
  /-- To list them, the slots can be sorted however they are kept. -/
  sorted : ∀ entries : List (Slot α), entries.Perm b.slots →
    (entries.mergeSort fun first later => !later.before first).filterMap Slot.item = b.items

theorem leaves_by_priority (operations : List (Operation α)) :
    Serves (arrivals 0 operations) (empty.performAll operations).1 (empty.performAll operations).2 := by
  have ⟨ordered, perm⟩ := performAll_keeps (α := α) .empty operations
  generalize (empty.performAll operations).1 = left at *
  generalize (empty.performAll operations).2 = b at *
  constructor
  case entries => exact perm
  case empty => exact pop_eq_none_iff
  case least =>
    intro slot rest popped
    have slots := (pop_eq_some_iff.mp popped).1
    have leaving := ordered.leaving
    rw [slots] at leaving ⊢
    exact ⟨.refl _, (List.pairwise_cons.mp leaving).1⟩
  case size => exact List.length_append.symm.trans perm.length_eq
  case held =>
    have held : b.held = b.slots.countP fun slot => slot.item.isSome :=
      List.length_filterMap_eq_countP
    rw [held, ← List.countP_append]
    exact perm.countP_eq _
  case listed => rw [performAll_pops, size, List.take_length, items]
  case sorted =>
    intro entries kept
    rw [ordered.leaving.of_perm kept, items]

example : ((empty : Buffer String).performAll
    [.push "a" none, .push "b" none, .push "c" (some ⟨false, 0x3ff8000000000000⟩), .pop, .pop,
      .pop]).1.filterMap Slot.item = ["a", "c", "b"] := by decide +kernel

end Buffer

end Sluice
