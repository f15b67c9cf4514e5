import Mathlib.Data.List.Pairwise
import Sluice.Param.Table

set_option autoImplicit false

namespace Sluice

namespace Double

theorem equal_iff {x y : Double} : x.equal y = true ↔
    x.isNaN = false ∧ y.isNaN = false ∧ x.order = y.order := by
  simp [equal, and_assoc]

end Double

namespace Value

mutual

theorem same_symm (v w : Value) (same : v.same w = true) : w.same v = true := by
  cases v <;> cases w <;> simp only [Value.same, beq_iff_eq, Bool.false_eq_true] at same ⊢
  case bool.bool => exact same.symm
  case int.int => exact same.symm
  case text.text => exact same.symm
  case float.float =>
    rw [Double.equal_iff] at same ⊢
    exact ⟨same.2.1, same.1, same.2.2.symm⟩
  case list.list vs ws => exact sameItems_symm vs ws same
  case record.record vs ws => exact sameFields_symm vs ws same

theorem sameItems_symm (vs ws : List Value) (same : sameItems vs ws = true) :
    sameItems ws vs = true := by
  match vs, ws with
  | [], [] => rfl
  | v :: vs, w :: ws =>
    simp only [sameItems, Bool.and_eq_true] at same ⊢
    exact ⟨same_symm v w same.1, sameItems_symm vs ws same.2⟩

theorem sameFields_symm (vs ws : List (String × Value)) (same : sameFields vs ws = true) :
    sameFields ws vs = true := by
  match vs, ws with
  | [], [] => rfl
  | (j, v) :: vs, (k, w) :: ws =>
    simp only [sameFields, Bool.and_eq_true, beq_iff_eq] at same ⊢
    exact ⟨⟨same.1.1.symm, same_symm v w same.1.2⟩, sameFields_symm vs ws same.2⟩

end

mutual

theorem same_trans (u v w : Value) (first : u.same v = true) (later : v.same w = true) :
    u.same w = true := by
  cases u <;> cases v <;> simp only [Value.same, beq_iff_eq, Bool.false_eq_true] at first <;>
    cases w <;> simp only [Value.same, beq_iff_eq, Bool.false_eq_true] at later ⊢
  case bool.bool.bool => exact first.trans later
  case int.int.int => exact first.trans later
  case text.text.text => exact first.trans later
  case float.float.float =>
    rw [Double.equal_iff] at first later ⊢
    exact ⟨first.1, later.2.1, first.2.2.trans later.2.2⟩
  case list.list.list us vs ws => exact sameItems_trans us vs ws first later
  case record.record.record us vs ws => exact sameFields_trans us vs ws first later

theorem sameItems_trans (us vs ws : List Value) (first : sameItems us vs = true)
    (later : sameItems vs ws = true) : sameItems us ws = true := by
  match us, vs, ws with
  | [], [], [] => rfl
  | u :: us, v :: vs, w :: ws =>
    simp only [sameItems, Bool.and_eq_true] at first later ⊢
    exact ⟨same_trans u v w first.1 later.1, sameItems_trans us vs ws first.2 later.2⟩

theorem sameFields_trans (us vs ws : List (String × Value)) (first : sameFields us vs = true)
    (later : sameFields vs ws = true) : sameFields us ws = true := by
  match us, vs, ws with
  | [], [], [] => rfl
  | (i, u) :: us, (j, v) :: vs, (k, w) :: ws =>
    simp only [sameFields, Bool.and_eq_true, beq_iff_eq] at first later ⊢
    exact ⟨⟨first.1.1.trans later.1.1, same_trans u v w first.1.2 later.1.2⟩,
      sameFields_trans us vs ws first.2 later.2⟩

end

theorem isBlank_of_same {v w : Value} (same : (v == w) = true) : v.isBlank = w.isBlank := by
  change v.same w = true at same
  cases v <;> cases w <;> simp_all [Value.same, isBlank]

/-- Two values written for one parameter, of which not more than one counts. -/
def Agree (v w : Value) : Prop := v.isBlank = true ∨ w.isBlank = true ∨ (v == w) = true

theorem Agree.symm {v w : Value} (agree : Agree v w) : Agree w v := by
  rcases agree with blank | blank | same
  · exact .inr (.inl blank)
  · exact .inl blank
  · exact .inr (.inr (same_symm v w same))

/-- Of the values written for a parameter the first that is not blank, or else the first. -/
def pick (values : List Value) : Option Value :=
  (values.find? fun v => !v.isBlank).or values.head?

theorem pick_eq_none_iff {values : List Value} : pick values = none ↔ values = [] := by
  cases values <;> simp [pick]

theorem pick_mem {values : List Value} {v : Value} (picked : pick values = some v) : v ∈ values := by
  rcases Option.or_eq_some_iff.mp picked with first | ⟨-, first⟩
  · exact List.mem_of_find?_eq_some first
  · exact List.mem_of_head? first

theorem pick_blank {values : List Value} {v : Value} (picked : pick values = some v)
    (blank : v.isBlank = true) : ∀ w ∈ values, w.isBlank = true := by
  rcases Option.or_eq_some_iff.mp picked with first | ⟨none, -⟩
  · have full := List.find?_some first
    simp [blank] at full
  · simpa using none

theorem pick_concat {values : List Value} {v : Value} (picked : pick values = some v) (w : Value) :
    pick (values ++ [w]) = some (if v.isBlank = true ∧ w.isBlank = false then w else v) := by
  unfold pick
  rw [List.find?_append, List.head?_append]
  rcases Option.or_eq_some_iff.mp picked with first | ⟨none, first⟩
  · have full : v.isBlank = false := by simpa using List.find?_some first
    rw [first]
    simp [full]
  · have blank : v.isBlank = true := by
      simpa using List.find?_eq_none.mp none v (List.mem_of_head? first)
    rw [none, first]
    cases later : w.isBlank <;> simp [blank, later]

/-- What is bound of the same values in another order: the same, another blank or an equal one. -/
def Alike (first second : Option Value) : Prop :=
  first = second ∨ ∃ v w, first = some v ∧ second = some w ∧
    (v.isBlank = true ∧ w.isBlank = true ∨ (v == w) = true)

theorem Alike.or {first second : Option Value} (alike : Alike first second) (left : Option Value) :
    Alike (first.or left) (second.or left) := by
  rcases alike with rfl | ⟨v, w, rfl, rfl, both⟩
  · exact .inl rfl
  · exact .inr ⟨v, w, rfl, rfl, both⟩

theorem pick_perm {values moved : List Value} (perm : values.Perm moved)
    (agree : values.Pairwise Agree) : Alike (pick values) (pick moved) := by
  cases picked : pick values with
  | none =>
    obtain rfl := pick_eq_none_iff.mp picked
    exact .inl (pick_eq_none_iff.mpr perm.nil_eq.symm).symm
  | some v =>
    cases picked' : pick moved with
    | none =>
      obtain rfl := pick_eq_none_iff.mp picked'
      cases perm.eq_nil
      cases picked
    | some w =>
      have first := pick_mem picked
      have second := perm.mem_iff.mpr (pick_mem picked')
      have : Std.Symm Agree := ⟨fun _ _ => Agree.symm⟩
      by_cases same : v = w
      · exact .inl (congrArg some same)
      · refine .inr ⟨v, w, rfl, rfl, ?_⟩
        rcases agree.forall first second same with blank | blank | equal
        · exact .inl ⟨blank, pick_blank picked blank w second⟩
        · exact .inl ⟨pick_blank picked' blank v (perm.mem_iff.mp first), blank⟩
        · exact .inr equal

theorem agree_iff_pick {values : List Value} (agree : values.Pairwise Agree) {v : Value}
    (picked : pick values = some v) (w : Value) : (∀ u ∈ values, Agree u w) ↔ Agree v w := by
  constructor
  · exact fun all => all v (pick_mem picked)
  · intro agrees u member
    by_cases blank : v.isBlank = true
    · exact .inl (pick_blank picked blank u member)
    · have : Std.Symm Agree := ⟨fun _ _ => Agree.symm⟩
      by_cases same : u = v
      · exact same ▸ agrees
      · rcases agree.forall member (pick_mem picked) same with blank' | blank' | equal
        · exact .inl blank'
        · exact absurd blank' blank
        · rcases agrees with blank' | blank' | equal'
          · exact absurd blank' blank
          · exact .inr (.inl blank')
          · exact .inr (.inr (same_trans u v w equal equal'))

end Value

namespace ParamTable

open Value (Agree pick)

variable {t : ParamTable} {key : String} {values : List Value}

theorem get?_put_self (t : ParamTable) (value : Value) (key : String) :
    (t.put key value).get? key = some value :=
  Dict.at?_put_self t.values key value

theorem get?_put_of_ne (t : ParamTable) {key other : String} (value : Value) (ne : other ≠ key) :
    (t.put key value).get? other = t.get? other :=
  Dict.at?_put_of_ne t.values value ne

theorem get?_putDefault (t : ParamTable) (key : String) (value : Value) (other : String) :
    (t.putDefault key value).get? other =
      (t.get? other).or (if key = other then some value else none) := by
  unfold putDefault has Dict.has
  by_cases same : key = other
  · subst same
    cases bound : t.values.at? key with
    | none => simp [get?, put, Dict.at?_put_self, bound]
    | some v => simp [get?, bound]
  · rw [if_neg same, Option.or_none]
    split
    · rfl
    · exact t.get?_put_of_ne value (Ne.symm same)

theorem bind_cases (bound : t.get? key = pick values) (agree : values.Pairwise Agree) (value : Value) :
    (∀ v ∈ values, Agree v value) ∧ (∃ after, t.bind key value = .ok after ∧
        (after = t ∨ after = t.put key value) ∧ after.get? key = pick (values ++ [value])) ∨
      ¬(∀ v ∈ values, Agree v value) ∧ ∃ old new,
        t.bind key value = .error (.conflictingValue t.stage key old new) := by
  unfold ParamTable.bind
  cases picked : pick values with
  | none =>
    obtain rfl := Value.pick_eq_none_iff.mp picked
    rw [bound, picked]
    refine .inl ⟨nofun, t.put key value, rfl, .inr rfl, ?_⟩
    rw [get?_put_self]
    cases blank : value.isBlank <;> simp [pick, blank]
  | some existing =>
    rw [Value.agree_iff_pick agree picked, Value.pick_concat picked, bound, picked]
    dsimp only
    -- A value that repeats the one there, or says nothing, leaves the table as it is.
    by_cases stands : (existing == value || value.isBlank) = true
    · rw [if_pos stands]
      rw [Bool.or_eq_true] at stands
      refine .inl ⟨?_, t, rfl, .inl rfl, ?_⟩
      · exact .inr stands.symm
      · have blank : existing.isBlank = true → value.isBlank = true := fun blank =>
          stands.elim (fun same => Value.isBlank_of_same same ▸ blank) id
        rw [bound, picked, if_neg fun both => by simp [blank both.1] at both]
    · rw [if_neg stands]
      simp only [Bool.or_eq_true, not_or] at stands
      by_cases blank : existing.isBlank = true
      · rw [if_pos blank]
        refine .inl ⟨.inl blank, t.put key value, rfl, .inr rfl, ?_⟩
        simp [get?_put_self, blank, stands.2]
      · rw [if_neg blank]
        refine .inr ⟨?_, _, _, rfl⟩
        simp [Agree, blank, stands]

end ParamTable

def valuesAt (key : String) (pairs : List (String × Value)) : List Value :=
  (pairs.filter fun pair => pair.1 == key).map Prod.snd

theorem mem_valuesAt {key : String} {value : Value} {pairs : List (String × Value)} :
    value ∈ valuesAt key pairs ↔ (key, value) ∈ pairs := by
  simp [valuesAt]

theorem valuesAt_append (key : String) (pairs later : List (String × Value)) :
    valuesAt key (pairs ++ later) = valuesAt key pairs ++ valuesAt key later := by
  simp [valuesAt]

theorem valuesAt_one (key : String) (pair : String × Value) :
    valuesAt key [pair] = if pair.1 = key then [pair.2] else [] := by
  by_cases same : pair.1 = key <;> simp [valuesAt, same]

namespace Dict

variable {α : Type}

theorem at?_eq_none {d : Dict α} {key : String} (absent : key ∉ d.keys) : d.at? key = none := by
  refine List.lookup_eq_none_iff.mpr fun entry listed => ?_
  simpa using fun same : key = entry.1 => absent (same ▸ List.mem_map_of_mem listed)

def Ordered (d : Dict α) : Prop := d.keys.Pairwise (· < ·)

theorem mem_keys_put {d : Dict α} {key other : String} {value : α} :
    other ∈ keys (put key value d) ↔ other = key ∨ other ∈ keys d := by
  induction d with
  | nil => simp [put, keys]
  | cons entry rest ih =>
    obtain ⟨k, v⟩ := entry
    unfold keys at ih
    simp only [put, keys]
    split
    · simp_all
    · split
      · simp
      · simp [ih, or_left_comm]

theorem Ordered.put {d : Dict α} (ordered : Ordered d) (key : String) (value : α) :
    Ordered (Dict.put key value d) := by
  induction d with
  | nil => exact List.pairwise_singleton _ _
  | cons entry rest ih =>
    obtain ⟨k, v⟩ := entry
    obtain ⟨first, later⟩ := List.pairwise_cons.mp ordered
    simp only [Dict.put]
    split
    next same => exact same ▸ ordered
    next apart =>
      split
      next before =>
        refine List.pairwise_cons.mpr ⟨fun other member => ?_, ordered⟩
        rcases List.mem_cons.mp member with rfl | member
        · exact before
        · exact String.lt_trans before (first other member)
      next behind =>
        refine List.pairwise_cons.mpr ⟨fun other member => ?_, ih later⟩
        rcases mem_keys_put.mp member with rfl | member
        · exact Std.lt_of_le_of_ne (String.not_lt.mp behind) (Ne.symm apart)
        · exact first other member

theorem mem_of_at? {d : Dict α} {key : String} {value : α} (found : d.at? key = some value) :
    (key, value) ∈ d := by
  obtain ⟨before, after, rfl, -⟩ := List.lookup_eq_some_iff.mp found
  simp

theorem Ordered.nodup {d : Dict α} (ordered : Ordered d) : d.keys.Nodup :=
  List.Pairwise.imp (fun {a b} (before : a < b) (same : a = b) => String.lt_irrefl b (same ▸ before))
    ordered

theorem Ordered.at?_of_mem {d : Dict α} (ordered : Ordered d) {key : String} {value : α}
    (listed : (key, value) ∈ d) : d.at? key = some value := by
  obtain ⟨before, after, rfl⟩ := List.append_of_mem listed
  refine List.lookup_eq_some_iff.mpr ⟨before, after, rfl, fun entry earlier => ?_⟩
  have distinct := ordered.nodup
  rw [keys, List.map_append, List.map_cons, List.nodup_append] at distinct
  simpa using Ne.symm (distinct.2.2 entry.1 (List.mem_map_of_mem earlier) key List.mem_cons_self)

end Dict

namespace ParamTable

open Value (Agree pick)

structure Accounts (t : ParamTable) (pairs : List (String × Value)) : Prop where
  ordered : t.values.Ordered
  agree : ∀ key, (valuesAt key pairs).Pairwise Agree
  picked : ∀ key, t.get? key = pick (valuesAt key pairs)

namespace Accounts

variable {t : ParamTable} {pairs : List (String × Value)} (accounts : t.Accounts pairs)
include accounts

theorem bind (pair : String × Value) :
    (∃ after, t.bind pair.1 pair.2 = .ok after ∧ after.stage = t.stage ∧
        after.Accounts (pairs ++ [pair])) ∨
      (∃ old new, t.bind pair.1 pair.2 = .error (.conflictingValue t.stage pair.1 old new)) ∧
        ¬(valuesAt pair.1 (pairs ++ [pair])).Pairwise Agree := by
  obtain ⟨key, value⟩ := pair
  have written : (valuesAt key (pairs ++ [(key, value)])).Pairwise Agree ↔
      ∀ v ∈ valuesAt key pairs, Agree v value := by
    rw [valuesAt_append, valuesAt_one, if_pos rfl, List.pairwise_append]
    simp [accounts.agree key]
  rcases bind_cases (accounts.picked key) (accounts.agree key) value with
    ⟨agrees, after, bound, changed, own⟩ | ⟨disagrees, old, new, failed⟩
  · have ordered : after.values.Ordered := by
      rcases changed with rfl | rfl
      · exact accounts.ordered
      · exact accounts.ordered.put key value
    have stage : after.stage = t.stage := by rcases changed with rfl | rfl <;> rfl
    have others (other : String) (apart : other ≠ key) : after.get? other = t.get? other := by
      rcases changed with rfl | rfl
      · rfl
      · exact t.get?_put_of_ne value apart
    refine .inl ⟨after, bound, stage, ordered, fun other => ?_, fun other => ?_⟩
    · by_cases same : other = key
      · exact same ▸ written.mpr agrees
      · rw [valuesAt_append, valuesAt_one, if_neg (Ne.symm same), List.append_nil]
        exact accounts.agree other
    · by_cases same : other = key
      · subst same
        rw [own, valuesAt_append, valuesAt_one, if_pos rfl]
      · rw [others other same, valuesAt_append, valuesAt_one, if_neg (Ne.symm same), List.append_nil]
        exact accounts.picked other
  · exact .inr ⟨⟨old, new, failed⟩, fun agree => disagrees (written.mp agree)⟩

theorem foldlM (later : List (String × Value)) :
    (∃ after, later.foldlM (fun t pair => t.bind pair.1 pair.2) t = .ok after ∧
        after.Accounts (pairs ++ later)) ∨
      (∃ key old new, later.foldlM (fun t pair => t.bind pair.1 pair.2) t =
          .error (.conflictingValue t.stage key old new)) ∧
        ∃ key, ¬(valuesAt key (pairs ++ later)).Pairwise Agree := by
  induction later generalizing t pairs with
  | nil => exact .inl ⟨t, rfl, by rwa [List.append_nil]⟩
  | cons pair rest ih =>
    rw [List.foldlM_cons, List.append_cons]
    rcases accounts.bind pair with ⟨after, bound, stage, accounts⟩ | ⟨⟨old, new, failed⟩, disagree⟩
    · rw [bound, ← stage]
      exact ih accounts
    · rw [failed]
      refine .inr ⟨⟨_, old, new, rfl⟩, pair.1, fun agree => disagree ?_⟩
      rw [valuesAt_append] at agree
      exact (List.pairwise_append.mp agree).1

end Accounts

end ParamTable

end Sluice
