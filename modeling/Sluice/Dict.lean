set_option autoImplicit false

namespace Sluice

abbrev Dict (α : Type) := List (String × α)

namespace Dict

variable {α β : Type}

def empty : Dict α := []

def at? (d : Dict α) (key : String) : Option α := d.lookup key

def has (d : Dict α) (key : String) : Bool := (d.at? key).isSome

def put (key : String) (value : α) : Dict α → Dict α
  | [] => [(key, value)]
  | (k, v) :: rest =>
    if key = k then (key, value) :: rest
    else if key < k then (key, value) :: (k, v) :: rest
    else (k, v) :: put key value rest

def without (key : String) (d : Dict α) : Dict α := d.filter (fun entry => entry.1 != key)

def keys (d : Dict α) : List String := d.map Prod.fst

def ofPairs (pairs : List (String × α)) : Dict α :=
  pairs.foldl (fun d entry => put entry.1 entry.2 d) []

@[simp] theorem at?_nil (key : String) : at? ([] : Dict α) key = none := rfl

theorem at?_cons (k : String) (v : α) (rest : Dict α) (key : String) :
    at? ((k, v) :: rest) key = if key = k then some v else at? rest key := by
  by_cases h : key = k
  · subst h; simp [at?]
  · have : (key == k) = false := by simpa using h
    simp [at?, List.lookup_cons, this, h]

theorem at?_put_self (d : Dict α) (key : String) (value : α) :
    at? (put key value d) key = some value := by
  induction d with
  | nil => simp [put, at?_cons]
  | cons entry rest ih =>
    obtain ⟨k, v⟩ := entry
    simp only [put]
    split
    · simp [at?_cons]
    · rename_i hne
      split
      · simp [at?_cons]
      · rw [at?_cons, if_neg hne, ih]

theorem at?_put_of_ne (d : Dict α) {key other : String} (value : α) (h : other ≠ key) :
    at? (put key value d) other = at? d other := by
  induction d with
  | nil => simp [put, at?_cons, h]
  | cons entry rest ih =>
    obtain ⟨k, v⟩ := entry
    simp only [put]
    split
    · subst_vars; simp [at?_cons, h]
    · split
      · rw [at?_cons, if_neg h]
      · simp [at?_cons, ih]

end Dict

end Sluice
