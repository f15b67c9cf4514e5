set_option autoImplicit false

namespace Sluice.Text

/-- The pieces between the occurrences of a character: one more than there are of it. -/
def pieces (mark : Char) (text : String) : List String :=
  (text.toList.splitOn mark).map String.ofList

def cut (mark : Char) (text : String) : Option (String × String) :=
  match text.toList.span (· != mark) with
  | (before, _ :: after) => some (String.ofList before, String.ofList after)
  | (_, []) => none

def before (mark : Char) (text : String) : String :=
  String.ofList (text.toList.takeWhile (· != mark))

def after? : List Char → List Char → Option (List Char)
  | [], text => some text
  | _ :: _, [] => none
  | c :: start, d :: text => if c = d then after? start text else none

section

variable {p : Char → Bool} {run rest : List Char} (inside : ∀ d ∈ run, p d)
  (stop : ∀ d ∈ rest.head?, p d = false)
include inside stop

theorem takeWhile_append_stop : (run ++ rest).takeWhile p = run := by
  rw [List.takeWhile_append_of_pos inside]
  cases rest with
  | nil => simp
  | cons d rest => simp [stop d rfl]

theorem dropWhile_append_stop : (run ++ rest).dropWhile p = rest := by
  rw [List.dropWhile_append_of_pos inside]
  cases rest with
  | nil => simp
  | cons d rest => simp [stop d rfl]

end

theorem head?_dropWhile_stop (p : Char → Bool) (cs : List Char) :
    ∀ d ∈ (cs.dropWhile p).head?, p d = false := by
  intro d member
  have stop := List.head?_dropWhile_not p cs
  rw [Option.mem_def.mp member] at stop
  exact stop

end Sluice.Text
