import Mathlib.Data.List.TakeWhile
import Sluice.Route.Token
import Sluice.Text.Split

set_option autoImplicit false

namespace Sluice.Route

def NameStart (c : Char) : Prop := ('A' ≤ c ∧ c ≤ 'Z') ∨ ('a' ≤ c ∧ c ≤ 'z') ∨ c = '_'

instance (c : Char) : Decidable (NameStart c) := inferInstanceAs (Decidable (_ ∨ _ ∨ _))

def NameLetter (c : Char) : Prop :=
  NameStart c ∨ ('0' ≤ c ∧ c ≤ '9') ∨ c ∈ ['.', ':', '-', '$', '\x7b', '\x7d']

instance (c : Char) : Decidable (NameLetter c) := inferInstanceAs (Decidable (_ ∨ _ ∨ _))

/-- A text cut into tokens, each name as long as it can be. Blanks and comments only separate. -/
inductive Splits : List Char → List Token → Prop where
  | nil : Splits [] []
  | blank {c : Char} {rest : List Char} {tokens : List Token}
      (separator : c ∈ [' ', '\t', '\r', '\n']) (after : Splits rest tokens) :
      Splits (c :: rest) tokens
  | comment {body rest : List Char} {tokens : List Token} (line : '\n' ∉ body)
      (ended : ∀ c ∈ rest.head?, c = '\n') (after : Splits rest tokens) :
      Splits ('#' :: (body ++ rest)) tokens
  | opening {rest : List Char} {tokens : List Token} (after : Splits rest tokens) :
      Splits ('(' :: rest) (.opening :: tokens)
  | closing {rest : List Char} {tokens : List Token} (after : Splits rest tokens) :
      Splits (')' :: rest) (.closing :: tokens)
  | name {c : Char} {letters rest : List Char} {tokens : List Token} (start : NameStart c)
      (inside : ∀ d ∈ letters, NameLetter d) (longest : ∀ d ∈ rest.head?, ¬ NameLetter d)
      (after : Splits rest tokens) :
      Splits (c :: (letters ++ rest)) (.name (String.ofList (c :: letters)) :: tokens)

theorem startsName_iff (c : Char) : startsName c = true ↔ NameStart c := by
  have upper : c.isUpper = decide (c.val ≥ 'A'.val ∧ c.val ≤ 'Z'.val) := rfl
  have lower : c.isLower = (decide (c.val ≥ 'a'.val) && decide (c.val ≤ 'z'.val)) := rfl
  have alpha : c.isAlpha = (c.isUpper || c.isLower) := rfl
  simp [startsName, NameStart, alpha, upper, lower, Char.le_def, or_assoc]

theorem continuesName_iff (c : Char) : continuesName c = true ↔ NameLetter c := by
  have opened : c.toNat = 0x7B ↔ c = '\x7b' := Char.toNat_inj (d := '\x7b')
  have closed : c.toNat = 0x7D ↔ c = '\x7d' := Char.toNat_inj (d := '\x7d')
  have starts := startsName_iff c
  simp only [startsName, Bool.or_eq_true, beq_iff_eq] at starts
  simp only [continuesName, NameLetter, Char.isAlphanum, Char.isDigit, Bool.or_eq_true,
    Bool.and_eq_true, decide_eq_true_eq, beq_iff_eq, opened, closed, ← starts, List.mem_cons,
    List.not_mem_nil, Char.le_def, ge_iff_le]
  grind

theorem separates_iff (c : Char) : separates c = true ↔ c ∈ [' ', '\t', '\r', '\n'] := by
  simp only [separates, Bool.or_eq_true, beq_iff_eq, List.mem_cons, List.not_mem_nil]
  grind

theorem NameStart.not_mark {c : Char} (start : NameStart c) :
    c ∉ [' ', '\t', '\r', '\n'] ∧ c ≠ '#' ∧ c ≠ '(' ∧ c ≠ ')' := by
  refine ⟨?_, ?_, ?_, ?_⟩
  · intro blank
    simp only [List.mem_cons, List.not_mem_nil, or_false] at blank
    rcases blank with rfl | rfl | rfl | rfl <;> exact absurd start (by decide)
  all_goals rintro rfl; exact absurd start (by decide)

namespace Splits

theorem nil_iff (tokens : List Token) : Splits [] tokens ↔ tokens = [] := by
  constructor
  · intro h; cases h; rfl
  · rintro rfl; exact .nil

theorem blank_iff {c : Char} (separator : c ∈ [' ', '\t', '\r', '\n']) (cs : List Char)
    (tokens : List Token) : Splits (c :: cs) tokens ↔ Splits cs tokens := by
  constructor
  · intro h
    cases h with
    | blank _ after => exact after
    | name start => exact absurd separator start.not_mark.1
    | _ => exact absurd separator (by decide)
  · exact .blank separator

theorem comment_iff (cs : List Char) (tokens : List Token) :
    Splits ('#' :: cs) tokens ↔ Splits (cs.dropWhile (· ≠ '\n')) tokens := by
  constructor
  · intro h
    cases h with
    | blank separator => exact absurd separator (by decide)
    | name start => exact absurd rfl start.not_mark.2.1
    | @comment body rest _ line ended after =>
      have run : ∀ d ∈ body, decide (d ≠ '\n') = true := by
        intro d member
        exact decide_eq_true fun same => line (same ▸ member)
      rwa [Text.dropWhile_append_stop run (by simpa using ended)]
  · intro h
    rw [← List.takeWhile_append_dropWhile (p := fun c => decide (c ≠ '\n')) (l := cs)]
    refine .comment ?_ ?_ h
    · intro member
      simpa using List.mem_takeWhile_imp member
    · simpa using Text.head?_dropWhile_stop (fun c => decide (c ≠ '\n')) cs

theorem opening_iff (cs : List Char) (tokens : List Token) :
    Splits ('(' :: cs) tokens ↔ ∃ rest, tokens = .opening :: rest ∧ Splits cs rest := by
  constructor
  · intro h
    cases h with
    | blank separator => exact absurd separator (by decide)
    | name start => exact absurd rfl start.not_mark.2.2.1
    | opening after => exact ⟨_, rfl, after⟩
  · rintro ⟨rest, rfl, after⟩; exact .opening after

theorem closing_iff (cs : List Char) (tokens : List Token) :
    Splits (')' :: cs) tokens ↔ ∃ rest, tokens = .closing :: rest ∧ Splits cs rest := by
  constructor
  · intro h
    cases h with
    | blank separator => exact absurd separator (by decide)
    | name start => exact absurd rfl start.not_mark.2.2.2
    | closing after => exact ⟨_, rfl, after⟩
  · rintro ⟨rest, rfl, after⟩; exact .closing after

theorem name_iff {c : Char} (start : NameStart c) (cs : List Char) (tokens : List Token) :
    Splits (c :: cs) tokens ↔
      ∃ rest, tokens = .name (String.ofList (c :: cs.takeWhile continuesName)) :: rest ∧
        Splits (cs.dropWhile continuesName) rest := by
  constructor
  · intro h
    cases h with
    | blank separator => exact absurd separator start.not_mark.1
    | comment => exact absurd rfl start.not_mark.2.1
    | opening => exact absurd rfl start.not_mark.2.2.1
    | closing => exact absurd rfl start.not_mark.2.2.2
    | @name _ letters rest tokens _ inside longest after =>
      have run : ∀ d ∈ letters, continuesName d = true := fun d member =>
        (continuesName_iff d).mpr (inside d member)
      have stop : ∀ d ∈ rest.head?, continuesName d = false := fun d member =>
        Bool.eq_false_iff.mpr fun more => longest d member ((continuesName_iff d).mp more)
      rw [Text.takeWhile_append_stop run stop, Text.dropWhile_append_stop run stop]
      exact ⟨tokens, rfl, after⟩
  · rintro ⟨rest, rfl, after⟩
    have inside : ∀ d ∈ cs.takeWhile continuesName, NameLetter d := fun d member =>
      (continuesName_iff d).mp (List.mem_takeWhile_imp member)
    have longest : ∀ d ∈ (cs.dropWhile continuesName).head?, ¬ NameLetter d := by
      intro d member more
      have stop := Text.head?_dropWhile_stop continuesName cs d member
      rw [(continuesName_iff d).mpr more] at stop
      exact absurd stop (by decide)
    have whole := Splits.name start inside longest after
    rwa [List.takeWhile_append_dropWhile] at whole

theorem not_illegal {c : Char} (blank : c ∉ [' ', '\t', '\r', '\n']) (comment : c ≠ '#')
    (opening : c ≠ '(') (closing : c ≠ ')') (start : ¬ NameStart c) (cs : List Char)
    (tokens : List Token) : ¬ Splits (c :: cs) tokens := by
  intro h
  cases h with
  | blank separator => exact blank separator
  | comment => exact comment rfl
  | opening => exact opening rfl
  | closing => exact closing rfl
  | name starting => exact start starting

end Splits

def Mode.pending : Mode → List Char
  | .between => []
  | .comment => ['#']
  | .naming _ letters => letters.reverse

def Mode.Sound : Mode → Prop
  | .naming _ letters => ∃ c run, letters.reverse = c :: run ∧ NameStart c ∧ ∀ d ∈ run, NameLetter d
  | _ => True

namespace Scan

def Reads (s : Scan) (cs : List Char) (tokens : List Token) : Prop :=
  ∃ last, cs.foldlM step s = .ok last ∧ last.closed.reverse.map Placed.token = tokens

def Exact (cs : List Char) : Prop :=
  ∀ (before : List Placed) (mode : Mode) (place : Place) (tokens : List Token), mode.Sound →
    (Reads ⟨before, mode, place⟩ cs tokens ↔
      ∃ more, tokens = before.reverse.map Placed.token ++ more ∧ Splits (mode.pending ++ cs) more)

theorem reads_cons (s : Scan) (c : Char) (cs : List Char) (tokens : List Token) :
    s.Reads (c :: cs) tokens ↔ ∃ next, s.step c = .ok next ∧ next.Reads cs tokens := by
  unfold Reads
  rw [List.foldlM_cons]
  cases s.step c with
  | error e => simp [bind, Except.bind]
  | ok next => simp [bind, Except.bind]

theorem ended_iff (before : List Placed) (token : Token) (place : Place) (tokens : List Token)
    (P : List Token → Prop) :
    (∃ more, tokens = ((⟨token, place⟩ : Placed) :: before).reverse.map Placed.token ++ more ∧
      P more) ↔ ∃ more, tokens = before.reverse.map Placed.token ++ more ∧
        ∃ rest, more = token :: rest ∧ P rest := by
  constructor
  · rintro ⟨more, rfl, h⟩
    exact ⟨token :: more, by simp, more, rfl, h⟩
  · rintro ⟨_, rfl, rest, rfl, h⟩
    exact ⟨rest, by simp, h⟩

theorem named_iff {start : Place} {letters : List Char}
    (sound : Mode.Sound (.naming start letters)) (cs : List Char)
    (stop : ∀ d ∈ cs.head?, ¬ NameLetter d) (tokens : List Token) :
    Splits (letters.reverse ++ cs) tokens ↔
      ∃ rest, tokens = .name (String.ofList letters.reverse) :: rest ∧ Splits cs rest := by
  obtain ⟨first, run, whole, starting, inside⟩ := sound
  have known : ∀ d ∈ run, continuesName d = true := fun d member =>
    (continuesName_iff d).mpr (inside d member)
  have ended : ∀ d ∈ cs.head?, continuesName d = false := fun d member =>
    Bool.eq_false_iff.mpr fun letter => stop d member ((continuesName_iff d).mp letter)
  rw [whole, List.cons_append, Splits.name_iff starting, Text.takeWhile_append_stop known ended,
    Text.dropWhile_append_stop known ended]

theorem begin_reads {cs : List Char} (later : Exact cs) (before : List Placed) (place : Place)
    (c : Char) (tokens : List Token) :
    (∃ next, begin before place c = .ok next ∧ next.Reads cs tokens) ↔
      ∃ more, tokens = before.reverse.map Placed.token ++ more ∧ Splits (c :: cs) more := by
  -- The branches test what separates, comments, brackets and names in the order the reader does.
  unfold begin
  split
  next blank =>
    have separator := (separates_iff c).mp blank
    simp only [Except.ok.injEq, exists_eq_left', later _ .between _ _ trivial, Mode.pending,
      List.nil_append, Splits.blank_iff separator]
  next blank =>
    have separator : c ∉ [' ', '\t', '\r', '\n'] := fun h => blank ((separates_iff c).mpr h)
    split
    next comment =>
      subst comment
      simp only [Except.ok.injEq, exists_eq_left', later _ .comment _ _ trivial, Mode.pending,
        List.cons_append, List.nil_append]
    next comment =>
      split
      next opening =>
        subst opening
        simp only [Except.ok.injEq, exists_eq_left', later _ .between _ _ trivial, Mode.pending,
          List.nil_append, Splits.opening_iff, ended_iff]
      next opening =>
        split
        next closing =>
          subst closing
          simp only [Except.ok.injEq, exists_eq_left', later _ .between _ _ trivial, Mode.pending,
            List.nil_append, Splits.closing_iff, ended_iff]
        next closing =>
          split
          next start =>
            have starting := (startsName_iff c).mp start
            have sound : Mode.Sound (.naming place [c]) := ⟨c, [], rfl, starting, by simp⟩
            simp only [Except.ok.injEq, exists_eq_left', later _ _ _ _ sound, Mode.pending,
              List.reverse_singleton, List.singleton_append]
          next start =>
            have starting : ¬ NameStart c := fun h => start ((startsName_iff c).mpr h)
            simp [Splits.not_illegal separator comment opening closing starting]

theorem exact_all (cs : List Char) : Exact cs := by
  -- What the mode has taken in counts as text still to be split.
  induction cs with
  | nil =>
    intro before mode place tokens sound
    simp only [Reads, List.foldlM_nil, pure, Except.pure, Except.ok.injEq, exists_eq_left',
      List.append_nil]
    cases mode with
    | between => simp [closed, Mode.pending, Splits.nil_iff, eq_comm]
    | comment => simp [closed, Mode.pending, Splits.comment_iff, Splits.nil_iff, eq_comm]
    | naming start letters =>
      have ended := named_iff sound [] (by simp)
      simp only [List.append_nil] at ended
      simp [closed, Mode.pending, ended, Splits.nil_iff, eq_comm]
  | cons c cs ih =>
    intro before mode place tokens sound
    rw [reads_cons]
    cases mode with
    | between => exact begin_reads ih before place c tokens
    | comment =>
      simp only [step, Except.ok.injEq, exists_eq_left', Mode.pending, List.singleton_append,
        Splits.comment_iff]
      by_cases line : c = '\n'
      · subst line
        simp [ih _ .between _ _ trivial, Mode.pending, Splits.blank_iff]
      · simp [line, ih _ .comment _ _ trivial, Mode.pending, Splits.comment_iff]
    | naming start letters =>
      by_cases more : continuesName c = true
      -- The name goes on as long as it can, as the relation has it too.
      · have longer : Mode.Sound (.naming start (c :: letters)) := by
          obtain ⟨first, run, whole, starting, inside⟩ := sound
          refine ⟨first, run ++ [c], by simp [whole], starting, ?_⟩
          intro d member
          rcases List.mem_append.mp member with old | new
          · exact inside d old
          · rw [List.mem_singleton.mp new]
            exact (continuesName_iff c).mp more
        simp [step, more, ih _ _ _ _ longer, Mode.pending]
      · have stop : ∀ d ∈ (c :: cs).head?, ¬ NameLetter d := by
          intro d member letter
          rw [← Option.some.inj member] at letter
          exact more ((continuesName_iff c).mpr letter)
        simp only [step, more, Bool.false_eq_true, if_false, begin_reads ih, closed,
          ended_iff, Mode.pending, named_iff sound _ stop]

end Scan

theorem lex_tokens_iff (text : String) (tokens : List Token) :
    (∃ lexed, lex text = .ok lexed ∧ lexed.tokens.map Placed.token = tokens) ↔
      Splits text.toList tokens := by
  have whole := Scan.exact_all text.toList [] .between .start tokens trivial
  simp only [Mode.pending, List.reverse_nil, List.map_nil, List.nil_append,
    exists_eq_left'] at whole
  rw [← whole]
  unfold lex Scan.Reads
  change _ ↔ ∃ last, text.toList.foldlM Scan.step Scan.start = .ok last ∧ _
  cases text.toList.foldlM Scan.step Scan.start <;> simp [Except.map]

end Sluice.Route
