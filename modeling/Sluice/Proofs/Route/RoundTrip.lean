import Sluice.Proofs.Route.Grammar
import Sluice.Route.Print

set_option autoImplicit false

namespace Sluice.Route

open Element (tokensOf)

def IsName (text : String) : Prop :=
  ∃ c letters, text.toList = c :: letters ∧ NameStart c ∧ ∀ d ∈ letters, NameLetter d

def Named (tokens : List Token) : Prop := ∀ text, Token.name text ∈ tokens → IsName text

theorem Splits.named {cs : List Char} {tokens : List Token} (split : Splits cs tokens) :
    Named tokens := by
  induction split with
  | nil => intro text member; cases member
  | blank _ _ ih => exact ih
  | comment _ _ _ ih => exact ih
  | opening _ ih => intro text member; exact ih text (by simpa using member)
  | closing _ ih => intro text member; exact ih text (by simpa using member)
  | @name c letters _ _ start inside _ _ ih =>
    intro text member
    rcases List.mem_cons.mp member with same | later
    · cases same
      exact ⟨c, letters, String.toList_ofList, start, inside⟩
    · exact ih text later

def Prints (text : List Char) (tokens : List Token) : Prop :=
  ∀ rest more, (∀ d ∈ rest.head?, ¬ NameLetter d) → Splits rest more →
    Splits (text ++ rest) (tokens ++ more)

namespace Prints

theorem splits {text : List Char} {tokens : List Token} (prints : Prints text tokens) :
    Splits text tokens := by
  simpa using prints [] [] (by simp) .nil

theorem name {text : String} (named : IsName text) : Prints text.toList [.name text] := by
  obtain ⟨c, letters, whole, start, inside⟩ := named
  intro rest more stop after
  have split := Splits.name start inside stop after
  rwa [← whole, String.ofList_toList, ← List.cons_append, ← whole] at split

theorem append {left right : List Char} {before after : List Token} {c : Char}
    (separator : c ∈ [' ', '\n']) (first : Prints left before) (second : Prints right after) :
    Prints (left ++ c :: right) (before ++ after) := by
  intro rest more stop split
  simp only [List.mem_cons, List.not_mem_nil, or_false] at separator
  -- The separator ends a name on the left and is skipped before what is on the right.
  have ends : ∀ d ∈ (c :: (right ++ rest)).head?, ¬ NameLetter d := by
    intro d member
    obtain rfl : c = d := Option.some.inj member
    rcases separator with rfl | rfl <;> decide
  have blank : c ∈ [' ', '\t', '\r', '\n'] := by rcases separator with rfl | rfl <;> decide
  simpa using first _ _ ends (.blank blank (second rest more stop split))

theorem indent {text : List Char} {tokens : List Token} (width : Nat)
    (prints : Prints text tokens) : Prints (List.replicate width ' ' ++ text) tokens := by
  induction width with
  | zero => simpa using prints
  | succ width ih =>
    intro rest more stop split
    exact .blank (by decide) (ih rest more stop split)

theorem enclose {text : List Char} {tokens : List Token} (prints : Prints text tokens) :
    Prints ('(' :: (text ++ [')'])) (.opening :: (tokens ++ [.closing])) := by
  intro rest more _ split
  have ends : ∀ d ∈ (')' :: rest).head?, ¬ NameLetter d := by
    intro d member
    obtain rfl : ')' = d := Option.some.inj member
    decide
  simpa using Splits.opening (prints _ _ ends (.closing split))

end Prints

theorem Named.left {left right : List Token} (named : Named (left ++ right)) : Named left :=
  fun text member => named text (List.mem_append_left _ member)

theorem Named.right {left right : List Token} (named : Named (left ++ right)) : Named right :=
  fun text member => named text (List.mem_append_right _ member)

theorem Named.inside {inner : List Element} (named : Named (Element.branch inner).tokens) :
    Named (tokensOf inner) :=
  fun text member => named text (by simp [Element.tokens, member])

mutual

theorem word_prints : (element : Element) → element.Proper → Named element.tokens →
    Prints (word element).toList element.tokens
  | .stage reference, _, named => .name (named reference List.mem_cons_self)
  | .branch inner, proper, named => by
    have prints := words_print inner proper.1 proper.2 named.inside
    simpa [word, Element.tokens] using prints.enclose

theorem words_print {ready : Bool} : (route : List Element) → route ≠ [] →
    ProperFrom ready route → Named (tokensOf route) →
    Prints (" ".intercalate (words route)).toList (tokensOf route)
  | [], filled, _, _ => absurd rfl filled
  | [element], _, proper, named => by
    simpa [words, tokensOf] using word_prints element proper.2.1 named.left
  | element :: next :: rest, _, proper, named => by
    have first := word_prints element proper.2.1 named.left
    have later := words_print (next :: rest) (by simp) proper.2.2 named.right
    simpa [words, tokensOf] using first.append (c := ' ') (by decide) later

end

def bodyOf : List Line → List Char
  | [] => []
  | line :: rest => line.text.toList ++ rest.flatMap fun other => '\n' :: other.indented.toList

theorem joined_lines (line : Line) (rest : List Line) :
    ("\n".intercalate ((line :: rest).map Line.indented)).toList =
      List.replicate (4 * line.depth) ' ' ++ bodyOf (line :: rest) := by
  induction rest generalizing line with
  | nil => simp [bodyOf, Line.indented]
  | cons other rest ih =>
    rw [List.map_cons, List.map_cons, String.intercalate_cons_cons, ← List.map_cons,
      String.toList_append, String.toList_append, ih]
    simp [bodyOf, Line.indented]

theorem bodyOf_append (left : List Line) (line : Line) (rest : List Line) (filled : left ≠ []) :
    bodyOf (left ++ line :: rest) =
      bodyOf left ++ '\n' :: (List.replicate (4 * line.depth) ' ' ++ bodyOf (line :: rest)) := by
  cases left with
  | nil => exact absurd rfl filled
  | cons first left => simp [bodyOf, Line.indented]

theorem mapLast_concat {α : Type} (f : α → α) (items : List α) (last : α) :
    mapLast f (items ++ [last]) = items ++ [f last] := by
  simp [mapLast, mapFirst]

theorem bodyOf_enclose (lines : List Line) (filled : lines ≠ []) :
    bodyOf (enclose lines) = '(' :: (bodyOf lines ++ [')']) := by
  cases lines with
  | nil => exact absurd rfl filled
  | cons line rest =>
    -- Both parentheses go to the same line if there is only one.
    rcases List.eq_nil_or_concat rest with rfl | ⟨between, last, rfl⟩
    · simp [enclose, mapFirst, mapLast, bodyOf]
    · rw [List.concat_eq_append]
      have opened : enclose (line :: (between ++ [last])) =
          { line with text := "(" ++ line.text } ::
            (between ++ [{ last with text := last.text ++ ")" }]) := by
        rw [enclose, mapFirst, ← List.cons_append, mapLast_concat, List.cons_append]
      simp [opened, bodyOf, Line.indented]

mutual

theorem lines_print (depth : Nat) : (element : Element) → element.Proper → Named element.tokens →
    lines depth element ≠ [] ∧ Prints (bodyOf (lines depth element)) element.tokens
  | .stage reference, _, named => by
    have prints := Prints.name (named reference List.mem_cons_self)
    exact ⟨by simp [lines], by simpa [lines, bodyOf, Element.tokens] using prints⟩
  | .branch inner, proper, named => by
    have ⟨filled, prints⟩ := linesOf_print (depth + 1) inner proper.1 proper.2 named.inside
    have enclosed := bodyOf_enclose _ filled
    refine ⟨?_, by simpa [lines, enclosed, Element.tokens] using prints.enclose⟩
    intro empty
    rw [show enclose (linesOf (depth + 1) inner) = [] from empty] at enclosed
    cases enclosed

theorem linesOf_print (depth : Nat) {ready : Bool} : (route : List Element) → route ≠ [] →
    ProperFrom ready route → Named (tokensOf route) →
    linesOf depth route ≠ [] ∧ Prints (bodyOf (linesOf depth route)) (tokensOf route)
  | [], filled, _, _ => absurd rfl filled
  | [element], _, proper, named => by
    simpa [linesOf, tokensOf] using lines_print depth element proper.2.1 named.left
  | element :: next :: rest, _, proper, named => by
    have ⟨filled, first⟩ := lines_print depth element proper.2.1 named.left
    have ⟨more, later⟩ := linesOf_print depth (next :: rest) (by simp) proper.2.2 named.right
    -- Only the first line of what comes later is indented here; `bodyOf` leaves that out.
    obtain ⟨line, below, split⟩ := List.exists_cons_of_ne_nil more
    rw [linesOf, tokensOf, split, bodyOf_append _ _ _ filled]
    rw [split] at later
    exact ⟨by simp, first.append (by decide) (later.indent _)⟩

end

theorem pretty_splits (route : List Element) (proper : ProperRoute route)
    (named : Named (tokensOf route)) :
    Splits ("\n".intercalate (pretty route)).toList (tokensOf route) := by
  have ⟨filled, prints⟩ := linesOf_print 0 route proper.1 proper.2 named
  obtain ⟨line, rest, split⟩ := List.exists_cons_of_ne_nil filled
  rw [pretty, split, joined_lines]
  rw [split] at prints
  exact (prints.indent _).splits

theorem read_printed {text : String} {route : List Element} (done : read text = .ok route) :
    read ("\n".intercalate (pretty route)) = .ok route ∧ read (oneLine route) = .ok route := by
  have ⟨proper, split⟩ := (read_ok_iff text route).mp done
  have named := split.named
  exact ⟨(read_ok_iff _ route).mpr ⟨proper, pretty_splits route proper named⟩,
    (read_ok_iff _ route).mpr ⟨proper, (words_print route proper.1 proper.2 named).splits⟩⟩

/-- Both printed forms of a route compile to the same plan, and have one line in common. -/
theorem printed_route_compiles_same (text : String) (plan : Plan)
    (compiled : Plan.read text = .ok plan) :
    ∃ lines line, prettyPrint text = .ok lines ∧ render text = .ok line ∧
      Plan.read ("\n".intercalate lines) = .ok plan ∧ Plan.read line = .ok plan ∧
      render ("\n".intercalate lines) = .ok line ∧ render line = .ok line := by
  obtain ⟨route, done, rfl⟩ := (Plan.read_ok_iff text plan).mp compiled
  have ⟨printed, rendered⟩ := read_printed done
  refine ⟨pretty route, oneLine route, ?_, ?_, ?_, ?_, ?_, ?_⟩
  · rw [prettyPrint, done]; rfl
  · rw [render, done]; rfl
  · exact (Plan.read_ok_iff _ _).mpr ⟨route, printed, rfl⟩
  · exact (Plan.read_ok_iff _ _).mpr ⟨route, rendered, rfl⟩
  · rw [render, printed]; rfl
  · rw [render, rendered]; rfl

theorem nested_printed_route_compiles_same :
    Plan.read "A:2 (B (C D) E) F (G (H)) J # done" = .ok (.ofElements [.stage "A:2",
        .branch [.stage "B", .branch [.stage "C", .stage "D"], .stage "E"], .stage "F",
        .branch [.stage "G", .branch [.stage "H"]], .stage "J"]) ∧
      ∃ lines line, prettyPrint "A:2 (B (C D) E) F (G (H)) J # done" = .ok lines ∧
        render "A:2 (B (C D) E) F (G (H)) J # done" = .ok line ∧
        Plan.read ("\n".intercalate lines) = Plan.read line ∧ render line = .ok line := by
  have compiled : Plan.read "A:2 (B (C D) E) F (G (H)) J # done" = .ok (.ofElements [.stage "A:2",
      .branch [.stage "B", .branch [.stage "C", .stage "D"], .stage "E"], .stage "F",
      .branch [.stage "G", .branch [.stage "H"]], .stage "J"]) := by rfl
  obtain ⟨lines, line, printed, rendered, pretty, short, _, again⟩ :=
    printed_route_compiles_same _ _ compiled
  exact ⟨compiled, lines, line, printed, rendered, pretty.trans short.symm, again⟩

end Sluice.Route
