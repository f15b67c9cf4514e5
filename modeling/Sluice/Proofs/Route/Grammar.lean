import Sluice.Proofs.Route.TokenSplits
import Sluice.Route.Plan

set_option autoImplicit false

namespace Sluice.Route

-- pipe := stage (stage | branch stage)* branch?    branch := '(' pipe ')'
mutual

inductive Pipe : List Token → Prop where
  | stage (name : String) {steps last : List Token} (inside : Steps steps) (ended : Last last) :
      Pipe (.name name :: (steps ++ last))

inductive Steps : List Token → Prop where
  | nil : Steps []
  | stage (name : String) {rest : List Token} (after : Steps rest) : Steps (.name name :: rest)
  | branch {inner : List Token} (name : String) {rest : List Token} (branch : Branch inner)
      (after : Steps rest) : Steps (inner ++ .name name :: rest)

inductive Last : List Token → Prop where
  | none : Last []
  | branch {inner : List Token} (branch : Branch inner) : Last inner

inductive Branch : List Token → Prop where
  | pipe {inner : List Token} (pipe : Pipe inner) : Branch (.opening :: (inner ++ [.closing]))

end

def Element.isBranch : Element → Bool
  | .stage _ => false
  | .branch _ => true

mutual

def Element.Proper : Element → Prop
  | .stage _ => True
  | .branch inner => inner ≠ [] ∧ ProperFrom false inner

def ProperFrom (ready : Bool) : List Element → Prop
  | [] => True
  | element :: rest =>
    (element.isBranch = true → ready = true) ∧ element.Proper ∧
      ProperFrom (!element.isBranch) rest

end

def ProperRoute (route : List Element) : Prop := route ≠ [] ∧ ProperFrom false route

open Element (tokensOf)

@[simp] theorem tokensOf_append (left right : List Element) :
    tokensOf (left ++ right) = tokensOf left ++ tokensOf right := by
  induction left with
  | nil => simp [tokensOf]
  | cons element rest ih => simp [tokensOf, ih]

def readyAfter (ready : Bool) (elements : List Element) : Bool :=
  elements.foldl (fun _ element => !element.isBranch) ready

theorem properFrom_append (ready : Bool) (left right : List Element) :
    ProperFrom ready (left ++ right) ↔
      ProperFrom ready left ∧ ProperFrom (readyAfter ready left) right := by
  induction left generalizing ready with
  | nil => simp [ProperFrom, readyAfter]
  | cons element rest ih => simp [ProperFrom, ih, and_assoc, readyAfter]

@[simp] theorem readyAfter_append (ready : Bool) (left right : List Element) :
    readyAfter ready (left ++ right) = readyAfter (readyAfter ready left) right := by
  simp [readyAfter]

@[simp] theorem readyAfter_nil (ready : Bool) : readyAfter ready [] = ready := rfl

@[simp] theorem readyAfter_cons (ready : Bool) (element : Element) (rest : List Element) :
    readyAfter ready (element :: rest) = readyAfter (!element.isBranch) rest := rfl

mutual

theorem Pipe.tree {tokens : List Token} :
    Pipe tokens → ∃ route, ProperRoute route ∧ tokensOf route = tokens
  | .stage name inside ended => by
    obtain ⟨middle, proper, ready, rfl⟩ := inside.tree
    obtain ⟨last, fits, rfl⟩ := ended.tree
    refine ⟨.stage name :: (middle ++ last), ⟨by simp, ?_⟩, by simp [tokensOf, Element.tokens]⟩
    simp [ProperFrom, Element.Proper, Element.isBranch, properFrom_append, proper, ready, fits]

theorem Steps.tree {tokens : List Token} :
    Steps tokens →
      ∃ route, ProperFrom true route ∧ readyAfter true route = true ∧ tokensOf route = tokens
  | .nil => ⟨[], trivial, rfl, rfl⟩
  | .stage name after => by
    obtain ⟨route, proper, ready, rfl⟩ := after.tree
    exact ⟨.stage name :: route, ⟨by simp, trivial, proper⟩, ready, rfl⟩
  | .branch name branch after => by
    obtain ⟨inner, fits, rfl⟩ := branch.tree
    obtain ⟨route, proper, ready, rfl⟩ := after.tree
    refine ⟨.branch inner :: .stage name :: route, ⟨by simp, fits, ?_⟩, ready, ?_⟩
    · exact ⟨by simp [Element.isBranch], trivial, proper⟩
    · simp [tokensOf, Element.tokens]

theorem Last.tree {tokens : List Token} :
    Last tokens → ∃ route, ProperFrom true route ∧ tokensOf route = tokens
  | .none => ⟨[], trivial, rfl⟩
  | .branch branch => by
    obtain ⟨inner, fits, rfl⟩ := branch.tree
    exact ⟨[.branch inner], ⟨by simp, fits, trivial⟩, by simp [tokensOf]⟩

theorem Branch.tree {tokens : List Token} :
    Branch tokens →
      ∃ inner, (Element.branch inner).Proper ∧ (Element.branch inner).tokens = tokens
  | .pipe pipe => by
    obtain ⟨inner, proper, rfl⟩ := pipe.tree
    exact ⟨inner, proper, rfl⟩

end

mutual

theorem pipe_of_proper : (route : List Element) → ProperRoute route → Pipe (tokensOf route)
  | [], proper => absurd rfl proper.1
  | .branch _ :: _, proper => absurd (proper.2.1 rfl) (by decide)
  | .stage name :: rest, proper => by
    obtain ⟨steps, last, inside, ended, split⟩ := steps_of_proper rest proper.2.2.2
    have whole : tokensOf (.stage name :: rest) = .name name :: (steps ++ last) := by
      simp [tokensOf, Element.tokens, split]
    exact whole ▸ .stage name inside ended

theorem steps_of_proper : (route : List Element) → ProperFrom true route →
    ∃ steps last, Steps steps ∧ Last last ∧ tokensOf route = steps ++ last
  | [], _ => ⟨[], [], .nil, .none, rfl⟩
  | .stage name :: rest, proper => by
    obtain ⟨steps, last, inside, ended, split⟩ := steps_of_proper rest proper.2.2
    exact ⟨_, last, .stage name inside, ended, by simp [tokensOf, Element.tokens, split]⟩
  -- A branch before a stage is part of a step, and the branch at the end is the last.
  | [.branch inner], proper =>
    ⟨[], _, .nil, .branch (.pipe (pipe_of_proper inner proper.2.1)), by
      simp [tokensOf, Element.tokens]⟩
  | .branch inner :: .stage name :: rest, proper => by
    obtain ⟨steps, last, inside, ended, split⟩ := steps_of_proper rest proper.2.2.2.2
    have branch := Branch.pipe (pipe_of_proper inner proper.2.1)
    exact ⟨_, last, .branch name branch inside, ended, by simp [tokensOf, Element.tokens, split]⟩
  | .branch _ :: .branch _ :: _, proper => absurd (proper.2.2.1 rfl) (by simp [Element.isBranch])

end

theorem pipe_iff_proper (tokens : List Token) :
    Pipe tokens ↔ ∃ route, ProperRoute route ∧ tokensOf route = tokens := by
  constructor
  · exact Pipe.tree
  · rintro ⟨route, proper, rfl⟩; exact pipe_of_proper route proper

def openTokens : List Frame → List Token
  | [] => []
  | frame :: outer => openTokens outer ++ tokensOf frame.before.reverse ++ [.opening]

def Frame.Proper (frame : Frame) : Prop :=
  ProperFrom false frame.before.reverse ∧ readyAfter false frame.before.reverse = true

theorem properFrom_push {current : List Element} {element : Element}
    (proper : ProperFrom false current.reverse)
    (ready : element.isBranch = true → readyAfter false current.reverse = true)
    (inside : element.Proper) : ProperFrom false (element :: current).reverse := by
  rw [List.reverse_cons, properFrom_append]
  exact ⟨proper, ready, inside, trivial⟩

theorem parse_sound (ending : Place) (frames : List Frame) (current route : List Element)
    (placed : List Placed) (outer : ∀ frame ∈ frames, frame.Proper)
    (proper : ProperFrom false current.reverse)
    (parsed : parse ending frames current placed = .ok route) :
    ProperRoute route ∧
      tokensOf route = openTokens frames ++ tokensOf current.reverse ++
        placed.map Placed.token := by
  -- The frames hold what stands before each branch still open, the innermost first.
  fun_induction parse ending frames current placed with
  | case1 => cases parsed
  | case2 current some =>
    cases parsed
    exact ⟨⟨by simpa using some, proper⟩, by simp [openTokens]⟩
  | case3 => cases parsed
  | case4 frames current text place rest ih =>
    have pushed := ih outer (properFrom_push proper (by simp [Element.isBranch]) trivial) parsed
    simpa [tokensOf, Element.tokens] using pushed
  | case5 => cases parsed
  | case6 => cases parsed
  | case7 frames place rest reference before ih =>
    have fits : Frame.Proper ⟨.stage reference :: before, place⟩ :=
      ⟨proper, by simp [Element.isBranch]⟩
    have pushed := ih (by simpa using ⟨fits, outer⟩) trivial parsed
    simpa [openTokens, tokensOf] using pushed
  | case8 => cases parsed
  | case9 => cases parsed
  | case10 before start frames current place rest some ih =>
    have fits := outer _ List.mem_cons_self
    have inside : (Element.branch current.reverse).Proper := ⟨by simpa using some, proper⟩
    have pushed := ih (fun frame member => outer frame (List.mem_cons_of_mem _ member))
      (properFrom_push fits.1 (fun _ => fits.2) inside) parsed
    simpa [openTokens, tokensOf, Element.tokens] using pushed

theorem parse_tokens (ending : Place) : (route : List Element) → (frames : List Frame) →
    (current : List Element) → (placed rest : List Placed) →
    ProperFrom (readyAfter false current.reverse) route →
    placed.map Placed.token = tokensOf route →
    parse ending frames current (placed ++ rest) =
      parse ending frames (route.reverse ++ current) rest
  | [], frames, current, placed, rest, _, same => by
    have none : placed = [] := by simpa [tokensOf] using same
    simp [none]
  | .stage name :: route, frames, current, placed, rest, proper, same => by
    simp only [tokensOf, Element.tokens, List.singleton_append, List.map_eq_cons_iff] at same
    obtain ⟨⟨_, place⟩, after, rfl, rfl, same⟩ := same
    have next := parse_tokens ending route frames (.stage name :: current) after rest
      (by simpa using proper.2.2) same
    simpa [parse] using next
  | .branch inner :: route, frames, current, placed, rest, proper, same => by
    simp only [tokensOf, Element.tokens, List.cons_append, List.append_assoc, List.nil_append,
      List.map_eq_cons_iff, List.map_eq_append_iff] at same
    obtain ⟨⟨_, start⟩, _, rfl, rfl, within, _, rfl, inside, ⟨_, stop⟩, after, rfl, rfl, same⟩ :=
      same
    -- The parser looks back at the last element, which has to be a stage.
    obtain ⟨reference, before, rfl⟩ : ∃ reference before, current = .stage reference :: before := by
      cases current with
      | nil => exact absurd (proper.1 rfl) (by simp)
      | cons element before =>
        cases element with
        | stage reference => exact ⟨reference, before, rfl⟩
        | branch => exact absurd (proper.1 rfl) (by simp [Element.isBranch])
    have read := parse_tokens ending inner (⟨.stage reference :: before, start⟩ :: frames) []
      within (⟨.closing, stop⟩ :: (after ++ rest)) proper.2.1.2 inside
    have next := parse_tokens ending route frames (.branch inner :: .stage reference :: before)
      after rest (by simpa using proper.2.2) same
    simpa [parse, read, proper.2.1.1] using next

theorem parse_ok_iff (ending : Place) (placed : List Placed) (route : List Element) :
    parse ending [] [] placed = .ok route ↔
      ProperRoute route ∧ tokensOf route = placed.map Placed.token := by
  constructor
  · intro parsed
    simpa [openTokens, tokensOf] using
      parse_sound ending [] [] route placed (by simp) trivial parsed
  · rintro ⟨proper, same⟩
    have read := parse_tokens ending route [] [] placed [] proper.2 same.symm
    simpa [parse, proper.1] using read

theorem read_ok_iff (text : String) (route : List Element) :
    read text = .ok route ↔ ProperRoute route ∧ Splits text.toList (tokensOf route) := by
  have lexed := lex_tokens_iff text (tokensOf route)
  unfold read
  cases found : lex text with
  | error e => simp [bind, Except.bind, ← lexed, found]
  | ok l =>
    simp only [bind, Except.bind, parse_ok_iff, ← lexed, found, Except.ok.injEq, exists_eq_left']
    exact and_congr_right fun _ => eq_comm

def Closes (tokens : List Token) : Prop := ∀ token ∈ tokens.head?, token = .closing

theorem not_closes (element : Element) (rest : List Element) (tokens : List Token) :
    ¬ Closes (tokensOf (element :: rest) ++ tokens) := by
  cases element <;> simp [Closes, tokensOf, Element.tokens]

theorem tokensOf_cancel : (left right : List Element) → (after other : List Token) →
    Closes after → Closes other → tokensOf left ++ after = tokensOf right ++ other →
    left = right ∧ after = other
  | [], [], _, _, _, _, same => ⟨rfl, same⟩
  -- An element starts with a name or an opening, and what stands behind does not.
  | [], element :: rest, after, other, closes, _, same => by
    have whole : after = tokensOf (element :: rest) ++ other := same
    exact absurd (whole ▸ closes) (not_closes element rest other)
  | element :: rest, [], after, other, _, closes, same => by
    have whole : tokensOf (element :: rest) ++ after = other := same
    exact absurd (whole ▸ closes) (not_closes element rest after)
  | .stage a :: left, .stage b :: right, after, other, closes, closes', same => by
    simp only [tokensOf, Element.tokens, List.cons_append, List.cons.injEq,
      Token.name.injEq] at same
    obtain ⟨rfl, rfl⟩ := tokensOf_cancel left right after other closes closes' same.2
    exact ⟨by rw [same.1], rfl⟩
  | .stage _ :: _, .branch _ :: _, _, _, _, _, same => by simp [tokensOf, Element.tokens] at same
  | .branch _ :: _, .stage _ :: _, _, _, _, _, same => by simp [tokensOf, Element.tokens] at same
  | .branch inner :: left, .branch inside :: right, after, other, closes, closes', same => by
    simp only [tokensOf, Element.tokens, List.cons_append, List.append_assoc, List.nil_append,
      List.cons.injEq, true_and] at same
    obtain ⟨rfl, rest⟩ :=
      tokensOf_cancel inner inside _ _ (by simp [Closes]) (by simp [Closes]) same
    obtain ⟨rfl, rfl⟩ :=
      tokensOf_cancel left right after other closes closes' (List.cons.inj rest).2
    exact ⟨rfl, rfl⟩

theorem tokensOf_injective {left right : List Element} (same : tokensOf left = tokensOf right) :
    left = right :=
  (tokensOf_cancel left right [] [] (by simp [Closes]) (by simp [Closes]) (by simpa using same)).1

theorem Plan.compile_run (text : String) (reports : List Report) :
    ((compile text).run reports).1 = read text := by
  unfold compile
  cases read text <;> rfl

theorem Plan.read_ok_iff (text : String) (plan : Plan) :
    read text = .ok plan ↔ ∃ route, Route.read text = .ok route ∧ ofElements route = plan := by
  unfold read
  cases Route.read text <;> simp [Except.map]

/-- A text is a route when it splits into tokens that the grammar derives, and it is then the one
route with these tokens. -/
theorem compile_ok_iff_derivable (text : String) (reports : List Report) :
    ((∃ plan, ((Plan.compile text).run reports).1 = .ok plan) ↔
      ∃ tokens, Splits text.toList tokens ∧ Pipe tokens) ∧
    ∀ tokens, Splits text.toList tokens ∧ Pipe tokens ↔
      ∃ route, read text = .ok route ∧
        ((Plan.compile text).run reports).1 = .ok (Plan.ofElements route) ∧
        tokensOf route = tokens ∧ ∀ other, tokensOf other = tokens → other = route := by
  have derived (tokens : List Token) : Splits text.toList tokens ∧ Pipe tokens ↔
      ∃ route, read text = .ok route ∧ tokensOf route = tokens := by
    rw [pipe_iff_proper]
    constructor
    · rintro ⟨split, route, proper, rfl⟩
      exact ⟨route, (read_ok_iff text route).mpr ⟨proper, split⟩, rfl⟩
    · rintro ⟨route, done, rfl⟩
      have ⟨proper, split⟩ := (read_ok_iff text route).mp done
      exact ⟨split, route, proper, rfl⟩
  rw [Plan.compile_run]
  refine ⟨?_, fun tokens => ?_⟩
  · simp only [derived, Plan.read_ok_iff]
    constructor
    · rintro ⟨_, route, done, _⟩
      exact ⟨_, route, done, rfl⟩
    · rintro ⟨_, route, done, _⟩
      exact ⟨_, route, done, rfl⟩
  · rw [derived]
    constructor
    · rintro ⟨route, done, rfl⟩
      exact ⟨route, done, (Plan.read_ok_iff text _).mpr ⟨route, done, rfl⟩, rfl,
        fun other same => tokensOf_injective same⟩
    · rintro ⟨route, done, _, same, _⟩
      exact ⟨route, done, same⟩

end Sluice.Route
