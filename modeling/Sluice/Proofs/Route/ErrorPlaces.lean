import Sluice.Proofs.Route.Grammar

set_option autoImplicit false

namespace Sluice.Route

section

variable {α ε : Type}

/-- Nothing is wrong with any of some items, which may depend on what stands before it. -/
def NoneWrong (wrong : List α → α → ε → Prop) (items : List α) : Prop :=
  ∀ before item after e, items = before ++ item :: after → ¬wrong before item e

def FirstWrong (wrong : List α → α → ε → Prop) (items : List α) (e : ε) : Prop :=
  ∃ before item after, items = before ++ item :: after ∧ wrong before item e ∧ NoneWrong wrong before

theorem noneWrong_nil (wrong : List α → α → ε → Prop) : NoneWrong wrong [] := by
  intro before item after e none
  simp at none

theorem firstWrong_nil (wrong : List α → α → ε → Prop) (e : ε) : ¬FirstWrong wrong [] e := by
  rintro ⟨before, item, after, none, -⟩
  simp at none

variable {wrong : List α → α → ε → Prop} {item : α} {rest : List α}

theorem noneWrong_cons : NoneWrong wrong (item :: rest) ↔
    (∀ e, ¬wrong [] item e) ∧ NoneWrong (fun before => wrong (item :: before)) rest := by
  constructor
  · exact fun none => ⟨fun e => none [] item rest e rfl, fun before other after e same =>
      none (item :: before) other after e (by rw [same, List.cons_append])⟩
  · rintro ⟨here, later⟩ before other after e same
    cases before with
    | nil =>
      simp only [List.nil_append, List.cons.injEq] at same
      exact same.1 ▸ here e
    | cons first before =>
      simp only [List.cons_append, List.cons.injEq] at same
      exact same.1 ▸ later before other after e same.2

theorem firstWrong_cons {e : ε} : FirstWrong wrong (item :: rest) e ↔ wrong [] item e ∨
    (∀ e', ¬wrong [] item e') ∧ FirstWrong (fun before => wrong (item :: before)) rest e := by
  constructor
  · rintro ⟨before, other, after, same, there, none⟩
    cases before with
    | nil =>
      simp only [List.nil_append, List.cons.injEq] at same
      exact .inl (same.1 ▸ there)
    | cons first before =>
      simp only [List.cons_append, List.cons.injEq] at same
      obtain ⟨rfl, rfl⟩ := same
      have ⟨here, later⟩ := noneWrong_cons.mp none
      exact .inr ⟨here, before, other, after, rfl, there, later⟩
  · rintro (here | ⟨here, before, other, after, rfl, there, later⟩)
    · exact ⟨[], item, rest, rfl, here, noneWrong_nil wrong⟩
    · exact ⟨item :: before, other, after, rfl, there, noneWrong_cons.mpr ⟨here, later⟩⟩

def Blamed (wrong : List α → α → ε → Prop) (ended : ε → Prop) (items : List α) (e : ε) : Prop :=
  FirstWrong wrong items e ∨ NoneWrong wrong items ∧ ended e

variable {ended : ε → Prop} {e : ε}

theorem blamed_nil : Blamed wrong ended [] e ↔ ended e := by
  simp [Blamed, firstWrong_nil, noneWrong_nil]

theorem blamed_here {fault : ε} (here : ∀ e, wrong [] item e ↔ e = fault) :
    Blamed wrong ended (item :: rest) e ↔ e = fault := by
  simp [Blamed, firstWrong_cons, noneWrong_cons, here]

theorem blamed_later (fine : ∀ e, ¬wrong [] item e) : Blamed wrong ended (item :: rest) e ↔
    Blamed (fun before => wrong (item :: before)) ended rest e := by
  simp [Blamed, firstWrong_cons, noneWrong_cons, fine]

end

def lastLine (text : List Char) : List Char := text.reverse.takeWhile (· ≠ '\n')

/-- The place just past a text: its lines end in line feeds, and columns are characters. -/
def Place.past (text : List Char) : Place := ⟨text.count '\n' + 1, (lastLine text).length + 1⟩

def InComment (text : List Char) : Prop := '#' ∈ lastLine text

def marks : List Char := [' ', '\t', '\r', '\n', '#', '(', ')']

/-- A character outside of comments that is no mark and that neither starts a name nor goes on with
one. -/
inductive Illegal (before : List Char) (c : Char) : RouteError → Prop where
  | character (outside : ¬InComment before) (mark : c ∉ marks)
      (start : ¬NameStart c) (letter : ¬(NameLetter c ∧ ∃ d ∈ before.getLast?, NameLetter d)) :
      Illegal before c (.illegalCharacter c (.past before))

def Token.spelling : Token → List Char
  | .name text => text.toList
  | .opening => ['(']
  | .closing => [')']

def Stands (text : List Char) (left : List Placed) (placed : Placed) : Prop :=
  ∃ before after, text = before ++ placed.token.spelling ++ after ∧ placed.place = .past before ∧
    ¬InComment before ∧ Splits before (left.map Placed.token)

def AllStand (text : List Char) (tokens : List Placed) : Prop :=
  ∀ left placed right, tokens = left ++ placed :: right → Stands text left placed

section

variable {text : List Char} {tokens : List Placed}

theorem lastLine_concat (c : Char) :
    lastLine (text ++ [c]) = if c = '\n' then [] else c :: lastLine text := by
  by_cases line : c = '\n' <;> simp [lastLine, line]

theorem Place.past_concat (c : Char) : past (text ++ [c]) = (past text).after c := by
  by_cases line : c = '\n' <;> simp [past, after, lastLine_concat, List.count_append, line]

theorem inComment_concat {c : Char} :
    InComment (text ++ [c]) ↔ c ≠ '\n' ∧ (c = '#' ∨ InComment text) := by
  by_cases line : c = '\n' <;> simp [InComment, lastLine_concat, line, eq_comm]

theorem Stands.append {left : List Placed} {placed : Placed} (stands : Stands text left placed)
    (more : List Char) : Stands (text ++ more) left placed := by
  obtain ⟨before, after, rfl, place, outside, splits⟩ := stands
  exact ⟨before, after ++ more, by simp, place, outside, splits⟩

theorem AllStand.append (stand : AllStand text tokens) (more : List Char) :
    AllStand (text ++ more) tokens :=
  fun left placed right same => (stand left placed right same).append more

theorem AllStand.concat (stand : AllStand text tokens) {placed : Placed}
    (last : Stands text tokens placed) : AllStand text (tokens ++ [placed]) := by
  intro left other right same
  rcases List.eq_nil_or_concat right with rfl | ⟨right, final, rfl⟩
  · obtain ⟨rfl, one⟩ := List.append_inj' same rfl
    exact (List.cons.inj one).1 ▸ last
  · have shorter : tokens ++ [placed] = (left ++ other :: right) ++ [final] := by simpa using same
    exact stand left other right (List.append_inj' shorter rfl).1

end

theorem NameLetter.not_mark {c : Char} (letter : NameLetter c) : c ∉ marks := by
  intro mark
  simp only [marks, List.mem_cons, List.not_mem_nil, or_false] at mark
  rcases mark with rfl | rfl | rfl | rfl | rfl | rfl | rfl <;> exact absurd letter (by decide)

theorem Illegal.not_mark {before : List Char} {c : Char} {e : RouteError}
    (illegal : Illegal before c e) : c ∉ marks := by
  cases illegal
  assumption

namespace Scan

inductive Begins (tokens : List Placed) (place : Place) : Char → Except RouteError Scan → Prop
  | blank {c : Char} (mark : c ∈ [' ', '\t', '\r', '\n']) :
      Begins tokens place c (.ok ⟨tokens, .between, place.after c⟩)
  | comment : Begins tokens place '#' (.ok ⟨tokens, .comment, place.after '#'⟩)
  | token {c : Char} (token : Token) (mark : c ∈ ['(', ')']) (spelled : token.spelling = [c]) :
      Begins tokens place c (.ok ⟨⟨token, place⟩ :: tokens, .between, place.after c⟩)
  | name {c : Char} (start : NameStart c) :
      Begins tokens place c (.ok ⟨tokens, .naming place [c], place.after c⟩)
  | illegal {c : Char} (mark : c ∉ marks) (start : ¬NameStart c) :
      Begins tokens place c (.error (.illegalCharacter c place))

theorem begin_begins (tokens : List Placed) (place : Place) (c : Char) :
    Begins tokens place c (begin tokens place c) := by
  unfold begin
  simp only [separates_iff, startsName_iff]
  by_cases blank : c ∈ [' ', '\t', '\r', '\n']
  · simpa only [blank, if_true] using Begins.blank blank
  by_cases comment : c = '#'
  · subst comment
    exact .comment
  by_cases opening : c = '('
  · subst opening
    exact .token .opening (by decide) rfl
  by_cases closing : c = ')'
  · subst closing
    exact .token .closing (by decide) rfl
  by_cases start : NameStart c
  · simpa [blank, comment, opening, closing, start] using Begins.name start
  · simp only [blank, comment, opening, closing, start, if_false]
    refine .illegal ?_ start
    simp only [marks, List.mem_cons, List.not_mem_nil, or_false, not_or] at blank ⊢
    exact ⟨blank.1, blank.2.1, blank.2.2.1, blank.2.2.2, comment, opening, closing⟩

structure Follows (before : List Char) (s : Scan) : Prop where
  read : before.foldlM step start = .ok s
  place : s.place = .past before
  comment : s.mode = .comment ↔ InComment before
  naming : (∃ place letters, s.mode = .naming place letters) ↔
    ¬InComment before ∧ ∃ d ∈ before.getLast?, NameLetter d
  tokens : AllStand before s.tokens.reverse
  name : ∀ place letters, s.mode = .naming place letters → ∃ earlier,
    before = earlier ++ letters.reverse ∧ place = .past earlier ∧ ¬InComment earlier ∧
      Splits earlier (s.tokens.reverse.map Placed.token)

theorem follows_start : Follows [] start where
  read := rfl
  place := rfl
  comment := by simp [start, InComment, lastLine]
  naming := by simp [start]
  tokens := by
    intro left placed right none
    simp [start] at none
  name := nofun

namespace Follows

variable {before : List Char} {s next : Scan} {c : Char}

theorem splits (follows : Follows before s) : Splits before (s.closed.reverse.map Placed.token) := by
  obtain ⟨more, same, splits⟩ :=
    (exact_all before [] .between .start _ trivial).mp ⟨s, follows.read, rfl⟩
  simpa [same, Mode.pending] using splits

theorem closed (follows : Follows before s) : AllStand before s.closed.reverse := by
  obtain ⟨tokens, mode, place⟩ := s
  cases mode with
  | between => exact follows.tokens
  | comment => exact follows.tokens
  | naming started letters =>
    obtain ⟨earlier, text, point, outside, splits⟩ := follows.name started letters rfl
    have last : Stands before tokens.reverse ⟨.name (String.ofList letters.reverse), started⟩ :=
      ⟨earlier, [], by simp [text, Token.spelling], point, outside, splits⟩
    simpa [Scan.closed] using follows.tokens.concat last

theorem read_concat (follows : Follows before s) (stepped : s.step c = .ok next) :
    (before ++ [c]).foldlM step start = .ok next := by
  simp [List.foldlM_append, follows.read, stepped, bind, Except.bind, pure, Except.pure]

theorem unnamed (follows : Follows before s) {tokens : List Placed} {mode : Mode}
    (stepped : s.step c = .ok ⟨tokens, mode, s.place.after c⟩)
    (stand : AllStand (before ++ [c]) tokens.reverse)
    (known : (mode = .between ∧ ¬InComment (before ++ [c]) ∧ ¬NameLetter c) ∨
      (mode = .comment ∧ InComment (before ++ [c]))) :
    Follows (before ++ [c]) ⟨tokens, mode, s.place.after c⟩ where
  read := follows.read_concat stepped
  place := by rw [Place.past_concat, ← follows.place]
  comment := by
    rcases known with ⟨rfl, outside, -⟩ | ⟨rfl, inside⟩
    · simp [outside]
    · simp [inside]
  naming := by
    rcases known with ⟨rfl, -, letter⟩ | ⟨rfl, inside⟩
    · simp [letter]
    · simp [inside]
  tokens := stand
  name := by
    rcases known with ⟨rfl, -⟩ | ⟨rfl, -⟩ <;> nofun

theorem named (follows : Follows before s) {tokens : List Placed} {place : Place}
    {letters : List Char} (stepped : s.step c = .ok ⟨tokens, .naming place letters, s.place.after c⟩)
    (stand : AllStand before tokens.reverse) (outside : ¬InComment before) (letter : NameLetter c)
    (name : ∃ earlier, before ++ [c] = earlier ++ letters.reverse ∧ place = .past earlier ∧
      ¬InComment earlier ∧ Splits earlier (tokens.reverse.map Placed.token)) :
    Follows (before ++ [c]) ⟨tokens, .naming place letters, s.place.after c⟩ := by
  have mark := letter.not_mark
  simp only [marks, List.mem_cons, not_or] at mark
  have still : ¬InComment (before ++ [c]) := by simp [inComment_concat, mark, outside]
  constructor
  case read => exact follows.read_concat stepped
  case place => rw [Place.past_concat, ← follows.place]
  case comment => simp [still]
  case naming => simp [still, letter]
  case tokens => exact stand.append [c]
  case name =>
    intro place' letters' same
    obtain ⟨rfl, rfl⟩ := Mode.naming.inj same
    exact name

theorem begun (follows : Follows before s) (outside : ¬InComment before)
    (stepped : s.step c = begin s.closed s.place c) (done : s.step c = .ok next) :
    Follows (before ++ [c]) next := by
  have begins := begin_begins s.closed s.place c
  rw [← stepped, done] at begins
  have stand := follows.closed
  have still (mark : c ≠ '#') : ¬InComment (before ++ [c]) := by
    simp [inComment_concat, mark, outside]
  cases begins with
  | blank mark =>
    have letter : ¬NameLetter c := fun letter =>
      letter.not_mark (List.mem_append_left ['#', '(', ')'] mark)
    exact follows.unnamed done (stand.append [c])
      (.inl ⟨rfl, still (by rintro rfl; simp at mark), letter⟩)
  | comment =>
    exact follows.unnamed done (stand.append _) (.inr ⟨rfl, by simp [inComment_concat]⟩)
  | token token mark spelled =>
    have letter : ¬NameLetter c := fun letter =>
      letter.not_mark (List.mem_append_right [' ', '\t', '\r', '\n', '#'] mark)
    have last : Stands (before ++ [c]) s.closed.reverse ⟨token, s.place⟩ :=
      ⟨before, [], by simp [spelled], follows.place, outside, follows.splits⟩
    have all := (stand.append [c]).concat last
    rw [← List.reverse_cons] at all
    exact follows.unnamed done all (.inl ⟨rfl, still (by rintro rfl; simp at mark), letter⟩)
  | name start =>
    exact follows.named done stand outside (.inl start)
      ⟨before, by simp, follows.place, outside, follows.splits⟩

theorem step (follows : Follows before s) (done : s.step c = .ok next) :
    Follows (before ++ [c]) next := by
  obtain ⟨tokens, mode, place⟩ := s
  have comment := follows.comment
  cases mode with
  | between => exact follows.begun (by simp [← comment]) rfl done
  | comment =>
    have inside := comment.mp rfl
    cases done
    refine follows.unnamed rfl (follows.tokens.append [c]) ?_
    -- Nothing but a line feed ends a comment.
    by_cases line : c = '\n'
    · subst line
      exact .inl ⟨rfl, by simp [inComment_concat], by decide⟩
    · exact .inr ⟨by simp [line], by simp [inComment_concat, line, inside]⟩
  | naming started letters =>
    have ⟨outside, _⟩ := follows.naming.mp ⟨started, letters, rfl⟩
    by_cases more : continuesName c = true
    · have stepped : Scan.step ⟨tokens, .naming started letters, place⟩ c =
          .ok ⟨tokens, .naming started (c :: letters), place.after c⟩ := by simp [Scan.step, more]
      rw [stepped] at done
      cases done
      obtain ⟨earlier, text, rest⟩ := follows.name started letters rfl
      exact follows.named stepped follows.tokens outside ((continuesName_iff c).mp more)
        ⟨earlier, by simp [text], rest⟩
    · exact follows.begun outside (by simp [Scan.step, more]) done

theorem begin_error_iff (tokens : List Placed) (outside : ¬InComment before)
    (letter : ¬(NameLetter c ∧ ∃ d ∈ before.getLast?, NameLetter d)) (e : RouteError) :
    begin tokens (.past before) c = .error e ↔ Illegal before c e := by
  have begins := begin_begins tokens (.past before) c
  generalize begin tokens (.past before) c = result at begins ⊢
  cases begins with
  | blank mark =>
    exact ⟨nofun, fun wrong => absurd (List.mem_append_left ['#', '(', ')'] mark) wrong.not_mark⟩
  | comment => exact ⟨nofun, fun wrong => absurd wrong.not_mark (by decide)⟩
  | token token mark =>
    exact ⟨nofun, fun wrong =>
      absurd (List.mem_append_right [' ', '\t', '\r', '\n', '#'] mark) wrong.not_mark⟩
  | name start =>
    refine ⟨nofun, ?_⟩
    rintro ⟨-, -, unstarted, -⟩
    exact absurd start unstarted
  | illegal mark start =>
    constructor
    · intro same
      cases same
      exact .character outside mark start letter
    · rintro ⟨⟩
      rfl

theorem step_error_iff (follows : Follows before s) (e : RouteError) :
    s.step c = .error e ↔ Illegal before c e := by
  obtain ⟨tokens, mode, place⟩ := s
  obtain rfl : place = .past before := follows.place
  have comment := follows.comment
  have naming := follows.naming
  cases mode with
  | between =>
    have outside : ¬InComment before := by simp [← comment]
    exact begin_error_iff tokens outside (fun letter => by simpa using naming.mpr ⟨outside, letter.2⟩) e
  | comment =>
    simp only [Scan.step, reduceCtorEq, false_iff]
    rintro ⟨outside, -, -, -⟩
    exact outside (comment.mp rfl)
  | naming started letters =>
    obtain ⟨outside, last⟩ := naming.mp ⟨started, letters, rfl⟩
    -- What is no letter of the name is read as if nothing stood before it.
    by_cases more : continuesName c = true
    · simp only [Scan.step, more, if_true, reduceCtorEq, false_iff]
      rintro ⟨-, -, -, letter⟩
      exact letter ⟨(continuesName_iff c).mp more, last⟩
    · simp only [Scan.step, more]
      exact begin_error_iff _ outside (fun letter => more ((continuesName_iff c).mpr letter.1)) e

theorem run {cs : List Char} {last : Scan} (follows : Follows before s)
    (done : cs.foldlM Scan.step s = .ok last) : Follows (before ++ cs) last := by
  induction cs generalizing before s with
  | nil =>
    cases done
    simpa using follows
  | cons c cs ih =>
    rw [List.foldlM_cons] at done
    cases stepped : s.step c with
    | error e => simp [stepped, bind, Except.bind] at done
    | ok next =>
      rw [stepped] at done
      simpa using ih (follows.step stepped) done

theorem run_error_iff (follows : Follows before s) (cs : List Char) (e : RouteError) :
    cs.foldlM Scan.step s = .error e ↔ FirstWrong (fun read => Illegal (before ++ read)) cs e := by
  induction cs generalizing before s with
  | nil => simp [firstWrong_nil, pure, Except.pure]
  | cons c cs ih =>
    have here := fun e => follows.step_error_iff (c := c) e
    rw [List.foldlM_cons, firstWrong_cons, List.append_nil]
    cases stepped : s.step c with
    | error fault =>
      simp only [stepped, Except.error.injEq] at here
      simp [← here, bind, Except.bind]
    | ok next =>
      simp only [stepped, reduceCtorEq, false_iff] at here
      have later := ih (follows.step stepped)
      simpa [here, bind, Except.bind] using later

end Follows

end Scan

theorem lex_stands {text : String} {lexed : Lexed} (done : lex text = .ok lexed) :
    AllStand text.toList lexed.tokens ∧ lexed.ending = .past text.toList := by
  obtain ⟨last, ran, rfl⟩ : ∃ last, text.toList.foldlM Scan.step Scan.start = .ok last ∧
      (⟨last.closed.reverse, last.place⟩ : Lexed) = lexed := by
    unfold lex at done
    cases ran : text.toList.foldlM Scan.step Scan.start with
    | error e => simp [ran, Except.map] at done
    | ok last => exact ⟨last, rfl, by simpa [ran, Except.map] using done⟩
  have follows := Scan.follows_start.run ran
  exact ⟨follows.closed, follows.place⟩

theorem lex_error_iff (text : String) (e : RouteError) :
    lex text = .error e ↔ FirstWrong Illegal text.toList e := by
  have ran := Scan.follows_start.run_error_iff text.toList e
  simp only [List.nil_append] at ran
  rw [← ran, lex]
  cases text.toList.foldlM Scan.step Scan.start <;> simp [Except.map]

def openings (tokens : List Placed) : Nat := (tokens.map Placed.token).count .opening

def closings (tokens : List Placed) : Nat := (tokens.map Placed.token).count .closing

/-- What is wrong with a token behind others, and the token that is pointed at. -/
inductive Misplaced (before : List Placed) : Placed → RouteError → Prop where
  | branchWithoutStage {place : Place} (first : ∀ last ∈ before.getLast?, last.token = .opening) :
      Misplaced before ⟨.opening, place⟩ (.branchWithoutStage place)
  | adjacentBranches {place ended : Place} (next : before.getLast? = some ⟨.closing, ended⟩) :
      Misplaced before ⟨.opening, place⟩ (.adjacentBranches place)
  | unexpectedToken {place : Place} (closed : openings before = closings before) :
      Misplaced before ⟨.closing, place⟩ (.unexpectedToken ")" place)
  | emptyBranch {place opened : Place} (next : before.getLast? = some ⟨.opening, opened⟩) :
      Misplaced before ⟨.closing, place⟩ (.emptyBranch opened)

inductive Unfinished (tokens : List Placed) (ending : Place) : RouteError → Prop where
  | unexpectedEnd (within : closings tokens < openings tokens) :
      Unfinished tokens ending (.unexpectedEnd ending)
  | emptyRoute (none : tokens = []) : Unfinished tokens ending (.emptyRoute ending)

/-- The token that was read last, as it shows in what the parser has put together. -/
def Latest (before : List Placed) (frames : List Frame) : List Element → Prop
  | [] => (before = [] ∧ frames = []) ∨
      ∃ frame outer, frames = frame :: outer ∧ before.getLast? = some ⟨.opening, frame.opened⟩
  | .stage _ :: _ => ∃ text place, before.getLast? = some ⟨.name text, place⟩
  | .branch _ :: _ => ∃ place, before.getLast? = some ⟨.closing, place⟩

structure Parsed (before : List Placed) (frames : List Frame) (current : List Element) : Prop where
  depth : openings before = closings before + frames.length
  latest : Latest before frames current

namespace Parsed

variable {before : List Placed} {frames : List Frame} {current : List Element}

theorem start : Parsed [] [] [] := ⟨rfl, .inl ⟨rfl, rfl⟩⟩

theorem name (parsed : Parsed before frames current) (text : String) (place : Place) :
    Parsed (before ++ [⟨.name text, place⟩]) frames (.stage text :: current) where
  depth := by simpa [openings, closings] using parsed.depth
  latest := ⟨text, place, by simp⟩

theorem opening (parsed : Parsed before frames current) (place : Place) :
    Parsed (before ++ [⟨.opening, place⟩]) (⟨current, place⟩ :: frames) [] where
  depth := by
    have depth := parsed.depth
    simp only [openings, closings] at depth
    simp [openings, closings, depth]
    omega
  latest := .inr ⟨_, _, rfl, by simp⟩

theorem closing {frame : Frame} (parsed : Parsed before (frame :: frames) current) (place : Place)
    (inner outer : List Element) :
    Parsed (before ++ [⟨.closing, place⟩]) frames (.branch inner :: outer) where
  depth := by
    have depth := parsed.depth
    simp only [openings, closings, List.length_cons] at depth
    simp [openings, closings, depth]
    omega
  latest := ⟨place, by simp⟩

theorem nonempty {element : Element} {rest : List Element}
    (parsed : Parsed before frames (element :: rest)) : before ≠ [] := by
  rintro rfl
  have latest := parsed.latest
  cases element <;> simp [Latest] at latest

section

variable {frame : Frame} {outer : List Frame} {rest : List Element} {place ending : Place}

theorem inside (parsed : Parsed before (frame :: outer) current) : closings before < openings before := by
  have depth := parsed.depth
  simp only [List.length_cons] at depth
  omega

theorem outside (parsed : Parsed before [] current) : openings before = closings before := parsed.depth

theorem unfinished_within (parsed : Parsed before (frame :: outer) current) (e : RouteError) :
    Unfinished before ending e ↔ e = .unexpectedEnd ending := by
  constructor
  · rintro (within | rfl)
    · rfl
    · exact absurd parsed.inside (by decide)
  · rintro rfl
    exact .unexpectedEnd parsed.inside

theorem unfinished_empty (parsed : Parsed before [] []) (e : RouteError) :
    Unfinished before ending e ↔ e = .emptyRoute ending := by
  have empty : before = [] := by simpa [Latest] using parsed.latest
  constructor
  · rintro (within | -)
    · exact absurd parsed.outside (by omega)
    · rfl
  · rintro rfl
    exact .emptyRoute empty

theorem not_unfinished {element : Element} (parsed : Parsed before [] (element :: rest))
    (e : RouteError) : ¬Unfinished before ending e := by
  rintro (within | empty)
  · exact absurd parsed.outside (by omega)
  · exact parsed.nonempty empty

theorem opening_first (parsed : Parsed before frames []) (e : RouteError) :
    Misplaced before ⟨.opening, place⟩ e ↔ e = .branchWithoutStage place := by
  have first : ∀ last ∈ before.getLast?, last.token = .opening := by
    rcases parsed.latest with ⟨rfl, -⟩ | ⟨_, _, -, last⟩
    · simp
    · simp [last]
  constructor
  · rintro (- | next)
    · rfl
    · simp [next] at first
  · rintro rfl
    exact .branchWithoutStage first

theorem opening_after_branch {inner : List Element} (parsed : Parsed before frames (.branch inner :: rest))
    (e : RouteError) : Misplaced before ⟨.opening, place⟩ e ↔ e = .adjacentBranches place := by
  obtain ⟨point, last⟩ := parsed.latest
  constructor
  · rintro (first | -)
    · simp [last] at first
    · rfl
  · rintro rfl
    exact .adjacentBranches last

theorem opening_after_stage {reference : String} (parsed : Parsed before frames (.stage reference :: rest))
    (e : RouteError) : ¬Misplaced before ⟨.opening, place⟩ e := by
  obtain ⟨text, point, last⟩ := parsed.latest
  rintro (first | next)
  · simp [last] at first
  · simp [last] at next

theorem last_not_opening {element : Element} (parsed : Parsed before frames (element :: rest))
    (opened : Place) : before.getLast? ≠ some ⟨.opening, opened⟩ := by
  intro last
  have latest := parsed.latest
  cases element with
  | stage =>
    obtain ⟨text, place, other⟩ := latest
    simp [last] at other
  | branch =>
    obtain ⟨place, other⟩ := latest
    simp [last] at other

theorem closing_outside (parsed : Parsed before [] current) (e : RouteError) :
    Misplaced before ⟨.closing, place⟩ e ↔ e = .unexpectedToken ")" place := by
  constructor
  · intro wrong
    cases wrong with
    | unexpectedToken => rfl
    | emptyBranch last =>
      -- An opening parenthesis that was read last leaves its branch open.
      cases current with
      | nil =>
        have none : before = [] := by simpa [Latest] using parsed.latest
        simp [none] at last
      | cons => exact absurd last (parsed.last_not_opening _)
  · rintro rfl
    exact .unexpectedToken parsed.outside

theorem closing_first (parsed : Parsed before (frame :: outer) []) (e : RouteError) :
    Misplaced before ⟨.closing, place⟩ e ↔ e = .emptyBranch frame.opened := by
  have last : before.getLast? = some ⟨.opening, frame.opened⟩ := by simpa [Latest] using parsed.latest
  constructor
  · intro wrong
    cases wrong with
    | unexpectedToken closed => exact absurd parsed.inside (by omega)
    | emptyBranch next =>
      rw [last] at next
      cases next
      rfl
  · rintro rfl
    exact .emptyBranch last

theorem closing_after {element : Element} (parsed : Parsed before (frame :: outer) (element :: rest))
    (e : RouteError) : ¬Misplaced before ⟨.closing, place⟩ e := by
  intro wrong
  cases wrong with
  | unexpectedToken closed => exact absurd parsed.inside (by omega)
  | emptyBranch last => exact parsed.last_not_opening _ last

end

end Parsed

theorem parse_error_iff (ending : Place) (frames : List Frame) (current : List Element)
    (placed before : List Placed) (parsed : Parsed before frames current) (e : RouteError) :
    parse ending frames current placed = .error e ↔
      Blamed (fun read => Misplaced (before ++ read)) (Unfinished (before ++ placed) ending) placed e := by
  -- Each token is wrong or not by the one before it, which shows in what the parser holds.
  fun_induction parse ending frames current placed generalizing before with
  | case1 current none =>
    obtain rfl : current = [] := by simpa using none
    rw [blamed_nil, List.append_nil, parsed.unfinished_empty, Except.error.injEq, eq_comm]
  | case2 current some =>
    rw [blamed_nil, List.append_nil]
    cases current with
    | nil => exact absurd rfl some
    | cons element rest => simp [parsed.not_unfinished]
  | case3 => rw [blamed_nil, List.append_nil, parsed.unfinished_within, Except.error.injEq, eq_comm]
  | case4 frames current text place rest ih =>
    have later := ih _ (parsed.name text place)
    rw [blamed_later (by rintro _ ⟨⟩)]
    simpa using later
  | case5 => rw [blamed_here (by simpa using parsed.opening_first), Except.error.injEq, eq_comm]
  | case6 => rw [blamed_here (by simpa using parsed.opening_after_branch), Except.error.injEq, eq_comm]
  | case7 frames place rest reference before' ih =>
    have later := ih _ (parsed.opening place)
    rw [blamed_later (by simpa using parsed.opening_after_stage)]
    simpa using later
  | case8 => rw [blamed_here (by simpa using parsed.closing_outside), Except.error.injEq, eq_comm]
  | case9 before' opened frames current place rest none =>
    obtain rfl : current = [] := by simpa using none
    rw [blamed_here (by simpa using parsed.closing_first), Except.error.injEq, eq_comm]
  | case10 before' opened frames current place rest some ih =>
    have later := ih _ (parsed.closing place current.reverse before')
    rw [blamed_later]
    · simpa using later
    · cases current with
      | nil => exact absurd rfl some
      | cons element rest => simpa using parsed.closing_after

theorem compile_error_iff (text : String) (reports : List Report) (e : RouteError) :
    ((Plan.compile text).run reports).1 = .error e ↔ FirstWrong Illegal text.toList e ∨
      ∃ lexed, lex text = .ok lexed ∧
        Blamed Misplaced (Unfinished lexed.tokens (.past text.toList)) lexed.tokens e := by
  rw [Plan.compile_run, ← lex_error_iff]
  unfold Plan.read read
  cases done : lex text with
  | error fault => simp [bind, Except.bind, Except.map]
  | ok lexed =>
    have wrong := parse_error_iff lexed.ending [] [] lexed.tokens [] .start e
    simp only [List.nil_append, (lex_stands done).2] at wrong
    simp only [reduceCtorEq, Except.ok.injEq, exists_eq_left', false_or, ← wrong]
    change Except.map _ (parse lexed.ending [] [] lexed.tokens) = _ ↔ _
    rw [(lex_stands done).2]
    cases parse (.past text.toList) [] [] lexed.tokens <;> simp [Except.map]

/-- Every place is the one of the character that it is about: a token stands where its first
character does, an illegal character where the first one does, and what the parser rejects is the
first token that is misplaced or else the end of the text. -/
theorem places_accurate (text : String) (reports : List Report) :
    (∀ lexed, lex text = .ok lexed → Splits text.toList (lexed.tokens.map Placed.token) ∧
      AllStand text.toList lexed.tokens ∧ lexed.ending = .past text.toList) ∧
    (∀ e, lex text = .error e ↔ FirstWrong Illegal text.toList e) ∧
    ∀ e, ((Plan.compile text).run reports).1 = .error e ↔ FirstWrong Illegal text.toList e ∨
      ∃ lexed, lex text = .ok lexed ∧
        Blamed Misplaced (Unfinished lexed.tokens (.past text.toList)) lexed.tokens e :=
  ⟨fun _ done => ⟨(lex_tokens_iff text _).mp ⟨_, done, rfl⟩, lex_stands done⟩,
    lex_error_iff text, compile_error_iff text reports⟩

example : read "# é\r\na (b (" = .error (.unexpectedEnd ⟨2, 7⟩) := by rfl

end Sluice.Route
