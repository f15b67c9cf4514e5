import Sluice.Config.Check
import Sluice.Proofs.Assembly.Refusals
import Sluice.Proofs.Route.Grammar

set_option autoImplicit false

namespace Sluice.Route

def BlankLines (text : List Char) : Prop :=
  ∀ line ∈ text.splitOn '\n', ∀ c ∈ line.takeWhile (· != '#'), Text.isBlank c = true

theorem isBlankRoute_iff (text : String) :
    Pipeline.isBlankRoute text = true ↔ BlankLines text.toList := by
  simp only [Pipeline.isBlankRoute, Text.pieces, Text.before, Text.isAllBlank, List.all_map,
    List.all_eq_true, Function.comp_apply, String.toList_ofList, BlankLines]

namespace BlankLines

theorem nil : BlankLines [] := by
  simp [BlankLines]

theorem newline_iff (rest : List Char) : BlankLines ('\n' :: rest) ↔ BlankLines rest := by
  simp [BlankLines, List.splitOn_cons_eq_if_modifyHead]

theorem cons_iff {c : Char} (plain : c ≠ '\n' ∧ c ≠ '#') (rest : List Char) :
    BlankLines (c :: rest) ↔ Text.isBlank c = true ∧ BlankLines rest := by
  -- A letter stands on the same line as what follows it.
  obtain ⟨line, lines, split⟩ := List.exists_cons_of_ne_nil (List.splitOn_ne_nil '\n' rest)
  simp [BlankLines, List.splitOn_cons_eq_if_modifyHead, plain, split, and_assoc]

theorem comment_iff {body rest : List Char} (line : '\n' ∉ body)
    (ended : ∀ c ∈ rest.head?, c = '\n') : BlankLines ('#' :: (body ++ rest)) ↔ BlankLines rest := by
  have apart : '\n' ∉ '#' :: body := by simp [line]
  cases rest with
  | nil =>
    have whole : ('#' :: body).splitOn '\n' = ['#' :: body] := List.splitOn_eq_singleton apart
    simp [BlankLines, whole]
  | cons c rest =>
    obtain rfl := ended c rfl
    have whole := List.splitOn_append_cons_self_of_not_mem apart rest
    rw [List.cons_append] at whole
    rw [newline_iff]
    simp [BlankLines, whole]

end BlankLines

theorem isBlank_of_separator {c : Char} (separator : c ∈ [' ', '\t', '\r', '\n']) :
    Text.isBlank c = true := by
  simp only [List.mem_cons, List.not_mem_nil, or_false] at separator
  rcases separator with rfl | rfl | rfl | rfl <;> rfl

theorem NameStart.not_blank {c : Char} (start : NameStart c) : Text.isBlank c = false := by
  have range : 65 ≤ c.toNat ∧ c.toNat ≤ 122 := by
    rcases start with ⟨low, high⟩ | ⟨low, high⟩ | rfl
    · exact ⟨low, le_trans (b := 90) high (by decide)⟩
    · exact ⟨le_trans (b := 97) (by decide) low, high⟩
    · decide
  simp only [Text.isBlank, Bool.or_eq_false_iff, Bool.and_eq_false_iff, decide_eq_false_iff_not,
    beq_eq_false_iff_ne]
  omega

/-- The two ways to look for something in a text agree: no token is found just when every line is
blank up to its comment. -/
theorem Splits.blank_iff_nil {text : List Char} {tokens : List Token} (splits : Splits text tokens) :
    BlankLines text ↔ tokens = [] := by
  induction splits with
  | nil => exact iff_of_true .nil rfl
  | @blank c rest tokens separator after ih =>
    by_cases line : c = '\n'
    · rw [line, BlankLines.newline_iff, ih]
    · have plain : c ≠ '#' := by
        rintro rfl
        exact absurd separator (by decide)
      rw [BlankLines.cons_iff ⟨line, plain⟩, ih, and_iff_right (isBlank_of_separator separator)]
  | comment line ended after ih => rw [BlankLines.comment_iff line ended, ih]
  | opening after ih =>
    rw [BlankLines.cons_iff (by decide)]
    exact iff_of_false (fun both => absurd both.1 (by decide)) nofun
  | closing after ih =>
    rw [BlankLines.cons_iff (by decide)]
    exact iff_of_false (fun both => absurd both.1 (by decide)) nofun
  | name start inside longest after ih =>
    obtain ⟨blank, comment, -, -⟩ := start.not_mark
    rw [BlankLines.cons_iff ⟨fun line => blank (by simp [line]), comment⟩, start.not_blank]
    exact iff_of_false (fun both => absurd both.1 (by decide)) nofun

theorem step_error {s : Scan} {c : Char} {e : RouteError} (failed : s.step c = .error e) :
    ∃ letter place, e = .illegalCharacter letter place := by
  have begun {tokens : List Placed} {place : Place} (failed : Scan.begin tokens place c = .error e) :
      e = .illegalCharacter c place := by
    unfold Scan.begin at failed
    repeat' split at failed
    all_goals cases failed
    rfl
  unfold Scan.step at failed
  split at failed
  next => exact ⟨c, _, begun failed⟩
  next => cases failed
  next =>
    split at failed
    · cases failed
    · exact ⟨c, _, begun failed⟩

theorem lex_error {text : String} {e : RouteError} (failed : lex text = .error e) :
    ∃ letter place, e = .illegalCharacter letter place := by
  unfold lex at failed
  cases scanned : text.toList.foldlM Scan.step Scan.start with
  | ok s =>
    rw [scanned] at failed
    cases failed
  | error problem =>
    rw [scanned] at failed
    cases failed
    obtain ⟨c, -, s, failed⟩ := Binding.foldlM_error scanned
    exact step_error failed

theorem parse_emptyRoute {ending place : Place} {frames : List Frame} {current : List Element}
    {placed : List Placed} (failed : parse ending frames current placed = .error (.emptyRoute place)) :
    frames = [] ∧ current = [] ∧ placed = [] := by
  -- A stage or a parenthesis that is read stays in the frames or in what is current.
  fun_induction parse ending frames current placed with
  | case1 current empty => exact ⟨rfl, List.isEmpty_iff.mp empty, rfl⟩
  | case4 _ _ _ _ _ ih => cases (ih failed).2.1
  | case7 _ _ _ _ _ ih => cases (ih failed).1
  | case10 _ _ _ _ _ _ _ ih => cases (ih failed).2.1
  | _ => cases failed

theorem lex_splits {text : String} {lexed : Lexed} (read : lex text = .ok lexed) :
    Splits text.toList (lexed.tokens.map Placed.token) :=
  (lex_tokens_iff text _).mp ⟨lexed, read, rfl⟩

theorem read_blank {text : String} (blank : Pipeline.isBlankRoute text = true) :
    ∃ e, read text = .error e := by
  unfold read
  cases found : lex text with
  -- There are more blanks than those that may stand in a route.
  | error e => exact ⟨e, rfl⟩
  | ok lexed =>
    have nothing := (lex_splits found).blank_iff_nil.mp ((isBlankRoute_iff text).mp blank)
    rw [List.map_eq_nil_iff] at nothing
    refine ⟨.emptyRoute lexed.ending, ?_⟩
    change parse lexed.ending [] [] lexed.tokens = _
    rw [nothing]
    rfl

theorem blank_of_emptyRoute {text : String} {place : Place}
    (failed : read text = .error (.emptyRoute place)) : Pipeline.isBlankRoute text = true := by
  unfold read at failed
  rw [isBlankRoute_iff]
  cases found : lex text with
  | error e =>
    rw [found] at failed
    cases failed
    obtain ⟨_, _, other⟩ := lex_error found
    cases other
  | ok lexed =>
    rw [found] at failed
    have nothing := (parse_emptyRoute failed).2.2
    exact (lex_splits found).blank_iff_nil.mpr (by rw [nothing]; rfl)

theorem Plan.read_error_iff (text : String) (e : RouteError) :
    Plan.read text = .error e ↔ Route.read text = .error e := by
  unfold Plan.read
  cases Route.read text <;> simp [Except.map]

theorem Plan.read_blank {text : String} (blank : Pipeline.isBlankRoute text = true) :
    ∃ e, Plan.read text = .error e := by
  simpa only [Plan.read_error_iff] using Route.read_blank blank

theorem Plan.blank_of_emptyRoute {text : String} {place : Place}
    (failed : Plan.read text = .error (.emptyRoute place)) : Pipeline.isBlankRoute text = true :=
  Route.blank_of_emptyRoute ((Plan.read_error_iff text _).mp failed)

end Sluice.Route

namespace Sluice

namespace Pipeline

variable {p : Pipeline}

theorem emptyRoute_apart (name : String) :
    s!"pipeline '{name}' has an empty route" ≠ "main.type must not be empty" ∧
      s!"pipeline '{name}' has an empty route" ≠ s!"pipeline '{name}' needs a description" := by
  constructor <;> intro same
  · have first := congrArg (fun text => text.toList.take 1) same
    simp only [String.toList_append, List.append_assoc] at first
    exact absurd first (by simp [toString])
  · have size := congrArg String.length same
    simp only [String.length_append, Nat.add_left_cancel_iff] at size
    exact absurd size (by decide)

theorem emptyRoute_mem_problems_iff :
    .invalidConfig s!"pipeline '{p.typeName}' has an empty route" ∈ p.problems ↔
      isBlankRoute p.route = true := by
  have ⟨typeApart, descriptionApart⟩ := emptyRoute_apart p.typeName
  have unnamed : ConfigError.invalidConfig s!"pipeline '{p.typeName}' has an empty route" ∉
      p.typeProblem := by
    unfold typeProblem
    split
    · simpa only [List.mem_singleton, ConfigError.invalidConfig.injEq] using typeApart
    · split <;> simp
  have described : ConfigError.invalidConfig s!"pipeline '{p.typeName}' has an empty route" ∉
      p.descriptionProblem := by
    unfold descriptionProblem
    split
    · simpa only [List.mem_singleton, ConfigError.invalidConfig.injEq] using descriptionApart
    · exact List.not_mem_nil
  have sections : ConfigError.invalidConfig s!"pipeline '{p.typeName}' has an empty route" ∉
      p.sectionProblems := by
    simp [sectionProblems]
  simp only [problems, List.mem_append, unnamed, described, sections, false_or, or_false, routeProblem]
  split
  next blank => exact iff_of_true (List.mem_singleton_self _) blank
  next other => exact iff_of_false (List.not_mem_nil) other

theorem not_blank_of_check (sound : p.check = .ok ()) : isBlankRoute p.route = false := by
  unfold check at sound
  split at sound
  next none =>
    have absent := mt emptyRoute_mem_problems_iff.mpr (by rw [none]; exact List.not_mem_nil)
    simpa using absent
  next => cases sound

end Pipeline

variable {σ : Type} {r : Registry σ}

theorem Registry.Nests.registered {p q : Pipeline} (nests : r.Nests p q) :
    q = p ∨ ∃ typeName, r.graphs.at? typeName = some q := by
  induction nests with
  | refl p => exact .inl rfl
  | inner read named plain other found _ ih =>
    rcases ih with rfl | registered
    · exact .inr ⟨_, (Outline.firstRegistered_some found).2⟩
    · exact .inr registered

namespace Blueprint

variable [Stage σ]

/-- If a route is found to be empty where the pipeline itself is sound, it is that of another one,
which would not have been registered, unless a stage says so of its own accord. -/
theorem emptyRoute_elsewhere {b : Blueprint σ} (sound : b.pipeline.check = .ok ())
    {place : Route.Place} (failed : b.build.1 = .error (.config (.route (.emptyRoute place)))) :
    (∃ typeName graph, b.registry.graphs.at? typeName = some graph ∧
      b.registry.Nests b.pipeline graph ∧
      Route.Plan.read graph.route = .error (.emptyRoute place) ∧ graph.check ≠ .ok ()) ∨
    Stage.Refuses σ (.route (.emptyRoute place)) := by
  refine (build_blames failed).imp_left fun fails => ?_
  rcases fails.cause (Nat.zero_le _) with ails | ⟨_, _, -, -, -, same⟩
  · cases ails with
    | @route q _ nests read =>
      have blank := Route.Plan.blank_of_emptyRoute read
      have unsound : q.check ≠ .ok () := fun passed =>
        Bool.false_ne_true ((Pipeline.not_blank_of_check passed).symm.trans blank)
      rcases nests.registered with rfl | ⟨typeName, registered⟩
      · exact absurd sound unsound
      · exact ⟨typeName, q, registered, nests, read, unsound⟩
  · cases same

/-- A route that is found to be blank is never compiled, and any other is never found to be empty. So
it is not for its own route that a pipeline which passes the check turns out to be empty when it is
built, and one that is said to have an empty route is never built. -/
theorem blank_routes_refused :
    (∀ text reports, Pipeline.isBlankRoute text = true →
      ∃ e, ((Route.Plan.compile text).run reports).1 = .error e) ∧
    (∀ text reports place, Pipeline.isBlankRoute text = false →
      ((Route.Plan.compile text).run reports).1 ≠ .error (.emptyRoute place)) ∧
    (∀ b : Blueprint σ, b.pipeline.check = .ok () → ∀ place,
      Route.Plan.read b.pipeline.route ≠ .error (.emptyRoute place) ∧
      (b.build.1 = .error (.config (.route (.emptyRoute place))) →
        (∃ typeName graph, b.registry.graphs.at? typeName = some graph ∧
          b.registry.Nests b.pipeline graph ∧
          Route.Plan.read graph.route = .error (.emptyRoute place) ∧ graph.check ≠ .ok ()) ∨
        Stage.Refuses σ (.route (.emptyRoute place)))) ∧
    (∀ b : Blueprint Stock, b.pipeline.check = .ok () →
      (∀ typeName graph, b.registry.graphs.at? typeName = some graph → graph.check = .ok ()) →
      ∀ place, b.build.1 ≠ .error (.config (.route (.emptyRoute place)))) ∧
    ∀ b : Blueprint σ,
      .invalidConfig s!"pipeline '{b.pipeline.typeName}' has an empty route" ∈ b.pipeline.problems →
      ∃ e, Route.Plan.read b.pipeline.route = .error e ∧ b.build.1 = .error (.config (.route e)) := by
  have unblank (text : String) (place : Route.Place) (other : Pipeline.isBlankRoute text = false) :
      Route.Plan.read text ≠ .error (.emptyRoute place) := fun failed =>
    Bool.false_ne_true (other.symm.trans (Route.Plan.blank_of_emptyRoute failed))
  refine ⟨fun text reports blank => ?_, fun text reports place other => ?_,
    fun b sound place => ⟨unblank _ _ (Pipeline.not_blank_of_check sound), emptyRoute_elsewhere sound⟩,
    fun b sound registered place failed => ?_, fun b problem => ?_⟩
  · rw [Route.Plan.compile_run]
    exact Route.Plan.read_blank blank
  · rw [Route.Plan.compile_run]
    exact unblank text place other
  · rcases emptyRoute_elsewhere sound failed with ⟨typeName, graph, known, -, -, unsound⟩ | refuses
    · exact unsound (registered typeName graph known)
    · exact Stock.not_refuses _ refuses
  · obtain ⟨e, read⟩ := Route.Plan.read_blank (Pipeline.emptyRoute_mem_problems_iff.mp problem)
    refine ⟨e, read, build_undeclared ((Outline.declare_error_iff _ _ _).mpr ?_)⟩
    exact ⟨_, rfl, .route (Nat.zero_le _) read⟩

def enclosing (route inner : String) : Blueprint Stock where
  pipeline := ⟨"outer", "The whole", [], false, route, []⟩
  registry := { Stock.registry with graphs := [("inner", ⟨"inner", "A part", [], false, inner, []⟩)] }
  params := []
  environment := .empty

theorem blank_routes_refused_enclosing :
    (∃ e, ((Route.Plan.compile " # nothing\r\n").run []).1 = .error e) ∧
    (∀ place, ((Route.Plan.compile "sink").run []).1 ≠ .error (.emptyRoute place)) ∧
    (∃ place, (enclosing "inner" "#").build.1 = .error (.config (.route (.emptyRoute place))) ∧
      ((∃ typeName graph, (enclosing "inner" "#").registry.graphs.at? typeName = some graph ∧
          (enclosing "inner" "#").registry.Nests (enclosing "inner" "#").pipeline graph ∧
          Route.Plan.read graph.route = .error (.emptyRoute place) ∧ graph.check ≠ .ok ()) ∨
        Stage.Refuses Stock (.route (.emptyRoute place)))) ∧
    (∀ place, (enclosing "inner" "sink").build.1 ≠
      .error (.config (.route (.emptyRoute place)))) ∧
    ∃ e, (enclosing "#" "sink").build.1 = .error (.config (.route e)) := by
  obtain ⟨refused, found, elsewhere, sound, unbuilt⟩ := @blank_routes_refused Stock _
  refine ⟨refused _ [] (by decide +kernel), fun place => found _ [] place (by decide +kernel), ?_,
    sound _ (by rfl) fun typeName graph known => ?_, ?_⟩
  · have built : (match (enclosing "inner" "#").build.1 with
        | .error (.config (.route (.emptyRoute _))) => true
        | _ => false) = true := by
      decide +kernel
    split at built
    next place failed => exact ⟨place, failed, (elsewhere _ (by rfl) place).2 failed⟩
    next => cases built
  · have same := List.mem_singleton.mp (Dict.mem_of_at? known)
    cases same
    rfl
  · obtain ⟨e, -, failed⟩ := unbuilt (enclosing "#" "sink")
      (Pipeline.emptyRoute_mem_problems_iff.mpr (by decide +kernel))
    exact ⟨e, failed⟩

end Blueprint

end Sluice
