import Sluice.Proofs.Assembly.Outlines
import Sluice.Proofs.Assembly.Trials

set_option autoImplicit false

namespace Sluice

variable {σ α β : Type}

namespace Literal

def Shortens (shorter name : String) : Prop := shorter.toList <+: name.toList ∧ shorter ≠ name

theorem joined_leads (segments : List String) (n : Nat) :
    ("_".intercalate (segments.take n)).toList <+:
      ("_".intercalate (segments.take (n + 1))).toList := by
  induction segments generalizing n with
  | nil => simp
  | cons segment rest ih =>
    cases n with
    | zero => simp
    | succ n =>
      cases rest with
      | nil => simp
      | cons next rest =>
        have later := ih n
        cases n with
        | zero => simp
        | succ n =>
          simp only [List.take_succ_cons, String.intercalate_cons_cons, String.toList_append]
            at later ⊢
          exact (List.prefix_append_right_inj _).mpr later

theorem addShorter_shortens (segments : List String) (n : Nat) {found : List String}
    (begins : ∀ name ∈ found, ("_".intercalate (segments.take n)).toList <+: name.toList)
    (ordered : found.Pairwise fun name shorter => Shortens shorter name) :
    found <+: addShorter segments n found ∧
      (addShorter segments n found).Pairwise fun name shorter => Shortens shorter name := by
  -- By induction on the number of segments left: each shorter name begins all those found so far.
  induction n generalizing found with
  | zero => exact ⟨List.prefix_rfl, ordered⟩
  | succ n ih =>
    have before {name : String} (begin : ("_".intercalate (segments.take (n + 1))).toList <+:
        name.toList) : ("_".intercalate (segments.take n)).toList <+: name.toList :=
      (joined_leads segments n).trans begin
    simp only [addShorter]
    split
    next => exact ih (fun name listed => before (begins name listed)) ordered
    next fresh =>
      have absent : "_".intercalate (segments.take (n + 1)) ∉ found := fun listed =>
        fresh (by simp [listed])
      have later : ∀ name ∈ found ++ ["_".intercalate (segments.take (n + 1))],
          ("_".intercalate (segments.take n)).toList <+: name.toList := by
        intro name listed
        rcases List.mem_append.mp listed with listed | last
        · exact before (begins name listed)
        · exact List.mem_singleton.mp last ▸ joined_leads segments n
      have apart : ∀ name ∈ found, ∀ shorter ∈ ["_".intercalate (segments.take (n + 1))],
          Shortens shorter name := by
        intro name listed last here
        rw [List.mem_singleton.mp here]
        exact ⟨begins name listed, fun same => absent (same ▸ listed)⟩
      have ⟨grown, ordered⟩ := ih later <|
        List.pairwise_append.mpr ⟨ordered, List.pairwise_singleton .., apart⟩
      exact ⟨(List.prefix_append _ _).trans grown, ordered⟩

theorem dropLast_leads (drops : Char → Bool) (text : List Char) : dropLast drops text <+: text := by
  rw [← List.reverse_suffix, dropLast, List.reverse_reverse]
  exact List.dropWhile_suffix drops

theorem candidates_shorten (name : String) :
    (∃ shorter, candidates name = name :: shorter) ∧
      (candidates name).Pairwise fun longer shorter => Shortens shorter longer := by
  unfold candidates
  dsimp only
  generalize stripped : dropLast (· == '_') (dropLast Char.isDigit name.toList) = text
  have start : text <+: name.toList :=
    stripped ▸ (dropLast_leads _ _).trans (dropLast_leads _ _)
  split
  · exact ⟨⟨[], rfl⟩, List.pairwise_singleton ..⟩
  · have whole : ("_".intercalate ((Text.pieces '_' (String.ofList text)).take
        (Text.pieces '_' (String.ofList text)).length)).toList = text := by
      rw [List.take_length, String.toList_intercalate, Text.pieces, List.map_map]
      simp [Function.comp_def]
    have begins : ∀ other ∈ [name], ("_".intercalate ((Text.pieces '_' (String.ofList text)).take
        (Text.pieces '_' (String.ofList text)).length)).toList <+: other.toList := by
      intro other listed
      rw [whole, List.mem_singleton.mp listed]
      exact start
    have ⟨⟨shorter, grown⟩, ordered⟩ := addShorter_shortens (Text.pieces '_' (String.ofList text))
      (Text.pieces '_' (String.ofList text)).length begins (List.pairwise_singleton ..)
    exact ⟨⟨shorter, grown.symm⟩, ordered⟩

end Literal

namespace Building

def Blames (b : Building σ α) (bad : EngineError → Prop) : Prop :=
  ∀ history, Uncalled history → ∀ e, (StateT.run (ExceptT.run b) history).1 = .error e → bad e

namespace Blames

theorem pure (bad : EngineError → Prop) (x : α) : Blames (pure x : Building σ α) bad := nofun

theorem throw {bad : EngineError → Prop} {e : EngineError} (blamed : bad e) :
    Blames (throw e : Building σ α) bad := by
  rintro history uncalled _ ⟨⟩
  exact blamed

theorem ofReporting {r : Reporting (Except ConfigError α)} {bad : EngineError → Prop}
    (blamed : ∀ e, (StateT.run r []).1 = .error e → bad (.config e)) :
    Blames (ofReporting r : Building σ α) bad := by
  intro history uncalled e failed
  change (StateT.run r []).1.mapError .config = .error e at failed
  cases result : (StateT.run r []).1 with
  | ok x => rw [result] at failed; cases failed
  | error problem =>
    rw [result] at failed
    cases failed
    exact blamed problem result

theorem bind {b : Building σ α} {next : α → Building σ β} {good : α → Prop}
    {bad : EngineError → Prop} (yields : b.Yields good) (first : b.Blames bad)
    (after : ∀ x, good x → (next x).Blames bad) : (b >>= next).Blames bad := by
  intro history uncalled e failed
  have ⟨quiet, built⟩ := yields history uncalled
  rw [ExceptT.run_bind, StateT.run_bind] at failed
  have blamed := first history uncalled
  rcases ran : StateT.run (ExceptT.run b) history with ⟨result, later⟩
  rw [ran] at quiet built failed blamed
  cases result with
  | error e' =>
    cases failed
    exact blamed e rfl
  | ok x => exact after x (built x rfl) later quiet e failed

end Blames

end Building

def Registry.knows (r : Registry σ) (typeName : String) : Bool :=
  r.stages.has typeName || r.graphs.has typeName

/-- A part is what has been registered under a type name, a stage type before a pipeline. -/
inductive Part.Means (r : Registry σ) (typeName : String) : Part σ → Prop
  | stage {member : Member} {type : Descriptor σ} (named : member.typeName = typeName)
      (found : r.stages.at? typeName = some type) : Means r typeName (.stage member type)
  | subGraph {member : Member} {inner : Outline σ} (named : member.typeName = typeName)
      (other : r.stages.has typeName = false)
      (found : r.graphs.at? typeName = some inner.pipeline) :
      Means r typeName (.subGraph member inner)

/-- A part is what has been registered under the first of its type names that is registered at all,
unless that is a pipeline and a shorter name is that of a stage type. -/
def Part.Resolves (r : Registry σ) (names : List String) (part : Part σ) : Prop :=
  ∃ typeName, names.find? r.knows = some typeName ∧
    ((r.stages.has typeName = true ∨ ∀ other ∈ names, r.stages.has other = false) →
      part.Means r typeName) ∧
    ∀ other, names.find? r.stages.has = some other → other ≠ typeName →
      r.stages.has typeName = false ∧ Literal.Shortens other typeName ∧ part.Means r other

/-- A pipeline is reached from another one by the names that stand for sub-graphs. -/
inductive Registry.Nests (r : Registry σ) : Pipeline → Pipeline → Prop
  | refl (p : Pipeline) : Nests r p p
  | inner {p q graph : Pipeline} {plan : Route.Plan} {name typeName : String}
      (read : Route.Plan.read p.route = .ok plan) (named : name ∈ Outline.memberNames p plan)
      (plain : name ∉ plan.fanOuts)
      (other : Outline.firstRegistered r.stages (Outline.typeNames p name) = none)
      (found : Outline.firstRegistered r.graphs (Outline.typeNames p name) = some (typeName, graph))
      (nests : Nests r graph q) : Nests r p q

structure Registry.Lacks (r : Registry σ) (p : Pipeline) (name typeName : String) : Prop where
  member : ∃ plan, Route.Plan.read p.route = .ok plan ∧ name ∈ Outline.memberNames p plan ∧
    name ∉ plan.fanOuts
  tried : typeName ∈ Outline.typeNames p name
  unknown : ∀ other ∈ Outline.typeNames p name, r.knows other = false

namespace Outline

variable {r : Registry σ}

theorem firstRegistered_fst (entries : Dict α) (names : List String) :
    (firstRegistered entries names).map Prod.fst = names.find? entries.has := by
  induction names with
  | nil => rfl
  | cons name rest ih =>
    rw [firstRegistered, List.findSome?_cons, List.find?_cons, Dict.has]
    cases entries.at? name with
    | none => exact ih
    | some found => rfl

theorem firstRegistered_some {entries : Dict α} {names : List String} {name : String} {found : α}
    (first : firstRegistered entries names = some (name, found)) :
    names.find? entries.has = some name ∧ entries.at? name = some found := by
  refine ⟨by rw [← firstRegistered_fst, first]; rfl, ?_⟩
  obtain ⟨other, -, same⟩ := List.exists_of_findSome?_eq_some first
  obtain ⟨value, at', same⟩ := Option.map_eq_some_iff.mp same
  cases same
  exact at'

theorem firstRegistered_none {entries : Dict α} {names : List String}
    (none' : firstRegistered entries names = none) : ∀ name ∈ names, entries.has name = false := by
  have missed := firstRegistered_fst entries names
  rw [none'] at missed
  simpa using List.find?_eq_none.mp missed.symm

theorem part_lacks {inner : Pipeline → Building σ (Outline σ)} {p : Pipeline} {plan : Route.Plan}
    {name : String} {bad : EngineError → Prop}
    (allTyped : ∀ q, (inner q).Yields fun o => o.pipeline = q ∧ o.AllTyped r)
    (nested : ∀ graph typeName, name ∉ plan.fanOuts →
      firstRegistered r.stages (typeNames p name) = none →
      firstRegistered r.graphs (typeNames p name) = some (typeName, graph) →
      (inner graph).Blames bad)
    (unknown : ∀ typeName, name ∉ plan.fanOuts → typeName ∈ typeNames p name →
      (∀ other ∈ typeNames p name, r.knows other = false) →
      bad (.config (.unknownType name typeName))) :
    (part r inner p plan name).Blames bad := by
  rcases part_cases r inner p plan name with ⟨-, settled⟩ | ⟨plain, ⟨_, _, -, settled⟩ |
    ⟨other, ⟨typeName, graph, found, settled⟩ | ⟨missing, settled⟩⟩⟩ <;> rw [settled]
  · exact .pure _ _
  · exact .pure _ _
  · exact .bind (allTyped graph) (nested graph typeName plain other found) fun _ _ => .pure _ _
  · refine .throw (unknown _ plain ?_ fun typeName tried => ?_)
    · rw [typeNames]
      cases (p.sections.at? name).bind Section.typeName? with
      | none =>
        obtain ⟨shorter, start⟩ := (Literal.candidates_shorten name).1
        simp [start]
      | some given => simp
    · rw [Registry.knows, firstRegistered_none other typeName tried,
        firstRegistered_none missing typeName tried]
      rfl

theorem parts_lacks {inner : Pipeline → Building σ (Outline σ)} {p : Pipeline} {plan : Route.Plan}
    {bad : EngineError → Prop}
    (allTyped : ∀ q, (inner q).Yields fun o => o.pipeline = q ∧ o.AllTyped r) (names : List String)
    (each : ∀ name ∈ names, (part r inner p plan name).Blames bad) :
    (parts? r inner p plan names).Blames bad := by
  induction names with
  | nil => exact .pure _ _
  | cons name rest ih =>
    refine .bind (part_allTyped allTyped p plan name) (each name List.mem_cons_self) fun _ _ => ?_
    exact .bind (parts_allTyped allTyped p plan rest)
      (ih fun other listed => each other (List.mem_cons_of_mem _ listed)) fun _ _ => .pure _ _

theorem declareWithin_lacks (r : Registry σ) (depth : Nat) (p : Pipeline) :
    (declareWithin r depth p).Blames fun e => ∀ name typeName,
      e = .config (.unknownType name typeName) → ∃ q, r.Nests p q ∧ r.Lacks q name typeName := by
  induction depth generalizing p with
  | zero => exact .throw nofun
  | succ depth ih =>
    refine .bind (compile_yields p) (.ofReporting fun e failed => ?_) fun plan read =>
      .bind (parts_allTyped (declareWithin_allTyped r depth) p plan _) ?_ fun _ _ => .pure _ _
    -- A route that cannot be read is another error than an unknown type.
    · rintro name typeName ⟨⟩
      change (StateT.run (Route.Plan.compile p.route) []).1.mapError ConfigError.route = _ at failed
      cases result : (StateT.run (Route.Plan.compile p.route) []).1 <;>
        rw [result] at failed <;> cases failed
    · refine parts_lacks (declareWithin_allTyped r depth) _ fun name named => ?_
      refine part_lacks (declareWithin_allTyped r depth)
        (fun graph typeName plain other found => ?_) fun typeName plain tried unknown => ?_
      · intro history uncalled e failed name typeName same
        obtain ⟨q, nests, lacks⟩ := ih graph history uncalled e failed name typeName same
        exact ⟨q, .inner read named plain other found nests, lacks⟩
      · rintro _ _ ⟨⟩
        exact ⟨p, .refl p, ⟨plan, read, named, plain⟩, tried, unknown⟩

theorem find?_stages {names : List String} {typeName : String}
    (first : names.find? r.knows = some typeName) (stage : r.stages.has typeName = true) :
    names.find? r.stages.has = some typeName := by
  obtain ⟨-, before, after, rfl, unknown⟩ := List.find?_eq_some_iff_append.mp first
  refine List.find?_eq_some_iff_append.mpr ⟨stage, before, after, rfl, fun name listed => ?_⟩
  have unknown := unknown name listed
  rw [Registry.knows, Bool.not_or, Bool.and_eq_true] at unknown
  exact unknown.1

theorem find?_overtakes {name typeName other : String}
    (first : (Literal.candidates name).find? r.knows = some typeName)
    (stage : (Literal.candidates name).find? r.stages.has = some other) (ne : other ≠ typeName) :
    r.stages.has typeName = false ∧ Literal.Shortens other typeName := by
  constructor
  · refine Bool.eq_false_iff.mpr fun has => ne ?_
    exact Option.some.inj (stage.symm.trans (find?_stages first has))
  · obtain ⟨-, before, after, whole, unknown⟩ := List.find?_eq_some_iff_append.mp first
    have listed := List.mem_of_find?_eq_some stage
    have has : r.stages.has other = true := List.find?_some stage
    have ordered := (Literal.candidates_shorten name).2
    rw [whole] at listed ordered
    rcases List.mem_append.mp listed with earlier | later
    · have unknown := unknown other earlier
      rw [Registry.knows, has] at unknown
      cases unknown
    · rcases List.mem_cons.mp later with same | later
      · exact absurd same ne
      · exact (List.pairwise_cons.mp (List.pairwise_append.mp ordered).2.1).1 other later

theorem resolves {p : Pipeline} {plan : Route.Plan} {name : String} {part : Part σ}
    (of : Part.Of r p plan name part) (plain : name ∉ plan.fanOuts)
    (untyped : (p.sections.at? name).bind Section.typeName? = none) :
    part.Resolves r (Literal.candidates name) := by
  have names : typeNames p name = Literal.candidates name := by rw [typeNames, untyped]; rfl
  cases of with
  | fanOut forks => exact absurd forks plain
  | @stage own type _ found =>
    rw [names] at found
    obtain ⟨stage, at'⟩ := firstRegistered_some found
    have has : r.stages.has own = true := List.find?_some stage
    have means : Part.Means r own (.stage (member p plan name own) type) := .stage rfl at'
    have known : r.knows own = true := by rw [Registry.knows, has, Bool.true_or]
    obtain ⟨typeName, first⟩ := Option.isSome_iff_exists.mp (List.find?_isSome.mpr
      ⟨own, List.mem_of_find?_eq_some stage, known⟩)
    -- The first type name that is known at all may be that of a pipeline only; then the stage type
    -- is overtaken.
    refine ⟨typeName, first, ?_, fun other stage' ne => ?_⟩
    · rintro (also | missing)
      · obtain rfl := Option.some.inj (stage.symm.trans (find?_stages first also))
        exact means
      · rw [missing own (List.mem_of_find?_eq_some stage)] at has
        cases has
    · obtain rfl := Option.some.inj (stage.symm.trans stage')
      have ⟨graph, shorter⟩ := find?_overtakes first stage ne
      exact ⟨graph, shorter, means⟩
  | @subGraph own inner _ other found =>
    rw [names] at other found
    have missing := firstRegistered_none other
    obtain ⟨graph, at'⟩ := firstRegistered_some found
    obtain ⟨has, before, after, whole, unknown⟩ := List.find?_eq_some_iff_append.mp graph
    have listed := List.mem_of_find?_eq_some graph
    have known : r.knows own = true := by rw [Registry.knows, has, Bool.or_true]
    refine ⟨own, ?_, fun _ => .subGraph rfl (missing own listed) at', fun other stage => ?_⟩
    -- No name tried before is known, neither as a stage type nor as a pipeline.
    · refine List.find?_eq_some_iff_append.mpr
        ⟨known, before, after, whole, fun name inside => ?_⟩
      have absent := missing name (whole ▸ List.mem_append_left _ inside)
      rw [Registry.knows, absent, Bool.false_or]
      exact unknown name inside
    · have has : r.stages.has other = true := List.find?_some stage
      rw [missing other (List.mem_of_find?_eq_some stage)] at has
      cases has

/-- A member without a type of its own is what has been registered under the first of its type names
that is registered, except that the first stage type among them comes before every pipeline; and a
type is unknown only if none of its names has been registered. -/
theorem first_stage_type_resolves (r : Registry σ) (p : Pipeline) :
    (∀ o, (declare r p).run.1 = .ok o → ∀ sub : Outline σ, sub.Within o → ∀ part ∈ sub.parts,
      part.member.name ∉ sub.plan.fanOuts →
      (sub.pipeline.sections.at? part.member.name).bind Section.typeName? = none →
      part.Resolves r (Literal.candidates part.member.name)) ∧
    ∀ name typeName, (declare r p).run.1 = .error (.config (.unknownType name typeName)) →
      ∃ q, r.Nests p q ∧ r.Lacks q name typeName := by
  refine ⟨fun o declared sub within part listed plain untyped => ?_, fun name typeName failed => ?_⟩
  · have typed := (declare_allTyped declared).2 sub within
    exact resolves (typed.parts part listed) plain untyped
  · exact declareWithin_lacks r (maxNesting + 1) p [] .nil _ failed name typeName rfl

def overlapping : Registry Stock :=
  { Stock.registry with
    graphs := [("wrap_2", ⟨"wrap_2", "turns texts around", [], false, "reverse_string", []⟩)] }

/-- A pipeline is passed over for the stage type that a shorter name stands for, and a name that
nothing is registered for is not found. -/
theorem overlapping_resolves :
    (∃ part : Part Stock, part.member.name = "wrap_2" ∧ overlapping.graphs.has "wrap_2" = true ∧
      (Literal.candidates "wrap_2").find? overlapping.knows = some "wrap_2" ∧
      part.Means overlapping "wrap") ∧
    ∃ q, overlapping.Nests ⟨"line", "", [], false, "wrap_2 other_2", []⟩ q ∧
      overlapping.Lacks q "other_2" "other_2" := by
  constructor
  · let line : Pipeline := ⟨"line", "", [], false, "wrap_2 sink", []⟩
    have declares : (declare overlapping line).run.1.toOption.any (fun o =>
        o.plan.fanOuts.isEmpty && o.parts.any fun part => part.member.name == "wrap_2") = true := by
      decide +kernel
    obtain ⟨o, declared, checks⟩ := except_of_any declares
    obtain ⟨plain, named⟩ := (Bool.and_eq_true _ _).mp checks
    obtain ⟨part, listed, named⟩ := List.any_eq_true.mp named
    have named : part.member.name = "wrap_2" := beq_iff_eq.mp named
    have pipeline := (declare_allTyped declared).1
    obtain ⟨typeName, first, -, overtaken⟩ := (first_stage_type_resolves overlapping line).1 o
      declared o (.refl o) part listed (by rw [List.isEmpty_iff.mp plain]; exact List.not_mem_nil)
      (by rw [pipeline]; rfl)
    rw [named] at first overtaken
    have same : (Literal.candidates "wrap_2").find? overlapping.knows = some "wrap_2" := by
      decide +kernel
    obtain rfl := Option.some.inj (same.symm.trans first)
    have stage : (Literal.candidates "wrap_2").find? overlapping.stages.has = some "wrap" := by
      decide +kernel
    exact ⟨part, named, by decide +kernel, same, (overtaken "wrap" stage (by decide)).2.2⟩
  · have failed : (match (declare overlapping ⟨"line", "", [], false, "wrap_2 other_2", []⟩).run.1 with
        | .error (.config (.unknownType name typeName)) => name == "other_2" && typeName == "other_2"
        | _ => false) = true := by
      decide +kernel
    refine (first_stage_type_resolves overlapping ⟨"line", "", [], false, "wrap_2 other_2", []⟩).2
      "other_2" "other_2" ?_
    split at failed
    next name typeName result =>
      obtain ⟨named, typed⟩ := (Bool.and_eq_true _ _).mp failed
      rw [result, beq_iff_eq.mp named, beq_iff_eq.mp typed]
    next => cases failed

end Outline

end Sluice
