import Sluice.Proofs.Assembly.Precedence

set_option autoImplicit false

namespace Sluice

variable {σ : Type}

namespace Reference

variable {lookup : String → Option Value} {text rest out : List Char} {name : String}

def opens : List Char → Bool
  | '$' :: '\x7b' :: _ => true
  | _ => false

/-- One pass over a text from left to right: what comes in place of a reference is not read again. -/
inductive OnePass (lookup : String → Option Value) : List Char → List Char → Prop
  | done : OnePass lookup [] []
  | letter {c : Char} {rest out : List Char} (closed : opens (c :: rest) = false)
      (later : OnePass lookup rest out) : OnePass lookup (c :: rest) (c :: out)
  | reference {name rest out : List Char} {value : Value} (closed : '\x7d' ∉ name)
      (found : lookup (String.ofList name) = some value) (later : OnePass lookup rest out) :
      OnePass lookup ('$' :: '\x7b' :: (name ++ '\x7d' :: rest)) (value.render.toList ++ out)

/-- A pass stops at a reference: its name stands for nothing, or is all that is left. -/
inductive Stops (lookup : String → Option Value) : List Char → String → Prop
  | letter {c : Char} {rest : List Char} {name : String} (closed : opens (c :: rest) = false)
      (later : Stops lookup rest name) : Stops lookup (c :: rest) name
  | unknown {name rest : List Char} (closed : '\x7d' ∉ name)
      (absent : lookup (String.ofList name) = none) :
      Stops lookup ('$' :: '\x7b' :: (name ++ '\x7d' :: rest)) (String.ofList name)
  | unclosed {rest : List Char} (closed : '\x7d' ∉ rest) :
      Stops lookup ('$' :: '\x7b' :: rest) (String.ofList rest)
  | reference {name rest : List Char} {other : String} {value : Value} (closed : '\x7d' ∉ name)
      (found : lookup (String.ofList name) = some value) (later : Stops lookup rest other) :
      Stops lookup ('$' :: '\x7b' :: (name ++ '\x7d' :: rest)) other

theorem fill_letter {c : Char} (closed : opens (c :: rest) = false) :
    fill lookup none (c :: rest) = (fill lookup none rest).map (c :: ·) := by
  rw [fill]
  rintro later rfl rfl
  cases closed

theorem fill_name {name : List Char} (closed : '\x7d' ∉ name) (start rest : List Char) :
    fill lookup (some start) (name ++ '\x7d' :: rest) =
      match lookup (String.ofList (start.reverse ++ name)) with
      | some value => (fill lookup none rest).map (value.render.toList ++ ·)
      | none => .error (String.ofList (start.reverse ++ name)) := by
  induction name generalizing start with
  | nil =>
    rw [List.nil_append, List.append_nil]
    cases found : lookup (String.ofList start.reverse) <;> simp [fill, found]
  | cons c name ih =>
    rw [List.mem_cons, not_or] at closed
    have step : fill lookup (some start) (c :: (name ++ '\x7d' :: rest)) =
        fill lookup (some (c :: start)) (name ++ '\x7d' :: rest) := by
      rw [fill]
      exact fun same => closed.1 same.symm
    rw [List.cons_append, step, ih closed.2]
    simp

theorem fill_unclosed {name : List Char} (closed : '\x7d' ∉ name) (start : List Char) :
    fill lookup (some start) name = .error (String.ofList (start.reverse ++ name)) := by
  induction name generalizing start with
  | nil => simp [fill]
  | cons c name ih =>
    rw [List.mem_cons, not_or] at closed
    have step : fill lookup (some start) (c :: name) = fill lookup (some (c :: start)) name := by
      rw [fill]
      exact fun same => closed.1 same.symm
    rw [step, ih closed.2]
    simp

theorem OnePass.fill (pass : OnePass lookup text out) : fill lookup none text = .ok out := by
  induction pass with
  | done => rfl
  | letter closed _ ih =>
    rw [fill_letter closed, ih]
    rfl
  | reference closed found _ ih =>
    rw [Reference.fill, fill_name closed, List.reverse_nil, List.nil_append, found]
    dsimp only
    rw [ih]
    rfl

theorem Stops.fill (stops : Stops lookup text name) : fill lookup none text = .error name := by
  induction stops with
  | letter closed _ ih =>
    rw [fill_letter closed, ih]
    rfl
  | unknown closed absent =>
    rw [Reference.fill, fill_name closed, List.reverse_nil, List.nil_append, absent]
  | unclosed closed => rw [Reference.fill, fill_unclosed closed, List.reverse_nil, List.nil_append]
  | reference closed found _ ih =>
    rw [Reference.fill, fill_name closed, List.reverse_nil, List.nil_append, found]
    dsimp only
    rw [ih]
    rfl

theorem pass_or_stop (lookup : String → Option Value) (text : List Char) :
    (∃ out, OnePass lookup text out) ∨ ∃ name, Stops lookup text name := by
  -- By strong induction on the length: a reference takes several characters at once.
  induction size : text.length using Nat.strongRecOn generalizing text with
  | _ size ih =>
    subst size
    cases begins : opens text with
    | false =>
      cases text with
      | nil => exact .inl ⟨_, .done⟩
      | cons c rest =>
        rcases ih _ (Nat.lt_succ_self _) rest rfl with ⟨out, pass⟩ | ⟨name, stops⟩
        · exact .inl ⟨_, .letter begins pass⟩
        · exact .inr ⟨_, .letter begins stops⟩
    | true =>
      obtain ⟨rest, rfl⟩ : ∃ rest, text = '$' :: '\x7b' :: rest := by
        unfold opens at begins
        split at begins
        · exact ⟨_, rfl⟩
        · cases begins
      by_cases closes : '\x7d' ∈ rest
      · obtain ⟨name, rest, rfl, closed⟩ := List.eq_append_cons_of_mem closes
        cases found : lookup (String.ofList name) with
        | none => exact .inr ⟨_, .unknown closed found⟩
        | some value =>
          rcases ih _ (by simp; omega) rest rfl with ⟨out, pass⟩ | ⟨other, stops⟩
          · exact .inl ⟨_, .reference closed found pass⟩
          · exact .inr ⟨_, .reference closed found stops⟩
      · exact .inr ⟨_, .unclosed closes⟩

def Refers (text : List Char) (name : String) : Prop :=
  text = '$' :: '\x7b' :: (name.toList ++ ['\x7d']) ∧ name.toList.any isMark = false

theorem whole?_eq_some_iff : whole? text = some name ↔ Refers text name := by
  constructor
  · intro found
    unfold whole? at found
    split at found
    next rest =>
      split at found
      next letters last =>
        split at found
        next => cases found
        next plain =>
          cases found
          have rest : rest = letters.reverse ++ ['\x7d'] := by
            rw [← List.reverse_reverse rest, last, List.reverse_cons]
          exact ⟨by rw [rest, String.toList_ofList], by simpa using plain⟩
      next => cases found
    next => cases found
  · rintro ⟨rfl, plain⟩
    simp [whole?, plain]

/-- What a value stands for after one pass. A text that is a reference and nothing else stands for the
value itself, and any other is read as a literal. -/
inductive Passes (enclosing : ParamTable) : Value → Value → Prop
  | plain {v : Value} (bare : v.bare = true) : Passes enclosing v v
  | whole {s name : String} {v : Value} (refers : Refers s.toList name)
      (found : enclosing.get? name = some v) : Passes enclosing (.text s) v
  | text {s : String} {out : List Char} (occurs : (Value.text s).bare = false)
      (mixed : ∀ name, ¬Refers s.toList name) (pass : OnePass enclosing.get? s.toList out) :
      Passes enclosing (.text s) (Literal.convert (String.ofList out))

inductive Lacks (enclosing : ParamTable) : Value → String → Prop
  | whole {s name : String} (refers : Refers s.toList name) (absent : enclosing.get? name = none) :
      Lacks enclosing (.text s) name
  | text {s name : String} (occurs : (Value.text s).bare = false)
      (mixed : ∀ name, ¬Refers s.toList name) (stops : Stops enclosing.get? s.toList name) :
      Lacks enclosing (.text s) name

section

variable {enclosing : ParamTable} {stage parameter : String} {v r : Value}

theorem resolve_text {s : String} (occurs : (Value.text s).bare = false) :
    resolve enclosing stage parameter (.text s) =
      (substitute enclosing.get? s).mapError (.unresolvedSubstitution stage parameter) := by
  have occurs : Reference.occurs s.toList = true := by simpa [Value.bare] using occurs
  rw [resolve, if_pos occurs]

theorem Refers.not_bare {s : String} (refers : Refers s.toList name) : (Value.text s).bare = false := by
  rw [Value.bare, refers.1]
  rfl

theorem substitute_whole {s : String} (refers : Refers s.toList name) :
    substitute lookup s = match lookup name with
      | some value => .ok value
      | none => .error name := by
  have whole := whole?_eq_some_iff.mpr refers
  cases found : lookup name <;> simp [substitute, whole, found]

theorem substitute_mixed {s : String} (mixed : ∀ name, ¬Refers s.toList name) :
    substitute lookup s =
      (fill lookup none s.toList).map fun filled => Literal.convert (String.ofList filled) := by
  have none : whole? s.toList = none :=
    Option.eq_none_iff_forall_ne_some.mpr fun name found => mixed name (whole?_eq_some_iff.mp found)
  rw [substitute, none]

theorem Passes.resolve (passes : Passes enclosing v r) : resolve enclosing stage parameter v = .ok r := by
  cases passes with
  | plain bare => exact resolve_ok_iff.mpr (resolved?_bare enclosing bare)
  | whole refers found =>
    rw [resolve_text refers.not_bare, substitute_whole refers, found]
    rfl
  | text occurs mixed pass =>
    rw [resolve_text occurs, substitute_mixed mixed, pass.fill]
    rfl

theorem Lacks.resolve (lacks : Lacks enclosing v name) : resolve enclosing stage parameter v =
    .error (.unresolvedSubstitution stage parameter name) := by
  cases lacks with
  | whole refers absent =>
    rw [resolve_text refers.not_bare, substitute_whole refers, absent]
    rfl
  | text occurs mixed stops =>
    rw [resolve_text occurs, substitute_mixed mixed, stops.fill]
    rfl

theorem passes_or_lacks (enclosing : ParamTable) (v : Value) :
    (∃ r, Passes enclosing v r) ∨ ∃ name, Lacks enclosing v name := by
  cases bare : v.bare with
  | true => exact .inl ⟨v, .plain bare⟩
  | false =>
    cases v with
    | text s =>
      by_cases whole : ∃ name, Refers s.toList name
      · obtain ⟨name, refers⟩ := whole
        cases found : enclosing.get? name with
        | some value => exact .inl ⟨value, .whole refers found⟩
        | none => exact .inr ⟨name, .whole refers found⟩
      · have mixed := not_exists.mp whole
        rcases pass_or_stop enclosing.get? s.toList with ⟨out, pass⟩ | ⟨name, stops⟩
        · exact .inl ⟨_, .text bare mixed pass⟩
        · exact .inr ⟨name, .text bare mixed stops⟩
    | _ => cases bare

theorem resolve_ok_iff_passes : resolve enclosing stage parameter v = .ok r ↔ Passes enclosing v r := by
  refine ⟨fun done => ?_, Passes.resolve⟩
  rcases passes_or_lacks enclosing v with ⟨other, passes⟩ | ⟨name, lacks⟩
  · cases done.symm.trans passes.resolve
    exact passes
  · cases done.symm.trans lacks.resolve

theorem resolve_error {e : ConfigError} (failed : resolve enclosing stage parameter v = .error e) :
    ∃ name, e = .unresolvedSubstitution stage parameter name ∧ Lacks enclosing v name := by
  rcases passes_or_lacks enclosing v with ⟨other, passes⟩ | ⟨name, lacks⟩
  · cases failed.symm.trans passes.resolve
  · cases failed.symm.trans lacks.resolve
    exact ⟨name, rfl, lacks⟩

end

end Reference

namespace Binding

open ParamTable (Accounts)
open Reference (Passes Lacks resolved?)

variable {essentials : Dict Value} {env : Environment} {enclosing : ParamTable}

/-- How the value of a parameter comes about. What was written for it is passed over once, and once more
where it still refers to something then; anything else is passed over once. -/
inductive Substituted (enclosing : ParamTable) (pairs : List (String × Value)) (left : Option Value)
    (key : String) : Option Value → Prop
  | once {w v : Value} (listed : (key, w) ∈ pairs) (passes : Passes enclosing w v)
      (bare : v.bare = true) : Substituted enclosing pairs left key (some v)
  | twice {w r v : Value} (listed : (key, w) ∈ pairs) (passes : Passes enclosing w r)
      (refers : r.bare = false) (again : Passes enclosing r v) :
      Substituted enclosing pairs left key (some v)
  | left {w v : Value} (nothing : valuesAt key pairs = []) (given : left = some w)
      (passes : Passes enclosing w v) : Substituted enclosing pairs left key (some v)
  | unbound (nothing : valuesAt key pairs = []) (absent : left = none) :
      Substituted enclosing pairs left key none

inductive Unresolved (enclosing : ParamTable) (pairs : List (String × Value)) (left : Option Value)
    (key name : String) : Prop
  | written {w : Value} (listed : (key, w) ∈ pairs) (lacks : Lacks enclosing w name)
  | again {w r : Value} (listed : (key, w) ∈ pairs) (passes : Passes enclosing w r)
      (lacks : Lacks enclosing r name)
  | left {w : Value} (nothing : valuesAt key pairs = []) (given : left = some w)
      (lacks : Lacks enclosing w name)

theorem foldlM_each {ε α δ : Type} {f : α → δ → Except ε α} {items : List δ} {start after : α}
    (done : items.foldlM f start = .ok after) : ∀ x ∈ items, ∃ a b, f a x = .ok b := by
  induction items generalizing start with
  | nil => exact nofun
  | cons x rest ih =>
    obtain ⟨next, first, done⟩ := except_bind_ok done
    exact List.forall_mem_cons.mpr ⟨⟨start, next, first⟩, ih done⟩

theorem foldlM_error {ε α δ : Type} {f : α → δ → Except ε α} {items : List δ} {start : α} {e : ε}
    (failed : items.foldlM f start = .error e) : ∃ x ∈ items, ∃ a, f a x = .error e := by
  induction items generalizing start with
  | nil => cases failed
  | cons x rest ih =>
    rw [List.foldlM_cons] at failed
    cases first : f start x with
    | error e' =>
      rw [first] at failed
      cases failed
      exact ⟨x, List.mem_cons_self, start, first⟩
    | ok next =>
      rw [first] at failed
      obtain ⟨y, listed, a, broken⟩ := ih failed
      exact ⟨y, List.mem_cons_of_mem _ listed, a, broken⟩

theorem bindEach_resolves {path : String} {t after : ParamTable} {pairs : List (String × Value)}
    (done : bindEach enclosing path t pairs = .ok after) :
    ∀ pair ∈ pairs, (resolved? enclosing pair.2).isSome = true := by
  intro pair listed
  obtain ⟨a, b, one⟩ := foldlM_each done pair listed
  obtain ⟨r, known, -⟩ := except_bind_ok one
  rw [Reference.resolve_ok_iff.mp known]
  rfl

structure Sourced (enclosing : ParamTable) (pairs : List (String × Value))
    (left : String → Option Value) (t : ParamTable) : Prop where
  ordered : t.values.Ordered
  bound : ∀ key x, t.get? key = some x → (∃ w, (key, w) ∈ pairs ∧ Passes enclosing w x) ∨
    valuesAt key pairs = [] ∧ left key = some x
  unbound : ∀ key, t.get? key = none → valuesAt key pairs = [] ∧ left key = none

theorem bindWritten_sourced {member : Member} {node : Node σ} {t : ParamTable}
    (empty : node.params = .make node.path node.typeName)
    (done : bindWritten enclosing member node = .ok t) :
    Sourced enclosing (written node.declared member.routeValues member.settings)
      (fallback essentials node.declared) (fillDefaults essentials node.declared t) := by
  have fits : ∀ values ∈ member.routeValues, values.length ≤ node.declared.size := by
    obtain ⟨mid, routed, -⟩ := except_bind_ok done
    intro values listed
    obtain ⟨a, b, one⟩ := foldlM_each routed values listed
    unfold bindValues at one
    split at one
    next => cases one
    next fits => exact Nat.not_lt.mp fits
  rw [bindWritten_eq fits] at done
  generalize written node.declared member.routeValues member.settings = pairs at *
  have known := bindEach_resolves done
  have blank : node.params.Accounts [] := empty ▸ ⟨.nil, fun key => .nil, fun key => rfl⟩
  have accounts : t.Accounts (resolvedPairs enclosing pairs) := by
    rw [bindEach_resolved known] at done
    rcases blank.foldlM (resolvedPairs enclosing pairs) with
      ⟨after, bound, accounts⟩ | ⟨⟨key, old, new, failed⟩, -⟩
    · cases done.symm.trans bound
      exact accounts
    · cases done.symm.trans failed
  obtain ⟨ordered, filled⟩ := fillDefaults_get? essentials node.declared accounts.ordered
  -- A value is picked wherever one was written, as every written value resolves.
  have absent (key : String) (none : Value.pick (valuesAt key (resolvedPairs enclosing pairs)) = none) :
      valuesAt key pairs = [] := by
    rw [Value.pick_eq_none_iff, valuesAt_resolvedPairs, List.filterMap_eq_nil_iff] at none
    refine List.eq_nil_iff_forall_not_mem.mpr fun w listed => ?_
    simpa [none w listed] using known (key, w) (mem_valuesAt.mp listed)
  refine ⟨ordered, fun key x given => ?_, fun key given => ?_⟩
  · rw [filled, accounts.picked] at given
    rcases Option.or_eq_some_iff.mp given with picked | ⟨none, given⟩
    · have listed := Value.pick_mem picked
      rw [valuesAt_resolvedPairs] at listed
      obtain ⟨w, listed, known⟩ := List.mem_filterMap.mp listed
      exact .inl ⟨w, mem_valuesAt.mp listed, Reference.resolve_ok_iff_passes.mp
        (Reference.resolve_ok_iff.mpr known : Reference.resolve enclosing "" "" w = .ok x)⟩
    · exact .inr ⟨absent key none, given⟩
  · rw [filled, accounts.picked] at given
    obtain ⟨none, given⟩ := Option.or_eq_none_iff.mp given
    exact ⟨absent key none, given⟩

theorem Sourced.substituted {pairs : List (String × Value)} {left : String → Option Value}
    {t after : ParamTable} {path : String} (sourced : Sourced enclosing pairs left t)
    (done : resolveBound enclosing path t = .ok after) (key : String) :
    Substituted enclosing pairs (left key) key (after.get? key) := by
  have known (key : String) (v : Value) (given : t.get? key = some v) :
      (resolved? enclosing v).isSome = true := by
    obtain ⟨a, b, one⟩ := foldlM_each done _ (Dict.mem_of_at? given)
    obtain ⟨r, known, -⟩ := except_bind_ok one
    rw [Reference.resolve_ok_iff.mp known]
    rfl
  obtain ⟨other, same, resolved⟩ := resolveBound_ok enclosing sourced.ordered known path
  cases done.symm.trans same
  rw [resolved]
  cases given : t.get? key with
  | none =>
    obtain ⟨nothing, absent⟩ := sourced.unbound key given
    exact .unbound nothing absent
  | some x =>
    obtain ⟨v, found⟩ := Option.isSome_iff_exists.mp (known key x given)
    have passes : Passes enclosing x v := Reference.resolve_ok_iff_passes.mp
      (Reference.resolve_ok_iff.mpr found : Reference.resolve enclosing "" "" x = .ok v)
    rw [Option.bind_some, found]
    -- What was written has been through one pass already; the second comes with `resolveBound`.
    rcases sourced.bound key x given with ⟨w, listed, first⟩ | ⟨nothing, given⟩
    · cases bare : x.bare with
      | true =>
        obtain rfl : x = v := by
          rw [Reference.resolved?_bare enclosing bare] at found
          exact Option.some.inj found
        exact .once listed first bare
      | false => exact .twice listed first bare passes
    · exact .left nothing given passes

theorem Sourced.unresolved {pairs : List (String × Value)} {left : String → Option Value}
    {t : ParamTable} {path : String} (sourced : Sourced enclosing pairs left t) {e : ConfigError}
    (failed : resolveBound enclosing path t = .error e) : ∃ key name,
      e = .unresolvedSubstitution path key name ∧ Unresolved enclosing pairs (left key) key name := by
  obtain ⟨⟨key, x⟩, listed, a, one⟩ := foldlM_error failed
  have given : t.get? key = some x := sourced.ordered.at?_of_mem listed
  have broken : Reference.resolve enclosing path key x = .error e := by
    cases result : Reference.resolve enclosing path key x with
    | ok r =>
      dsimp only at one
      rw [result] at one
      cases one
    | error e' =>
      dsimp only at one
      rw [result] at one
      cases one
      rfl
  obtain ⟨name, rfl, lacks⟩ := Reference.resolve_error broken
  refine ⟨key, name, rfl, ?_⟩
  rcases sourced.bound key x given with ⟨w, listed, first⟩ | ⟨nothing, given⟩
  · exact .again listed first lacks
  · exact .left nothing given lacks

theorem except_bind_error {ε α β : Type} {result : Except ε α} {next : α → Except ε β} {e : ε}
    (failed : result >>= next = .error e) :
    result = .error e ∨ ∃ a, result = .ok a ∧ next a = .error e := by
  cases result with
  | error e' => exact .inl (by cases failed; rfl)
  | ok a => exact .inr ⟨a, rfl, failed⟩

section

variable {stage key name : String}

theorem bind_not_unresolved {t : ParamTable} {other : String} {v : Value} :
    t.bind other v ≠ .error (.unresolvedSubstitution stage key name) := by
  unfold ParamTable.bind
  repeat' split
  all_goals nofun

theorem bindEach_unresolved {path : String} {t : ParamTable} {pairs : List (String × Value)}
    (failed : bindEach enclosing path t pairs = .error (.unresolvedSubstitution stage key name)) :
    stage = path ∧ ∃ w, (key, w) ∈ pairs ∧ Lacks enclosing w name := by
  obtain ⟨⟨other, w⟩, listed, a, one⟩ := foldlM_error failed
  rcases except_bind_error one with broken | ⟨r, -, conflict⟩
  · obtain ⟨name, same, lacks⟩ := Reference.resolve_error broken
    cases same
    exact ⟨rfl, w, listed, lacks⟩
  · exact absurd conflict bind_not_unresolved

theorem bindWritten_unresolved {member : Member} {node : Node σ}
    (failed : bindWritten enclosing member node = .error (.unresolvedSubstitution stage key name)) :
    stage = node.path ∧ ∃ w,
      (key, w) ∈ written node.declared member.routeValues member.settings ∧ Lacks enclosing w name := by
  rcases except_bind_error failed with routed | ⟨t, -, given⟩
  · obtain ⟨values, listed, a, one⟩ := foldlM_error routed
    unfold bindValues at one
    split at one
    next => cases one
    next =>
      obtain ⟨same, w, inside, lacks⟩ := bindEach_unresolved one
      exact ⟨same, w, List.mem_append_left _ (List.mem_flatMap.mpr ⟨values, listed, inside⟩), lacks⟩
  · obtain ⟨same, w, inside, lacks⟩ := bindEach_unresolved given
    exact ⟨same, w, List.mem_append_right _ inside, lacks⟩

theorem followVariables_not_unresolved {path : String} {t : ParamTable} :
    followVariables env path t ≠ .error (.unresolvedSubstitution stage key name) := by
  intro failed
  obtain ⟨_, _, _, one⟩ := foldlM_error failed
  dsimp only at one
  repeat' split at one
  all_goals cases one

end

/-- The value of a parameter comes of one pass over what is written for it, unless that leads to a text
that refers to something itself, and it is from there that references may be unresolved as well. -/
theorem values_pass_again {b : Blueprint σ} {outline : Outline σ}
    (declared : (Outline.declare b.registry b.pipeline).run.1 = .ok outline) {s : Level}
    (listed : s ∈ (Layout.ofOutline outline).levels) {id : NodeId} {member : Member}
    (own : (id, member) ∈ s.members) (enclosing : ParamTable) :
    ∃ node route, (Layout.ofOutline outline).nodes[id]? = some node ∧
      Route.read s.pipeline.route = .ok route ∧
      ∀ pairs, pairs = written node.declared (referenceValues route member.name)
          (sectionValues s.pipeline member.name) →
        (∀ after, bindMember b.registry.essentials b.environment enclosing s.pipeline.dynamic member
            node = .ok after →
          ∃ t, (if s.pipeline.dynamic then
              followVariables b.environment node.path t = .ok (after.params, after.dynamic)
            else after.params = t) ∧
            ∀ key, Substituted enclosing pairs
              (fallback b.registry.essentials node.declared key) key (t.get? key)) ∧
        ∀ stage key name, bindMember b.registry.essentials b.environment enclosing s.pipeline.dynamic
            member node = .error (.unresolvedSubstitution stage key name) →
          stage = node.path ∧ Unresolved enclosing pairs
            (fallback b.registry.essentials node.declared key) key name := by
  obtain ⟨node, route, found, parsed, empty, routed, settings⟩ := member_written declared listed own
  refine ⟨node, route, found, parsed, fun pairs given => ?_⟩
  rw [← written_filter, ← routed, ← settings] at given
  subst given
  rw [bindMember_eq]
  constructor
  · intro after done
    obtain ⟨t, given, done⟩ := except_bind_ok done
    obtain ⟨u, resolved, done⟩ := except_bind_ok done
    refine ⟨u, ?_, (bindWritten_sourced empty given).substituted resolved⟩
    split at done
    next dynamic =>
      rw [if_pos dynamic]
      obtain ⟨⟨params, follows⟩, followed, done⟩ := except_bind_ok done
      cases done
      exact followed
    next static =>
      rw [if_neg static]
      cases done
      rfl
  · intro stage key name failed
    -- Of the three steps only the first two can leave a reference unresolved.
    rcases except_bind_error failed with broken | ⟨t, given, failed⟩
    · obtain ⟨same, w, inside, lacks⟩ := bindWritten_unresolved broken
      exact ⟨same, .written inside lacks⟩
    · rcases except_bind_error failed with broken | ⟨u, -, failed⟩
      · obtain ⟨other, name, same, unresolved⟩ := (bindWritten_sourced empty given).unresolved broken
        cases same
        exact ⟨rfl, unresolved⟩
      · split at failed
        next =>
          rcases except_bind_error failed with broken | ⟨_, -, ended⟩
          · exact absurd broken followVariables_not_unresolved
          · cases ended
        next => cases failed

def doubled : Blueprint Stock where
  pipeline := ⟨"demo", "", ["a", "b"], false, "wrap:$\x7ba\x7d sink", []⟩
  registry := Stock.registry
  params := [("a", .text "$\x7bb\x7d"), ("b", .text "x")]
  environment := .empty

def doubles (s : Level) (member : Member) (node : Node Stock) (route : List Route.Element) : Bool :=
  (match written node.declared (referenceValues route member.name)
      (sectionValues s.pipeline member.name) with
    | [(key, .text w)] => key == "data_prefix" && w == "$\x7ba\x7d"
    | _ => false) &&
  (bindMember [] .empty ⟨"", "demo", doubled.params⟩ false member node).toOption.any (fun after =>
    (after.params.get? "data_prefix").any fun v => v == .text "x") &&
  match bindMember [] .empty ⟨"", "demo", doubled.params.take 1⟩ false member node with
  | .error e => decide (e = .unresolvedSubstitution "wrap" "data_prefix" "b")
  | .ok _ => false

set_option maxRecDepth 100000 in
theorem values_pass_again_doubled : ∃ outline s id member node left,
    (Outline.declare doubled.registry doubled.pipeline).run.1 = .ok outline ∧
      s ∈ (Layout.ofOutline outline).levels ∧ (id, member) ∈ s.members ∧
      (Layout.ofOutline outline).nodes[id]? = some node ∧
      (∃ after, bindMember [] .empty ⟨"", "demo", doubled.params⟩ false member node = .ok after ∧
        after.params.get? "data_prefix" = some (.text "x") ∧
        Substituted ⟨"", "demo", doubled.params⟩ [("data_prefix", .text "$\x7ba\x7d")] left
          "data_prefix" (some (.text "x"))) ∧
      bindMember [] .empty ⟨"", "demo", doubled.params.take 1⟩ false member node =
        .error (.unresolvedSubstitution "wrap" "data_prefix" "b") ∧
      Unresolved ⟨"", "demo", doubled.params.take 1⟩ [("data_prefix", .text "$\x7ba\x7d")] left
        "data_prefix" "b" := by
  have checked : (Outline.declare doubled.registry doubled.pipeline).run.1.toOption.any (fun outline =>
      (Layout.ofOutline outline).levels.any fun s => !s.pipeline.dynamic &&
        s.members.any fun entry => (Layout.ofOutline outline).nodes[entry.1]?.any fun node =>
          (Route.read s.pipeline.route).toOption.any (doubles s entry.2 node)) = true := by
    decide +kernel
  obtain ⟨outline, declared, checked⟩ := except_of_any checked
  obtain ⟨s, listed, checked⟩ := List.any_eq_true.mp checked
  obtain ⟨static, checked⟩ := (Bool.and_eq_true _ _).mp checked
  obtain ⟨⟨id, member⟩, own, checked⟩ := List.any_eq_true.mp checked
  obtain ⟨node, found, checked⟩ := (Option.any_eq_true _ _).mp checked
  obtain ⟨route, parsed, checked⟩ := except_of_any checked
  replace static : s.pipeline.dynamic = false := by simpa using static
  simp only [doubles, Bool.and_eq_true] at checked
  -- The member and its node were found by evaluation, and now the theorem is applied to both
  -- tables.
  obtain ⟨⟨single, bound⟩, broken⟩ := checked
  have only : written node.declared (referenceValues route member.name)
      (sectionValues s.pipeline member.name) = [("data_prefix", .text "$\x7ba\x7d")] := by
    split at single
    next same => simpa [same] using single
    next => cases single
  have failed : bindMember [] .empty ⟨"", "demo", doubled.params.take 1⟩ false member node =
      .error (.unresolvedSubstitution "wrap" "data_prefix" "b") := by
    split at broken
    next same => rw [same, of_decide_eq_true broken]
    next => cases broken
  obtain ⟨after, done, bound⟩ := except_of_any bound
  obtain ⟨v, bound, same⟩ := (Option.any_eq_true _ _).mp bound
  obtain rfl := Value.eq_text same
  obtain ⟨node', route', found', parsed', passes⟩ :=
    values_pass_again declared listed own ⟨"", "demo", doubled.params⟩
  obtain rfl : node = node' := Option.some.inj (found.symm.trans found')
  obtain rfl : route = route' := Except.ok.inj (parsed.symm.trans parsed')
  obtain ⟨node', route', found', parsed', stops⟩ :=
    values_pass_again declared listed own ⟨"", "demo", doubled.params.take 1⟩
  obtain rfl : node = node' := Option.some.inj (found.symm.trans found')
  obtain rfl : route = route' := Except.ok.inj (parsed.symm.trans parsed')
  obtain ⟨passes, -⟩ := passes _ rfl
  obtain ⟨-, stops⟩ := stops _ rfl
  rw [static, only] at passes stops
  obtain ⟨t, rfl, from'⟩ := passes after done
  exact ⟨outline, s, id, member, node, _, declared, listed, own, found,
    ⟨after, done, bound, bound ▸ from' "data_prefix"⟩, failed, (stops _ _ _ failed).2⟩

end Binding

end Sluice
