import Sluice.Proofs.Param.TableOrder
import Sluice.Registry

set_option autoImplicit false

namespace Sluice

variable {σ : Type}

namespace Registry

/-- A pipeline is not taken over after others: it has a problem of its own, or its type name is
that of one that is there already. -/
inductive Refuses (r : Registry σ) (taken : List Pipeline) (p : Pipeline) : ConfigError → Prop
  | unsound {e : ConfigError} (problem : p.check = .error e) : Refuses r taken p e
  | repeated (sound : p.check = .ok ())
      (known : r.graphs.has p.typeName = true ∨ p.typeName ∈ taken.map Pipeline.typeName) :
      Refuses r taken p (.duplicateType p.typeName)

/-- Some pipelines have been taken over, those before the first one that was refused. -/
structure TakesOver (r : Registry σ) (pipelines : List Pipeline) (result : Except ConfigError Unit)
    (after : Registry σ) (taken left : List Pipeline) : Prop where
  split : pipelines = taken ++ left
  sound : ∀ p ∈ taken, p.check = .ok ()
  distinct : (taken.map Pipeline.typeName).Nodup
  fresh : ∀ p ∈ taken, r.graphs.has p.typeName = false
  stages : after.stages = r.stages
  essentials : after.essentials = r.essentials
  graphs : ∀ typeName, after.graphs.at? typeName =
    (taken.find? fun p => p.typeName == typeName).or (r.graphs.at? typeName)
  done : result = .ok () → left = []
  refused : ∀ e, result = .error e → ∃ p rest, left = p :: rest ∧ r.Refuses taken p e

theorem TakesOver.nothing (r : Registry σ) : r.TakesOver [] (.ok ()) r [] [] where
  split := rfl
  sound := nofun
  distinct := .nil
  fresh := nofun
  stages := rfl
  essentials := rfl
  graphs _ := rfl
  done _ := rfl
  refused := nofun

theorem TakesOver.stopped {r : Registry σ} {p : Pipeline} {e : ConfigError}
    (refuses : r.Refuses [] p e) (rest : List Pipeline) :
    r.TakesOver (p :: rest) (.error e) r [] (p :: rest) where
  split := rfl
  sound := nofun
  distinct := .nil
  fresh := nofun
  stages := rfl
  essentials := rfl
  graphs _ := rfl
  done := nofun
  refused := by rintro _ ⟨⟩; exact ⟨p, rest, rfl, refuses⟩

def addGraph (r : Registry σ) (p : Pipeline) : Registry σ :=
  { r with graphs := r.graphs.put p.typeName p }

theorem addGraph_at? (r : Registry σ) (p : Pipeline) (typeName : String) :
    (r.addGraph p).graphs.at? typeName =
      if typeName = p.typeName then some p else r.graphs.at? typeName := by
  by_cases same : typeName = p.typeName
  · rw [if_pos same, same]
    exact Dict.at?_put_self r.graphs p.typeName p
  · rw [if_neg same]
    exact Dict.at?_put_of_ne r.graphs p same

theorem addGraph_has {r : Registry σ} {p : Pipeline} {typeName : String} :
    (r.addGraph p).graphs.has typeName = true ↔
      typeName = p.typeName ∨ r.graphs.has typeName = true := by
  rw [Dict.has, addGraph_at?]
  by_cases same : typeName = p.typeName <;> simp [same, Dict.has]

theorem TakesOver.after_first {r after : Registry σ} {p : Pipeline} {rest taken left : List Pipeline}
    {result : Except ConfigError Unit} (sound : p.check = .ok ())
    (fresh : r.graphs.has p.typeName = false)
    (later : (r.addGraph p).TakesOver rest result after taken left) :
    r.TakesOver (p :: rest) result after (p :: taken) left := by
  -- A pipeline that is registered later has another name, as a repeated one is refused.
  have other : ∀ q ∈ taken, q.typeName ≠ p.typeName ∧ r.graphs.has q.typeName = false := by
    intro q listed
    have absent := later.fresh q listed
    refine ⟨fun same => ?_, Bool.eq_false_iff.mpr fun has => ?_⟩
    · rw [addGraph_has.mpr (.inl same)] at absent
      cases absent
    · rw [addGraph_has.mpr (.inr has)] at absent
      cases absent
  refine
    { split := by rw [later.split]; rfl
      sound := List.forall_mem_cons.mpr ⟨sound, later.sound⟩
      distinct := ?_
      fresh := List.forall_mem_cons.mpr ⟨fresh, fun q listed => (other q listed).2⟩
      stages := later.stages
      essentials := later.essentials
      graphs typeName := ?_
      done := later.done
      refused e failed := ?_ }
  · refine List.nodup_cons.mpr ⟨fun listed => ?_, later.distinct⟩
    obtain ⟨q, listed, same⟩ := List.mem_map.mp listed
    exact (other q listed).1 same
  · rw [later.graphs, addGraph_at?, List.find?_cons]
    by_cases same : typeName = p.typeName
    · have missed : (taken.find? fun q => q.typeName == typeName) = none :=
        List.find?_eq_none.mpr fun q listed => by simpa [same] using (other q listed).1
      have equal : (p.typeName == typeName) = true := beq_iff_eq.mpr same.symm
      rw [equal, missed, if_pos same]
      rfl
    · have unequal : (p.typeName == typeName) = false := by simpa using Ne.symm same
      rw [unequal, if_neg same]
  · obtain ⟨q, rest, same, refuses⟩ := later.refused e failed
    refine ⟨q, rest, same, ?_⟩
    cases refuses with
    | unsound problem => exact .unsound problem
    | repeated sound known =>
      refine .repeated sound ?_
      rcases known with known | known
      · rcases addGraph_has.mp known with same | known
        · exact .inr (same ▸ List.mem_cons_self)
        · exact .inl known
      · exact .inr (List.mem_cons_of_mem _ known)

namespace Change

section

variable {α β : Type} {change : Change σ α} {r after : Registry σ} {reports later : List Report}

theorem run_ok {x : α} (first : StateT.run (change.run r) reports = ((.ok x, after), later))
    (next : α → Change σ β) : StateT.run ((change >>= next).run r) reports =
      StateT.run ((next x).run after) later := by
  unfold run at first ⊢
  rw [ExceptT.run_bind, StateT.run_bind, StateT.run_bind, first]
  rfl

theorem run_error {e : ConfigError}
    (first : StateT.run (change.run r) reports = ((.error e, after), later))
    (next : α → Change σ β) :
    StateT.run ((change >>= next).run r) reports = ((.error e, after), later) := by
  unfold run at first ⊢
  rw [ExceptT.run_bind, StateT.run_bind, StateT.run_bind, first]
  rfl

end

theorem validate_run (p : Pipeline) (reports : List Report) :
    ∃ later, StateT.run p.validate reports = (p.check, later) := by
  unfold Pipeline.validate
  cases p.check <;> exact ⟨_, rfl⟩

theorem registerGraph_run (p : Pipeline) (r : Registry σ) (reports : List Report) :
    ∃ result after later, StateT.run ((registerGraph p).run r) reports = ((result, after), later) ∧
      ((result = .ok () ∧ after = r.addGraph p ∧ p.check = .ok () ∧
          r.graphs.has p.typeName = false) ∨
        ∃ e, result = .error e ∧ after = r ∧ r.Refuses [] p e) := by
  obtain ⟨later, checked⟩ := validate_run p reports
  have lifted : StateT.run (run (σ := σ) (ExceptT.mk (StateT.lift p.validate)) r) reports =
      ((p.check, r), later) := by
    change (StateT.run p.validate reports >>= fun ended => pure ((ended.1, r), ended.2)) = _
    rw [checked]
    rfl
  cases sound : p.check with
  | error e =>
    exact ⟨_, _, _, run_error (sound ▸ lifted) _, .inr ⟨e, rfl, rfl, .unsound sound⟩⟩
  | ok _ =>
    have rest : StateT.run ((registerGraph p).run r) reports =
        if r.graphs.has p.typeName then ((.error (.duplicateType p.typeName), r), later)
        else ((.ok (), r.addGraph p), later) := by
      refine (run_ok (sound ▸ lifted) _).trans ?_
      change StateT.run (run (if r.graphs.has p.typeName then throw _ else set _) r) later = _
      split <;> rfl
    cases known : r.graphs.has p.typeName with
    | true =>
      rw [known] at rest
      exact ⟨_, _, _, rest, .inr ⟨_, rfl, rfl, .repeated sound (.inl known)⟩⟩
    | false =>
      rw [known] at rest
      exact ⟨_, _, _, rest, .inl ⟨rfl, rfl, rfl, rfl⟩⟩

theorem registerGraphs_run (pipelines : List Pipeline) (r : Registry σ) (reports : List Report) :
    ∃ result after later taken left,
      StateT.run ((registerGraphs pipelines).run r) reports = ((result, after), later) ∧
        r.TakesOver pipelines result after taken left := by
  induction pipelines generalizing r reports with
  | nil => exact ⟨_, _, _, _, _, rfl, .nothing r⟩
  | cons p rest ih =>
    obtain ⟨result, after, later, ran, ended⟩ := registerGraph_run p r reports
    rcases ended with ⟨rfl, rfl, sound, fresh⟩ | ⟨e, rfl, rfl, refuses⟩
    · obtain ⟨result, after, later, taken, left, ran', takes⟩ := ih (r.addGraph p) later
      exact ⟨result, after, later, p :: taken, left, (run_ok ran _).trans ran',
        takes.after_first sound fresh⟩
    · exact ⟨.error e, after, later, [], p :: rest, run_error ran _, .stopped refuses rest⟩

theorem setEssentials_at? (essentials : Dict Datum) (ordered : essentials.Ordered)
    (r : Registry σ) : ∃ pool : Dict Value,
      essentials.foldl (fun r (name, data) => r.setEssential name data.toValue) r =
          { r with essentials := pool } ∧
        ∀ name, pool.at? name =
          ((essentials.at? name).map Datum.toValue).or (r.essentials.at? name) := by
  induction essentials generalizing r with
  | nil => exact ⟨r.essentials, rfl, fun _ => rfl⟩
  | cons entry rest ih =>
    obtain ⟨key, data⟩ := entry
    obtain ⟨first, later⟩ := List.pairwise_cons.mp ordered
    obtain ⟨pool, same, pooled⟩ := ih later (r.setEssential key data.toValue)
    refine ⟨pool, same, fun name => ?_⟩
    rw [pooled, Dict.at?_cons, setEssential]
    by_cases same : name = key
    · subst same
      have absent : name ∉ Dict.keys rest := fun listed => String.lt_irrefl name (first name listed)
      rw [Dict.at?_eq_none absent, if_pos rfl, Dict.at?_put_self]
      rfl
    · rw [if_neg same, Dict.at?_put_of_ne _ _ same]

/-- A library is taken over up to the first pipeline that is refused: what comes before it stays,
and so do the values, even if the registration fails. -/
theorem library_taken_up_to_refusal (library : Library) (ordered : library.essentials.Ordered)
    (r : Registry σ) (reports : List Report) : ∃ pool result after later taken left,
      StateT.run ((registerLibrary library).run r) reports = ((result, after), later) ∧
        (∀ name, pool.at? name =
          ((library.essentials.at? name).map Datum.toValue).or (r.essentials.at? name)) ∧
        { r with essentials := pool }.TakesOver library.pipelines result after taken left := by
  obtain ⟨pool, same, pooled⟩ := setEssentials_at? library.essentials ordered r
  obtain ⟨result, after, later, taken, left, ran, takes⟩ :=
    registerGraphs_run library.pipelines { r with essentials := pool } reports
  refine ⟨pool, result, after, later, taken, left, ?_, pooled, takes⟩
  rw [← same] at ran
  exact ran

def doubled : Library :=
  let echo : Pipeline := ⟨"echo", "keeps what comes", [], false, "sink", []⟩
  ⟨[("mark", .int 1)], [echo, echo]⟩

theorem doubled_taken_up_to_refusal : doubled.essentials.Ordered ∧
    ∃ pool result after later taken left,
      StateT.run ((registerLibrary doubled).run (empty : Registry Stock)) [] =
          ((result, after), later) ∧
        (∀ name, pool.at? name =
          ((doubled.essentials.at? name).map Datum.toValue).or
            ((empty : Registry Stock).essentials.at? name)) ∧
        { (empty : Registry Stock) with essentials := pool }.TakesOver
          doubled.pipelines result after taken left :=
  ⟨List.pairwise_singleton .., library_taken_up_to_refusal doubled (List.pairwise_singleton ..) empty []⟩

/-- A library that is refused leaves a value and a pipeline behind. -/
theorem refused_library_leaves_part : ∃ e after later,
    StateT.run ((registerLibrary doubled).run (empty : Registry Stock)) [] =
        ((.error e, after), later) ∧
      after.essentials.at? "mark" ≠ (empty : Registry Stock).essentials.at? "mark" ∧
      after.graphs.at? "echo" ≠ (empty : Registry Stock).graphs.at? "echo" := by
  have leaves : (match StateT.run ((registerLibrary doubled).run (empty : Registry Stock)) [] with
      | ((.error _, after), _) => after.essentials.has "mark" && after.graphs.has "echo"
      | _ => false) = true := by decide +kernel
  split at leaves
  next e after later ran =>
    obtain ⟨pooled, registered⟩ := (Bool.and_eq_true _ _).mp leaves
    exact ⟨e, after, later, ran, Option.ne_none_iff_isSome.mpr pooled,
      Option.ne_none_iff_isSome.mpr registered⟩
  next => cases leaves

end Change

end Registry

end Sluice
