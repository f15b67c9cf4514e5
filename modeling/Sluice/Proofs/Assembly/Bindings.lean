import Sluice.Proofs.Assembly.Seats
import Sluice.Proofs.Assembly.Substitution
import Sluice.Proofs.Stage.Twins

set_option autoImplicit false

namespace Sluice

variable {σ ε α α' β β' : Type}

/-- Where the first comes to something, the second comes to something related. -/
def Leads (rel : α → α' → Prop) (r : Except ε α) (r' : Except ε α') : Prop :=
  ∀ a, r = .ok a → ∃ a', r' = .ok a' ∧ rel a a'

namespace Leads

variable {rel : α → α' → Prop} {r : Except ε α} {r' : Except ε α'}

theorem ok {a : α} {a' : α'} (related : rel a a') : Leads (ε := ε) rel (.ok a) (.ok a') := by
  rintro _ ⟨⟩
  exact ⟨a', rfl, related⟩

theorem bind (first : Leads rel r r') {rel' : β → β' → Prop} {next : α → Except ε β}
    {next' : α' → Except ε β'} (rest : ∀ a a', rel a a' → Leads rel' (next a) (next' a')) :
    Leads rel' (r >>= next) (r' >>= next') := by
  intro b done
  obtain ⟨a, one, done⟩ := except_bind_ok done
  obtain ⟨a', one', related⟩ := first a one
  rw [one']
  exact rest a a' related b done

theorem foldlM {δ : Type} {f : α → δ → Except ε α} {f' : α' → δ → Except ε α'} {items : List δ}
    (step : ∀ x ∈ items, ∀ a a', rel a a' → Leads rel (f a x) (f' a' x)) {a : α} {a' : α'}
    (start : rel a a') : Leads rel (items.foldlM f a) (items.foldlM f' a') := by
  induction items generalizing a a' with
  | nil => exact .ok start
  | cons x rest ih =>
    rw [List.foldlM_cons, List.foldlM_cons]
    exact (step x List.mem_cons_self a a' start).bind fun _ _ related =>
      ih (fun y later => step y (List.mem_cons_of_mem _ later)) related

end Leads

namespace ParamTable

variable {t t' : ParamTable}

theorem Alike.refl (t : ParamTable) : t.Alike t := ⟨rfl, rfl⟩

theorem Alike.has (alike : t.Alike t') (key : String) : t'.has key = t.has key := by
  rw [ParamTable.has, alike.values, ParamTable.has]

theorem Alike.bind (alike : t.Alike t') (key : String) (value : Value) :
    Leads ParamTable.Alike (t.bind key value) (t'.bind key value) := by
  unfold ParamTable.bind
  rw [alike.get?]
  cases t.get? key with
  | none => exact .ok (alike.put key value)
  | some existing =>
    dsimp only
    split
    · exact .ok alike
    · split
      · exact .ok (alike.put key value)
      · nofun

def Covers (t t' : ParamTable) : Prop := ∀ ⦃v r⦄, Reference.Passes t v r → Reference.Passes t' v r

theorem Covers.resolve (covers : t.Covers t') (path path' key : String) (v : Value) :
    Leads Eq (Reference.resolve t path key v) (Reference.resolve t' path' key v) := by
  intro r done
  exact ⟨r, (covers (Reference.resolve_ok_iff_passes.mp done)).resolve, rfl⟩

theorem Alike.covers (alike : t.Alike t') : t.Covers t' := by
  have same : t'.get? = t.get? := funext alike.get?
  intro v r passes
  cases passes with
  | plain bare => exact .plain bare
  | whole refers found => exact .whole refers (same ▸ found)
  | text occurs mixed pass => exact .text occurs mixed (same ▸ pass)

end ParamTable

namespace Reference

theorem OnePass.occurs {lookup : String → Option Value} (empty : ∀ name, lookup name = none)
    {text out : List Char} (pass : OnePass lookup text out) : occurs text = false := by
  induction pass with
  | done => rfl
  | @letter c rest _ closed _ ih =>
    rw [Reference.occurs]
    · exact ih
    · rintro later rfl rfl
      cases closed
  | reference _ found _ _ =>
    rw [empty] at found
    cases found

end Reference

theorem ParamTable.covers_of_empty {t : ParamTable} (empty : t.values = []) (t' : ParamTable) :
    t.Covers t' := by
  have absent (name : String) : t.get? name = none := by rw [get?, empty, Dict.at?_nil]
  intro v r passes
  cases passes with
  | plain bare => exact .plain bare
  | whole refers found =>
    rw [absent] at found
    cases found
  | text occurs mixed pass => simp [Value.bare, pass.occurs absent] at occurs

structure Node.Alike (node other : Node σ) : Prop where
  name : other.name = node.name
  typeName : other.typeName = node.typeName
  declared : other.declared = node.declared
  params : node.params.Alike other.params
  dynamic : other.dynamic = node.dynamic

namespace Binding

variable {essentials : Dict Value} {env : Environment} {enclosing enclosing' t t' : ParamTable}

theorem bindEach_alike (covers : enclosing.Covers enclosing') (path path' : String)
    (alike : t.Alike t') (pairs : List (String × Value)) :
    Leads ParamTable.Alike (bindEach enclosing path t pairs) (bindEach enclosing' path' t' pairs) := by
  refine .foldlM (fun pair _ t t' alike => ?_) alike
  refine (covers.resolve path path' pair.1 pair.2).bind fun v v' same => ?_
  subst same
  exact alike.bind pair.1 v

theorem bindValues_alike (covers : enclosing.Covers enclosing') {node other : Node σ}
    (same : node.Alike other) (alike : t.Alike t') (values : List Value) :
    Leads ParamTable.Alike (bindValues enclosing node t values)
      (bindValues enclosing' other t' values) := by
  unfold bindValues
  rw [same.declared]
  split
  · nofun
  · exact bindEach_alike covers _ _ alike _

theorem fillDefaults_alike (declared : ParamSet) (alike : t.Alike t') :
    (fillDefaults essentials declared t).Alike (fillDefaults essentials declared t') := by
  unfold fillDefaults
  generalize declared.specs = specs
  induction specs generalizing t t' with
  | nil => exact alike
  | cons spec rest ih =>
    refine ih ?_
    dsimp only
    split
    · unfold ParamTable.putDefault
      rw [alike.has]
      split
      · exact alike
      · exact alike.put _ _
    · exact alike

theorem resolveBound_alike (covers : enclosing.Covers enclosing') (path path' : String)
    (alike : t.Alike t') :
    Leads ParamTable.Alike (resolveBound enclosing path t) (resolveBound enclosing' path' t') := by
  unfold resolveBound
  rw [alike.values]
  refine .foldlM (fun pair _ t t' alike => ?_) alike
  refine (covers.resolve path path' pair.1 pair.2).bind fun v v' same => ?_
  subst same
  exact .ok (alike.put pair.1 v)

theorem followVariables_alike (path path' : String) (alike : t.Alike t') :
    Leads (fun a a' => a.1.Alike a'.1 ∧ a'.2 = a.2) (followVariables env path t)
      (followVariables env path' t') := by
  unfold followVariables
  rw [alike.values]
  refine .foldlM (fun pair _ a a' same => ?_) ⟨alike, rfl⟩
  dsimp only
  split
  · exact .ok same
  · split
    · exact .ok ⟨same.1.put _ _, by rw [same.2]⟩
    · nofun

theorem bindMember_alike (covers : enclosing.Covers enclosing') {member member' : Member}
    (same : member.Same member') {node other : Node σ} (alike : node.Alike other) (dynamic : Bool) :
    Leads Node.Alike (bindMember essentials env enclosing dynamic member node)
      (bindMember essentials env enclosing' dynamic member' other) := by
  unfold bindMember
  rw [same.routeValues, same.settings, alike.declared]
  have routed := Leads.foldlM (fun values (_ : values ∈ member.routeValues) _ _ both =>
    bindValues_alike covers alike both values) alike.params
  refine routed.bind fun t t' both => ?_
  refine (bindEach_alike covers node.path other.path both _).bind fun t t' both => ?_
  have filled : (fillDefaults essentials node.declared t).Alike
      (fillDefaults essentials node.declared t') := fillDefaults_alike node.declared both
  refine (resolveBound_alike covers node.path other.path filled).bind fun t t' both => ?_
  split
  · refine (followVariables_alike node.path other.path both).bind fun a a' both => ?_
    exact .ok { alike with declared := rfl, params := both.1, dynamic := both.2 }
  · exact .ok { alike with declared := rfl, params := both }

end Binding

end Sluice
