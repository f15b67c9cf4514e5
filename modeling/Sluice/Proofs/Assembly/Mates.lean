import Sluice.Proofs.Assembly.Attachment

set_option autoImplicit false

namespace Sluice

variable {σ : Type}

def Moved (foreign : String → Prop) (name path path' : String) : Prop :=
  path' = path ∨ foreign path ∧
    (foreign path' ∨ path' = name ∧ ∀ inner, foreign (Layout.joinPath path' inner))

theorem Moved.deeper {foreign : String → Prop}
    (inward : ∀ path inner, foreign path → foreign (Layout.joinPath path inner))
    {name path path' : String} (moved : Moved foreign name path path') (inner : String) :
    Moved foreign inner (Layout.joinPath path inner) (Layout.joinPath path' inner) := by
  rcases moved with rfl | ⟨outer, other | ⟨-, other⟩⟩
  · exact .inl rfl
  · exact .inr ⟨inward path inner outer, .inl (inward path' inner other)⟩
  · exact .inr ⟨inward path inner outer, .inl (other inner)⟩

def Part.forks : Part σ → Bool
  | .fanOut _ => true
  | _ => false

theorem Part.Peers.same {part part' : Part σ} (peers : part.Peers part')
    (plain : part.forks = false) : part.member.Same part'.member := by
  cases peers with
  | fanOut _ _ => cases plain
  | stage same _ => exact same
  | subGraph same _ => exact same

namespace Layout

structure Mates (layout layout' : Layout σ) (foreign : String → Prop) (s s' : Level) (a b : Nat)
    (path path' : String) (part part' : Part σ) : Prop where
  seats : layout.Seats s a path part
  seats' : layout'.Seats s' b path' part'
  peers : part.Peers part'
  moved : part.forks = false → Moved foreign part.member.name (joinPath path part.member.name)
    (joinPath path' part'.member.name)
  dynamic : s'.pipeline.dynamic = s.pipeline.dynamic

theorem Mates.deeper {layout layout' : Layout σ}
    (ordered : layout.levels.Pairwise Level.Before)
    (ordered' : layout'.levels.Pairwise Level.Before) {foreign : String → Prop}
    (inward : ∀ path inner, foreign path → foreign (joinPath path inner))
    {s s' : Level} {a b first first' i : Nat} {path path' inside inside' : String}
    {member member' : Member} {o : Outline σ} {part : Part σ}
    (mates : layout.Mates layout' foreign s s' a b path path' (.subGraph member o) (.subGraph member' o))
    (has : layout.Has a first inside o) (has' : layout'.Has b first' inside' o)
    (at' : o.parts[i]? = some part) :
    layout.Mates layout' foreign (level a first o.pipeline o.plan o.parts)
      (level b first' o.pipeline o.plan o.parts) (first + i) (first' + i)
      (joinPath path member.name) (joinPath path' member'.name) part part := by
  obtain ⟨low, has₁⟩ := mates.seats.inner member o rfl
  obtain ⟨low', has₁'⟩ := mates.seats'.inner member' o rfl
  obtain rfl := has.first_eq ordered has₁ at'
  obtain rfl := has'.first_eq ordered' has₁' at'
  exact ⟨has₁.seats at', has₁'.seats at', .refl part,
    fun _ => (mates.moved rfl).deeper inward _, rfl⟩

structure Holding (bound bound' : Layout σ) (a b : Nat) (path path' : String) (part part' : Part σ)
    (t t' : ParamTable) : Prop where
  alike : t.Alike t'
  found : ∃ dynamic, bound.nodes[a]? = some { nodeOf path part with params := t, dynamic } ∧
    bound'.nodes[b]? = some { nodeOf path' part' with params := t', dynamic }

theorem Mates.holding {layout layout' bound bound' : Layout σ} {essentials : Dict Value}
    {env : Environment} {overrides overrides' : List (String × Value)}
    (binds : Binding.Binds essentials env overrides layout bound)
    (binds' : Binding.Binds essentials env overrides' layout' bound') {foreign : String → Prop}
    {s s' : Level} {a b : Nat} {path path' : String} {part part' : Part σ}
    (mates : layout.Mates layout' foreign s s' a b path path' part part')
    (plain : part.forks = false) (covers : (Binding.paramsOf bound.nodes s.node).Covers
      (Binding.paramsOf bound'.nodes s'.node)) :
    ∃ t t', Holding bound bound' a b path path' part part' t t' := by
  obtain ⟨node, after, found, done, last⟩ := binds.members s mates.seats.listed _ mates.seats.inside
  obtain ⟨node', after', found', done', last'⟩ :=
    binds'.members s' mates.seats'.listed _ mates.seats'.inside
  obtain rfl := Option.some.inj (mates.seats.node.symm.trans found)
  obtain rfl := Option.some.inj (mates.seats'.node.symm.trans found')
  have same := mates.peers.same plain
  have alike : (nodeOf path part).Alike (nodeOf path' part') := by
    have name := same.name
    have typeName := same.typeName
    have peers := mates.peers
    cases peers with
    | fanOut _ _ => cases plain
    | stage _ type => exact ⟨name, typeName, rfl, ⟨typeName, rfl⟩, rfl⟩
    | subGraph _ o => exact ⟨name, typeName, rfl, ⟨typeName, rfl⟩, rfl⟩
  rw [mates.dynamic] at done'
  obtain ⟨other, done'', alike⟩ := Binding.bindMember_alike covers same alike _ after done
  obtain rfl := Except.ok.inj (done'.symm.trans done'')
  obtain ⟨t, dynamic, rfl⟩ := Binding.bindMember_form done
  obtain ⟨t', dynamic', rfl⟩ := Binding.bindMember_form done'
  obtain rfl : dynamic' = dynamic := alike.dynamic
  exact ⟨t, t', alike.params, dynamic', last, last'⟩

end Layout

structure Facing (o o' : Outline σ) where
  base : Nat → Nat → Part σ → Part σ → Prop
  roots : Nat → Prop
  roots' : Nat → Prop
  foreign : String → Prop
  own : ∀ a b part part', base a b part part' → ¬roots a ∧
    ∃ s ∈ (Layout.ofOutline o).levels, roots s.node ∧ a ∈ s.ids
  own' : ∀ a b part part', base a b part part' → ¬roots' b ∧
    ∃ s ∈ (Layout.ofOutline o').levels, roots' s.node ∧ b ∈ s.ids
  closed : ∀ a, roots a → a = 0 ∨
    ∃ s ∈ (Layout.ofOutline o).levels, roots s.node ∧ a ∈ s.ids
  closed' : ∀ b, roots' b → b = 0 ∨
    ∃ s ∈ (Layout.ofOutline o').levels, roots' s.node ∧ b ∈ s.ids
  once : ∀ a b c part part' other other', base a b part part' → base a c other other' → b = c
  once' : ∀ a b c part part' other other', base a c part part' → base b c other other' → a = b
  inward : ∀ path inner, foreign path → foreign (Layout.joinPath path inner)

namespace Facing

open Layout (ofOutline)

variable {o o' : Outline σ} (facing : Facing o o')

abbrev Faces : Nat → Nat → Part σ → Part σ → Prop :=
  (ofOutline o).Faces (ofOutline o') facing.base

variable {a b c : Nat} {part part' other other' : Part σ}

theorem placed (o : Outline σ) : ∀ s ∈ (ofOutline o).levels, ∀ id ∈ s.ids, id > s.node :=
  fun s listed _ inside => (((Layout.ofOutline_placed o).1.levels s listed).after inside).1

theorem left (faces : facing.Faces a b part part') (faces' : facing.Faces a c other other') : b = c :=
  faces.unique (Layout.ofOutline_ordered o).order (placed o) facing.own facing.closed
    (Layout.ofOutline_ordered o').order facing.once faces'

theorem right (faces : facing.Faces a c part part') (faces' : facing.Faces b c other other') : a = b :=
  faces.symm.unique (Layout.ofOutline_ordered o').order (placed o')
    (fun b a part' part => facing.own' a b part part') facing.closed' (Layout.ofOutline_ordered o).order
    (fun c a b part' part other' other => facing.once' a b c part part' other other') faces'.symm

/-- The same is made of all nodes that stand for each other, and the same bound to them, if that holds
of those to begin with. -/
theorem held {bound bound' : Layout σ} {essentials : Dict Value} {env : Environment}
    {overrides overrides' : List (String × Value)}
    (binds : Binding.Binds essentials env overrides (ofOutline o) bound)
    (binds' : Binding.Binds essentials env overrides' (ofOutline o') bound')
    (starts : ∀ a b part part', facing.base a b part part' → ∃ s s' path path',
      (ofOutline o).Mates (ofOutline o') facing.foreign s s' a b path path' part part' ∧
        (Binding.paramsOf bound.nodes s.node).Covers (Binding.paramsOf bound'.nodes s'.node))
    (faces : facing.Faces a b part part') : ∃ s s' path path',
      (ofOutline o).Mates (ofOutline o') facing.foreign s s' a b path path' part part' ∧
        (part.forks = false →
          ∃ t t', Layout.Holding bound bound' a b path path' part part' t t') := by
  induction faces with
  | base base =>
    obtain ⟨s, s', path, path', mates, covers⟩ := starts _ _ _ _ base
    exact ⟨s, s', path, path', mates, fun plain => mates.holding binds binds' plain covers⟩
  | deeper _ has has' at' ih =>
    obtain ⟨s, s', path, path', mates, holding⟩ := ih
    have mates := mates.deeper (Layout.ofOutline_ordered o).order (Layout.ofOutline_ordered o').order
      facing.inward has has' at'
    refine ⟨_, _, _, _, mates, fun plain => mates.holding binds binds' plain ?_⟩
    -- The parameters of a pipeline are those of its node.
    obtain ⟨t, t', alike, dynamic, found, found'⟩ := holding rfl
    have enclosing {layout : Layout σ} {node : Node σ} {id : Nat} {p : Pipeline} {plan : Route.Plan}
        {first : Nat} {parts : List (Part σ)} (found : layout.nodes[id]? = some node) :
        Binding.paramsOf layout.nodes (Layout.level id first p plan parts).node = node.params := by
      change ((layout.nodes[id]?).map Node.params).getD default = node.params
      rw [found]
      rfl
    rw [enclosing found, enclosing found']
    exact alike.covers

end Facing

end Sluice
