import Mathlib.Data.Nat.Factorial.Basic
import Mathlib.Tactic.Choose
import Sluice.Proofs.Graph.Trampoline

set_option autoImplicit false

namespace Sluice

theorem Value.fits_iff {n : Int} : Value.fits n = true ↔ Value.least ≤ n ∧ n ≤ Value.greatest := by
  simp [Value.fits]

theorem Value.fits_of_mul {n : Int} {m : Nat} (positive : 0 < m) (fits : Value.fits (n * m) = true) :
    Value.fits n = true := by
  rw [fits_iff] at fits ⊢
  have least : Value.least ≤ 0 := by decide
  have greatest : 0 ≤ Value.greatest := by decide
  have one : (1 : Int) ≤ m := by exact_mod_cast positive
  rcases Int.le_total 0 n with above | below
  · have : n * 1 ≤ n * m := Int.mul_le_mul_of_nonneg_left one above
    omega
  · have : n * m ≤ n * 1 := Int.mul_le_mul_of_nonpos_left below one
    omega

theorem Store.write_read (store : Store) (h : Handle) : store.write h (store.read h) = store := by
  refine congrArg Store.mk (Array.ext_getElem? fun i => ?_)
  by_cases here : h = i
  · subst here
    by_cases inside : h < store.cells.size
    · simp [read, Array.getElem?_setIfInBounds_self_of_lt inside, Array.getElem?_eq_getElem inside]
    · rw [Array.setIfInBounds, dif_neg inside]
  · rw [Array.getElem?_setIfInBounds_ne here]

namespace Body

variable {f : Body} {c : Content} {k : Nat}

theorem Settles.once (works : (f c).2 = none) {v : Value} (has : (f.turn c).recurse? = .some v)
    (left : v ≠ .bool true) : f.Settles c 1 where
  some := Nat.le_refl 1
  works j less := by
    obtain rfl : j = 0 := by omega
    exact works
  again j least less := by omega
  stops := ⟨v, has, left⟩

theorem Settles.after (works : (f c).2 = none) (again : (f.turn c).recurse? = .some (.bool true))
    (settles : f.Settles (f.turn c) k) : f.Settles c (k + 1) where
  some := Nat.succ_pos k
  works
    | 0, _ => works
    | j + 1, less => settles.works j (by omega)
  again
    | 1, _, _ => again
    | j + 2, _, less => settles.again (j + 1) (by omega) (by omega)
  stops := settles.stops

theorem Fails.once {reason : String} (fails : (f c).2 = .some reason) : f.Fails c 0 reason where
  works j less := absurd less (Nat.not_lt_zero j)
  again j least less := by omega
  fails := fails

theorem Fails.after {reason : String} (works : (f c).2 = none)
    (again : (f.turn c).recurse? = .some (.bool true)) (fails : f.Fails (f.turn c) k reason) :
    f.Fails c (k + 1) reason where
  works
    | 0, _ => works
    | j + 1, less => fails.works j (by omega)
  again
    | 1, _, _ => again
    | j + 2, _, less => fails.again (j + 1) (by omega) (by omega)
  fails := fails.fails

end Body

theorem Traffic.interpret_look {again : Call → Run Stock Unit} {id : NodeId} {h : Handle}
    {next : Parcel → Program Stock Unit} {g : Graph Stock} :
    (interpret again id (Program.look h >>= next)).start g =
      (interpret again id (next (g.store.read h))).start g := rfl

namespace Factorial

theorem step_content (p : Parcel) :
    step p = (step (p.content.parcel .main none)).map fun q => q.content.parcel p.fork p.origin := by
  have same (key : String) : integer (p.content.parcel .main none) key = integer p key := rfl
  unfold step
  rw [same, same]
  cases integer p "x" with
  | error reason => rfl
  | ok found =>
    cases found with
    | none => rfl
    | some x =>
      change (if x < 0 then _ else _) = Except.map _ (if x < 0 then _ else _)
      split
      · rfl
      · cases integer p "pending" with
        | error reason => rfl
        | ok pending =>
          change (if x ≤ 1 then _ else _) = Except.map _ (if x ≤ 1 then _ else _)
          split
          · rfl
          · split <;> rfl

theorem integer_cases (p : Parcel) (key : String) :
    (integer p key = .ok none ∧ p.attr? key = none) ∨
    (∃ n, integer p key = .ok (some n) ∧ p.attr? key = some (.int n) ∧ Value.fits n = true) ∨
    ∃ reason, integer p key = .error reason := by
  unfold integer
  split
  next absent => exact .inl ⟨rfl, absent⟩
  next value has =>
    split
    next n whole =>
      refine .inr (.inl ⟨n, rfl, ?_⟩)
      cases value with
      | int m =>
        rw [Value.asInt?] at whole
        split at whole
        next fits =>
          cases whole
          exact ⟨has, fits⟩
        next => cases whole
      | _ => cases whole
    next => exact .inr (.inr ⟨_, rfl⟩)

end Factorial

namespace Bouncing

/-- A content from which so many factors are still to be multiplied into what there is. -/
structure Counts (c : Content) (n : Nat) (product : Int) : Prop where
  x : c.attrs.at? "x" = some (.int n)
  small : Value.fits n = true
  pending : c.attrs.at? "pending" = none ∧ product = 1 ∨ c.attrs.at? "pending" = some (.int product)
  fits : Value.fits product = true

theorem Counts.step {c : Content} {n : Nat} {product : Int} (counts : Counts c n product) :
    Factorial.step (c.parcel .main none) =
      if n ≤ 1 then .ok (Factorial.finish (c.parcel .main none) product)
      else if Value.fits (product * n) then
        .ok (Factorial.multiply (c.parcel .main none) n (product * n))
      else .error s!"factorial overflows at x = {(n : Int)}" := by
  have x : Factorial.integer (c.parcel .main none) "x" = .ok (some n) := by
    have has : (c.parcel .main none).attr? "x" = some (.int n) := counts.x
    simp [Factorial.integer, has, Value.asInt?, counts.small]
  have pending : ∃ given, Factorial.integer (c.parcel .main none) "pending" = .ok given ∧
      given.getD 1 = product := by
    rcases counts.pending with ⟨absent, rfl⟩ | has
    · have absent : (c.parcel .main none).attr? "pending" = none := absent
      exact ⟨none, by simp [Factorial.integer, absent], rfl⟩
    · have has : (c.parcel .main none).attr? "pending" = some (.int product) := has
      exact ⟨some product, by simp [Factorial.integer, has, Value.asInt?, counts.fits], rfl⟩
  obtain ⟨given, pending, rfl⟩ := pending
  have above : ¬ (n : Int) < 0 := by omega
  have last : (n : Int) ≤ 1 ↔ n ≤ 1 := by omega
  unfold Factorial.step
  simp only [x, pending, bind, Except.bind, above, last, if_false]

theorem factorial_ok {c : Content} {q : Parcel} (step : Factorial.step (c.parcel .main none) = .ok q) :
    factorial c = (q.content, none) := by
  rw [factorial, step]

theorem factorial_error {c : Content} {reason : String}
    (step : Factorial.step (c.parcel .main none) = .error reason) :
    factorial c = (c, some reason) := by
  rw [factorial, step]

theorem factorial_does : Stock.factorial.Does factorial := by
  have opened (here : Here) (h : Handle) :
      Stock.factorial.accept here h = Factorial.accept here.path h := rfl
  refine ⟨fun id here h g works again => ?_, fun id here h g reason failed => ?_⟩
  · cases step : Factorial.step ((g.store.read h).content.parcel .main none) with
    | error reason =>
      rw [factorial_error step] at works
      cases works
    | ok q =>
      rw [opened, Factorial.accept, Traffic.interpret_look, Factorial.step_content, step, Graph.stepped,
        Body.turn, factorial_ok step]
      exact Traffic.interpret_forward again id h .main _
  · cases step : Factorial.step ((g.store.read h).content.parcel .main none) with
    | ok q =>
      rw [factorial_ok step] at failed
      cases failed
    | error reason' =>
      rw [factorial_error step] at failed
      cases failed
      -- Nothing has been written.
      have same : g.stepped factorial h = g := by
        rw [Graph.stepped, Body.turn, factorial_error step]
        exact congrArg (fun store => { g with store }) (Store.write_read g.store h)
      refine ⟨g.history, fun again => ?_⟩
      rw [opened, Factorial.accept, Traffic.interpret_look, Factorial.step_content, step, same]
      rfl

theorem counts_or_fails (c : Content) :
    (∃ n product, Counts c n product) ∨ ∃ reason, (factorial c).2 = some reason := by
  have failing (reason : String) (step : Factorial.step (c.parcel .main none) = .error reason) :
      ∃ reason, (factorial c).2 = some reason := ⟨reason, by rw [factorial_error step]⟩
  rcases Factorial.integer_cases (c.parcel .main none) "x" with
    ⟨none', -⟩ | ⟨x, read, x', small⟩ | ⟨reason, error⟩
  · exact .inr (failing _ (by rw [Factorial.step, none']; rfl))
  · by_cases below : x < 0
    · refine .inr (failing s!"cannot take the factorial of {x}" ?_)
      simp only [Factorial.step, read, bind, Except.bind, below, if_true]
    · obtain ⟨n, rfl⟩ := Int.eq_ofNat_of_zero_le (Int.not_lt.mp below)
      rcases Factorial.integer_cases (c.parcel .main none) "pending" with
        ⟨-, absent⟩ | ⟨product, -, pending, fits⟩ | ⟨reason, error⟩
      · exact .inl ⟨n, 1, x', small, .inl ⟨absent, rfl⟩, by decide⟩
      · exact .inl ⟨n, product, x', small, .inr pending, fits⟩
      · refine .inr (failing reason ?_)
        simp only [Factorial.step, read, error, bind, Except.bind, below, if_false]
  · exact .inr (failing _ (by rw [Factorial.step, error]; rfl))

namespace Counts

variable {c : Content} {n : Nat} {product : Int}

theorem last (counts : Counts c n product) (few : n ≤ 1) : (factorial c).2 = none ∧
    (factorial.turn c).attrs.at? "x_factorial" = some (.int product) ∧
    (factorial.turn c).recurse? = some (.bool false) := by
  have step := counts.step
  rw [if_pos few] at step
  rw [Body.turn, factorial_ok step]
  refine ⟨rfl, ?_, Dict.at?_put_self _ _ _⟩
  refine (Dict.at?_put_of_ne _ _ (by decide)).trans (Dict.at?_put_self _ _ _)

theorem next (counts : Counts c (n + 2) product) (fits : Value.fits (product * (n + 2)) = true) :
    (factorial c).2 = none ∧ (factorial.turn c).recurse? = some (.bool true) ∧
      Counts (factorial.turn c) (n + 1) (product * (n + 2)) := by
  have step := counts.step
  rw [if_neg (by omega), if_pos (by exact_mod_cast fits)] at step
  rw [Body.turn, factorial_ok step]
  have x : ((n + 2 : Nat) : Int) - 1 = ((n + 1 : Nat) : Int) := by omega
  have small := counts.small
  refine ⟨rfl, Dict.at?_put_self _ _ _, ?_, ?_, .inr ?_, fits⟩
  · refine (Dict.at?_put_of_ne _ _ (by decide)).trans ((Dict.at?_put_self _ _ _).trans ?_)
    rw [x]
  · rw [Value.fits_iff] at small ⊢
    have least : Value.least ≤ 0 := by decide
    omega
  · refine (Dict.at?_put_of_ne _ _ (by decide)).trans ((Dict.at?_put_of_ne _ _ (by decide)).trans
      ((Dict.at?_put_self _ _ _).trans ?_))
    push_cast
    rfl

theorem overflows (counts : Counts c (n + 2) product)
    (large : Value.fits (product * (n + 2)) = false) :
    (factorial c).2 = some s!"factorial overflows at x = {((n + 2 : Nat) : Int)}" := by
  have step := counts.step
  rw [if_neg (by omega), if_neg (by simpa using large)] at step
  rw [factorial_error step]

theorem factorial_step (product : Int) (n : Nat) :
    product * ((n + 2).factorial : Nat) = product * (n + 2) * ((n + 1).factorial : Nat) := by
  rw [Nat.factorial_succ, Int.mul_assoc]
  push_cast
  rw [Int.add_assoc]
  rfl

theorem settles (counts : Counts c n product) (fits : Value.fits (product * n.factorial) = true) :
    factorial.Settles c (max 1 n) ∧
      (factorial.turn^[max 1 n] c).attrs.at? "x_factorial" = some (.int (product * n.factorial)) ∧
      (factorial.turn^[max 1 n] c).recurse? = some (.bool false) := by
  induction n generalizing c product with
  | zero =>
    obtain ⟨works, result, ends⟩ := counts.last (Nat.zero_le 1)
    exact ⟨.once works ends nofun, by simpa using result, ends⟩
  | succ n ih =>
    cases n with
    | zero =>
      obtain ⟨works, result, ends⟩ := counts.last (Nat.le_refl 1)
      exact ⟨.once works ends nofun, by simpa using result, ends⟩
    | succ n =>
      rw [factorial_step] at fits ⊢
      obtain ⟨works, again, counts⟩ := counts.next (Value.fits_of_mul (Nat.factorial_pos _) fits)
      obtain ⟨settles, result, ends⟩ := ih counts fits
      rw [show max 1 (n + 2) = max 1 (n + 1) + 1 by omega]
      exact ⟨settles.after works again, result, ends⟩

theorem fails (counts : Counts c n product) (large : Value.fits (product * n.factorial) = false) :
    ∃ k x, 2 ≤ x ∧ x ≤ n ∧ factorial.Fails c k s!"factorial overflows at x = {(x : Int)}" := by
  induction n generalizing c product with
  | zero => simp [counts.fits] at large
  | succ n ih =>
    cases n with
    | zero => simp [counts.fits] at large
    | succ n =>
      cases fits : Value.fits (product * (n + 2)) with
      | false => exact ⟨0, n + 2, by omega, Nat.le_refl _, .once (counts.overflows fits)⟩
      | true =>
        rw [factorial_step] at large
        obtain ⟨works, again, counts⟩ := counts.next fits
        obtain ⟨k, x, least, most, fails⟩ := ih counts large
        exact ⟨k + 1, x, least, by omega, fails.after works again⟩

end Counts

theorem factorial_ends (c : Content) :
    (∃ k, factorial.Settles c k) ∨ ∃ k reason, factorial.Fails c k reason := by
  rcases counts_or_fails c with ⟨n, product, counts⟩ | ⟨reason, fails⟩
  · cases fits : Value.fits (product * n.factorial) with
    | true => exact .inl ⟨_, (counts.settles fits).1⟩
    | false =>
      obtain ⟨k, x, -, -, fails⟩ := counts.fails fits
      exact .inr ⟨k, _, fails⟩
  · exact .inr ⟨0, reason, .once fails⟩

def multiplying : Job := ⟨factorial, "factorial", "factorial_calc"⟩

def factorialLoop (environment : Environment) : Blueprint Stock where
  pipeline := ⟨"factorial", "", [], false,
    "tank_queue:0 factorial_calc branch_if:recurse (tank_feed tank_queue) sink", []⟩
  registry := Stock.registry
  params := []
  environment

set_option maxRecDepth 100000 in
theorem factorialLoop_assembled : ∃ nodes, (factorialLoop .empty).assemble.run.1 = .ok nodes ∧
    ready multiplying true (nodes.push Graph.pumpSinkNode) = true := by
  have checked : (match (factorialLoop .empty).assemble.run.1 with
      | .ok nodes => ready multiplying true (nodes.push Graph.pumpSinkNode)
      | .error _ => false) = true := by decide +kernel
  split at checked
  next nodes assembled => exact ⟨nodes, assembled, checked⟩
  next => cases checked

theorem factorialLoop_static (outline : Outline Stock)
    (declared : (Outline.declare (factorialLoop .empty).registry
      (factorialLoop .empty).pipeline).run.1 = .ok outline)
    (s : Level) (member : s ∈ (Layout.ofOutline outline).levels) :
    s.pipeline.dynamic = false := by
  have checked : (match (Outline.declare (factorialLoop .empty).registry
      (factorialLoop .empty).pipeline).run.1 with
      | .ok outline => (Layout.ofOutline outline).levels.all fun s => !s.pipeline.dynamic
      | .error _ => false) = true := by decide +kernel
  rw [declared] at checked
  simpa using List.all_eq_true.mp checked s member

theorem factorialLoop_built (environment : Environment) :
    ∃ g tank, (factorialLoop environment).build.1 = .ok g ∧ Idle tank ∧
      Turning multiplying none [] ⟨tank, [], .empty⟩ g := by
  obtain ⟨nodes, assembled, ready⟩ := factorialLoop_assembled
  have surroundings : (factorialLoop environment).assemble.run =
      (factorialLoop .empty).assemble.run :=
    Blueprint.assemble_environment (b := factorialLoop .empty) factorialLoop_static environment
  rw [← surroundings] at assembled
  obtain ⟨history, built⟩ := Blueprint.build_assembled assembled
  obtain ⟨tank, idle, w⟩ := ready_turning (g := Graph.make nodes 0 environment history) ready rfl
    (Array.size_push _) rfl fun id node s found stage duty own => by
      cases s with
      | factorial => exact factorial_does
      | _ => cases own
  exact ⟨_, tank, built, idle, w⟩

open Run (Below Returns)

/-- What a pump of some parcels comes to, with what the queue has released meanwhile. Nothing is left
in the queue. -/
def Answers (g : Graph Stock) (parcels : List Parcel) (result : Except EngineError (List Parcel))
    (turns : Nat) : Prop :=
  ∃ tank, g.tankOf "tank_queue" = .ok tank ∧
    Returns (fun depth => Graph.pump depth parcels) g fun ended after => ended = result ∧
      ∃ later, after.tankOf "tank_queue" = .ok later ∧ later.released = tank.released + turns ∧
        later.size = 0

/-- What comes of a graph by pumps, each of a single parcel or one that answers. -/
inductive Reached (g : Graph Stock) : Graph Stock → Prop
  | start : Reached g g
  | pump {before after : Graph Stock} {parcels : List Parcel} {depth : Nat}
      {result : Except EngineError (List Parcel)} (earlier : Reached g before)
      (whole : parcels.length = 1 ∨ result.isOk = true)
      (pumped : (Graph.pump depth parcels).start before = some (result, after)) : Reached g after

theorem settle_or_fail (parcels : List Parcel) :
    (∀ p ∈ parcels, ∃ k, factorial.Settles p.content k) ∨
    ∃ before p rest k reason, parcels = before ++ p :: rest ∧
      (∀ p ∈ before, ∃ k, factorial.Settles p.content k) ∧ factorial.Fails p.content k reason := by
  induction parcels with
  | nil => exact .inl nofun
  | cons p rest ih =>
    rcases factorial_ends p.content with settles | ⟨k, reason, fails⟩
    · rcases ih with all | ⟨before, q, after, k, reason, rfl, all, fails⟩
      · exact .inl (List.forall_mem_cons.mpr ⟨settles, all⟩)
      · exact .inr ⟨p :: before, q, after, k, reason, rfl,
          List.forall_mem_cons.mpr ⟨settles, all⟩, fails⟩
    · exact .inr ⟨[], p, rest, k, reason, rfl, nofun, fails⟩

variable {g before after : Graph Stock} {tank : Tank} {store : Store}

theorem pump_answers (parcels : List Parcel) : ∃ result turns, ∀ g tank store, Idle tank →
    Turning multiplying none [] ⟨tank, [], store⟩ g → Answers g parcels result turns := by
  rcases settle_or_fail parcels with all | ⟨front, p, rest, k, reason, rfl, all, fails⟩
  · choose! rounds settles using all
    refine ⟨.ok (parcels.map fun p => outcome factorial p (rounds p)), (parcels.map rounds).sum,
      fun g tank store idle w => ⟨tank, w.tankOf, ?_⟩⟩
    refine (pump_settles w idle rfl settles).mono fun ended after ⟨result, store, w⟩ => ?_
    exact ⟨result, _, w.tankOf, rfl, rfl⟩
  · choose! rounds settles using all
    refine ⟨.error (.data "factorial_calc" reason), (front.map rounds).sum + (k + 1),
      fun g tank store idle w => ⟨tank, w.tankOf, ?_⟩⟩
    refine (pump_interrupted w idle settles fails rest).mono fun ended after ⟨result, store, w⟩ => ?_
    exact ⟨result, _, w.tankOf, rfl, rfl⟩

theorem pump_leaves {parcels : List Parcel} {depth : Nat}
    {result : Except EngineError (List Parcel)} (idle : Idle tank)
    (w : Turning multiplying none [] ⟨tank, [], store⟩ g)
    (whole : parcels.length = 1 ∨ result.isOk = true)
    (pumped : (Graph.pump depth parcels).start g = some (result, after)) :
    ∃ tank store, Idle tank ∧ Turning multiplying none [] ⟨tank, [], store⟩ after := by
  rcases settle_or_fail parcels with all | ⟨front, p, rest, k, reason, rfl, all, fails⟩
  · choose! rounds settles using all
    obtain ⟨-, store, w⟩ := Below.returned (fun deep => Graph.pump_below deep _)
      (pump_settles w idle rfl settles) pumped
    exact ⟨_, store, idle.turned _, w⟩
  · choose! rounds settles using all
    obtain ⟨failed, store, w⟩ := Below.returned (fun deep => Graph.pump_below deep _)
      (pump_interrupted w idle settles fails rest) pumped
    -- A single parcel that fails has none before it, of which something could have been kept.
    have single : front = [] := by
      rcases whole with single | answers
      · rw [List.length_append, List.length_cons] at single
        exact List.length_eq_zero_iff.mp (by omega)
      · rw [failed] at answers
        cases answers
    subst single
    exact ⟨_, store, idle.turned _, w⟩

theorem Reached.turning (reached : Reached g before) (idle : Idle tank)
    (w : Turning multiplying none [] ⟨tank, [], store⟩ g) :
    ∃ tank store, Idle tank ∧ Turning multiplying none [] ⟨tank, [], store⟩ before := by
  induction reached with
  | start => exact ⟨tank, store, idle, w⟩
  | pump _ whole pumped ih =>
    obtain ⟨tank, store, idle, w⟩ := ih
    exact pump_leaves idle w whole pumped

/-- A parcel whose product fits comes out with it after as many cycles as it asks for. Otherwise the
pump fails, and any later one comes to what it would have come to without it. -/
theorem factorial_exact_or_fails (environment : Environment) :
    ∃ g, (factorialLoop environment).build.1 = .ok g ∧ ∀ before, Reached g before →
      ∀ (p : Parcel) (x : Nat) (pending : Int), Counts p.content x pending →
        (Value.fits (pending * x.factorial) = true →
          ∃ q, q.attr? "x_factorial" = some (.int (pending * x.factorial)) ∧
            q.attr? "recurse" = some (.bool false) ∧ Answers before [p] (.ok [q]) (max 1 x)) ∧
        (Value.fits (pending * x.factorial) = false →
          (∃ y turns, 2 ≤ y ∧ y ≤ x ∧ Answers before [p] (.error (.data "factorial_calc"
            s!"factorial overflows at x = {(y : Int)}")) turns) ∧
          ∀ depth result after, (Graph.pump depth [p]).start before = some (result, after) →
            ∀ parcels, ∃ later turns, Answers before parcels later turns ∧
              Answers after parcels later turns) := by
  obtain ⟨g, tank, built, idle, w⟩ := factorialLoop_built environment
  refine ⟨g, built, fun before reached p x pending counts => ?_⟩
  obtain ⟨tank, store, idle, w⟩ := reached.turning idle w
  refine ⟨fun fits => ?_, fun large => ⟨?_, fun depth result after pumped parcels => ?_⟩⟩
  · obtain ⟨settles, product, ends⟩ := counts.settles fits
    refine ⟨outcome factorial p (max 1 x), product, ends, tank, w.tankOf, ?_⟩
    let rounds : Parcel → Nat := fun _ => max 1 x
    have settles : ∀ q ∈ [p], multiplying.step.Settles q.content (rounds q) :=
      fun q listed => List.mem_singleton.mp listed ▸ settles
    refine (pump_settles w idle rfl settles).mono fun ended after ⟨result, store, w⟩ => ?_
    exact ⟨result, _, w.tankOf, rfl, rfl⟩
  · obtain ⟨k, y, least, most, fails⟩ := counts.fails large
    refine ⟨y, k + 1, least, most, tank, w.tankOf, ?_⟩
    have none' : ∀ q ∈ ([] : List Parcel), multiplying.step.Settles q.content 0 := nofun
    refine (pump_interrupted w idle none' fails []).mono fun ended after ⟨result, store, w⟩ => ?_
    exact ⟨result, _, w.tankOf, by simp [Tank.turned], rfl⟩
  · obtain ⟨result, turns, answers⟩ := pump_answers parcels
    obtain ⟨tank', store', idle', w'⟩ := pump_leaves idle w (.inl rfl) pumped
    exact ⟨result, turns, answers before tank store idle w, answers after tank' store' idle' w'⟩

theorem factorial_five_and_twenty_one : ∃ g, (factorialLoop .empty).build.1 = .ok g ∧
    (∃ q, q.attr? "x_factorial" = some (.int 120) ∧ q.attr? "recurse" = some (.bool false) ∧
      Answers g [asked 5] (.ok [q]) 5) ∧
    (∃ reason turns, Answers g [asked 21] (.error (.data "factorial_calc" reason)) turns) ∧
    ∃ depth result after, (Graph.pump depth [asked 21]).start g = some (result, after) ∧
      ∃ later turns, Answers g [asked 3] later turns ∧ Answers after [asked 3] later turns := by
  have counts (x : Nat) (small : Value.fits x = true) : Counts (asked x).content x 1 :=
    ⟨rfl, small, .inl ⟨rfl, rfl⟩, by decide⟩
  obtain ⟨g, built, pumps⟩ := factorial_exact_or_fails .empty
  obtain ⟨q, product, ends, answers⟩ :=
    (pumps g .start (asked 5) 5 1 (counts 5 (by decide))).1 (by decide)
  obtain ⟨⟨y, turns, -, -, fails⟩, leaves⟩ :=
    (pumps g .start (asked 21) 21 1 (counts 21 (by decide))).2 (by decide)
  obtain ⟨-, -, depth, result, after, pumped, -⟩ := id fails
  exact ⟨g, built, ⟨q, product, ends, answers⟩, ⟨_, turns, fails⟩, depth, result, after,
    pumped depth (Nat.le_refl _), leaves depth result after (pumped depth (Nat.le_refl _)) [asked 3]⟩

end Bouncing

end Sluice
