import Mathlib.Logic.Function.Iterate
import Mathlib.Order.Bounds.Basic
import Sluice.Proofs.Assembly.Recast
import Sluice.Stage.Catalogue

set_option autoImplicit false

namespace Sluice

structure Content where
  data : List UInt8
  attrs : Dict Value
  seq : Option Int

def Parcel.content (p : Parcel) : Content := ⟨p.data, p.attrs, p.seq⟩

def Content.parcel (c : Content) (fork : Edge) (origin : Option String) : Parcel :=
  ⟨c.data, c.attrs, fork, origin, c.seq⟩

/-- What a script makes of the content of a parcel, and why it fails if it does. -/
abbrev Body := Content → Content × Option String

def recurseKey : String := "recurse"

def Content.recurse? (c : Content) : Option Value := c.attrs.at? recurseKey

namespace Body

variable {f : Body} {c : Content} {k : Nat}

def script (f : Body) : Script := fun _ p => ((f p.content).1.parcel p.fork p.origin, (f p.content).2)

def turn (f : Body) (c : Content) : Content := (f c).1

/-- It takes that many applications until the attribute is there and not true. -/
structure Settles (f : Body) (c : Content) (k : Nat) : Prop where
  some : 1 ≤ k
  works : ∀ j < k, (f (f.turn^[j] c)).2 = none
  again : ∀ j, 1 ≤ j → j < k → (f.turn^[j] c).recurse? = .some (.bool true)
  stops : ∃ v, (f.turn^[k] c).recurse? = .some v ∧ v ≠ .bool true

/-- After that many applications, each of which asks for another, the next one fails. -/
structure Fails (f : Body) (c : Content) (k : Nat) (reason : String) : Prop where
  works : ∀ j < k, (f (f.turn^[j] c)).2 = none
  again : ∀ j, 1 ≤ j → j ≤ k → (f.turn^[j] c).recurse? = .some (.bool true)
  fails : (f (f.turn^[k] c)).2 = .some reason

theorem Settles.turned (settles : f.Settles c (k + 2)) : f.Settles (f.turn c) (k + 1) where
  some := Nat.succ_pos k
  works j less := settles.works (j + 1) (by omega)
  again j least less := settles.again (j + 1) (by omega) (by omega)
  stops := settles.stops

theorem Fails.turned {reason : String} (fails : f.Fails c (k + 1) reason) :
    f.Fails (f.turn c) k reason where
  works j less := fails.works (j + 1) (by omega)
  again j least less := fails.again (j + 1) (by omega) (by omega)
  fails := fails.fails

end Body

namespace Stock

def rescript (run : Script) : Stock → Stock
  | .script _ params => .script run params
  | s => s

theorem part_rescript {α : Type} (run : Script) {put : α → Fitted Stock}
    (keeps : ∀ a, Fitted.mk (rescript run (put a).state) (put a).tank = put a) (a : α)
    (c : Configuring α Unit) (start start' : Fitted Stock) :
    (Configuring.part put a c).run start =
      let (result, fitted) := (Configuring.part put a c).run start'
      (result, ⟨rescript run fitted.state, fitted.tank⟩) := by
  have ran (start : Fitted Stock) :
      (Configuring.part put a c).run start = ((c.run a).1, put (c.run a).2) := by
    change StateT.run (ExceptT.run (Configuring.part put a c)) start = _
    unfold Configuring.part Configuring.run
    rcases ran : StateT.run (ExceptT.run c) a with ⟨result, b⟩
    cases result <;> rfl
  rw [ran, ran]
  exact Prod.ext rfl (keeps _).symm

theorem rescript_recasts (run : Script) : Stage.Recasts (rescript run) where
  attach path successor s := by
    cases s with
    | tankFeed f =>
      change ([], (TankFeed.attach path successor).map .tankFeed) =
        ([], ((TankFeed.attach path successor).map .tankFeed).map (rescript run))
      cases TankFeed.attach path successor <;> rfl
    | _ => rfl
  hasTank s := by cases s <;> rfl
  configure params s tank := by
    have own {α : Type} (put : α → Stock) (keeps : ∀ a, rescript run (put a) = put a) (a : α)
        (c : Configuring α Unit) (start : Fitted Stock) :
        (configureState tank put a c).run start =
          let (result, fitted) := (configureState tank put a c).run start
          (result, ⟨rescript run fitted.state, fitted.tank⟩) :=
      part_rescript run (fun a => by rw [keeps]) a c start start
    cases s with
    | sink s => exact own .sink (fun _ => rfl) s (Sink.configure params) ⟨.sink s, tank⟩
    | wrap w => exact own .wrap (fun _ => rfl) w (Wrap.configure params) ⟨.wrap w, tank⟩
    | seqPacket s =>
      exact own .seqPacket (fun _ => rfl) s (SeqPacket.configure params) ⟨.seqPacket s, tank⟩
    | branchIf b =>
      exact own .branchIf (fun _ => rfl) b (BranchIf.configure params) ⟨.branchIf b, tank⟩
    | sendMessage s =>
      exact own .sendMessage (fun _ => rfl) s (SendMessage.configure params) ⟨.sendMessage s, tank⟩
    | reset r => exact own .reset (fun _ => rfl) r (Reset.configure params) ⟨.reset r, tank⟩
    | tankQueue =>
      exact part_rescript run (fun _ => rfl) tank (TankQueue.configure params) ⟨.tankQueue, tank⟩
        ⟨.tankQueue, tank⟩
    | _ => rfl

end Stock

end Sluice
