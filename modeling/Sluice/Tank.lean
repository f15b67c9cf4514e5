import Sluice.Parcel
import Sluice.Tank.Buffer

set_option autoImplicit false

namespace Sluice

/-- A buffer of parcels that holds back as many as its capacity, all of them when that is
negative. -/
structure Tank where
  buffer : Buffer Handle
  capacity : Int
  field : String
  /-- How many parcels have been released for forwarding. -/
  released : Nat

namespace Tank

/-- The field that stands for a parcel's own sequence number. -/
def seqField : String := "seq_num"

def make (capacity : Int) (field : String) : Tank := ⟨.empty, capacity, field, 0⟩

def empty : Tank := make 0 seqField

instance : Inhabited Tank := ⟨empty⟩

def attrPriority (field : String) (p : Parcel) : Option Double :=
  (p.attr? field).bind Value.asDouble?

def priority (t : Tank) (p : Parcel) : Option Double :=
  match p.seq with
  | some n => if t.field = seqField then some (Double.ofInt n) else attrPriority t.field p
  | none => attrPriority t.field p

def push (t : Tank) (h : Handle) (p : Parcel) : Tank :=
  { t with buffer := t.buffer.push h (t.priority p) }

def popExcess (t : Tank) : Option (Option Handle × Tank) :=
  if t.capacity < 0 || (t.buffer.size : Int) ≤ t.capacity then none
  else t.buffer.pop.map fun (slot, buffer) => (slot.item, { t with buffer })

def padBy : Nat → Buffer Handle → Buffer Handle
  | 0, b => b
  | n + 1, b => padBy n b.pushPlaceholder

/-- How many placeholders fill the tank up to its capacity. -/
def room (t : Tank) : Nat := (t.capacity - t.buffer.size).toNat

def pad (t : Tank) : Tank := { t with buffer := padBy t.room t.buffer }

def size (t : Tank) : Nat := t.buffer.size

def held (t : Tank) : Nat := t.buffer.held

def releaseBy : Nat → Tank → Option Handle × Tank
  | 0, t => (none, t)
  | n + 1, t =>
    match t.popExcess with
    | none => (none, t)
    | some (none, t) => releaseBy n t
    | some (some h, t) => (some h, { t with released := t.released + 1 })

/-- Takes the next parcel in excess of the capacity; the placeholders before it are dropped. -/
def release (t : Tank) : Option Handle × Tank := releaseBy t.size t

def payloads (t : Tank) (s : Store) : List (List UInt8) :=
  t.buffer.items.map fun h => (s.read h).data

end Tank

end Sluice
