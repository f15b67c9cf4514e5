import Sluice.Edge
import Sluice.Text.Utf8
import Sluice.Value

set_option autoImplicit false

namespace Sluice

/-- A data unit: a payload of bytes, named attributes, the edge to take at the next fan-out, the
name of the stage that sent it on last, and a sequence number. -/
structure Parcel where
  data : List UInt8
  attrs : Dict Value
  fork : Edge
  origin : Option String
  seq : Option Int

namespace Parcel

def empty : Parcel := ⟨[], [], .main, none, none⟩

instance : Inhabited Parcel := ⟨empty⟩

def ofText (text : String) : Parcel := { empty with data := Text.encode text }

def text (p : Parcel) : String := Text.decode p.data

def attr? (p : Parcel) (key : String) : Option Value := p.attrs.at? key

def setAttr (p : Parcel) (key : String) (value : Value) : Parcel :=
  { p with attrs := p.attrs.put key value }

def removeAttr (p : Parcel) (key : String) : Parcel := { p with attrs := p.attrs.without key }

end Parcel

/-- A handle on a parcel. Two holders of one handle see each other's changes. -/
abbrev Handle := Nat

structure Store where
  cells : Array Parcel

namespace Store

def empty : Store := ⟨#[]⟩

def read (s : Store) (h : Handle) : Parcel := s.cells[h]?.getD .empty

def write (s : Store) (h : Handle) (p : Parcel) : Store := ⟨s.cells.setIfInBounds h p⟩

def update (s : Store) (h : Handle) (f : Parcel → Parcel) : Store := s.write h (f (s.read h))

def add (s : Store) (p : Parcel) : Handle × Store := (s.cells.size, ⟨s.cells.push p⟩)

theorem read_add_self (s : Store) (p : Parcel) : (s.add p).2.read (s.add p).1 = p := by
  simp [add, read]

theorem read_add_of_lt (s : Store) (p : Parcel) {h : Handle} (lt : h < s.cells.size) :
    (s.add p).2.read h = s.read h := by
  simp [add, read, Array.getElem?_push, Nat.ne_of_lt lt]

theorem read_write_self (s : Store) (p : Parcel) {h : Handle} (lt : h < s.cells.size) :
    (s.write h p).read h = p := by
  simp [write, read, lt]

theorem read_write_of_ne (s : Store) (p : Parcel) {h other : Handle} (ne : h ≠ other) :
    (s.write h p).read other = s.read other := by
  simp [write, read, ne]

end Store

end Sluice
