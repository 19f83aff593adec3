import Mathlib.Algebra.Ring.Int.Defs
import Mathlib.Algebra.Ring.Nat
import OranNs3.Lib.Run

/-!
# Byte tags

A packet keeps the tags of its bytes in a `ByteTagList` (`src/src/network/model/byte-tag-list.cc`):
records of a tag and the range of its bytes in an area that copies of the list share, and an
adjustment that is added to all ranges. When bytes are put in front of a packet or behind it, the
ranges that hang out there are cut, and the records are written again. Of the buffer of a packet
only the size matters here.

An area is the list of its records, and its offsets are the sizes of these. Offsets of bytes are
`int32_t` (`int32`). A pointer to nothing and a failed assertion are `none`. What the tags are for
is stated at the end (`taggedBytes`).
-/

namespace OranNs3.Network

/-- What does not fit in an `int32_t` is reduced modulo `2 ^ 32`. -/
def int32 (n : Int) : Int := n.bmod (2 ^ 32)

/-- A tag: the identifier of its type, and what its `Serialize` writes. -/
structure ByteTag where
  tid : Nat
  data : List UInt8
deriving DecidableEq

/-- A tag and the offsets of the first byte of its range and of the one behind it. -/
structure TagRecord where
  tag : ByteTag
  start : Int
  end_ : Int
deriving DecidableEq

/-- The bytes of a record in the area. -/
def TagRecord.size (r : TagRecord) : Nat := r.tag.data.length + 4 + 4 + 4 + 4

/-- `ByteTagListData`. -/
structure ByteTagListData where
  size : Nat
  count : Nat
  dirty : Nat
  data : List TagRecord

/-- The areas, the next address, and the static members. -/
structure TagStore where
  blocks : Nat → Option ByteTagListData
  fresh : Nat
  freeList : List Nat
  maxSize : Nat

/-- `ByteTagList`. -/
structure ByteTagList where
  minStart : Int := 2 ^ 31 - 1
  maxEnd : Int := -2 ^ 31
  adjustment : Int := 0
  used : Nat := 0
  data : Option Nat := none

namespace TagStore

/-- No area yet. -/
def new : TagStore := ⟨fun _ => none, 0, [], 0⟩

variable (h : TagStore)

/-- A changed area. -/
def set (a : Nat) (d : ByteTagListData) : TagStore :=
  { h with blocks := Function.update h.blocks a (some d) }

/-- `delete[]`. -/
def delete (a : Nat) : TagStore := { h with blocks := Function.update h.blocks a none }

/-- `count++` behind a pointer, if there is an area. -/
def incCount : Option Nat → Option TagStore
  | none => some h
  | some a => (h.blocks a).map fun d => h.set a { d with count := d.count + 1 }

/-- The loop of `Allocate` over the free list, from its back. -/
def allocateFrom (size : Nat) : List Nat → TagStore → Option (TagStore × Nat)
  | [], h => some ({ h.set h.fresh ⟨size, 1, 0, []⟩ with fresh := h.fresh + 1, freeList := [] },
    h.fresh)
  | a :: rest, h => (h.blocks a).bind fun d =>
    if d.size ≥ size then some ({ h.set a { d with count := 1, dirty := 0 } with freeList := rest },
      a)
    else allocateFrom size rest (h.delete a)

def allocate (size : Nat) : Option (TagStore × Nat) := allocateFrom size h.freeList h

def deallocate : Option Nat → Option TagStore
  | none => some h
  | some a => (h.blocks a).map fun d =>
    let h := { h.set a { d with count := d.count - 1 } with maxSize := max h.maxSize d.size }
    if d.count - 1 = 0 then
      if h.freeList.length > 1000 ∨
        d.size < h.maxSize then h.delete a else { h with freeList := a :: h.freeList }
    else h

end TagStore

namespace ByteTagList

/-- The records in the first bytes of an area. -/
def readRecords : Nat → List TagRecord → List TagRecord
  | _, [] => []
  | used, r :: rs => if 0 < used then r :: readRecords (used - r.size) rs else []

variable (h : TagStore) (l : ByteTagList)

/-- The records of a list. -/
def records : List TagRecord :=
  match l.data with
  | none => []
  | some a => (h.blocks a).elim [] fun d => readRecords l.used d.data

/-- What an iterator from `Begin` on gives. -/
def begin_ (offsetStart offsetEnd : Int) : List TagRecord :=
  (l.records h).filterMap fun r =>
    let nextStart := int32 (r.start + l.adjustment)
    let nextEnd := int32 (r.end_ + l.adjustment)
    if nextStart ≥ offsetEnd ∨ nextEnd ≤ offsetStart then none
    else some ⟨r.tag, max nextStart offsetStart, min nextEnd offsetEnd⟩

def beginAll : List TagRecord := l.begin_ h 0 (2 ^ 31 - 1)

/-- The first part of `Add`: an area with the space that is needed, and the bytes used in it. -/
def reserve (spaceNeeded : Nat) : Option (TagStore × Nat × Nat) :=
  match l.data with
  | none => (h.allocate spaceNeeded).map fun r => (r.1, r.2, 0)
  | some a => (h.blocks a).bind fun d =>
    if d.size < spaceNeeded ∨ d.count ≠ 1 ∧ d.dirty ≠ l.used then
      (h.allocate spaceNeeded).bind fun r => (r.1.blocks r.2).bind fun newData =>
        ((r.1.set r.2 { newData with data := readRecords l.used d.data }).deallocate (some a)).map
          (·, r.2, l.used)
    else some (h, a, l.used)

/-- `Add`, with the serialization of the tag. -/
def add (tag : ByteTag) (start end_ : Int) : Option (TagStore × ByteTagList) :=
  let spaceNeeded := l.used + tag.data.length + 4 + 4 + 4 + 4
  (l.reserve h spaceNeeded).bind fun (h, a, used) => (h.blocks a).map fun d =>
    let start := int32 (start - l.adjustment)
    let end_ := int32 (end_ - l.adjustment)
    (h.set a { d with
      dirty := spaceNeeded, data := readRecords used d.data ++ [⟨tag, start, end_⟩] }, { l with
        minStart := if start < l.minStart then start else l.minStart
        maxEnd := if end_ > l.maxEnd then end_ else l.maxEnd
        used := spaceNeeded
        data := some a })

/-- The loops that add items to a list. -/
def addItems (h : TagStore) (l : ByteTagList) (items : List TagRecord) :
    Option (TagStore × ByteTagList) :=
  items.foldlM (fun st item => st.2.add st.1 item.tag item.start item.end_) (h, l)

/-- `Add` of another list. -/
def addAll (o : ByteTagList) : Option (TagStore × ByteTagList) := l.addItems h (o.beginAll h)

def adjust (adjustment : Int) : ByteTagList :=
  { l with adjustment := int32 (l.adjustment + adjustment) }

/-- The copy constructor. -/
def copy : Option (TagStore × ByteTagList) := (h.incCount l.data).map (·, l)

/-- `*this = list` at the end of the life of `list`. -/
def assign (list : ByteTagList) : Option (TagStore × ByteTagList) :=
  (h.deallocate l.data).bind fun h => (h.incCount list.data).bind fun h =>
    (h.deallocate list.data).map (·, list)

/-- The loops of `AddAtEnd` and `AddAtStart`: a new list of the items, cut. -/
def rebuild (cut : TagRecord → Option TagRecord) : Option (TagStore × ByteTagList) :=
  (addItems h {} ((l.beginAll h).filterMap cut)).bind fun r => l.assign r.1 r.2

def addAtEnd (appendOffset : Int) : Option (TagStore × ByteTagList) :=
  if l.maxEnd ≤ int32 (appendOffset - l.adjustment) then some (h, l)
  else l.rebuild h fun item =>
    if item.start ≥ appendOffset then none
    else some { item with end_ := if item.end_ > appendOffset then appendOffset else item.end_ }

def addAtStart (prependOffset : Int) : Option (TagStore × ByteTagList) :=
  if l.minStart ≥ int32 (prependOffset - l.adjustment) then some (h, l)
  else l.rebuild h fun item =>
    if item.end_ ≤ prependOffset then none
    else some { item with start := if item.start < prependOffset then prependOffset
      else item.start }

end ByteTagList

/-! ## Packets -/

/-- The size of the buffer of a packet, and its tags. -/
structure Packet where
  size : Nat
  byteTagList : ByteTagList

namespace Packet

variable (h : TagStore) (p : Packet) (size : Nat)

/-- A packet with other tags. -/
def withTags (r : TagStore × ByteTagList) : TagStore × Packet := (r.1, ⟨size, r.2⟩)

/-- `AddHeader` of a header of some size. -/
def addHeader : Option (TagStore × Packet) :=
  ((p.byteTagList.adjust (int32 size)).addAtStart h (int32 size)).map (withTags (p.size + size))

def removeAtStart : Packet := ⟨p.size - size, p.byteTagList.adjust (int32 (-size))⟩

/-- `RemoveHeader` of a header that read so many bytes. -/
def removeHeader (deserialized : Nat) : Packet := p.removeAtStart deserialized

def addPaddingAtEnd : Option (TagStore × Packet) :=
  (p.byteTagList.addAtEnd h (int32 p.size)).map (withTags (p.size + size))

/-- `AddTrailer` of a trailer of some size. -/
def addTrailer : Option (TagStore × Packet) := p.addPaddingAtEnd h size

def removeAtEnd : Packet := { p with size := p.size - size }

/-- `RemoveTrailer` of a trailer that read so many bytes. -/
def removeTrailer (deserialized : Nat) : Packet := p.removeAtEnd deserialized

def copy : Option (TagStore × Packet) := (p.byteTagList.copy h).map (withTags p.size)

/-- `CreateFragment`; the local copy of the list ends in the new packet. -/
def createFragment (start length : Nat) : Option (TagStore × Packet) :=
  if p.size ≥ start + length then
    (p.byteTagList.copy h).map fun r => (r.1, ⟨length, r.2.adjust (int32 (-start))⟩)
  else none

/-- The rest of `AddAtEnd` of a packet, after `AddAtEnd` of the list. -/
def append (o : Packet) : Option (TagStore × Packet) :=
  (o.byteTagList.copy h).bind fun r => (r.2.addAtStart r.1 0).bind fun r =>
    let copy := r.2.adjust (int32 p.size)
    (p.byteTagList.addAll r.1 copy).bind fun s =>
      (s.1.deallocate copy.data).map fun h => (h, ⟨p.size + o.size, s.2⟩)

def addByteTag (tag : ByteTag) : Option (TagStore × Packet) :=
  (p.byteTagList.add h tag 0 (int32 p.size)).map (withTags p.size)

/-- `AddByteTag` of a range. -/
def addByteTagRange (tag : ByteTag) (start end_ : Nat) : Option (TagStore × Packet) :=
  if end_ < start then none else (p.byteTagList.add h tag (int32 start) (int32 end_)).map
    (withTags p.size)

/-- What `GetByteTagIterator` gives. -/
def byteTags : List TagRecord := p.byteTagList.begin_ h 0 (int32 p.size)

end Packet

/-- What a program does with its packets; they are numbered from the oldest one that is left. -/
inductive PacketCall
  | create (size : Nat)
  | copy (i : Nat)
  | destroy (i : Nat)
  | createFragment (i start length : Nat)
  | addHeader (i size : Nat)
  | removeHeader (i deserialized : Nat)
  | addTrailer (i size : Nat)
  | removeTrailer (i deserialized : Nat)
  | addAtEnd (i j : Nat)
  | addPaddingAtEnd (i size : Nat)
  | removeAtStart (i size : Nat)
  | removeAtEnd (i size : Nat)
  | addByteTag (i : Nat) (tag : ByteTag)
  | addByteTagRange (i : Nat) (tag : ByteTag) (start end_ : Nat)
deriving DecidableEq

/-- The store and the packets of a program. -/
structure Packets where
  store : TagStore
  packets : List Packet

namespace Packets

/-- No packet yet. -/
def new : Packets := ⟨TagStore.new, []⟩

variable (w : Packets)

/-- A changed packet. -/
def put (i : Nat) (r : TagStore × Packet) : Packets := ⟨r.1, w.packets.set i r.2⟩

/-- A new packet. -/
def push (r : TagStore × Packet) : Packets := ⟨r.1, w.packets ++ [r.2]⟩

/-- One call. -/
def call : PacketCall → Option Packets
  | .create size => some (w.push (w.store, ⟨size, {}⟩))
  | .copy i => w.packets[i]?.bind fun p => (p.copy w.store).map w.push
  | .destroy i => w.packets[i]?.bind fun p =>
      (w.store.deallocate p.byteTagList.data).map fun h => ⟨h, w.packets.eraseIdx i⟩
  | .createFragment i start length => w.packets[i]?.bind fun p =>
      (p.createFragment w.store start length).map w.push
  | .addHeader i size => w.packets[i]?.bind fun p => (p.addHeader w.store size).map (w.put i)
  | .removeHeader i deserialized => w.packets[i]?.map fun p =>
    w.put i (w.store, p.removeHeader deserialized)
  | .addTrailer i size => w.packets[i]?.bind fun p => (p.addTrailer w.store size).map (w.put i)
  | .removeTrailer i deserialized => w.packets[i]?.map fun p =>
    w.put i (w.store, p.removeTrailer deserialized)
  -- a packet may be added to itself
  | .addAtEnd i j => w.packets[i]?.bind fun p =>
    (p.byteTagList.addAtEnd w.store (int32 p.size)).bind fun r =>
      let w := w.put i (Packet.withTags p.size r)
      w.packets[j]?.bind fun o => ((⟨p.size, r.2⟩ : Packet).append w.store o).map (w.put i)
  | .addPaddingAtEnd i size => w.packets[i]?.bind fun p =>
    (p.addPaddingAtEnd w.store size).map (w.put i)
  | .removeAtStart i size => w.packets[i]?.map fun p => w.put i (w.store, p.removeAtStart size)
  | .removeAtEnd i size => w.packets[i]?.map fun p => w.put i (w.store, p.removeAtEnd size)
  | .addByteTag i tag => w.packets[i]?.bind fun p => (p.addByteTag w.store tag).map (w.put i)
  | .addByteTagRange i tag start end_ => w.packets[i]?.bind fun p =>
      (p.addByteTagRange w.store tag start end_).map (w.put i)

end Packets

/-- A packet whose bytes carry the tags that were attached to them or to what they descend from. -/
abbrev TaggedBytes := List (List ByteTag)

/-- Bytes that no tag was attached to. -/
def untagged (n : Nat) : TaggedBytes := List.replicate n []

/-- A tag for the bytes at the positions that pass a test; the first position is 1. -/
def attach (tag : ByteTag) (at_ : Nat → Bool) (bytes : TaggedBytes) : TaggedBytes :=
  bytes.mapIdx fun k tags => if at_ (k + 1) then tags ++ [tag] else tags

/-- What the calls mean when every byte carries its tags: `AddByteTag` of a range is for the bytes
from the position `start` to the position `end`. -/
def taggedBytes (ms : List TaggedBytes) : PacketCall → Option (List TaggedBytes)
  | .create size => some (ms ++ [untagged size])
  | .copy i => ms[i]?.map fun m => ms ++ [m]
  | .destroy i => ms[i]?.map fun _ => ms.eraseIdx i
  | .createFragment i start length => ms[i]?.bind fun m =>
      if start + length ≤ m.length then some (ms ++ [(m.drop start).take length]) else none
  | .addHeader i size => ms[i]?.map fun m => ms.set i (untagged size ++ m)
  | .removeHeader i deserialized => ms[i]?.map fun m => ms.set i (m.drop deserialized)
  | .addTrailer i size => ms[i]?.map fun m => ms.set i (m ++ untagged size)
  | .removeTrailer i deserialized => ms[i]?.map fun m => ms.set i (m.take (m.length - deserialized))
  | .addAtEnd i j => ms[i]?.bind fun m => ms[j]?.map fun o => ms.set i (m ++ o)
  | .addPaddingAtEnd i size => ms[i]?.map fun m => ms.set i (m ++ untagged size)
  | .removeAtStart i size => ms[i]?.map fun m => ms.set i (m.drop size)
  | .removeAtEnd i size => ms[i]?.map fun m => ms.set i (m.take (m.length - size))
  | .addByteTag i tag => ms[i]?.map fun m => ms.set i (attach tag (fun _ => true) m)
  | .addByteTagRange i tag start end_ => ms[i]?.bind fun m =>
      if end_ < start then none else some (ms.set i (attach tag (fun k => start ≤ k && k ≤ end_) m))

end OranNs3.Network
