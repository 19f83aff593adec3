import OranNs3.Lib.Memory

/-!
# Packet buffers

A `Buffer` is a view of a byte array that it may share: two offsets for its bytes, and two for a
virtual area of zeros in the middle that the array does not hold
(`src/src/network/model/buffer.cc`). The array carries a reference count and the *dirty area*, the
offsets that its buffers have used; a buffer grows in place when it is alone on its array or lies at
the border of the dirty area, and gets a new array otherwise. Arrays without a buffer go to a free
list and are handed out again with the bytes they have.

The heap maps addresses to arrays. Fresh memory holds what `garbage` says. Offsets are natural
numbers; a failed assertion, or an access outside of an array, is `none`. What buffers are for is
stated at the end (`byteLists`).
-/

namespace OranNs3.Network

open Memory

/-- `Buffer::Data`. -/
structure Data where
  count : Nat
  size : Nat
  dirtyStart : Nat
  dirtyEnd : Nat
  data : Nat → UInt8

/-- The arrays, the next address, and the static members of `Buffer`: the free list with its last
element first (`none` when it is uninitialized), `g_maxSize` and `g_recommendedStart`. -/
structure Heap where
  mem : Nat → Data
  next : Nat
  freeList : Option (List Nat)
  maxSize : Nat
  recommendedStart : Nat

/-- `Buffer`; `last` is `m_end`. -/
structure Buffer where
  data : Nat
  maxZeroAreaStart : Nat
  zeroAreaStart : Nat
  zeroAreaEnd : Nat
  start : Nat
  last : Nat
deriving DecidableEq

namespace Heap

/-- The static members before the first buffer. -/
def new : Heap := ⟨fun _ => ⟨0, 0, 0, 0, fun _ => 0⟩, 0, none, 0, 0⟩

variable (garbage : Nat → Nat → UInt8) (h : Heap) (a : Nat)

/-- The heap with another array at an address. -/
def set (d : Data) : Heap := { h with mem := Function.update h.mem a d }

/-- The heap with another reference count. -/
def setCount (a count : Nat) : Heap := h.set a { h.mem a with count }

/-- `ALLOC_OVER_PROVISION`. -/
def allocOverProvision : Nat := 100

/-- `Allocate`; the callers set the dirty area. -/
def allocate (reqSize : Nat) : Heap × Nat :=
  let size := (if reqSize = 0 then 1 else reqSize) + allocOverProvision
  ({ h.set h.next ⟨1, size, 0, 0, garbage h.next⟩ with next := h.next + 1 }, h.next)

/-- The loop of `Create` over the free list; an array that is too small is deallocated. -/
def createFrom (dataSize : Nat) : Heap → List Nat → Heap × Nat
  | h, [] => { h with freeList := some [] }.allocate garbage dataSize
  | h, a :: l =>
    if dataSize ≤ (h.mem a).size then
      ({ h with freeList := some l }.setCount a 1, a)
    else createFrom dataSize { h with freeList := some l } l

def create (dataSize : Nat) : Heap × Nat := createFrom garbage dataSize h (h.freeList.getD [])

def recycle : Option Heap :=
  h.freeList.bind fun l =>
    if (h.mem a).count = 0 then
      let maxSize := max h.maxSize (h.mem a).size
      if (h.mem a).size < maxSize ∨ l.length > 1000 then some { h with maxSize }
      else some { h with maxSize, freeList := some (a :: l) }
    else none

/-- `m_count--`, and `Recycle` when nobody refers to the array any more. -/
def release : Option Heap :=
  let h' := h.setCount a ((h.mem a).count - 1)
  if (h'.mem a).count = 0 then h'.recycle a else some h'

/-- `m_count++`. -/
def addRef : Heap := h.setCount a ((h.mem a).count + 1)

/-- Read from an array. -/
def read (a p n : Nat) : Option (List UInt8) :=
  if p + n ≤ (h.mem a).size then some (slice (h.mem a).data p n) else none

/-- Store into an array. -/
def store (a p : Nat) (l : List UInt8) : Option Heap :=
  if p + l.length ≤ (h.mem a).size then
    some (h.set a { h.mem a with data := overwrite (h.mem a).data p l })
  else none

/-- `memcpy` of `n` bytes to one array from another; nothing is touched when there is nothing to
copy. -/
def memcpy (a p a' p' n : Nat) : Option Heap :=
  if n = 0 then some h else (h.read a' p' n).bind (h.store a p)

def memset (a p : Nat) (v : UInt8) (n : Nat) : Option Heap :=
  if n = 0 then some h else h.store a p (List.replicate n v)

/-- The heap with another dirty area. -/
def setDirty (a dirtyStart dirtyEnd : Nat) : Heap :=
  h.set a { h.mem a with dirtyStart, dirtyEnd }

/-- `g_recommendedStart` takes a new zero area into account. -/
def recommend (start : Nat) : Heap := { h with recommendedStart := max h.recommendedStart start }

end Heap

/-- `Buffer::Iterator`. -/
structure Iterator where
  zeroStart : Nat
  zeroEnd : Nat
  dataStart : Nat
  dataEnd : Nat
  current : Nat
  data : Nat

namespace Iterator

variable (it : Iterator) (h : Heap)

def prev (delta : Nat) : Option Iterator :=
  if delta ≤ it.current then some { it with current := it.current - delta } else none

def next (delta : Nat) : Option Iterator :=
  if it.current + delta ≤ it.dataEnd then some { it with current := it.current + delta } else none

def CheckNoZero (start stop : Nat) : Prop :=
  ¬ (start < it.dataStart ∨ it.dataEnd < stop ∨
    (it.zeroStart < stop ∧ start < it.zeroEnd ∧ it.zeroEnd ≠ it.zeroStart ∧ start ≠ stop))
deriving Decidable

/-- `Check`; it admits the position after the last byte. -/
def Check (i : Nat) : Prop := it.dataStart ≤ i ∧ ¬ (it.zeroStart ≤ i ∧ i < it.zeroEnd) ∧
    i ≤ it.dataEnd
deriving Decidable

/-- Where a write at the current position goes. -/
def target : Nat :=
  if it.current ≤ it.zeroStart then it.current else it.current - (it.zeroEnd - it.zeroStart)

/-- `Write`; the assertion has the size in the place of the end. -/
def write (buffer : List UInt8) : Option Heap :=
  if it.CheckNoZero it.current buffer.length then h.store it.data it.target buffer else none

/-- `WriteU8` with a number of times. -/
def writeU8 (data : UInt8) (len : Nat) : Option Heap :=
  if it.CheckNoZero it.current (it.current + len) then h.store it.data it.target
    (List.replicate len data)
  else none

/-- `WriteU8`. -/
def writeByte (data : UInt8) : Option Heap :=
  if it.Check it.current then
    let p := if it.current < it.zeroStart then it.current else it.current -
      (it.zeroEnd - it.zeroStart)
    h.store it.data p [data]
  else none

/-- Where `WriteHtonU16` and `WriteHtonU32` put their `n` bytes. -/
def targetOf (n : Nat) : Nat :=
  if it.current + n ≤ it.zeroStart then it.current else it.current - (it.zeroEnd - it.zeroStart)

/-- The bytes that `WriteHtonU16` stores. -/
def htonU16 (data : UInt16) : List UInt8 := [(data >>> 8).toUInt8, data.toUInt8]

/-- The bytes that `WriteHtonU32` stores. -/
def htonU32 (data : UInt32) : List UInt8 :=
  [(data >>> 24).toUInt8, (data >>> 16).toUInt8, (data >>> 8).toUInt8, data.toUInt8]

def writeHtonU16 (data : UInt16) : Option Heap :=
  if it.CheckNoZero it.current (it.current + 2) then h.store it.data (it.targetOf 2) (htonU16 data)
    else none

def writeHtonU32 (data : UInt32) : Option Heap :=
  if it.CheckNoZero it.current (it.current + 4) then h.store it.data (it.targetOf 4) (htonU32 data)
    else none

/-- The assertions of `Write` for a range. -/
def CanWriteRange (start stop : Iterator) : Prop :=
  start.data = stop.data ∧ start.current ≤ stop.current ∧ start.zeroStart = stop.zeroStart ∧
    start.zeroEnd = stop.zeroEnd ∧ it.data ≠ start.data ∧
      it.CheckNoZero it.current (it.current + (stop.current - start.current))
deriving Decidable

/-- `Write` for a range: the bytes before its zero area, the zeros, and the bytes after it. The
position is not translated into an offset of the array. -/
def writeRange (start stop : Iterator) : Option Heap :=
  if it.CanWriteRange start stop then
    let size := stop.current - start.current
    let front := if start.current ≤ start.zeroStart then min size (start.zeroStart - start.current)
      else 0
    (h.memcpy it.data it.current start.data start.current front).bind fun h =>
      let current := start.current + front
      let size := size - front
      let zeroes := if current ≤ start.zeroEnd then min size (start.zeroEnd - current) else 0
      (h.memset it.data (it.current + front) 0 zeroes).bind fun h =>
        let current := current + zeroes
        let back := min (size - zeroes) (start.dataEnd - current)
        h.memcpy it.data (it.current + front + zeroes) start.data
          (current - (start.zeroEnd - start.zeroStart)) back
  else none

end Iterator

namespace Buffer

variable (garbage : Nat → Nat → UInt8) (h : Heap) (b : Buffer)

/-- `GetSize`. -/
def size : Nat := b.last - b.start

/-- `GetInternalSize`. -/
def internalSize : Nat := b.zeroAreaStart - b.start + (b.last - b.zeroAreaEnd)

/-- `GetInternalEnd`. -/
def internalEnd : Nat := b.last - (b.zeroAreaEnd - b.zeroAreaStart)

/-- An iterator at a position. -/
def iterator (current : Nat) : Iterator :=
  ⟨b.zeroAreaStart, b.zeroAreaEnd, b.start, b.last, current, b.data⟩

def begin : Iterator := ⟨b.zeroAreaStart, b.zeroAreaEnd, b.start, b.last, b.start, b.data⟩

/-- `End`. -/
def endIterator : Iterator := ⟨b.zeroAreaStart, b.zeroAreaEnd, b.start, b.last, b.last, b.data⟩

/-- `Initialize`, the constructor. -/
def construct (zeroSize : Nat) : Heap × Buffer :=
  let (h', a) := h.create garbage 0
  let start := min (h'.mem a).size h'.recommendedStart
  (h'.setDirty a start (start + zeroSize), ⟨a, start, start, start + zeroSize, start,
    start + zeroSize⟩)

/-- The copy constructor. -/
def copy : Heap × Buffer := (h.addRef b.data, { b with maxZeroAreaStart := b.zeroAreaStart })

variable (o : Buffer)

/-- `operator=`. -/
def assign : Option (Heap × Buffer) :=
  let shared := if b.data = o.data then some h else (h.release b.data).map (·.addRef o.data)
  shared.map fun h' => (h'.recommend b.maxZeroAreaStart, o)

/-- The destructor. -/
def destroy : Option Heap := (h.recommend b.maxZeroAreaStart).release b.data

/-- `m_maxZeroAreaStart` keeps the largest `m_zeroAreaStart`. -/
def track : Buffer := { b with maxZeroAreaStart := max b.maxZeroAreaStart b.zeroAreaStart }

/-- A buffer whose bytes moved to the offset `offset` of the array `a`: all offsets by the same
distance. -/
def moved (a offset : Nat) : Buffer :=
  { b with
    data := a
    start := offset
    zeroAreaStart := b.zeroAreaStart - b.start + offset
    zeroAreaEnd := b.zeroAreaEnd - b.start + offset
    last := b.last - b.start + offset }

/-- A new array in `AddAtStart` and `AddAtEnd`: the bytes move to the offset `offset`, and the array
has room for `extra` more. -/
def reallocate (offset extra : Nat) : Option (Heap × Buffer) :=
  let (h', a) := h.create garbage (b.internalSize + extra)
  (h'.read b.data b.start b.internalSize).bind fun bytes =>
    (h'.store a offset bytes).bind fun h' =>
      (h'.release b.data).map fun h' => (h', b.moved a offset)

def addAtStart (start : Nat) : Option (Heap × Buffer) :=
  let d := h.mem b.data
  let isDirty := d.count > 1 ∧ b.start > d.dirtyStart
  if b.start ≥ start ∧ ¬ isDirty then
    if d.count = 1 ∨ b.start = d.dirtyStart then
      let b' := { b with start := b.start - start }
      some (h.setDirty b.data b'.start d.dirtyEnd, b'.track)
    else none
  else
    (b.reallocate garbage h start start).map fun r =>
      let b' := { r.2 with start := r.2.start - start }
      (r.1.setDirty b'.data b'.start b'.last, b'.track)

def addAtEnd (last : Nat) : Option (Heap × Buffer) :=
  let d := h.mem b.data
  let isDirty := d.count > 1 ∧ b.last < d.dirtyEnd
  if b.internalEnd + last ≤ d.size ∧ ¬ isDirty then
    if d.count = 1 ∨ b.last = d.dirtyEnd then
      let b' := { b with last := b.last + last }
      some (h.setDirty b.data d.dirtyStart b'.last, b'.track)
    else none
  else
    (b.reallocate garbage h 0 last).map fun r =>
      let b' := { r.2 with last := r.2.last + last }
      (r.1.setDirty b'.data b'.start b'.last, b'.track)

def removeAtStart (start : Nat) : Buffer :=
  let newStart := b.start + start
  if newStart ≤ b.zeroAreaStart then { b with start := newStart }.track
  else if newStart ≤ b.zeroAreaEnd then
    let delta := newStart - b.zeroAreaStart
    { b with
      start := b.zeroAreaStart
      zeroAreaEnd := b.zeroAreaEnd - delta
      last := b.last - delta }.track
  else if newStart ≤ b.last then
    let zeroSize := b.zeroAreaEnd - b.zeroAreaStart
    { b with
      start := newStart - zeroSize
      last := b.last - zeroSize
      zeroAreaStart := newStart - zeroSize
      zeroAreaEnd := newStart - zeroSize }.track
  else
    let last := b.last - (b.zeroAreaEnd - b.zeroAreaStart)
    { b with last, start := last, zeroAreaEnd := last, zeroAreaStart := last }.track

def removeAtEnd (last : Nat) : Buffer :=
  let newEnd := b.last - min last (b.last - b.start)
  if newEnd > b.zeroAreaEnd then { b with last := newEnd }.track
  else if newEnd > b.zeroAreaStart then { b with last := newEnd, zeroAreaEnd := newEnd }.track
  else if newEnd > b.start then
    { b with last := newEnd, zeroAreaEnd := newEnd, zeroAreaStart := newEnd }.track
  else { b with last := b.start, zeroAreaEnd := b.start, zeroAreaStart := b.start }.track

def createFragment (start length : Nat) : Heap × Buffer :=
  let (h', tmp) := b.copy h
  (h', (tmp.removeAtStart start).removeAtEnd (b.size - (start + length)))

/-- `AddAtStart`, then the new bytes from `Begin` on. -/
def prepend (bytes : List UInt8) : Option (Heap × Buffer) :=
  (b.addAtStart garbage h bytes.length).bind fun r => (r.2.begin.write r.1 bytes).map (·, r.2)

/-- `AddAtEnd`, then the new bytes up to `End`. -/
def append (bytes : List UInt8) : Option (Heap × Buffer) :=
  (b.addAtEnd garbage h bytes.length).bind fun r =>
    (r.2.endIterator.prev bytes.length).bind fun it => (it.write r.1 bytes).map (·, r.2)

def createFullCopy : Option (Heap × Buffer) :=
  if b.zeroAreaEnd - b.zeroAreaStart ≠ 0 then
    let tmp := construct garbage h 0
    (tmp.2.addAtStart garbage tmp.1 (b.zeroAreaEnd - b.zeroAreaStart)).bind fun tmp =>
      (tmp.2.begin.writeU8 tmp.1 0 (b.zeroAreaEnd - b.zeroAreaStart)).bind fun h' =>
        (h'.read b.data b.start (b.zeroAreaStart - b.start)).bind fun bytes =>
          (tmp.2.prepend garbage h' bytes).bind fun tmp =>
            (tmp.1.read b.data b.zeroAreaStart (b.last - b.zeroAreaEnd)).bind fun bytes =>
              tmp.2.append garbage tmp.1 bytes
  else some (b.copy h)

def transformIntoRealBuffer : Option (Heap × Buffer) :=
  (b.createFullCopy garbage h).bind fun tmp =>
    (b.assign tmp.1 tmp.2).bind fun r => (tmp.2.destroy r.1).map (·, r.2)

/-- When `AddAtEnd` of a buffer joins the two zero areas. -/
def JoinsZeroes : Prop :=
  (h.mem b.data).count = 1 ∧ (b.last = b.zeroAreaEnd ∨ b.zeroAreaStart = b.zeroAreaEnd) ∧
    b.last = (h.mem b.data).dirtyEnd ∧ o.start = o.zeroAreaStart ∧
    o.zeroAreaEnd - o.zeroAreaStart > 0
deriving Decidable

/-- `AddAtEnd` of a buffer when the two zero areas are joined, before the bytes of the other one
that follow its zero area. -/
def joinZeroes : Heap × Buffer :=
  let last := b.last + (o.zeroAreaEnd - o.zeroAreaStart)
  let zeroAreaStart := if b.zeroAreaStart = b.zeroAreaEnd then b.last else b.zeroAreaStart
  (h.setDirty b.data (h.mem b.data).dirtyStart last,
    { b with zeroAreaStart, zeroAreaEnd := last, last })

/-- `AddAtEnd` of another buffer. -/
def addAtEndBuffer : Option (Heap × Buffer) :=
  if b.JoinsZeroes h o then
    let (h, b) := b.joinZeroes h o
    let endData := o.last - o.zeroAreaEnd
    (b.addAtEnd garbage h endData).bind fun r =>
      (r.2.endIterator.prev endData).bind fun dst => (o.endIterator.prev endData).bind fun src =>
        (dst.writeRange r.1 src o.endIterator).map (·, r.2)
  else
    (b.transformIntoRealBuffer garbage h).bind fun r =>
      (r.2.addAtEnd garbage r.1 o.size).bind fun r =>
        (r.2.endIterator.prev o.size).bind fun destStart =>
          (destStart.writeRange r.1 o.begin o.endIterator).map (·, r.2)

/-- `PeekData`, with the bytes that the pointer gives for the size of the buffer. -/
def peekData : Option (Heap × Buffer × List UInt8) :=
  (b.transformIntoRealBuffer garbage h).bind fun r =>
    (r.1.read r.2.data r.2.start r.2.size).map (r.1, r.2, ·)

/-- The loop that copies from `g_zeroes`. -/
def copyZeroes (left : Nat) : List UInt8 :=
  if 0 < left then
    let toWrite := min left 1000
    List.replicate toWrite 0 ++ copyZeroes (left - toWrite)
  else []

/-- `CopyData` into a buffer. -/
def copyData (size : Nat) : Option (List UInt8) :=
  if size > 0 then
    let front := min (b.zeroAreaStart - b.start) size
    (h.read b.data b.start front).bind fun bytes =>
      let size := size - front
      if size > 0 then
        let zeroes := min (b.zeroAreaEnd - b.zeroAreaStart) size
        let size := size - zeroes
        if size > 0 then
          (h.read b.data b.zeroAreaStart (min (b.last - b.zeroAreaEnd) size)).map fun back =>
            bytes ++ copyZeroes zeroes ++ back
        else some (bytes ++ copyZeroes zeroes)
      else some bytes
  else some []

/-- `CopyData` to a stream. -/
def copyDataStream (size : Nat) : Option (List UInt8) :=
  if size > 0 then
    let front := min (b.zeroAreaStart - b.start) size
    (h.read b.data b.start front).bind fun bytes =>
      if size > front then
        let size := size - (b.zeroAreaStart - b.start)
        let zeroes := min (b.zeroAreaEnd - b.zeroAreaStart) size
        if size > zeroes then
          let size := size - zeroes
          (h.read b.data b.zeroAreaStart (min (b.last - b.zeroAreaEnd) size)).map fun back =>
            bytes ++ copyZeroes zeroes ++ back
        else some (bytes ++ copyZeroes zeroes)
      else some bytes
  else some []

end Buffer

/-- What a program does with its buffers; they are numbered from the oldest one that is left. -/
inductive BufferCall
  | construct (zeroSize : Nat)
  | copy (i : Nat)
  | assign (i j : Nat)
  | createFragment (i start length : Nat)
  | destroy (i : Nat)
  | prepend (i : Nat) (bytes : List UInt8)
  | append (i : Nat) (bytes : List UInt8)
  | removeAtStart (i n : Nat)
  | removeAtEnd (i n : Nat)
  | copyData (i size : Nat)
  | copyDataStream (i size : Nat)
  | peekData (i : Nat)
deriving DecidableEq

/-- The heap and the buffers of a program. -/
structure Buffers where
  heap : Heap
  bufs : List Buffer

namespace Buffers

/-- No buffer yet. -/
def new : Buffers := ⟨Heap.new, []⟩

variable (garbage : Nat → Nat → UInt8) (w : Buffers)

/-- A new buffer. -/
def push (r : Heap × Buffer) : Buffers := ⟨r.1, w.bufs ++ [r.2]⟩

/-- A changed buffer. -/
def put (i : Nat) (r : Heap × Buffer) : Buffers := ⟨r.1, w.bufs.set i r.2⟩

/-- One call, with the bytes it returns; it fails on a number that is not there. -/
def call : BufferCall → Option (Buffers × List UInt8)
  | .construct zeroSize => some (w.push (Buffer.construct garbage w.heap zeroSize), [])
  | .copy i => w.bufs[i]?.map fun b => (w.push (b.copy w.heap), [])
  | .assign i j => w.bufs[i]?.bind fun b => w.bufs[j]?.bind fun o =>
      (b.assign w.heap o).map fun r => (w.put i r, [])
  | .createFragment i start length =>
    w.bufs[i]?.map fun b => (w.push (b.createFragment w.heap start length), [])
  | .destroy i => w.bufs[i]?.bind fun b => (b.destroy w.heap).map fun h =>
    (⟨h, w.bufs.eraseIdx i⟩, [])
  | .prepend i bytes => w.bufs[i]?.bind fun b => (b.prepend garbage w.heap bytes).map fun r =>
    (w.put i r, [])
  | .append i bytes => w.bufs[i]?.bind fun b => (b.append garbage w.heap bytes).map fun r =>
    (w.put i r, [])
  | .removeAtStart i n => w.bufs[i]?.map fun b => (w.put i (w.heap, b.removeAtStart n), [])
  | .removeAtEnd i n => w.bufs[i]?.map fun b => (w.put i (w.heap, b.removeAtEnd n), [])
  | .copyData i size => w.bufs[i]?.bind fun b => (b.copyData w.heap size).map fun bytes =>
    (w, bytes)
  | .copyDataStream i size =>
    w.bufs[i]?.bind fun b => (b.copyDataStream w.heap size).map fun bytes => (w, bytes)
  | .peekData i => w.bufs[i]?.bind fun b =>
      (b.peekData garbage w.heap).map fun r => (w.put i (r.1, r.2.1), r.2.2)

end Buffers

/-- What the calls mean when every buffer is a list of bytes of its own. -/
def byteLists (ls : List (List UInt8)) : BufferCall → Option (List (List UInt8) × List UInt8)
  | .construct zeroSize => some (ls ++ [List.replicate zeroSize 0], [])
  | .copy i => ls[i]?.map fun l => (ls ++ [l], [])
  | .assign i j => ls[i]?.bind fun _ => ls[j]?.map fun l => (ls.set i l, [])
  | .createFragment i start length => ls[i]?.bind fun l =>
      if start + length ≤ l.length then some (ls ++ [(l.drop start).take length], []) else none
  | .destroy i => ls[i]?.map fun _ => (ls.eraseIdx i, [])
  | .prepend i bytes => ls[i]?.map fun l => (ls.set i (bytes ++ l), [])
  | .append i bytes => ls[i]?.map fun l => (ls.set i (l ++ bytes), [])
  | .removeAtStart i n => ls[i]?.map fun l => (ls.set i (l.drop n), [])
  | .removeAtEnd i n => ls[i]?.map fun l => (ls.set i (l.take (l.length - n)), [])
  | .copyData i size => ls[i]?.map fun l => (ls, l.take size)
  | .copyDataStream i size => ls[i]?.map fun l => (ls, l.take size)
  | .peekData i => ls[i]?.map fun l => (ls, l)

end OranNs3.Network
