import Mathlib.Tactic.Ring
import OranNs3.Lib.Run
import OranNs3.Tcp.SequenceNumber

/-!
# The TCP receive buffer

`src/src/internet/model/tcp-rx-buffer.cc`. The received segments are kept in a map by their first
sequence numbers, in serial order; `Add` trims a segment to the window and to what is not there yet,
stores it, and moves `m_nextRxSeq` over what follows without a gap. `Extract` takes bytes from the
front. Where the source asserts, or reads the first element of an empty map, the model has no
result.

A `World` is a buffer that receives segments of one stream, with the bytes that were extracted and
the stretches that were offered to it.
-/

namespace OranNs3.Tcp

open SequenceNumber32

abbrev SackBlock := Nat × Nat

/-- `TcpRxBuffer`. -/
structure RxBuffer where
  nextRxSeq : Nat
  finSeq : Nat
  gotFin : Bool
  size : Nat
  maxBuffer : Nat
  availBytes : Nat
  data : List (Nat × List UInt8)
  sackList : List SackBlock
  deriving DecidableEq

namespace RxBuffer

/-- The constructor, and `SetMaxBufferSize`. -/
def new (n maxBuffer : Nat) : RxBuffer := ⟨n, 0, false, 0, maxBuffer, 0, [], []⟩

variable (b : RxBuffer)

def maxRxSequence : Nat :=
  if b.gotFin then b.finSeq
  else
    match b.data with
    | (k, _) :: _ => if Gt b.nextRxSeq k then add k b.maxBuffer else add b.nextRxSeq b.maxBuffer
    | [] => add b.nextRxSeq b.maxBuffer

def setFinSequence (s : Nat) : RxBuffer :=
  { b with gotFin := true, finSeq := s, nextRxSeq := if b.nextRxSeq = s then add b.nextRxSeq 1
    else b.nextRxSeq }

/-- `m_data[k] = p`. -/
def setData (k : Nat) (p : List UInt8) : List (Nat × List UInt8) → List (Nat × List UInt8)
  | [] => [(k, p)]
  | (k', p') :: rest =>
    if Lt k k' then (k, p) :: (k', p') :: rest
    else if Lt k' k then (k', p') :: setData k p rest
    else (k', p) :: rest

/-- The head and the tail of a segment, trimmed to fit the window. -/
def trimToWindow (headSeq tailSeq : Nat) : Nat × Nat :=
  let headSeq := if Lt headSeq b.nextRxSeq then b.nextRxSeq else headSeq
  match b.data with
  | [] => (headSeq, tailSeq)
  | (k, _) :: _ =>
    let maxSeq := add k b.maxBuffer
    let tailSeq := if Lt maxSeq tailSeq then maxSeq else tailSeq
    (if Lt tailSeq headSeq then tailSeq else headSeq, tailSeq)

/-- The loop that removes overlapped bytes: what is kept, the head and the tail, and `m_size`. -/
def removeOverlap : List (Nat × List UInt8) → Nat → Nat → Nat →
    List (Nat × List UInt8) × Nat × Nat × Nat
  | [], headSeq, tailSeq, size => ([], headSeq, tailSeq, size)
  | (k, p) :: rest, headSeq, tailSeq, size =>
    if Le k tailSeq then
      let lastByteSeq := add k p.length
      if Gt lastByteSeq headSeq then
        if Gt k headSeq ∧ Lt lastByteSeq tailSeq then removeOverlap rest headSeq tailSeq
          (size - p.length)
        else
          let r := removeOverlap rest (if Le k headSeq then lastByteSeq else headSeq)
            (if Ge lastByteSeq tailSeq then k else tailSeq) size
          ((k, p) :: r.1, r.2)
      else
        let r := removeOverlap rest headSeq tailSeq size
        ((k, p) :: r.1, r.2)
    else ((k, p) :: rest, headSeq, tailSeq, size)

/-- The loop of `UpdateSackList`, at the block after `pre`; it starts again after a merge. -/
def mergeSack (begin : SackBlock) (pre : List SackBlock) : List SackBlock → Option (List SackBlock)
  | [] => some (begin :: pre)
  | current :: post =>
    if begin.1 = current.2 then
      if Lt current.1 begin.2 then mergeSack (current.1, begin.2) [] (pre ++ post) else none
    else if begin.2 = current.1 then
      if Lt begin.1 current.2 then mergeSack (begin.1, current.2) [] (pre ++ post) else none
    else mergeSack begin (pre ++ [current]) post
  termination_by post => (pre.length + post.length) * (pre.length + post.length + 1) + post.length
  decreasing_by
    all_goals
      simp only [List.length_append, List.length_cons, List.length_nil]
      ring_nf
      omega

def updateSackList (head tail : Nat) : Option RxBuffer :=
  if Gt head b.nextRxSeq then
    (mergeSack (head, tail) [] b.sackList).map fun l =>
      { b with sackList := if l.length > 4 then l.dropLast else l }
  else none

def clearSackList (seq : Nat) (l : List SackBlock) : Option (List SackBlock) :=
  if ∀ block ∈ l, Lt block.1 block.2 then some (l.filter fun block => ¬ Le block.2 seq) else none

/-- The loop that moves `m_nextRxSeq` over what is stored. -/
def advance : List (Nat × List UInt8) → RxBuffer → Option RxBuffer
  | [], b => some b
  | (k, p) :: rest, b =>
    if Lt k b.nextRxSeq then advance rest b
    else if Gt k b.nextRxSeq then some b
    else
      (clearSackList (add k p.length) b.sackList).bind fun l =>
        advance rest { b with
          nextRxSeq := add k p.length, availBytes := b.availBytes + p.length, sackList := l }

/-- The part of `Add` that stores the bytes from `headSeq` up to `tailSeq`. -/
def store (headSeq tailSeq : Nat) (p : List UInt8) : Option RxBuffer :=
  if ∀ e ∈ b.data, Lt headSeq e.1 ∨ Lt e.1 headSeq then
    let b := { b with data := setData headSeq p b.data }
    (if Gt headSeq b.nextRxSeq then b.updateSackList headSeq tailSeq else some b).bind fun b =>
      (advance b.data { b with size := b.size + p.length }).map fun b =>
        if b.gotFin ∧ b.nextRxSeq = b.finSeq then { b with nextRxSeq := add b.nextRxSeq 1 } else b
  else none

def add (p : List UInt8) (seq : Nat) : Option (RxBuffer × Bool) :=
  let w := b.trimToWindow seq (SequenceNumber32.add seq p.length)
  let (data, headSeq, tailSeq, size) := removeOverlap b.data w.1 w.2 b.size
  let b := { b with data, size }
  if Ge headSeq tailSeq then some (b, false)
  else
    (createFragment p (toUint32 (sub headSeq seq)) (toUint32 (sub tailSeq headSeq))).bind fun p =>
      (b.store headSeq tailSeq p).map fun b => (b, true)

/-- The loop of `Extract`, over what is stored: the rest, and the bytes for the packet. -/
def extractLoop (nextRxSeq : Nat) : List (Nat × List UInt8) → Nat →
    Option (List (Nat × List UInt8) × List UInt8)
  | data, 0 => some (data, [])
  | [], _ + 1 => none
  | (k, p) :: rest, extractSize@(_ + 1) =>
    if Le k nextRxSeq then
      if p.length ≤ extractSize then
        (extractLoop nextRxSeq rest (extractSize - p.length)).map fun r => (r.1, p ++ r.2)
      else
        some ((setData (SequenceNumber32.add k extractSize) (p.drop extractSize)
          ((k, p) :: rest)).eraseP (·.1 = k), p.take extractSize)
    else none

/-- `Extract`; `none` in the result is the null pointer. -/
def extract (maxSize : Nat) : Option (RxBuffer × Option (List UInt8)) :=
  let extractSize := min maxSize b.availBytes
  if extractSize = 0 then some (b, none)
  else
    (extractLoop b.nextRxSeq b.data extractSize).map fun (data, outPkt) =>
      ({ b with data, size := b.size - extractSize, availBytes := b.availBytes - extractSize },
        if outPkt.length = 0 then none else some outPkt)

end RxBuffer

/-! ## Receiving a stream -/

/-- A receive buffer, the bytes extracted from it, and the stretches offered to it, as far as its
window goes. -/
structure World where
  rx : RxBuffer
  extracted : List UInt8
  offered : List (Nat × Nat)
  deriving DecidableEq

/-- A call: `Add` with the `n` bytes from `k` on, `SetFinSequence` with the end of the stream,
`Extract`. -/
inductive RxCall where
  | add (k n : Nat)
  | setFinSequence
  | extract (maxSize : Nat)
  deriving DecidableEq

/-- The distance from one number to a later one. -/
def distance (v v' : Nat) : Nat := (v' + 2 ^ 32 - v) % 2 ^ 32

namespace World

variable (isn : Nat) (stream : List UInt8)

/-- A buffer that waits for the first byte. -/
def new (maxBuffer : Nat) : World := ⟨.new (seq isn 0) maxBuffer, [], []⟩

variable (w : World)

/-- The position that a number of the buffer stands for: it is not before the first byte that was
not extracted. -/
def position (v : Nat) : Nat :=
  w.extracted.length + distance (seq isn w.extracted.length) v

/-- Where the window ends for new segments, when there is something in the buffer. -/
def windowEnd : Option Nat :=
  w.rx.data.head?.map fun e => w.position isn e.1 + w.rx.maxBuffer

/-- The numbers of a buffer, as positions: the next one, the ends of what is stored, and the FIN. -/
def marks : List Nat :=
  w.position isn w.rx.nextRxSeq ::
    (w.rx.data.flatMap fun e => [w.position isn e.1, w.position isn e.1 + e.2.length]) ++
    if w.rx.gotFin then [w.position isn w.rx.finSeq, w.position isn w.rx.finSeq + 1] else []

/-- One call; without a result where the buffer asserts. -/
def call? : RxCall → Option World
  | .add k n =>
    (w.rx.add (slice stream (k, k + n)) (seq isn k)).map fun (rx, _) =>
      { w with rx, offered := (k, (w.windowEnd isn).elim (k + n) (min (k + n))) :: w.offered }
  | .setFinSequence => some { w with rx := w.rx.setFinSequence (seq isn stream.length) }
  | .extract maxSize =>
    (w.rx.extract maxSize).map fun (rx, outPkt) =>
      { w with rx, extracted := w.extracted ++ outPkt.getD [] }

def Step (c : RxCall) (w' : World) : Prop := w.call? isn stream c = some w'

/-- Positions within half the sequence space of each other. -/
def Near (l : List Nat) : Prop := ∀ a ∈ l, ∀ b ∈ l, a < b + 2 ^ 31
deriving Decidable

/-- What a call brings is of the stream, and within half the sequence space of what the buffer has.
-/
def Admitted : RxCall → Prop
  | .add k n => k + n ≤ stream.length ∧ Near (k :: (k + n) :: w.marks isn)
  | .setFinSequence => Near (stream.length :: (stream.length + 1) :: w.marks isn)
  | .extract _ => True

/-- The comparison of the end of the window with the end of a segment is the one of their positions.
-/
def WindowCompares : RxCall → Prop
  | .add k n => ∀ e ∈ w.windowEnd isn, (Lt (seq isn e) (seq isn (k + n)) ↔ e < k + n)
  | _ => True

instance : DecidablePred (w.Admitted isn stream)
  | .add _ _ => inferInstanceAs (Decidable (_ ∧ _))
  | .setFinSequence => inferInstanceAs (Decidable (Near _))
  | .extract _ => inferInstanceAs (Decidable True)

instance : DecidablePred (w.WindowCompares isn)
  | .add _ _ => inferInstanceAs (Decidable (∀ _ ∈ _, _))
  | .setFinSequence | .extract _ => inferInstanceAs (Decidable True)

end World

end OranNs3.Tcp
