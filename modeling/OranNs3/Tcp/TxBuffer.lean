import OranNs3.Lib.Run
import OranNs3.Tcp.SequenceNumber

/-!
# The TCP transmit buffer

`src/src/internet/model/tcp-tx-buffer.cc`. Bytes of the application are packets in two lists,
`m_sentList` and `m_appList`; items of the first have a sequence number and the flags of the
scoreboard, whose bytes are counted in `m_sackedOut`, `m_lostOut` and `m_retrans`.

Items are values in lists; a list iterator tells them apart by their `id`, which only
`m_highestSack` uses. `GetPacketFromList` splits and merges items and calls itself until an item
fits, so the functions above it take the number of calls that are allowed: a call returns when some
number is enough (`TxBuffer.Step`). Where the source asserts, aborts, or uses a pointer to nothing,
there is no result.
-/

namespace OranNs3.Tcp

open SequenceNumber32

/-- `TcpTxItem`. -/
structure TxItem where
  id : Nat
  startSeq : Nat
  packet : List UInt8
  lost : Bool
  retrans : Bool
  lastSent : Nat
  sacked : Bool
  deriving DecidableEq

/-- The size of the packet of an item. -/
def TxItem.size (i : TxItem) : Nat := i.packet.length

/-- The default constructor, with a packet. -/
def TxItem.new (id : Nat) (packet : List UInt8) : TxItem :=
  ⟨id, 0, packet, false, false, 2 ^ 63 - 1, false⟩

/-- `TcpTxBuffer`; the first part of `highestSack` is the item its iterator is at, and `none` at the
end. -/
structure TxBuffer where
  appList : List TxItem
  sentList : List TxItem
  maxBuffer : Nat
  size : Nat
  sentSize : Nat
  firstByteSeq : Nat
  highestSack : Option Nat × Nat
  lostOut : Nat
  sackedOut : Nat
  retrans : Nat
  dupAckThresh : Nat
  sackEnabled : Bool
  nextId : Nat
  deriving DecidableEq

/-! ## Splitting and merging -/

/-- `SplitItems`, with the new item for the first bytes. -/
def splitItems (id : Nat) (t2 : TxItem) (size : Nat) : Option (TxItem × TxItem) :=
  (createFragment t2.packet 0 size).map fun p =>
    ({ t2 with id, packet := p }, { t2 with
      startSeq := add t2.startSeq size, packet := t2.packet.drop size })

/-- `MergeItems`: the merged item, and `m_retrans`. -/
def mergeItems (t1 t2 : TxItem) (retrans : Nat) : Option (TxItem × Nat) :=
  if t1.sacked = t2.sacked ∧ t1.lost = t2.lost then
    some ({ t1 with
        packet := t1.packet ++ t2.packet
        retrans := t1.retrans && t2.retrans
        lastSent := max t1.lastSent t2.lastSent },
      if t1.retrans = t2.retrans then retrans
      else if t1.retrans then retrans - t1.size
      else retrans - t2.size)
  else none

/-- What one call of `GetPacketFromList` leads to: an item with the list around it, or another call
with a new list. -/
inductive Pass where
  | found (pre : List TxItem) (item : TxItem) (post : List TxItem) (retrans nextId : Nat)
  | again (list : List TxItem) (retrans nextId : Nat)
  deriving DecidableEq

/-- The same, with an item before the list. -/
def Pass.cons (i : TxItem) : Pass → Pass
  | found pre item post retrans nextId => found (i :: pre) item post retrans nextId
  | again list retrans nextId => again (i :: list) retrans nextId

/-- One walk of `GetPacketFromList` along a list that begins at `beginOfCurrentPacket`; `first` is
given for the sent list, whose items are checked not to start before it. -/
def pass (first : Option Nat) (numBytes seq retrans nextId : Nat) : Nat → List TxItem → Option Pass
  | _, [] => none
  | beginOfCurrentPacket, currentItem :: rest =>
    if ∀ f ∈ first, Ge currentItem.startSeq f then
      if Lt seq (add beginOfCurrentPacket currentItem.size) then
        if seq = beginOfCurrentPacket then
          -- from here on `outItem` is the current item
          if Le (add seq numBytes) (add beginOfCurrentPacket currentItem.size) then
            if numBytes = currentItem.size then some (.found [] currentItem rest retrans nextId)
            else if numBytes < currentItem.size then
              (splitItems nextId currentItem numBytes).map fun (firstPart, currentItem) =>
                .found [] firstPart (currentItem :: rest) retrans (nextId + 1)
            else none -- the source goes round its loop for ever
          else
            match rest with
            | [] => some (.found [] currentItem [] retrans nextId)
            | next :: rest =>
              (mergeItems currentItem next retrans).map fun (item, retrans) =>
                .again (item :: rest) retrans nextId
        else if Gt seq beginOfCurrentPacket then
          (splitItems nextId currentItem (toUint32 (sub seq beginOfCurrentPacket))).map
            fun (firstPart, currentItem) =>
              .again (firstPart :: currentItem :: rest) retrans (nextId + 1)
        else none
      else (pass first numBytes seq retrans nextId (add beginOfCurrentPacket currentItem.size)
        rest).map (.cons currentItem)
    else none

/-- `GetPacketFromList`, with the calls it may make: the list around the item, `m_retrans`, and the
next id. -/
def getPacketFromList (first : Option Nat) (listStartFrom numBytes seq : Nat) :
    Nat → List TxItem → Nat → Nat → Option (List TxItem × TxItem × List TxItem × Nat × Nat)
  | 0, _, _, _ => none
  | calls + 1, list, retrans, nextId =>
    (pass first numBytes seq retrans nextId listStartFrom list).bind fun
      | .found pre item post retrans nextId => some (pre, item, post, retrans, nextId)
      | .again list retrans nextId =>
        getPacketFromList first listStartFrom numBytes seq calls list retrans nextId

/-- The size of the retransmission that `GetTransmittedSegment` asks for: at most the item at `seq`
and the next one. -/
def retransmissionSize (seq s : Nat) : List TxItem → Nat
  | [] => s
  | item :: rest =>
    if item.startSeq = seq then
      match rest with
      | [] => min s item.size
      | next :: _ =>
        if ¬ next.sacked ∧ item.lost = next.lost then min s (item.size + next.size)
          else min s item.size
    else retransmissionSize seq s rest

namespace TxBuffer

/-- The constructor and `SetHeadSequence`. -/
def new (seq maxBuffer dupAckThresh : Nat) (sackEnabled : Bool) : TxBuffer where
  appList := []
  sentList := []
  maxBuffer := maxBuffer
  size := 0
  sentSize := 0
  firstByteSeq := seq
  highestSack := (none, 0)
  lostOut := 0
  sackedOut := 0
  retrans := 0
  dupAckThresh := dupAckThresh
  sackEnabled := sackEnabled
  nextId := 0

variable (b : TxBuffer)

def tailSequence : Nat := add b.firstByteSeq b.size

def available : Nat := b.maxBuffer - b.size

def add (p : List UInt8) : TxBuffer × Bool :=
  if p.length ≤ b.available then
    (if 0 < p.length then
      { b with appList := b.appList ++ [.new b.nextId
            p], size := b.size + p.length, nextId := b.nextId + 1 }
    else b, true)
  else (b, false)

def sizeFromSequence (seq : Nat) : Nat :=
  if Ge b.tailSequence seq then toUint32 (sub b.tailSequence seq) else 0

/-- The first sequence number that was not sent. -/
def nextSequence : Nat := SequenceNumber32.add b.firstByteSeq b.sentSize

/-- `GetNewSegment`: the buffer without the item, which belongs at the end of the sent list. -/
def getNewSegment (calls numBytes : Nat) : Option (TxBuffer × TxItem) :=
  (getPacketFromList none b.nextSequence numBytes b.nextSequence calls b.appList b.retrans
    b.nextId).map fun (pre, item, post, retrans, nextId) =>
      ({ b with appList := pre ++ post, sentSize := b.sentSize + item.size, retrans, nextId },
        { item with startSeq := b.nextSequence })

/-- `GetTransmittedSegment`: the buffer, with the sent list around the item. -/
def getTransmittedSegment (calls numBytes seq : Nat) :
    Option (TxBuffer × List TxItem × TxItem × List TxItem) :=
  if Ge seq b.firstByteSeq ∧ numBytes ≤ b.sentSize ∧ b.sentList ≠ [] then
    (getPacketFromList (some b.firstByteSeq) b.firstByteSeq
      (retransmissionSize seq numBytes b.sentList) seq calls b.sentList b.retrans b.nextId).map
      fun (pre, item, post, retrans, nextId) =>
        ({ b with retrans := if item.retrans then retrans else retrans + item.size, nextId },
          pre, { item with retrans := true }, post)
  else none

/-- The end of `CopyFromSequence`: the item is sent `now`. -/
def send (now : Nat) (pre : List TxItem) (item : TxItem) (post : List TxItem) :
    Option (TxBuffer × Option TxItem) :=
  if Ge item.startSeq b.firstByteSeq then
    some ({ b with sentList := pre ++ { item with lastSent := now } :: post },
      some { item with lastSent := now })
  else none

/-- `CopyFromSequence`, with the calls it may make; `none` in the result is the null pointer. -/
def copyFromSequence (now : Nat) : Nat → TxBuffer → Nat → Nat → Option (TxBuffer × Option TxItem)
  | 0, _, _, _ => none
  | calls + 1, b, numBytes, seq =>
    if Gt b.firstByteSeq seq then none
    else
      let s := min numBytes (b.sizeFromSequence seq)
      if s = 0 then some (b, none)
      else if Ge b.nextSequence (SequenceNumber32.add seq s) then
        (b.getTransmittedSegment calls s seq).bind fun (b, pre, outItem, post) =>
          if outItem.sacked then none else b.send now pre outItem post
      else if Le b.nextSequence seq then
        if b.nextSequence = seq then
          (b.getNewSegment calls s).bind fun (b', outItem) =>
            if outItem.retrans then none else b'.send now b.sentList outItem []
        else none
      else if b.nextSequence > seq ∧ b.nextSequence < (seq + s) % 2 ^ 32 then
        -- partial: the part that was sent already
        copyFromSequence now calls b ((b.nextSequence + 2 ^ 32 - seq) % 2 ^ 32) seq
      else none -- `outItem` is still null

def removeFromCounts (item : TxItem) (size : Nat) : Option TxBuffer :=
  if (item.sacked → size ≤ b.sackedOut) ∧ (item.retrans → size ≤ b.retrans) ∧
    (item.lost → size ≤ b.lostOut) then
    some { b with
      sackedOut := if item.sacked then b.sackedOut - size else b.sackedOut
      retrans := if item.retrans then b.retrans - size else b.retrans
      lostOut := if item.lost then b.lostOut - size else b.lostOut }
  else none

/-- The first item that is not sacked becomes so. -/
def sackFirst : List TxItem → List TxItem × Option TxItem
  | [] => ([], none)
  | i :: l => if i.sacked then (i :: (sackFirst l).1, (sackFirst l).2)
      else ({ i with sacked := true } :: l, some i)

def addRenoSack : Option TxBuffer :=
  match b.sentList with
  | [] => none
  | head :: rest =>
    if b.sackEnabled ∧ rest = [] then none
    else
      match sackFirst rest with
      | (_, none) => some b
      | (rest', some item) =>
        some { b with
          sentList := head :: rest'
          sackedOut := b.sackedOut + item.size
          highestSack := (some item.id, item.startSeq) }

def markHeadAsLost : TxBuffer :=
  match b.sentList with
  | [] => b
  | head :: rest =>
    { b with
      sentList := { head with sacked := false, retrans := false, lost := true } :: rest
      sackedOut := if head.sacked then b.sackedOut - head.size else b.sackedOut
      retrans := if head.retrans then b.retrans - head.size else b.retrans
      lostOut := if head.lost then b.lostOut else b.lostOut + head.size }

/-- The part of `DiscardUpTo` that moves data to an empty sent list. -/
def fillSentList (now calls offset : Nat) : Option TxBuffer :=
  match b.sentList with
  | [] => (copyFromSequence now calls b offset b.firstByteSeq).bind fun (b, item) =>
    item.map fun _ => b
  | _ :: _ => some b

/-- One round of the loop of `DiscardUpTo`, at the head of the sent list: what is left of the
offset. -/
def discardHead (offset : Nat) : Option (TxBuffer × Nat) :=
  match b.sentList with
  | [] => none
  | item :: rest =>
    if item.startSeq = b.firstByteSeq then
      if item.size ≤ offset then
        ({ b with
          sentList := rest
          size := b.size - item.size
          sentSize := b.sentSize - item.size
          firstByteSeq := SequenceNumber32.add b.firstByteSeq item.size }.removeFromCounts item
            item.size).map fun b => (b, offset - item.size)
      else
        (createFragment item.packet offset (item.size - offset)).bind fun packet =>
          ({ b with
            sentList := { item with
              packet, startSeq := SequenceNumber32.add item.startSeq offset } :: rest
            size := b.size - offset
            sentSize := b.sentSize - offset
            firstByteSeq := SequenceNumber32.add b.firstByteSeq offset }.removeFromCounts item
              offset).map fun b => (b, 0)
    else none

/-- The loop of `DiscardUpTo`, with the rounds it may take. -/
def discardLoop (now calls : Nat) : Nat → TxBuffer → Nat → Option TxBuffer
  | 0, _, _ => none
  | rounds + 1, b, offset =>
    if b.size > 0 ∧ offset > 0 then
      (b.fillSentList now calls offset).bind fun b =>
        (b.discardHead offset).bind fun (b, offset) => discardLoop now calls rounds b offset
    else some b

/-- The part of `DiscardUpTo` about a head that is sacked. -/
def moveSackFromHead : Option TxBuffer :=
  match b.sentList with
  | [] => some b
  | head :: rest =>
    if head.sacked then
      if head.lost then none
      else ({ b with
        sentList := { head with sacked := false } :: rest
        sackedOut := b.sackedOut - head.size }.addRenoSack).map markHeadAsLost
    else some b

/-- The end of `DiscardUpTo`: the iterator to what was discarded is reset. -/
def resetHighestSack : TxBuffer :=
  if Le b.highestSack.2 b.firstByteSeq then { b with highestSack := (none, 0) } else b

def discardUpTo (now calls seq : Nat) : Option TxBuffer :=
  if Ge b.firstByteSeq seq then some b
  else
    (discardLoop now calls calls b (toUint32 (sub seq b.firstByteSeq))).bind fun b =>
      (if b.size = 0 then { b with firstByteSeq := seq } else b).moveSackFromHead.bind fun b =>
        if (∀ head ∈ b.sentList.head?, head.startSeq = seq) ∧ Ge b.firstByteSeq seq ∧
            b.sackedOut + b.lostOut ≤ b.sentSize then
          some b.resetHighestSack
        else none

/-! ## The scoreboard -/

/-- What `Update` changes beside the items. -/
structure Scoreboard where
  lostOut : Nat
  sackedOut : Nat
  bytesSacked : Nat
  highestSack : Option Nat × Nat
  deriving DecidableEq

/-- An item that begins at `beginOfCurrentPacket` lies in a block. -/
def InBlock (block : Nat × Nat) (beginOfCurrentPacket : Nat) (item : TxItem) : Prop :=
  Ge beginOfCurrentPacket block.1 ∧ Le (SequenceNumber32.add beginOfCurrentPacket item.size) block.2
deriving Decidable

/-- A new SACK of an item that begins at `beginOfCurrentPacket`. -/
def Scoreboard.sack (s : Scoreboard) (beginOfCurrentPacket : Nat) (item : TxItem) : Scoreboard where
  lostOut := if item.lost then s.lostOut - item.size else s.lostOut
  sackedOut := s.sackedOut + item.size
  bytesSacked := s.bytesSacked + item.size
  highestSack :=
    if s.highestSack.1 = none ∨
      Le s.highestSack.2 (SequenceNumber32.add beginOfCurrentPacket item.size) then
      (some item.id, beginOfCurrentPacket)
    else s.highestSack

/-- The walk of `Update` along the sent list, for one block. -/
def updateBlock (block : Nat × Nat) : Nat → List TxItem → Scoreboard →
    Option (List TxItem × Scoreboard)
  | _, [], s => some ([], s)
  | beginOfCurrentPacket, item :: rest, s =>
    if InBlock block beginOfCurrentPacket item then
      if item.sacked then
        if item.lost then none
        else
          (updateBlock block (SequenceNumber32.add beginOfCurrentPacket item.size) rest s).map
            fun r => (item :: r.1, r.2)
      else
        (updateBlock block (SequenceNumber32.add beginOfCurrentPacket item.size) rest
          (s.sack beginOfCurrentPacket item)).map fun r =>
          ({ item with lost := false, sacked := true } :: r.1, r.2)
    else if Gt (SequenceNumber32.add beginOfCurrentPacket item.size) block.2 then some
      (item :: rest, s)
    else
      (updateBlock block (SequenceNumber32.add beginOfCurrentPacket item.size) rest s).map
        fun r => (item :: r.1, r.2)

/-- The loop of `Update` over the blocks; it stops at one that is outside of what was sent, and says
so. -/
def updateBlocks (first next : Nat) :
    List (Nat × Nat) → List TxItem → Scoreboard → Option (List TxItem × Scoreboard × Bool)
  | [], l, s => some (l, s, false)
  | block :: blocks, l, s =>
    if Lt next block.1 then some (l, s, true)
    else (updateBlock block first l s).bind fun r => updateBlocks first next blocks r.1 r.2

/-- The loop of `UpdateLostCount`, over the items from the one with the highest SACK down to the
second: the items, how many are sacked, and `m_lostOut`. -/
def markLost (dupAckThresh : Nat) : List TxItem → Nat → Nat → List TxItem × Nat × Nat
  | [], sacked, lostOut => ([], sacked, lostOut)
  | item :: rest, sacked, lostOut =>
    let sacked := if item.sacked then sacked + 1 else sacked
    if dupAckThresh ≤ sacked ∧ ¬ item.sacked ∧ ¬ item.lost then
      let r := markLost dupAckThresh rest sacked (lostOut + item.size)
      ({ item with lost := true } :: r.1, r.2)
    else
      let r := markLost dupAckThresh rest sacked lostOut
      (item :: r.1, r.2)

def updateLostCount : Option TxBuffer :=
  match b.sentList, b.sentList.findIdx? (some ·.id = b.highestSack.1) with
  | head :: rest, some i =>
    let (marked, sacked, lostOut) := markLost b.dupAckThresh (rest.take i).reverse 0 b.lostOut
    let rest := marked.reverse ++ rest.drop i
    if b.dupAckThresh ≤ sacked ∧ ¬ head.lost then
      some { b with sentList := { head with lost := true } :: rest, lostOut := lostOut + head.size }
    else some { b with sentList := head :: rest, lostOut }
  | _, _ => none

/-- `Update`, with the bytes that it returns. -/
def updateSacked (blocks : List (Nat × Nat)) : Option (TxBuffer × Nat) :=
  (updateBlocks b.firstByteSeq b.nextSequence blocks b.sentList ⟨b.lostOut, b.sackedOut, 0,
    b.highestSack⟩).bind fun (sentList, s, outside) =>
      let b := { b with
        sentList, lostOut := s.lostOut, sackedOut := s.sackedOut, highestSack := s.highestSack }
      if outside then some (b, s.bytesSacked)
      else
        (if 0 < s.bytesSacked then b.updateLostCount else some b).bind fun b =>
          if (∃ head ∈ b.sentList.head?, ¬ head.sacked) ∧ b.sackedOut + b.lostOut ≤ b.sentSize then
            some (b, s.bytesSacked)
          else none

/-- `Update`, as a call whose result is not used. -/
def update (blocks : List (Nat × Nat)) : Option TxBuffer := (b.updateSacked blocks).map (·.1)

def bytesInFlight : Option Nat :=
  if b.sackedOut + b.lostOut ≤ b.sentSize then some
    (b.sentSize - (b.sackedOut + b.lostOut) + b.retrans) else none

def resetRenoSack : TxBuffer :=
  { b with
    sackedOut := 0
    sentList := b.sentList.map fun i => { i with sacked := false }
    highestSack := (none, 0) }

def resetSentList : TxBuffer :=
  { b with
    appList := (b.sentList.map fun i =>
      { i with retrans := false, sacked := false, lost := false }) ++ b.appList
    sentList := []
    sentSize := 0
    lostOut := 0
    retrans := 0
    sackedOut := 0
    highestSack := (none, 0) }

def resetLastSegmentSent : TxBuffer :=
  match b.sentList.getLast? with
  | none => b
  | some item =>
    { b with
      sentList := b.sentList.dropLast
      sentSize := b.sentSize - item.size
      retrans := if item.retrans then b.retrans - item.size else b.retrans
      appList := item :: b.appList }

/-- The sizes of the items that have a flag. -/
def total (flag : TxItem → Bool) (l : List TxItem) : Nat := ((l.filter flag).map TxItem.size).sum

def setSentListLost (resetSack : Bool) : Option TxBuffer :=
  let b :=
    if resetSack then
      { b with
        retrans := 0
        sackedOut := 0
        lostOut := b.sentSize
        highestSack := (none, 0)
        sentList := b.sentList.map fun i =>
          { i with sacked := false, lost := true, retrans := false } }
    else
      { b with
        retrans := 0
        lostOut := total (fun i => i.lost || !i.sacked) b.sentList
        sentList := b.sentList.map fun i =>
          { i with lost := i.lost || !i.sacked, retrans := false } }
  if b.sackedOut + b.lostOut ≤ b.sentSize then some b else none

def deleteRetransmittedFlagFromHead : Option TxBuffer :=
  if b.sentSize = 0 then some b
  else
    match b.sentList with
    | [] => none
    | head :: rest =>
      some { b with
        sentList := { head with retrans := false } :: rest
        retrans := if head.retrans then b.retrans - head.size else b.retrans }

end TxBuffer

/-- The calls of a transmit buffer. -/
inductive TxCall where
  | add (p : List UInt8)
  | copyFromSequence (now numBytes seq : Nat)
  | update (blocks : List (Nat × Nat))
  | discardUpTo (now seq : Nat)
  | setSentListLost (resetSack : Bool)
  | resetSentList
  | resetLastSegmentSent
  | markHeadAsLost
  | deleteRetransmittedFlagFromHead
  | addRenoSack
  | resetRenoSack
  deriving DecidableEq

namespace TxBuffer

/-- A call that may make so many calls. -/
def call? (calls : Nat) (b : TxBuffer) : TxCall → Option TxBuffer
  | .add p => some (b.add p).1
  | .copyFromSequence now numBytes seq => (copyFromSequence now calls b numBytes seq).map (·.1)
  | .update blocks => b.update blocks
  | .discardUpTo now seq => b.discardUpTo now calls seq
  | .setSentListLost resetSack => b.setSentListLost resetSack
  | .resetSentList => some b.resetSentList
  | .resetLastSegmentSent => some b.resetLastSegmentSent
  | .markHeadAsLost => some b.markHeadAsLost
  | .deleteRetransmittedFlagFromHead => b.deleteRetransmittedFlagFromHead
  | .addRenoSack => b.addRenoSack
  | .resetRenoSack => some b.resetRenoSack

/-- A call that returns. -/
def Step (b : TxBuffer) (c : TxCall) (b' : TxBuffer) : Prop := ∃ calls, b.call? calls c = some b'

end TxBuffer

end OranNs3.Tcp
