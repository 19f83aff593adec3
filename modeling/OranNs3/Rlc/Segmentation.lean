import OranNs3.Rlc.SequenceNumber

/-!
# Segmentation and concatenation of SDUs

The data field of a PDU for a transmission opportunity: the same loop stands in
`NrRlcUm::DoNotifyTxOpportunity` (`nr-rlc-um.cc`) and `NrRlcAm::DoNotifyTxOpportunity`
(`nr-rlc-am.cc`). SDUs are taken from the front of the transmission buffer while they fit, the last
one may be cut, and its rest is given back. A packet is its bytes, of any type, with the status in
its `NrRlcSduStatusTag`; sizes and `m_txBufferSize` are 32 bits wide.

A position `(a, q)` in the accepted SDUs is after `a` whole SDUs and the first bytes `q` of the next
one. A PDU carries the bytes between two positions (`Carries`), and the buffer is what is left from
one on (`Buffered`).
-/

namespace OranNs3.Rlc

open List Option

variable {α : Type}

/-- `NrRlcSduStatusTag::SduStatus_t`. -/
inductive SduStatus
  | fullSdu
  | firstSegment
  | middleSegment
  | lastSegment
deriving DecidableEq

/-- An SDU or a segment of one, with its tag. -/
structure Segment (α : Type) where
  bytes : List α
  status : SduStatus
deriving DecidableEq

/-- `GetSize`. -/
def Segment.size (s : Segment α) : Nat := s.bytes.length

/-- `TxPdu`, with the time of its arrival. -/
structure TxPdu (α : Type) where
  pdu : Segment α
  waitingSince : Nat
deriving DecidableEq

/-- Addition in 32 bits. -/
def add32 (a b : Nat) : Nat := (a + b) % 2 ^ 32

/-- Subtraction in 32 bits. -/
def sub32 (a b : Nat) : Nat := (a + (2 ^ 32 - b % 2 ^ 32)) % 2 ^ 32

/-- The variables of the loop. -/
structure Build (α : Type) where
  firstSegment : Option (TxPdu α)
  nextSegmentSize : Nat
  nextSegmentId : Nat := 1
  dataField : List (Segment α) := []
  extensionBits : List Bool := []
  lengthIndicators : List Nat := []
  txBuffer : List (TxPdu α)
  txBufferSize : Nat
deriving DecidableEq

variable (status : SduStatus)

/-- The tags of a new segment and of what remains of its SDU. -/
def splitTags : SduStatus × SduStatus :=
  match status with
  | .fullSdu => (.firstSegment, .lastSegment)
  | .lastSegment => (.middleSegment, .lastSegment)
  | status => (status, status)

/-- The tag of a segment that took all that remained. -/
def wholeTag : SduStatus :=
  match status with
  | .firstSegment => .fullSdu
  | .middleSegment => .lastSegment
  | status => status

variable (b : Build α)

/-- The end of a data field by new bytes of a packet, whose rest is given back if there is one. -/
def endDataField (newBytes restBytes : List α) (tags : SduStatus × SduStatus)
    (waitingSince : Nat) : Build α :=
  if restBytes.length > 0 then
    { b with
      firstSegment := none
      dataField := b.dataField ++ [⟨newBytes, tags.1⟩]
      extensionBits := b.extensionBits ++ [false]
      nextSegmentSize := b.nextSegmentSize - newBytes.length
      nextSegmentId := b.nextSegmentId + 1
      txBuffer := ⟨⟨restBytes, tags.2⟩, waitingSince⟩ :: b.txBuffer
      txBufferSize := add32 b.txBufferSize restBytes.length }
  else
    { b with
      firstSegment := none
      dataField := b.dataField ++ [⟨newBytes, wholeTag tags.1⟩]
      extensionBits := b.extensionBits ++ [false]
      nextSegmentSize := b.nextSegmentSize - newBytes.length
      nextSegmentId := b.nextSegmentId + 1 }

/-- A segment that ends the data field. -/
def takeSegment (first : TxPdu α) : Build α :=
  endDataField b (first.pdu.bytes.take (min first.pdu.size b.nextSegmentSize))
    (first.pdu.bytes.drop (min first.pdu.size b.nextSegmentSize)) (splitTags first.pdu.status)
    first.waitingSince

/-- A packet that ends the data field. -/
def takeLast (first : TxPdu α) : Build α :=
  { b with
    firstSegment := none
    dataField := b.dataField ++ [first.pdu]
    extensionBits := b.extensionBits ++ [false]
    nextSegmentSize := b.nextSegmentSize - first.pdu.size
    nextSegmentId := b.nextSegmentId + 1 }

/-- A packet that another one follows. -/
def takeMore (first next : TxPdu α) (txBuffer : List (TxPdu α)) : Build α :=
  { b with
    firstSegment := some next
    dataField := b.dataField ++ [first.pdu]
    extensionBits := b.extensionBits ++ [true]
    lengthIndicators := b.lengthIndicators ++ [first.pdu.size]
    nextSegmentSize :=
      b.nextSegmentSize - ((if b.nextSegmentId % 2 = 1 then 2 else 1) + first.pdu.size)
    nextSegmentId := b.nextSegmentId + 1
    txBuffer
    txBufferSize := sub32 b.txBufferSize next.pdu.size }

/-- The loop of the data field: at most one iteration for each packet of the buffer. -/
def buildLoop : Nat → Build α → Build α
  | 0, b => b
  | fuel + 1, b =>
    match b.firstSegment with
    | none => b
    | some first =>
      if first.pdu.size > 0 ∧ b.nextSegmentSize > 0 then
        if first.pdu.size > b.nextSegmentSize ∨ first.pdu.size > 2047 then takeSegment b first
        else
          match b.txBuffer with
          | [] => takeLast b first
          | next :: txBuffer =>
            if b.nextSegmentSize - first.pdu.size ≤ 2 then takeLast b first
            else buildLoop fuel (takeMore b first next txBuffer)
      else b

/-- The data field of `nextSegmentSize` bytes, with its header fields, from a buffer that starts
with `first`. -/
def buildDataField (nextSegmentSize : Nat) (first : TxPdu α) (txBuffer : List (TxPdu α))
    (txBufferSize : Nat) : Build α :=
  buildLoop (txBuffer.length + 1)
    { firstSegment := some first
      nextSegmentSize
      txBuffer
      txBufferSize := sub32 txBufferSize first.pdu.size }

/-- The framing information of a data field: whether its first byte is the first one of an SDU, and
its last byte the last one. -/
structure FramingInfo where
  firstByte : Bool
  lastByte : Bool
deriving DecidableEq

/-- Whether a segment has the first byte of its SDU. -/
def SduStatus.hasFirst : Bool := status = .fullSdu || status = .firstSegment

/-- Whether a segment has the last byte of its SDU. -/
def SduStatus.hasLast : Bool := status = .fullSdu || status = .lastSegment

/-- The framing information; a data field without a segment is a pointer past its end. -/
def framingInfoOf (dataField : List (Segment α)) : Except RlcError FramingInfo :=
  match dataField.head?, dataField.getLast? with
  | some first, some last => .ok ⟨first.status.hasFirst, last.status.hasLast⟩
  | _, _ => .error .nullPointer

/-- The bytes of the data field. -/
def dataBytes (dataField : List (Segment α)) : List α := dataField.flatMap (·.bytes)

/-! ## Positions in the sequence of SDUs -/

/-- A position: after a number of SDUs and some bytes of the next. -/
structure Pos (α : Type) where
  sdus : Nat
  part : List α
deriving DecidableEq

/-- Chunks of bytes, one for each SDU that they are of, lead from a position to another, which is
the start of an SDU or not. -/
inductive Carries (sdus : List (List α)) : Pos α → List (List α) → Bool → Pos α → Prop
  | last {a q c} : c ≠ [] → sdus[a]? = some (q ++ c) → Carries sdus ⟨a, q⟩ [c] true ⟨a + 1, []⟩
  | part {a q c d} : c ≠ [] → d ≠ [] → sdus[a]? = some (q ++ c ++ d) →
    Carries sdus ⟨a, q⟩ [c] false ⟨a, q ++ c⟩
  | more {a q c cs l p} : c ≠ [] → sdus[a]? = some (q ++ c) → Carries sdus ⟨a + 1, []⟩ cs l p →
    Carries sdus ⟨a, q⟩ (c :: cs) l p

/-- A buffer that holds what is left from a position on. -/
inductive Buffered (sdus : List (List α)) : Pos α → List (Segment α) → Prop
  | nil : Buffered sdus ⟨sdus.length, []⟩ []
  | cons {a q d} : d ≠ [] → sdus[a]? = some (q ++ d) →
    Buffered sdus ⟨a, q⟩
      (⟨d, if q = [] then .fullSdu else .lastSegment⟩ ::
        (sdus.drop (a + 1)).map fun s => ⟨s, .fullSdu⟩)

/-! ## Arithmetic in 32 bits -/

section arithmetic
variable {a b n : Nat}

theorem add32_mod (h : a = n % 2 ^ 32) : add32 a b = (n + b) % 2 ^ 32 := by
  rw [add32, h, Nat.mod_add_mod]

theorem sub32_mod (h : a = (n + b) % 2 ^ 32) : sub32 a b = n % 2 ^ 32 := by
  rw [sub32, h]
  omega

end arithmetic

/-! ## Conservation -/

section conservation
variable {b : Build α} {fuel : Nat}

/-- The bytes of a buffer. -/
def bufferBytes (txBuffer : List (TxPdu α)) : List α := txBuffer.flatMap (·.pdu.bytes)

/-- The bytes that the loop has in hand, in order. -/
def Build.bytes (b : Build α) : List α :=
  dataBytes b.dataField ++ ((b.firstSegment.map (·.pdu.bytes)).getD [] ++ bufferBytes b.txBuffer)

/-- The size of the buffer, in 32 bits. -/
def SizeOk (txBuffer : List (TxPdu α)) (txBufferSize : Nat) : Prop :=
  txBufferSize = (bufferBytes txBuffer).length % 2 ^ 32

variable {txBuffer : List (TxPdu α)}

@[simp]
theorem bufferBytes_cons {p : TxPdu α} :
    bufferBytes (p :: txBuffer) = p.pdu.bytes ++ bufferBytes txBuffer := rfl

variable {l : List (Segment α)}

@[simp]
theorem dataBytes_concat {s : Segment α} : dataBytes (l ++ [s]) = dataBytes l ++ s.bytes := by
  simp [dataBytes]

variable {first : TxPdu α}

theorem takeSegment_bytes (hfirst : b.firstSegment = some first)
    (hsize : SizeOk b.txBuffer b.txBufferSize) :
    (takeSegment b first).bytes = b.bytes ∧ (takeSegment b first).firstSegment = none ∧
      SizeOk (takeSegment b first).txBuffer (takeSegment b first).txBufferSize := by
  have hsplit : first.pdu.bytes.take (min first.pdu.size b.nextSegmentSize) ++
      first.pdu.bytes.drop (min first.pdu.size b.nextSegmentSize) = first.pdu.bytes :=
    take_append_drop _ _
  rw [takeSegment, endDataField]
  split
  · refine ⟨?_, rfl, ?_⟩
    · simp only [Build.bytes, hfirst, map_some, getD_some, map_none,
        getD_none, dataBytes_concat, bufferBytes_cons, nil_append]
      rw [append_assoc, ← append_assoc (List.take _ _), hsplit]
    · refine (add32_mod hsize).trans ?_
      rw [bufferBytes_cons, length_append, Nat.add_comm]
  · next hrest =>
    have hnil : first.pdu.bytes.drop (min first.pdu.size b.nextSegmentSize) = [] :=
      eq_nil_of_length_eq_zero (by omega)
    refine ⟨?_, rfl, hsize⟩
    rw [hnil, append_nil] at hsplit
    simp only [Build.bytes, hfirst, map_some, getD_some, map_none,
      getD_none, dataBytes_concat, nil_append, hsplit, append_assoc]

/-- The loop neither loses nor makes bytes, and counts the buffer; it ends with nothing in hand. -/
theorem buildLoop_bytes : ∀ (fuel : Nat) {b : Build α}, b.txBuffer.length < fuel →
    0 < b.nextSegmentSize → SizeOk b.txBuffer b.txBufferSize → (buildLoop fuel b).bytes = b.bytes ∧
      (((buildLoop fuel b).firstSegment.map (·.pdu.bytes)).getD [] = []) ∧
      SizeOk (buildLoop fuel b).txBuffer (buildLoop fuel b).txBufferSize
  | 0, _, hfuel, _, _ => absurd hfuel (Nat.not_lt_zero _)
  | fuel + 1, b, hfuel, hpos, hsize => by
    rw [buildLoop]
    split
    · next hnone => exact ⟨rfl, by rw [hnone]; rfl, hsize⟩
    · next first hfirst =>
      split
      · next hgo =>
        split
        · obtain ⟨h1, h2, h3⟩ := takeSegment_bytes hfirst hsize
          exact ⟨h1, by rw [h2]; rfl, h3⟩
        · next hfit =>
          have hlast : (takeLast b first).bytes = b.bytes := by
            simp [Build.bytes, takeLast, hfirst]
          split
          · exact ⟨hlast, rfl, hsize⟩
          · next next txBuffer hbuffer =>
            split
            · exact ⟨hlast, rfl, hsize⟩
            · next hmore =>
              have hmore_bytes : (takeMore b first next txBuffer).bytes = b.bytes := by
                simp [Build.bytes, takeMore, hfirst, hbuffer]
              have hmore_size : SizeOk (takeMore b first next txBuffer).txBuffer
                  (takeMore b first next txBuffer).txBufferSize := by
                rw [SizeOk, hbuffer, bufferBytes_cons, length_append, Nat.add_comm] at hsize
                exact sub32_mod hsize
              rw [hbuffer, length_cons] at hfuel
              have hpos' : 0 < (takeMore b first next txBuffer).nextSegmentSize := by
                simp only [takeMore]
                split <;> omega
              obtain ⟨h1, h2, h3⟩ := buildLoop_bytes fuel (b := takeMore b first next txBuffer)
                (Nat.lt_of_succ_lt_succ hfuel) hpos' hmore_size
              exact ⟨h1.trans hmore_bytes, h2, h3⟩
      · next hstop =>
        have hnil : first.pdu.bytes = [] :=
          eq_nil_of_length_eq_zero (by rw [Segment.size] at hstop; omega)
        exact ⟨rfl, by rw [hfirst, map_some, getD_some, hnil], hsize⟩

theorem buildDataField_bytes {nextSegmentSize txBufferSize : Nat} (hpos : 0 < nextSegmentSize)
    (hsize : SizeOk (first :: txBuffer) txBufferSize) :
    dataBytes (buildDataField nextSegmentSize first txBuffer txBufferSize).dataField ++
        bufferBytes (buildDataField nextSegmentSize first txBuffer txBufferSize).txBuffer =
        bufferBytes (first :: txBuffer) ∧
      SizeOk (buildDataField nextSegmentSize first txBuffer txBufferSize).txBuffer
        (buildDataField nextSegmentSize first txBuffer txBufferSize).txBufferSize := by
  rw [SizeOk, bufferBytes_cons, length_append, Nat.add_comm] at hsize
  obtain ⟨h1, h2, h3⟩ := buildLoop_bytes (txBuffer.length + 1)
    (b := { firstSegment := some first, nextSegmentSize, txBuffer,
            txBufferSize := sub32 txBufferSize first.pdu.size })
    (Nat.lt_succ_self _) hpos (sub32_mod hsize)
  rw [Build.bytes, h2, nil_append] at h1
  refine ⟨?_, h3⟩
  rw [buildDataField, h1]
  rfl

end conservation

/-! ## From a position to a later one -/

section positions
variable {sdus : List (List α)} {p : Pos α}

/-- The segments of a data field lead from a position to another, and their tags say whether these
are starts of SDUs. -/
structure Field (sdus : List (List α)) (p : Pos α) (segs : List (Segment α)) (last : Bool)
    (p' : Pos α) : Prop where
  carries : Carries sdus p (segs.map (·.bytes)) last p'
  first : segs.head?.map (·.status.hasFirst) = some p.part.isEmpty
  last : segs.getLast?.map (·.status.hasLast) = some last

/-- A PDU that the loop has built: its segments, header fields and the buffer left. -/
structure Built (sdus : List (List α)) (p : Pos α) (b b' : Build α) : Prop where
  built : ∃ segs last p', Field sdus p segs last p' ∧ b'.dataField = b.dataField ++ segs ∧
    b'.extensionBits = b.extensionBits ++ (List.replicate (segs.length - 1) true ++ [false]) ∧
    b'.lengthIndicators = b.lengthIndicators ++ segs.dropLast.map (·.size) ∧
    (∀ seg ∈ segs.dropLast, seg.size ≤ 2047) ∧ Buffered sdus p' (b'.txBuffer.map (·.pdu))

theorem buffered_whole {a : Nat} (hne : [] ∉ sdus) (ha : a ≤ sdus.length) :
    Buffered sdus ⟨a, []⟩ ((sdus.drop a).map fun s => ⟨s, .fullSdu⟩) := by
  rcases Nat.lt_or_ge a sdus.length with hlt | hge
  · rw [drop_eq_getElem_cons hlt, map_cons]
    refine .cons (q := []) (fun h => hne (h ▸ getElem_mem hlt)) ?_
    rw [getElem?_eq_getElem hlt, nil_append]
  · obtain rfl := Nat.le_antisymm ha hge
    rw [drop_length]
    exact .nil

variable {seg : Segment α}

theorem Buffered.front (h : Buffered sdus p (seg :: l)) :
    seg.bytes ≠ [] ∧ sdus[p.sdus]? = some (p.part ++ seg.bytes) ∧
      seg.status = (if p.part = [] then .fullSdu else .lastSegment) ∧
      l = (sdus.drop (p.sdus + 1)).map fun s => ⟨s, .fullSdu⟩ := by
  cases h with
  | cons hd hget => exact ⟨hd, hget, rfl, rfl⟩

theorem Buffered.behind (h : Buffered sdus p (seg :: l))
    (hne : [] ∉ sdus) : Buffered sdus ⟨p.sdus + 1, []⟩ l := by
  obtain ⟨-, hget, -, rfl⟩ := h.front
  exact buffered_whole hne (List.getElem?_eq_some_iff.1 hget).1

theorem Buffered.tag (h : Buffered sdus p (seg :: l)) :
    seg.status.hasFirst = p.part.isEmpty ∧ seg.status.hasLast = true := by
  obtain ⟨-, -, hstatus, -⟩ := h.front
  rw [hstatus]
  split
  · next hpart => simp [hpart, SduStatus.hasFirst, SduStatus.hasLast]
  · next hpart =>
    rw [isEmpty_eq_false_iff.2 hpart]
    exact ⟨rfl, rfl⟩

theorem Buffered.takeLast {b : Build α} (hne : [] ∉ sdus)
    (h : Buffered sdus p (first.pdu :: b.txBuffer.map (·.pdu))) :
    Built sdus p b (takeLast b first) := by
  obtain ⟨hbytes, hget, -, -⟩ := h.front
  exact ⟨[first.pdu], true, ⟨p.sdus + 1, []⟩,
    ⟨.last hbytes hget, by simp [h.tag.1], by simp [h.tag.2]⟩, rfl, rfl, (append_nil _).symm,
    forall_mem_nil _, h.behind hne⟩

/-- A packet that is cut, or just fits. -/
theorem Buffered.takeSegment {b : Build α} (hne : [] ∉ sdus) (hpos : 0 < b.nextSegmentSize)
    (h : Buffered sdus p (first.pdu :: b.txBuffer.map (·.pdu))) :
    Built sdus p b (takeSegment b first) := by
  obtain ⟨hbytes, hget, hstatus, hrest⟩ := h.front
  have hlen : 0 < first.pdu.bytes.length := length_pos_of_ne_nil hbytes
  have hsplit : first.pdu.bytes.take (min first.pdu.size b.nextSegmentSize) ++
      first.pdu.bytes.drop (min first.pdu.size b.nextSegmentSize) = first.pdu.bytes :=
    take_append_drop _ _
  have hnew : first.pdu.bytes.take (min first.pdu.size b.nextSegmentSize) ≠ [] := by
    refine ne_nil_of_length_pos ?_
    rw [length_take, Segment.size]
    omega
  have htags : (splitTags first.pdu.status).2 = .lastSegment ∧
      (splitTags first.pdu.status).1.hasFirst = p.part.isEmpty ∧
      (splitTags first.pdu.status).1.hasLast = false ∧
      wholeTag (splitTags first.pdu.status).1 = first.pdu.status := by
    rw [hstatus]
    split
    · next hpart => simp [hpart, splitTags, wholeTag, SduStatus.hasFirst, SduStatus.hasLast]
    · next hpart =>
      rw [isEmpty_eq_false_iff.2 hpart]
      exact ⟨rfl, rfl, rfl, rfl⟩
  obtain ⟨hback, hfirst, hlast, hwhole⟩ := htags
  rw [Rlc.takeSegment, endDataField]
  split
  · next hmore =>
    refine ⟨_, false, _, ⟨.part hnew (ne_nil_of_length_pos hmore) ?_, ?_, ?_⟩, rfl, rfl,
      (append_nil _).symm, forall_mem_nil _, ?_⟩
    · rw [append_assoc, hsplit]
      exact hget
    · simp [hfirst]
    · simp [hlast]
    · rw [map_cons, hrest, hback]
      have hpart : p.part ++ first.pdu.bytes.take (min first.pdu.size b.nextSegmentSize) ≠ [] :=
        fun h => hnew (append_eq_nil_iff.1 h).2
      have : Buffered sdus _ _ := Buffered.cons (a := p.sdus)
        (q := p.part ++ first.pdu.bytes.take (min first.pdu.size b.nextSegmentSize))
        (ne_nil_of_length_pos hmore) (by rw [append_assoc, hsplit]; exact hget)
      rwa [if_neg hpart] at this
  · next hmore =>
    have hnil : first.pdu.bytes.drop (min first.pdu.size b.nextSegmentSize) = [] :=
      eq_nil_of_length_eq_zero (by omega)
    rw [hnil, append_nil] at hsplit
    refine ⟨_, true, ⟨p.sdus + 1, []⟩, ⟨.last hnew ?_, ?_, ?_⟩, rfl, rfl,
      (append_nil _).symm, forall_mem_nil _, h.behind hne⟩
    · rw [hsplit]
      exact hget
    · simp [hwhole, h.tag.1]
    · simp [hwhole, h.tag.2]

theorem Buffered.takeMore {b b' : Build α} {first next : TxPdu α}
    (h : Buffered sdus p (first.pdu :: b.txBuffer.map (·.pdu))) (hsize : first.pdu.size ≤ 2047)
    (hb' : Built sdus ⟨p.sdus + 1, []⟩ (takeMore b first next txBuffer) b') :
    Built sdus p b b' := by
  obtain ⟨hbytes, hget, -, -⟩ := h.front
  obtain ⟨segs, last, p', hfield, hdata, hext, hli, hle, hbuf⟩ := hb'.built
  have hsegs : segs ≠ [] := by
    rintro rfl
    have hfirst := hfield.first
    simp at hfirst
  obtain ⟨seg, segs, rfl⟩ := exists_cons_of_ne_nil hsegs
  refine ⟨first.pdu :: seg :: segs, last, p', ⟨.more hbytes hget hfield.carries, ?_, ?_⟩, ?_, ?_,
    ?_, ?_, hbuf⟩
  · simp [h.tag.1]
  · rw [← hfield.last, getLast?_cons_cons]
  · simpa [Rlc.takeMore] using hdata
  · simpa [Rlc.takeMore, replicate_succ] using hext
  · simpa [Rlc.takeMore] using hli
  · intro s hs
    rw [dropLast_cons_of_ne_nil hsegs, mem_cons] at hs
    rcases hs with rfl | hs
    · exact hsize
    · exact hle s hs

theorem buildLoop_built (hne : [] ∉ sdus) :
    ∀ {fuel : Nat} {b : Build α} {first : TxPdu α} {p : Pos α},
    b.txBuffer.length < fuel → 0 < b.nextSegmentSize → b.firstSegment = some first →
    Buffered sdus p (first.pdu :: b.txBuffer.map (·.pdu)) → Built sdus p b (buildLoop fuel b)
  | 0, _, _, _, hfuel, _, _, _ => absurd hfuel (Nat.not_lt_zero _)
  | fuel + 1, b, first, p, hfuel, hpos, hfirst, h => by
    have hsize : 0 < first.pdu.size := length_pos_of_ne_nil h.front.1
    simp only [buildLoop, hfirst]
    rw [if_pos ⟨hsize, hpos⟩]
    split
    · exact h.takeSegment hne hpos
    · next hfit =>
      split
      · exact h.takeLast hne
      · next next txBuffer hbuffer =>
        split
        · exact h.takeLast hne
        · next hmore =>
          have hbehind := h.behind hne
          rw [hbuffer, map_cons] at hbehind
          rw [hbuffer, length_cons] at hfuel
          have hpos' : 0 < (Rlc.takeMore b first next txBuffer).nextSegmentSize := by
            simp only [Rlc.takeMore]
            split <;> omega
          exact h.takeMore (by omega) (buildLoop_built hne (b := Rlc.takeMore b first next txBuffer)
            (Nat.lt_of_succ_lt_succ hfuel) hpos' rfl hbehind)

/-- The loop on a buffer that holds what is left from a position on: the data field leads to another
position, from which on the buffer is left. -/
theorem buildDataField_spec {nextSegmentSize : Nat} (txBufferSize : Nat)
    (hne : [] ∉ sdus) (hpos : 0 < nextSegmentSize)
    (h : Buffered sdus p ((first :: txBuffer).map (·.pdu))) :
    ∃ last p', Field sdus p (buildDataField nextSegmentSize first txBuffer txBufferSize).dataField
      last p' ∧ (buildDataField nextSegmentSize first txBuffer txBufferSize).extensionBits =
        replicate
          ((buildDataField nextSegmentSize first txBuffer txBufferSize).dataField.length - 1)
            true ++ [false] ∧
      (buildDataField nextSegmentSize first txBuffer txBufferSize).lengthIndicators =
        (buildDataField nextSegmentSize first txBuffer txBufferSize).dataField.dropLast.map
          (·.size) ∧
      (∀ seg ∈ (buildDataField nextSegmentSize first txBuffer txBufferSize).dataField.dropLast,
        seg.size ≤ 2047) ∧
      Buffered sdus p'
        ((buildDataField nextSegmentSize first txBuffer txBufferSize).txBuffer.map (·.pdu)) := by
  obtain ⟨segs, last, p', hfield, hdata, hext, hli, hle, hbuf⟩ :=
    (buildLoop_built hne
      (b := { firstSegment := some first
              nextSegmentSize
              txBuffer
              txBufferSize := sub32 txBufferSize first.pdu.size })
      (Nat.lt_succ_self _) hpos rfl h).built
  obtain rfl := hdata
  exact ⟨last, p', hfield, hext, hli, hle, hbuf⟩

end positions

end OranNs3.Rlc
