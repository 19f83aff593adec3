import OranNs3.Rlc.Segmentation

/-!
# The room of a PDU

A PDU is never longer than the opportunity (`buildDataField_length`). It has `n` length indicators
or more if and only if the first `n` packets fit in front of another one (`indicators_iff`).

The headers of both modes count their own length in 16 bits, and `Packet::AddHeader` makes as much
room in front of the data as they count. So a header of `2 ^ 16` bytes or more stands in the place
of data (`overwritten`), or the program stops (`checkHeader`).
-/

namespace OranNs3.Rlc

open List

/-- The bytes of a number of length indicators. -/
def liLength (n : Nat) : Nat := (3 * n + 1) / 2

/-- `Packet::AddHeader` and `Packet::AddByteTag` of a header of `length` bytes and `size` bytes of
data: the end of the packet is asserted while the header is written, and a range that ends before it
starts is refused. -/
def checkHeader (length size : Nat) : Except RlcError Unit :=
  if length % 2 ^ 16 + size < length then .error .assertion
  else if length % 2 ^ 16 < 1 then .error .invalidByteRange
  else .ok ()

/-- The bytes of the data in whose place a header of `length` bytes stands. -/
def overwritten (length : Nat) : Nat := length - length % 2 ^ 16

/-- A header that can count its length is written in front of the data. -/
theorem checkHeader_ok {length size : Nat} (hpos : 0 < length) (hlt : length < 2 ^ 16) :
    checkHeader length size = .ok () := by
  rw [checkHeader, Nat.mod_eq_of_lt hlt, if_neg (Nat.not_lt.2 (Nat.le_add_right _ _)),
    if_neg (Nat.not_lt.2 hpos)]

theorem overwritten_eq_zero {length : Nat} (hlt : length < 2 ^ 16) : overwritten length = 0 := by
  rw [overwritten, Nat.mod_eq_of_lt hlt, Nat.sub_self]

section room
variable {α : Type} {b : Build α} {first : TxPdu α} {room n : Nat}

/-- The loop counts the length indicators, and the bytes that it has filled. -/
structure Filled (room : Nat) (b : Build α) : Prop where
  id : b.nextSegmentId = b.lengthIndicators.length + 1
  bytes : (dataBytes b.dataField).length + liLength b.lengthIndicators.length + b.nextSegmentSize =
    room

theorem liLength_succ (n : Nat) :
    liLength (n + 1) = liLength n + if (n + 1) % 2 = 1 then 2 else 1 := by
  rw [liLength, liLength]
  split <;> omega

theorem Filled.takeMore {next : TxPdu α} {txBuffer : List (TxPdu α)} (h : Filled room b)
    (hfit : first.pdu.size + 2 < b.nextSegmentSize) :
    Filled room (takeMore b first next txBuffer) where
  id := by
    simp only [Rlc.takeMore, length_append, length_singleton, h.id]
  bytes := by
    have hbytes := h.bytes
    simp only [Rlc.takeMore, dataBytes_concat, length_append, length_singleton, liLength_succ, h.id]
    rw [Segment.size] at hfit ⊢
    split <;> omega

/-- The loop fills no more than the room. -/
theorem buildLoop_length : ∀ {fuel : Nat} {b : Build α}, Filled room b →
    (dataBytes (buildLoop fuel b).dataField).length + liLength
    (buildLoop fuel b).lengthIndicators.length ≤ room
  | 0, b, h => by
    have hbytes := h.bytes
    rw [buildLoop]
    omega
  | fuel + 1, b, h => by
    have hbytes := h.bytes
    have hlast : ∀ {first : TxPdu α}, first.pdu.size ≤ b.nextSegmentSize →
        (dataBytes (takeLast b first).dataField).length + liLength
        (takeLast b first).lengthIndicators.length ≤ room := by
      intro first hfit
      rw [Segment.size] at hfit
      simp only [takeLast, dataBytes_concat, length_append]
      omega
    rw [buildLoop]
    split
    · omega
    · next first hfirst =>
      split
      · split
        · have hnew : (first.pdu.bytes.take (min first.pdu.size b.nextSegmentSize)).length ≤
            b.nextSegmentSize := by
            rw [length_take]
            omega
          rw [takeSegment, endDataField]
          split
          · simp only [dataBytes_concat, length_append]
            omega
          · simp only [dataBytes_concat, length_append]
            omega
        · next hfit =>
          split
          · exact hlast (by omega)
          · next next txBuffer hbuffer =>
            split
            · exact hlast (by omega)
            · exact buildLoop_length (h.takeMore (by omega))
      · omega

theorem buildDataField_length (nextSegmentSize : Nat) (first : TxPdu α) (txBuffer : List (TxPdu α))
    (size : Nat) :
    (dataBytes (buildDataField nextSegmentSize first txBuffer size).dataField).length +
      liLength (buildDataField nextSegmentSize first txBuffer size).lengthIndicators.length ≤
        nextSegmentSize :=
  buildLoop_length ⟨rfl, by simp [dataBytes, liLength]⟩

/-- The first `n` packets, each of a length that a length indicator can have, fit in front of
another one, behind `k` length indicators. -/
structure Crowded (k n room : Nat) (packets : List (TxPdu α)) : Prop where
  more : n < packets.length
  short : ∀ p ∈ packets.take n, 0 < p.pdu.size ∧ p.pdu.size ≤ 2047
  fit : ((packets.take n).map (·.pdu.size)).sum + liLength (k + n - 1) + 2 < room + liLength k

theorem crowded_iff {k : Nat} {packets : List (TxPdu α)} : Crowded k n room packets ↔
    n < packets.length ∧ (∀ p ∈ packets.take n, 0 < p.pdu.size ∧ p.pdu.size ≤ 2047) ∧
      ((packets.take n).map (·.pdu.size)).sum + liLength (k + n - 1) + 2 < room + liLength k :=
  ⟨fun h => ⟨h.more, h.short, h.fit⟩, fun h => ⟨h.1, h.2.1, h.2.2⟩⟩

instance {k : Nat} {packets : List (TxPdu α)} : Decidable (Crowded k n room packets) :=
  decidable_of_iff _ crowded_iff.symm

theorem le_length_buildLoop : ∀ {fuel : Nat} {b : Build α},
    b.lengthIndicators.length ≤ (buildLoop fuel b).lengthIndicators.length
  | 0, _ => le_rfl
  | fuel + 1, b => by
    rw [buildLoop]
    split
    · exact le_rfl
    · split
      · split
        · rw [takeSegment, endDataField]
          split <;> exact le_rfl
        · split
          · exact le_rfl
          · split
            · exact le_rfl
            · refine le_trans ?_ le_length_buildLoop
              simp [takeMore]
      · exact le_rfl

/-- When the loop adds `n` length indicators or more: the induction is on its iterations. -/
theorem buildLoop_indicators : ∀ {fuel : Nat} {b : Build α} {first : TxPdu α} {n : Nat},
    b.txBuffer.length < fuel → b.firstSegment = some first →
      b.nextSegmentId = b.lengthIndicators.length + 1 →
    0 < n → (b.lengthIndicators.length + n ≤ (buildLoop fuel b).lengthIndicators.length ↔
      Crowded b.lengthIndicators.length n b.nextSegmentSize (first :: b.txBuffer))
  | 0, _, _, _, hfuel, _, _, _ => absurd hfuel (Nat.not_lt_zero _)
  | fuel + 1, b, first, n + 1, hfuel, hfirst, hid, _ => by
    -- the first of the packets fits, if it is taken with a length indicator
    have hcrowded : Crowded b.lengthIndicators.length (n + 1) b.nextSegmentSize
        (first :: b.txBuffer) → (0 < first.pdu.size ∧ first.pdu.size ≤ 2047) ∧ b.txBuffer ≠ [] ∧
          first.pdu.size + 2 < b.nextSegmentSize := by
      intro h
      have hfit := h.fit
      have hmore := h.more
      rw [take_succ_cons, map_cons, sum_cons, Nat.add_succ_sub_one, liLength, liLength] at hfit
      refine ⟨h.short first (by simp), ?_, by omega⟩
      rintro hnil
      rw [hnil] at hmore
      simp at hmore
    have hstop : ∀ {b' : Build α}, b'.lengthIndicators = b.lengthIndicators →
        ¬ ((0 < first.pdu.size ∧ first.pdu.size ≤ 2047) ∧ b.txBuffer ≠ [] ∧
          first.pdu.size + 2 < b.nextSegmentSize) →
        (b.lengthIndicators.length + (n + 1) ≤ b'.lengthIndicators.length ↔
          Crowded b.lengthIndicators.length (n + 1) b.nextSegmentSize (first :: b.txBuffer)) := by
      intro b' hsame hno
      rw [hsame]
      exact ⟨fun h => absurd h (by omega), fun h => absurd (hcrowded h) hno⟩
    simp only [buildLoop, hfirst]
    split
    · split
      · refine hstop ?_ (by omega)
        rw [takeSegment, endDataField]
        split <;> rfl
      · next hfit =>
        split
        · next hnil => exact hstop rfl fun h => h.2.1 hnil
        · next next txBuffer hbuffer =>
          split
          · exact hstop rfl (by omega)
          · next hmore =>
            have hlen : (takeMore b first next txBuffer).lengthIndicators.length =
              b.lengthIndicators.length + 1 := by
              simp [takeMore]
            have hroom : (takeMore b first next txBuffer).nextSegmentSize +
                liLength (b.lengthIndicators.length + 1) + first.pdu.size =
                  b.nextSegmentSize + liLength b.lengthIndicators.length := by
              simp only [takeMore, hid, liLength_succ]
              split <;> omega
            rw [hbuffer] at hfuel ⊢
            cases n with
            | zero =>
              refine iff_of_true ?_ ⟨by simp, ?_, ?_⟩
              · rw [← hlen]
                exact le_length_buildLoop
              · simp only [take_succ_cons, take_zero, mem_singleton, forall_eq]
                omega
              · simp only [take_succ_cons, take_zero, map_cons, map_nil, sum_cons,
                  sum_nil, Nat.add_succ_sub_one, Nat.add_zero]
                omega
            | succ n =>
              have ih := buildLoop_indicators (b := takeMore b first next txBuffer) (n := n + 1)
                (Nat.lt_of_succ_lt_succ hfuel) rfl (by rw [hlen]; simp [takeMore, hid]) n.succ_pos
              have hnext : (takeMore b first next txBuffer).txBuffer = txBuffer := rfl
              rw [hlen, hnext, Nat.add_assoc, Nat.add_comm 1] at ih
              rw [ih, crowded_iff, crowded_iff]
              simp only [length_cons, take_succ_cons, forall_mem_cons, map_cons,
                sum_cons, Nat.add_succ_sub_one]
              have hcomm : b.lengthIndicators.length + 1 + n = b.lengthIndicators.length +
                (n + 1) := by omega
              rw [hcomm]
              constructor
              · rintro ⟨hlt, hshort, hfit'⟩
                exact ⟨by omega, ⟨⟨by omega, by omega⟩, hshort⟩, by omega⟩
              · rintro ⟨hlt, ⟨-, hshort⟩, hfit'⟩
                exact ⟨by omega, hshort, by omega⟩
    · next hgo => exact hstop rfl (by omega)

/-- The condition for `n` length indicators, whatever the packets are. -/
theorem indicators_iff {nextSegmentSize : Nat} {txBuffer : List (TxPdu α)} (size : Nat)
    (hn : 0 < n) :
    n ≤ (buildDataField nextSegmentSize first txBuffer size).lengthIndicators.length ↔
      Crowded 0 n nextSegmentSize (first :: txBuffer) := by
  have h := buildLoop_indicators (n := n)
    (b := { firstSegment := some first
            nextSegmentSize
            txBuffer
            txBufferSize := sub32 size first.pdu.size })
    (Nat.lt_succ_self _) rfl rfl hn
  rwa [length_nil, Nat.zero_add] at h

end room

end OranNs3.Rlc
