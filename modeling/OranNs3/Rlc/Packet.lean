import OranNs3.Rlc.DataHeader
import OranNs3.Rlc.Stream

/-!
# Data PDUs as packets

`NrRlcHeader` counts the length of its header in 16 bits as `NrRlcAmHeader` does, while extension
bits are pushed and again while it is read, and `Packet::AddHeader` makes as much room in front of
the data as the header counts (`addHeader`). So a PDU is found again in its packet if its header is
shorter than `2 ^ 16` bytes (`umRemoveHeader_packet`, `amRemoveHeader_packet`); a longer one is
written over its own data.
-/

namespace OranNs3.Rlc

open List

variable {h : DataHeader} {bits : List Bool} {lis : List Nat}

/-- `NrRlcHeader`. -/
structure NrRlcHeader extends DataHeader where
  headerLength : Nat
deriving DecidableEq

namespace NrRlcHeader

/-- The constructor. -/
def new : NrRlcHeader where
  framingInfo := 0xff
  sequenceNumber := 0xfffa % 1024
  extensionBits := []
  lengthIndicators := []
  headerLength := 0

variable (n : NrRlcHeader)

def setFramingInfo (framingInfo : Nat) : NrRlcHeader :=
  { n with framingInfo := framingInfo &&& 0x03 }

def setSequenceNumber (sequenceNumber : Nat) : NrRlcHeader :=
  { n with sequenceNumber }

def pushExtensionBit (extensionBit : Bool) : NrRlcHeader :=
  { n with
    extensionBits := n.extensionBits ++ [extensionBit]
    headerLength :=
      if n.extensionBits.length + 1 = 1 then 2
      else if (n.extensionBits.length + 1) % 2 = 1 then (n.headerLength + 1) % 2 ^ 16
      else (n.headerLength + 2) % 2 ^ 16 }

def pushLengthIndicator (lengthIndicator : Nat) : NrRlcHeader :=
  { n with lengthIndicators := n.lengthIndicators ++ [lengthIndicator] }

/-- A header with the fields of `h`, as an entity builds it. -/
def build (h : DataHeader) : NrRlcHeader :=
  ((h.lengthIndicators.foldl pushLengthIndicator
    (h.extensionBits.foldl pushExtensionBit new)).setSequenceNumber h.sequenceNumber).setFramingInfo
    h.framingInfo

/-- `Deserialize`, into a new header; its loop is that of `NrRlcAmHeader`. -/
def deserialize (start : List Nat) : Except RlcError NrRlcHeader :=
  match start with
  | byte1 :: byte2 :: rest =>
    let n : NrRlcHeader :=
      { framingInfo := (byte1 &&& 0x18) >>> 3
        sequenceNumber := ((byte1 &&& 0x03) <<< 8 ||| byte2) % 1024
        extensionBits := [(byte1 &&& 0x04) >>> 2 = 1]
        lengthIndicators := []
        headerLength := 2 }
    if (byte1 &&& 0x04) >>> 2 = 1 then
      (NrRlcAmHeader.readLisFrom n.headerLength rest).map fun r =>
        { n with
          extensionBits := n.extensionBits ++ r.1
          lengthIndicators := r.2.1
          headerLength := r.2.2 }
    else .ok n
  | _ => .error .assertion

end NrRlcHeader

/-! ## Lengths -/

theorem length_umHeaderBytes (hlen : h.lengthIndicators.length + 1 = h.extensionBits.length) :
    (umHeaderBytes h).length = 2 + liLength h.lengthIndicators.length := by
  have htail : h.lengthIndicators.length = h.extensionBits.tail.length := by
    rw [length_tail]
    omega
  simp only [umHeaderBytes, length_cons, length_liBytes htail, liLength]
  omega

namespace NrRlcHeader

variable {n : NrRlcHeader}

theorem foldl_pushExtensionBit {k : Nat} (hk : n.extensionBits.length = k + 1)
    (hn : n.headerLength = (2 + liLength k) % 2 ^ 16) :
    bits.foldl pushExtensionBit n =
      { n with
        extensionBits := n.extensionBits ++ bits
        headerLength := (2 + liLength (k + bits.length)) % 2 ^ 16 } := by
  induction bits generalizing n k with
  | nil =>
    rw [append_nil, length_nil, Nat.add_zero, ← hn]
    rfl
  | cons b bits ih =>
    have hpush : n.pushExtensionBit b =
        { n with
          extensionBits := n.extensionBits ++ [b]
          headerLength := (2 + liLength (k + 1)) % 2 ^ 16 } := by
      rw [pushExtensionBit, hk, hn, if_neg (by omega), Nat.mod_add_mod, Nat.mod_add_mod, liLength,
        liLength]
      congr 1
      split <;> omega
    rw [foldl_cons, hpush, ih (k := k + 1) (by simp [hk]) rfl]
    simp only [append_assoc, singleton_append, length_cons, Nat.add_assoc, Nat.add_comm 1]

theorem foldl_pushLengthIndicator : lis.foldl pushLengthIndicator n =
    { n with lengthIndicators := n.lengthIndicators ++ lis } := by
  induction lis generalizing n with
  | nil =>
    rw [append_nil]
    rfl
  | cons li lis ih =>
    rw [foldl_cons, ih, pushLengthIndicator]
    simp only [append_assoc, singleton_append]

end NrRlcHeader

theorem DataHeader.Ok.build_eq (hok : h.Ok) : NrRlcHeader.build h =
    { h with headerLength := (2 + liLength h.lengthIndicators.length) % 2 ^ 16 } := by
  have hfi : h.framingInfo &&& 0x03 = h.framingInfo := by
    rw [show h.framingInfo &&& 0x03 = _ from Nat.and_two_pow_sub_one_eq_mod _ 2]
    exact Nat.mod_eq_of_lt hok.framingInfo
  obtain ⟨b, bits, hbits⟩ : ∃ b bits, h.extensionBits = b :: bits := by
    rw [hok.extensionBits]
    cases h.lengthIndicators <;> exact ⟨_, _, rfl⟩
  have hlen : bits.length = h.lengthIndicators.length := by
    have hlen := congrArg List.length (hbits.symm.trans hok.extensionBits)
    rw [extensionBitsOf, length_cons, length_append, length_replicate] at hlen
    exact Nat.succ.inj hlen
  rw [NrRlcHeader.build, hbits, foldl_cons, NrRlcHeader.foldl_pushExtensionBit (k := 0) rfl rfl,
    NrRlcHeader.foldl_pushLengthIndicator]
  simp only [NrRlcHeader.setFramingInfo, NrRlcHeader.setSequenceNumber,
    NrRlcHeader.pushExtensionBit,
    NrRlcHeader.new, nil_append, singleton_append, hfi, hlen, Nat.zero_add]
  rw [← hbits]

theorem umDeserialize_eq {start rest : List Nat} {g : DataHeader}
    (hread : readUm start = .ok (g, rest)) : ∃ n, NrRlcHeader.deserialize start = .ok n ∧
      n.toDataHeader = g ∧ n.headerLength = (start.length - rest.length) % 2 ^ 16 := by
  rcases start with _ | ⟨byte1, _ | ⟨byte2, start⟩⟩
  · cases hread
  · cases hread
  rw [readUm] at hread
  rw [NrRlcHeader.deserialize.eq_def]
  dsimp only at hread ⊢
  by_cases hmore : (byte1 &&& 0x04) >>> 2 = 1
  · rw [readTail, if_pos (decide_eq_true hmore)] at hread
    rw [if_pos hmore, readLisFrom_eq]
    cases hlis : readLis start with
    | error e =>
      rw [hlis] at hread
      cases hread
    | ok r =>
      rw [hlis] at hread
      cases hread
      have hlen := (readLis_spec hlis).2
      refine ⟨_, rfl, ?_, ?_⟩
      · simp [hmore]
      · simp only [length_cons]
        congr 1
        omega
  · rw [readTail, if_neg (by simpa using hmore)] at hread
    cases hread
    rw [if_neg hmore]
    refine ⟨_, rfl, ?_, ?_⟩
    · simp [hmore]
    · simp only [length_cons]
      omega

/-! ## Packets -/

/-- `Packet::AddHeader`: room of `size` bytes in front of the data, from where on the header is
written; what must hold before is `checkHeader`. -/
def addHeader (size : Nat) (header data : List Nat) : List Nat :=
  header ++ (List.replicate size 0 ++ data).drop header.length

/-- The header stands in the place of the bytes for which there is no room. -/
theorem addHeader_eq {size : Nat} {header : List Nat} (data : List Nat)
    (hle : size ≤ header.length) :
    addHeader size header data = header ++ data.drop (header.length - size) := by
  rw [addHeader, drop_append, length_replicate, drop_eq_nil_of_le (by simpa using hle), nil_append]

/-- The packet of a data PDU of an UM entity. -/
def umPacket (pdu : DataPdu Nat) : List Nat :=
  addHeader (NrRlcHeader.build pdu.header).headerLength
    (umHeaderBytes (NrRlcHeader.build pdu.header).toDataHeader) pdu.data

/-- `Packet::RemoveHeader` at an UM entity. -/
def umRemoveHeader (packet : List Nat) : Except RlcError (DataPdu Nat) :=
  (NrRlcHeader.deserialize packet).map fun n => n.toDataHeader.pdu (packet.drop n.headerLength)

/-- The packet of a data PDU of an AM entity. -/
def amPacket (pdu : AmPdu Nat) : List Nat :=
  addHeader (NrRlcAmHeader.build pdu.header).headerLength
    (amDataHeaderBytes (NrRlcAmHeader.build pdu.header).toAmDataHeader) pdu.data

/-- `Packet::RemoveHeader` at an AM entity, if it is not a control PDU. -/
def amRemoveHeader (packet : List Nat) : Except RlcError (Option (AmPdu Nat)) :=
  (NrRlcAmHeader.deserialize packet).map fun n =>
    n.map fun n => ⟨n.toDataHeader.pdu (packet.drop n.headerLength), n.pollingBit = 1⟩

/-- A packet of an AM entity. -/
def AmOutput.packet : AmOutput Nat → List Nat
  | .data pdu => amPacket pdu
  | .status st => statusBytes st

/-- The PDU of a packet, by its header. -/
def readPacket (packet : List Nat) : Except RlcError (AmOutput Nat) :=
  amRemoveHeader packet >>= fun pdu =>
    match pdu with
    | some pdu => .ok (.data pdu)
    | none => (readStatus packet).map .status

section packets
variable {pdu : DataPdu Nat} {am : AmPdu Nat}

theorem DataHeader.Ok.length_eq (hok : h.Ok) :
    h.lengthIndicators.length + 1 = h.extensionBits.length := by
  rw [hok.extensionBits, extensionBitsOf, length_append, length_replicate, length_singleton]

theorem umRemoveHeader_eq (hok : pdu.header.Ok) (data : List Nat) :
    umRemoveHeader (umHeaderBytes pdu.header ++ data) =
      .ok { pdu with data := (umHeaderBytes pdu.header ++ data).drop (pdu.umHeaderLength % 2 ^ 16)
        } := by
  obtain ⟨n, hn, hfields, hlength⟩ := umDeserialize_eq (readUm_bytes hok data)
  rw [length_append, Nat.add_sub_cancel, length_umHeaderBytes hok.length_eq] at hlength
  rw [umRemoveHeader, hn, Except.map, hlength, hfields]
  simp only [DataHeader.pdu, DataPdu.header, FramingInfo.ofBits_bits]
  rfl

/-- The packet has the header and the bytes in whose place it does not stand. -/
theorem umPacket_eq (hok : pdu.header.Ok) :
    umPacket pdu = umHeaderBytes pdu.header ++ pdu.carried := by
  have hlen : (umHeaderBytes pdu.header).length = pdu.umHeaderLength :=
    length_umHeaderBytes hok.length_eq
  rw [umPacket, hok.build_eq]
  refine (addHeader_eq pdu.data ?_).trans ?_
  · show pdu.umHeaderLength % 2 ^ 16 ≤ (umHeaderBytes pdu.header).length
    rw [hlen]
    exact Nat.mod_le _ _
  · show _ ++ pdu.data.drop ((umHeaderBytes pdu.header).length - pdu.umHeaderLength % 2 ^ 16) = _
    rw [hlen]
    rfl

/-- A PDU is found again in its packet, if its header can count its length. -/
theorem umRemoveHeader_packet (hok : pdu.header.Ok) (hlt : pdu.umHeaderLength < 2 ^ 16) :
    umRemoveHeader (umPacket pdu) = .ok pdu ∧
      (umPacket pdu).length = pdu.umHeaderLength + pdu.data.length := by
  have hlen : (umHeaderBytes pdu.header).length = pdu.umHeaderLength :=
    length_umHeaderBytes hok.length_eq
  have hall : pdu.carried = pdu.data := by rw [DataPdu.carried, overwritten_eq_zero hlt, drop_zero]
  rw [umPacket_eq hok, hall]
  constructor
  · rw [umRemoveHeader_eq hok, Nat.mod_eq_of_lt hlt, ← hlen, drop_left]
  · rw [length_append, hlen]

section
variable (hok : am.toDataPdu.header.Ok)
include hok

theorem AmPdu.header_inRange : am.header.InRange where
  framingInfo := hok.framingInfo
  sequenceNumber := hok.sequenceNumber
  resegmentationFlag := Nat.zero_le 1
  pollingBit := Bool.toNat_le am.pollingBit
  lastSegmentFlag := le_rfl
  segmentOffset := Nat.two_pow_pos 15
  extensionBits := by
    show am.toDataPdu.header.extensionBits.getLast? = some false
    rw [hok.extensionBits, extensionBitsOf, getLast?_concat]
  length := hok.length_eq
  lengthIndicators := hok.lengthIndicators

/-- The length of the header by its length indicators. -/
theorem amHeaderLength_pdu :
    amHeaderLength am.extensionBits.length = 4 + liLength am.lengthIndicators.length := by
  have hlen : am.lengthIndicators.length + 1 = am.extensionBits.length := hok.length_eq
  rw [← hlen, amHeaderLength_eq]
  rfl

theorem amRemoveHeader_eq (data : List Nat) :
    amRemoveHeader (amDataHeaderBytes am.header ++ data) = .ok (some { am with
      data := (amDataHeaderBytes am.header ++ data).drop
        (amHeaderLength am.extensionBits.length % 2 ^ 16) }) := by
  have hr := AmPdu.header_inRange hok
  have hread := readAm_bytes (h := am.header) hok hr.resegmentationFlag hr.pollingBit
    hr.lastSegmentFlag (Nat.succ_pos 255) data
  obtain ⟨n, hn, hfields, hlength⟩ := deserialize_eq hread
  rw [length_append, Nat.add_sub_cancel, length_amDataHeaderBytes hr.length] at hlength
  have hpoll : decide (am.header.pollingBit = 1) = am.pollingBit := by
    rw [AmPdu.header]
    cases am.pollingBit <;> rfl
  have hdata : am.header.toDataHeader = am.toDataPdu.header := rfl
  rw [amRemoveHeader, hn, Except.map, Option.map_some, hlength, hfields, hpoll, hdata]
  simp only [DataHeader.pdu, DataPdu.header, FramingInfo.ofBits_bits]

theorem amPacket_eq : amPacket am =
    amDataHeaderBytes am.header ++ am.data.drop
      (overwritten (amHeaderLength am.extensionBits.length)) := by
  have hr := AmPdu.header_inRange hok
  have hlen : (amDataHeaderBytes am.header).length = amHeaderLength am.extensionBits.length :=
    length_amDataHeaderBytes hr.length
  rw [amPacket, hr.build_eq]
  refine (addHeader_eq am.data ?_).trans ?_
  · show amHeaderLength am.extensionBits.length % 2 ^ 16 ≤ (amDataHeaderBytes am.header).length
    rw [hlen]
    exact Nat.mod_le _ _
  · show _ ++ am.data.drop
      ((amDataHeaderBytes am.header).length - amHeaderLength am.extensionBits.length % 2 ^ 16) = _
    rw [hlen]
    rfl

end

theorem amRemoveHeader_packet (am : AmPdu Nat) (hok : am.toDataPdu.header.Ok)
    (hlt : 4 + liLength am.lengthIndicators.length < 2 ^ 16) :
    amRemoveHeader (amPacket am) = .ok (some am) ∧
      (amPacket am).length = 4 + liLength am.lengthIndicators.length + am.data.length := by
  rw [← amHeaderLength_pdu hok] at hlt ⊢
  have hlen : (amDataHeaderBytes am.header).length = amHeaderLength am.extensionBits.length :=
    length_amDataHeaderBytes (AmPdu.header_inRange hok).length
  rw [amPacket_eq hok, overwritten_eq_zero hlt, drop_zero]
  constructor
  · rw [amRemoveHeader_eq hok, Nat.mod_eq_of_lt hlt, ← hlen, drop_left]
  · rw [length_append, hlen]

/-- A PDU with fewer than 43688 length indicators is passed to the MAC. -/
theorem passPdu_eq {r : AmTx Nat × Option (AmPdu Nat)}
    (h : ∀ am, r.2 = some am → am.toDataPdu.header.Ok ∧ am.lengthIndicators.length < 43688) :
    passPdu r = .ok r := by
  rw [passPdu]
  split
  · rfl
  · next am ham =>
    obtain ⟨hok, hfew⟩ := h am ham
    rw [amHeaderLength_pdu hok, checkHeader_ok (by omega) (by rw [liLength]; omega)]
    rfl

theorem readPacket_data (am : AmPdu Nat) (hok : am.toDataPdu.header.Ok)
    (hlt : 4 + liLength am.lengthIndicators.length < 2 ^ 16) :
    readPacket (AmOutput.packet (.data am)) = .ok (.data am) := by
  rw [readPacket, AmOutput.packet, (amRemoveHeader_packet am hok hlt).1]
  rfl

/-- A packet that is read as a control PDU has no header of a data PDU. -/
theorem readPacket_control {start rest : List Nat} {type : Nat} {st : StatusPdu}
    (hread : readAm start = .ok (.control type st, rest)) :
    readPacket start = .ok (.status st) := by
  rcases start with _ | ⟨byte1, _ | ⟨byte2, start⟩⟩
  · cases hread
  · cases hread
  rw [readAm.eq_def] at hread
  dsimp only at hread
  by_cases hdata : (byte1 &&& 0x80) >>> 7 = 1
  · rw [if_pos hdata] at hread
    rcases start with _ | ⟨byte3, _ | ⟨byte4, start⟩⟩
    · cases hread
    · cases hread
    dsimp only at hread
    cases htail : readTail ((byte1 &&& 0x04) >>> 2 = 1) start with
    | error e =>
      rw [htail] at hread
      cases hread
    | ok r =>
      rw [htail] at hread
      cases hread
  · rw [if_neg hdata] at hread
    have hnone : amRemoveHeader (byte1 :: byte2 :: start) = .ok none := by
      rw [amRemoveHeader, NrRlcAmHeader.deserialize.eq_def]
      dsimp only
      rw [if_neg hdata]
      rfl
    rw [readPacket, hnone]
    show (readStatus (byte1 :: byte2 :: start)).map AmOutput.status = _
    rw [readStatus]
    cases hlist : readNackList byte2 start with
    | error e =>
      rw [hlist] at hread
      cases hread
    | ok r =>
      rw [hlist] at hread
      cases hread
      rfl

theorem readPacket_status {st : StatusPdu} (hok : st.Ok) :
    readPacket (AmOutput.packet (.status st)) = .ok (.status st) :=
  readPacket_control (readAm_statusBytes hok)

end packets

/-! ## Headers that are too long -/

/-- The SDUs as a buffer of an entity that has sent nothing. -/
def fullSdus (sdus : List (List Nat)) : List (Segment Nat) := sdus.map fun sdu => ⟨sdu, .fullSdu⟩

section overlong
variable {r : Reassembler Nat} {pdu : DataPdu Nat} {n room : Nat}

/-- A header of 65537 bytes is counted as 1: its second byte is read as the first one of the data.
-/
theorem umRemoveHeader_overlong (hok : pdu.header.Ok) (hn : pdu.lengthIndicators.length = 43690) :
    ∃ data, umRemoveHeader (umPacket pdu) =
      .ok { pdu with data := (pdu.sequenceNumber &&& 0xFF) :: data } := by
  have hone : pdu.umHeaderLength % 2 ^ 16 = 1 := by
    rw [DataPdu.umHeaderLength, hn]
    rfl
  refine ⟨liBytes pdu.header.extensionBits.tail pdu.header.lengthIndicators ++ pdu.carried, ?_⟩
  rw [umPacket_eq hok, umRemoveHeader_eq hok, hone]
  rfl

/-- A header of 65538 bytes is counted as 2: the bytes of its segment offset are read as the first
ones of the data. -/
theorem amRemoveHeader_overlong {am : AmPdu Nat} (hok : am.toDataPdu.header.Ok)
    (hn : am.lengthIndicators.length = 43689) :
    ∃ data, amRemoveHeader (amPacket am) = .ok (some { am with data := 0x80 :: 0x00 :: data }) := by
  have htwo : amHeaderLength am.extensionBits.length % 2 ^ 16 = 2 := by
    rw [amHeaderLength_pdu hok, hn]
    rfl
  refine ⟨liBytes am.header.extensionBits.tail am.header.lengthIndicators ++
    am.data.drop (overwritten (amHeaderLength am.extensionBits.length)), ?_⟩
  have hflag : am.header.lastSegmentFlag = 1 := rfl
  have hoffset : am.header.segmentOffset = 0 := rfl
  rw [amPacket_eq hok, amRemoveHeader_eq hok, htwo, amDataHeaderBytes, hflag, hoffset]
  rfl

theorem splitSdus_ok : ∀ {n : Nat} {lis : List Nat} (data : List Nat), lis.length = n →
    ∃ c cs, splitSdus (extensionBitsOf n) lis data = .ok (c :: cs)
  | 0, _, data, _ => ⟨data, [], rfl⟩
  | n + 1, li :: lis, data, hlen => by
    obtain ⟨c, cs, hcs⟩ := splitSdus_ok (data.drop li) (Nat.succ.inj hlen)
    refine ⟨data.take li, c :: cs, ?_⟩
    rw [extensionBitsOf_succ, splitSdus, hcs]
    rfl

/-- The first PDU, if it starts with an SDU that another one follows: the SDU that is delivered is
found by its length indicator. -/
theorem reassemble_first (r : Reassembler Nat) (pdu : DataPdu Nat) {li : Nat} {lis : List Nat}
    (am : Bool) (hok : pdu.header.Ok) (hstate : r.reassemblingState = .waitingS0Full)
    (hbuf : r.sdusBuffer = [])
    (hsn : pdu.sequenceNumber = r.expectedSeqNumber) (hfirst : pdu.framingInfo.firstByte = true)
    (hli : pdu.lengthIndicators = li :: lis) :
    ∃ r', reassembleAndDeliver am r pdu = .ok r' ∧ pdu.data.take li ∈ r'.delivered := by
  have hext : pdu.extensionBits = extensionBitsOf (lis.length + 1) := by
    have hext : pdu.extensionBits = extensionBitsOf pdu.lengthIndicators.length := hok.extensionBits
    rw [hext, hli, length_cons]
  obtain ⟨c, cs, hcs⟩ := splitSdus_ok (pdu.data.drop li) (rfl : lis.length = lis.length)
  have hall : splitSdus pdu.extensionBits pdu.lengthIndicators pdu.data =
    .ok (pdu.data.take li :: c :: cs) := by
    rw [hext, extensionBitsOf_succ, hli, splitSdus, hcs]
    rfl
  have hlost : decide (pdu.sequenceNumber ≠ r.expectedSeqNumber) = false := by simp [hsn]
  rw [reassembleAndDeliver_eq hall, hlost]
  cases hlast : pdu.framingInfo.lastByte with
  | true =>
    simp only [transition, loaded, hstate, hfirst, hbuf, hlast, nil_append, Bool.not_true,
      Bool.and_false, Bool.false_eq_true, if_false, startSdus]
    exact ⟨_, rfl, by simp⟩
  | false =>
    simp only [transition, loaded, hstate, hfirst, hbuf, hlast, nil_append, Bool.not_true,
      Bool.and_false, Bool.false_eq_true, if_false, startSdus]
    exact ⟨_, rfl, by simp⟩

/-- The first PDU of a queue of SDUs of two bytes, if there is room for a length indicator of each
but the last. -/
theorem build_short_sdus (n room : Nat) (first : TxPdu Nat) (rest : List (TxPdu Nat)) (size : Nat)
    (hn : 0 < n) (hroom : 2 * n + liLength (n - 1) + 2 < room)
    (hqueue : (first :: rest).map (·.pdu) = fullSdus (replicate (n + 1) [9, 9])) :
    ∃ fi, framingInfoOf (buildDataField room first rest size).dataField = .ok fi ∧
      fi.firstByte = true ∧ (pduOf 0 (buildDataField room first rest size) fi).header.Ok ∧
      (buildDataField room first rest size).lengthIndicators = replicate n 2 ∧
      2 * n ≤ (dataBytes (buildDataField room first rest size).dataField).length := by
  have hne : [] ∉ replicate (n + 1) [9, 9] := fun h => by cases eq_of_mem_replicate h
  have hbuf : Buffered (replicate (n + 1) [9, 9]) ⟨0, []⟩ ((first :: rest).map (·.pdu)) := by
    rw [hqueue]
    have h := buffered_whole hne (Nat.zero_le _)
    rwa [drop_zero] at h
  obtain ⟨fi, p', hfi, hpdu, hheader, -⟩ :=
    hbuf.build size hne (show 0 < room by omega) (show 0 < 1024 by omega)
  have hsizes : ∀ q ∈ first :: rest, q.pdu.size = 2 := by
    intro q hq
    have hmem := mem_map_of_mem (f := (·.pdu)) hq
    rw [hqueue] at hmem
    obtain ⟨sdu, hsdu, hsdu'⟩ := mem_map.1 hmem
    rw [← hsdu', eq_of_mem_replicate hsdu]
    rfl
  have hcount : (first :: rest).length = n + 1 := by
    have h := congrArg List.length hqueue
    simpa [fullSdus] using h
  -- all of them but the last have a length indicator
  have hlen : (buildDataField room first rest size).lengthIndicators.length = n := by
    refine Nat.le_antisymm (Nat.le_of_not_lt fun hlt => ?_)
      ((indicators_iff size hn).2 ⟨?_, ?_, ?_⟩)
    · have hmore := ((indicators_iff size (Nat.succ_pos n)).1 hlt).more
      omega
    · omega
    · intro q hq
      rw [hsizes q (mem_of_mem_take hq)]
      omega
    · have hall : ((first :: rest).take n).map (·.pdu.size) = replicate n 2 := by
        refine eq_replicate_iff.2 ⟨by rw [length_map, length_take]; omega, fun m hm => ?_⟩
        obtain ⟨q, hq, rfl⟩ := mem_map.1 hm
        exact hsizes q (mem_of_mem_take hq)
      rw [hall, sum_replicate_nat, Nat.zero_add]
      omega
  obtain ⟨cs, hcs, hdata, -, hli⟩ := hpdu.carries
  have hwhole := hcs.reached.whole
  have hchunks : ∀ c ∈ cs.dropLast, c = [9, 9] := by
    intro c hc
    have hmem : c ∈ (replicate (n + 1) [9, 9]).take p'.sdus := by
      rw [hwhole, take_zero, nil_append, glue_nil_left]
      split
      · exact dropLast_subset _ hc
      · exact hc
    exact eq_of_mem_replicate (mem_of_mem_take hmem)
  have hli : (buildDataField room first rest size).lengthIndicators = cs.dropLast.map List.length :=
    hli
  have hlis : (buildDataField room first rest size).lengthIndicators = replicate n 2 := by
    refine eq_replicate_iff.2 ⟨hlen, fun m hm => ?_⟩
    rw [hli] at hm
    obtain ⟨c, hc, rfl⟩ := mem_map.1 hm
    rw [hchunks c hc]
    rfl
  refine ⟨fi, hfi, hpdu.firstByte.2 rfl, hheader, hlis, ?_⟩
  have hdata : dataBytes (buildDataField room first rest size).dataField = cs.flatten := hdata
  have hsum : (cs.dropLast.map List.length).sum = 2 * n := by
    rw [← hli, hlis, sum_replicate_nat, Nat.mul_comm]
  obtain ⟨last, hlast⟩ := dropLast_prefix cs
  rw [hdata, length_flatten, ← hsum, ← hlast, map_append, sum_append, hlast]
  exact Nat.le_add_right _ _

end overlong

end OranNs3.Rlc
