import OranNs3.Lib.BitField
import OranNs3.Rlc.Am

/-!
# RLC headers on the wire

`Serialize` and `Deserialize` of `NrRlcHeader` (`nr-rlc-header.cc`) and `NrRlcAmHeader`
(`nr-rlc-am-header.cc`): `Deserialize` reads a header from the bytes of a packet, and what it leaves
is the data field. Both headers of data PDUs end with the same list of extension bits and length
indicators of 11 bits, packed in pairs of 3 bytes (`liBytes`); the NACKs of a STATUS PDU have 10
bits and two extension bits each.

What is written is read again (`readUm_bytes`, `readAm_bytes`), for every header that an entity
builds: a list of extension bits that ends with the first zero, and a length indicator for each one
before.
-/

namespace OranNs3.Rlc

open BitField Bool List

/-! ## Length indicators -/

/-- The bytes of extension bits and length indicators. -/
def liBytes : List Bool → List Nat → List Nat
  | oddE :: evenE :: extensionBits, oddLi :: evenLi :: lengthIndicators =>
    ((oddE.toNat <<< 7 &&& 0x80) ||| (oddLi >>> 4 &&& 0x7F)) ::
      (((oddLi <<< 4 &&& 0xF0) ||| (evenE.toNat <<< 3 &&& 0x08)) ||| (evenLi >>> 8 &&& 0x07)) ::
      (evenLi &&& 0xFF) :: liBytes extensionBits lengthIndicators
  | oddE :: _, oddLi :: _ =>
    [(oddE.toNat <<< 7 &&& 0x80) ||| (oddLi >>> 4 &&& 0x7F), oddLi <<< 4 &&& 0xF0]
  | _, _ => []

/-- The loop that reads them, and what it leaves. -/
def readLis : List Nat → Except RlcError (List Bool × List Nat × List Nat)
  | byte1 :: byte2 :: rest =>
    if (byte1 &&& 0x80) >>> 7 = 1 then
      match rest with
      | byte3 :: rest =>
        if (byte2 &&& 0x08) >>> 3 = 1 then
          (readLis rest).map fun r =>
            (true :: true :: r.1,
              ((byte1 &&& 0x7F) <<< 4 ||| (byte2 &&& 0xF0) >>> 4) ::
                ((byte2 &&& 0x07) <<< 8 ||| (byte3 &&& 0xFF)) :: r.2.1,
              r.2.2)
        else
          .ok ([true, false],
            [(byte1 &&& 0x7F) <<< 4 ||| (byte2 &&& 0xF0) >>> 4,
              (byte2 &&& 0x07) <<< 8 ||| (byte3 &&& 0xFF)],
            rest)
      | [] => .error .assertion
    else .ok ([false], [(byte1 &&& 0x7F) <<< 4 ||| (byte2 &&& 0xF0) >>> 4], rest)
  | _ => .error .assertion

/-- The extension bits of a list of length indicators. -/
def extensionBitsOf (n : Nat) : List Bool := List.replicate n true ++ [false]

theorem extensionBitsOf_succ (n : Nat) : extensionBitsOf (n + 1) = true :: extensionBitsOf n := rfl

variable {e : Bool}

theorem oddByte_eq {li : Nat} (hli : li < 2048) :
    ((e.toNat <<< 7 &&& 0x80) ||| (li >>> 4 &&& 0x7F)) = e.toNat * 128 + li / 16 := by
  have he : e.toNat ≤ 1 := toNat_le e
  have h1 : e.toNat <<< 7 &&& 0x80 = e.toNat * 128 := by
    rw [show e.toNat <<< 7 &&& 0x80 = _ from and_mask _ 7 1, shl]
    omega
  have h2 : li >>> 4 &&& 0x7F = li / 16 := by
    rw [show li >>> 4 &&& 0x7F = _ from and_mask _ 0 7, shr]
    omega
  rw [h1, h2]
  exact or_eq_add 7 (by omega) (by omega)

variable {li li' : Nat}

theorem middleByte_eq (hli' : li' < 2048) :
    (((li <<< 4 &&& 0xF0) ||| (e.toNat <<< 3 &&& 0x08)) ||| (li' >>> 8 &&& 0x07)) =
      li % 16 * 16 + e.toNat * 8 + li' / 256 := by
  have he : e.toNat ≤ 1 := toNat_le e
  have h1 : li <<< 4 &&& 0xF0 = li % 16 * 16 := by
    rw [show li <<< 4 &&& 0xF0 = _ from and_mask _ 4 4, shl]
    omega
  have h2 : e.toNat <<< 3 &&& 0x08 = e.toNat * 8 := by
    rw [show e.toNat <<< 3 &&& 0x08 = _ from and_mask _ 3 1, shl]
    omega
  have h3 : li' >>> 8 &&& 0x07 = li' / 256 := by
    rw [show li' >>> 8 &&& 0x07 = _ from and_mask _ 0 3, shr]
    omega
  rw [h1, h2, h3, or_eq_add (a := li % 16 * 16) 4 (by omega) (by omega)]
  exact or_eq_add 3 (by omega) (by omega)

theorem oddLi_eq {li b : Nat} (hli : li < 2048) (hb : b < 16) :
    (((e.toNat * 128 + li / 16) &&& 0x7F) <<< 4 ||| ((li % 16 * 16 + b) &&& 0xF0) >>> 4) = li := by
  have h1 : (e.toNat * 128 + li / 16) &&& 0x7F = li / 16 := by
    rw [show (e.toNat * 128 + li / 16) &&& 0x7F = _ from and_mask _ 0 7]
    omega
  have h2 : (li % 16 * 16 + b) &&& 0xF0 = li % 16 * 16 := by
    rw [show (li % 16 * 16 + b) &&& 0xF0 = _ from and_mask _ 4 4]
    omega
  rw [h1, h2, shl, shr, or_eq_add (a := li / 16 * 2 ^ 4) 4 (by omega) (by omega)]
  omega

theorem evenLi_eq (hli' : li' < 2048) :
    (((li % 16 * 16 + e.toNat * 8 + li' / 256) &&& 0x07) <<< 8 ||| ((li' &&& 0xFF) &&& 0xFF)) =
    li' := by
  have he : e.toNat ≤ 1 := toNat_le e
  have h1 : (li % 16 * 16 + e.toNat * 8 + li' / 256) &&& 0x07 = li' / 256 := by
    rw [show (li % 16 * 16 + e.toNat * 8 + li' / 256) &&& 0x07 = _ from and_mask _ 0 3]
    omega
  have h2 : (li' &&& 0xFF) &&& 0xFF = li' % 256 := by
    rw [show (li' &&& 0xFF) &&& 0xFF = _ from and_mask _ 0 8,
      show li' &&& 0xFF = _ from and_mask _ 0 8]
    omega
  rw [h1, h2, shl, or_eq_add (a := li' / 256 * 2 ^ 8) 8 (by omega) (by omega)]
  omega

theorem oddE_eq {li : Nat} (hli : li < 2048) :
    ((e.toNat * 128 + li / 16) &&& 0x80) >>> 7 = e.toNat := by
  have he : e.toNat ≤ 1 := toNat_le e
  rw [show (e.toNat * 128 + li / 16) &&& 0x80 = _ from and_mask _ 7 1, shr]
  omega

theorem evenE_eq (hli' : li' < 2048) :
    ((li % 16 * 16 + e.toNat * 8 + li' / 256) &&& 0x08) >>> 3 = e.toNat := by
  have he : e.toNat ≤ 1 := toNat_le e
  rw [show (li % 16 * 16 + e.toNat * 8 + li' / 256) &&& 0x08 = _ from and_mask _ 3 1, shr]
  omega

theorem readLis_bytes (rest : List Nat) : ∀ {n : Nat} {lis : List Nat}, lis.length = n + 1 →
    (∀ li ∈ lis, li < 2048) →
    readLis (liBytes (extensionBitsOf n) lis ++ rest) = .ok (extensionBitsOf n, lis, rest)
  | 0, [li], _, hli => by
    have hli := hli li mem_cons_self
    have h16 : li <<< 4 &&& 0xF0 = li % 16 * 16 + 0 := by
      rw [show li <<< 4 &&& 0xF0 = _ from and_mask _ 4 4, shl]
      omega
    simp only [extensionBitsOf, replicate_zero, nil_append, liBytes, cons_append]
    rw [oddByte_eq hli, h16, readLis.eq_def]
    simp only
    rw [oddE_eq hli, oddLi_eq hli (by omega)]
    rfl
  | 1, [li, li'], _, hli => by
    have hli₁ := hli li mem_cons_self
    have hli₂ := hli li' (mem_cons_of_mem _ mem_cons_self)
    simp only [extensionBitsOf, replicate_succ, replicate_zero, nil_append,
      cons_append, liBytes, readLis]
    rw [oddByte_eq hli₁, middleByte_eq hli₂, oddE_eq hli₁, evenE_eq hli₂, evenLi_eq hli₂,
      Nat.add_assoc, oddLi_eq hli₁ (by simp; omega)]
    rfl
  | n + 2, li :: li' :: lis, hlen, hli => by
    have hli₁ := hli li mem_cons_self
    have hli₂ := hli li' (mem_cons_of_mem _ mem_cons_self)
    have hlen' : lis.length = n + 1 := by simpa using hlen
    have ih := readLis_bytes rest hlen' fun l hl =>
      hli l (mem_cons_of_mem _ (mem_cons_of_mem _ hl))
    simp only [extensionBitsOf_succ, liBytes, cons_append, readLis]
    rw [oddByte_eq hli₁, middleByte_eq hli₂, oddE_eq hli₁, evenE_eq hli₂, evenLi_eq hli₂,
      Nat.add_assoc, oddLi_eq hli₁ (by simp; omega), ih]
    rfl

/-! ## Data PDUs -/

variable (fi : FramingInfo)

/-- The framing information on the wire: a bit that is set where there is no first or last byte. -/
def FramingInfo.bits : Nat :=
  (if fi.firstByte then 0x00 else 0x02) ||| (if fi.lastByte then 0x00 else 0x01)

/-- The cases of `ReassembleAndDeliver`. -/
def FramingInfo.ofBits (n : Nat) : FramingInfo := ⟨n &&& 0x02 = 0, n &&& 0x01 = 0⟩

theorem FramingInfo.bits_lt : fi.bits < 4 := by
  rcases fi with ⟨_ | _, _ | _⟩ <;> decide

theorem FramingInfo.ofBits_bits : ofBits fi.bits = fi := by
  rcases fi with ⟨_ | _, _ | _⟩ <;> decide

/-- The fields that the headers of both kinds of data PDU have. -/
structure DataHeader where
  framingInfo : Nat
  sequenceNumber : Nat
  extensionBits : List Bool
  lengthIndicators : List Nat
deriving DecidableEq

/-- The header of a PDU. -/
def DataPdu.header {α : Type} (pdu : DataPdu α) : DataHeader where
  framingInfo := pdu.framingInfo.bits
  sequenceNumber := pdu.sequenceNumber
  extensionBits := pdu.extensionBits
  lengthIndicators := pdu.lengthIndicators

/-- The PDU of a header and a data field. -/
def DataHeader.pdu {α : Type} (h : DataHeader) (data : List α) : DataPdu α where
  sequenceNumber := h.sequenceNumber
  framingInfo := .ofBits h.framingInfo
  extensionBits := h.extensionBits
  lengthIndicators := h.lengthIndicators
  data := data

/-- A header that can be written: a sequence number of 10 bits and framing information of 2,
extension bits up to the first zero, and a length indicator of 11 bits for each one. -/
structure DataHeader.Ok (h : DataHeader) : Prop where
  framingInfo : h.framingInfo < 4
  sequenceNumber : h.sequenceNumber < 1024
  extensionBits : h.extensionBits = extensionBitsOf h.lengthIndicators.length
  lengthIndicators : ∀ li ∈ h.lengthIndicators, li < 2048

/-- `NrRlcHeader::Serialize`. -/
def umHeaderBytes (h : DataHeader) : List Nat :=
  (((h.framingInfo <<< 3 &&& 0x18) ||| ((h.extensionBits.headD false).toNat <<< 2 &&& 0x04)) |||
      (h.sequenceNumber >>> 8 &&& 0x03)) ::
    (h.sequenceNumber &&& 0xFF) :: liBytes h.extensionBits.tail h.lengthIndicators

/-- The rest of a header whose first extension bit has been read. -/
def readTail (first : Bool) (rest : List Nat) : Except RlcError (List Bool × List Nat × List Nat) :=
  if first then (readLis rest).map fun r => (true :: r.1, r.2) else .ok ([false], [], rest)

/-- `NrRlcHeader::Deserialize`, and the data field behind it. -/
def readUm : List Nat → Except RlcError (DataHeader × List Nat)
  | byte1 :: byte2 :: rest =>
    (readTail ((byte1 &&& 0x04) >>> 2 = 1) rest).map fun r =>
      ({ framingInfo := (byte1 &&& 0x18) >>> 3
         sequenceNumber := ((byte1 &&& 0x03) <<< 8 ||| byte2) % 1024
         extensionBits := r.1
         lengthIndicators := r.2.1 }, r.2.2)
  | _ => .error .assertion

theorem readTail_bytes {h : DataHeader} (hok : h.Ok) (rest : List Nat) :
    readTail (h.extensionBits.headD false)
      (liBytes h.extensionBits.tail h.lengthIndicators ++ rest) =
        .ok (h.extensionBits, h.lengthIndicators, rest) := by
  rw [hok.extensionBits]
  cases hlis : h.lengthIndicators with
  | nil => rfl
  | cons li lis =>
    have hlen : (li :: lis).length = lis.length + 1 := rfl
    have hread := readLis_bytes rest hlen (by
      rw [← hlis]
      exact hok.lengthIndicators)
    rw [length_cons, extensionBitsOf_succ, headD_cons, tail_cons, readTail, if_pos rfl, hread]
    rfl

section fixed
variable {fi e sn : Nat}

theorem fixed_eq {c : Nat} (hc : c % 32 = 0) (hfi : fi < 4) (he : e ≤ 1) (hsn : sn < 1024) :
    (((c + fi * 8 + e * 4 + sn / 256) &&& 0x18) >>> 3 = fi) ∧
      (((c + fi * 8 + e * 4 + sn / 256) &&& 0x04) >>> 2 = e) ∧
      (((c + fi * 8 + e * 4 + sn / 256) &&& 0x03) <<< 8 ||| (sn &&& 0xFF)) % 1024 = sn := by
  have h255 : sn &&& 0xFF = sn % 256 := by
    rw [show sn &&& 0xFF = _ from and_mask _ 0 8]
    omega
  have h3 : (c + fi * 8 + e * 4 + sn / 256) &&& 0x03 = sn / 256 := by
    rw [show (c + fi * 8 + e * 4 + sn / 256) &&& 0x03 = _ from and_mask _ 0 2]
    omega
  refine ⟨?_, ?_, ?_⟩
  · rw [show (c + fi * 8 + e * 4 + sn / 256) &&& 0x18 = _ from and_mask _ 3 2, shr]
    omega
  · rw [show (c + fi * 8 + e * 4 + sn / 256) &&& 0x04 = _ from and_mask _ 2 1, shr]
    omega
  · rw [h3, h255, shl, or_eq_add (a := sn / 256 * 2 ^ 8) 8 (by omega) (by omega)]
    omega

theorem lowBits_eq (hfi : fi < 4) (he : e ≤ 1) (hsn : sn < 1024) :
    (fi <<< 3 &&& 0x18 = fi * 8) ∧ (e <<< 2 &&& 0x04 = e * 4) ∧ (sn >>> 8 &&& 0x03 = sn / 256) := by
  refine ⟨?_, ?_, ?_⟩
  · rw [show fi <<< 3 &&& 0x18 = _ from and_mask _ 3 2, shl]
    omega
  · rw [show e <<< 2 &&& 0x04 = _ from and_mask _ 2 1, shl]
    omega
  · rw [show sn >>> 8 &&& 0x03 = _ from and_mask _ 0 2, shr]
    omega

end fixed

theorem readUm_bytes {h : DataHeader} (hok : h.Ok) (data : List Nat) :
    readUm (umHeaderBytes h ++ data) = .ok (h, data) := by
  have he : (h.extensionBits.headD false).toNat ≤ 1 := toNat_le _
  obtain ⟨h1, h2, h3⟩ := lowBits_eq hok.framingInfo he hok.sequenceNumber
  obtain ⟨h4, h5, h6⟩ := fixed_eq (c := 0) rfl hok.framingInfo he hok.sequenceNumber
  rw [Nat.zero_add] at h4 h5 h6
  have hsn := hok.sequenceNumber
  simp only [umHeaderBytes, cons_append, readUm]
  rw [h1, h2, h3, or_eq_add (a := h.framingInfo * 8) 3 (by omega) (by omega),
    or_eq_add (a := h.framingInfo * 8 + (h.extensionBits.headD false).toNat * 4) 2 (by omega)
    (by omega),
    h4, h5, h6]
  have hfirst : decide ((h.extensionBits.headD false).toNat = 1) = h.extensionBits.headD false := by
    cases h.extensionBits.headD false <;> rfl
  rw [hfirst, readTail_bytes hok]
  rfl

/-! ## AM PDUs -/

/-- The header of an AM data PDU. -/
structure AmDataHeader extends DataHeader where
  resegmentationFlag : Nat
  pollingBit : Nat
  lastSegmentFlag : Nat
  segmentOffset : Nat
deriving DecidableEq

/-- What `Deserialize` of `NrRlcAmHeader` finds. -/
inductive AmHeader
  | data (h : AmDataHeader)
  | control (type : Nat) (st : StatusPdu)
deriving DecidableEq

/-- `NrRlcAmHeader::Serialize` of a data PDU. -/
def amDataHeaderBytes (h : AmDataHeader) : List Nat :=
  ((((((1 <<< 7 &&& 0x80) ||| (h.resegmentationFlag <<< 6 &&& 0x40)) |||
          (h.pollingBit <<< 5 &&& 0x20)) ||| (h.framingInfo <<< 3 &&& 0x18)) |||
        ((h.extensionBits.headD false).toNat <<< 2 &&& 0x04)) |||
          (h.sequenceNumber >>> 8 &&& 0x03)) ::
    (h.sequenceNumber &&& 0xFF) ::
    ((h.lastSegmentFlag <<< 7 &&& 0x80) ||| (h.segmentOffset >>> 8 &&& 0x7F)) ::
    (h.segmentOffset &&& 0xFF) :: liBytes h.extensionBits.tail h.lengthIndicators

/-- The bytes of the NACKs, of which the first bit of `oddNack` has been written. -/
def nackBytes (oddNack : Nat) : List Nat → List Nat
  | [] => [oddNack >>> 1 &&& 0xFF, oddNack <<< 7 &&& 0x80]
  | [evenNack] =>
    [oddNack >>> 1 &&& 0xFF, ((oddNack <<< 7 &&& 0x80) ||| 0x40) ||| (evenNack >>> 5 &&& 0x1F),
      evenNack <<< 3 &&& 0xF8]
  | evenNack :: oddNack' :: nacks =>
    (oddNack >>> 1 &&& 0xFF) ::
      (((oddNack <<< 7 &&& 0x80) ||| 0x40) ||| (evenNack >>> 5 &&& 0x1F)) ::
      (((evenNack <<< 3 &&& 0xF8) ||| 0x04) ||| (oddNack' >>> 9 &&& 0x01)) :: nackBytes oddNack'
        nacks

/-- `NrRlcAmHeader::Serialize` of a STATUS PDU. -/
def statusBytes (st : StatusPdu) : List Nat :=
  (((0 <<< 7 &&& 0x80) ||| (0 <<< 4 &&& 0x70)) ||| (st.ackSn >>> 6 &&& 0x0F)) ::
    match st.nackSnList with
    | [] => [st.ackSn <<< 2 &&& 0xFC]
    | nack :: nacks =>
      (((st.ackSn <<< 2 &&& 0xFC) ||| 0x02) ||| (nack >>> 9 &&& 0x01)) :: nackBytes nack nacks

/-- The loop that reads the NACKs behind the first, with the byte read last. -/
def readNacks (byte : Nat) : List Nat → Except RlcError (List Nat × List Nat)
  | nextByte :: rest =>
    if (nextByte &&& 0x04) >>> 2 = 1 then
      match rest with
      | middleByte :: finalByte :: rest =>
        if (finalByte &&& 0x40) >>> 6 = 1 then
          (readNacks finalByte rest).map fun r =>
            (((byte &&& 0x1F) <<< 5 ||| (nextByte &&& 0xF8) >>> 3) ::
              (((nextByte &&& 0x01) <<< 9 ||| middleByte <<< 1) ||| (finalByte &&& 0x80) >>> 7) ::
              r.1, r.2)
        else
          .ok ([(byte &&& 0x1F) <<< 5 ||| (nextByte &&& 0xF8) >>> 3,
            ((nextByte &&& 0x01) <<< 9 ||| middleByte <<< 1) ||| (finalByte &&& 0x80) >>> 7], rest)
      | _ => .error .assertion
    else .ok ([(byte &&& 0x1F) <<< 5 ||| (nextByte &&& 0xF8) >>> 3], rest)
  | [] => .error .assertion

/-- The NACKs behind the second byte of a STATUS PDU. -/
def readNackList (byte2 : Nat) (rest : List Nat) : Except RlcError (List Nat × List Nat) :=
  if (byte2 &&& 0x02) >>> 1 = 1 then
    match rest with
    | byte3 :: byte4 :: rest =>
      (if (byte4 &&& 0x40) >>> 6 = 1 then readNacks byte4 rest else .ok ([], rest)).map fun r =>
        ((((byte2 &&& 0x01) <<< 9 ||| byte3 <<< 1) ||| (byte4 &&& 0x80) >>> 7) :: r.1, r.2)
    | _ => .error .assertion
  else .ok ([], rest)

/-- The STATUS PDU of a packet with a control PDU; one of another type is read in the same way. -/
def readStatus : List Nat → Except RlcError StatusPdu
  | byte1 :: byte2 :: rest =>
    (readNackList byte2 rest).map fun r =>
      ⟨((byte1 &&& 0x0F) <<< 6 ||| (byte2 &&& 0xFC) >>> 2) % 1024, r.1⟩
  | _ => .error .assertion

/-- `NrRlcAmHeader::Deserialize`, and what it leaves. The upper bits of the
segment offset are not shifted. -/
def readAm : List Nat → Except RlcError (AmHeader × List Nat)
  | byte1 :: byte2 :: rest =>
    if (byte1 &&& 0x80) >>> 7 = 1 then
      match rest with
      | byte3 :: byte4 :: rest =>
        (readTail ((byte1 &&& 0x04) >>> 2 = 1) rest).map fun r =>
          (.data
            { framingInfo := (byte1 &&& 0x18) >>> 3
              sequenceNumber := ((byte1 &&& 0x03) <<< 8 ||| byte2) % 1024
              extensionBits := r.1
              lengthIndicators := r.2.1
              resegmentationFlag := (byte1 &&& 0x40) >>> 6
              pollingBit := (byte1 &&& 0x20) >>> 5
              lastSegmentFlag := (byte3 &&& 0x80) >>> 7
              segmentOffset := (byte3 &&& 0x7F) ||| byte4 }, r.2.2)
      | _ => .error .assertion
    else
      (readNackList byte2 rest).map fun r =>
        (.control ((byte1 &&& 0x70) >>> 4)
          ⟨((byte1 &&& 0x0F) <<< 6 ||| (byte2 &&& 0xFC) >>> 2) % 1024, r.1⟩, r.2)
  | _ => .error .assertion

section nacks
variable {odd even v w z : Nat}

theorem oddEvenByte_eq (heven : even < 1024) :
    (((odd <<< 7 &&& 0x80) ||| 0x40) ||| (even >>> 5 &&& 0x1F)) = odd % 2 * 128 + 64 + even /
    32 := by
  have h1 : odd <<< 7 &&& 0x80 = odd % 2 * 128 := by
    rw [show odd <<< 7 &&& 0x80 = _ from and_mask _ 7 1, shl]
    omega
  have h2 : even >>> 5 &&& 0x1F = even / 32 := by
    rw [show even >>> 5 &&& 0x1F = _ from and_mask _ 0 5, shr]
    omega
  rw [h1, h2, or_eq_add (a := odd % 2 * 128) 7 (by omega) (by omega)]
  exact or_eq_add 6 (by omega) (by omega)

theorem evenOddByte_eq (hodd : odd < 1024) :
    (((even <<< 3 &&& 0xF8) ||| 0x04) ||| (odd >>> 9 &&& 0x01)) =
    even % 32 * 8 + 4 + odd / 512 := by
  have h1 : even <<< 3 &&& 0xF8 = even % 32 * 8 := by
    rw [show even <<< 3 &&& 0xF8 = _ from and_mask _ 3 5, shl]
    omega
  have h2 : odd >>> 9 &&& 0x01 = odd / 512 := by
    rw [show odd >>> 9 &&& 0x01 = _ from and_mask _ 0 1, shr]
    omega
  rw [h1, h2, or_eq_add (a := even % 32 * 8) 3 (by omega) (by omega)]
  exact or_eq_add 2 (by omega) (by omega)

theorem evenNack_eq (heven : even < 1024) (hz : z < 8) :
    (((v * 32 + even / 32) &&& 0x1F) <<< 5 ||| ((even % 32 * 8 + z) &&& 0xF8) >>> 3) = even := by
  have h1 : (v * 32 + even / 32) &&& 0x1F = even / 32 := by
    rw [show (v * 32 + even / 32) &&& 0x1F = _ from and_mask _ 0 5]
    omega
  have h2 : (even % 32 * 8 + z) &&& 0xF8 = even % 32 * 8 := by
    rw [show (even % 32 * 8 + z) &&& 0xF8 = _ from and_mask _ 3 5]
    omega
  rw [h1, h2, shl, shr, or_eq_add (a := even / 32 * 2 ^ 5) 5 (by omega) (by omega)]
  omega

theorem oddNack_eq (hodd : odd < 1024) (hz : z < 128) :
    ((((v * 2 + odd / 512) &&& 0x01) <<< 9 ||| (odd >>> 1 &&& 0xFF) <<< 1) |||
      ((odd % 2 * 128 + z) &&& 0x80) >>> 7) = odd := by
  have h1 : (v * 2 + odd / 512) &&& 0x01 = odd / 512 := by
    rw [show (v * 2 + odd / 512) &&& 0x01 = _ from and_mask _ 0 1]
    omega
  have h2 : odd >>> 1 &&& 0xFF = odd / 2 % 256 := by
    rw [show odd >>> 1 &&& 0xFF = _ from and_mask _ 0 8, shr]
    omega
  have h3 : (odd % 2 * 128 + z) &&& 0x80 = odd % 2 * 128 := by
    rw [show (odd % 2 * 128 + z) &&& 0x80 = _ from and_mask _ 7 1]
    omega
  rw [h1, h2, h3, shl, shl, shr, or_eq_add (a := odd / 512 * 2 ^ 9) 9 (by omega) (by omega),
    or_eq_add (a := odd / 512 * 2 ^ 9 + odd / 2 % 256 * 2 ^ 1) 1 (by omega) (by omega)]
  omega

theorem flag_eq (k : Nat) (h : v / 2 ^ k % 2 = w) : (v &&& (1 <<< k)) >>> k = w := by
  have hmask : v &&& (1 <<< k) = v / 2 ^ k % 2 * 2 ^ k := and_mask v k 1
  rw [hmask, shr, Nat.mul_div_cancel _ (Nat.two_pow_pos k), h]

/-- The NACKs behind an odd one are read from the byte after it on. -/
theorem readNacks_bytes (rest : List Nat) : ∀ (nacks : List Nat) {odd even : Nat}, odd < 1024 →
    even < 1024 → (∀ n ∈ nacks, n < 1024) → ∃ bytes,
      nackBytes odd (even :: nacks) =
        (odd >>> 1 &&& 0xFF) :: (odd % 2 * 128 + 64 + even / 32) :: bytes ∧
      readNacks (odd % 2 * 128 + 64 + even / 32) (bytes ++ rest) = .ok (even :: nacks, rest)
  | [], odd, even, hodd, heven, _ => by
    refine ⟨[even <<< 3 &&& 0xF8], ?_, ?_⟩
    · simp only [nackBytes]
      rw [oddEvenByte_eq heven]
    · have h1 : even <<< 3 &&& 0xF8 = even % 32 * 8 + 0 := by
        rw [show even <<< 3 &&& 0xF8 = _ from and_mask _ 3 5, shl]
        omega
      have hflag : ((even % 32 * 8 + 0) &&& 0x04) >>> 2 = 0 := flag_eq 2 (by omega)
      have hread := evenNack_eq (v := odd % 2 * 4 + 2) (z := 0) heven (by omega)
      rw [show (odd % 2 * 4 + 2) * 32 + even / 32 = odd % 2 * 128 + 64 + even / 32 by
        omega] at hread
      rw [h1, singleton_append, readNacks.eq_def]
      simp only
      rw [hflag, hread]
      rfl
  | [odd'], odd, even, hodd, heven, hnacks => by
    have hodd' := hnacks odd' mem_cons_self
    refine ⟨(even % 32 * 8 + 4 + odd' / 512) :: nackBytes odd' [], ?_, ?_⟩
    · simp only [nackBytes]
      rw [oddEvenByte_eq heven, evenOddByte_eq hodd']
    · have h1 : odd' <<< 7 &&& 0x80 = odd' % 2 * 128 + 0 := by
        rw [show odd' <<< 7 &&& 0x80 = _ from and_mask _ 7 1, shl]
        omega
      have hflag : ((even % 32 * 8 + 4 + odd' / 512) &&& 0x04) >>> 2 = 1 := flag_eq 2 (by omega)
      have hflag' : ((odd' % 2 * 128 + 0) &&& 0x40) >>> 6 = 0 := flag_eq 6 (by omega)
      have hread := evenNack_eq (v := odd % 2 * 4 + 2) (z := 4 + odd' / 512) heven (by omega)
      rw [show (odd % 2 * 4 + 2) * 32 + even / 32 = odd % 2 * 128 + 64 + even / 32 by omega,
        ← Nat.add_assoc] at hread
      have hread' := oddNack_eq (v := even % 32 * 4 + 2) (z := 0) hodd' (by omega)
      rw [show (even % 32 * 4 + 2) * 2 + odd' / 512 = even % 32 * 8 + 4 + odd' / 512 by
        omega] at hread'
      simp only [nackBytes, cons_append, nil_append, readNacks, h1]
      rw [hflag, hflag', hread, hread']
      rfl
  | odd' :: even' :: nacks, odd, even, hodd, heven, hnacks => by
    have hodd' := hnacks odd' mem_cons_self
    have heven' := hnacks even' (mem_cons_of_mem _ mem_cons_self)
    obtain ⟨bytes, hbytes, hrest⟩ := readNacks_bytes rest nacks hodd' heven' fun n hn =>
      hnacks n (mem_cons_of_mem _ (mem_cons_of_mem _ hn))
    refine ⟨(even % 32 * 8 + 4 + odd' / 512) :: nackBytes odd' (even' :: nacks), ?_, ?_⟩
    · simp only [nackBytes]
      rw [oddEvenByte_eq heven, evenOddByte_eq hodd']
    · have hflag : ((even % 32 * 8 + 4 + odd' / 512) &&& 0x04) >>> 2 = 1 := flag_eq 2 (by omega)
      have hflag' : ((odd' % 2 * 128 + 64 + even' / 32) &&& 0x40) >>> 6 = 1 := flag_eq 6 (by omega)
      have hread := evenNack_eq (v := odd % 2 * 4 + 2) (z := 4 + odd' / 512) heven (by omega)
      rw [show (odd % 2 * 4 + 2) * 32 + even / 32 = odd % 2 * 128 + 64 + even / 32 by omega,
        ← Nat.add_assoc] at hread
      have hread' := oddNack_eq (v := even % 32 * 4 + 2) (z := 64 + even' / 32) hodd' (by omega)
      rw [show (even % 32 * 4 + 2) * 2 + odd' / 512 = even % 32 * 8 + 4 + odd' / 512 by omega,
        ← Nat.add_assoc] at hread'
      rw [hbytes]
      simp only [cons_append, readNacks]
      rw [hflag, hflag', hread, hread', hrest]
      rfl

end nacks

/-- A STATUS PDU that can be written: sequence numbers of 10 bits. -/
structure StatusPdu.Ok (st : StatusPdu) : Prop where
  ackSn : st.ackSn < 1024
  nackSnList : ∀ n ∈ st.nackSnList, n < 1024

theorem ackSn_eq {ack z : Nat} (hack : ack < 1024) (hz : z < 4) :
    ((ack / 64 &&& 0x0F) <<< 6 ||| ((ack % 64 * 4 + z) &&& 0xFC) >>> 2) % 1024 = ack := by
  have h1 : ack / 64 &&& 0x0F = ack / 64 := by
    rw [show ack / 64 &&& 0x0F = _ from and_mask _ 0 4]
    omega
  have h2 : (ack % 64 * 4 + z) &&& 0xFC = ack % 64 * 4 := by
    rw [show (ack % 64 * 4 + z) &&& 0xFC = _ from and_mask _ 2 6]
    omega
  rw [h1, h2, shl, shr, or_eq_add (a := ack / 64 * 2 ^ 6) 6 (by omega) (by omega)]
  omega

/-- A STATUS PDU is read again. -/
theorem readAm_statusBytes {st : StatusPdu} (hok : st.Ok) :
    readAm (statusBytes st) = .ok (.control 0 st, []) := by
  obtain ⟨ack, nacks⟩ := st
  have hack := hok.ackSn
  have hnacks := hok.nackSnList
  simp only at hack hnacks
  have hb1 : (((0 <<< 7 &&& 0x80) ||| (0 <<< 4 &&& 0x70)) ||| (ack >>> 6 &&& 0x0F)) = ack / 64 := by
    rw [show ack >>> 6 &&& 0x0F = _ from and_mask _ 0 4, shr,
      or_eq_add (a := (0 <<< 7 &&& 0x80) ||| (0 <<< 4 &&& 0x70)) 4 rfl (by omega)]
    have hz : ((0 <<< 7 &&& 0x80) ||| (0 <<< 4 &&& 0x70)) = 0 := rfl
    omega
  have hfc : ack <<< 2 &&& 0xFC = ack % 64 * 4 := by
    rw [show ack <<< 2 &&& 0xFC = _ from and_mask _ 2 6, shl]
    omega
  have hdc : ((ack / 64) &&& 0x80) >>> 7 = 0 := flag_eq 7 (by omega)
  have htype : ((ack / 64) &&& 0x70) >>> 4 = 0 := by
    rw [show (ack / 64) &&& 0x70 = _ from and_mask _ 4 3, shr]
    omega
  cases nacks with
  | nil =>
    have hmore : ((ack % 64 * 4 + 0) &&& 0x02) >>> 1 = 0 := flag_eq 1 (by omega)
    have hfc' : ack <<< 2 &&& 0xFC = ack % 64 * 4 + 0 := hfc
    simp only [statusBytes, hb1, hfc', readAm]
    rw [hdc, htype, ackSn_eq hack (by omega), readNackList.eq_def, hmore]
    rfl
  | cons nack nacks =>
    have hnack := hnacks nack mem_cons_self
    have hb2 : (((ack <<< 2 &&& 0xFC) ||| 0x02) ||| (nack >>> 9 &&& 0x01)) =
        ack % 64 * 4 + (2 + nack / 512) := by
      have h9 : nack >>> 9 &&& 0x01 = nack / 512 := by
        rw [show nack >>> 9 &&& 0x01 = _ from and_mask _ 0 1, shr]
        omega
      rw [hfc, h9, or_eq_add (a := ack % 64 * 4) 2 (by omega) (by omega),
        or_eq_add (a := ack % 64 * 4 + 2) 1 (by omega) (by omega), Nat.add_assoc]
    have hmore : ((ack % 64 * 4 + (2 + nack / 512)) &&& 0x02) >>> 1 = 1 := flag_eq 1 (by omega)
    have hv : (ack % 64 * 2 + 1) * 2 + nack / 512 = ack % 64 * 4 + (2 + nack / 512) := by omega
    have hlist : readNackList (ack % 64 * 4 + (2 + nack / 512)) (nackBytes nack nacks) =
        .ok (nack :: nacks, []) := by
      cases nacks with
      | nil =>
        have hlast : nack <<< 7 &&& 0x80 = nack % 2 * 128 + 0 := by
          rw [show nack <<< 7 &&& 0x80 = _ from and_mask _ 7 1, shl]
          omega
        have hflag : ((nack % 2 * 128 + 0) &&& 0x40) >>> 6 = 0 := flag_eq 6 (by omega)
        have hread := oddNack_eq (v := ack % 64 * 2 + 1) (z := 0) hnack (by omega)
        rw [hv] at hread
        simp only [readNackList, hmore, nackBytes, hlast, hflag]
        rw [if_pos trivial, hread]
        rfl
      | cons even nacks =>
        have heven := hnacks even (mem_cons_of_mem _ mem_cons_self)
        obtain ⟨bytes, hbytes, hrest⟩ := readNacks_bytes [] nacks hnack heven
          fun n hn => hnacks n (mem_cons_of_mem _ (mem_cons_of_mem _ hn))
        have hflag : ((nack % 2 * 128 + 64 + even / 32) &&& 0x40) >>> 6 = 1 := flag_eq 6 (by omega)
        have hread := oddNack_eq (v := ack % 64 * 2 + 1) (z := 64 + even / 32) hnack (by omega)
        rw [hv, ← Nat.add_assoc (nack % 2 * 128)] at hread
        rw [append_nil] at hrest
        simp only [readNackList, hmore, hbytes, hflag, if_true]
        rw [hread, hrest]
        rfl
    simp only [statusBytes, hb1, hb2, readAm]
    rw [hdc, htype, ackSn_eq hack (by omega), hlist]
    rfl

/-- The header of an AM data PDU is read again, but for its offset, whose two bytes are joined
without a shift. -/
theorem readAm_joined {h : AmDataHeader} (hok : h.Ok) (hrf : h.resegmentationFlag ≤ 1)
    (hp : h.pollingBit ≤ 1) (hlsf : h.lastSegmentFlag ≤ 1) (hso : h.segmentOffset < 2 ^ 15)
    (data : List Nat) : readAm (amDataHeaderBytes h ++ data) =
      .ok (.data { h with segmentOffset := h.segmentOffset / 256 ||| h.segmentOffset % 256 },
        data) := by
  have he : (h.extensionBits.headD false).toNat ≤ 1 := toNat_le _
  obtain ⟨h1, h2, h3⟩ := lowBits_eq hok.framingInfo he hok.sequenceNumber
  obtain ⟨h4, h5, h6⟩ := fixed_eq (c := 128 + h.resegmentationFlag * 64 + h.pollingBit * 32)
    (by omega) hok.framingInfo he hok.sequenceNumber
  have hsn := hok.sequenceNumber
  have hfi := hok.framingInfo
  have hrf' : h.resegmentationFlag <<< 6 &&& 0x40 = h.resegmentationFlag * 64 := by
    rw [show h.resegmentationFlag <<< 6 &&& 0x40 = _ from and_mask _ 6 1, shl]
    omega
  have hp' : h.pollingBit <<< 5 &&& 0x20 = h.pollingBit * 32 := by
    rw [show h.pollingBit <<< 5 &&& 0x20 = _ from and_mask _ 5 1, shl]
    omega
  have hlsf' : h.lastSegmentFlag <<< 7 &&& 0x80 = h.lastSegmentFlag * 128 := by
    rw [show h.lastSegmentFlag <<< 7 &&& 0x80 = _ from and_mask _ 7 1, shl]
    omega
  have hso' : h.segmentOffset >>> 8 &&& 0x7F = h.segmentOffset / 256 := by
    rw [show h.segmentOffset >>> 8 &&& 0x7F = _ from and_mask _ 0 7, shr]
    omega
  have hso₂ : h.segmentOffset &&& 0xFF = h.segmentOffset % 256 := by
    rw [show h.segmentOffset &&& 0xFF = _ from and_mask _ 0 8]
    omega
  have hbyte3 : ((h.lastSegmentFlag * 128 ||| h.segmentOffset / 256) : Nat) =
      h.lastSegmentFlag * 128 + h.segmentOffset / 256 := or_eq_add 7 (by omega) (by omega)
  have hbyte1 : (((((((1 <<< 7 &&& 0x80) ||| (h.resegmentationFlag <<< 6 &&& 0x40)) |||
      (h.pollingBit <<< 5 &&& 0x20)) ||| (h.framingInfo <<< 3 &&& 0x18)) |||
      ((h.extensionBits.headD false).toNat <<< 2 &&& 0x04)) ||| (h.sequenceNumber >>> 8 &&& 0x03)) :
        Nat) =
      128 + h.resegmentationFlag * 64 + h.pollingBit * 32 + h.framingInfo * 8 +
        (h.extensionBits.headD false).toNat * 4 + h.sequenceNumber / 256 := by
    rw [h1, h2, h3, hrf', hp', show (1 <<< 7 &&& 0x80 : Nat) = 128 from rfl,
      or_eq_add (a := 128) 7 rfl (by omega),
      or_eq_add (a := 128 + h.resegmentationFlag * 64) 6 (by omega) (by omega),
      or_eq_add (a := 128 + h.resegmentationFlag * 64 + h.pollingBit * 32) 5 (by omega) (by omega),
      or_eq_add (b := (h.extensionBits.headD false).toNat * 4) 3 (by omega) (by omega),
      or_eq_add (b := h.sequenceNumber / 256) 2 (by omega) (by omega)]
  have hdc : ((128 + h.resegmentationFlag * 64 + h.pollingBit * 32 + h.framingInfo * 8 +
      (h.extensionBits.headD false).toNat * 4 + h.sequenceNumber / 256) &&& 0x80) >>> 7 = 1 :=
    flag_eq 7 (by omega)
  have hrf₂ : ((128 + h.resegmentationFlag * 64 + h.pollingBit * 32 + h.framingInfo * 8 +
      (h.extensionBits.headD false).toNat * 4 + h.sequenceNumber / 256) &&& 0x40) >>> 6 =
      h.resegmentationFlag := flag_eq 6 (by omega)
  have hp₂ : ((128 + h.resegmentationFlag * 64 + h.pollingBit * 32 + h.framingInfo * 8 +
      (h.extensionBits.headD false).toNat * 4 + h.sequenceNumber / 256) &&& 0x20) >>> 5 =
      h.pollingBit := flag_eq 5 (by omega)
  have hlsf₂ : ((h.lastSegmentFlag * 128 + h.segmentOffset / 256) &&& 0x80) >>> 7 =
    h.lastSegmentFlag :=
    flag_eq 7 (by omega)
  have hso₃ : (h.lastSegmentFlag * 128 + h.segmentOffset / 256) &&& 0x7F =
    h.segmentOffset / 256 := by
    rw [show (h.lastSegmentFlag * 128 + h.segmentOffset / 256) &&& 0x7F = _ from and_mask _ 0 7]
    omega
  have hfirst : decide ((h.extensionBits.headD false).toNat = 1) = h.extensionBits.headD false := by
    cases h.extensionBits.headD false <;> rfl
  simp only [amDataHeaderBytes, cons_append, readAm, hbyte1, hlsf', hso', hbyte3]
  rw [hdc, hrf₂, hp₂, h4, h5, h6, hlsf₂, hso₃, hso₂, hfirst, readTail_bytes hok, if_pos rfl]
  rfl

theorem readAm_bytes {h : AmDataHeader} (hok : h.Ok) (hrf : h.resegmentationFlag ≤ 1)
    (hp : h.pollingBit ≤ 1) (hlsf : h.lastSegmentFlag ≤ 1) (hso : h.segmentOffset < 256)
    (data : List Nat) : readAm (amDataHeaderBytes h ++ data) = .ok (.data h, data) := by
  rw [readAm_joined hok hrf hp hlsf (by omega), Nat.div_eq_of_lt hso, Nat.mod_eq_of_lt hso,
    Nat.zero_or]

/-- The header of a data PDU of an entity: a whole PDU, without an offset. -/
def AmPdu.header {α : Type} (pdu : AmPdu α) : AmDataHeader where
  toDataHeader := pdu.toDataPdu.header
  resegmentationFlag := 0
  pollingBit := pdu.pollingBit.toNat
  lastSegmentFlag := 1
  segmentOffset := 0

end OranNs3.Rlc
