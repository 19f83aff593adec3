import OranNs3.Rlc.Header

/-!
# The header of an AM data PDU and its length

`NrRlcAmHeader` counts the length of its header in 16 bits, while extension bits are pushed
(`nr-rlc-am-header.cc`) and again while it is read (`deserialize`). The two counts are the number of
bytes (`build_eq`, `deserialize_eq`). What is written is read again but for offsets of more than one
byte, and a list of extension bits is read up to its first zero: `dataHeader_iff`.
-/

namespace OranNs3.Rlc

open List

variable {h : AmDataHeader} {bits : List Bool} {lis : List Nat}

/-- `NrRlcAmHeader` with the members for data PDUs. -/
structure NrRlcAmHeader extends AmDataHeader where
  headerLength : Nat
  lastOffset : Nat
deriving DecidableEq

namespace NrRlcAmHeader

/-- The constructor and `SetDataPdu`; the last segment flag is not initialized. -/
def setDataPdu (lastSegmentFlag : Nat) : NrRlcAmHeader where
  framingInfo := 0xff
  sequenceNumber := 0xfffa % 1024
  extensionBits := []
  lengthIndicators := []
  resegmentationFlag := 0xff
  pollingBit := 0xff
  lastSegmentFlag := lastSegmentFlag
  segmentOffset := 0xffff
  headerLength := 4
  lastOffset := 0xffff

variable (n : NrRlcAmHeader)

def setFramingInfo (framingInfo : Nat) : NrRlcAmHeader :=
  { n with framingInfo := framingInfo &&& 0x03 }

def setSequenceNumber (sequenceNumber : Nat) : NrRlcAmHeader :=
  { n with sequenceNumber }

def setResegmentationFlag (resegFlag : Nat) : NrRlcAmHeader :=
  { n with resegmentationFlag := resegFlag &&& 0x01 }

def setPollingBit (pollingBit : Nat) : NrRlcAmHeader := { n with pollingBit := pollingBit &&& 0x01 }

def setLastSegmentFlag (lsf : Nat) : NrRlcAmHeader := { n with lastSegmentFlag := lsf &&& 0x01 }

def setSegmentOffset (segmentOffset : Nat) : NrRlcAmHeader :=
  { n with segmentOffset := segmentOffset &&& 0x7FFF }

def pushExtensionBit (extensionBit : Bool) : NrRlcAmHeader :=
  { n with
    extensionBits := n.extensionBits ++ [extensionBit]
    headerLength :=
      if n.extensionBits.length + 1 > 1 then
        if (n.extensionBits.length + 1) % 2 = 1 then (n.headerLength + 1) % 2 ^ 16
          else (n.headerLength + 2) % 2 ^ 16
      else n.headerLength }

def pushLengthIndicator (lengthIndicator : Nat) : NrRlcAmHeader :=
  { n with lengthIndicators := n.lengthIndicators ++ [lengthIndicator] }

/-- A header with the fields of `h`, as an entity builds it. -/
def build (h : AmDataHeader) : NrRlcAmHeader :=
  h.lengthIndicators.foldl pushLengthIndicator (h.extensionBits.foldl pushExtensionBit
    ((((((setDataPdu 0).setSequenceNumber h.sequenceNumber).setFramingInfo
      h.framingInfo).setResegmentationFlag h.resegmentationFlag).setPollingBit
        h.pollingBit).setLastSegmentFlag h.lastSegmentFlag |>.setSegmentOffset h.segmentOffset))

/-- The loop of `Deserialize`, with the length so far. -/
def readLisFrom (headerLength : Nat) : List Nat → Except RlcError (List Bool × List Nat × Nat)
  | byte1 :: byte2 :: rest =>
    if (byte1 &&& 0x80) >>> 7 = 1 then
      match rest with
      | byte3 :: rest =>
        if (byte2 &&& 0x08) >>> 3 = 1 then
          (readLisFrom (((headerLength + 2) % 2 ^ 16 + 1) % 2 ^ 16) rest).map fun r =>
            (true :: true :: r.1,
              ((byte1 &&& 0x7F) <<< 4 ||| (byte2 &&& 0xF0) >>> 4) ::
                ((byte2 &&& 0x07) <<< 8 ||| (byte3 &&& 0xFF)) :: r.2.1,
              r.2.2)
        else
          .ok ([true, false],
            [(byte1 &&& 0x7F) <<< 4 ||| (byte2 &&& 0xF0) >>> 4,
              (byte2 &&& 0x07) <<< 8 ||| (byte3 &&& 0xFF)],
            ((headerLength + 2) % 2 ^ 16 + 1) % 2 ^ 16)
      | [] => .error .assertion
    else .ok ([false], [(byte1 &&& 0x7F) <<< 4 ||| (byte2 &&& 0xF0) >>> 4],
      (headerLength + 2) % 2 ^ 16)
  | _ => .error .assertion

/-- `Deserialize` of a data PDU, into a new header; there is none for a control PDU (`readAm`). -/
def deserialize (start : List Nat) : Except RlcError (Option NrRlcAmHeader) :=
  match start with
  | byte1 :: rest =>
    if (byte1 &&& 0x80) >>> 7 = 1 then
      match rest with
      | byte2 :: byte3 :: byte4 :: rest =>
        let n : NrRlcAmHeader :=
          { framingInfo := (byte1 &&& 0x18) >>> 3
            sequenceNumber := ((byte1 &&& 0x03) <<< 8 ||| byte2) % 1024
            extensionBits := [(byte1 &&& 0x04) >>> 2 = 1]
            lengthIndicators := []
            resegmentationFlag := (byte1 &&& 0x40) >>> 6
            pollingBit := (byte1 &&& 0x20) >>> 5
            lastSegmentFlag := (byte3 &&& 0x80) >>> 7
            -- the upper bits are not shifted
            segmentOffset := (byte3 &&& 0x7F) ||| byte4
            headerLength := 4
            lastOffset := 0xffff }
        if (byte1 &&& 0x04) >>> 2 = 1 then
          (readLisFrom n.headerLength rest).map fun r =>
            some
              { n with
                extensionBits := n.extensionBits ++ r.1
                lengthIndicators := r.2.1
                headerLength := r.2.2
                lastOffset :=
                  if n.resegmentationFlag = 1 then toUint16 (n.segmentOffset + start.length - r.2.2)
                  else n.lastOffset }
        else .ok (some n)
      | _ => .error .assertion
    else .ok none
  | [] => .error .assertion

end NrRlcAmHeader

/-! ## Lengths -/

theorem amHeaderLength_eq (n : Nat) : amHeaderLength (n + 1) = 4 + (3 * n + 1) / 2 := by
  induction n with
  | zero => rfl
  | succ n ih =>
    rw [amHeaderLength, ih]
    split <;> omega

theorem length_liBytes : ∀ {bits : List Bool} {lis : List Nat}, lis.length = bits.length →
    (liBytes bits lis).length = (3 * lis.length + 1) / 2
  | [], [], _ => rfl
  | [_], [_], _ => by simp [liBytes]
  | _ :: _ :: bits, _ :: _ :: lis, hlen => by
    have hlen : lis.length = bits.length := by simpa using hlen
    simp only [liBytes, length_cons, length_liBytes hlen]
    omega

theorem length_amDataHeaderBytes (hlen : h.lengthIndicators.length + 1 = h.extensionBits.length) :
    (amDataHeaderBytes h).length = amHeaderLength h.extensionBits.length := by
  have htail : h.lengthIndicators.length = h.extensionBits.tail.length := by
    rw [length_tail]
    omega
  simp only [amDataHeaderBytes, length_cons, length_liBytes htail]
  rw [← hlen, amHeaderLength_eq]
  omega

namespace NrRlcAmHeader

variable {n : NrRlcAmHeader}

theorem pushExtensionBit_eq (bit : Bool)
    (hn : n.headerLength = amHeaderLength n.extensionBits.length % 2 ^ 16) :
    n.pushExtensionBit bit =
      { n with
        extensionBits := n.extensionBits ++ [bit]
        headerLength := amHeaderLength (n.extensionBits ++ [bit]).length % 2 ^ 16 } := by
  rw [pushExtensionBit, hn, length_append, length_singleton]
  congr 1
  cases n.extensionBits with
  | nil => rfl
  | cons b bits =>
    rw [length_cons, if_pos (by omega), amHeaderLength]
    split <;> omega

theorem foldl_pushExtensionBit
    (hn : n.headerLength = amHeaderLength n.extensionBits.length % 2 ^ 16) :
    bits.foldl pushExtensionBit n =
      { n with
        extensionBits := n.extensionBits ++ bits
        headerLength := amHeaderLength (n.extensionBits ++ bits).length % 2 ^ 16 } := by
  induction bits generalizing n with
  | nil =>
    rw [append_nil, ← hn]
    rfl
  | cons b bits ih =>
    rw [foldl_cons, pushExtensionBit_eq b hn, ih rfl]
    simp only [append_assoc, singleton_append]

theorem foldl_pushLengthIndicator : lis.foldl pushLengthIndicator n =
    { n with lengthIndicators := n.lengthIndicators ++ lis } := by
  induction lis generalizing n with
  | nil =>
    rw [append_nil]
    rfl
  | cons li lis ih =>
    rw [foldl_cons, ih, pushLengthIndicator]
    simp only [append_assoc, singleton_append]

end NrRlcAmHeader

/-- A data header: each field in its bits, extension bits with a zero at the end, and a length
indicator for each bit behind the first. -/
structure AmDataHeader.InRange (h : AmDataHeader) : Prop where
  framingInfo : h.framingInfo < 4
  sequenceNumber : h.sequenceNumber < 1024
  resegmentationFlag : h.resegmentationFlag ≤ 1
  pollingBit : h.pollingBit ≤ 1
  lastSegmentFlag : h.lastSegmentFlag ≤ 1
  segmentOffset : h.segmentOffset < 2 ^ 15
  extensionBits : h.extensionBits.getLast? = some false
  length : h.lengthIndicators.length + 1 = h.extensionBits.length
  lengthIndicators : ∀ li ∈ h.lengthIndicators, li < 2048

theorem AmDataHeader.InRange.build_eq (hr : h.InRange) : NrRlcAmHeader.build h =
    { h with
      headerLength := amHeaderLength h.extensionBits.length % 2 ^ 16, lastOffset := 0xffff } := by
  have h1 : ∀ {n : Nat}, n ≤ 1 → n &&& 0x01 = n := fun hn => by
    rw [show _ &&& 0x01 = _ from Nat.and_two_pow_sub_one_eq_mod _ 1]
    omega
  have h3 : h.framingInfo &&& 0x03 = h.framingInfo := by
    rw [show h.framingInfo &&& 0x03 = _ from Nat.and_two_pow_sub_one_eq_mod _ 2]
    exact Nat.mod_eq_of_lt hr.framingInfo
  have h7 : h.segmentOffset &&& 0x7FFF = h.segmentOffset := by
    rw [show h.segmentOffset &&& 0x7FFF = _ from Nat.and_two_pow_sub_one_eq_mod _ 15]
    exact Nat.mod_eq_of_lt hr.segmentOffset
  rw [NrRlcAmHeader.build, NrRlcAmHeader.foldl_pushExtensionBit rfl,
    NrRlcAmHeader.foldl_pushLengthIndicator]
  simp only [NrRlcAmHeader.setSegmentOffset, NrRlcAmHeader.setLastSegmentFlag,
    NrRlcAmHeader.setPollingBit,
    NrRlcAmHeader.setResegmentationFlag, NrRlcAmHeader.setFramingInfo,
      NrRlcAmHeader.setSequenceNumber,
    NrRlcAmHeader.setDataPdu, nil_append, h3, h7, h1 hr.resegmentationFlag, h1 hr.pollingBit,
    h1 hr.lastSegmentFlag]

/-! ## Reading -/

theorem readLis_spec : ∀ {l : List Nat} {r : List Bool × List Nat × List Nat}, readLis l = .ok r →
    (∃ k, r.1 = extensionBitsOf k) ∧ r.2.2.length + 2 ≤ l.length
  | [], _, hl => by cases hl
  | [_], _, hl => by cases hl
  | byte1 :: byte2 :: rest, r, hl => by
    rw [readLis.eq_def] at hl
    dsimp only at hl
    split at hl
    · cases rest with
      | nil => cases hl
      | cons byte3 rest =>
        dsimp only at hl
        split at hl
        · cases hr' : readLis rest with
          | error e =>
            rw [hr'] at hl
            cases hl
          | ok r' =>
            rw [hr'] at hl
            cases hl
            obtain ⟨⟨k, hk⟩, hlen⟩ := readLis_spec hr'
            refine ⟨⟨k + 2, ?_⟩, ?_⟩
            · rw [extensionBitsOf_succ, extensionBitsOf_succ, ← hk]
            · simp only [length_cons]
              omega
        · cases hl
          exact ⟨⟨1, rfl⟩, by simp⟩
    · cases hl
      exact ⟨⟨0, rfl⟩, by simp⟩

theorem readLisFrom_eq : ∀ {k : Nat} (l : List Nat), NrRlcAmHeader.readLisFrom k l =
    (readLis l).map fun r => (r.1, r.2.1, (k + (l.length - r.2.2.length)) % 2 ^ 16)
  | _, [] => rfl
  | _, [_] => rfl
  | k, byte1 :: byte2 :: rest => by
    rw [NrRlcAmHeader.readLisFrom.eq_def, readLis.eq_def]
    dsimp only
    split
    · cases rest with
      | nil => rfl
      | cons byte3 rest =>
        dsimp only
        split
        · rw [readLisFrom_eq rest]
          cases hr : readLis rest with
          | error e => rfl
          | ok r =>
            have hlen := (readLis_spec hr).2
            have hthree : (byte1 :: byte2 :: byte3 :: rest).length - r.2.2.length =
                2 + 1 + (rest.length - r.2.2.length) := by
              simp only [length_cons]
              omega
            simp only [Except.map, hthree, Nat.mod_add_mod, Nat.add_assoc]
        · have hthree : (byte1 :: byte2 :: byte3 :: rest).length - rest.length = 2 + 1 := by
            simp only [length_cons]
            omega
          simp only [Except.map, hthree, Nat.mod_add_mod, Nat.add_assoc]
    · have htwo : (byte1 :: byte2 :: rest).length - rest.length = 2 := by
        simp only [length_cons]
        omega
      simp only [Except.map, htwo]

/-- `Deserialize` finds the fields that `readAm` finds, and counts the bytes before the rest. -/
theorem deserialize_eq {start rest : List Nat} {g : AmDataHeader}
    (hread : readAm start = .ok (.data g, rest)) :
    ∃ n, NrRlcAmHeader.deserialize start = .ok (some n) ∧ n.toAmDataHeader = g ∧
      n.headerLength = (start.length - rest.length) % 2 ^ 16 := by
  rcases start with _ | ⟨byte1, _ | ⟨byte2, start⟩⟩
  · cases hread
  · cases hread
  rw [readAm.eq_def] at hread
  rw [NrRlcAmHeader.deserialize.eq_def]
  dsimp only at hread ⊢
  by_cases hdata : (byte1 &&& 0x80) >>> 7 = 1
  · rw [if_pos hdata] at hread ⊢
    rcases start with _ | ⟨byte3, _ | ⟨byte4, start⟩⟩
    · cases hread
    · cases hread
    dsimp only at hread ⊢
    by_cases hmore : (byte1 &&& 0x04) >>> 2 = 1
    · rw [readTail, if_pos (decide_eq_true hmore)] at hread
      cases hlis : readLis start with
      | error e =>
        rw [hlis] at hread
        cases hread
      | ok r =>
        rw [hlis] at hread
        cases hread
        have hlen := (readLis_spec hlis).2
        rw [if_pos hmore, readLisFrom_eq, hlis]
        refine ⟨_, rfl, ?_, ?_⟩
        · simp [hmore]
        · simp only [length_cons]
          congr 1
          omega
    · rw [readTail, if_neg (by simpa using hmore)] at hread
      cases hread
      rw [if_neg hmore]
      refine ⟨_, rfl, ?_, ?_⟩
      · simp [hmore]
      · simp only [length_cons]
        omega
  · rw [if_neg hdata] at hread
    cases hlist : readNackList byte2 start with
    | error e =>
      rw [hlist] at hread
      cases hread
    | ok r =>
      rw [hlist] at hread
      cases hread

theorem extensionBits_of_deserialize {start : List Nat} {n : NrRlcAmHeader}
    (hread : NrRlcAmHeader.deserialize start = .ok (some n)) :
    ∃ k, n.extensionBits = extensionBitsOf k := by
  rcases start with _ | ⟨byte1, start⟩
  · cases hread
  rw [NrRlcAmHeader.deserialize.eq_def] at hread
  dsimp only at hread
  by_cases hdata : (byte1 &&& 0x80) >>> 7 = 1
  · rw [if_pos hdata] at hread
    rcases start with _ | ⟨byte2, _ | ⟨byte3, _ | ⟨byte4, start⟩⟩⟩
    · cases hread
    · cases hread
    · cases hread
    dsimp only at hread
    by_cases hmore : (byte1 &&& 0x04) >>> 2 = 1
    · rw [if_pos hmore, readLisFrom_eq] at hread
      cases hlis : readLis start with
      | error e =>
        rw [hlis] at hread
        cases hread
      | ok r =>
        obtain ⟨k, hk⟩ := (readLis_spec hlis).1
        rw [hlis] at hread
        cases hread
        refine ⟨k + 1, ?_⟩
        simp [hmore, hk, extensionBitsOf_succ]
    · rw [if_neg hmore] at hread
      cases hread
      exact ⟨0, by simp [hmore, extensionBitsOf]⟩
  · rw [if_neg hdata] at hread
    cases hread

theorem AmDataHeader.InRange.bits_iff (hr : h.InRange) :
    h.extensionBits = extensionBitsOf h.lengthIndicators.length ↔ ∀ b ∈ h.extensionBits.dropLast,
      b = true := by
  obtain ⟨bits, hbits⟩ := getLast?_eq_some_iff.1 hr.extensionBits
  have hlen := hr.length
  rw [hbits, length_append, length_singleton] at hlen
  rw [hbits, extensionBitsOf, append_left_inj, dropLast_concat, eq_replicate_iff]
  exact and_iff_right (by omega)

/-- A data header is written in as many bytes as its length says, and is read again with any data
behind it, if and only if its offset fits in one byte, there is no zero before the last extension
bit, and the length fits in 16 bits.
-/
theorem dataHeader_iff (hr : h.InRange) :
    ((amDataHeaderBytes (NrRlcAmHeader.build h).toAmDataHeader).length =
      (NrRlcAmHeader.build h).headerLength ∧ ∀ data, ∃ n,
        NrRlcAmHeader.deserialize
          (amDataHeaderBytes (NrRlcAmHeader.build h).toAmDataHeader ++ data) = .ok (some n) ∧
            n.toAmDataHeader = h ∧ n.headerLength = (NrRlcAmHeader.build h).headerLength) ↔
      h.segmentOffset < 256 ∧ (∀ b ∈ h.extensionBits.dropLast, b = true) ∧
        4 + (3 * h.lengthIndicators.length + 1) / 2 < 2 ^ 16 := by
  have hcount : amHeaderLength h.extensionBits.length = 4 + (3 * h.lengthIndicators.length + 1) /
    2 := by
    rw [← hr.length, amHeaderLength_eq]
  have hbytes : (amDataHeaderBytes h).length = amHeaderLength h.extensionBits.length :=
    length_amDataHeaderBytes hr.length
  have hok : (∀ b ∈ h.extensionBits.dropLast, b = true) → h.Ok := fun hb =>
    ⟨hr.framingInfo, hr.sequenceNumber, hr.bits_iff.2 hb, hr.lengthIndicators⟩
  have hjoined := fun hb =>
    readAm_joined (hok hb) hr.resegmentationFlag hr.pollingBit hr.lastSegmentFlag
    hr.segmentOffset
  rw [hr.build_eq]
  dsimp only
  rw [hbytes, hcount]
  constructor
  · rintro ⟨hlen, hall⟩
    obtain ⟨n, hread, rfl, -⟩ := hall []
    -- the bits that are read are ones up to a zero
    have hbits : ∀ b ∈ n.extensionBits.dropLast, b = true := by
      obtain ⟨k, hk⟩ := extensionBits_of_deserialize hread
      rw [hk, extensionBitsOf, dropLast_concat]
      exact fun b hb => eq_of_mem_replicate hb
    refine ⟨?_, hbits, by omega⟩
    obtain ⟨n', hread', hfields, -⟩ := deserialize_eq (hjoined hbits [])
    cases hread.symm.trans hread'
    have hoffset : n.segmentOffset = n.segmentOffset / 256 ||| n.segmentOffset % 256 :=
      congrArg AmDataHeader.segmentOffset hfields
    have hlt := hr.segmentOffset
    rw [hoffset]
    exact Nat.or_lt_two_pow (n := 8) (by omega) (Nat.mod_lt _ (by decide))
  · rintro ⟨hoffset, hbits, hlen⟩
    refine ⟨(Nat.mod_eq_of_lt hlen).symm, fun data => ?_⟩
    obtain ⟨n, hread, hfields, hlength⟩ := deserialize_eq (hjoined hbits data)
    refine ⟨n, hread, hfields.trans ?_, ?_⟩
    · rw [Nat.div_eq_of_lt hoffset, Nat.mod_eq_of_lt hoffset, Nat.zero_or]
    · rw [hlength, length_append, Nat.add_sub_cancel, hbytes, hcount]

/-- Two length indicators, and a segment at offset 200. -/
theorem dataHeader_iff_example : ∃ h : AmDataHeader, h.segmentOffset = 200 ∧
    h.lengthIndicators = [1, 2047] ∧ ∃ n,
      NrRlcAmHeader.deserialize (amDataHeaderBytes (NrRlcAmHeader.build h).toAmDataHeader ++ [7]) =
        .ok (some n) ∧ n.toAmDataHeader = h ∧
          n.headerLength = (NrRlcAmHeader.build h).headerLength :=
  ⟨⟨⟨1, 1000, [true, true, false], [1, 2047]⟩, 1, 0, 1, 200⟩, rfl, rfl,
    ((dataHeader_iff ⟨by decide, by decide, by decide, by decide, by decide, by decide, rfl,
      rfl, by decide⟩).2 ⟨by decide, by decide, by decide⟩).2 [7]⟩

/-- A segment at offset 256 is read at offset 1. -/
theorem dataHeader_fails : ∃ h : AmDataHeader, h.InRange ∧ h.segmentOffset = 256 ∧
    ∃ n, NrRlcAmHeader.deserialize (amDataHeaderBytes (NrRlcAmHeader.build h).toAmDataHeader) =
      .ok (some n) ∧ n.segmentOffset = 1 :=
  ⟨⟨⟨0, 0, [false], []⟩, 1, 0, 0, 256⟩,
    ⟨by decide, by decide, by decide, by decide, by decide, by decide, rfl, rfl,
    by decide⟩, rfl, _, rfl, rfl⟩

end OranNs3.Rlc
