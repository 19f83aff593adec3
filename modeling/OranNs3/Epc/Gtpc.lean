import OranNs3.Lib.BitField
import OranNs3.Lib.Keyed
import OranNs3.Lib.Wire

/-!
# GTP-C messages

`nr-epc-gtpc-header.cc`: the header of a message, the information elements, and the seven messages
that consist of them. A serializer notes each length that it writes behind the type of an
information element, and a reader each length that it finds there, so that both can be compared; the
code itself does not use them.

What an object keeps that is not written is left out: the IPv6 addresses of packet filters, the
allocation and retention priority of a bearer, and the cause of a created bearer context.
-/

namespace OranNs3.Epc

open Wire

/-- A read behind the end of the buffer, another version, no TEID, an assertion about an information
element, too many packet filters, or a number that is none of an enumeration's. -/
inductive GtpcError
  | endOfBuffer
  | version
  | teidMissing
  | assertion
  | tooManyFilters
  | enumerator
deriving DecidableEq

/-! ## `Buffer::Iterator` -/

def writeU8 (data : Nat) : Out := ⟨[data % 256], []⟩

/-- `WriteU16`, with the lower byte first on every host. -/
def writeU16 (data : Nat) : Out := ⟨little 2 data, []⟩

def writeHtonU16 (data : Nat) : Out := ⟨big 2 data, []⟩

def writeHtonU32 (data : Nat) : Out := ⟨big 4 data, []⟩

def writeHtonU64 (data : Nat) : Out := ⟨big 8 data, []⟩

/-- A length that is written is noted. -/
def noting (length : Nat) (o : Out) : Out := { o with notes := [length] }

def readU8 : Reader GtpcError Nat := byte .endOfBuffer

def readNtohU16 : Reader GtpcError Nat := readBig .endOfBuffer 2

def readNtohU32 : Reader GtpcError Nat := readBig .endOfBuffer 4

def readNtohU64 : Reader GtpcError Nat := readBig .endOfBuffer 8

/-- A length that is read is noted. -/
def readLength : Reader GtpcError Nat := do
  let length ← readNtohU16
  note length
  return length

/-- A number is that of an enumerator. -/
def readEnum {α : Type} (ofNat? : Nat → Option α) (n : Nat) : Reader GtpcError α := fun s =>
  match ofNat? n with
  | some a => .ok (a, s)
  | none => .error .enumerator

/-! ## The header -/

/-- `NrGtpcHeader`. -/
structure GtpcHeader where
  teidFlag : Bool := false
  messageType : Nat := 0
  messageLength : Nat := 4
  teid : Nat := 0
  sequenceNumber : Nat := 0
deriving DecidableEq

namespace GtpcHeader

def getSerializedSize (h : GtpcHeader) : Nat := if h.teidFlag then 12 else 8

def preSerialize (h : GtpcHeader) : Out := .seq
  [writeU8 (2 <<< 5 ||| 1 <<< 3), writeU8 h.messageType, writeHtonU16 h.messageLength,
    writeHtonU32 h.teid, writeU8 ((h.sequenceNumber &&& 0x00ff0000) >>> 16),
      writeU8 ((h.sequenceNumber &&& 0x0000ff00) >>> 8),
    writeU8 (h.sequenceNumber &&& 0x000000ff), writeU8 0]

/-- `PreDeserialize`, which sets all members. The three bytes of the sequence number are read in
their order. -/
def preDeserialize : Reader GtpcError GtpcHeader := do
  let firstByte ← readU8
  require .version ((firstByte >>> 5) &&& 0x07 = 2)
  require .teidMissing ((firstByte >>> 3) &&& 0x01 = 1)
  let messageType ← readU8
  let messageLength ← readNtohU16
  let teid ← readNtohU32
  let high ← readU8
  let middle ← readU8
  let low ← readU8
  let _ ← readU8
  return {
    teidFlag := true
    messageType
    messageLength
    teid
    sequenceNumber := (high <<< 16 ||| middle <<< 8) ||| low }

end GtpcHeader

/-! ## Information elements -/

/-- `InterfaceType_t`. -/
inductive InterfaceType
  | s1uGnbGtpu
  | s5SgwGtpu
  | s5PgwGtpu
  | s5SgwGtpc
  | s5PgwGtpc
  | s11MmeGtpc
deriving DecidableEq

def InterfaceType.toNat : InterfaceType → Nat
  | .s1uGnbGtpu => 0
  | .s5SgwGtpu => 4
  | .s5PgwGtpu => 5
  | .s5SgwGtpc => 6
  | .s5PgwGtpc => 7
  | .s11MmeGtpc => 10

def InterfaceType.ofNat? : Nat → Option InterfaceType
  | 0 => some .s1uGnbGtpu
  | 4 => some .s5SgwGtpu
  | 5 => some .s5PgwGtpu
  | 6 => some .s5SgwGtpc
  | 7 => some .s5PgwGtpc
  | 10 => some .s11MmeGtpc
  | _ => none

/-- `Cause_t`. -/
inductive Cause
  | reserved
  | requestAccepted
deriving DecidableEq

def Cause.toNat : Cause → Nat
  | .reserved => 0
  | .requestAccepted => 16

def Cause.ofNat? : Nat → Option Cause
  | 0 => some .reserved
  | 16 => some .requestAccepted
  | _ => none

/-- `NrEpcTft::Direction`. -/
inductive Direction
  | downlink
  | uplink
  | bidirectional
deriving DecidableEq

def Direction.toNat : Direction → Nat
  | .downlink => 1
  | .uplink => 2
  | .bidirectional => 3

def Direction.ofNat? : Nat → Option Direction
  | 1 => some .downlink
  | 2 => some .uplink
  | 3 => some .bidirectional
  | _ => none

/-- `Fteid_t`. -/
structure Fteid where
  interfaceType : InterfaceType := .s1uGnbGtpu
  addr : Nat
  teid : Nat
deriving DecidableEq

/-- `NrEpcTft::PacketFilter`. -/
structure PacketFilter where
  precedence : Nat
  direction : Direction
  remoteAddress : Nat
  remoteMask : Nat
  localAddress : Nat
  localMask : Nat
  remotePortStart : Nat
  remotePortEnd : Nat
  localPortStart : Nat
  localPortEnd : Nat
  typeOfService : Nat
  typeOfServiceMask : Nat
deriving DecidableEq

/-- `NrEpcTft`: at most 16 filters, in the order of their precedence. `m_numFilters` is their
number. -/
structure Tft where
  filters : List PacketFilter
  sorted : filters.Pairwise (·.precedence ≤ ·.precedence)
  length_le : filters.length ≤ 16
deriving DecidableEq

/-- An empty TFT. -/
def Tft.empty : Tft := ⟨[], List.Pairwise.nil, Nat.zero_le 16⟩

/-- `Add` (`nr-epc-tft.cc`): behind the filters up to its precedence. It aborts on a seventeenth
filter. -/
def Tft.add (tft : Tft) (f : PacketFilter) : Reader GtpcError Tft := fun s =>
  if h : tft.filters.length ≥ 16 then .error .tooManyFilters
  else
    .ok
      (⟨Keyed.insertBehind PacketFilter.precedence f tft.filters,
      Keyed.sorted_insertBehind f tft.sorted,
        Keyed.length_insertBehind.le.trans (Nat.lt_of_not_le h)⟩, s)

/-- `NrEpsBearer`, whose `Qci` is an enumeration over `uint8_t`, with its `NrGbrQosInformation`. -/
structure EpsBearer where
  qci : Nat
  gbrDl : Nat
  gbrUl : Nat
  mbrDl : Nat
  mbrUl : Nat
deriving DecidableEq

def serializeImsi (imsi : Nat) : Out := .seq
  [writeU8 1, noting 8 (writeHtonU16 8), writeU8 0, writeHtonU64 imsi]

def deserializeImsi : Reader GtpcError Nat := do
  let type ← readU8
  require .assertion (type = 1)
  let length ← readLength
  require .assertion (length = 8)
  let inst ← readU8
  require .assertion (inst &&& 0x0f = 0)
  readNtohU64

def serializeCause (cause : Cause) : Out := .seq
  [writeU8 2, noting 2 (writeHtonU16 2), writeU8 0, writeU8 cause.toNat, writeU8 0]

def deserializeCause : Reader GtpcError Cause := do
  let type ← readU8
  require .assertion (type = 2)
  let length ← readLength
  require .assertion (length = 2)
  let inst ← readU8
  require .assertion (inst &&& 0x0f = 0)
  let value ← readU8
  let cause ← readEnum Cause.ofNat? value
  let _ ← readU8
  return cause

def serializeEbi (epsBearerId : Nat) : Out := .seq
  [writeU8 73, noting 1 (writeHtonU16 1), writeU8 0, writeU8 (epsBearerId &&& 0x0f)]

def deserializeEbi : Reader GtpcError Nat := do
  let type ← readU8
  require .assertion (type = 73)
  let length ← readLength
  require .assertion (length = 1)
  let inst ← readU8
  require .assertion (inst = 0)
  let epsBearerId ← readU8
  return epsBearerId &&& 0x0f

def writeHtonU40 (data : Nat) : Out := ⟨big 5 data, []⟩

def readNtohU40 : Reader GtpcError Nat := readBig .endOfBuffer 5

def serializeBearerQos (bearerQos : EpsBearer) : Out := .seq
  [writeU8 80, noting 22 (writeHtonU16 22), writeU8 0, writeU8 0, writeU8 bearerQos.qci,
    writeHtonU40 bearerQos.mbrUl, writeHtonU40 bearerQos.mbrDl, writeHtonU40 bearerQos.gbrUl,
    writeHtonU40 bearerQos.gbrDl]

def deserializeBearerQos : Reader GtpcError EpsBearer := do
  let type ← readU8
  require .assertion (type = 80)
  let length ← readLength
  require .assertion (length = 22)
  let inst ← readU8
  require .assertion (inst = 0)
  let _ ← readU8
  let qci ← readU8
  let mbrUl ← readNtohU40
  let mbrDl ← readNtohU40
  let gbrUl ← readNtohU40
  let gbrDl ← readNtohU40
  return { qci, gbrDl, gbrUl, mbrDl, mbrUl }

def serializedSizePacketFilter : Nat := 3 + 9 + 9 + 5 + 5 + 3

/-- A packet filter, in the loop of `SerializeBearerTft`. -/
def serializePacketFilter (pf : PacketFilter) : Out := .seq
  [writeU8 (pf.direction.toNat <<< 4 &&& 0x30), writeU8 pf.precedence,
    writeU8 (serializedSizePacketFilter - 3), writeU8 0x10, writeHtonU32 pf.remoteAddress,
      writeHtonU32 pf.remoteMask,
    writeU8 0x11, writeHtonU32 pf.localAddress, writeHtonU32 pf.localMask,
    writeU8 0x41, writeHtonU16 pf.localPortStart, writeHtonU16 pf.localPortEnd,
    writeU8 0x51, writeHtonU16 pf.remotePortStart, writeHtonU16 pf.remotePortEnd,
    writeU8 0x70, writeU8 pf.typeOfService, writeU8 pf.typeOfServiceMask]

/-- A packet filter, in the loop of `DeserializeBearerTft`. -/
def deserializePacketFilter : Reader GtpcError PacketFilter := do
  let byte ← readU8
  let direction ← readEnum Direction.ofNat? ((byte &&& 0x30) >>> 4)
  let precedence ← readU8
  let _ ← readU8
  let _ ← readU8
  let remoteAddress ← readNtohU32
  let remoteMask ← readNtohU32
  let _ ← readU8
  let localAddress ← readNtohU32
  let localMask ← readNtohU32
  let _ ← readU8
  let localPortStart ← readNtohU16
  let localPortEnd ← readNtohU16
  let _ ← readU8
  let remotePortStart ← readNtohU16
  let remotePortEnd ← readNtohU16
  let _ ← readU8
  let typeOfService ← readU8
  let typeOfServiceMask ← readU8
  return {
    precedence
    direction
    remoteAddress
    remoteMask
    localAddress
    localMask
    remotePortStart
    remotePortEnd
    localPortStart
    localPortEnd
    typeOfService
    typeOfServiceMask }

def serializeBearerTft (packetFilters : List PacketFilter) : Out := .seq
  [writeU8 84,
    noting (1 + packetFilters.length * serializedSizePacketFilter)
      (writeHtonU16 (1 + packetFilters.length * serializedSizePacketFilter)),
    writeU8 0, writeU8 (0x20 + (packetFilters.length &&& 0x0f)),
      .seq (packetFilters.map serializePacketFilter)]

def deserializeBearerTft (epcTft : Tft) : Reader GtpcError Tft := do
  let type ← readU8
  require .assertion (type = 84)
  let _ ← readLength
  let _ ← readU8
  let numberOfPacketFilters ← readU8
  iterate (numberOfPacketFilters &&& 0x0f)
    (fun epcTft => do
      let packetFilter ← deserializePacketFilter
      epcTft.add packetFilter)
    epcTft

def getSerializedSizeBearerTft (packetFilters : List PacketFilter) : Nat :=
  5 + packetFilters.length * serializedSizePacketFilter

def serializeUliEcgi (uliEcgi : Nat) : Out := .seq
  [writeU8 86, noting 8 (writeHtonU16 8), writeU8 0, writeU8 0x10, writeU8 0, writeU8 0, writeU8 0,
    writeHtonU32 uliEcgi]

def deserializeUliEcgi : Reader GtpcError Nat := do
  let type ← readU8
  require .assertion (type = 86)
  let length ← readLength
  require .assertion (length = 8)
  let inst ← readU8
  require .assertion (inst &&& 0x0f = 0)
  let _ ← readU8
  let _ ← readU8
  let _ ← readU8
  let _ ← readU8
  let uliEcgi ← readNtohU32
  return uliEcgi &&& 0x0fffffff

def serializeFteid (fteid : Fteid) : Out := .seq
  [writeU8 87, noting 9 (writeHtonU16 9), writeU8 0,
    writeU8 (0x80 ||| (fteid.interfaceType.toNat &&& 0x1f)), writeHtonU32 fteid.teid,
      writeHtonU32 fteid.addr]

def deserializeFteid : Reader GtpcError Fteid := do
  let type ← readU8
  require .assertion (type = 87)
  let length ← readLength
  require .assertion (length = 9)
  let inst ← readU8
  require .assertion (inst &&& 0x0f = 0)
  let flags ← readU8
  let interfaceType ← readEnum InterfaceType.ofNat? (flags &&& 0x1f)
  let teid ← readNtohU32
  let addr ← readNtohU32
  return { interfaceType, addr, teid }

/-- `SerializeBearerContextHeader`: the length is written with `WriteU16`. -/
def serializeBearerContextHeader (length : Nat) : Out := .seq
  [writeU8 93, noting length (writeU16 length), writeU8 0]

/-- `DeserializeBearerContextHeader`: the length is read with `ReadNtohU16`. -/
def deserializeBearerContextHeader : Reader GtpcError Nat := do
  let type ← readU8
  require .assertion (type = 93)
  let length ← readLength
  let inst ← readU8
  require .assertion (inst &&& 0x0f = 0)
  return length

end OranNs3.Epc
