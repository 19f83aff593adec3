import OranNs3.Lib.Octets

/-!
# The bit codec of ASN.1 headers

`NrAsn1Header` (`src/src/nr/model/nr-asn1-header.cc`): primitives are written bit by bit into
octets, of which the last one is pending until it is full, and read in the same way. The number of
bits of an integer, which the source computes with logarithms, is the parameter `requiredBits`.
Where the source asserts or exits, there is no result. Integers are in the range of their type, so
that nothing wraps.
-/

namespace OranNs3.Asn1

open Octets

/-! ## Writing -/

/-- A header that is written: `m_serializationResult` and the pending bits. -/
structure Writer where
  result : List (BitVec 8) := []
  pendingBits : BitVec 8 := 0
  numPendingBits : Nat := 0
deriving DecidableEq

namespace Writer

def writeOctet (w : Writer) (octet : BitVec 8) : Writer := { w with result := w.result ++ [octet] }

section
variable {n : Nat} (data : BitVec n)

/-- The loop that appends the first bits of the data to the pending ones, and what is left of the
data. -/
def appendPending : Nat → BitVec 8 → Writer → Nat × Writer
  | 0, _, w => (0, w)
  | k + 1, mask, w =>
    if w.numPendingBits < 8 then
      appendPending k (mask >>> 1 &&& ~~~mask)
        { w with
          pendingBits := w.pendingBits ||| if data.getLsbD k then mask else 0#8
          numPendingBits := w.numPendingBits + 1 }
    else (k + 1, w)

/-- The loop that stores the last bits. -/
def storePending : Nat → BitVec 8 → BitVec 8 → BitVec 8
  | 0, _, pending => pending
  | k + 1, mask, pending =>
    storePending k (mask >>> 1 &&& ~~~mask) (pending ||| if data.getLsbD k then mask else 0#8)

/-- The loop over `j` that collects an octet, of which the first bit is the one below `k`. -/
def octetToWrite (k : Nat) : Nat → BitVec 8 → BitVec 8 → BitVec 8
  | 0, _, octet => octet
  | j + 1, mask, octet =>
    octetToWrite k j (mask <<< 1 &&& ~~~mask) (octet ||| if data.getLsbD (k - (j + 1)) then mask
      else 0#8)

/-- The loop that writes octets, with the bits that are left. -/
def writeOctets : Nat → Writer → Writer
  | 0, w => w
  | k + 8, w => writeOctets k (w.writeOctet (octetToWrite data (k + 8) 8 1#8 0#8))
  | k, w => { w with numPendingBits := k, pendingBits := storePending data k 0x80#8 w.pendingBits }

def serializeBitset (w : Writer) : Writer :=
  if n = 0 then w
  else if n ≤ 65536 then
    let (pendingBits, w) := if w.numPendingBits > 0 then
        let (pendingBits, w) := appendPending data (n % 256) (0x80#8 >>> w.numPendingBits) w
        (pendingBits, if w.numPendingBits ≥ 8 then
            { w.writeOctet w.pendingBits with numPendingBits := 0, pendingBits := 0 }
          else w)
      else (n % 256, w)
    writeOctets data pendingBits w
  else w

end

def serializeBoolean (w : Writer) (value : Bool) : Writer := w.serializeBitset (BitVec.ofBool value)

def serializeSequence {n : Nat} (w : Writer) (optionalOrDefaultMask : BitVec n)
    (isExtensionMarkerPresent : Bool) : Writer :=
  (if isExtensionMarkerPresent then w.serializeBoolean false else w).serializeBitset
    optionalOrDefaultMask

variable (requiredBits : Nat → Nat)

def serializeInteger (w : Writer) (n nmin nmax : Int) : Option Writer :=
  if nmin ≤ n ∧ n ≤ nmax then
    let range := nmax - nmin + 1
    if range ≤ 1 then some w
    else
      let bits := requiredBits range.toNat
      if 1 ≤ bits ∧ bits ≤ 28 then some (w.serializeBitset (BitVec.ofInt bits (n - nmin))) else none
  else none

def serializeSequenceOf (w : Writer) (numElems nMax nMin : Int) : Option Writer :=
  w.serializeInteger requiredBits numElems nMin nMax

def serializeEnum (w : Writer) (numElems selectedElem : Int) : Option Writer :=
  w.serializeInteger requiredBits selectedElem 0 (numElems - 1)

def serializeChoice (w : Writer) (numOptions selectedOption : Int)
    (isExtensionMarkerPresent : Bool) : Option Writer :=
  let w := if isExtensionMarkerPresent then w.serializeBoolean false else w
  if numOptions < 2 then some w else w.serializeInteger requiredBits selectedOption 0
    (numOptions - 1)

def finalizeSerialization (w : Writer) : Writer :=
  if w.numPendingBits > 0 then ({ w with numPendingBits := 0 } : Writer).serializeBitset
    w.pendingBits else w

end Writer

/-! ## Reading -/

/-- A header that is read: the octets behind the iterator and the pending bits. -/
structure Reader where
  octets : List (BitVec 8)
  pendingBits : BitVec 8 := 0
  numPendingBits : Nat := 0
deriving DecidableEq

namespace Reader

variable {n : Nat}

/-- The loop that takes the pending bits, and what is left to read. -/
def readPending : Nat → BitVec n → Reader → Nat × BitVec n × Reader
  | 0, data, r => (0, data, r)
  | k + 1, data, r =>
    if r.numPendingBits > 0 then
      readPending k (setBit data k (r.pendingBits &&& 0x80#8 ≠ 0))
        { r with numPendingBits := r.numPendingBits - 1, pendingBits := r.pendingBits <<< 1 }
    else (k + 1, data, r)

/-- The loop that sets bits from an octet: `j` bits of the data, of which `k` are left. -/
def setBits (octet : BitVec 8) : Nat → Nat → BitVec 8 → BitVec n → BitVec n
  | 0, _, _, data => data
  | j + 1, k, mask, data =>
    setBits octet j (k - 1) (mask >>> 1) (setBit data (k - 1) (octet &&& mask ≠ 0))

/-- The loop that reads octets. -/
def readOctets : Nat → BitVec n → Reader → Option (BitVec n × Reader)
  | 0, data, r => some (data, r)
  | k + 8, data, r =>
    match r.octets with
    | [] => none
    | octet :: octets => readOctets k (setBits octet 8 (k + 8) 0x80#8 data) { r with octets }
  | k, data, r =>
    match r.octets with
    | [] => none
    | octet :: octets =>
      some (setBits octet k k 0x80#8 data, ⟨octets, octet <<< k, 8 - k⟩)

variable (requiredBits : Nat → Nat) (r : Reader)

/-- `DeserializeBitset`, into data that may have any bits. -/
def deserializeBitset (data : BitVec n) : Option (BitVec n × Reader) :=
  let (k, data, r) := if r.numPendingBits > 0 then readPending n data r else (n, data, r)
  readOctets k data r

def deserializeBoolean : Option (Bool × Reader) :=
  (r.deserializeBitset (0 : BitVec 1)).map fun (readBit, r) => (readBit.getLsbD 0, r)

def deserializeSequence (optionalOrDefaultMask : BitVec n)
    (isExtensionMarkerPresent : Bool) : Option (BitVec n × Reader) :=
  (if isExtensionMarkerPresent then r.deserializeBoolean.map Prod.snd else some r).bind fun r =>
    r.deserializeBitset optionalOrDefaultMask

/-- `DeserializeInteger`, where `n` stays as it is if there is one value only. -/
def deserializeInteger (n nmin nmax : Int) : Option (Int × Reader) :=
  let (nmin, nmax) := if nmin > nmax then (nmax, nmin) else (nmin, nmax)
  let range := nmax - nmin + 1
  if range = 1 then some (n, r)
  else
    let bits := requiredBits range.toNat
    if 1 ≤ bits ∧ bits ≤ 28 then
      (r.deserializeBitset (0 : BitVec bits)).map fun (bitsRead, r) => (bitsRead.toNat + nmin, r)
    else none

def deserializeSequenceOf (numElems nMax nMin : Int) : Option (Int × Reader) :=
  r.deserializeInteger requiredBits numElems nMin nMax

def deserializeEnum (numElems selectedElem : Int) : Option (Int × Reader) :=
  r.deserializeInteger requiredBits selectedElem 0 (numElems - 1)

def deserializeChoice (numOptions : Int)
    (isExtensionMarkerPresent : Bool) (selectedOption : Int) : Option (Int × Reader) :=
  (if isExtensionMarkerPresent then r.deserializeBoolean.map Prod.snd else some r).bind fun r =>
    r.deserializeInteger requiredBits selectedOption 0 (numOptions - 1)

end Reader

/-! ## Sequences of primitives -/

/-- The types of primitives, with what a reader knows of them. -/
inductive Ty
  | null
  | boolean
  | bitstring (n : Nat)
  | sequence (n : Nat) (isExtensionMarkerPresent : Bool)
  | integer (nmin nmax : Int)
  | enum (numElems : Int)
  | choice (numOptions : Int) (isExtensionMarkerPresent : Bool)
  | sequenceOf (nMax nMin : Int)
deriving DecidableEq

/-- The values of a type. -/
def Ty.Value : Ty → Type
  | .null => Unit
  | .boolean => Bool
  | .bitstring n => BitVec n
  | .sequence n _ => BitVec n
  | .integer _ _ | .enum _ | .choice _ _ | .sequenceOf _ _ => Int

/-- A value with its type. -/
abbrev Item := Sigma Ty.Value

variable (requiredBits : Nat → Nat)

/-- A primitive is written. -/
def Writer.write (w : Writer) : Item → Option Writer
  | ⟨.null, _⟩ => some w
  | ⟨.boolean, value⟩ => some (w.serializeBoolean value)
  | ⟨.bitstring _, data⟩ => some (w.serializeBitset data)
  | ⟨.sequence _ ext, mask⟩ => some (w.serializeSequence mask ext)
  | ⟨.integer nmin nmax, n⟩ => w.serializeInteger requiredBits n nmin nmax
  | ⟨.enum numElems, n⟩ => w.serializeEnum requiredBits numElems n
  | ⟨.choice numOptions ext, n⟩ => w.serializeChoice requiredBits numOptions n ext
  | ⟨.sequenceOf nMax nMin, n⟩ => w.serializeSequenceOf requiredBits n nMax nMin

/-- A primitive is read into a variable of its type. -/
def Reader.read (r : Reader) :
    (item : Item) → Option (item.1.Value × Reader)
  | ⟨.null, value⟩ => some (value, r)
  | ⟨.boolean, _⟩ => r.deserializeBoolean
  | ⟨.bitstring _, data⟩ => r.deserializeBitset data
  | ⟨.sequence _ ext, mask⟩ => r.deserializeSequence mask ext
  | ⟨.integer nmin nmax, n⟩ => r.deserializeInteger requiredBits n nmin nmax
  | ⟨.enum numElems, n⟩ => r.deserializeEnum requiredBits numElems n
  | ⟨.choice numOptions ext, n⟩ => r.deserializeChoice requiredBits numOptions ext n
  | ⟨.sequenceOf nMax nMin, n⟩ => r.deserializeSequenceOf requiredBits n nMax nMin

/-- Primitives are written. -/
def Writer.writeAll (w : Writer) (items : List Item) : Option Writer :=
  items.foldlM (fun w item => w.write requiredBits item) w

/-- Variables are read, one after the other. -/
def Reader.readAll (requiredBits : Nat → Nat) : Reader → List Item → Option (List Item × Reader)
  | r, [] => some ([], r)
  | r, item :: items => (r.read requiredBits item).bind fun (value, r) =>
    (readAll requiredBits r items).map fun (items, r) => (⟨item.1, value⟩ :: items, r)

end OranNs3.Asn1
