import OranNs3.Lib.Cyclic
import OranNs3.Lib.Run
import Mathlib.Tactic.Ring

/-!
# The slot pattern of the gNB PHY

What `NrGnbPhy` (`nr-gnb-phy.cc`) computes from its slot pattern and the processing delays N0, N1,
N2: for every position, which DCIs to send there (`toSendDl`, `toSendUl`), which allocations to ask
of the MAC (`generateDl`, `generateUl`, earlier by the control latency) and after how many slots the
HARQ feedback of its data comes (`dlHarqfbPosition`). Delays and positions are unbounded: a search
never goes on for more than the length of the pattern (`ReturnDciSlot`, `ReturnHarqSlot`). The slots
of a run are counted as the code does, in 32 bits (`SfnSf::Normalize`, `SfnSf::Add`). A loop takes
the number of its iterations as fuel; a computation that runs out of it, reads outside the pattern
or fails an assertion is `none`.
-/

namespace OranNs3.Phy

open Cyclic

/-! ## Slot types and numbers -/

/-- `LteNrTddSlotType`, whose values are compared by their order. -/
inductive SlotType
  | dl
  | s
  | f
  | ul
deriving DecidableEq

/-- The value of an enumerator. -/
def SlotType.val : SlotType → Nat
  | dl => 0
  | s => 1
  | f => 2
  | ul => 3

/-- A slot that has DL data, for `HasDlSlot`. -/
def SlotType.hasDl (t : SlotType) : Bool := t = .f || t = .dl || t = .s

/-- A slot that has UL control or data, for `HasUlSlot`. -/
def SlotType.hasUl (t : SlotType) : Bool := t = .f || t = .ul || t = .s

/-- A slot that UL data is generated for: UL control alone is not enough. -/
def SlotType.hasUlData (t : SlotType) : Bool := t = .ul || t = .f

/-- `SfnSf` (`sfnsf.h`). -/
structure SfnSf where
  frameNum : Nat
  subframeNum : Nat
  slotNum : Nat
  numerology : Nat
deriving DecidableEq

namespace SfnSf

def getSubframesPerFrame : Nat := 10

variable (n : SfnSf)

def getSlotPerSubframe : Nat := 1 <<< n.numerology

/-- The exact number of slots. -/
def normalize : Nat :=
  n.slotNum + n.subframeNum * n.getSlotPerSubframe +
    n.frameNum * getSubframesPerFrame * n.getSlotPerSubframe

/-- The exact instant a number of slots later. -/
def add (slotN : Nat) : SfnSf :=
  { n with
    frameNum := n.frameNum +
      (n.subframeNum + (n.slotNum + slotN) / n.getSlotPerSubframe) / getSubframesPerFrame
    subframeNum :=
      (n.subframeNum + (n.slotNum + slotN) / n.getSlotPerSubframe) % getSubframesPerFrame
    slotNum := (n.slotNum + slotN) % n.getSlotPerSubframe }

/-- `SfnSf::Normalize`: the two products are of 32 bits. -/
def normalizeUint : Nat :=
  n.slotNum + n.subframeNum * n.getSlotPerSubframe % 2 ^ 32 +
    n.frameNum * getSubframesPerFrame % 2 ^ 32 * n.getSlotPerSubframe % 2 ^ 32

/-- `SfnSf::Add`, in 32 bits, unless the assertion fails. -/
def addUint (slotN : Nat) : Option SfnSf :=
  let slots := (n.slotNum + slotN) % 2 ^ 32
  let subframes := (n.subframeNum + slots / n.getSlotPerSubframe) % 2 ^ 32
  if n.numerology ≤ 5 then
    some { n with
      frameNum := (n.frameNum + subframes / getSubframesPerFrame) % 2 ^ 32
      subframeNum := subframes % getSubframesPerFrame
      slotNum := slots % n.getSlotPerSubframe }
  else none

@[simp]
theorem normalize_add (slotN : Nat) : (n.add slotN).normalize = n.normalize + slotN := by
  have hspf : ∀ a : Nat,
    a % n.getSlotPerSubframe + n.getSlotPerSubframe * (a / n.getSlotPerSubframe)
      = a := fun a => Nat.mod_add_div a _
  have hsub := Nat.mod_add_div (n.subframeNum + (n.slotNum + slotN) / n.getSlotPerSubframe) 10
  generalize hq : (n.slotNum + slotN) / n.getSlotPerSubframe = q at hsub
  have hslot := hspf (n.slotNum + slotN)
  rw [hq] at hslot
  have hnum : (n.add slotN).getSlotPerSubframe = n.getSlotPerSubframe := rfl
  simp only [normalize, hnum]
  simp only [add, getSubframesPerFrame, hq]
  generalize n.getSlotPerSubframe = c at *
  generalize (n.subframeNum + q) / 10 = d at *
  generalize (n.subframeNum + q) % 10 = r at *
  generalize (n.slotNum + slotN) % c = e at *
  calc e + r * c + (n.frameNum + d) * 10 * c
      = e + (r + 10 * d) * c + n.frameNum * 10 * c := by ring
    _ = e + c * q + n.subframeNum * c + n.frameNum * 10 * c := by rw [hsub]; ring
    _ = n.slotNum + slotN + n.subframeNum * c + n.frameNum * 10 * c := by rw [hslot]
    _ = n.slotNum + n.subframeNum * c + n.frameNum * 10 * c + slotN := by ring

end SfnSf

/-! ## The timing structures -/

/-- The loop of `modulo` on a negative number. -/
def moduloLoop : Nat → Int → Nat → Int
  | 0, n, _ => n
  | fuel + 1, n, m => if n < 0 then moduloLoop fuel (n + m) m else n

/-- `modulo`. A negative `n` is reached in at most `-n` additions. -/
def modulo (n : Int) (m : Nat) : Nat :=
  if 0 ≤ n then n.toNat % m else (moduloLoop n.natAbs n m).toNat

def returnHarqSlot (fuel : Nat) (pattern : List SlotType) (pos n1 : Nat) : Option Nat :=
  firstFrom (fun k1 : Nat => (pattern[modulo ((pos : Int) + k1) pattern.length]?).map fun t =>
    !decide (t.val < SlotType.s.val)) fuel n1

/-- `DciKPair`. -/
structure DciKPair where
  indexDci : Nat
  k : Nat
deriving DecidableEq

def returnDciSlot (fuel : Nat) (pattern : List SlotType) (pos n : Nat) : Option DciKPair :=
  (firstFrom (fun k : Nat => (pattern[modulo ((pos : Int) - k) pattern.length]?).map fun t =>
    !decide (t.val > SlotType.f.val)) fuel n).map fun k : Nat =>
      ⟨modulo ((pos : Int) - k) pattern.length, k⟩

/-- The structures of `NrGnbPhy`, maps from a position of the pattern. -/
structure Structures where
  toSendDl : Table := []
  toSendUl : Table := []
  generateDl : Table := []
  generateUl : Table := []
  dlHarqfbPosition : List (Nat × Nat) := []
deriving DecidableEq

/-- `GenerateDciMaps`, on a pair of `toSend` and `generate`. -/
def generateDciMaps (fuel : Nat) (pattern : List SlotType) (maps : Table × Table)
    (pos n l1l2CtrlLatency : Nat) : Option (Table × Table) :=
  (returnDciSlot fuel pattern pos n).map fun dciSlot =>
    let indexGen := modulo ((dciSlot.indexDci : Int) - l1l2CtrlLatency) pattern.length
    let kWithCtrlLatency := dciSlot.k + l1l2CtrlLatency
    (maps.1.pushBack dciSlot.indexDci dciSlot.k, maps.2.pushBack indexGen kWithCtrlLatency)

def hasDlSlot (pattern : List SlotType) : Bool := pattern.any (·.hasDl)

def hasUlSlot (pattern : List SlotType) : Bool := pattern.any (·.hasUl)

def isTdd (pattern : List SlotType) : Bool :=
  if pattern.contains .f then true
  else !(pattern.contains .ul ^^ pattern.contains .dl)

/-- `m[i] = k` by `insert`: an entry that is there stays. -/
def insertHarq (m : List (Nat × Nat)) (i k1 : Nat) : List (Nat × Nat) :=
  if m.any (·.1 == i) then m else m ++ [(i, k1)]

section generate
variable (fuel : Nat) (pattern : List SlotType) (n0 n2 n1 l1l2CtrlLatency : Nat) (st : Structures)

variable (i : Nat)

/-- The DCI of a DL position. -/
def generateDlAt : Option Structures :=
  (generateDciMaps fuel pattern (st.toSendDl, st.generateDl) i n0 l1l2CtrlLatency).map fun m =>
    { st with toSendDl := m.1, generateDl := m.2 }

/-- The DCI of a UL position. -/
def generateUlAt : Option Structures :=
  (generateDciMaps fuel pattern (st.toSendUl, st.generateUl) i n2 l1l2CtrlLatency).map fun m =>
    { st with toSendUl := m.1, generateUl := m.2 }

/-- The feedback of a DL position. -/
def harqAt : Option Structures :=
  (returnHarqSlot fuel pattern i n1).map fun k1 =>
    { st with dlHarqfbPosition := insertHarq st.dlHarqfbPosition i k1 }

/-- One iteration of the loop of `GenerateStructuresFromPattern`. -/
def generateAt : Option Structures :=
  match pattern[i]? with
  | none => none
  | some .ul => generateUlAt fuel pattern n2 l1l2CtrlLatency st i
  | some .dl | some .s => do
    let st ← generateDlAt fuel pattern n0 l1l2CtrlLatency st i
    harqAt fuel pattern n1 st i
  | some .f => do
    let st ← generateDlAt fuel pattern n0 l1l2CtrlLatency st i
    let st ← generateUlAt fuel pattern n2 l1l2CtrlLatency st i
    harqAt fuel pattern n1 st i

/-- The pattern that the structures are generated for: in FDD one that is all F. -/
def generationPattern : List SlotType :=
  if isTdd pattern then pattern else List.replicate pattern.length .f

/-- The `generate` maps of an FDD band are those of its own direction. -/
def clearFdd : Structures :=
  if isTdd pattern then st
  else if hasUlSlot pattern then { st with generateDl := [] }
  else { st with generateUl := [] }

/-- `NrGnbPhy::GenerateStructuresFromPattern`, on the maps as they are. -/
def generateStructuresFromPattern : Option Structures :=
  ((List.range pattern.length).foldlM
    (generateAt fuel (generationPattern pattern) n0 n2 n1 l1l2CtrlLatency) st).map fun st =>
    let st := clearFdd pattern st
    { st with generateUl := st.generateUl.sorted, generateDl := st.generateDl.sorted }

end generate

def getL1L2CtrlLatency : Nat := 2

/-! ## Slots -/

/-- Which of `SlotDlIndication` and `SlotUlIndication` is called. -/
inductive Direction
  | dl
  | ul
deriving DecidableEq

/-- A call of the MAC for a slot. -/
structure Indication where
  direction : Direction
  targetSlot : SfnSf
  type : SlotType
deriving DecidableEq

/-- `NrGnbPhy::ChannelStatus`. -/
inductive ChannelStatus
  | none
  | requested
  | granted
  | toLose
deriving DecidableEq

/-- The calls of one direction at a slot. -/
def indicate (pattern : List SlotType) (direction : Direction) (currentSlot : SfnSf)
    (ks : List Nat) : Option (List Indication) :=
  ks.mapM fun k => do
    let targetSlot ← currentSlot.addUint k
    let type ← pattern[targetSlot.normalizeUint % pattern.length]?
    return ⟨direction, targetSlot, type⟩

/-- `NrGnbPhy::CallMacForSlotIndication`: the calls in their order. -/
def callMacForSlotIndication (pattern : List SlotType) (st : Structures) (currentSlot : SfnSf) :
    Option (List Indication) :=
  if st.generateDl.isEmpty && st.generateUl.isEmpty then none
  else do
    let currentSlotN := currentSlot.normalizeUint % pattern.length
    let ul ← indicate pattern .ul currentSlot (st.generateUl.offsets currentSlotN)
    let dl ← indicate pattern .dl currentSlot (st.generateDl.offsets currentSlotN)
    return ul ++ dl

/-- What a slot finds, apart from the pattern: whether its allocation, or a UL DCI that is due,
wants the channel, whether `DoCheckOrReleaseChannel` releases it, and whether the grant ends before
the next slot. -/
structure SlotInput where
  wantsChannel : Bool
  release : Bool
  lost : Bool
deriving DecidableEq

/-- The slots of a PHY: the current one, the channel, and the calls of the MAC so far. -/
structure Slots where
  currentSlot : SfnSf
  channelStatus : ChannelStatus := .none
  indications : List Indication := []
deriving DecidableEq

/-- `RequestAccess` of the `NrAlwaysOnAccessManager`, which grants the
channel at once for longer than a slot (`NrGnbPhy::ChannelAccessGranted`). -/
def requestAccess (_ : ChannelStatus) : ChannelStatus := .granted

variable (input : SlotInput) (status : ChannelStatus)

/-- `NrGnbPhy::DoStartSlot`, as far as it is about the channel. -/
def doStartSlot : ChannelStatus :=
  if input.release then .toLose else status

/-- Whether `NrGnbPhy::StartSlot` calls the MAC, and the channel after it. -/
def startSlotChannel : Bool × ChannelStatus :=
  if status = .granted then (true, doStartSlot input status)
  else if input.wantsChannel then
    if status = .none then
      -- `m_channelStatus = REQUESTED` goes before the request
      let status := requestAccess .requested
      if status = .granted then (true, doStartSlot input status) else (false, status)
    else (false, status)
  else (true, status)

/-- `NrGnbPhy::EndSlot` and `ChannelAccessLost`, on the channel. -/
def endSlotChannel : ChannelStatus :=
  if status = .toLose || input.lost then .none else status

/-- One slot, from `StartSlot` to the end of `EndSlot`. -/
def slot (pattern : List SlotType) (st : Structures) (s : Slots) (input : SlotInput) :
    Option Slots :=
  if s.channelStatus = .toLose then none
  else do
    let (calls, status) := startSlotChannel input s.channelStatus
    let inds ← if calls then callMacForSlotIndication pattern st s.currentSlot else some []
    let nextSlot ← s.currentSlot.addUint 1
    return ⟨nextSlot, endSlotChannel input status, s.indications ++ inds⟩

/-! ## Configuration -/

/-- The configuration of `NrGnbPhy` that the structures come from. -/
structure GnbPhy where
  tddPattern : List SlotType := List.replicate 10 .f
  n0Delay : Nat := 0
  n1Delay : Nat := 0
  n2Delay : Nat := 0
  structures : Structures := {}
deriving DecidableEq

variable (phy : GnbPhy)

/-- `NrGnbPhy::SetTddPattern`, which passes 0 for N0. -/
def setTddPattern (pattern : List SlotType) : Option GnbPhy :=
  (generateStructuresFromPattern pattern.length pattern 0 phy.n2Delay phy.n1Delay
    getL1L2CtrlLatency {}).map fun structures =>
      { phy with tddPattern := pattern, structures }

def setN0Delay (delay : Nat) : Option GnbPhy :=
  setTddPattern { phy with n0Delay := delay } phy.tddPattern

def setN1Delay (delay : Nat) : Option GnbPhy :=
  setTddPattern { phy with n1Delay := delay } phy.tddPattern

def setN2Delay (delay : Nat) : Option GnbPhy :=
  setTddPattern { phy with n2Delay := delay } phy.tddPattern

/-- The tokens that `std::getline` takes from a stream at the delimiter, with the characters of the
current one in reverse: at the end of the stream there is a token only if it has a character. -/
def getlines : List Char → List Char → List (List Char)
  | [], [] => []
  | c :: token, [] => [(c :: token).reverse]
  | token, c :: cs => if c = '|' then token.reverse :: getlines [] cs else getlines (c :: token) cs

def lookupTable : List (List Char × SlotType) :=
  [(['D', 'L'], .dl), (['U', 'L'], .ul), (['S'], .s), (['F'], .f)]

/-- The slots of a pattern string, or the `NS_FATAL_ERROR` of `SetPattern`. -/
def parsePattern (pattern : String) : Option (List SlotType) :=
  (getlines [] pattern.toList).mapM fun v =>
    (lookupTable.find? fun e => e.1 == v).map (·.2)

def setPattern (pattern : String) : Option GnbPhy :=
  (parsePattern pattern).bind (setTddPattern phy)

end OranNs3.Phy
