import OranNs3.Lib.Run
import OranNs3.Tcp.SequenceNumber

/-!
# Fragments of IPv4 packets

`DoFragmentation` and `ProcessFragment` of `src/src/internet/model/ipv4-l3-protocol.cc`, with the
part of `Ipv4Header` that they use (`src/src/internet/model/ipv4-header.cc`). A packet is its
payload and its header. The fragments of a packet that was not fragmented before, and the fragments
of these, are its pieces (`Piece`).

What is reassembled is kept by key, without the timeouts after which it is dropped. Where the source
asserts or aborts, there is no result.
-/

namespace OranNs3.Ipv4

open Tcp (createFragment slice)

/-- `Ipv4Header`; its offsets are multiples of 8. -/
structure Ipv4Header where
  source : UInt32
  destination : UInt32
  identification : UInt16
  protocol : UInt8
  moreFragments : Bool
  fragmentOffset : Nat
  payloadSize : Nat
  headerSize : Nat
  aligned : fragmentOffset % 8 = 0
  deriving DecidableEq

/-- A packet with its header. -/
abbrev Ipv4Packet := List UInt8 × Ipv4Header

namespace Ipv4Header

variable (h : Ipv4Header)

def setFragmentOffset (offsetBytes : Nat) : Option Ipv4Header :=
  if aligned : offsetBytes % 2 ^ 16 % 8 = 0 then
    some { h with fragmentOffset := offsetBytes % 2 ^ 16, aligned }
  else none

/-- The key of `ProcessFragment`. -/
def key : UInt64 × UInt32 :=
  (h.source.toUInt64 <<< 32 ||| h.destination.toUInt64, h.identification.toUInt32 <<< 16 |||
    h.protocol.toUInt32)

end Ipv4Header

/-! ## Fragmentation -/

/-- The loop of `DoFragmentation`, with the rounds it may take. -/
def fragmentLoop (p : List UInt8) (h : Ipv4Header) (fragmentSize : Nat) :
    Nat → Nat → Option (List Ipv4Packet)
  | 0, _ => none
  | rounds + 1, offset =>
    let moreFragment := decide (p.length > offset + fragmentSize)
    let currentFragmentablePartSize := if moreFragment then fragmentSize else p.length - offset
    (createFragment p offset currentFragmentablePartSize).bind fun fragment =>
      (h.setFragmentOffset (offset + h.fragmentOffset)).bind fun fragmentHeader =>
        let fragmentHeader := { fragmentHeader with
          moreFragments := moreFragment || h.moreFragments
          payloadSize := currentFragmentablePartSize % 2 ^ 16 }
        if moreFragment then
          (fragmentLoop p h fragmentSize rounds
            ((offset + currentFragmentablePartSize) % 2 ^ 16)).map ((fragment, fragmentHeader) :: ·)
        else some [(fragment, fragmentHeader)]

/-- `DoFragmentation`. Offsets do not repeat when the loop ends, so that a round for each byte is
enough. -/
def doFragmentation (p : List UInt8) (h : Ipv4Header) (outIfaceMtu : Nat) :
    Option (List Ipv4Packet) :=
  if h.headerSize = 5 * 4 then
    fragmentLoop p h ((outIfaceMtu + 2 ^ 32 - h.headerSize) % 2 ^ 32 / 8 * 8) (p.length + 1) 0
  else none

/-- A packet, its fragments, the fragments of these, and so on. -/
inductive Piece (a : Ipv4Packet) : Ipv4Packet → Prop
  | packet : Piece a a
  | fragment {b c : Ipv4Packet} {mtu : Nat} {l : List Ipv4Packet} (hb : Piece a b) (hmtu : 68 ≤ mtu)
      (hlt : mtu < 2 ^ 32) (hl : doFragmentation b.1 b.2 mtu = some l) (hc : c ∈ l) : Piece a c

/-! ## Reassembly -/

/-- `Fragments`. -/
structure Fragments where
  moreFragment : Bool
  fragments : List (List UInt8 × Nat)
  deriving DecidableEq

namespace Fragments

/-- The constructor. -/
def new : Fragments := ⟨false, []⟩

variable (f : Fragments)

def addFragment (fragment : List UInt8) (fragmentOffset : Nat) (moreFragment : Bool) : Fragments :=
  let rest := f.fragments.dropWhile (·.2 ≤ fragmentOffset)
  { moreFragment := if rest = [] then moreFragment else f.moreFragment
    fragments :=
      f.fragments.takeWhile (·.2 ≤ fragmentOffset) ++ (fragment, fragmentOffset) :: rest }

/-- The loop of `IsEntire`. -/
def noGap : Nat → List (List UInt8 × Nat) → Bool
  | _, [] => true
  | lastEndOffset, e :: l =>
    if lastEndOffset < e.2 then false else noGap (max lastEndOffset ((e.1.length + e.2) % 2 ^ 16)) l

def isEntire : Bool := !f.moreFragment && !f.fragments.isEmpty && noGap 0 f.fragments

/-- The loop of `GetPacket`. -/
def collect : List UInt8 → List (List UInt8 × Nat) → Option (List UInt8)
  | p, [] => some p
  | p, e :: l =>
    let lastEndOffset := p.length % 2 ^ 16
    if lastEndOffset > e.2 then
      let newStart := lastEndOffset - e.2
      if e.1.length > newStart then
        (createFragment e.1 newStart (e.1.length - newStart)).bind fun tempFragment =>
          collect (p ++ tempFragment) l
      else collect p l
    else collect (p ++ e.1) l

def getPacket : Option (List UInt8) :=
  match f.fragments with
  | [] => none
  | e :: l => collect e.1 l

end Fragments

/-- `m_fragments`. -/
abbrev FragmentMap := UInt64 × UInt32 → Option Fragments

/-- `ProcessFragment`: the map, and the packet where it is complete. -/
def processFragment (m : FragmentMap) (a : Ipv4Packet) :
    Option (FragmentMap × Option (List UInt8)) :=
  let fragments := ((m a.2.key).getD .new).addFragment a.1 a.2.fragmentOffset a.2.moreFragments
  if fragments.isEntire then
    fragments.getPacket.map fun packet => (Function.update m a.2.key none, some packet)
  else some (Function.update m a.2.key (some fragments), none)

end OranNs3.Ipv4
