import Mathlib.Algebra.Ring.Nat
import OranNs3.Lib.Keyed
import OranNs3.Lib.Run

/-!
# Bearers of fragments

`NrEpcTftClassifier` (`nr-epc-tft-classifier.cc`) gives an IPv4 packet the largest id of a TFT
(`nr-epc-tft.cc`) that matches it. The ports of a datagram stand in its first fragment only, and are
kept until its last one. So all fragments of a datagram that come in order have the id of the
datagram, whatever comes between them (`classify_fragments`): a datagram waits for its next fragment
(`Waits`) in its own entry.
-/

namespace OranNs3.Tft

open Function List Option

/-- `NrEpcTft::Direction`. -/
inductive Direction
  | downlink
  | uplink
  | bidirectional
deriving DecidableEq

def Direction.toNat : Direction → Nat
  | downlink => 1
  | uplink => 2
  | bidirectional => 3

/-- What filters are matched with. -/
structure Flow where
  direction : Direction
  remoteAddress : UInt32
  localAddress : UInt32
  remotePort : UInt16
  localPort : UInt16
  typeOfService : UInt8

/-- `NrEpcTft::PacketFilter` for IPv4, with the values that its constructor gives. -/
structure PacketFilter where
  precedence : Nat := 255
  direction : Direction := .bidirectional
  remoteAddress : UInt32 := 0x66666666
  remoteMask : UInt32 := 0
  localAddress : UInt32 := 0x66666666
  localMask : UInt32 := 0
  remotePortStart : UInt16 := 0
  remotePortEnd : UInt16 := 65535
  localPortStart : UInt16 := 0
  localPortEnd : UInt16 := 65535
  typeOfService : UInt8 := 0
  typeOfServiceMask : UInt8 := 0

def isMatch (mask a b : UInt32) : Bool := a &&& mask == b &&& mask

/-- `PacketFilter::Matches`. -/
def PacketFilter.matchesFlow (f : PacketFilter) (x : Flow) : Bool :=
  x.direction.toNat &&& f.direction.toNat != 0 && isMatch f.remoteMask f.remoteAddress
    x.remoteAddress && isMatch f.localMask f.localAddress x.localAddress &&
    (f.remotePortStart ≤ x.remotePort && x.remotePort ≤ f.remotePortEnd) &&
    (f.localPortStart ≤ x.localPort && x.localPort ≤ f.localPortEnd) &&
    x.typeOfService &&& f.typeOfServiceMask == f.typeOfService &&& f.typeOfServiceMask

/-- `NrEpcTft`. -/
structure NrEpcTft where
  filters : List PacketFilter := []

namespace NrEpcTft

/-- `Matches`. -/
def matchesFlow (t : NrEpcTft) (x : Flow) : Bool := t.filters.any (·.matchesFlow x)

end NrEpcTft

/-- `UdpL4Protocol::PROT_NUMBER`. -/
def udp : UInt8 := 17

/-- `TcpL4Protocol::PROT_NUMBER`. -/
def tcp : UInt8 := 6

/-- An IPv4 packet: what is read of its header, and what follows it. -/
structure IpPacket where
  source : UInt32
  destination : UInt32
  protocol : UInt8
  identification : UInt16
  tos : UInt8
  fragmentOffset : Nat
  lastFragment : Bool
  payloadSize : Nat
  payload : List UInt8
deriving DecidableEq

/-- The key of a fragment: source, destination, protocol and identification. -/
abbrev FragmentKey := UInt32 × UInt32 × UInt8 × UInt16

namespace IpPacket

def key (p : IpPacket) : FragmentKey := (p.source, p.destination, p.protocol, p.identification)

/-- The size of the transport header that is removed, if there is enough data. -/
def transportSize (p : IpPacket) : Option Nat :=
  if p.protocol = udp ∧ 8 ≤ p.payloadSize then some 8
  else if p.protocol = tcp ∧ 20 ≤ p.payloadSize then some 20
  else none

end IpPacket

/-- The source and the destination port of a transport header; none where the packet ends before it.
-/
def portsAt (size : Nat) : List UInt8 → Option (UInt16 × UInt16)
  | a :: b :: c :: d :: rest =>
    if size ≤ rest.length + 4 then some
      (a.toUInt16 <<< 8 ||| b.toUInt16, c.toUInt16 <<< 8 ||| d.toUInt16) else none
  | _ => none

/-- The first of two in uplink, the second in downlink: the source and the destination, as local and
remote. -/
def Direction.orient {α : Type} (direction : Direction) (ends : α × α) : α × α :=
  if direction = .uplink then ends else ends.swap

/-- `NrEpcTftClassifier`: `m_tftMap` in the order of the ids, and the ports of
`m_classifiedIpv4Fragments`. -/
structure Classifier where
  tftMap : List (Nat × NrEpcTft)
  ordered : Keyed.Ordered Prod.fst tftMap
  classifiedIpv4Fragments : FragmentKey → Option (UInt16 × UInt16)

namespace Classifier

variable (c : Classifier)

/-- The ports of a key are kept, or erased. -/
def set (key : FragmentKey) (ports : Option (UInt16 × UInt16)) : Classifier :=
  { c with classifiedIpv4Fragments := Function.update c.classifiedIpv4Fragments key ports }

/-- The local and the remote port of an IPv4 packet. -/
def portsOf (direction : Direction) (p : IpPacket) : Option (Classifier × UInt16 × UInt16) :=
  if p.fragmentOffset = 0 then
    match p.transportSize with
    | some size => (portsAt size p.payload).map fun ends =>
      (if p.lastFragment then c else c.set p.key (some (direction.orient ends)),
        direction.orient ends)
    | none => some (c, 0, 0)
  else match c.classifiedIpv4Fragments p.key with
    | some ports => some (if p.lastFragment then c.set p.key none else c, ports)
    | none => some (c, 0, 0)

/-- The id of the last TFT that matches, or zero. -/
def find (x : Flow) : Nat :=
  ((c.tftMap.reverse.find? fun e => e.2.matchesFlow x).map Prod.fst).getD 0

/-- What filters are matched with for a packet. -/
def flow (direction : Direction) (p : IpPacket) (ports : UInt16 × UInt16) : Flow :=
  let (localAddress, remoteAddress) := direction.orient (p.source, p.destination)
  ⟨direction, remoteAddress, localAddress, ports.2, ports.1, p.tos⟩

/-- `Classify` of an IPv4 packet; none when it asserts. -/
def classify (call : Direction × IpPacket) : Option (Classifier × Nat) :=
  if call.1 = .bidirectional then none
  else (c.portsOf call.1 call.2).map fun (c, ports) => (c, c.find (flow call.1 call.2 ports))

end Classifier

/-! ## Datagrams -/

/-- A datagram of UDP or TCP: the payload of its first fragment, which holds the transport header,
and those of the others. -/
structure Datagram where
  direction : Direction
  source : UInt32
  destination : UInt32
  protocol : UInt8
  identification : UInt16
  tos : UInt8
  first : List UInt8
  rest : List (List UInt8)
  directed : direction ≠ .bidirectional
  transport : protocol = udp ∧ 8 ≤ first.length ∨ protocol = tcp ∧ 20 ≤ first.length
  fits : first.length + rest.flatten.length ≤ 65515

namespace Datagram

variable (d : Datagram)

/-- A packet with a part of the datagram. -/
def packet (offset : Nat) (lastFragment : Bool) (part : List UInt8) : Direction × IpPacket :=
  (d.direction, ⟨d.source, d.destination, d.protocol, d.identification, d.tos, offset % 2 ^ 16,
    lastFragment, part.length % 2 ^ 16, part⟩)

/-- The fragments with the parts from an offset on. -/
def fragmentsFrom : Nat → List (List UInt8) → List (Direction × IpPacket)
  | _, [] => []
  | offset, part :: parts =>
    d.packet offset parts.isEmpty part :: fragmentsFrom (offset + part.length) parts

/-- The fragments. -/
def fragments : List (Direction × IpPacket) := d.fragmentsFrom 0 (d.first :: d.rest)

/-- The datagram in one packet. -/
def whole : Direction × IpPacket := d.packet 0 true (d.first ++ d.rest.flatten)

def key : FragmentKey := (d.source, d.destination, d.protocol, d.identification)

/-- The local and the remote port of the transport header. -/
def ports : UInt16 × UInt16 := d.direction.orient ((portsAt 4 d.first).getD (0, 0))

/-- What filters are matched with for the datagram. -/
def flow : Flow := Classifier.flow d.direction d.whole.2 d.ports

end Datagram

variable (c : Classifier)

/-- The id that a classifier is for: the largest one of a TFT with a filter that matches, or zero if
there is none. -/
def IsBearer (x : Flow) (id : Nat) : Prop :=
  (∃ tft, (id, tft) ∈ c.tftMap ∧ (∃ f ∈ tft.filters, f.matchesFlow x = true) ∧
    ∀ e ∈ c.tftMap, (∃ f ∈ e.2.filters, f.matchesFlow x = true) → e.1 ≤ id) ∨
  (id = 0 ∧ ∀ e ∈ c.tftMap, ∀ f ∈ e.2.filters, f.matchesFlow x = false)

/-- The calls of a key. -/
def callsOf (key : FragmentKey) (calls : List (Direction × IpPacket)) :
    List (Direction × IpPacket) :=
  calls.filter fun call => call.2.key = key

/-- Calls with fragments of the datagrams, those of each one in order and from the first one on. -/
def Interleaves (ds : List Datagram) (calls : List (Direction × IpPacket)) : Prop :=
  (∀ call ∈ calls, ∃ d ∈ ds, call.2.key = d.key) ∧ ∀ d ∈ ds, callsOf d.key calls <+: d.fragments

/-- Every fragment has the id of its datagram, which it also has in one packet, and a datagram whose
fragments have all come has no entry. -/
def Consistent (ds : List Datagram) (calls : List (Direction × IpPacket)) : Prop :=
  ∃ c' ids, Lts.outputs Classifier.classify c calls = some (c', ids) ∧
    List.Forall₂ (fun call id => ∀ d ∈ ds, call.2.key = d.key →
      IsBearer c d.flow id ∧ (c.classify d.whole).map Prod.snd = some id) calls ids ∧
    ∀ d ∈ ds, callsOf d.key calls = d.fragments → c'.classifiedIpv4Fragments d.key = none

/-! ## The ports of a datagram -/

section ports
variable {c : Classifier} {d : Datagram} {size offset : Nat} {last : Bool} {part q : List UInt8}

theorem portsAt_eq {p : List UInt8} (h4 : 4 ≤ size) (hp : size ≤ p.length) (q : List UInt8) :
    portsAt size (p ++ q) = some ((portsAt 4 p).getD (0, 0)) := by
  match p, hp with
  | a :: b :: c :: d :: rest, hp =>
    have hle : size ≤ rest.length + 4 := hp
    rw [cons_append, cons_append, cons_append, cons_append, portsAt, portsAt,
      if_pos (by rw [length_append]; omega), if_pos (by omega), getD_some]
  | [], hp | [_], hp | [_, _], hp | [_, _, _], hp =>
    simp only [length_nil, length_cons] at hp
    omega

theorem transportSize_packet (d : Datagram) : ∃ size, 4 ≤ size ∧ size ≤ d.first.length ∧
    ∀ {last part}, d.first.length ≤ part.length → part.length < 2 ^ 16 →
      (d.packet 0 last part).2.transportSize = some size := by
  rcases d.transport with ⟨hudp, h8⟩ | ⟨htcp, h20⟩
  · refine ⟨8, by omega, h8, fun {last part} hle hlt => if_pos ⟨hudp, ?_⟩⟩
    change 8 ≤ part.length % 2 ^ 16
    omega
  · refine ⟨20, by omega, h20, fun {last part} hle hlt => (if_neg ?_).trans (if_pos ⟨htcp, ?_⟩)⟩
    · rintro ⟨hudp, -⟩
      exact absurd (htcp.symm.trans hudp) (by decide)
    · change 20 ≤ part.length % 2 ^ 16
      omega

theorem portsOf_first (last : Bool) (hq : d.first.length + q.length < 2 ^ 16) :
    c.portsOf d.direction (d.packet 0 last (d.first ++ q)).2 =
      some (if last then c else c.set d.key (some d.ports), d.ports) := by
  obtain ⟨size, h4, hsize, htransport⟩ := transportSize_packet d
  have hlen : (d.first ++ q).length = d.first.length + q.length := length_append
  have h0 : (d.packet 0 last (d.first ++ q)).2.fragmentOffset = 0 := rfl
  rw [Classifier.portsOf, if_pos h0, htransport (by omega) (by omega)]
  change (portsAt size (d.first ++ q)).map _ = _
  rw [portsAt_eq h4 hsize]
  rfl

theorem portsOf_later (h0 : 0 < offset) (hlt : offset < 2 ^ 16) {ports : UInt16 × UInt16}
    (hc : c.classifiedIpv4Fragments d.key = some ports) :
    c.portsOf d.direction (d.packet offset last part).2 =
      some (if last then c.set d.key none else c, ports) := by
  have hne : ¬ (d.packet offset last part).2.fragmentOffset = 0 := by
    change ¬ offset % 2 ^ 16 = 0
    omega
  rw [Classifier.portsOf, if_neg hne]
  change (match c.classifiedIpv4Fragments d.key with | some ports => _ | none => _) = _
  rw [hc]
  rfl

theorem classify_packet {c' : Classifier}
    (h : c.portsOf d.direction (d.packet offset last part).2 = some (c', d.ports)) :
    c.classify (d.packet offset last part) = some (c', c'.find d.flow) := by
  have hdirected : ¬ (d.packet offset last part).1 = .bidirectional := d.directed
  rw [Classifier.classify, if_neg hdirected]
  change (c.portsOf d.direction (d.packet offset last part).2).map _ = _
  rw [h]
  rfl

end ports

/-! ## One datagram among others -/

/-- A datagram with its entry waits for these fragments. -/
inductive Waits (d : Datagram) : Option (UInt16 × UInt16) → List (Direction × IpPacket) → Prop
  | first : Waits d none d.fragments
  | next {offset : Nat} {part : List UInt8} {parts : List (List UInt8)} (hpos : 0 < offset)
      (hfits : offset + (part :: parts).flatten.length ≤ 65515) :
      Waits d (some d.ports) (d.fragmentsFrom offset (part :: parts))
  | done : Waits d none []

section waits
variable {c : Classifier} {d : Datagram} {call : Direction × IpPacket}
  {calls : List (Direction × IpPacket)}

theorem waits_rest {offset : Nat} {parts : List (List UInt8)} (hpos : 0 < offset)
    (hfits : offset + parts.flatten.length ≤ 65515) :
    Waits d (if parts.isEmpty then none else some d.ports) (d.fragmentsFrom offset parts) := by
  cases parts with
  | nil => exact .done
  | cons part parts => exact .next hpos hfits

variable {ports : Option (UInt16 × UInt16)}

theorem set_key {key : FragmentKey} :
    (c.set key ports).classifiedIpv4Fragments key = ports := update_self _ _ _

theorem set_other {key key' : FragmentKey} (h : key' ≠ key) :
    (c.set key ports).classifiedIpv4Fragments key' = c.classifiedIpv4Fragments key' :=
  update_of_ne h _ _

theorem set_self {key : FragmentKey}
    (h : c.classifiedIpv4Fragments key = ports) : c.set key ports = c := by
  rw [Classifier.set, ← h, update_eq_self]

theorem Waits.entry (hw : Waits d ports calls) (h : calls = []) : ports = none := by
  cases hw with
  | first => rfl
  | next => cases h
  | done => rfl

theorem Waits.step (hw : Waits d (c.classifiedIpv4Fragments d.key) (call :: calls)) :
    ∃ ports, c.classify call = some (c.set d.key ports, c.find d.flow) ∧ Waits d ports calls := by
  generalize hentry : c.classifiedIpv4Fragments d.key = entry at hw
  generalize hl : call :: calls = l at hw
  cases hw with
  | first =>
    obtain ⟨rfl, rfl⟩ := cons.inj hl
    have hlt : d.first.length + ([] : List UInt8).length < 2 ^ 16 := by
      have := d.fits
      rw [length_nil]
      omega
    have hfirst := portsOf_first (c := c) d.rest.isEmpty hlt
    rw [append_nil] at hfirst
    refine ⟨if d.rest.isEmpty then none else some d.ports, ?_, waits_rest ?_ ?_⟩
    · rw [classify_packet hfirst]
      cases hrest : d.rest.isEmpty with
      | true => simp [set_self hentry]
      | false => rfl
    · have := d.transport
      omega
    · have := d.fits
      rwa [Nat.zero_add]
  | @next offset part parts hpos hfits =>
    obtain ⟨rfl, rfl⟩ := cons.inj hl
    rw [flatten_cons, length_append] at hfits
    refine ⟨if parts.isEmpty then none else some d.ports, ?_, waits_rest (by omega) (by omega)⟩
    rw [classify_packet (portsOf_later hpos (by omega) hentry)]
    cases hrest : parts.isEmpty with
    | true => rfl
    | false => simp [set_self hentry]
  | done => cases hl

end waits

/-! ## The largest id -/

theorem isBearer_find (x : Flow) : IsBearer c x (c.find x) := by
  have hany (t : NrEpcTft) : t.matchesFlow x = true ↔ ∃ f ∈ t.filters, f.matchesFlow x = true :=
    any_eq_true
  unfold Classifier.find
  cases hfind : c.tftMap.reverse.find? fun e => e.2.matchesFlow x with
  | none =>
    refine Or.inr ⟨rfl, fun e he f hf => ?_⟩
    have hnot := find?_eq_none.1 hfind e (mem_reverse.2 he)
    exact Bool.eq_false_iff.2 fun hmatch => hnot ((hany e.2).2 ⟨f, hf, hmatch⟩)
  | some e =>
    obtain ⟨hmatch, after, before, hsplit, hafter⟩ := find?_eq_some_iff_append.1 hfind
    have hmap : c.tftMap = before.reverse ++ e :: after.reverse := by
      rw [← reverse_reverse c.tftMap, hsplit]
      simp
    refine Or.inl ⟨e.2, by simp [hmap], (hany e.2).1 hmatch, fun e' he' hmatch' => ?_⟩
    have hordered := c.ordered
    rw [hmap] at he' hordered
    rcases mem_append.1 he' with hbefore | hmem
    · exact ((pairwise_append.1 hordered).2.2 e' hbefore e mem_cons_self).le
    · rcases mem_cons.1 hmem with rfl | hmem
      · exact le_rfl
      · have hnot := hafter e' (mem_reverse.1 hmem)
        rw [(hany e'.2).2 hmatch'] at hnot
        cases hnot

/-! ## Runs -/

section runs
variable {ds : List Datagram} {c : Classifier}

theorem callsOf_other {call : Direction × IpPacket} {calls : List (Direction × IpPacket)}
    {key key' : FragmentKey} (hkey : call.2.key = key) (hne : key' ≠ key) :
    callsOf key' (call :: calls) = callsOf key' calls :=
  filter_cons_of_neg (by simp [hkey, hne.symm])

/-- A run in which every datagram waits for its fragments, those in `left`. -/
theorem waits_run (hkeys : (ds.map Datagram.key).Nodup) :
    ∀ {calls : List (Direction × IpPacket)} {c : Classifier}
    {left : Datagram → List (Direction × IpPacket)},
    (∀ call ∈ calls, ∃ d ∈ ds, call.2.key = d.key) → (∀ d ∈ ds, callsOf d.key calls <+: left d ∧
      Waits d (c.classifiedIpv4Fragments d.key) (left d)) →
    ∃ c' ids, Lts.outputs Classifier.classify c calls = some (c', ids) ∧
      Forall₂ (fun call id => ∀ d ∈ ds, call.2.key = d.key → id = c.find d.flow) calls ids ∧
      ∀ d ∈ ds, ∃ rest, left d = callsOf d.key calls ++ rest ∧
        Waits d (c'.classifiedIpv4Fragments d.key) rest
  | [], c, left, _, hwaits => ⟨c, [], rfl, .nil, fun d hd => ⟨left d, rfl, (hwaits d hd).2⟩⟩
  | call :: calls, c, left, hmem, hwaits => by
    obtain ⟨d, hd, hkey⟩ := hmem call mem_cons_self
    have hunique : ∀ e ∈ ds, e.key = d.key → e = d := fun e he heq =>
      inj_on_of_nodup_map hkeys he hd heq
    obtain ⟨⟨rest, hprefix⟩, hd_waits⟩ := hwaits d hd
    have hcalls : callsOf d.key (call :: calls) = call :: callsOf d.key calls := by
      simp [callsOf, hkey]
    rw [← hprefix, hcalls] at hd_waits
    obtain ⟨ports, hclassify, hnext⟩ := hd_waits.step
    let left' : Datagram → List (Direction × IpPacket) := fun e =>
      if e.key = d.key then callsOf d.key calls ++ rest else left e
    have hrest : ∀ e ∈ ds, callsOf e.key calls <+: left' e ∧
        Waits e ((c.set d.key ports).classifiedIpv4Fragments e.key) (left' e) := by
      intro e he
      by_cases heq : e.key = d.key
      · obtain rfl := hunique e he heq
        rw [set_key, show left' e = callsOf e.key calls ++ rest from if_pos rfl]
        exact ⟨prefix_append _ _, hnext⟩
      · rw [set_other heq, show left' e = left e from if_neg heq, ← callsOf_other hkey heq]
        exact hwaits e he
    obtain ⟨c', ids, hrun, hids, hleft⟩ := waits_run hkeys
      (fun call hcall => hmem call (mem_cons_of_mem _ hcall)) hrest
    refine ⟨c', c.find d.flow :: ids, ?_, .cons ?_ hids, fun e he => ?_⟩
    · rw [Lts.outputs, hclassify, bind_some, hrun, map_some]
    · intro e he heq
      rw [hunique e he (heq.symm.trans hkey)]
    · obtain ⟨rest', heq', hwaits'⟩ := hleft e he
      refine ⟨rest', ?_, hwaits'⟩
      by_cases heq : e.key = d.key
      · obtain rfl := hunique e he heq
        rw [← hprefix, hcalls, cons_append, cons_append, ← heq']
        exact congrArg (call :: ·) (if_pos rfl).symm
      · rw [callsOf_other hkey heq, ← heq']
        exact (if_neg heq).symm

end runs

theorem classify_whole (d : Datagram) :
    (c.classify d.whole).map Prod.snd = some (c.find d.flow) := by
  have hfits := d.fits
  rw [Datagram.whole, classify_packet (portsOf_first true (by omega)), if_pos rfl, map_some]

/-- In every run with the fragments of UDP and TCP datagrams of different keys, those of each one in
order, every fragment has the id of its datagram, and no entry is left of a datagram whose fragments
have all come. -/
theorem classify_fragments (c : Classifier) (hc : ∀ key, c.classifiedIpv4Fragments key = none)
    (ds : List Datagram) (hkeys : (ds.map Datagram.key).Nodup) (calls : List (Direction × IpPacket))
    (h : Interleaves ds calls) : Consistent c ds calls := by
  have hwaits : ∀ d ∈ ds, callsOf d.key calls <+: d.fragments ∧
      Waits d (c.classifiedIpv4Fragments d.key) d.fragments :=
        fun d hd => ⟨h.2 d hd, hc d.key ▸ .first⟩
  obtain ⟨c', ids, hrun, hids, hleft⟩ := waits_run hkeys h.1 hwaits
  refine ⟨c', ids, hrun, hids.imp fun call id hid d hd hkey => ?_, fun d hd hall => ?_⟩
  · rw [hid d hd hkey]
    exact ⟨isBearer_find c d.flow, classify_whole c d⟩
  · obtain ⟨rest, hrest, hwait⟩ := hleft d hd
    rw [hall, self_eq_append_right] at hrest
    exact hwait.entry hrest

/-! ## Example -/

/-- A TFT for all packets and one for a local port. -/
def sampleClassifier : Classifier :=
  ⟨[(1, ⟨[{}]⟩), (2, ⟨[{ localPortStart := 258, localPortEnd := 258 }]⟩)], by simp [Keyed.Ordered],
    fun _ => none⟩

/-- A datagram of UDP from the port 258, in two fragments. -/
def sampleUplink : Datagram where
  direction := .uplink
  source := 1
  destination := 2
  protocol := udp
  identification := 7
  tos := 0
  first := [1, 2, 3, 4, 0, 12, 0, 0]
  rest := [[9, 9, 9, 9]]
  directed := by decide
  transport := Or.inl ⟨rfl, by decide⟩
  fits := by decide

/-- Its answer. -/
def sampleDownlink : Datagram :=
  { sampleUplink with
    direction := .downlink, source := 2, destination := 1, first := [3, 4, 1, 2, 0, 12, 0, 0]
    directed := by decide, transport := Or.inl ⟨rfl, by decide⟩, fits := by decide }

/-- The last fragment of the request comes after the answer. -/
theorem classify_fragments_sample : Consistent sampleClassifier [sampleUplink, sampleDownlink]
    [sampleUplink.packet 0 false [1, 2, 3, 4, 0, 12, 0, 0],
      sampleDownlink.packet 0 false [3, 4, 1, 2, 0, 12, 0, 0],
        sampleUplink.packet 8 true [9, 9, 9, 9]] :=
  classify_fragments _ (fun _ => rfl) _ (by decide) _ ⟨by decide, by decide⟩

end OranNs3.Tft
