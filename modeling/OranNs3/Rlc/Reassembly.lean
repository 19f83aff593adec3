import OranNs3.Rlc.Room

/-!
# Reassembly of SDUs

`ReassembleAndDeliver` of `NrRlcUm` (`nr-rlc-um.cc`) and `NrRlcAm` (`nr-rlc-am.cc`), which differ in
one place: without losses an AM entity that waits for the start of an SDU does not take a PDU that
starts inside of one. A transition that is not possible is only logged.

Of PDUs of consecutive sequence numbers (`Carries`), an AM entity that gets all of them has
delivered exactly the SDUs that are whole at the position it has come to (`HoldsAll`), an UM entity
that misses some has delivered SDUs from before it, in order (`Holds`).
-/

namespace OranNs3.Rlc

open List

variable {α : Type}

/-- `ReassemblingState_t`. -/
inductive ReassemblingState
  | waitingS0Full
  | waitingSiSf
deriving DecidableEq

/-- The variables of the reassembly, with the SDUs passed to the upper layer so far. -/
structure Reassembler (α : Type) where
  reassemblingState : ReassemblingState := .waitingS0Full
  keepS0 : Option (List α) := none
  sdusBuffer : List (List α) := []
  expectedSeqNumber : Nat := 0
  delivered : List (List α) := []
deriving DecidableEq

/-- The header fields of a data PDU that reassembly reads, with its data field. -/
structure DataPdu (α : Type) where
  sequenceNumber : Nat
  framingInfo : FramingInfo
  extensionBits : List Bool
  lengthIndicators : List Nat
  data : List α
deriving DecidableEq

/-- The PDU of a data field, with the header that belongs to it. -/
def pduOf (sequenceNumber : Nat) (b : Build α) (fi : FramingInfo) : DataPdu α :=
  { sequenceNumber
    framingInfo := fi
    extensionBits := b.extensionBits
    lengthIndicators := b.lengthIndicators
    data := dataBytes b.dataField }

/-- The length of the header of an UM data PDU. -/
def DataPdu.umHeaderLength (pdu : DataPdu α) : Nat := 2 + liLength pdu.lengthIndicators.length

theorem DataPdu.checkHeader_um {pdu : DataPdu α} (size : Nat) (hlt : pdu.umHeaderLength < 2 ^ 16) :
    checkHeader pdu.umHeaderLength size = .ok () :=
  checkHeader_ok (Nat.add_pos_left Nat.two_pos _) hlt

/-- The bytes of SDUs in the packet of an UM data PDU: those in whose place the header does not
stand. -/
def DataPdu.carried (pdu : DataPdu α) : List α := pdu.data.drop (overwritten pdu.umHeaderLength)

/-- The loop that builds the list of SDUs: the front of an empty list is no
element. -/
def splitSdus : List Bool → List Nat → List α → Except RlcError (List (List α))
  | false :: _, _, data => .ok [data]
  | true :: extensionBits, lengthIndicator :: lengthIndicators, data =>
    (splitSdus extensionBits lengthIndicators (data.drop lengthIndicator)).map
      (data.take lengthIndicator :: ·)
  | _, _, _ => .error .nullPointer

/-- The transitions that begin with a new SDU, or skip to the next one: from `WAITING_S0_FULL`, and
after losses. -/
def startSdus (r : Reassembler α) (fi : FramingInfo) : Reassembler α :=
  match fi.firstByte, fi.lastByte with
  | true, true =>
    { r with
      reassemblingState := .waitingS0Full
      delivered := r.delivered ++ r.sdusBuffer
      sdusBuffer := [] }
  | true, false =>
    { r with
      reassemblingState := .waitingSiSf
      delivered := r.delivered ++ r.sdusBuffer.dropLast
      keepS0 := r.sdusBuffer.getLast?
      sdusBuffer := [] }
  | false, true =>
    { r with
      reassemblingState := .waitingS0Full
      delivered := r.delivered ++ r.sdusBuffer.tail
      sdusBuffer := [] }
  | false, false =>
    if r.sdusBuffer.length = 1 then { r with reassemblingState := .waitingS0Full, sdusBuffer := [] }
    else
      { r with
        reassemblingState := .waitingSiSf
        delivered := r.delivered ++ r.sdusBuffer.tail.dropLast
        keepS0 := r.sdusBuffer.tail.getLast?
        sdusBuffer := [] }

/-- The transitions that go on with the SDU that is kept: from `WAITING_SI_SF` without losses. -/
def continueSdus (r : Reassembler α) (fi : FramingInfo) : Except RlcError (Reassembler α) :=
  if fi.firstByte then .ok r
  else
    match r.keepS0, r.sdusBuffer with
    | some s0, si :: sdus =>
      if fi.lastByte then
        .ok { r with
          reassemblingState := .waitingS0Full
          delivered := r.delivered ++ (s0 ++ si) :: sdus
          keepS0 := some (s0 ++ si)
          sdusBuffer := [] }
      else if sdus.isEmpty then .ok { r with keepS0 := some (s0 ++ si), sdusBuffer := [] }
      else
        .ok { r with
          delivered := r.delivered ++ (s0 ++ si) :: sdus.dropLast
          keepS0 := sdus.getLast?
          sdusBuffer := [] }
    | _, _ => .error .nullPointer

/-- The transitions of the reassembly: of an AM entity if `am` is set. -/
def transition (am lost : Bool) (r : Reassembler α) (fi : FramingInfo) :
    Except RlcError (Reassembler α) :=
  match lost, r.reassemblingState with
  | true, .waitingS0Full => .ok (startSdus r fi)
  | true, .waitingSiSf => .ok (startSdus { r with keepS0 := none } fi)
  | false, .waitingS0Full => if am && !fi.firstByte then .ok r else .ok (startSdus r fi)
  | false, .waitingSiSf => continueSdus r fi

def reassembleAndDeliver (am : Bool) (r : Reassembler α) (pdu : DataPdu α) :
    Except RlcError (Reassembler α) := do
  let sdus ← splitSdus pdu.extensionBits pdu.lengthIndicators pdu.data
  transition am (pdu.sequenceNumber ≠ r.expectedSeqNumber)
    { r with
      expectedSeqNumber := (pdu.sequenceNumber + 1) % 1024
      sdusBuffer := r.sdusBuffer ++ sdus }
    pdu.framingInfo

/-! ## What chunks carry -/

section carries
variable {sdus sdus' : List (List α)} {q : List α} {cs : List (List α)} {p p' : Pos α} {l : Bool}

/-- Chunks with the bytes that came before the first of them. -/
def glue (q : List α) : List (List α) → List (List α)
  | [] => []
  | c :: cs => (q ++ c) :: cs

@[simp]
theorem glue_nil_left : glue [] cs = cs := by
  cases cs <;> rfl

theorem glue_cons {c : List α} : glue q (c :: cs) = (q ++ c) :: cs := rfl

theorem take_succ_of_getElem? {a : Nat} {s : List α} (h : sdus[a]? = some s) :
    sdus.take (a + 1) = sdus.take a ++ [s] := by
  rw [take_add_one, h]
  rfl

/-- The SDUs that are whole after the chunks, and the part of the next one. -/
structure Reached (sdus : List (List α)) (p : Pos α) (cs : List (List α)) (l : Bool) (p' : Pos α) :
    Prop where
  ne_nil : cs ≠ []
  le : p.sdus ≤ p'.sdus
  whole : sdus.take p'.sdus =
    sdus.take p.sdus ++ if l then glue p.part cs else (glue p.part cs).dropLast
  start : l = true → p'.part = []
  part : l = false → (glue p.part cs).getLast? = some p'.part ∧ p'.part ≠ []

theorem Carries.reached (h : Carries sdus p cs l p') : Reached sdus p cs l p' := by
  induction h with
  | last hc hget =>
    exact ⟨by simp, Nat.le_succ _, take_succ_of_getElem? hget, fun _ => rfl,
      fun h => Bool.noConfusion h⟩
  | part hc hd hget =>
    refine ⟨by simp, le_rfl, ?_, fun h => Bool.noConfusion h, fun _ => ⟨rfl, ?_⟩⟩
    · simp [glue]
    · exact fun h => hc (append_eq_nil_iff.1 h).2
  | @more a q c cs l p hc hget _ ih =>
    have hne : cs ≠ [] := ih.ne_nil
    refine ⟨by simp, (Nat.le_succ a).trans ih.le, ?_, ih.start, fun hl => ?_⟩
    · rw [ih.whole, take_succ_of_getElem? hget, glue_nil_left, glue_cons]
      cases l
      · simp [dropLast_cons_of_ne_nil hne]
      · simp
    · have hpart := ih.part hl
      rw [glue_nil_left] at hpart
      rw [glue, getLast?_cons, hpart.1]
      exact ⟨rfl, hpart.2⟩

theorem Carries.mono (h : Carries sdus p cs l p') (hpre : sdus <+: sdus') :
    Carries sdus' p cs l p' := by
  have hget : ∀ {a : Nat} {s : List α}, sdus[a]? = some s → sdus'[a]? = some s := by
    intro a s hs
    obtain ⟨rest, rfl⟩ := hpre
    rwa [getElem?_append_left (List.getElem?_eq_some_iff.1 hs).1]
  induction h with
  | last hc h => exact .last hc (hget h)
  | part hc hd h => exact .part hc hd (hget h)
  | more hc h _ ih => exact .more hc (hget h) ih

end carries

/-! ## The SDUs of a PDU -/

section split
variable {cs : List (List α)}

/-- A PDU that carries chunks from a position to another. -/
structure IsPdu (sdus : List (List α)) (p : Pos α) (pdu : DataPdu α) (p' : Pos α) : Prop where
  carries : ∃ cs, Carries sdus p cs pdu.framingInfo.lastByte p' ∧ pdu.data = cs.flatten ∧
    pdu.extensionBits = List.replicate (cs.length - 1) true ++ [false] ∧
    pdu.lengthIndicators = cs.dropLast.map List.length
  firstByte : pdu.framingInfo.firstByte = true ↔ p.part = []

theorem splitSdus_eq : ∀ (cs : List (List α)), cs ≠ [] →
    splitSdus (replicate (cs.length - 1) true ++ [false]) (cs.dropLast.map List.length)
      cs.flatten = .ok cs
  | [], h => absurd rfl h
  | [c], _ => by simp [splitSdus]
  | c :: c' :: cs, _ => by
    have ih := splitSdus_eq (c' :: cs) (by simp)
    simp only [length_cons, Nat.add_sub_cancel] at ih ⊢
    rw [replicate_succ, cons_append, dropLast_cons_of_ne_nil (by simp), map_cons,
      flatten_cons, splitSdus, drop_left, take_left, ih]
    rfl

theorem IsPdu.mono {sdus sdus' : List (List α)} {p p' : Pos α} {pdu : DataPdu α}
    (h : IsPdu sdus p pdu p') (hpre : sdus <+: sdus') : IsPdu sdus' p pdu p' := by
  obtain ⟨cs, hcs, hrest⟩ := h.carries
  exact ⟨⟨cs, hcs.mono hpre, hrest⟩, h.firstByte⟩

end split

/-! ## Reassembly along positions -/

section holds
variable {sdus : List (List α)} {p p' : Pos α} {r : Reassembler α} {pdu : DataPdu α} {am : Bool}

/-- All SDUs that are whole at a position have been delivered, and the part of the next one is kept.
-/
structure HoldsAll (sdus : List (List α)) (p : Pos α) (r : Reassembler α) : Prop where
  delivered : r.delivered = sdus.take p.sdus
  buffer : r.sdusBuffer = []
  start : p.part = [] → r.reassemblingState = .waitingS0Full
  part : p.part ≠ [] → r.reassemblingState = .waitingSiSf ∧ r.keepS0 = some p.part

/-- What was delivered are SDUs from before a position, in order; a part that is kept is that of the
next one. -/
structure Holds (sdus : List (List α)) (p : Pos α) (r : Reassembler α) : Prop where
  delivered : List.Sublist r.delivered (sdus.take p.sdus)
  buffer : r.sdusBuffer = []
  part : r.reassemblingState = .waitingSiSf → r.keepS0 = some p.part ∧ p.part ≠ []

variable {cs : List (List α)}

/-- The start of reassembly at a PDU that carries chunks from a position, with SDUs delivered from
before it. -/
theorem holds_startSdus (hcs : Reached sdus p cs pdu.framingInfo.lastByte p')
    (hfirst : pdu.framingInfo.firstByte = true ↔ p.part = []) (hbuf : r.sdusBuffer = cs)
    (hdel : Sublist r.delivered (sdus.take p.sdus)) :
    Holds sdus p' (startSdus r pdu.framingInfo) := by
  obtain ⟨c, cs', rfl⟩ := exists_cons_of_ne_nil hcs.ne_nil
  have hwhole := hcs.whole
  cases hf : pdu.framingInfo.firstByte with
  | true =>
    have hpart : p.part = [] := hfirst.1 hf
    rw [hpart, glue_nil_left] at hwhole
    cases hl : pdu.framingInfo.lastByte with
    | true =>
      rw [hl, if_pos rfl] at hwhole
      simp only [startSdus, hf, hl]
      exact ⟨by rw [hwhole, hbuf]; exact hdel.append (Sublist.refl _), rfl, fun h =>
        ReassemblingState.noConfusion h⟩
    | false =>
      have hkeep := hcs.part hl
      rw [hl, if_neg Bool.false_ne_true] at hwhole
      rw [hpart, glue_nil_left] at hkeep
      simp only [startSdus, hf, hl]
      exact ⟨by rw [hwhole, hbuf]; exact hdel.append (Sublist.refl _), rfl,
        fun _ => ⟨by rw [hbuf]; exact hkeep.1, hkeep.2⟩⟩
  | false =>
    rw [glue_cons] at hwhole
    cases hl : pdu.framingInfo.lastByte with
    | true =>
      rw [hl, if_pos rfl] at hwhole
      simp only [startSdus, hf, hl]
      refine ⟨?_, rfl, fun h => ReassemblingState.noConfusion h⟩
      rw [hwhole, hbuf]
      exact hdel.append (sublist_cons_self _ _)
    | false =>
      have hkeep := hcs.part hl
      rw [hl, if_neg Bool.false_ne_true] at hwhole
      rw [glue_cons] at hkeep
      simp only [startSdus, hf, hl, hbuf]
      split
      · refine ⟨?_, rfl, fun h => ReassemblingState.noConfusion h⟩
        rw [hwhole]
        exact hdel.trans (sublist_append_left _ _)
      · next hlen =>
        have hne : cs' ≠ [] := fun h => hlen (by simp [h])
        rw [dropLast_cons_of_ne_nil hne] at hwhole
        refine ⟨?_, rfl, fun _ => ⟨?_, hkeep.2⟩⟩
        · rw [hwhole]
          exact hdel.append (sublist_cons_self _ _)
        · rw [← hkeep.1, tail_cons, getLast?_cons, getLast?_eq_getLast_of_ne_nil hne]
          rfl

theorem continueSdus_eq {s0 : List α} (hne : cs ≠ [])
    (hf : pdu.framingInfo.firstByte = false) (hbuf : r.sdusBuffer = cs) (hkeep : r.keepS0 = some s0)
    (hstate : r.reassemblingState = .waitingSiSf) :
    ∃ r', continueSdus r pdu.framingInfo = .ok r' ∧ r'.sdusBuffer = [] ∧
      r'.expectedSeqNumber = r.expectedSeqNumber ∧
      r'.delivered = r.delivered ++
        (if pdu.framingInfo.lastByte then glue s0 cs else (glue s0 cs).dropLast) ∧
      r'.reassemblingState = (if pdu.framingInfo.lastByte then .waitingS0Full else .waitingSiSf) ∧
      (pdu.framingInfo.lastByte = false → r'.keepS0 = (glue s0 cs).getLast?) := by
  obtain ⟨c, cs', rfl⟩ := exists_cons_of_ne_nil hne
  rw [continueSdus, hf, if_neg Bool.false_ne_true, hkeep, hbuf, glue_cons]
  cases hl : pdu.framingInfo.lastByte with
  | true => exact ⟨_, rfl, rfl, rfl, rfl, rfl, fun h => Bool.noConfusion h⟩
  | false =>
    simp only [Bool.false_eq_true, if_false]
    split
    · next hempty =>
      rw [List.isEmpty_iff] at hempty
      subst hempty
      exact ⟨_, rfl, rfl, rfl, by simp, hstate, fun _ => rfl⟩
    · next hempty =>
      have hne' : cs' ≠ [] := fun h => hempty (by simp [h])
      refine ⟨_, rfl, rfl, rfl, ?_, hstate, fun _ => ?_⟩
      · rw [dropLast_cons_of_ne_nil hne']
      · rw [getLast?_cons, getLast?_eq_getLast_of_ne_nil hne']
        rfl

theorem IsPdu.split (h : IsPdu sdus p pdu p') :
    ∃ cs, Reached sdus p cs pdu.framingInfo.lastByte p' ∧
      splitSdus pdu.extensionBits pdu.lengthIndicators pdu.data = .ok cs := by
  obtain ⟨cs, hcs, hdata, hext, hli⟩ := h.carries
  refine ⟨cs, hcs.reached, ?_⟩
  rw [hdata, hext, hli]
  exact splitSdus_eq _ hcs.reached.ne_nil

/-- The reassembler when the transitions begin. -/
def loaded (r : Reassembler α) (pdu : DataPdu α) (cs : List (List α)) : Reassembler α :=
  { r with expectedSeqNumber := (pdu.sequenceNumber + 1) % 1024, sdusBuffer := r.sdusBuffer ++ cs }

theorem reassembleAndDeliver_eq
    (h : splitSdus pdu.extensionBits pdu.lengthIndicators pdu.data = .ok cs) :
    reassembleAndDeliver am r pdu =
      transition am (pdu.sequenceNumber ≠ r.expectedSeqNumber) (loaded r pdu cs)
        pdu.framingInfo := by
  rw [reassembleAndDeliver, h]
  rfl

theorem startSdus_expected {fi : FramingInfo} :
    (startSdus r fi).expectedSeqNumber = r.expectedSeqNumber := by
  rcases fi with ⟨_ | _, _ | _⟩
  · simp only [startSdus]
    split <;> rfl
  all_goals rfl

/-- The chunks of the next PDU complete what is kept, whichever entity it is. -/
theorem HoldsAll.next (am : Bool) (hr : HoldsAll sdus p r) (h : IsPdu sdus p pdu p')
    (hsn : pdu.sequenceNumber = r.expectedSeqNumber) :
    ∃ r', reassembleAndDeliver am r pdu = .ok r' ∧ HoldsAll sdus p' r' ∧
      r'.expectedSeqNumber = (pdu.sequenceNumber + 1) % 1024 := by
  obtain ⟨cs, hcs, hsplit⟩ := h.split
  have hbuf : (loaded r pdu cs).sdusBuffer = cs := by simp [loaded, hr.buffer]
  have hlost : decide (pdu.sequenceNumber ≠ r.expectedSeqNumber) = false := by simp [hsn]
  rw [reassembleAndDeliver_eq hsplit, hlost]
  by_cases hpart : p.part = []
  · have hstate : (loaded r pdu cs).reassemblingState = .waitingS0Full := hr.start hpart
    have hf := h.firstByte.2 hpart
    have hwhole := hcs.whole
    rw [hpart, glue_nil_left] at hwhole
    refine ⟨startSdus (loaded r pdu cs) pdu.framingInfo, ?_, ?_, startSdus_expected⟩
    · simp [transition, hstate, hf]
    · cases hl : pdu.framingInfo.lastByte with
      | true =>
        rw [hl, if_pos rfl] at hwhole
        simp only [startSdus, hf, hl]
        refine ⟨?_, rfl, fun _ => rfl, fun h => absurd (hcs.start hl) h⟩
        rw [hbuf, hwhole, ← hr.delivered]
        rfl
      | false =>
        have hkeep := hcs.part hl
        rw [hpart, glue_nil_left] at hkeep
        rw [hl, if_neg Bool.false_ne_true] at hwhole
        simp only [startSdus, hf, hl]
        refine ⟨?_, rfl, fun h => absurd h hkeep.2, fun _ => ⟨rfl, ?_⟩⟩
        · rw [hbuf, hwhole, ← hr.delivered]
          rfl
        · rw [hbuf]
          exact hkeep.1
  · obtain ⟨hstate, hkeep⟩ := hr.part hpart
    have hf : pdu.framingInfo.firstByte = false := by
      rw [← Bool.not_eq_true]
      exact fun h' => hpart (h.firstByte.1 h')
    obtain ⟨r', hr', hbuf', hexp, hdel, hst, hkeep'⟩ :=
      continueSdus_eq (r := loaded r pdu cs) hcs.ne_nil hf hbuf hkeep hstate
    refine ⟨r', ?_, ⟨?_, hbuf', fun h => ?_, fun h => ?_⟩, hexp⟩
    · rw [← hr']
      simp only [transition, loaded, hstate]
    · rw [hdel, hcs.whole, ← hr.delivered]
      rfl
    · cases hl : pdu.framingInfo.lastByte with
      | true => rw [hst, hl, if_pos rfl]
      | false => exact absurd h (hcs.part hl).2
    · cases hl : pdu.framingInfo.lastByte with
      | true => exact absurd (hcs.start hl) h
      | false =>
        rw [hst, hl, hkeep' hl, (hcs.part hl).1]
        exact ⟨rfl, rfl⟩

theorem Holds.next (hr : Holds sdus p r) (h : IsPdu sdus p pdu p')
    (hsn : pdu.sequenceNumber = r.expectedSeqNumber) :
    ∃ r', reassembleAndDeliver false r pdu = .ok r' ∧ Holds sdus p' r' ∧
      r'.expectedSeqNumber = (pdu.sequenceNumber + 1) % 1024 := by
  obtain ⟨cs, hcs, hsplit⟩ := h.split
  have hbuf : (loaded r pdu cs).sdusBuffer = cs := by simp [loaded, hr.buffer]
  have hlost : decide (pdu.sequenceNumber ≠ r.expectedSeqNumber) = false := by simp [hsn]
  rw [reassembleAndDeliver_eq hsplit, hlost]
  cases hstate : r.reassemblingState with
  | waitingS0Full =>
    have hstate' : (loaded r pdu cs).reassemblingState = .waitingS0Full := hstate
    refine ⟨startSdus (loaded r pdu cs) pdu.framingInfo, ?_,
      holds_startSdus hcs h.firstByte hbuf hr.delivered, startSdus_expected⟩
    simp [transition, hstate']
  | waitingSiSf =>
    obtain ⟨hkeep, hpart⟩ := hr.part hstate
    have hf : pdu.framingInfo.firstByte = false := by
      rw [← Bool.not_eq_true]
      exact fun h' => hpart (h.firstByte.1 h')
    obtain ⟨r', hr', hbuf', hexp, hdel, hst, hkeep'⟩ :=
      continueSdus_eq (r := loaded r pdu cs) hcs.ne_nil hf hbuf hkeep hstate
    refine ⟨r', ?_, ⟨?_, hbuf', fun h => ?_⟩, hexp⟩
    · rw [← hr']
      simp only [transition, loaded, hstate]
    · rw [hdel, hcs.whole]
      exact hr.delivered.append (Sublist.refl _)
    · cases hl : pdu.framingInfo.lastByte with
      | true =>
        rw [hst, hl, if_pos rfl] at h
        exact ReassemblingState.noConfusion h
      | false =>
        rw [hkeep' hl]
        exact hcs.part hl

theorem Holds.gap {p₀ : Pos α} (hr : Holds sdus p₀ r) (hle : p₀.sdus ≤ p.sdus)
    (h : IsPdu sdus p pdu p') (hsn : pdu.sequenceNumber ≠ r.expectedSeqNumber) :
    ∃ r', reassembleAndDeliver am r pdu = .ok r' ∧ Holds sdus p' r' ∧
      r'.expectedSeqNumber = (pdu.sequenceNumber + 1) % 1024 := by
  obtain ⟨cs, hcs, hsplit⟩ := h.split
  have hbuf : (loaded r pdu cs).sdusBuffer = cs := by simp [loaded, hr.buffer]
  have hlost : decide (pdu.sequenceNumber ≠ r.expectedSeqNumber) = true := by simp [hsn]
  have hdel : Sublist r.delivered (sdus.take p.sdus) :=
    hr.delivered.trans (take_sublist_take_left hle)
  rw [reassembleAndDeliver_eq hsplit, hlost]
  cases hstate : r.reassemblingState with
  | waitingS0Full =>
    refine ⟨startSdus (loaded r pdu cs) pdu.framingInfo, ?_,
      holds_startSdus hcs h.firstByte hbuf hdel, startSdus_expected⟩
    simp only [transition, loaded, hstate]
  | waitingSiSf =>
    refine ⟨startSdus { loaded r pdu cs with keepS0 := none } pdu.framingInfo, ?_,
      holds_startSdus hcs h.firstByte hbuf hdel, startSdus_expected⟩
    simp only [transition, loaded, hstate]

theorem HoldsAll.mono (h : HoldsAll sdus p r) {sdus' : List (List α)} (hpre : sdus <+: sdus')
    (hle : p.sdus ≤ sdus.length) : HoldsAll sdus' p r := by
  obtain ⟨rest, rfl⟩ := hpre
  exact ⟨by rw [h.delivered, take_append_of_le_length hle], h.buffer, h.start, h.part⟩

theorem Holds.mono (h : Holds sdus p r) {sdus' : List (List α)} (hpre : sdus <+: sdus')
    (hle : p.sdus ≤ sdus.length) : Holds sdus' p r := by
  obtain ⟨rest, rfl⟩ := hpre
  exact ⟨by rw [take_append_of_le_length hle]; exact h.delivered, h.buffer, h.part⟩

end holds

end OranNs3.Rlc
