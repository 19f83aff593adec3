import OranNs3.Rlc.StatusPdu

/-!
# The header of a STATUS PDU and its length

`NrRlcAmHeader` counts the length of a STATUS PDU in 16 bits, while NACKs are pushed and again while
they are read (`nr-rlc-am-header.cc`). The two counts are the number of bytes (`build_eq`,
`deserialize_eq`), as long as that is below `2 ^ 16`: `statusPdu_iff`.
-/

namespace OranNs3.Rlc

open List

variable {ackSn : Nat} {nacks : List Nat}

/-- `NrRlcAmHeader` with the members for control PDUs. -/
structure NrRlcAmControlHeader extends StatusPdu where
  controlPduType : Nat
  headerLength : Nat
deriving DecidableEq

namespace NrRlcAmControlHeader

/-- The constructor and `SetControlPdu`. -/
def setControlPdu (controlPduType : Nat) : NrRlcAmControlHeader where
  ackSn := 0xffff % 1024
  nackSnList := []
  controlPduType := controlPduType
  headerLength := 2

variable (n : NrRlcAmControlHeader)

def setAckSn (ackSn : Nat) : NrRlcAmControlHeader := { n with ackSn }

def pushNack (nack : Nat) : NrRlcAmControlHeader :=
  { n with
    nackSnList := n.nackSnList ++ [nack]
    headerLength :=
      if (n.nackSnList.length + 1) % 2 = 0 then (n.headerLength + 1) % 2 ^ 16
        else (n.headerLength + 2) % 2 ^ 16 }

/-- A STATUS PDU, as an entity builds it. -/
def build (ackSn : Nat) (nacks : List Nat) : NrRlcAmControlHeader :=
  nacks.foldl pushNack ((setControlPdu 0).setAckSn ackSn)

/-- The loop of `Deserialize` over the NACKs behind the first, with the length so far. -/
def readNacksFrom (headerLength : Nat) (byte : Nat) : List Nat → Except RlcError (List Nat × Nat)
  | nextByte :: rest =>
    if (nextByte &&& 0x04) >>> 2 = 1 then
      match rest with
      | middleByte :: finalByte :: rest =>
        if (finalByte &&& 0x40) >>> 6 = 1 then
          (readNacksFrom ((headerLength + 3) % 2 ^ 16) finalByte rest).map fun r =>
            (((byte &&& 0x1F) <<< 5 ||| (nextByte &&& 0xF8) >>> 3) ::
              (((nextByte &&& 0x01) <<< 9 ||| middleByte <<< 1) ||| (finalByte &&& 0x80) >>> 7) ::
              r.1, r.2)
        else
          .ok ([(byte &&& 0x1F) <<< 5 ||| (nextByte &&& 0xF8) >>> 3,
            ((nextByte &&& 0x01) <<< 9 ||| middleByte <<< 1) ||| (finalByte &&& 0x80) >>> 7],
            (headerLength + 3) % 2 ^ 16)
      | _ => .error .assertion
    else .ok ([(byte &&& 0x1F) <<< 5 ||| (nextByte &&& 0xF8) >>> 3], (headerLength + 1) % 2 ^ 16)
  | [] => .error .assertion

/-- `Deserialize` of a control PDU, into a new header; there is none for a data PDU (`readAm`). -/
def deserialize : List Nat → Except RlcError (Option NrRlcAmControlHeader)
  | byte1 :: rest =>
    if (byte1 &&& 0x80) >>> 7 = 1 then .ok none
    else
      match rest with
      | byte2 :: rest =>
        let n : NrRlcAmControlHeader :=
          { ackSn := ((byte1 &&& 0x0F) <<< 6 ||| (byte2 &&& 0xFC) >>> 2) % 1024
            nackSnList := []
            controlPduType := (byte1 &&& 0x70) >>> 4
            headerLength := 1 }
        if (byte2 &&& 0x02) >>> 1 = 1 then
          match rest with
          | byte3 :: byte4 :: rest =>
            let nack := ((byte2 &&& 0x01) <<< 9 ||| byte3 <<< 1) ||| (byte4 &&& 0x80) >>> 7
            if (byte4 &&& 0x40) >>> 6 = 1 then
              (readNacksFrom 4 byte4 rest).map fun r =>
                some { n with nackSnList := nack :: r.1, headerLength := r.2 }
            else .ok (some { n with nackSnList := [nack], headerLength := 4 })
          | _ => .error .assertion
        else .ok (some { n with headerLength := n.headerLength + 1 })
      | [] => .error .assertion
  | [] => .error .assertion

/-! ## Lengths -/

theorem foldl_pushNack {n : NrRlcAmControlHeader}
    (hn : n.headerLength = statusHeaderLength n.nackSnList.length % 2 ^ 16) :
    nacks.foldl pushNack n =
      { n with
        nackSnList := n.nackSnList ++ nacks
        headerLength := statusHeaderLength (n.nackSnList ++ nacks).length % 2 ^ 16 } := by
  induction nacks generalizing n with
  | nil =>
    rw [append_nil, ← hn]
    rfl
  | cons nack nacks ih =>
    have hpush : (n.pushNack nack).headerLength =
        statusHeaderLength (n.nackSnList ++ [nack]).length % 2 ^ 16 := by
      simp only [pushNack, hn, length_append, length_singleton, statusHeaderLength_eq]
      split <;> omega
    rw [foldl_cons, ih hpush, pushNack]
    simp only [append_assoc, singleton_append]

theorem build_eq (ackSn : Nat) (nacks : List Nat) : build ackSn nacks =
    { ackSn
      nackSnList := nacks
      controlPduType := 0
      headerLength := statusHeaderLength nacks.length % 2 ^ 16 } := by
  rw [build, foldl_pushNack rfl]
  rfl

theorem readNacks_length : ∀ {byte : Nat} {l : List Nat} {r : List Nat × List Nat},
    readNacks byte l = .ok r → r.2.length + 1 ≤ l.length
  | _, [], _, hl => by cases hl
  | byte, nextByte :: rest, r, hl => by
    rw [readNacks.eq_def] at hl
    dsimp only at hl
    by_cases hmore : (nextByte &&& 0x04) >>> 2 = 1
    · rw [if_pos hmore] at hl
      rcases rest with _ | ⟨middleByte, _ | ⟨finalByte, rest⟩⟩
      · cases hl
      · cases hl
      dsimp only at hl
      by_cases hgo : (finalByte &&& 0x40) >>> 6 = 1
      · rw [if_pos hgo] at hl
        cases hr : readNacks finalByte rest with
        | error e =>
          rw [hr] at hl
          cases hl
        | ok r' =>
          rw [hr] at hl
          cases hl
          have hlen := readNacks_length hr
          simp only [length_cons]
          omega
      · rw [if_neg hgo] at hl
        cases hl
        simp
    · rw [if_neg hmore] at hl
      cases hl
      simp

theorem readNacksFrom_eq : ∀ {k byte : Nat} (l : List Nat), readNacksFrom k byte l =
    (readNacks byte l).map fun r => (r.1, (k + (l.length - r.2.length)) % 2 ^ 16)
  | _, _, [] => rfl
  | k, byte, nextByte :: rest => by
    rw [readNacksFrom.eq_def, readNacks.eq_def]
    dsimp only
    by_cases hmore : (nextByte &&& 0x04) >>> 2 = 1
    · rw [if_pos hmore, if_pos hmore]
      rcases rest with _ | ⟨middleByte, _ | ⟨finalByte, rest⟩⟩
      · rfl
      · rfl
      dsimp only
      by_cases hgo : (finalByte &&& 0x40) >>> 6 = 1
      · rw [if_pos hgo, if_pos hgo, readNacksFrom_eq rest]
        cases hr : readNacks finalByte rest with
        | error e => rfl
        | ok r =>
          have hlen := readNacks_length hr
          have hthree : (nextByte :: middleByte :: finalByte :: rest).length - r.2.length =
              3 + (rest.length - r.2.length) := by
            simp only [length_cons]
            omega
          simp only [Except.map, hthree, Nat.mod_add_mod, Nat.add_assoc]
      · have hthree : (nextByte :: middleByte :: finalByte :: rest).length - rest.length = 3 := by
          simp only [length_cons]
          omega
        rw [if_neg hgo, if_neg hgo]
        simp only [Except.map, hthree]
    · have hone : (nextByte :: rest).length - rest.length = 1 := by
        simp only [length_cons]
        omega
      rw [if_neg hmore, if_neg hmore]
      simp only [Except.map, hone]

/-- `Deserialize` finds what `readAm` finds, and counts the bytes before the rest. -/
theorem deserialize_eq {start rest : List Nat} {type : Nat} {st : StatusPdu}
    (hread : readAm start = .ok (.control type st, rest)) :
    deserialize start = .ok (some ⟨st, type, (start.length - rest.length) % 2 ^ 16⟩) := by
  rcases start with _ | ⟨byte1, _ | ⟨byte2, start⟩⟩
  · cases hread
  · cases hread
  rw [readAm.eq_def] at hread
  rw [deserialize.eq_def]
  dsimp only at hread ⊢
  by_cases hdata : (byte1 &&& 0x80) >>> 7 = 1
  · rw [if_pos hdata] at hread
    rcases start with _ | ⟨byte3, _ | ⟨byte4, start⟩⟩
    · cases hread
    · cases hread
    dsimp only at hread
    cases htail : readTail ((byte1 &&& 0x04) >>> 2 = 1) start with
    | error e =>
      rw [htail] at hread
      cases hread
    | ok r =>
      rw [htail] at hread
      cases hread
  rw [if_neg hdata] at hread ⊢
  rw [readNackList.eq_def] at hread
  by_cases hmore : (byte2 &&& 0x02) >>> 1 = 1
  · rw [if_pos hmore] at hread ⊢
    rcases start with _ | ⟨byte3, _ | ⟨byte4, start⟩⟩
    · cases hread
    · cases hread
    dsimp only at hread ⊢
    by_cases hgo : (byte4 &&& 0x40) >>> 6 = 1
    · rw [if_pos hgo] at hread ⊢
      rw [readNacksFrom_eq]
      cases hr : readNacks byte4 start with
      | error e =>
        rw [hr] at hread
        cases hread
      | ok r =>
        rw [hr] at hread
        cases hread
        have hlen := readNacks_length hr
        have hfour : (byte1 :: byte2 :: byte3 :: byte4 :: start).length - r.2.length =
            4 + (start.length - r.2.length) := by
          simp only [length_cons]
          omega
        simp only [Except.map, hfour]
    · rw [if_neg hgo] at hread ⊢
      cases hread
      have hfour : (byte1 :: byte2 :: byte3 :: byte4 :: start).length - start.length = 4 := by
        simp only [length_cons]
        omega
      rw [hfour]
      rfl
  · rw [if_neg hmore] at hread ⊢
    cases hread
    have htwo : (byte1 :: byte2 :: start).length - start.length = 2 := by
      simp only [length_cons]
      omega
    rw [htwo]
    rfl

end NrRlcAmControlHeader

open NrRlcAmControlHeader (build deserialize)

/-- A STATUS PDU is written in as many bytes as its length says, and is read again with its length,
if and only if the length fits in 16 bits. -/
theorem statusPdu_iff (hack : ackSn < 1024) (hnacks : ∀ nack ∈ nacks, nack < 1024) :
    ((statusBytes (build ackSn nacks).toStatusPdu).length = (build ackSn nacks).headerLength ∧
      deserialize (statusBytes (build ackSn nacks).toStatusPdu) = .ok (some (build ackSn nacks))) ↔
      2 + (3 * nacks.length + 1) / 2 < 2 ^ 16 := by
  rw [NrRlcAmControlHeader.build_eq]
  have hread := NrRlcAmControlHeader.deserialize_eq
    (readAm_statusBytes (show StatusPdu.Ok ⟨ackSn, nacks⟩ from ⟨hack, hnacks⟩))
  rw [length_nil, Nat.sub_zero, length_statusBytes] at hread
  rw [hread, length_statusBytes, ← statusHeaderLength_eq]
  constructor
  · rintro ⟨hlen, -⟩
    have hmod := Nat.mod_lt (statusHeaderLength nacks.length) (show 0 < 2 ^ 16 by decide)
    exact hlen ▸ hmod
  · intro hlt
    exact ⟨(Nat.mod_eq_of_lt hlt).symm, rfl⟩

/-- Three NACKs. -/
theorem statusPdu_iff_example : deserialize (statusBytes (build 1023 [1, 512, 1023]).toStatusPdu) =
    .ok (some (build 1023 [1, 512, 1023])) :=
  ((statusPdu_iff (by decide) (by decide)).2 (by decide)).2

/-- With 43689 NACKs the length is 0. -/
theorem statusPdu_fails : ¬ ∀ ackSn nacks, ackSn < 1024 → (∀ nack ∈ nacks, nack < 1024) →
    (statusBytes (build ackSn nacks).toStatusPdu).length = (build ackSn nacks).headerLength := by
  intro hall
  obtain ⟨nacks, hmany, hnacks⟩ : ∃ nacks : List Nat, nacks.length = 43689 ∧ ∀ nack ∈ nacks,
    nack < 1024 :=
    ⟨replicate 43689 0, length_replicate, fun nack hnack => by
      rw [eq_of_mem_replicate hnack]
      decide⟩
  have hlen := hall 0 nacks (by decide) hnacks
  rw [NrRlcAmControlHeader.build_eq, length_statusBytes] at hlen
  dsimp only at hlen
  rw [hmany, statusHeaderLength_eq] at hlen
  revert hlen
  decide

end OranNs3.Rlc
