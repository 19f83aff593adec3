import OranNs3.Rlc.Header

/-!
# The stream of PDUs of a transmitting entity

The PDUs that an entity has built, numbered without wrapping: `P j` leads from the position `pos j`
in the sequence of accepted SDUs to `pos (j + 1)`, and what is left from `pos s` on waits in the
buffer (`Stream`). An SDU that is accepted (`Stream.submit`) and a PDU that is built
(`Stream.build`) keep it, for entities of both modes. The header of such a PDU can be written
(`header_pduOf_ok`).
-/

namespace OranNs3.Rlc

open Function List

variable {α : Type} {sdus : List (List α)} {p p' : Pos α}

theorem Buffered.push {l : List (Segment α)} {s : List α} (h : Buffered sdus p l) (hs : s ≠ []) :
    Buffered (sdus ++ [s]) p (l ++ [⟨s, .fullSdu⟩]) := by
  cases h with
  | nil =>
    have h : Buffered (sdus ++ [s]) _ _ := Buffered.cons (a := sdus.length) (q := []) hs (by simp)
    simpa using h
  | @cons a q d hd hget =>
    have hlt := (List.getElem?_eq_some_iff.1 hget).1
    have h : Buffered (sdus ++ [s]) _ _ := Buffered.cons (a := a) (q := q) hd (by
      rw [getElem?_append_left hlt]
      exact hget)
    rw [drop_append_of_le_length hlt, map_append] at h
    exact h

theorem Buffered.le {l : List (Segment α)} (h : Buffered sdus p l) : p.sdus ≤ sdus.length := by
  cases h with
  | nil => exact le_rfl
  | cons _ hget => exact (List.getElem?_eq_some_iff.1 hget).1.le

theorem Field.framingInfo {segs : List (Segment α)} {last : Bool} (h : Field sdus p segs last p') :
    framingInfoOf segs = .ok ⟨p.part.isEmpty, last⟩ := by
  have hfirst := h.first
  have hlast := h.last
  rw [framingInfoOf]
  cases hhead : segs.head? with
  | none =>
    rw [hhead] at hfirst
    cases hfirst
  | some f =>
    cases hback : segs.getLast? with
    | none =>
      rw [hback] at hlast
      cases hlast
    | some g =>
      rw [hhead] at hfirst
      rw [hback] at hlast
      rw [← Option.some.inj hfirst, ← Option.some.inj hlast]

theorem Field.isPdu {b : Build α} {last : Bool} (h : Field sdus p b.dataField last p')
    (hext : b.extensionBits = replicate (b.dataField.length - 1) true ++ [false])
    (hli : b.lengthIndicators = b.dataField.dropLast.map (·.size)) (v : Nat) :
    IsPdu sdus p (pduOf v b ⟨p.part.isEmpty, last⟩) p' := by
  refine ⟨⟨b.dataField.map (·.bytes), h.carries, ?_, ?_, ?_⟩, List.isEmpty_iff⟩
  · simp only [pduOf, dataBytes, flatMap_def]
  · simp only [pduOf, hext, length_map]
  · simp only [pduOf, hli, ← map_dropLast, map_map]
    rfl

theorem header_pduOf_ok {b : Build α} {fi : FramingInfo} {v : Nat} (hv : v < 1024)
    (hext : b.extensionBits = replicate (b.dataField.length - 1) true ++ [false])
    (hli : b.lengthIndicators = b.dataField.dropLast.map (·.size))
    (hle : ∀ seg ∈ b.dataField.dropLast, seg.size ≤ 2047) : (pduOf v b fi).header.Ok where
  framingInfo := fi.bits_lt
  sequenceNumber := hv
  extensionBits := by
    simp only [DataPdu.header, pduOf, hext, hli, extensionBitsOf, length_map, length_dropLast]
  lengthIndicators := by
    intro li hmem
    simp only [DataPdu.header, pduOf, hli, mem_map] at hmem
    obtain ⟨seg, hseg, rfl⟩ := hmem
    exact Nat.lt_succ_of_le (hle seg hseg)

/-- The loop on a buffer that holds what is left from a position on builds a PDU that leads to
another position, whose header can be written. -/
theorem Buffered.build {first : TxPdu α} {buffer : List (TxPdu α)} {bytes v : Nat} (size : Nat)
    (h : Buffered sdus p ((first :: buffer).map (·.pdu))) (hne : [] ∉ sdus) (hpos : 0 < bytes)
    (hv : v < 1024) :
    ∃ fi p', framingInfoOf (buildDataField bytes first buffer size).dataField = .ok fi ∧
      IsPdu sdus p (pduOf v (buildDataField bytes first buffer size) fi) p' ∧
      (pduOf v (buildDataField bytes first buffer size) fi).header.Ok ∧
      Buffered sdus p' ((buildDataField bytes first buffer size).txBuffer.map (·.pdu)) := by
  obtain ⟨last, p', hfield, hext, hli, hle, hbuf⟩ := buildDataField_spec size hne hpos h
  exact ⟨_, p', hfield.framingInfo, hfield.isPdu hext hli v, header_pduOf_ok hv hext hli hle, hbuf⟩

theorem DataPdu.pdu_header (pdu : DataPdu α) : pdu.header.pdu pdu.data = pdu := by
  rw [DataHeader.pdu, DataPdu.header, FramingInfo.ofBits_bits]

section stream
variable {txBuffer : List (Segment α)} {pos : Nat → Pos α} {P : Nat → DataPdu α} {s : Nat}

/-- The PDUs built so far, and what waits. -/
structure Stream (sdus : List (List α)) (txBuffer : List (Segment α)) (pos : Nat → Pos α)
    (P : Nat → DataPdu α) (s : Nat) : Prop where
  nonempty : [] ∉ sdus
  start : pos 0 = ⟨0, []⟩
  pdu : ∀ j, j < s → IsPdu sdus (pos j) (P j) (pos (j + 1))
  number : ∀ j, j < s → (P j).sequenceNumber = j % 1024
  header : ∀ j, j < s → (P j).header.Ok
  buffered : Buffered sdus (pos s) txBuffer

theorem Stream.mono (h : Stream sdus txBuffer pos P s) : ∀ {i j : Nat}, i ≤ j → j ≤ s →
    (pos i).sdus ≤ (pos j).sdus
  | i, 0, hij, _ => by
    obtain rfl := Nat.le_zero.1 hij
    exact le_rfl
  | i, j + 1, hij, hj => by
    rcases Nat.lt_or_eq_of_le hij with hlt | rfl
    · obtain ⟨cs, hcs, -⟩ := (h.pdu j hj).carries
      exact (h.mono (Nat.le_of_lt_succ hlt) (Nat.le_of_succ_le hj)).trans hcs.reached.le
    · exact le_rfl

theorem Stream.le (h : Stream sdus txBuffer pos P s) {j : Nat} (hj : j ≤ s) :
    (pos j).sdus ≤ sdus.length := (h.mono hj le_rfl).trans h.buffered.le

theorem Stream.submit (h : Stream sdus txBuffer pos P s) {sdu : List α} (hsdu : sdu ≠ []) :
    Stream (sdus ++ [sdu]) (txBuffer ++ [⟨sdu, .fullSdu⟩]) pos P s where
  nonempty := by
    rw [mem_append, mem_singleton]
    exact fun hmem => hmem.elim h.nonempty fun heq => hsdu heq.symm
  start := h.start
  pdu j hj := (h.pdu j hj).mono (prefix_append sdus [sdu])
  number := h.number
  header := h.header
  buffered := h.buffered.push hsdu

theorem Stream.build {first : TxPdu α} {buffer : List (TxPdu α)} {bytes v : Nat}
    (h : Stream sdus ((first :: buffer).map (·.pdu)) pos P s) (size : Nat) (hpos : 0 < bytes)
    (hv : v = s % 1024) :
    ∃ fi, framingInfoOf (buildDataField bytes first buffer size).dataField = .ok fi ∧
      ∃ pos', Stream sdus ((buildDataField bytes first buffer size).txBuffer.map (·.pdu)) pos'
        (Function.update P s (pduOf v (buildDataField bytes first buffer size) fi)) (s + 1) ∧
        ∀ j, j ≤ s → pos' j = pos j := by
  obtain ⟨fi, p', hfi, hpdu, hheader, hbuf⟩ := h.buffered.build size h.nonempty hpos
    (v := v) (by omega)
  refine ⟨fi, hfi, Function.update pos (s + 1) p', ?_, fun j hj => update_of_ne (by omega) _ _⟩
  have hkeep : ∀ {j}, j ≤ s → Function.update pos (s + 1) p' j = pos j := fun hj =>
    update_of_ne (by omega) _ _
  have hnew : ∀ {j}, j < s →
    Function.update P s (pduOf v (buildDataField bytes first buffer size) fi) j = P j :=
    fun hj => update_of_ne (by omega) _ _
  refine ⟨h.nonempty, ?_, fun j hj => ?_, fun j hj => ?_, fun j hj => ?_, ?_⟩
  · rw [hkeep (Nat.zero_le s)]
    exact h.start
  · rcases Nat.lt_succ_iff_lt_or_eq.1 hj with hlt | rfl
    · rw [hkeep hlt.le, hkeep hlt, hnew hlt]
      exact h.pdu j hlt
    · rw [hkeep le_rfl, update_self, update_self]
      exact hpdu
  · rcases Nat.lt_succ_iff_lt_or_eq.1 hj with hlt | rfl
    · rw [hnew hlt]
      exact h.number j hlt
    · rw [update_self]
      exact hv
  · rcases Nat.lt_succ_iff_lt_or_eq.1 hj with hlt | rfl
    · rw [hnew hlt]
      exact h.header j hlt
    · rw [update_self]
      exact hheader
  · rw [update_self]
    exact hbuf

end stream

/-! ## The stream as it goes on -/

section extension
variable {pos : Nat → Pos α} {P : Nat → DataPdu α} {s : Nat}

/-- More SDUs, and more PDUs. -/
structure Extends (sdus : List (List α)) (pos : Nat → Pos α) (P : Nat → DataPdu α) (s : Nat)
    (sdus' : List (List α)) (pos' : Nat → Pos α) (P' : Nat → DataPdu α) (s' : Nat) : Prop where
  sdus : sdus <+: sdus'
  le : s ≤ s'
  pos : ∀ j, j ≤ s → pos' j = pos j
  pdu : ∀ j, j < s → P' j = P j

theorem Extends.refl : Extends sdus pos P s sdus pos P s :=
  ⟨prefix_refl sdus, le_rfl, fun _ _ => rfl, fun _ _ => rfl⟩

end extension

end OranNs3.Rlc
