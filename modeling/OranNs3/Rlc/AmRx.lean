import OranNs3.Rlc.Am

/-!
# The receiving side of an AM entity

The state variables of the receiving window in numbers without wrapping (`RxAt`): `VR(R)` is the
first sequence number that has not been received, `VR(MS)` and `VR(H)` lie between it and `VR(R) +
512`, the reception buffer is between `VR(R)` and `VR(H)`, and a reordering timer that runs waits
for a number between them. What a data PDU does is said once for any property of the reassembly
(`spec_receiveDataPdu`). A STATUS PDU reports as missing exactly what has not been received of the
numbers that it acknowledges (`spec_buildStatusPdu`).
-/

namespace OranNs3.Rlc

open Fallible

variable {α : Type} {rx : AmRx α} {r ms h x : Nat}

/-- The receiving side at `VR(R) = r`, `VR(MS) = ms`, `VR(H) = h` and `VR(X) = x`. -/
structure RxAt (rx : AmRx α) (r ms h x : Nat) : Prop where
  vrR : rx.vrR.Rep r r
  vrMr : rx.vrMr.Rep r (r + amWindowSize)
  vrMs : rx.vrMs.Rep r ms
  vrH : rx.vrH.Rep r h
  vrX : rx.vrX.Rep r x
  le_ms : r ≤ ms
  ms_le : ms ≤ h
  h_le : h ≤ r + amWindowSize
  buffer : ∀ v, rx.rxonBuffer v ≠ none → ∃ k, r < k ∧ k < h ∧ v = k % 1024
  missing : rx.rxonBuffer (ms % 1024) = none
  timer : rx.reorderingTimer = true → r < x ∧ x ≤ h
  size : rx.statusPduBufferSize ≤ 4

/-! ## The steps of the window -/

section window

/-- The search for the first number that has not been received: it ends before one that is known to
be missing. -/
theorem firstMissing_eq {b m₀ j : Nat} : ∀ (fuel : Nat) {m : Nat} {n : SequenceNumber10},
    n.Rep b m → m₀ ≤ m → m ≤ j → j < m₀ + 1024 → rx.rxonBuffer (j % 1024) = none → j < m + fuel →
    ∃ n' m', firstMissing rx (m₀ % 1024) fuel n = .ok n' ∧ n'.Rep b m' ∧ m ≤ m' ∧ m' ≤ j ∧
      rx.rxonBuffer (m' % 1024) = none ∧ ∀ i, m ≤ i → i < m' → rx.rxonBuffer (i % 1024) ≠ none
  | 0, _, _, _, _, hj, _, _, hfuel => by omega
  | fuel + 1, m, n, hn, hm₀, hj, hlt, hnone, hfuel => by
    rw [firstMissing, AmRx.has, hn.value]
    cases hbuf : rx.rxonBuffer (m % 1024) with
    | none =>
      exact ⟨n, m, rfl, hn, le_rfl, hj, hbuf, fun i h1 h2 => absurd h2 (not_lt.2 h1)⟩
    | some pdu =>
      have hne : m ≠ j := by
        rintro rfl
        rw [hnone] at hbuf
        cases hbuf
      have hfirst : ¬ n.incr.value = m₀ % 1024 := by
        rw [hn.incr.value]
        omega
      rw [Option.isSome_some, if_pos rfl, if_neg hfirst]
      obtain ⟨n', m', h1, h2, h3, h4, h5, h6⟩ :=
        firstMissing_eq fuel hn.incr (by omega) (by omega) hlt hnone (by omega)
      refine ⟨n', m', h1, h2, by omega, h4, h5, fun i hi hi' => ?_⟩
      rcases eq_or_lt_of_le hi with rfl | hlt'
      · rw [hbuf]
        exact Option.some_ne_none _
      · exact h6 i hlt' hi'

theorem isInsideReceivingWindow_eq {n : SequenceNumber10} {k b : Nat} (hR : rx.vrR.Rep r r)
    (hMr : rx.vrMr.Rep r (r + amWindowSize)) (hn : n.Rep b k) (hk : r ≤ k) (hlt : k < r + 1024) :
    isInsideReceivingWindow rx n = .ok (decide (k < r + amWindowSize)) := by
  have hn' := hn.setModulusBase hR
  rw [isInsideReceivingWindow, hR.le hn' le_rfl (by omega) hk hlt]
  have hle : decide (r ≤ k) = true := decide_eq_true hk
  show (if decide (r ≤ k) = true then _ else _) = _
  rw [if_pos hle]
  exact hn'.lt hMr hk hlt (by omega) (by simp [amWindowSize])

theorem RxAt.windowBases (hrx : RxAt rx r ms h x) : RxAt rx.windowBases r ms h x :=
  { hrx with
    vrR := hrx.vrR.setModulusBase hrx.vrR
    vrMr := hrx.vrMr.setModulusBase hrx.vrR }

theorem RxAt.requestStatus (hrx : RxAt rx r ms h x) (pdu : AmPdu α) :
    RxAt (requestStatus rx pdu) r ms h x := by
  rw [Rlc.requestStatus]
  split
  · exact { hrx with size := le_rfl }
  · exact hrx

end window

/-! ## A data PDU -/

section receive
variable {r₀ k : Nat} {pdu : AmPdu α} {n : SequenceNumber10}

/-- The receiving side while PDUs are delivered: `VR(R)` was `r₀` and has come to `r`. -/
structure Loaded (rx : AmRx α) (r₀ r ms h x : Nat) : Prop where
  vrR : rx.vrR.Rep r r
  vrMs : rx.vrMs.Rep r ms
  vrH : rx.vrH.Rep r h
  vrX : rx.vrX.Rep r x
  le : r₀ ≤ r
  le_ms : r ≤ ms
  ms_le : ms ≤ h
  h_le : h ≤ r₀ + amWindowSize
  buffer : ∀ v, rx.rxonBuffer v ≠ none → ∃ k, r ≤ k ∧ k < h ∧ v = k % 1024
  missing : rx.rxonBuffer (ms % 1024) = none
  timer : rx.reorderingTimer = true → r₀ < x ∧ x ≤ h
  size : rx.statusPduBufferSize ≤ 4

theorem none_of_buffer {B : Nat → Option (AmPdu α)}
    (hbuf : ∀ v, B v ≠ none → ∃ k, r ≤ k ∧ k < h ∧ v = k % 1024) (hle : h ≤ r + amWindowSize)
    {j : Nat} (hj : h ≤ j) (hlt : j < r + 1024) : B (j % 1024) = none := by
  by_contra hne
  obtain ⟨k, h1, h2, h3⟩ := hbuf _ hne
  rw [amWindowSize] at hle
  omega

/-- The reception buffer with a PDU of the window. -/
def placed (rx : AmRx α) (pdu : AmPdu α) (k v : Nat) : Option (AmPdu α) :=
  if v = k % 1024 then (rx.rxonBuffer v).or (some pdu) else rx.rxonBuffer v

theorem updateVrH_eq (rx : AmRx α) (hH : rx.vrH.Rep r h) (hrh : r ≤ h) (hle : h ≤ r + amWindowSize)
    (hn : n.Rep r k) (hk : r ≤ k) (hlt : k < r + amWindowSize) :
    ∃ n' h', updateVrH rx n = .ok { rx with vrH := n' } ∧ n'.Rep r h' ∧ k < h' ∧ h ≤ h' ∧
      h' ≤ r + amWindowSize ∧ (h' = h ∨ h' = k + 1) := by
  have hw : amWindowSize = 512 := rfl
  have hge : n.ge rx.vrH = .ok (decide (h ≤ k)) :=
    hn.ge hH hk (by omega) hrh (by omega)
  rw [updateVrH, hge]
  by_cases hhk : h ≤ k
  · refine ⟨n.add 1, k + 1, ?_, hn.add, Nat.lt_succ_self k, by omega, hlt, .inr rfl⟩
    simp [hhk, Except.map]
  · refine ⟨rx.vrH, h, ?_, hH, Nat.lt_of_not_le hhk, le_rfl, hle, .inl rfl⟩
    simp [hhk, Except.map]

theorem updateVrMs_eq (rx : AmRx α) {m j : Nat} (hn : n.Rep r m) (hj : m ≤ j) (hlt : j < m + 1024)
    (hnone : rx.rxonBuffer (j % 1024) = none) :
    ∃ n' m', updateVrMs rx n = .ok { rx with vrMs := n' } ∧ n'.Rep r m' ∧ m ≤ m' ∧ m' ≤ j ∧
      rx.rxonBuffer (m' % 1024) = none := by
  obtain ⟨n', m', h1, h2, h3, h4, h5, -⟩ :=
    firstMissing_eq amLoopFuel hn le_rfl hj hlt hnone (by rw [amLoopFuel]; omega)
  refine ⟨n', m', ?_, h2, h3, h4, h5⟩
  rw [updateVrMs, hn.value, h1]
  rfl

/-- The updates of `VR(H)` and `VR(MS)` for a PDU of the window. -/
theorem RxAt.load (pdu : AmPdu α) (hrx : RxAt rx r ms h x) (hn : n.Rep r k) (hk : r ≤ k)
    (hlt : k < r + amWindowSize) :
    ∃ rx', (updateVrH (placePdu rx pdu n) n >>= fun rx => updateVrMs rx rx.vrMs) = .ok rx' ∧
      rx'.rxonBuffer = placed rx pdu k ∧ rx'.vrMr = rx.vrMr ∧ rx'.reassembler = rx.reassembler ∧
      ∃ ms' h', Loaded rx' r r ms' h' x ∧ (h' = h ∨ h' = k + 1) := by
  have hw : amWindowSize = 512 := rfl
  have hms := hrx.le_ms
  have hmsh := hrx.ms_le
  have hbuf : (placePdu rx pdu n).rxonBuffer = placed rx pdu k := by
    funext v
    simp only [placePdu, placed, hn.value]
  obtain ⟨nH, h', hH, hHrep, hkh, hhh, hle, htop⟩ := updateVrH_eq (placePdu rx pdu n) hrx.vrH
    (hms.trans hmsh) hrx.h_le hn hk hlt
  have hplaced : ∀ v, placed rx pdu k v ≠ none → ∃ j, r ≤ j ∧ j < h' ∧ v = j % 1024 := by
    intro v hv
    rw [placed] at hv
    split at hv
    · next heq => exact ⟨k, hk, hkh, heq⟩
    · obtain ⟨j, h1, h2, h3⟩ := hrx.buffer v hv
      exact ⟨j, h1.le, h2.trans_le hhh, h3⟩
  obtain ⟨nMs, ms', hMs, hMsrep, hmsms, hmsh', hnone⟩ :=
    updateVrMs_eq { placePdu rx pdu n with vrH := nH } (j := h') hrx.vrMs (hmsh.trans hhh)
      (by omega) (by
        show (placePdu rx pdu n).rxonBuffer (h' % 1024) = none
        rw [hbuf]
        exact none_of_buffer hplaced hle le_rfl (by omega))
  refine ⟨{ placePdu rx pdu n with vrH := nH, vrMs := nMs }, ?_, hbuf, rfl, rfl, ms', h', ?_, htop⟩
  · rw [hH]
    exact hMs
  · exact
      { vrR := hrx.vrR
        vrMs := hMsrep
        vrH := hHrep
        vrX := hrx.vrX
        le := le_rfl
        le_ms := hms.trans hmsms
        ms_le := hmsh'
        h_le := hle
        buffer := fun v hv => hplaced v (by rwa [← hbuf])
        missing := hnone
        timer := fun ht => ⟨(hrx.timer ht).1, (hrx.timer ht).2.trans hhh⟩
        size := hrx.size }

theorem Loaded.pop (hrx : Loaded rx r₀ r ms h x) (hpdu : rx.rxonBuffer (r % 1024) = some pdu)
    (rs : Reassembler α) : r < ms ∧ Loaded (popVrR rx rs) r₀ (r + 1) ms h x := by
  have hne : r ≠ ms := by
    rintro rfl
    rw [hrx.missing] at hpdu
    cases hpdu
  have hlt : r < ms := lt_of_le_of_ne hrx.le_ms hne
  have hR : rx.vrR.incr.Rep r (r + 1) := hrx.vrR.incr
  refine ⟨hlt, ?_⟩
  exact
    { vrR := hR.setModulusBase hR
      vrMs := hrx.vrMs.setModulusBase hR
      vrH := hrx.vrH.setModulusBase hR
      vrX := hrx.vrX.setModulusBase hR
      le := hrx.le.trans (Nat.le_succ r)
      le_ms := hlt
      ms_le := hrx.ms_le
      h_le := hrx.h_le
      buffer := fun v hv => by
        simp only [popVrR, hrx.vrR.value] at hv
        split at hv
        · exact absurd rfl hv
        · next hvr =>
          obtain ⟨k, h1, h2, h3⟩ := hrx.buffer v hv
          refine ⟨k, lt_of_le_of_ne h1 ?_, h2, h3⟩
          rintro rfl
          exact hvr h3
      missing := by
        simp only [popVrR]
        split
        · rfl
        · exact hrx.missing
      timer := hrx.timer
      size := hrx.size }

variable {Q : Nat → Reassembler α → Prop} {E : RlcError → Prop}

/-- The loop that delivers, for any property of the reassembly that every PDU in sequence keeps. -/
theorem spec_deliverLoop :
    ∀ (fuel : Nat) {r : Nat} {rx : AmRx α}, Loaded rx r₀ r ms h x →
      (∀ j p rs, r ≤ j → j < h → rx.rxonBuffer (j % 1024) = some p → Q j rs →
        Spec E (Q (j + 1)) (reassembleAndDeliver true rs p.toDataPdu)) →
      Q r rx.reassembler → ms < r + fuel →
      Spec E (fun rx' => ∃ r', Loaded rx' r₀ r' ms h x ∧ r ≤ r' ∧ Q r' rx'.reassembler ∧
          rx'.rxonBuffer (r' % 1024) = none ∧
          (∀ j, r ≤ j → j < r' → rx.rxonBuffer (j % 1024) ≠ none) ∧
          ∀ j, r' ≤ j → j < r + 1024 → rx'.rxonBuffer (j % 1024) = rx.rxonBuffer (j % 1024))
        (deliverLoop (r₀ % 1024) fuel rx)
  | 0, r, rx, hrx, _, _, hfuel => absurd (hrx.le_ms.trans_lt hfuel) (Nat.lt_irrefl r)
  | fuel + 1, r, rx, hrx, hQ, hr, hfuel => by
    have hw : amWindowSize = 512 := rfl
    rw [deliverLoop, hrx.vrR.value]
    cases hpdu : rx.rxonBuffer (r % 1024) with
    | none =>
      exact ⟨r, hrx, le_rfl, hr, hpdu, fun j h1 h2 => absurd h2 (not_lt.2 h1), fun _ _ _ => rfl⟩
    | some p =>
      have hms := hrx.ms_le
      have hh := hrx.h_le
      have hr₀ := hrx.le
      refine (hQ r p _ le_rfl ?_ hpdu hr).bind fun rs hrs => ?_
      · exact (hrx.pop hpdu rx.reassembler).1.trans_le hms
      obtain ⟨hlt, hpop⟩ := hrx.pop hpdu rs
      have hfirst : ¬ rx.vrR.incr.value = r₀ % 1024 := by
        rw [hrx.vrR.incr.value]
        omega
      rw [if_neg hfirst]
      have hkeep : ∀ j, r < j → j < r + 1024 →
          (popVrR rx rs).rxonBuffer (j % 1024) = rx.rxonBuffer (j % 1024) := by
        intro j h1 h2
        simp only [popVrR, hrx.vrR.value]
        rw [if_neg (by omega)]
      refine (spec_deliverLoop fuel hpop (fun j p' rs' h1 h2 h3 h4 => ?_) hrs (by omega)).imp
        fun rx' hrx' => ?_
      · refine hQ j p' rs' (by omega) h2 ?_ h4
        rw [← hkeep j (by omega) (by omega)]
        exact h3
      · obtain ⟨r', h1, h2, h3, h4, h5, h6⟩ := hrx'
        refine ⟨r', h1, by omega, h3, h4, fun j hj hj' => ?_, fun j hj hj' => ?_⟩
        · rcases eq_or_lt_of_le hj with rfl | hlt'
          · rw [hpdu]
            exact Option.some_ne_none _
          · rw [← hkeep j hlt' (by have := h1.le_ms; omega)]
            exact h5 j hlt' hj'
        · rw [h6 j hj (by omega), hkeep j (by omega) hj']

theorem Loaded.setVrMr (hrx : Loaded rx r₀ r ms h x) (n : SequenceNumber10) :
    Loaded { rx with vrMr := n } r₀ r ms h x :=
  ⟨hrx.vrR, hrx.vrMs, hrx.vrH, hrx.vrX, hrx.le, hrx.le_ms, hrx.ms_le, hrx.h_le, hrx.buffer,
    hrx.missing, hrx.timer, hrx.size⟩

theorem Loaded.rxAt (hrx : Loaded rx r₀ r ms h x) (hMr : rx.vrMr.Rep r (r + amWindowSize))
    (hnone : rx.rxonBuffer (r % 1024) = none) (htimer : rx.reorderingTimer = true → r < x) :
    RxAt rx r ms h x :=
  { vrR := hrx.vrR
    vrMr := hMr
    vrMs := hrx.vrMs
    vrH := hrx.vrH
    vrX := hrx.vrX
    le_ms := hrx.le_ms
    ms_le := hrx.ms_le
    h_le := hrx.h_le.trans (Nat.add_le_add_right hrx.le _)
    buffer := fun v hv => by
      obtain ⟨k, h1, h2, h3⟩ := hrx.buffer v hv
      refine ⟨k, lt_of_le_of_ne h1 ?_, h2, h3⟩
      rintro rfl
      rw [h3] at hv
      exact hv hnone
    missing := hrx.missing
    timer := fun ht => ⟨htimer ht, (hrx.timer ht).2⟩
    size := hrx.size }

theorem spec_deliverInSequence
    (hrx : Loaded rx r r ms h x) (hMr : rx.vrMr.Rep r (r + amWindowSize)) (hn : n.Rep r k)
    (hk : r ≤ k) (hlt : k < r + amWindowSize) (hhas : rx.rxonBuffer (k % 1024) ≠ none)
    (hother : k ≠ r → rx.rxonBuffer (r % 1024) = none)
    (hQ : ∀ j p rs, r ≤ j → j < h → rx.rxonBuffer (j % 1024) = some p → Q j rs →
      Spec E (Q (j + 1)) (reassembleAndDeliver true rs p.toDataPdu)) (hr : Q r rx.reassembler) :
    Spec E (fun rx' => ∃ r', Loaded rx' r r' ms h x ∧ rx'.vrMr.Rep r' (r' + amWindowSize) ∧ r ≤ r' ∧
        Q r' rx'.reassembler ∧ rx'.rxonBuffer (r' % 1024) = none ∧
        (∀ j, r ≤ j → j < r' → rx.rxonBuffer (j % 1024) ≠ none) ∧
        ∀ j, r' ≤ j → j < r + 1024 → rx'.rxonBuffer (j % 1024) = rx.rxonBuffer (j % 1024))
      (deliverInSequence rx n) := by
  have hw : amWindowSize = 512 := rfl
  have hhas' : rx.has n = true := by
    rw [AmRx.has, hn.value]
    exact Option.isSome_iff_ne_none.2 hhas
  rw [deliverInSequence, hhas', Bool.and_true, hn.eq hrx.vrR (by omega) (by omega)]
  by_cases hkr : k = r
  · rw [decide_eq_true hkr, if_pos rfl, hrx.vrR.value]
    have hms := hrx.ms_le
    have hh := hrx.h_le
    refine Spec.map ((spec_deliverLoop amLoopFuel hrx hQ hr (by rw [amLoopFuel]; omega)).imp
      fun rx' hrx' => ?_)
    obtain ⟨r', h1, h2, h3, h4, h5, h6⟩ := hrx'
    exact ⟨r', h1.setVrMr _, h1.vrR.add, h2, h3, h4, h5, h6⟩
  · rw [decide_eq_false hkr, if_neg Bool.false_ne_true]
    exact ⟨r, hrx, hMr, le_rfl, hr, hother hkr, fun j h1 h2 => absurd h2 (not_lt.2 h1),
      fun _ _ _ => rfl⟩

/-- The reordering timer is stopped when `VR(R)` has come to its number or past it. -/
theorem Loaded.stop (hrx : Loaded rx r₀ r ms h x) (hMr : rx.vrMr.Rep r (r + amWindowSize))
    (hnone : rx.rxonBuffer (r % 1024) = none) :
    ∃ rx', stopReorderingTimer rx = .ok rx' ∧ RxAt rx' r ms h x ∧ rx'.rxonBuffer = rx.rxonBuffer ∧
      rx'.reassembler = rx.reassembler := by
  have hw : amWindowSize = 512 := rfl
  have hms := hrx.ms_le
  have hh := hrx.h_le
  have hle := hrx.le
  have hle_ms := hrx.le_ms
  have hloaded : Loaded { rx with reorderingTimer := false } r₀ r ms h x :=
    { hrx with timer := fun ht => Bool.noConfusion ht }
  have hstopped := hloaded.rxAt hMr hnone fun ht => Bool.noConfusion ht
  rw [stopReorderingTimer]
  cases ht : rx.reorderingTimer with
  | false => exact ⟨rx, rfl, hrx.rxAt hMr hnone (fun h => by rw [ht] at h; cases h), rfl, rfl⟩
  | true =>
    obtain ⟨hx, hxh⟩ := hrx.timer ht
    rw [if_pos rfl, hrx.vrX.eq hrx.vrR (by omega) (by omega)]
    rcases Nat.lt_trichotomy x r with hlt | rfl | hgt
    · -- the number lies below the window, so seen from `VR(R)` it is 1024 higher
      have hX : rx.vrX.Rep r (x + 1024) := ⟨by rw [hrx.vrX.value]; omega, hrx.vrX.base⟩
      have hMr' : rx.windowBases.vrMr.Rep r (r + amWindowSize) := hMr.setModulusBase hrx.vrR
      rw [decide_eq_false (by omega), if_neg Bool.false_ne_true,
        isInsideReceivingWindow_eq (hrx.vrR.setModulusBase hrx.vrR) hMr' hX (by omega) (by omega),
        hX.eq hMr (by omega) (by omega), decide_eq_false (by omega), decide_eq_false (by omega)]
      exact ⟨_, rfl, hstopped.windowBases, rfl, rfl⟩
    · rw [decide_eq_true rfl, if_pos rfl]
      exact ⟨_, rfl, hstopped, rfl, rfl⟩
    · have hMr' : rx.windowBases.vrMr.Rep r (r + amWindowSize) := hMr.setModulusBase hrx.vrR
      rw [decide_eq_false (by omega), if_neg Bool.false_ne_true,
        isInsideReceivingWindow_eq (hrx.vrR.setModulusBase hrx.vrR) hMr' hrx.vrX (by omega)
        (by omega),
        hrx.vrX.eq hMr (by omega) (by omega)]
      refine ⟨_, rfl, ?_, rfl, rfl⟩
      have hat := (hrx.rxAt hMr hnone (fun _ => hgt)).windowBases
      exact { hat with timer := fun _ => ⟨hgt, hxh⟩ }

theorem RxAt.start (hrx : RxAt rx r ms h x) :
    ∃ rx' x', startReorderingTimer rx = .ok rx' ∧ RxAt rx' r ms h x' ∧
      rx'.rxonBuffer = rx.rxonBuffer ∧ rx'.reassembler = rx.reassembler := by
  have hw : amWindowSize = 512 := rfl
  have hms := hrx.ms_le
  have hh := hrx.h_le
  have hle_ms := hrx.le_ms
  rw [startReorderingTimer]
  cases ht : rx.reorderingTimer with
  | true => exact ⟨rx, x, rfl, hrx, rfl, rfl⟩
  | false =>
    rw [if_neg Bool.false_ne_true, hrx.vrH.gt hrx.vrR (by omega) (by omega) le_rfl (by omega)]
    by_cases hgt : h > r
    · refine ⟨{ rx with reorderingTimer := true, vrX := rx.vrH }, h, ?_, ?_, rfl, rfl⟩
      · rw [decide_eq_true hgt]
        rfl
      · exact { hrx with vrX := hrx.vrH, timer := fun _ => ⟨hgt, le_rfl⟩ }
    · refine ⟨rx, x, ?_, hrx, rfl, rfl⟩
      rw [decide_eq_false hgt]
      rfl

/-- The receiving side after a data PDU, from the buffer with the PDU: `VR(R)` has passed what was
received, and the rest is kept. -/
structure Moved (B : Nat → Option (AmPdu α)) (r h k : Nat) (rx' : AmRx α) (r' : Nat) : Prop where
  rxAt : ∃ ms h' x, RxAt rx' r' ms h' x ∧ (h' = h ∨ h' = k + 1)
  le : r ≤ r'
  passed : ∀ j, r ≤ j → j < r' → B (j % 1024) ≠ none
  kept : ∀ j, r' ≤ j → j < r + 1024 → rx'.rxonBuffer (j % 1024) = B (j % 1024)

theorem spec_acceptPdu (pdu : AmPdu α)
    (hrx : RxAt rx r ms h x) (hn : n.Rep r k) (hk : r ≤ k) (hlt : k < r + amWindowSize)
    (hQ : ∀ j p rs, r ≤ j → j < r + amWindowSize → placed rx pdu k (j % 1024) = some p → Q j rs →
      Spec E (Q (j + 1)) (reassembleAndDeliver true rs p.toDataPdu)) (hr : Q r rx.reassembler) :
    Spec E (fun rx' => ∃ r', Moved (placed rx pdu k) r h k rx' r' ∧ Q r' rx'.reassembler)
      (acceptPdu rx pdu n) := by
  obtain ⟨rx₁, h1, hbuf, hMr, hrs, ms', h', hload, htop⟩ := hrx.load pdu hn hk hlt
  have hacc : acceptPdu rx pdu n =
      (updateVrH (placePdu rx pdu n) n >>= fun rx => updateVrMs rx rx.vrMs) >>= fun rx =>
        deliverInSequence rx n >>= fun rx => stopReorderingTimer rx >>= startReorderingTimer := by
    rw [acceptPdu, bind_assoc]
  rw [hacc, h1, ok_bind]
  have hdel := spec_deliverInSequence (E := E) (Q := Q) hload (hMr ▸ hrx.vrMr) hn hk hlt
    (by
      rw [hbuf, placed, if_pos rfl]
      cases rx.rxonBuffer (k % 1024) <;> exact Option.some_ne_none _)
    (fun hne => by
      rw [hbuf, placed, if_neg (by rw [amWindowSize] at hlt; omega)]
      by_contra hsome
      obtain ⟨j, h2, h3, h4⟩ := hrx.buffer _ hsome
      have hh := hrx.h_le
      rw [amWindowSize] at hh
      omega)
    (fun j p rs h2 h3 h4 h5 => hQ j p rs h2 (h3.trans_le hload.h_le) (by rwa [← hbuf]) h5)
    (hrs ▸ hr)
  refine hdel.bind fun rx₂ hrx₂ => ?_
  obtain ⟨r', hload', hMr', hle, hq, hnone, hpassed, hkept⟩ := hrx₂
  obtain ⟨rx₃, h2, hat, hbuf₃, hrs₃⟩ := hload'.stop hMr' hnone
  obtain ⟨rx₄, x', h3, hat', hbuf₄, hrs₄⟩ := hat.start
  rw [h2, ok_bind, h3]
  refine ⟨r', ⟨⟨ms', h', x', hat', htop⟩, hle, ?_, ?_⟩, by rwa [hrs₄, hrs₃]⟩
  · rwa [← hbuf]
  · intro j hj hj'
    rw [hbuf₄, hbuf₃, hkept j hj hj', hbuf]

theorem spec_receiveDataPdu (pdu : AmPdu α)
    (hrx : RxAt rx r ms h x) (hsn : pdu.sequenceNumber % 1024 = k % 1024) (hk : r ≤ k)
    (hlt : k < r + amWindowSize)
    (hQ : ∀ j p rs, r ≤ j → j < r + amWindowSize → placed rx pdu k (j % 1024) = some p → Q j rs →
      Spec E (Q (j + 1)) (reassembleAndDeliver true rs p.toDataPdu)) (hr : Q r rx.reassembler) :
    Spec E (fun rx' => ∃ r', Moved (placed rx pdu k) r h k rx' r' ∧ Q r' rx'.reassembler)
      (receiveDataPdu rx pdu) := by
  have hn : ((SequenceNumber10.ofValue pdu.sequenceNumber).setModulusBase rx.vrR).Rep r k :=
    ⟨hsn, hrx.vrR.value⟩
  have hat := (hrx.requestStatus pdu).windowBases
  have hsame : (requestStatus rx pdu).rxonBuffer = rx.rxonBuffer ∧
      (requestStatus rx pdu).reassembler = rx.reassembler := by
    rw [requestStatus]
    split
    · exact ⟨rfl, rfl⟩
    · exact ⟨rfl, rfl⟩
  have hplaced : placed (requestStatus rx pdu).windowBases pdu k = placed rx pdu k := by
    funext v
    simp only [placed, AmRx.windowBases, hsame.1]
  have hw : amWindowSize = 512 := rfl
  have hacc := spec_acceptPdu (E := E) (Q := Q) pdu hat hn hk hlt (by rwa [hplaced])
    (by rw [AmRx.windowBases, hsame.2]; exact hr)
  rw [hplaced] at hacc
  simp only [receiveDataPdu, isInsideReceivingWindow_eq hat.vrR hat.vrMr hn hk (by omega)]
  rw [decide_eq_true hlt]
  exact hacc

theorem receiveDataPdu_outside (pdu : AmPdu α) (hrx : RxAt rx r ms h x)
    (hsn : pdu.sequenceNumber % 1024 = k % 1024) (hk : r + amWindowSize ≤ k) (hlt : k < r + 1024) :
    receiveDataPdu rx pdu = .ok (requestStatus rx pdu).windowBases := by
  have hn : ((SequenceNumber10.ofValue pdu.sequenceNumber).setModulusBase rx.vrR).Rep r k :=
    ⟨hsn, hrx.vrR.value⟩
  have hat := (hrx.requestStatus pdu).windowBases
  simp only [receiveDataPdu, isInsideReceivingWindow_eq hat.vrR hat.vrMr hn (by omega) hlt]
  rw [decide_eq_false (by omega)]
  rfl

/-- The reordering timer expires: `VR(MS)` goes on from `VR(X)`. -/
theorem RxAt.expire (hrx : RxAt rx r ms h x) (htimer : rx.reorderingTimer = true) :
    ∃ rx' ms' x', expireReorderingTimer rx = .ok rx' ∧ RxAt rx' r ms' h x' ∧
      rx'.rxonBuffer = rx.rxonBuffer ∧ rx'.reassembler = rx.reassembler := by
  have hw : amWindowSize = 512 := rfl
  have hh := hrx.h_le
  obtain ⟨hx, hxh⟩ := hrx.timer htimer
  obtain ⟨nMs, ms', hMs, hMsrep, hle, hle', hnone⟩ :=
    updateVrMs_eq { rx with reorderingTimer := false } (j := h) hrx.vrX hxh (by omega)
      (none_of_buffer (fun v hv => by
        obtain ⟨j, h1, h2, h3⟩ := hrx.buffer v hv
        exact ⟨j, h1.le, h2, h3⟩) hh le_rfl (by omega))
  rw [expireReorderingTimer, hMs]
  have hgt : rx.vrH.gt nMs = .ok (decide (h > ms')) :=
    hrx.vrH.gt hMsrep (by omega) (by omega) (by omega) (by omega)
  show ∃ rx' m' x', Except.map _ (rx.vrH.gt nMs) = .ok rx' ∧ _
  rw [hgt]
  by_cases hlt : h > ms'
  · refine ⟨{ rx with
      vrMs := nMs, vrX := rx.vrH, reorderingTimer := true, statusPduRequested := true }, ms',
        h, by rw [decide_eq_true hlt]; rfl, ?_, rfl, rfl⟩
    exact
      { hrx with
        vrMs := hMsrep
        vrX := hrx.vrH
        le_ms := by omega
        ms_le := hle'
        missing := hnone
        timer := fun _ => ⟨by omega, le_rfl⟩ }
  · refine ⟨{ rx with vrMs := nMs, reorderingTimer := false, statusPduRequested := true },
      ms', x, by rw [decide_eq_false hlt]; rfl, ?_, rfl, rfl⟩
    exact
      { hrx with
        vrMs := hMsrep
        le_ms := by omega
        ms_le := hle'
        missing := hnone
        timer := fun ht => Bool.noConfusion ht }

end receive

/-! ## STATUS PDUs -/

section status
variable {n : SequenceNumber10} {bytes m : Nat}

/-- The NACKs of what has not been received below a number. -/
def NacksBelow (rx : AmRx α) (r m : Nat) (nacks : List Nat) : Prop :=
  ∀ v, v ∈ nacks ↔ ∃ j, r ≤ j ∧ j < m ∧ rx.rxonBuffer (j % 1024) = none ∧ v = j % 1024

theorem AmRx.has_eq (hn : n.Rep r m) : rx.has n = (rx.rxonBuffer (m % 1024)).isSome := by
  rw [AmRx.has, hn.value]

variable {nacks : List Nat}

theorem NacksBelow.next (hnacks : NacksBelow rx r m nacks) (hn : n.Rep r m)
    (hm : r ≤ m) : NacksBelow rx r (m + 1) (if rx.has n then nacks else nacks ++ [n.value]) := by
  intro v
  rw [AmRx.has_eq hn]
  cases hbuf : rx.rxonBuffer (m % 1024) with
  | none =>
    rw [Option.isSome_none, if_neg Bool.false_ne_true, List.mem_append, hnacks v,
      List.mem_singleton, hn.value]
    constructor
    · rintro (⟨j, h1, h2, h3, h4⟩ | rfl)
      · exact ⟨j, h1, h2.trans (Nat.lt_succ_self m), h3, h4⟩
      · exact ⟨m, hm, Nat.lt_succ_self m, hbuf, rfl⟩
    · rintro ⟨j, h1, h2, h3, h4⟩
      rcases Nat.lt_succ_iff_lt_or_eq.1 h2 with hlt | rfl
      · exact .inl ⟨j, h1, hlt, h3, h4⟩
      · exact .inr h4
  | some pdu =>
    rw [Option.isSome_some, if_pos rfl, hnacks v]
    constructor
    · rintro ⟨j, h1, h2, h3, h4⟩
      exact ⟨j, h1, h2.trans (Nat.lt_succ_self m), h3, h4⟩
    · rintro ⟨j, h1, h2, h3, h4⟩
      refine ⟨j, h1, lt_of_le_of_ne (Nat.le_of_lt_succ h2) ?_, h3, h4⟩
      rintro rfl
      rw [hbuf] at h3
      cases h3

theorem nackLoop_eq (bytes : Nat) (hrx : RxAt rx r ms h x) :
    ∀ (fuel : Nat) {m : Nat} {n : SequenceNumber10} {nacks : List Nat}, n.Rep r m → r ≤ m → m ≤ ms →
      NacksBelow rx r m nacks → ms < m + fuel →
      ∃ n' nacks' m', nackLoop rx bytes fuel n nacks = .ok (n', nacks') ∧ n'.Rep r m' ∧ m ≤ m' ∧
        m' ≤ ms ∧ NacksBelow rx r m' nacks'
  | 0, _, _, _, _, _, hm, _, hfuel => absurd hfuel (not_lt.2 hm)
  | fuel + 1, m, n, nacks, hn, hrm, hm, hnacks, hfuel => by
    have hw : amWindowSize = 512 := rfl
    have hh := hrx.h_le
    have hmsh := hrx.ms_le
    rw [nackLoop, hn.lt hrx.vrMs hrm (by omega) (by omega) (by omega), ok_bind]
    split
    · next hgo =>
      have hlt : m < ms := of_decide_eq_true (Bool.and_eq_true_iff.1 hgo).1
      obtain ⟨n', nacks', m', h1, h2, h3, h4, h5⟩ := nackLoop_eq bytes hrx fuel hn.incr
        (by omega) hlt (hnacks.next hn hrm) (by omega)
      exact ⟨n', nacks', m', h1, h2, by omega, h4, h5⟩
    · exact ⟨n, nacks, m, rfl, hn, le_rfl, hm, hnacks⟩

theorem ackLoop_eq (hrx : RxAt rx r ms h x) :
    ∀ (fuel : Nat) {m : Nat} {n : SequenceNumber10}, n.Rep r m → r ≤ m → m ≤ ms →
      NacksBelow rx r m nacks → ms < m + fuel →
      ∃ n' m', ackLoop rx fuel n = .ok n' ∧ n'.Rep r m' ∧ m ≤ m' ∧ m' ≤ ms ∧
        NacksBelow rx r m' nacks
  | 0, _, _, _, _, hm, _, hfuel => absurd hfuel (not_lt.2 hm)
  | fuel + 1, m, n, hn, hrm, hm, hnacks, hfuel => by
    have hw : amWindowSize = 512 := rfl
    have hh := hrx.h_le
    have hmsh := hrx.ms_le
    rw [ackLoop, hn.lt hrx.vrMs hrm (by omega) (by omega) (by omega), ok_bind]
    split
    · next hgo =>
      obtain ⟨hlt, hhas⟩ := Bool.and_eq_true_iff.1 hgo
      have hlt : m < ms := of_decide_eq_true hlt
      have hnext := hnacks.next hn hrm
      rw [if_pos hhas] at hnext
      obtain ⟨n', m', h1, h2, h3, h4, h5⟩ :=
        ackLoop_eq hrx fuel hn.incr (by omega) hlt hnext (by omega)
      exact ⟨n', m', h1, h2, by omega, h4, h5⟩
    · exact ⟨n, m, rfl, hn, le_rfl, hm, hnacks⟩

/-- A STATUS PDU acknowledges up to a number between `VR(R)` and `VR(MS)`, and its NACKs are what
has not been received below it. -/
theorem buildStatusPdu_eq (hrx : RxAt rx r ms h x) (bytes : Nat) :
    ∃ a nacks, buildStatusPdu rx bytes = .ok ⟨a % 1024, nacks⟩ ∧ r ≤ a ∧ a ≤ ms ∧
      NacksBelow rx r a nacks := by
  have hw : amWindowSize = 512 := rfl
  have hh := hrx.h_le
  have hmsh := hrx.ms_le
  have hempty : NacksBelow rx r r [] := by
    intro v
    simp only [List.not_mem_nil, false_iff, not_exists]
    rintro j ⟨h1, h2, -⟩
    exact absurd h2 (not_lt.2 h1)
  obtain ⟨n₁, nacks, m₁, h1, hn₁, hle, hle', hnacks⟩ := nackLoop_eq bytes hrx amLoopFuel
    hrx.vrR le_rfl hrx.le_ms hempty (by rw [amLoopFuel]; omega)
  obtain ⟨n₂, a, h2, hn₂, hle₂, hle₂', hnacks'⟩ := ackLoop_eq hrx amLoopFuel hn₁ hle hle' hnacks
    (by rw [amLoopFuel]; omega)
  refine ⟨a, nacks, ?_, hle.trans hle₂, hle₂', hnacks'⟩
  rw [buildStatusPdu, h1, ok_bind, h2, ok_bind,
    hn₂.le hrx.vrMs (by omega) (by omega) (by omega) (by omega), ok_bind, decide_eq_true hle₂',
    hn₂.value]
  rfl

theorem NacksBelow.mem_iff {a j : Nat} (hnacks : NacksBelow rx r a nacks)
    (hj : r ≤ j) (hlt : j < a) : j % 1024 ∈ nacks ↔ rx.rxonBuffer (j % 1024) = none := by
  rw [hnacks (j % 1024)]
  constructor
  · rintro ⟨i, h1, h2, h3, h4⟩
    rwa [h4]
  · intro hnone
    exact ⟨j, hj, hlt, hnone, rfl⟩

end status

/-! ## Runs -/

section runs

/-- What happens at the receiving side. -/
inductive AmRxAction (α : Type)
  | receiveDataPdu (pdu : AmPdu α)
  | expireReorderingTimer
  | sendStatusPdu (bytes : Nat)
  | expireStatusProhibitTimer

/-- One action: a timer expires only while it runs, and a STATUS PDU is sent only when one is due.
-/
def amRxAct (rx : AmRx α) : AmRxAction α → Except RlcError (AmRx α)
  | .receiveDataPdu pdu => receiveDataPdu rx pdu
  | .expireReorderingTimer => if rx.reorderingTimer then expireReorderingTimer rx else .ok rx
  | .sendStatusPdu bytes => if rx.statusDue then (sendStatusPdu rx bytes).map (·.1) else .ok rx
  | .expireStatusProhibitTimer => .ok { rx with statusProhibitTimer := false }

theorem exists_number (r v : Nat) : ∃ k, v % 1024 = k % 1024 ∧ r ≤ k ∧ k < r + 1024 :=
  ⟨r + (v + 1024 - r % 1024) % 1024, by omega, by omega, by omega⟩

theorem spec_reassembleAndDeliver {am : Bool} {rs : Reassembler α} {pdu : DataPdu α} :
    Spec (· = .nullPointer) (fun _ => True) (reassembleAndDeliver am rs pdu) := by
  have hsplit : ∀ (e : List Bool) (l : List Nat) (d : List α),
      Spec (· = .nullPointer) (fun _ => True) (splitSdus e l d) := by
    intro e l d
    induction e, l, d using splitSdus.induct with
    | case1 => trivial
    | case2 e li l d ih =>
      rw [splitSdus]
      exact Spec.map ih
    | case3 e l d h1 h2 =>
      rw [splitSdus]
      · rfl
      · exact h1
      · exact h2
  rw [reassembleAndDeliver]
  refine (hsplit _ _ _).bind fun sdus _ => ?_
  rw [transition.eq_def]
  split
  · trivial
  · trivial
  · split <;> trivial
  · rw [continueSdus]
    split
    · trivial
    · split
      · split
        · trivial
        · split <;> trivial
      · rfl

theorem RxAt.receive (hrx : RxAt rx r ms h x) (pdu : AmPdu α) :
    Spec (· = .nullPointer) (fun rx' => ∃ r ms h x, RxAt rx' r ms h x) (receiveDataPdu rx pdu) := by
  obtain ⟨k, hsn, hk, hlt⟩ := exists_number r pdu.sequenceNumber
  rcases Nat.lt_or_ge k (r + amWindowSize) with hin | hout
  · have hspec := spec_receiveDataPdu (E := (· = .nullPointer)) (Q := fun _ _ => True) pdu hrx hsn
      hk hin (fun _ _ _ _ _ _ _ => spec_reassembleAndDeliver) trivial
    refine hspec.imp fun rx' hrx' => ?_
    obtain ⟨r', hmoved, -⟩ := hrx'
    obtain ⟨ms', h', x', hat, -⟩ := hmoved.rxAt
    exact ⟨r', ms', h', x', hat⟩
  · rw [receiveDataPdu_outside pdu hrx hsn hout hlt]
    exact ⟨r, ms, h, x, (hrx.requestStatus pdu).windowBases⟩

/-- Every action keeps the window, and fails only for a malformed PDU or an opportunity that is too
small. -/
theorem RxAt.act {a : AmRxAction α} (hrx : RxAt rx r ms h x) :
    Spec (fun e => e = .nullPointer ∨ e = .txOpportunity) (fun rx' => ∃ r ms h x, RxAt rx' r ms h x)
      (amRxAct rx a) := by
  cases a with
  | receiveDataPdu pdu =>
    exact (hrx.receive pdu).mono (fun _ => Or.inl) fun _ => id
  | expireReorderingTimer =>
    rw [amRxAct]
    split
    · next htimer =>
      obtain ⟨rx', ms', x', h1, h2, -⟩ := hrx.expire htimer
      rw [h1]
      exact ⟨r, ms', h, x', h2⟩
    · exact ⟨r, ms, h, x, hrx⟩
  | sendStatusPdu bytes =>
    rw [amRxAct]
    split
    · rw [sendStatusPdu]
      split
      · exact .inr rfl
      · obtain ⟨a, nacks, h1, -⟩ := buildStatusPdu_eq hrx bytes
        rw [h1]
        exact ⟨r, ms, h, x, { hrx with size := Nat.zero_le 4 }⟩
    · exact ⟨r, ms, h, x, hrx⟩
  | expireStatusProhibitTimer => exact ⟨r, ms, h, x, { hrx with size := hrx.size }⟩

theorem rxAt_init : RxAt ({} : AmRx α) 0 0 0 0 where
  vrR := ⟨rfl, rfl⟩
  vrMr := ⟨rfl, rfl⟩
  vrMs := ⟨rfl, rfl⟩
  vrH := ⟨rfl, rfl⟩
  vrX := ⟨rfl, rfl⟩
  le_ms := le_rfl
  ms_le := le_rfl
  h_le := Nat.zero_le _
  buffer _ hv := absurd rfl hv
  missing := rfl
  timer ht := Bool.noConfusion ht
  size := Nat.zero_le 4

end runs

end OranNs3.Rlc
