import Mathlib.Data.List.TakeDrop
import OranNs3.Rlc.AmRx
import OranNs3.Rlc.Header

/-!
# The size of a STATUS PDU

The NACKs of a STATUS PDU take two bytes and one byte by turns. `PushNack` counts them after the
NACK is in the list, `OneMoreNackWouldFitIn` before, and the two are the wrong way round: the test
asks for one byte where the NACK takes two, and for two where it takes one. Both count as far as the
same number of NACKs (`nackRoom`), so a PDU reports the first `nackRoom` numbers that are missing
(`nackLoop_take`), and `status_fits_iff` says for which opportunities that is as many as fit. The
size of an opportunity is cut to 16 bits.
-/

namespace OranNs3.Rlc

open Fallible List Lts

variable {α : Type} {rx : AmRx α} {r ms h x : Nat}

/-- The numbers from `VR(R)` up to `VR(MS)` whose PDUs have not been received. -/
def AmRx.missing (rx : AmRx α) : List Nat :=
  ((List.range ((rx.vrMs.value + 1024 - rx.vrR.value) % 1024)).map fun i => (rx.vrR.value + i) %
    1024).filter fun v => (rx.rxonBuffer v).isNone

/-- The NACKs at which the loop stops for an opportunity. -/
def nackRoom (bytes : Nat) : Nat := 2 * (bytes % 2 ^ 16 / 3) - 1

theorem statusHeaderLength_eq (n : Nat) : statusHeaderLength n = 2 + (3 * n + 1) / 2 := by
  induction n with
  | zero => rfl
  | succ n ih =>
    rw [statusHeaderLength, ih]
    split <;> omega

theorem length_nackBytes (odd : Nat) : ∀ nacks : List Nat,
    (nackBytes odd nacks).length = (3 * (nacks.length + 1) + 1) / 2
  | [] => by simp [nackBytes]
  | [even] => by simp [nackBytes]
  | _ :: odd' :: nacks => by
    simp only [nackBytes, length_cons, length_nackBytes odd' nacks]
    omega

theorem length_statusBytes (st : StatusPdu) :
    (statusBytes st).length = statusHeaderLength st.nackSnList.length := by
  rw [statusHeaderLength_eq]
  obtain ⟨ack, _ | ⟨nack, nacks⟩⟩ := st
  · simp [statusBytes]
  · simp only [statusBytes, length_cons, length_nackBytes]
    omega

theorem oneMoreNackWouldFitIn_iff {n bytes : Nat} :
    oneMoreNackWouldFitIn n (bytes % 2 ^ 16) = true ↔ n < nackRoom bytes := by
  rw [oneMoreNackWouldFitIn, nackRoom, statusHeaderLength_eq]
  split <;> rw [decide_eq_true_iff] <;> omega

/-- The missing ones of the numbers from `m` on. -/
def missingFrom (rx : AmRx α) (ms m : Nat) : List Nat :=
  ((List.range' m (ms - m)).map (· % 1024)).filter fun v => (rx.rxonBuffer v).isNone

theorem missingFrom_self (m : Nat) : missingFrom rx m m = [] := by
  rw [missingFrom, Nat.sub_self]
  rfl

theorem missingFrom_succ {m : Nat} (hm : m < ms) : missingFrom rx ms m =
    if (rx.rxonBuffer (m % 1024)).isSome then missingFrom rx ms (m + 1)
    else m % 1024 :: missingFrom rx ms (m + 1) := by
  have hlen : ms - m = (ms - (m + 1)) + 1 := by omega
  rw [missingFrom, hlen, range'_succ, map_cons, filter_cons, missingFrom]
  cases rx.rxonBuffer (m % 1024) <;> rfl

theorem RxAt.missing_eq (hrx : RxAt rx r ms h x) : rx.missing = missingFrom rx ms r := by
  have hw : amWindowSize = 512 := rfl
  have hms := hrx.le_ms
  have hh := hrx.h_le
  have hmsh := hrx.ms_le
  have hlen : (rx.vrMs.value + 1024 - rx.vrR.value) % 1024 = ms - r := by
    rw [hrx.vrMs.value, hrx.vrR.value]
    omega
  have hmap : ∀ i, (rx.vrR.value + i) % 1024 = (r + i) % 1024 := fun i => by
    rw [hrx.vrR.value, Nat.mod_add_mod]
  rw [AmRx.missing, missingFrom, hlen, range'_eq_map_range, map_map]
  simp only [hmap]
  rfl

/-- The loop of the NACKs takes the first numbers that are missing, as long as the test lets it. -/
theorem nackLoop_take (bytes : Nat) (hrx : RxAt rx r ms h x) :
    ∀ (fuel : Nat) {m : Nat} {n n' : SequenceNumber10} {nacks nacks' : List Nat}, n.Rep r m →
      r ≤ m → m ≤ ms → nacks.length ≤ nackRoom bytes →
        nackLoop rx bytes fuel n nacks = .ok (n', nacks') →
      nacks' = (nacks ++ missingFrom rx ms m).take (nackRoom bytes)
  | 0, _, _, _, _, _, _, _, _, _, hloop => nomatch hloop
  | fuel + 1, m, n, n', nacks, nacks', hn, hrm, hm, hroom, hloop => by
    have hw : amWindowSize = 512 := rfl
    have hh := hrx.h_le
    have hmsh := hrx.ms_le
    rw [nackLoop, hn.lt hrx.vrMs hrm (by omega) (by omega) (by omega), ok_bind] at hloop
    split at hloop
    · next hgo =>
      obtain ⟨hlt, hfits⟩ := Bool.and_eq_true_iff.1 hgo
      have hlt : m < ms := of_decide_eq_true hlt
      have hroom' : nacks.length < nackRoom bytes := oneMoreNackWouldFitIn_iff.1 hfits
      rw [missingFrom_succ hlt]
      rw [AmRx.has, hn.value] at hloop
      split at hloop
      · next hhas =>
        rw [if_pos hhas]
        exact nackLoop_take bytes hrx fuel hn.incr (by omega) hlt hroom hloop
      · next hhas =>
        have hnext := nackLoop_take bytes hrx fuel hn.incr (by omega) hlt
          (by rw [length_append]; exact hroom') hloop
        rwa [if_neg hhas, append_cons]
    · -- the end, or no room
      next hstop =>
      cases hloop
      rw [Bool.and_eq_true_iff, decide_eq_true_iff, oneMoreNackWouldFitIn_iff] at hstop
      rcases Nat.lt_or_ge m ms with hlt | hge
      · have hlen : nacks.length = nackRoom bytes :=
          le_antisymm hroom (Nat.le_of_not_lt fun hlt' => hstop ⟨hlt, hlt'⟩)
        rw [← hlen, take_left]
      · cases le_antisymm hm hge
        rw [missingFrom_self, append_nil, take_of_length_le hroom]

theorem RxAt.buildStatusPdu (hrx : RxAt rx r ms h x) (bytes : Nat) : ∃ ack,
    buildStatusPdu rx bytes = .ok ⟨ack, rx.missing.take (nackRoom bytes)⟩ := by
  obtain ⟨a, nacks, hbuild, -⟩ := buildStatusPdu_eq hrx bytes
  refine ⟨a % 1024, ?_⟩
  rw [hbuild]
  obtain ⟨⟨n', nacks'⟩, hloop, hrest⟩ := ok_of_bind hbuild
  obtain ⟨sn, -, hrest⟩ := ok_of_bind hrest
  obtain ⟨below, -, hrest⟩ := ok_of_bind hrest
  have hnacks : nacks' = nacks := by
    split at hrest
    · exact (StatusPdu.mk.inj (Except.ok.inj hrest)).2
    · cases hrest
  have htake := nackLoop_take bytes hrx amLoopFuel hrx.vrR le_rfl hrx.le_ms (Nat.zero_le _) hloop
  rw [← hnacks, htake, nil_append, hrx.missing_eq]

theorem RxAt.notifyTxOpportunity {s : Am α} (hrx : RxAt s.rx r ms h x) (c : AmConfig)
    (hdue : s.rx.statusDue = true) {bytes : Nat} (hbytes : 4 ≤ bytes) :
    ∃ s' ack, s.notifyTxOpportunity c bytes =
      .ok (s', some (.status ⟨ack, s.rx.missing.take (nackRoom bytes)⟩)) := by
  obtain ⟨ack, hbuild⟩ := hrx.buildStatusPdu bytes
  have hsize := hrx.size
  rw [Am.notifyTxOpportunity, if_neg (by omega), if_pos hdue, sendStatusPdu, if_neg (by omega),
    hbuild]
  exact ⟨_, ack, rfl⟩

end OranNs3.Rlc
