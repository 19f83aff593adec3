import OranNs3.Lib.Run
import OranNs3.Wifi.BlockAckWindow
import Mathlib.Order.Lattice.Nat

/-!
# The window of an originator of block acks

`NotifyTransmittedMpdu`, `NotifyAckedMpdu` and `NotifyDiscardedMpdu` of
`src/src/wifi/model/originator-block-ack-agreement.cc`. MPDUs are numbered without wrapping: the
number of a sequence number is that of the 4096 from the start of the window on (`numberOf`). A
number is done when it has been acknowledged or given up; it is given up when it or a later one is
discarded, or when the transmission of a later one pushes it out of the window (`Action.settled`).
The window starts at the least number that is not done, and its bits are those of the numbers that
are done (`Represents`).
-/

namespace OranNs3.Wifi

open Option

namespace BlockAckWindow

/-- `AdvanceTxWindow`, with the rounds it may take. -/
def advanceTxWindow : Nat → BlockAckWindow → Option BlockAckWindow
  | 0, _ => none
  | rounds + 1, w => (w.at? 0).bind fun bit =>
    if bit then advanceTxWindow rounds (w.advance 1) else some w

variable (w : BlockAckWindow)

/-- The rounds of the loop: a bit is cleared in each. -/
def rounds : Nat := w.winSize + 1

variable (mpduSeqNumber : Nat)

def notifyTransmittedMpdu : Option BlockAckWindow :=
  let distance := getDistance mpduSeqNumber w.winStart
  if distance ≥ seqnoSpaceHalfSize then some w
  else if distance ≥ w.winSize then advanceTxWindow w.rounds (w.advance (distance - w.winSize + 1))
  else some w

def notifyAckedMpdu : Option BlockAckWindow :=
  let distance := getDistance mpduSeqNumber w.winStart
  if distance ≥ seqnoSpaceHalfSize then some w
  else (w.setAt distance true).bind (advanceTxWindow w.rounds)

def notifyDiscardedMpdu : Option BlockAckWindow :=
  let distance := getDistance mpduSeqNumber w.winStart
  if distance ≥ seqnoSpaceHalfSize then some w
  else advanceTxWindow w.rounds (w.advance (distance + 1))

end BlockAckWindow

/-! ## Numbers that are done -/

section numbers
variable {done : Set Nat} {s : Nat}

/-- The least number that is not done. -/
noncomputable def start (done : Set Nat) : Nat := sInf doneᶜ

theorem start_eq (hs : s ∉ done) (hlt : ∀ n < s, n ∈ done) : start done = s := by
  refine le_antisymm (Nat.sInf_le hs) ?_
  by_contra hle
  exact Nat.sInf_mem (s := doneᶜ) ⟨s, hs⟩ (hlt _ (Nat.lt_of_not_le hle))

end numbers

namespace BlockAckWindow

variable {w w' : BlockAckWindow} {done : Set Nat} {s : Nat}

/-- A window that starts at the least number that is not done. -/
structure Represents (w : BlockAckWindow) (done : Set Nat) : Prop where
  shows : Shows w (start done) done
  head : start done ∉ done

theorem Shows.advanceTxWindow : ∀ (rounds : Nat) {w : BlockAckWindow} {s : Nat}, Shows w s done →
    (∀ n ∈ done, n < s + rounds) → ∃ w', advanceTxWindow (rounds + 1) w = some w' ∧
      Represents w' done ∧ w'.winSize = w.winSize ∧ s ≤ start done
  | rounds, w, s, hw, hrounds => by
    have hpos : 0 < w.winSize := Nat.zero_lt_of_lt hw.valid.head_lt
    rw [BlockAckWindow.advanceTxWindow]
    by_cases hs : s ∈ done
    · rw [(hw.bits 0 hpos).2 hs, bind_some, if_pos rfl]
      cases rounds with
      | zero => exact absurd (hrounds s hs) (lt_irrefl s)
      | succ rounds =>
        have hadvance := hw.advance 1
        have hsub : done ∪ Set.Iio (s + 1) = done := by
          refine Set.union_eq_left.2 fun n hn => ?_
          rcases Nat.lt_succ_iff_lt_or_eq.1 (show n < s + 1 from hn) with hn | rfl
          · exact hw.before n hn
          · exact hs
        rw [hsub] at hadvance
        obtain ⟨w', hok, hrep, hsize, hle⟩ := Shows.advanceTxWindow rounds hadvance
          fun n hn => (hrounds n hn).trans_eq (by omega)
        exact ⟨w', hok, hrep, hsize.trans (contents_advance hw.valid 1).2.1, by omega⟩
    · classical
      have hstart := start_eq hs hw.before
      rw [hw.at?_eq hpos, bind_some, decide_eq_false (show s + 0 ∉ done from hs),
        if_neg Bool.false_ne_true]
      exact ⟨w, rfl, ⟨hstart.symm ▸ hw, hstart.symm ▸ hs⟩, rfl, hstart.ge⟩

end BlockAckWindow

/-! ## Runs -/

/-- What the agreement is notified of, with the sequence number of the MPDU. -/
inductive Action where
  | transmitted (seqNumber : Fin seqnoSpaceSize)
  | acked (seqNumber : Fin seqnoSpaceSize)
  | discarded (seqNumber : Fin seqnoSpaceSize)
deriving DecidableEq

/-- The window, and the numbers that are done. -/
structure Originator where
  window : BlockAckWindow
  done : Set Nat

namespace Originator

/-- The agreement after `InitTxWindow`. -/
def initial (startingSeq bufferSize : Nat) : Originator :=
  ⟨.init startingSeq bufferSize, Set.Iio startingSeq⟩

/-- The code on a notification. -/
def notify (w : BlockAckWindow) : Action → Option BlockAckWindow
  | .transmitted sn => w.notifyTransmittedMpdu sn
  | .acked sn => w.notifyAckedMpdu sn
  | .discarded sn => w.notifyDiscardedMpdu sn

/-- The numbers that a notification about an MPDU acknowledges or gives up: those that the window of
an MPDU that is transmitted leaves behind, the MPDU of the window that is acknowledged, and the one
that is discarded with all before it. -/
def settled (size s : Nat) : Action → Set Nat
  | .transmitted sn => {m | m + size ≤ numberOf s sn ∧ numberOf s sn < s + seqnoSpaceHalfSize}
  | .acked sn => {m | m = numberOf s sn ∧ numberOf s sn < s + size}
  | .discarded sn => {m | m ≤ numberOf s sn ∧ numberOf s sn < s + seqnoSpaceHalfSize}

/-- The steps of an agreement. -/
def Step (o : Originator) (a : Action) (o' : Originator) : Prop :=
  notify o.window a = some o'.window ∧ o'.done = o.done ∪ settled o.window.winSize (start o.done) a

/-- An MPDU that is acknowledged is in the window, or old. -/
def InWindow (o : Originator) : Action → Prop
  | .acked sn => getDistance sn o.window.winStart < o.window.winSize ∨
    seqnoSpaceHalfSize ≤ getDistance sn o.window.winStart
  | _ => True

variable {o o' : Originator} {w : BlockAckWindow} {done : Set Nat} {a : Action}

open BlockAckWindow

theorem represents_of_subset (hw : Represents w done)
    (hsub : settled w.winSize (start done) a ⊆ done) :
    Represents w (done ∪ settled w.winSize (start done) a) ∧ w.winSize = w.winSize ∧
      start done ≤ start (done ∪ settled w.winSize (start done) a) := by
  rw [Set.union_eq_left.2 hsub]
  exact ⟨hw, rfl, le_rfl⟩

theorem represents_of_shows {w₁ : BlockAckWindow} {s done₁ : _} (hle : start done ≤ s)
    (hw₁ : Shows w₁ s done₁) (hsize : w₁.winSize = w.winSize)
    (hdone : done₁ = done ∪ settled w.winSize (start done) a) :
    ∃ w', advanceTxWindow w.rounds w₁ = some w' ∧
      Represents w' (done ∪ settled w.winSize (start done) a) ∧ w'.winSize = w.winSize ∧
        start done ≤ start (done ∪ settled w.winSize (start done) a) := by
  subst hdone
  obtain ⟨w', hok, hrep, hsize', hle'⟩ := hw₁.advanceTxWindow _ (hsize ▸ hw₁.beyond)
  exact ⟨w', hok, hrep, hsize'.trans hsize, hle.trans hle'⟩

/-- One notification. -/
theorem notify_represents (hw : Represents w done) (hsize : w.winSize ≤ seqnoSpaceHalfSize)
    (ha : InWindow ⟨w, done⟩ a) : ∃ w', notify w a = some w' ∧
      Represents w' (done ∪ settled w.winSize (start done) a) ∧ w'.winSize = w.winSize ∧
      start done ≤ start (done ∪ settled w.winSize (start done) a) := by
  have hshows := hw.shows
  have hstart := hshows.winStart
  cases a with
  | transmitted sn =>
    have hnumber : numberOf (start done) sn = start done + getDistance sn w.winStart := by
      rw [numberOf, hstart]
    rw [notify, notifyTransmittedMpdu]
    generalize getDistance sn w.winStart = d at hnumber
    split
    · next hold =>
      refine ⟨w, rfl, represents_of_subset hw fun m hm => ?_⟩
      have hm : m + w.winSize ≤ _ ∧ _ < _ := hm
      omega
    · next hnear =>
      split
      · next hbeyond =>
        have hadvance := hshows.advance (d - w.winSize + 1)
        refine represents_of_shows (Nat.le_add_right _ _) hadvance
          (contents_advance hshows.valid _).2.1 ?_
        refine congrArg (done ∪ ·) (Set.ext fun m => ?_)
        rw [settled, Set.mem_ofPred_eq, Set.mem_Iio, hnumber]
        omega
      · next hwithin =>
        refine ⟨w, rfl, represents_of_subset hw fun m hm => hshows.before m ?_⟩
        have hm : m + w.winSize ≤ _ ∧ _ < _ := hm
        omega
  | acked sn =>
    have hnumber : numberOf (start done) sn = start done + getDistance sn w.winStart := by
      rw [numberOf, hstart]
    have hwithin : getDistance sn w.winStart < w.winSize ∨
      seqnoSpaceHalfSize ≤ getDistance sn w.winStart := ha
    rw [notify, notifyAckedMpdu]
    generalize getDistance sn w.winStart = d at hnumber hwithin
    split
    · next hold =>
      refine ⟨w, rfl, represents_of_subset hw fun m hm => ?_⟩
      have hm : m = _ ∧ _ < _ := hm
      omega
    · next hnear =>
      obtain ⟨w₁, hok, hsize₁, hshows₁⟩ := hshows.setAt (hwithin.resolve_right hnear)
      rw [hok, bind_some]
      refine represents_of_shows le_rfl hshows₁ hsize₁ ?_
      rw [Set.insert_eq, Set.union_comm]
      refine congrArg (done ∪ ·) (Set.ext fun m => ?_)
      rw [settled, Set.mem_ofPred_eq, Set.mem_singleton_iff, hnumber]
      omega
  | discarded sn =>
    have hnumber : numberOf (start done) sn = start done + getDistance sn w.winStart := by
      rw [numberOf, hstart]
    rw [notify, notifyDiscardedMpdu]
    generalize getDistance sn w.winStart = d at hnumber
    split
    · next hold =>
      refine ⟨w, rfl, represents_of_subset hw fun m hm => ?_⟩
      have hm : m ≤ _ ∧ _ < _ := hm
      omega
    · next hnear =>
      have hadvance := hshows.advance (d + 1)
      refine represents_of_shows (Nat.le_add_right _ _) hadvance
        (contents_advance hshows.valid _).2.1 ?_
      refine congrArg (done ∪ ·) (Set.ext fun m => ?_)
      rw [settled, Set.mem_ofPred_eq, Set.mem_Iio, hnumber]
      omega

theorem represents_initial {startingSeq bufferSize : Nat} (hstart : startingSeq < seqnoSpaceSize)
    (hsize : 0 < bufferSize) :
    Represents (initial startingSeq bufferSize).window (initial startingSeq bufferSize).done := by
  have hnot : startingSeq ∉ Set.Iio startingSeq := lt_irrefl startingSeq
  have heq : start (Set.Iio startingSeq) = startingSeq := start_eq hnot fun n hn => hn
  refine ⟨?_, heq.symm ▸ hnot⟩
  show Shows (.init startingSeq bufferSize) (start (Set.Iio startingSeq)) (Set.Iio startingSeq)
  rw [heq]
  exact shows_init hsize hstart

open Classical in
/-- In every run the window starts at the least number that is not acknowledged or given up, its
bits are those of the numbers that are, and the next notification returns, and moves it forward over
such numbers only. -/
theorem originator_of_run {startingSeq bufferSize : Nat} (hstart : startingSeq < seqnoSpaceSize)
    (hpos : 0 < bufferSize) (hsize : bufferSize ≤ seqnoSpaceHalfSize)
    (hrun : Lts.Run Step InWindow (initial startingSeq bufferSize) o) :
    o.window.winSize = bufferSize ∧ o.window.winStart = start o.done % seqnoSpaceSize ∧
      (∀ i < bufferSize, o.window.at? i = some (decide (start o.done + i ∈ o.done))) ∧
      o.window.at? 0 = some false ∧
      ∀ a, InWindow o a → ∃ o', Step o a o' ∧ start o.done ≤ start o'.done ∧
        ∀ n, start o.done ≤ n → n < start o'.done → n ∈ o'.done := by
  obtain ⟨hrep, hsize'⟩ : Represents o.window o.done ∧ o.window.winSize = bufferSize := by
    refine Lts.Run.invariant (I := fun o => Represents o.window o.done ∧
      o.window.winSize = bufferSize) (fun {o o' a} h ha hstep =>
        ?_) ⟨represents_initial hstart hpos, winSize_init⟩ hrun
    obtain ⟨w', hok, hrep, hsize', -⟩ := notify_represents h.1 (h.2.trans_le hsize) ha
    obtain rfl := some.inj (hok.symm.trans hstep.1)
    exact ⟨hstep.2 ▸ hrep, hsize'.trans h.2⟩
  have hbits : ∀ i < bufferSize, o.window.at? i = some (decide (start o.done + i ∈ o.done)) :=
    fun i hi =>
    hrep.shows.at?_eq (hi.trans_eq hsize'.symm)
  refine ⟨hsize', hrep.shows.winStart, hbits, ?_, fun a ha => ?_⟩
  · rw [hbits 0 hpos, decide_eq_false (show start o.done + 0 ∉ o.done from hrep.head)]
  · obtain ⟨w', hok, hrep', -, hle⟩ := notify_represents hrep (hsize'.trans_le hsize) ha
    exact ⟨⟨w', _⟩, ⟨hok, rfl⟩, hle, fun n _ hn => hrep'.shows.before n hn⟩

theorem run_notify {o₀ : Originator} (hrun : Lts.Run Step InWindow o₀ o) (ha : InWindow o a)
    (hok : notify o.window a = some w) :
    Lts.Run Step InWindow o₀ ⟨w, o.done ∪ settled o.window.winSize (start o.done) a⟩ :=
  hrun.snoc ha ⟨hok, rfl⟩

/-- A window of two from 4095 on: 0 is acknowledged, and 4095 is discarded, so that the window
starts at 1. -/
theorem originator_of_run_example : ∃ o : Originator, o.window.winStart = 1 ∧
    start o.done % seqnoSpaceSize = 1 ∧ o.window.at? 0 = some false := by
  have hacked : notify (.init 4095 2) (.acked ⟨0, by decide⟩) = some ⟨4095, [false, true], 0⟩ := by
    decide
  have hdiscarded : notify ⟨4095, [false, true], 0⟩ (.discarded ⟨4095, by decide⟩) = some ⟨1,
    [false, false], 0⟩ := by decide
  have hwithin : InWindow (initial 4095 2) (.acked ⟨0, by decide⟩) := Or.inl (by decide)
  have hrun :=
    run_notify (a := .discarded _) (run_notify (Lts.Run.refl _) hwithin hacked) trivial hdiscarded
  have hall := originator_of_run (by decide) (by decide) (by decide) hrun
  exact ⟨_, rfl, hall.2.1.symm, hall.2.2.2.1⟩

end Originator

end OranNs3.Wifi
