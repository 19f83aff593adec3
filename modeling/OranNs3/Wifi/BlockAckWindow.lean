import OranNs3.Lib.Ring
import Mathlib.Order.Interval.Set.Basic

/-!
# The block ack window

`BlockAckWindow` (`src/src/wifi/model/block-ack-window.cc`): a bit for each sequence number from
`winStart` on, in a vector that is used as a ring. Where the source asserts, there is no result. To
move the window by any count is to drop the first bits and to clear those that come in
(`contents_advance`). Seen without wrapping, a window shows which numbers of a set are among those
from its start on (`Shows`).
-/

namespace OranNs3.Wifi

open List

/-- `SEQNO_SPACE_SIZE`. -/
def seqnoSpaceSize : Nat := 4096

/-- `SEQNO_SPACE_HALF_SIZE`. -/
def seqnoSpaceHalfSize : Nat := seqnoSpaceSize / 2

/-- `BlockAckAgreement::GetDistance`, of sequence numbers of 12 bits. -/
def getDistance (seqNumber startingSeqNumber : Nat) : Nat :=
  (seqNumber + seqnoSpaceSize - startingSeqNumber) % seqnoSpaceSize

/-- `BlockAckWindow`. -/
structure BlockAckWindow where
  winStart : Nat
  window : List Bool
  head : Nat
deriving DecidableEq

/-- The number of a sequence number, from the start of the window on. -/
def numberOf (s sn : Nat) : Nat := s + getDistance sn (s % seqnoSpaceSize)

theorem numberOf_mod {s sn : Nat} (hsn : sn < seqnoSpaceSize) :
    numberOf s sn % seqnoSpaceSize = sn := by
  rw [numberOf, getDistance]
  simp only [seqnoSpaceSize] at hsn ⊢
  omega

namespace BlockAckWindow

def init (winStart winSize : Nat) : BlockAckWindow := ⟨winStart, List.replicate winSize false, 0⟩

variable (w : BlockAckWindow)

/-- `GetWinSize`. -/
def winSize : Nat := w.window.length

def reset (winStart : Nat) : BlockAckWindow := init winStart w.winSize

/-- `At`, as a value. -/
def at? (distance : Nat) : Option Bool :=
  if distance < w.winSize then w.window[(w.head + distance) % w.winSize]? else none

/-- `At`, as what is assigned to. -/
def setAt (distance : Nat) (bit : Bool) : Option BlockAckWindow :=
  if distance < w.winSize then
    some { w with window := w.window.set ((w.head + distance) % w.winSize) bit }
  else none

/-- A round of the loop of `Advance`. -/
def clearHead : BlockAckWindow :=
  { w with window := w.window.set w.head false, head := (w.head + 1) % w.winSize }

def advance (count : Nat) : BlockAckWindow :=
  if count ≥ w.winSize then w.reset ((w.winStart + count) % seqnoSpaceSize)
  else { clearHead^[count] w with winStart := (w.winStart + count) % seqnoSpaceSize }

/-! ## The bits from the start on -/

/-- The bits of the numbers from `winStart` on. -/
def contents : List Bool := Ring.contents w.window w.head

/-- The head is a cell, and the start a sequence number. -/
structure Valid : Prop where
  head_lt : w.head < w.winSize
  winStart_lt : w.winStart < seqnoSpaceSize

variable {w} {d count winStart size : Nat} {bit : Bool}

@[simp]
theorem length_contents : w.contents.length = w.winSize := Ring.length_contents

theorem at?_eq : w.at? d = w.contents[d]? := by
  rw [at?]
  split
  · next hd => exact (Ring.getElem?_contents hd).symm
  · next hd => exact (getElem?_eq_none (by simpa using hd)).symm

@[simp]
theorem winSize_init : (init winStart size).winSize = size := length_replicate

theorem contents_init : (init winStart size).contents = replicate size false :=
  Ring.contents_replicate

theorem valid_init (hsize : 0 < size) (hstart : winStart < seqnoSpaceSize) :
    (init winStart size).Valid :=
  ⟨by rwa [winSize_init], hstart⟩

variable (bit) in
theorem setAt_eq_some (hd : d < w.winSize) :
    ∃ w', w.setAt d bit = some w' ∧ w'.contents = w.contents.set d bit ∧ w'.winSize = w.winSize ∧
      w'.winStart = w.winStart ∧ w'.head = w.head :=
  ⟨_, if_pos hd, Ring.contents_set hd, length_set, rfl, rfl⟩

theorem iterate_clearHead (hhead : w.head < w.winSize) : ∀ count ≤ w.winSize,
    (clearHead^[count] w).contents = w.contents.drop count ++ replicate count false ∧
      (clearHead^[count] w).winSize = w.winSize ∧ (clearHead^[count] w).head < w.winSize
  | 0, _ => ⟨by simp, rfl, hhead⟩
  | count + 1, hcount => by
    obtain ⟨hcontents, hsize, hlt⟩ := iterate_clearHead hhead count (by omega)
    rw [Function.iterate_succ_apply']
    generalize clearHead^[count] w = v at hcontents hsize hlt
    have hshift : v.clearHead.contents = v.contents.tail ++ [false] :=
      Ring.contents_shift (hlt.trans_eq hsize.symm)
    refine ⟨?_, ?_, ?_⟩
    · have hne : w.contents.drop count ≠ [] := by
        rw [Ne, drop_eq_nil_iff, length_contents]
        omega
      rw [hshift, hcontents, tail_append_of_ne_nil hne, tail_drop, append_assoc, ← replicate_succ']
    · rw [← hsize]
      exact length_set
    · rw [← hsize]
      exact Nat.mod_lt _ (by omega)

theorem contents_advance (hw : w.Valid) (count : Nat) :
    (w.advance count).contents = w.contents.drop count ++ replicate (min count w.winSize) false ∧
      (w.advance count).winSize = w.winSize ∧
        (w.advance count).winStart = (w.winStart + count) % seqnoSpaceSize ∧
      (w.advance count).Valid := by
  have hstart : (w.winStart + count) % seqnoSpaceSize < seqnoSpaceSize := Nat.mod_lt _ (by decide)
  rw [advance]
  split
  · next hge =>
    refine ⟨?_, winSize_init, rfl, valid_init (Nat.zero_lt_of_lt hw.head_lt) hstart⟩
    rw [reset, contents_init, drop_of_length_le (by simpa using hge), nil_append,
      Nat.min_eq_right hge]
  · next hlt =>
    obtain ⟨hcontents, hsize, hhead⟩ := iterate_clearHead hw.head_lt count (by omega)
    refine ⟨?_, hsize, rfl, ⟨hhead.trans_eq hsize.symm, hstart⟩⟩
    rw [Nat.min_eq_left (by omega)]
    exact hcontents

theorem at?_advance (hw : w.Valid) (hd : d < w.winSize) :
    (w.advance count).at? d = if d + count < w.winSize then w.at? (d + count) else some false := by
  rw [at?_eq, at?_eq, (contents_advance hw count).1, getElem?_append, length_drop, length_contents,
    getElem?_drop]
  by_cases hlt : d + count < w.winSize
  · rw [if_pos hlt, if_pos (by omega), Nat.add_comm]
  · rw [if_neg hlt, if_neg (by omega), getElem?_replicate_of_lt (by omega)]

/-! ## Numbers without wrapping -/

variable {done : Set Nat} {s k n : Nat}

/-- The window from `s` on: the numbers before are done, and so are those of its bits, and no other.
-/
structure Shows (w : BlockAckWindow) (s : Nat) (done : Set Nat) : Prop where
  valid : w.Valid
  winStart : w.winStart = s % seqnoSpaceSize
  before : ∀ n < s, n ∈ done
  bits : ∀ d < w.winSize, w.at? d = some true ↔ s + d ∈ done
  beyond : ∀ n ∈ done, n < s + w.winSize

theorem shows_init (hsize : 0 < size) (hstart : winStart < seqnoSpaceSize) :
    Shows (init winStart size) winStart (Set.Iio winStart) := by
  refine ⟨valid_init hsize hstart, (Nat.mod_eq_of_lt hstart).symm, fun n hn => hn, fun d hd => ?_,
    fun n hn => ?_⟩
  · rw [at?_eq, contents_init, getElem?_replicate_of_lt (by simpa using hd)]
    refine iff_of_false (fun h => Bool.noConfusion (Option.some.inj h)) fun h => ?_
    have h : winStart + d < winStart := h
    omega
  · have hn : n < winStart := hn
    omega

theorem Shows.at?_eq (hw : Shows w s done) (hd : d < w.winSize) [Decidable (s + d ∈ done)] :
    w.at? d = some (decide (s + d ∈ done)) := by
  obtain ⟨bit, hbit⟩ : ∃ bit, w.at? d = some bit := by
    rw [BlockAckWindow.at?_eq, getElem?_eq_getElem (by rwa [length_contents])]
    exact ⟨_, rfl⟩
  have hiff := hw.bits d hd
  rw [hbit] at hiff ⊢
  cases bit with
  | true => rw [decide_eq_true (hiff.1 rfl)]
  | false => rw [decide_eq_false fun hmem => Bool.noConfusion (Option.some.inj (hiff.2 hmem))]

theorem Shows.advance (hw : Shows w s done) (k : Nat) :
    Shows (w.advance k) (s + k) (done ∪ Set.Iio (s + k)) := by
  obtain ⟨-, hsize, hstart, hvalid⟩ := contents_advance hw.valid k
  refine ⟨hvalid, ?_, fun n hn => .inr hn, fun d hd => ?_, fun n hn => ?_⟩
  · rw [hstart, hw.winStart, Nat.mod_add_mod]
  · rw [hsize] at hd
    rw [at?_advance hw.valid hd]
    by_cases hlt : d + k < w.winSize
    · rw [if_pos hlt, hw.bits _ hlt, Nat.add_right_comm, Nat.add_assoc]
      refine (or_iff_left fun h => ?_).symm
      have h : s + (d + k) < s + k := h
      omega
    · rw [if_neg hlt]
      refine iff_of_false (fun h => Bool.noConfusion (Option.some.inj h)) ?_
      rintro (h | h)
      · have := hw.beyond _ h
        omega
      · have h : s + k + d < s + k := h
        omega
  · rw [hsize]
    rcases hn with hn | hn
    · have := hw.beyond n hn
      omega
    · have hn : n < s + k := hn
      omega

theorem Shows.setAt (hw : Shows w s done) (hd : d < w.winSize) :
    ∃ w', w.setAt d true = some w' ∧ w'.winSize = w.winSize ∧ Shows w' s (insert (s + d) done) := by
  obtain ⟨w', hok, hcontents, hsize, hstart, hhead⟩ := setAt_eq_some true hd
  refine ⟨w', hok, hsize, ⟨?_, ?_⟩, hstart.trans hw.winStart, fun n hn => .inr (hw.before n hn),
    fun i hi => ?_, fun n hn => ?_⟩
  · rw [hhead, hsize]
    exact hw.valid.head_lt
  · rw [hstart]
    exact hw.valid.winStart_lt
  · rw [hsize] at hi
    rw [BlockAckWindow.at?_eq, hcontents, getElem?_set, length_contents, if_pos hd,
    Set.mem_insert_iff]
    by_cases hdi : d = i
    · rw [if_pos hdi, hdi]
      exact iff_of_true rfl (.inl rfl)
    · rw [if_neg hdi, ← BlockAckWindow.at?_eq, hw.bits i hi, or_iff_right]
      omega
  · rw [hsize]
    rcases hn with rfl | hn
    · omega
    · exact hw.beyond n hn

end BlockAckWindow

end OranNs3.Wifi
