import OranNs3.Lib.Keyed
import OranNs3.Lib.Run
import OranNs3.Wifi.BlockAckWindow

/-!
# The windows of a recipient of block acks

`RecipientBlockAckAgreement` (`src/src/wifi/model/recipient-block-ack-agreement.cc`): a scoreboard
of what was received, and a reordering buffer, a map in the order of the distances from the start of
its window. The start moves while MPDUs are stored; the distances of those that stay shrink by the
same number (`getDistance_forward`), so that the order is kept.

`Flush` moves the start of the buffer to that of the scoreboard, also where this is behind.
`recipient_of_run` is about runs in which it is not.
-/

namespace OranNs3.Wifi

open List Option

/-! ## Distances -/

section distance
variable {sn sn' start c : Nat}

@[simp]
theorem getDistance_self : getDistance start start = 0 := by
  rw [getDistance, Nat.add_sub_cancel_left, Nat.mod_self]

theorem add_getDistance (hsn : sn < seqnoSpaceSize) (hstart : start < seqnoSpaceSize) :
    (start + getDistance sn start) % seqnoSpaceSize = sn := by
  rw [getDistance]
  simp only [seqnoSpaceSize] at hsn hstart ⊢
  omega

theorem getDistance_inj (hsn : sn < seqnoSpaceSize) (hsn' : sn' < seqnoSpaceSize)
    (hstart : start < seqnoSpaceSize) (h : getDistance sn start = getDistance sn' start) :
    sn = sn' := by
  rw [← add_getDistance hsn hstart, h, add_getDistance hsn' hstart]

theorem getDistance_forward (hsn : sn < seqnoSpaceSize) (hstart : start < seqnoSpaceSize)
    (hc : c ≤ getDistance sn start) :
    getDistance sn ((start + c) % seqnoSpaceSize) = getDistance sn start - c := by
  rw [getDistance] at hc ⊢
  rw [getDistance]
  simp only [seqnoSpaceSize] at hsn hstart hc ⊢
  omega

theorem getDistance_start (hstart : start < seqnoSpaceSize) (hc : c < seqnoSpaceSize) :
    getDistance ((start + c) % seqnoSpaceSize) start = c := by
  rw [getDistance]
  simp only [seqnoSpaceSize] at hstart hc ⊢
  omega

end distance

/-! ## The agreement -/

/-- `RecipientBlockAckAgreement`; the MPDUs with their sequence numbers, those in the buffer in the
order of the map, and those that were passed up. -/
structure Recipient (α : Type) where
  scoreboard : BlockAckWindow
  winStartB : Nat
  winSizeB : Nat
  bufferedMpdus : List (Nat × α) := []
  forwarded : List (Nat × α) := []
deriving DecidableEq

namespace Recipient

variable {α : Type}

/-- The constructor. -/
def new (bufferSize startingSeq : Nat) : Recipient α :=
  { scoreboard := .init startingSeq bufferSize, winStartB := startingSeq, winSizeB := bufferSize }

variable (r : Recipient α)

/-- What `Compare` compares. -/
def distanceB (e : Nat × α) : Nat := getDistance e.1 r.winStartB

/-- The assertion that the MPDU at the end of the buffer is not old. -/
def noOldMpdu : Bool := r.bufferedMpdus.getLast?.all fun e => r.distanceB e < seqnoSpaceHalfSize

/-- The loop of `PassBufferedMpdusUntilFirstLost` over the rest of the buffer. -/
def passUntilFirstLost : List (Nat × α) → Recipient α → Recipient α
  | [], r => { r with bufferedMpdus := [] }
  | e :: l, r =>
    if e.1 = r.winStartB then
      passUntilFirstLost l
        { r with forwarded := r.forwarded ++ [e], winStartB := (r.winStartB + 1) % seqnoSpaceSize }
    else { r with bufferedMpdus := e :: l }

def passBufferedMpdusUntilFirstLost : Option (Recipient α) :=
  if r.noOldMpdu then some (passUntilFirstLost r.bufferedMpdus r) else none

def passBufferedMpdusWithSeqNumberLessThan (newWinStartB : Nat) : Option (Recipient α) :=
  let lower := fun e => decide (r.distanceB e < getDistance newWinStartB r.winStartB)
  if r.noOldMpdu then
    some { r with
      forwarded := r.forwarded ++ r.bufferedMpdus.takeWhile lower
      bufferedMpdus := r.bufferedMpdus.dropWhile lower
      winStartB := newWinStartB }
  else none

/-- An MPDU is inserted in the buffer, unless one of its sequence number is there. -/
def insertMpdu (e : Nat × α) : Recipient α :=
  if (Keyed.find? r.distanceB (r.distanceB e) r.bufferedMpdus).isSome then r
  else { r with bufferedMpdus := Keyed.insert r.distanceB e r.bufferedMpdus }

/-- `NotifyReceivedMpdu`, the scoreboard. -/
def scoreMpdu (scoreboard : BlockAckWindow) (mpduSeqNumber : Nat) : Option BlockAckWindow :=
  let distance := getDistance mpduSeqNumber scoreboard.winStart
  if distance < scoreboard.winSize then scoreboard.setAt distance true
  else if distance < seqnoSpaceHalfSize then
    (scoreboard.advance (distance - scoreboard.winSize + 1)).setAt (scoreboard.winSize - 1) true
  else some scoreboard

/-- The start behind an MPDU that is beyond the window, in `size_t`. -/
def newWinStartB (mpduSeqNumber : Nat) : Nat :=
  (mpduSeqNumber + 2 ^ 64 - r.winSizeB + 1 + seqnoSpaceSize) % 2 ^ 64 % seqnoSpaceSize

/-- `NotifyReceivedMpdu`, the reordering buffer. -/
def bufferMpdu (mpdu : Nat × α) : Option (Recipient α) :=
  if r.distanceB mpdu < r.winSizeB then (r.insertMpdu mpdu).passBufferedMpdusUntilFirstLost
  else if r.distanceB mpdu < seqnoSpaceHalfSize then
    ((r.insertMpdu mpdu).passBufferedMpdusWithSeqNumberLessThan (r.newWinStartB mpdu.1)).bind
      passBufferedMpdusUntilFirstLost
  else some r

def notifyReceivedMpdu (mpdu : Nat × α) : Option (Recipient α) :=
  (scoreMpdu r.scoreboard mpdu.1).bind fun scoreboard => { r with scoreboard }.bufferMpdu mpdu

def flush : Option (Recipient α) :=
  (r.passBufferedMpdusWithSeqNumberLessThan r.scoreboard.winStart).bind
    passBufferedMpdusUntilFirstLost

/-- `NotifyReceivedBar`, the scoreboard, with its assertion. -/
def scoreBar (scoreboard : BlockAckWindow) (startingSequenceNumber : Nat) : Option BlockAckWindow :=
  let distance := getDistance startingSequenceNumber scoreboard.winStart
  if 0 < distance ∧ distance < scoreboard.winSize then
    if (scoreboard.advance distance).winStart = startingSequenceNumber then some
      (scoreboard.advance distance) else none
  else if 0 < distance ∧
    distance < seqnoSpaceHalfSize then some (scoreboard.reset startingSequenceNumber)
  else some scoreboard

/-- `NotifyReceivedBar`, the reordering buffer. -/
def bufferBar (startingSequenceNumber : Nat) : Option (Recipient α) :=
  let distance := getDistance startingSequenceNumber r.winStartB
  if 0 < distance ∧ distance < seqnoSpaceHalfSize then
    (r.passBufferedMpdusWithSeqNumberLessThan startingSequenceNumber).bind
      passBufferedMpdusUntilFirstLost
  else some r

def notifyReceivedBar (startingSequenceNumber : Nat) : Option (Recipient α) :=
  (scoreBar r.scoreboard startingSequenceNumber).bind fun scoreboard =>
    { r with scoreboard }.bufferBar startingSequenceNumber

/-! ## What is passed up -/

variable {r r' r₁ : Recipient α} {e : Nat × α} {l : List (Nat × α)} {m c c' n : Nat}

/-- The buffer is in the order of the distances from the start of its window, which are below a
bound. -/
structure Held (r : Recipient α) (m : Nat) : Prop where
  winStartB_lt : r.winStartB < seqnoSpaceSize
  seq_lt : ∀ e ∈ r.bufferedMpdus, e.1 < seqnoSpaceSize
  ordered : Keyed.Ordered r.distanceB r.bufferedMpdus
  below : ∀ e ∈ r.bufferedMpdus, r.distanceB e < m

theorem Held.noOldMpdu (hr : Held r m) (hm : m ≤ seqnoSpaceHalfSize) : r.noOldMpdu = true := by
  rw [Recipient.noOldMpdu, Option.all_eq_true]
  intro e he
  exact decide_eq_true ((hr.below e (mem_of_getLast? he)).trans_le hm)

/-- The start of the buffer's window moves by `c`; the MPDUs of a first part of the buffer are
passed up, which it leaves behind. -/
structure Passed (r r' : Recipient α) (c : Nat) : Prop where
  scoreboard : r'.scoreboard = r.scoreboard
  winSizeB : r'.winSizeB = r.winSizeB
  winStartB : r'.winStartB = (r.winStartB + c) % seqnoSpaceSize
  forwarded : ∃ pre, r.bufferedMpdus = pre ++ r'.bufferedMpdus ∧ r'.forwarded = r.forwarded ++ pre ∧
    ∀ e ∈ pre, r.distanceB e < c
  left : ∀ e ∈ r'.bufferedMpdus, c ≤ r.distanceB e

theorem Passed.mem (hp : Passed r r' c) (he : e ∈ r'.bufferedMpdus) : e ∈ r.bufferedMpdus := by
  obtain ⟨pre, hpre, -⟩ := hp.forwarded
  exact hpre ▸ mem_append_right pre he

theorem Passed.distanceB (hp : Passed r r' c) (hr : Held r m) (he : e ∈ r'.bufferedMpdus) :
    r'.distanceB e = r.distanceB e - c := by
  rw [Recipient.distanceB, hp.winStartB]
  exact getDistance_forward (hr.seq_lt e (hp.mem he)) hr.winStartB_lt (hp.left e he)

theorem Passed.held (hp : Passed r r' c) (hr : Held r (m + c)) : Held r' m := by
  obtain ⟨pre, hpre, -⟩ := hp.forwarded
  refine ⟨?_, fun e he => hr.seq_lt e (hp.mem he), ?_, fun e he => ?_⟩
  · rw [hp.winStartB]
    exact Nat.mod_lt _ (by decide)
  · have hordered := hr.ordered
    rw [hpre] at hordered
    refine Pairwise.imp_of_mem ?_ (pairwise_append.1 hordered).2.1
    intro a b ha hb hlt
    rw [hp.distanceB hr ha, hp.distanceB hr hb]
    have hle := hp.left a ha
    omega
  · rw [hp.distanceB hr he]
    have hlt := hr.below e (hp.mem he)
    have hle := hp.left e he
    omega

theorem Passed.trans (hp : Passed r r₁ c) (hr : Held r m) (hp' : Passed r₁ r' c') :
    Passed r r' (c + c') := by
  obtain ⟨pre, hpre, hforwarded, hlt⟩ := hp.forwarded
  obtain ⟨pre', hpre', hforwarded', hlt'⟩ := hp'.forwarded
  have hmem : ∀ e ∈ pre', e ∈ r₁.bufferedMpdus := fun e he => hpre' ▸ mem_append_left _ he
  refine ⟨hp'.scoreboard.trans hp.scoreboard, hp'.winSizeB.trans hp.winSizeB, ?_,
    ⟨pre ++ pre', ?_, ?_, fun e he => ?_⟩, fun e he => ?_⟩
  · rw [hp'.winStartB, hp.winStartB, Nat.mod_add_mod, add_assoc]
  · rw [hpre, hpre', append_assoc]
  · rw [hforwarded', hforwarded, append_assoc]
  · rcases mem_append.1 he with he | he
    · exact (hlt e he).trans_le (Nat.le_add_right c c')
    · have hdistance := hp.distanceB hr (hmem e he)
      have hlt := hlt' e he
      omega
  · have hdistance := hp.distanceB hr (hp'.mem he)
    have hle := hp'.left e he
    have hle' := hp.left e (hp'.mem he)
    omega

theorem passUntilFirstLost_spec : ∀ {l : List (Nat × α)} {r : Recipient α} {m : Nat},
    Held { r with bufferedMpdus := l } m → ∃ c,
      Passed { r with bufferedMpdus := l } (passUntilFirstLost l r) c ∧ c ≤ m ∧
        ∀ e ∈ (passUntilFirstLost l r).bufferedMpdus, c < r.distanceB e
  | [], r, m, hr =>
    ⟨0, ⟨rfl, rfl, (Nat.mod_eq_of_lt hr.winStartB_lt).symm, ⟨[], rfl, (append_nil _).symm, nofun⟩,
      nofun⟩, Nat.zero_le m, nofun⟩
  | e :: l, r, m, hr => by
    have hfirst := (pairwise_cons.1 hr.ordered).1
    have he := hr.seq_lt e mem_cons_self
    rw [passUntilFirstLost]
    split
    · next heq =>
      have hzero : r.distanceB e = 0 := by rw [Recipient.distanceB, heq, getDistance_self]
      have hpos : ∀ a ∈ l, 0 < r.distanceB a := fun a ha => hzero ▸ hfirst a ha
      have hm : r.distanceB e < m := hr.below e mem_cons_self
      have hone : Passed { r with bufferedMpdus := e :: l }
          { r with forwarded := r.forwarded ++ [e], winStartB := (r.winStartB +
          1) % seqnoSpaceSize, bufferedMpdus := l } 1 :=
        ⟨rfl, rfl, rfl, ⟨[e], rfl, rfl, fun a ha => by
          rw [mem_singleton.1 ha]
          exact hzero.trans_lt Nat.one_pos⟩, hpos⟩
      have hheld := hone.held (m := m - 1) (by rwa [Nat.sub_add_cancel (by omega)])
      obtain ⟨c, hp, hc, hleft⟩ := passUntilFirstLost_spec (l := l)
        (r := { r with
        forwarded := r.forwarded ++ [e], winStartB := (r.winStartB + 1) % seqnoSpaceSize }) hheld
      refine ⟨1 + c, hone.trans hr hp, by omega, fun a ha => ?_⟩
      have hlt := hleft a ha
      have hdistance : getDistance a.1 ((r.winStartB + 1) % seqnoSpaceSize) = r.distanceB a - 1 :=
        hone.distanceB hr (hp.mem ha)
      rw [Recipient.distanceB, hdistance] at hlt
      omega
    · next hne =>
      have hpos : 0 < r.distanceB e := Nat.pos_of_ne_zero fun hzero => hne <|
        getDistance_inj he hr.winStartB_lt hr.winStartB_lt (hzero.trans getDistance_self.symm)
      have hall : ∀ a ∈ e :: l, 0 < r.distanceB a :=
        forall_mem_cons.2 ⟨hpos, fun a ha => hpos.trans (hfirst a ha)⟩
      exact ⟨0, ⟨rfl, rfl, (Nat.mod_eq_of_lt hr.winStartB_lt).symm,
        ⟨[], rfl, (append_nil _).symm, nofun⟩, fun a _ => Nat.zero_le _⟩, Nat.zero_le m, hall⟩

theorem passLessThan_spec {sn : Nat} (hr : Held r m) (hm : m ≤ seqnoSpaceHalfSize)
    (hsn : sn < seqnoSpaceSize) : ∃ r', r.passBufferedMpdusWithSeqNumberLessThan sn = some r' ∧
    Passed r r' (getDistance sn r.winStartB) := by
  rw [passBufferedMpdusWithSeqNumberLessThan, hr.noOldMpdu hm]
  refine ⟨_, rfl, rfl, rfl, (add_getDistance hsn hr.winStartB_lt).symm,
    ⟨_, (takeWhile_append_dropWhile).symm, rfl, fun e he => ?_⟩, fun e he => ?_⟩
  · simpa using mem_takeWhile_imp he
  · exact hr.ordered.le_of_mem_dropWhile he

/-- The buffer between the calls: the MPDUs are strictly above the start of the window, and inside
of it. -/
structure Ready (r : Recipient α) : Prop where
  held : Held r r.winSizeB
  above : ∀ e ∈ r.bufferedMpdus, 0 < r.distanceB e

/-- A call moves the start of the buffer's window forward, and passes MPDUs up in the order of their
numbers, which it leaves behind. -/
structure Moved (r r' : Recipient α) : Prop where
  ready : Ready r'
  winSizeB : r'.winSizeB = r.winSizeB
  scoreboard : r'.scoreboard = r.scoreboard
  forward : getDistance r'.winStartB r.winStartB ≤ seqnoSpaceHalfSize
  forwarded : ∃ new, r'.forwarded = r.forwarded ++ new ∧ Keyed.Ordered r.distanceB new ∧
    (∀ e ∈ new, e.1 < seqnoSpaceSize) ∧ ∀ e ∈ new,
    r.distanceB e < getDistance r'.winStartB r.winStartB

theorem Ready.moved (hr : Ready r) : Moved r r :=
  ⟨hr, rfl, rfl, getDistance_self.trans_le (Nat.zero_le _), [], (append_nil _).symm, .nil, nofun,
    nofun⟩

theorem moved_of_pass {sn : Nat} (hr : Held r m) (hm : m ≤ seqnoSpaceHalfSize)
    (hsn : sn < seqnoSpaceSize) (hle : getDistance sn r.winStartB ≤ seqnoSpaceHalfSize)
    (hsize : m ≤ r.winSizeB + getDistance sn r.winStartB) :
    ∃ r', (r.passBufferedMpdusWithSeqNumberLessThan sn).bind passBufferedMpdusUntilFirstLost =
      some r' ∧ Moved r r' := by
  obtain ⟨r₁, hok, hp⟩ := passLessThan_spec hr hm hsn
  rw [hok, bind_some]
  generalize getDistance sn r.winStartB = d at hp hle hsize
  have hr₁ : Held r₁ (m - d) := hp.held ⟨hr.winStartB_lt, hr.seq_lt, hr.ordered, fun e he =>
    (hr.below e he).trans_le (by omega)⟩
  obtain ⟨c, hp', hc, hleft⟩ := passUntilFirstLost_spec (l := r₁.bufferedMpdus) (r := r₁) hr₁
  have hpassed := hp.trans hr hp'
  refine ⟨_, if_pos (hr₁.noOldMpdu ((Nat.sub_le m d).trans hm)), ?_⟩
  have hforward : getDistance (passUntilFirstLost r₁.bufferedMpdus r₁).winStartB r.winStartB =
    d + c := by
    rw [hpassed.winStartB]
    refine getDistance_start hr.winStartB_lt ?_
    simp only [seqnoSpaceHalfSize, seqnoSpaceSize] at hm hle ⊢
    omega
  obtain ⟨new, hnew, hforwarded, hlt⟩ := hpassed.forwarded
  have hordered := hr.ordered
  rw [hnew] at hordered
  refine ⟨⟨?_, fun e he => ?_⟩, hpassed.winSizeB, hpassed.scoreboard, by omega, new, hforwarded,
    (pairwise_append.1 hordered).1, fun e he => hr.seq_lt e (hnew ▸ mem_append_left _ he),
    fun e he => ?_⟩
  · rw [hpassed.winSizeB]
    refine hpassed.held ⟨hr.winStartB_lt, hr.seq_lt, hr.ordered, fun e he => ?_⟩
    have hlt := hr.below e he
    omega
  · rw [hp'.distanceB hr₁ he]
    exact Nat.sub_pos_of_lt (hleft e he)
  · rw [hforward]
    exact hlt e he

/-! ## The calls -/

theorem insertMpdu_eq (r : Recipient α) (e : Nat × α) :
    r.insertMpdu e = { r with bufferedMpdus := (r.insertMpdu e).bufferedMpdus } := by
  rw [insertMpdu]
  split <;> rfl

theorem Held.insertMpdu (hr : Held r m) (he : e.1 < seqnoSpaceSize) (hlt : r.distanceB e < n)
    (hm : m ≤ n) : Held (r.insertMpdu e) n := by
  rw [Recipient.insertMpdu]
  split
  · exact ⟨hr.winStartB_lt, hr.seq_lt, hr.ordered, fun a ha => (hr.below a ha).trans_le hm⟩
  · next hnone =>
    have hnew : r.distanceB e ∉ r.bufferedMpdus.map r.distanceB := by
      rwa [← Keyed.find?_eq_none, ← not_isSome_iff_eq_none]
    have hmem : ∀ a ∈ Keyed.insert r.distanceB e r.bufferedMpdus, a = e ∨ a ∈ r.bufferedMpdus :=
      fun a ha =>
      mem_cons.1 ((Keyed.insert_perm hnew).mem_iff.1 ha)
    refine ⟨hr.winStartB_lt, fun a ha => ?_, hr.ordered.insert, fun a ha => ?_⟩
    · rcases hmem a ha with rfl | ha
      · exact he
      · exact hr.seq_lt a ha
    · rcases hmem a ha with rfl | ha
      · exact hlt
      · exact (hr.below a ha).trans_le hm

theorem Moved.of_insertMpdu (hr : Moved (r.insertMpdu e) r') : Moved r r' := by
  rw [insertMpdu_eq] at hr
  exact ⟨hr.ready, hr.winSizeB, hr.scoreboard, hr.forward, hr.forwarded⟩

theorem passLessThan_self (r : Recipient α) :
    r.passBufferedMpdusUntilFirstLost = (r.passBufferedMpdusWithSeqNumberLessThan r.winStartB).bind
        passBufferedMpdusUntilFirstLost := by
  rw [passBufferedMpdusWithSeqNumberLessThan]
  simp only [getDistance_self, Nat.not_lt_zero, decide_false]
  cases hold : r.noOldMpdu with
  | false => rw [passBufferedMpdusUntilFirstLost, hold]; rfl
  | true =>
    have hbuffer : ∀ l : List (Nat × α), l.takeWhile (fun _ => false) = [] ∧
      l.dropWhile (fun _ => false) = l := by
      intro l
      cases l <;> exact ⟨rfl, rfl⟩
    simp only [hbuffer, append_nil, if_true, bind_some]

theorem bufferMpdu_spec (hr : Ready r) (hsize : r.winSizeB ≤ seqnoSpaceHalfSize)
    (hpos : 0 < r.winSizeB) (he : e.1 < seqnoSpaceSize) : ∃ r', r.bufferMpdu e = some r' ∧
    Moved r r' := by
  have hstart := hr.held.winStartB_lt
  rw [bufferMpdu]
  split
  · next hin =>
    have hheld := hr.held.insertMpdu he hin le_rfl
    rw [passLessThan_self]
    obtain ⟨r', hok, hmoved⟩ := moved_of_pass hheld hsize hheld.winStartB_lt
      (getDistance_self.trans_le (Nat.zero_le _))
      (by rw [insertMpdu_eq]; exact Nat.le_add_right _ _)
    exact ⟨r', hok, hmoved.of_insertMpdu⟩
  · split
    · next hout hbeyond =>
      have hheld := hr.held.insertMpdu he (Nat.lt_succ_self _) (by omega)
      have hnew : r.newWinStartB e.1 < seqnoSpaceSize := Nat.mod_lt _ (by decide)
      have hdistance : getDistance (r.newWinStartB e.1) (r.insertMpdu e).winStartB =
        r.distanceB e + 1 - r.winSizeB := by
        rw [insertMpdu_eq]
        rw [Recipient.distanceB, getDistance] at hout hbeyond ⊢
        rw [getDistance, newWinStartB]
        simp only [seqnoSpaceHalfSize, seqnoSpaceSize] at hout hbeyond hstart he hsize ⊢
        omega
      obtain ⟨r', hok, hmoved⟩ := moved_of_pass hheld hbeyond hnew (by omega) (by
        rw [hdistance, insertMpdu_eq]
        dsimp only
        omega)
      exact ⟨r', hok, hmoved.of_insertMpdu⟩
    · exact ⟨r, rfl, hr.moved⟩

theorem bufferBar_spec {sn : Nat} (hr : Ready r) (hsize : r.winSizeB ≤ seqnoSpaceHalfSize)
    (hsn : sn < seqnoSpaceSize) : ∃ r', r.bufferBar sn = some r' ∧ Moved r r' := by
  rw [bufferBar]
  split
  · next hin => exact moved_of_pass hr.held hsize hsn hin.2.le (Nat.le_add_right _ _)
  · exact ⟨r, rfl, hr.moved⟩

theorem flush_spec (hr : Ready r) (hsize : r.winSizeB ≤ seqnoSpaceHalfSize)
    (hscore : r.scoreboard.winStart < seqnoSpaceSize)
    (hforward : getDistance r.scoreboard.winStart r.winStartB < seqnoSpaceHalfSize) :
    ∃ r', r.flush = some r' ∧ Moved r r' :=
  moved_of_pass hr.held hsize hscore hforward.le (Nat.le_add_right _ _)

/-! ## The scoreboard -/

/-- The scoreboard shows which of the numbers from `s` on have been received. -/
def Scores (w : BlockAckWindow) (s : Nat) (received : Set Nat) : Prop :=
  w.Shows s (received ∪ Set.Iio s)

/-- The number of an MPDU that is not old. -/
def arrived (s sn : Nat) : Set Nat := {n | n = numberOf s sn ∧ n < s + seqnoSpaceHalfSize}

variable {w w' : BlockAckWindow} {received : Set Nat} {s sn : Nat}

theorem Scores.start_eq (hw : Scores w s received) (hc : c < seqnoSpaceSize)
    (hstart : w'.winStart = (w.winStart + c) % seqnoSpaceSize) :
    getDistance w'.winStart w.winStart = c := by
  rw [hstart]
  exact getDistance_start hw.valid.winStart_lt hc

theorem Scores.advance (hw : Scores w s received) (k : Nat) :
    Scores (w.advance k) (s + k) received := by
  have hshows := BlockAckWindow.Shows.advance hw k
  rwa [Set.union_assoc, Set.union_eq_right.2 (Set.Iio_subset_Iio (Nat.le_add_right s k))] at hshows

theorem Scores.setAt {d : Nat} (hw : Scores w s received) (hd : d < w.winSize) :
    ∃ w', w.setAt d true = some w' ∧ w'.winSize = w.winSize ∧ w'.winStart = w.winStart ∧
      Scores w' s (insert (s + d) received) := by
  obtain ⟨w', hok, hsize, hshows⟩ := BlockAckWindow.Shows.setAt hw hd
  refine ⟨w', hok, hsize, hshows.winStart.trans hw.winStart.symm, ?_⟩
  rwa [Scores, Set.insert_union]

variable (sn) in
theorem scoreMpdu_spec (hw : Scores w s received) (hsize : w.winSize ≤ seqnoSpaceHalfSize)
    (hpos : 0 < w.winSize) : ∃ w', scoreMpdu w sn = some w' ∧ w'.winSize = w.winSize ∧
      Scores w' (s + getDistance w'.winStart w.winStart) (received ∪ arrived s sn) := by
  have hnumber : numberOf s sn = s + getDistance sn w.winStart := by rw [numberOf, hw.winStart]
  rw [scoreMpdu]
  have harrived : getDistance sn w.winStart < seqnoSpaceHalfSize →
      insert (s + getDistance sn w.winStart) received = received ∪ arrived s sn := fun hd => by
    have hset : arrived s sn = {s + getDistance sn w.winStart} := by
      ext n
      rw [arrived, Set.mem_ofPred_eq, Set.mem_singleton_iff, hnumber]
      omega
    rw [hset, Set.union_singleton]
  generalize getDistance sn w.winStart = d at hnumber harrived
  split
  · next hin =>
    obtain ⟨w', hok, hsize', hstart, hscores⟩ := hw.setAt hin
    refine ⟨w', hok, hsize', ?_⟩
    rw [hstart, getDistance_self, Nat.add_zero, ← harrived (hin.trans_le hsize)]
    exact hscores
  · split
    · next hout hbeyond =>
      obtain ⟨-, hsize', hstart', -⟩ := BlockAckWindow.contents_advance hw.valid (d - w.winSize + 1)
      obtain ⟨w', hok, hsize'', hstart, hscores⟩ := (hw.advance (d - w.winSize + 1)).setAt
        (d := w.winSize - 1) (by rw [hsize']; omega)
      have hmoved := hw.start_eq (c := d - w.winSize + 1) (by
        simp only [seqnoSpaceHalfSize, seqnoSpaceSize] at hbeyond ⊢
        omega) (hstart.trans hstart')
      refine ⟨w', hok, hsize''.trans hsize', ?_⟩
      rw [hmoved, ← harrived hbeyond]
      rwa [add_assoc, show d - w.winSize + 1 + (w.winSize - 1) = d by omega] at hscores
    · next hold =>
      have hset : arrived s sn = ∅ := by
        ext n
        rw [arrived, Set.mem_ofPred_eq, hnumber]
        refine iff_of_false ?_ (Set.notMem_empty n)
        omega
      rw [hset, Set.union_empty]
      exact ⟨w, rfl, rfl, by rwa [getDistance_self]⟩

theorem scoreBar_spec (hw : Scores w s received) (hsn : sn < seqnoSpaceSize) :
    ∃ w', scoreBar w sn = some w' ∧ w'.winSize = w.winSize ∧
      Scores w' (s + getDistance w'.winStart w.winStart) received := by
  have hstart := hw.valid.winStart_lt
  obtain ⟨-, hsize, hadvance, -⟩ :=
    BlockAckWindow.contents_advance hw.valid (getDistance sn w.winStart)
  rw [add_getDistance hsn hstart] at hadvance
  have hscores := hw.advance (getDistance sn w.winStart)
  rw [scoreBar]
  split
  · exact ⟨_, rfl, hsize, by rwa [hadvance]⟩
  · split
    · next hin hbeyond =>
      have hreset : w.advance (getDistance sn w.winStart) = w.reset sn := by
        rw [BlockAckWindow.advance, if_pos (by omega), add_getDistance hsn hstart]
      rw [← hreset]
      exact ⟨_, rfl, hsize, by rwa [hadvance]⟩
    · exact ⟨w, rfl, rfl, by rwa [getDistance_self]⟩

/-! ## Runs -/

/-- What the agreement is notified of. -/
inductive Call (α : Type) where
  | mpdu (seqNumber : Fin seqnoSpaceSize) (body : α)
  | bar (startingSequenceNumber : Fin seqnoSpaceSize)
  | flush
deriving DecidableEq

/-- The code on a call. -/
def call (r : Recipient α) : Call α → Option (Recipient α)
  | .mpdu sn body => r.notifyReceivedMpdu (sn, body)
  | .bar sn => r.notifyReceivedBar sn
  | .flush => r.flush

/-- The numbers of the MPDUs that have been received, from the start `s` of the scoreboard on. -/
def receives (s : Nat) : Call α → Set Nat
  | .mpdu sn _ => arrived s sn
  | .bar _ => ∅
  | .flush => ∅

/-- The starts of the two windows without wrapping, the numbers that have been received, and those
of the MPDUs that have been passed up. -/
structure Numbered (α : Type) where
  agreement : Recipient α
  startB : Nat
  startR : Nat
  received : Set Nat
  passed : List Nat

/-- The agreement at its start. -/
def Numbered.initial (bufferSize startingSeq : Nat) : Numbered α :=
  ⟨.new bufferSize startingSeq, startingSeq, startingSeq, ∅, []⟩

variable (o : Numbered α)

/-- The agreement after a call, with the numbers that it moves the windows by and those that it
passes up. -/
def Numbered.after (a : Call α) (r' : Recipient α) : Numbered α where
  agreement := r'
  startB := o.startB + getDistance r'.winStartB o.agreement.winStartB
  startR := o.startR + getDistance r'.scoreboard.winStart o.agreement.scoreboard.winStart
  received := o.received ∪ receives o.startR a
  passed := o.passed ++
    (r'.forwarded.drop o.agreement.forwarded.length).map fun e => numberOf o.startB e.1

/-- The steps of the agreement. -/
def Numbered.Step (a : Call α) (o' : Numbered α) : Prop :=
  ∃ r', o.agreement.call a = some r' ∧ o' = o.after a r'

/-- The start of the scoreboard is not behind that of the buffer when the buffer is flushed. -/
def Numbered.Forward : Call α → Prop
  | .flush => getDistance o.agreement.scoreboard.winStart o.agreement.winStartB < seqnoSpaceHalfSize
  | _ => True

variable {a : Call α}

theorem call_spec (hr : Ready r) (hw : Scores r.scoreboard s received)
    (hsize : r.winSizeB ≤ seqnoSpaceHalfSize) (hpos : 0 < r.winSizeB)
    (heq : r.scoreboard.winSize = r.winSizeB)
    (ha : a = .flush → getDistance r.scoreboard.winStart r.winStartB < seqnoSpaceHalfSize) :
    ∃ r', r.call a = some r' ∧ Moved { r with scoreboard := r'.scoreboard } r' ∧
      r'.scoreboard.winSize = r.scoreboard.winSize ∧
      Scores r'.scoreboard (s + getDistance r'.scoreboard.winStart r.scoreboard.winStart)
        (received ∪ receives s a) := by
  have hready : ∀ w, Ready { r with scoreboard := w } := fun w =>
    ⟨⟨hr.held.winStartB_lt, hr.held.seq_lt, hr.held.ordered, hr.held.below⟩, hr.above⟩
  cases a with
  | mpdu sn body =>
    obtain ⟨w, hscore, hwsize, hscores⟩ :=
      scoreMpdu_spec sn hw (heq.trans_le hsize) (hpos.trans_eq heq.symm)
    obtain ⟨r', hok, hmoved⟩ := bufferMpdu_spec (e := (↑sn, body)) (hready w) hsize hpos sn.isLt
    obtain rfl : r'.scoreboard = w := hmoved.scoreboard
    refine ⟨r', ?_, hmoved, hwsize, hscores⟩
    rw [call, notifyReceivedMpdu, hscore]
    exact hok
  | bar sn =>
    obtain ⟨w, hscore, hwsize, hscores⟩ := scoreBar_spec hw sn.isLt
    obtain ⟨r', hok, hmoved⟩ := bufferBar_spec (hready w) hsize sn.isLt
    obtain rfl : r'.scoreboard = w := hmoved.scoreboard
    refine ⟨r', ?_, hmoved, hwsize, ?_⟩
    · rw [call, notifyReceivedBar, hscore]
      exact hok
    · rwa [receives, Set.union_empty]
  | flush =>
    obtain ⟨r', hok, hmoved⟩ := flush_spec hr hsize hw.valid.winStart_lt (ha rfl)
    have hscoreboard : r'.scoreboard = r.scoreboard := hmoved.scoreboard
    refine ⟨r', hok, hscoreboard ▸ hmoved, by rw [hscoreboard], ?_⟩
    rwa [receives, Set.union_empty, hscoreboard, getDistance_self]

/-- What holds between the calls. -/
structure Numbered.Good (size : Nat) (o : Numbered α) : Prop where
  ready : Ready o.agreement
  winSizeB : o.agreement.winSizeB = size
  winSize : o.agreement.scoreboard.winSize = size
  scores : Scores o.agreement.scoreboard o.startR o.received
  winStartB : o.agreement.winStartB = o.startB % seqnoSpaceSize
  ascending : o.passed.Pairwise (· < ·)
  below : ∀ n ∈ o.passed, n < o.startB
  passed : o.agreement.forwarded.map Prod.fst = o.passed.map (· % seqnoSpaceSize)

theorem Numbered.good_initial {size startingSeq : Nat} (hpos : 0 < size)
    (hstart : startingSeq < seqnoSpaceSize) :
    (Numbered.initial (α := α) size startingSeq).Good size := by
  have hmod := (Nat.mod_eq_of_lt hstart).symm
  refine ⟨⟨⟨hstart, nofun, .nil, nofun⟩, nofun⟩, rfl, BlockAckWindow.winSize_init, ?_, hmod, .nil,
    nofun, rfl⟩
  rw [Scores]
  show BlockAckWindow.Shows _ _ (∅ ∪ Set.Iio startingSeq)
  rw [Set.empty_union]
  exact BlockAckWindow.shows_init hpos hstart

/-- What a call keeps, and how far it moves the start of the buffer's window. -/
theorem Numbered.Good.step {size : Nat} {o : Numbered α} (ho : o.Good size) (hpos : 0 < size)
    (hsize : size ≤ seqnoSpaceHalfSize) (ha : o.Forward a) : ∃ r', o.agreement.call a = some r' ∧
      getDistance r'.winStartB o.agreement.winStartB ≤ seqnoSpaceHalfSize ∧
        (o.after a r').Good size := by
  have hflush : a = .flush → getDistance o.agreement.scoreboard.winStart o.agreement.winStartB <
    seqnoSpaceHalfSize := by
    rintro rfl
    exact ha
  obtain ⟨r', hok, hmoved, hwsize, hscores⟩ := call_spec ho.ready ho.scores
    (ho.winSizeB.trans_le hsize) (hpos.trans_eq ho.winSizeB.symm)
    (ho.winSize.trans ho.winSizeB.symm) hflush
  refine ⟨r', hok, hmoved.forward, ?_⟩
  obtain ⟨new, hnew, hordered, hseq, hlt⟩ := hmoved.forwarded
  have hnew : r'.forwarded = o.agreement.forwarded ++ new := hnew
  have hpassed : (o.after a r').passed = o.passed ++ new.map fun e => numberOf o.startB e.1 := by
    rw [Numbered.after, hnew, drop_left]
  have hnumber : ∀ e : Nat × α, numberOf o.startB e.1 = o.startB + o.agreement.distanceB e :=
    fun e => by
    rw [numberOf, Recipient.distanceB, ho.winStartB]
  have hpass : ∀ n ∈ new.map fun e => numberOf o.startB e.1, o.startB ≤ n ∧
    n < (o.after a r').startB := fun n hn => by
    obtain ⟨e, he, rfl⟩ := mem_map.1 hn
    have hbelow : o.agreement.distanceB e < getDistance r'.winStartB o.agreement.winStartB :=
      hlt e he
    rw [hnumber, Numbered.after]
    exact ⟨Nat.le_add_right _ _, Nat.add_lt_add_left hbelow _⟩
  have hstart := ho.ready.held.winStartB_lt
  refine ⟨hmoved.ready, hmoved.winSizeB.trans ho.winSizeB, hwsize.trans ho.winSize, hscores, ?_, ?_,
    fun n hn => ?_, ?_⟩
  · rw [Numbered.after, ← Nat.mod_add_mod, ← ho.winStartB,
      add_getDistance hmoved.ready.held.winStartB_lt hstart]
  · rw [hpassed]
    refine pairwise_append.2 ⟨ho.ascending, pairwise_map.2 (hordered.imp fun {a b} hab => ?_),
    fun n hn m hm => ?_⟩
    · rw [hnumber, hnumber]
      exact Nat.add_lt_add_left hab _
    · exact (ho.below n hn).trans_le (hpass m hm).1
  · rw [hpassed] at hn
    rcases mem_append.1 hn with hn | hn
    · exact (ho.below n hn).trans_le (Nat.le_add_right _ _)
    · exact (hpass n hn).2
  · rw [hpassed, map_append, ← ho.passed, List.map_map]
    show r'.forwarded.map Prod.fst = _
    rw [hnew, map_append]
    refine congrArg _ (map_congr_left fun e he => ?_)
    exact (numberOf_mod (hseq e he)).symm

open Classical in
/-- In a run that flushes the buffer only while the start of the scoreboard is not behind: the
buffer is in the order of the distances from the start of its window, and strictly above it; MPDUs
are passed up in the order of their numbers, none of them twice; the bits of the scoreboard are
those of the numbers that have been received. The next such call returns and moves the window
forward. -/
theorem recipient_of_run {bufferSize startingSeq : Nat} {o : Numbered α} (hpos : 0 < bufferSize)
    (hsize : bufferSize ≤ seqnoSpaceHalfSize) (hstart : startingSeq < seqnoSpaceSize)
    (hrun : Lts.Run Numbered.Step Numbered.Forward (Numbered.initial bufferSize startingSeq) o) :
    Keyed.Ordered o.agreement.distanceB o.agreement.bufferedMpdus ∧
      (∀ e ∈ o.agreement.bufferedMpdus, 0 < o.agreement.distanceB e ∧
        o.agreement.distanceB e < bufferSize) ∧
      o.passed.Pairwise (· < ·) ∧ (∀ n ∈ o.passed, n < o.startB) ∧
      o.agreement.forwarded.map Prod.fst = o.passed.map (· % seqnoSpaceSize) ∧
      o.agreement.winStartB = o.startB % seqnoSpaceSize ∧
      o.agreement.scoreboard.winStart = o.startR % seqnoSpaceSize ∧
      (∀ i < bufferSize, o.agreement.scoreboard.at? i = some (decide (o.startR + i ∈ o.received))) ∧
      ∀ a, o.Forward a → (∃ o', Numbered.Step o a o') ∧ ∀ o', Numbered.Step o a o' →
        getDistance o'.agreement.winStartB o.agreement.winStartB ≤ seqnoSpaceHalfSize := by
  have ho : o.Good bufferSize := by
    refine Lts.Run.invariant (I := Numbered.Good bufferSize) (fun h ha hstep => ?_)
      (Numbered.good_initial hpos hstart) hrun
    obtain ⟨r₁, hok₁, rfl⟩ := hstep
    obtain ⟨r', hok, -, hgood⟩ := h.step hpos hsize ha
    obtain rfl := some.inj (hok.symm.trans hok₁)
    exact hgood
  refine ⟨ho.ready.held.ordered, fun e he =>
    ⟨ho.ready.above e he, (ho.ready.held.below e he).trans_eq ho.winSizeB⟩,
    ho.ascending, ho.below, ho.passed, ho.winStartB, ho.scores.winStart, fun i hi => ?_, fun a ha =>
      ?_⟩
  · rw [BlockAckWindow.Shows.at?_eq ho.scores (hi.trans_eq ho.winSize.symm)]
    have hiff : o.startR + i ∈ o.received ∪ Set.Iio o.startR ↔ o.startR + i ∈ o.received := by
      refine or_iff_left fun h => ?_
      have h : o.startR + i < o.startR := h
      omega
    simp only [hiff]
  · obtain ⟨r', hok, hforward, -⟩ := ho.step hpos hsize ha
    refine ⟨⟨_, r', hok, rfl⟩, fun o' hstep => ?_⟩
    obtain ⟨r₁, hok₁, rfl⟩ := hstep
    obtain rfl := some.inj (hok.symm.trans hok₁)
    exact hforward

theorem run_after (ok : Numbered α → Call α → Prop) {o₀ o : Numbered α}
    (hrun : Lts.Run Numbered.Step ok o₀ o) (ha : ok o a) (hok : o.agreement.call a = some r') :
    Lts.Run Numbered.Step ok o₀ (o.after a r') := hrun.snoc ha ⟨r', hok, rfl⟩

/-- From 4095 on, MPDU 0 waits for 4095, and 3 waits for 1 until the originator goes on at 2: the
scoreboard has 3. -/
theorem recipient_of_run_example : ∃ o : Numbered Unit, o.agreement.bufferedMpdus = [(3, ())] ∧
    o.agreement.forwarded = [(4095, ()), (0, ())] ∧ o.passed.Pairwise (· < ·) ∧
    o.agreement.scoreboard.winStart = o.startR % seqnoSpaceSize := by
  have h₀ : (new (α := Unit) 4 4095).call (.mpdu ⟨0, by decide⟩ ()) =
      some ⟨⟨4095, [false, true, false, false], 0⟩, 4095, 4, [(0, ())], []⟩ := by decide
  have h₁ : (⟨⟨4095, [false, true, false, false], 0⟩, 4095, 4, [(0, ())], []⟩ : Recipient Unit).call
      (.mpdu ⟨4095, by decide⟩ ()) =
      some ⟨⟨4095, [true, true, false, false], 0⟩, 1, 4, [], [(4095, ()), (0, ())]⟩ := by decide
  have h₂ : (⟨⟨4095, [true, true, false, false], 0⟩, 1, 4, [], [(4095, ()), (0, ())]⟩ :
      Recipient Unit).call (.mpdu ⟨3, by decide⟩ ()) =
      some ⟨⟨0, [true, true, false, false], 1⟩, 1, 4, [(3, ())], [(4095, ()), (0, ())]⟩ := by decide
  have h₃ : (⟨⟨0, [true, true, false, false], 1⟩, 1, 4, [(3, ())], [(4095, ()), (0, ())]⟩ :
      Recipient Unit).call (.bar ⟨2, by decide⟩) = some ⟨⟨2, [true, false, false, false], 3⟩, 2, 4,
      [(3, ())], [(4095, ()), (0, ())]⟩ := by decide
  have hrun := run_after Numbered.Forward (run_after _ (run_after _ (run_after _ (a := .mpdu _ _)
    (Lts.Run.refl (Numbered.initial 4 4095)) trivial h₀) (a := .mpdu _ _) trivial h₁)
    (a := .mpdu _ _) trivial h₂)
    (a := .bar _) trivial h₃
  have hall := recipient_of_run (by decide) (by decide) (by decide) hrun
  exact ⟨_, rfl, rfl, hall.2.2.1, hall.2.2.2.2.2.2.1⟩

/-- MPDU 0 has been passed up, and the buffer is flushed: its start goes back from 1 to 0. -/
theorem flush_goes_back : ¬ ∀ o : Numbered Unit,
    Lts.Run Numbered.Step Lts.anyStep (Numbered.initial 4 0) o → ∀ a o', Numbered.Step o a o' →
      getDistance o'.agreement.winStartB o.agreement.winStartB ≤ seqnoSpaceHalfSize := by
  intro hall
  have h₀ : (new (α := Unit) 4 0).call (.mpdu ⟨0, by decide⟩ ()) =
      some ⟨⟨0, [true, false, false, false], 0⟩, 1, 4, [], [(0, ())]⟩ := by decide
  have h₁ : (⟨⟨0, [true, false, false, false], 0⟩, 1, 4, [], [(0, ())]⟩ : Recipient Unit).call
      .flush = some ⟨⟨0, [true, false, false, false], 0⟩, 0, 4, [], [(0, ())]⟩ := by decide
  have hrun :=
    run_after Lts.anyStep (a := .mpdu _ _) (Lts.Run.refl (Numbered.initial 4 0)) trivial h₀
  exact absurd (hall _ hrun .flush _ ⟨_, h₁, rfl⟩) (by decide)

end Recipient

end OranNs3.Wifi
