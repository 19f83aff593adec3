import OranNs3.Phy.Pattern
import OranNs3.Lib.BitField

/-!
# Frame, subframe and slot numbers

An instant is a frame, a subframe and a slot, a packed word (`SfnSf::Encode`) or a number of slots
(`SfnSf::Normalize`), and two instants are compared by their fields. The fields in their ranges are
the digits of a number, so the comparison is that of the exact number of slots and of the packed
words (`lt_iff`, `lt_iff_encoding`). `Normalize` and `Add` compute in 32 bits: `normalizeUint` and
`addUint` of `OranNs3.Phy.Pattern` are what they compute, `normalize` and `add` the exact numbers,
which they compute as long as nothing wraps around.
-/

namespace OranNs3.Phy

open BitField

namespace SfnSf

/-! ## The operations, in the widths of the source -/

variable (n : SfnSf)

/-- The fields below the frame in their ranges. -/
structure InFrame : Prop where
  subframe : n.subframeNum < 10
  slot : n.slotNum < n.getSlotPerSubframe
  numerology : n.numerology ≤ 5

/-- The fields in their ranges. -/
structure Valid : Prop extends InFrame n where
  frame : n.frameNum < 16777215

instance (n : SfnSf) : Decidable n.Valid :=
  decidable_of_iff (n.subframeNum < 10 ∧ n.slotNum < n.getSlotPerSubframe ∧ n.numerology ≤ 5 ∧
    n.frameNum < 16777215)
    ⟨fun ⟨h1, h2, h3, h4⟩ => ⟨⟨h1, h2, h3⟩, h4⟩, fun ⟨⟨h1, h2, h3⟩, h4⟩ => ⟨h1, h2, h3, h4⟩⟩

/-- `SfnSf::GetEncoding`, unless an assertion fails. -/
def getEncoding : Option Nat :=
  if n.numerology < 7 ∧ n.slotNum < 64 ∧ n.subframeNum < 10 ∧ n.frameNum < 16777215 then
    some (n.frameNum <<< 24 ||| n.subframeNum <<< 16 ||| n.slotNum <<< 8 ||| n.numerology <<< 5)
  else none

/-- `SfnSf::GetEncodingWithSymStartRnti`, unless an assertion fails. -/
def getEncodingWithSymStartRnti (symStart rnti : Nat) : Option Nat :=
  if symStart < 14 ∧ n.numerology < 7 ∧ n.slotNum < 64 ∧ n.subframeNum < 10 ∧
      n.frameNum < 16777215 then
    some (rnti <<< 48 ||| n.frameNum <<< 24 ||| n.subframeNum <<< 16 ||| n.slotNum <<< 8 |||
      n.numerology <<< 5 ||| symStart)
  else none

/-- `SfnSf::Decode`, which is `FromEncoding` on a new object. -/
def decode (sfn : Nat) : SfnSf where
  frameNum := (sfn &&& 0x0000FFFFFF000000) >>> 24
  subframeNum := (sfn &&& 0x0000000000FF0000) >>> 16
  slotNum := (sfn &&& 0x000000000000FF00) >>> 8
  numerology := (sfn &&& 0x00000000000000E0) >>> 5

def getFutureSfnSf (slotN : Nat) : Option SfnSf := n.addUint slotN

/-- The comparison of the fields, one after the other. -/
def ltFields (n rhs : SfnSf) : Bool :=
  n.frameNum < rhs.frameNum ||
    (n.frameNum = rhs.frameNum && n.subframeNum < rhs.subframeNum) ||
    (n.frameNum = rhs.frameNum && n.subframeNum = rhs.subframeNum && n.slotNum < rhs.slotNum)

/-- `SfnSf::operator<`, unless the assertion fails. -/
def lt (n rhs : SfnSf) : Option Bool :=
  if rhs.numerology = n.numerology then some (n.ltFields rhs) else none

/-! ## The comparison -/

variable {a b : SfnSf} {n : Nat}

theorem ltFields_iff : ltFields a b = true ↔ a.frameNum < b.frameNum ∨ a.frameNum = b.frameNum ∧
    (a.subframeNum < b.subframeNum ∨ a.subframeNum = b.subframeNum ∧ a.slotNum < b.slotNum) := by
  simp only [ltFields, Bool.or_eq_true, Bool.and_eq_true, decide_eq_true_eq]
  tauto

theorem lt_eq_true (hnum : b.numerology = a.numerology) : lt a b = some true ↔
    ltFields a b = true := by
  rw [lt, if_pos hnum, Option.some.injEq]

theorem getSlotPerSubframe_eq (hnum : b.numerology = a.numerology) :
    b.getSlotPerSubframe = a.getSlotPerSubframe := by
  rw [getSlotPerSubframe, hnum, getSlotPerSubframe]

namespace InFrame

section
variable (h : a.InFrame)
include h

theorem slotPerSubframe_le : a.getSlotPerSubframe ≤ 32 := by
  rw [getSlotPerSubframe, shl, Nat.one_mul]
  exact Nat.pow_le_pow_right (by decide) h.numerology

theorem slot_lt : a.slotNum < 32 := Nat.lt_of_lt_of_le h.slot h.slotPerSubframe_le

theorem slotInFrame_lt :
    a.slotNum + a.subframeNum * a.getSlotPerSubframe < 10 * a.getSlotPerSubframe := by
  have hsub : (a.subframeNum + 1) * a.getSlotPerSubframe ≤ 10 * a.getSlotPerSubframe :=
    Nat.mul_le_mul_right _ h.subframe
  rw [Nat.succ_mul] at hsub
  have := h.slot
  omega

theorem subframes_lt : a.subframeNum * a.getSlotPerSubframe < 320 := by
  have := h.slotInFrame_lt
  have := h.slotPerSubframe_le
  omega

theorem add (n : Nat) : (a.add n).InFrame where
  subframe := Nat.mod_lt _ (by decide)
  slot := Nat.mod_lt _ (Nat.zero_lt_of_lt h.slot)
  numerology := h.numerology

end

end InFrame

theorem normalize_eq (a : SfnSf) : a.normalize = a.slotNum + a.subframeNum * a.getSlotPerSubframe +
    a.frameNum * (10 * a.getSlotPerSubframe) := by
  rw [normalize, getSubframesPerFrame, Nat.mul_assoc]

theorem lt_iff (ha : a.Valid) (hb : b.Valid) (hnum : b.numerology = a.numerology) :
    lt a b = some true ↔ a.normalize < b.normalize := by
  have hslot := hb.slot
  have hframe := hb.slotInFrame_lt
  rw [lt_eq_true hnum, ltFields_iff, normalize_eq a, normalize_eq b, getSlotPerSubframe_eq hnum]
  rw [getSlotPerSubframe_eq hnum] at hslot hframe
  rw [lt_digits _ _ ha.slotInFrame_lt hframe, lt_digits _ _ ha.slot hslot]

theorem InFrame.eq_of_normalize (ha : a.InFrame) (hb : b.InFrame)
    (hnum : b.numerology = a.numerology) (h : a.normalize = b.normalize) : a = b := by
  have hslot := hb.slot
  have hframe := hb.slotInFrame_lt
  have hspsf := getSlotPerSubframe_eq hnum
  rw [hspsf] at hslot hframe
  rw [normalize_eq, normalize_eq, hspsf] at h
  have h1 := lt_digits a.frameNum b.frameNum ha.slotInFrame_lt hframe
  have h2 := lt_digits b.frameNum a.frameNum hframe ha.slotInFrame_lt
  have h3 := lt_digits a.subframeNum b.subframeNum ha.slot hslot
  have h4 := lt_digits b.subframeNum a.subframeNum hslot ha.slot
  cases a
  cases b
  simp only [SfnSf.mk.injEq] at *
  omega

/-! ## The packed word -/

theorem Valid.getEncoding_eq (h : a.Valid) : a.getEncoding = some
    (a.numerology * 2 ^ 5 + a.slotNum * 2 ^ 8 + a.subframeNum * 2 ^ 16 + a.frameNum * 2 ^ 24) := by
  have hframe := h.frame
  have hsub := h.subframe
  have hslot := h.slot_lt
  have hnum := h.numerology
  rw [getEncoding, if_pos ⟨by omega, by omega, hsub, hframe⟩]
  simp only [shl]
  rw [or_eq_add 24 (by omega) (by omega : a.subframeNum * 2 ^ 16 < 2 ^ 24),
    or_eq_add 16 (by omega) (by omega : a.slotNum * 2 ^ 8 < 2 ^ 16),
    or_eq_add 8 (by omega) (by omega : a.numerology * 2 ^ 5 < 2 ^ 8)]
  congr 1
  omega

theorem lt_iff_encoding (ha : a.Valid) (hb : b.Valid) (hnum : b.numerology = a.numerology) :
    ∃ ea eb, a.getEncoding = some ea ∧ b.getEncoding = some eb ∧
      (lt a b = some true ↔ ea < eb) := by
  refine ⟨_, _, ha.getEncoding_eq, hb.getEncoding_eq, ?_⟩
  have hasub := ha.subframe
  have hbsub := hb.subframe
  have haslot := ha.slot_lt
  have hbslot := hb.slot_lt
  have hmu := ha.numerology
  rw [lt_eq_true hnum, ltFields_iff, hnum]
  omega

theorem Valid.decode_getEncoding (h : a.Valid) : ∃ ea, a.getEncoding = some ea ∧ decode ea = a := by
  refine ⟨_, h.getEncoding_eq, ?_⟩
  have hframe := h.frame
  have hsub := h.subframe
  have hslot := h.slot_lt
  have hnum := h.numerology
  have hfield : ∀ x k m : Nat, (x &&& ((2 ^ m - 1) <<< k)) >>> k = x / 2 ^ k % 2 ^ m :=
    fun x k m => by
    rw [and_mask, shr, Nat.mul_div_cancel _ (Nat.two_pow_pos k)]
  cases a with
  | mk frameNum subframeNum slotNum numerology =>
    simp only at hframe hsub hslot hnum ⊢
    rw [decode]
    congr 1
    · exact (hfield _ 24 24).trans (by omega)
    · exact (hfield _ 16 8).trans (by omega)
    · exact (hfield _ 8 8).trans (by omega)
    · exact (hfield _ 5 3).trans (by omega)

/-! ## The number of slots in 32 bits -/

/-- The product of `Normalize` does not fit in 32 bits. -/
def Wraps (n : SfnSf) : Prop := 2 ^ 32 ≤ n.frameNum * 10 * n.getSlotPerSubframe

instance (n : SfnSf) : Decidable n.Wraps := Nat.decLe _ _

theorem InFrame.frames_lt (h : a.InFrame) (hw : ¬ a.Wraps) : a.frameNum * 10 < 2 ^ 32 := by
  have hlt : a.frameNum * 10 * a.getSlotPerSubframe < 2 ^ 32 := not_le.1 hw
  have hle := Nat.mul_le_mul_left (a.frameNum * 10) (Nat.succ_le_of_lt (Nat.zero_lt_of_lt h.slot))
  omega

theorem InFrame.normalizeUint_eq (h : a.InFrame) (hframe : a.frameNum * 10 < 2 ^ 32) :
    a.normalizeUint = a.slotNum + a.subframeNum * a.getSlotPerSubframe +
      a.frameNum * 10 * a.getSlotPerSubframe % 2 ^ 32 := by
  have hsub := h.subframes_lt
  rw [normalizeUint, getSubframesPerFrame, Nat.mod_eq_of_lt hframe,
    Nat.mod_eq_of_lt (by omega : a.subframeNum * a.getSlotPerSubframe < 2 ^ 32)]

theorem InFrame.normalizeUint_of_not_wraps (h : a.InFrame) (hw : ¬ a.Wraps) :
    a.normalizeUint = a.normalize := by
  rw [h.normalizeUint_eq (h.frames_lt hw), normalize, getSubframesPerFrame,
    Nat.mod_eq_of_lt (not_le.1 hw)]

namespace Valid

theorem frames_lt (h : a.Valid) : a.frameNum * 10 * a.getSlotPerSubframe < 2 * 2 ^ 32 := by
  have hframe := h.frame
  have hle := Nat.mul_le_mul (by omega : a.frameNum * 10 ≤ 167772140) h.slotPerSubframe_le
  omega

theorem normalizeUint_eq (h : a.Valid) : a.normalizeUint = a.slotNum +
    a.subframeNum * a.getSlotPerSubframe + a.frameNum * 10 * a.getSlotPerSubframe % 2 ^ 32 := by
  have hframe := h.frame
  exact h.toInFrame.normalizeUint_eq (by omega)

theorem normalizeUint_of_wraps (h : a.Valid) (hw : a.Wraps) :
    a.normalizeUint + 2 ^ 32 = a.normalize := by
  have hlt := h.frames_lt
  have hle : 2 ^ 32 ≤ a.frameNum * 10 * a.getSlotPerSubframe := hw
  rw [h.normalizeUint_eq, normalize, getSubframesPerFrame]
  omega

theorem lt_of_wraps (ha : a.Valid) (hnum : b.numerology = a.numerology) (hwa : ¬ a.Wraps)
    (hwb : b.Wraps) : a.normalize < b.normalize := by
  have hle : 2 ^ 32 ≤ b.frameNum * 10 * b.getSlotPerSubframe := hwb
  have hlt : a.frameNum * 10 * a.getSlotPerSubframe < 2 ^ 32 := not_le.1 hwa
  rw [getSlotPerSubframe_eq hnum] at hle
  have hframe : a.frameNum < b.frameNum := by
    refine Nat.lt_of_not_le fun hle' => ?_
    have := Nat.mul_le_mul_right a.getSlotPerSubframe (Nat.mul_le_mul_right 10 hle')
    omega
  have hstep := Nat.mul_le_mul_right (10 * a.getSlotPerSubframe) hframe
  rw [Nat.succ_mul] at hstep
  have hslot := ha.slotInFrame_lt
  rw [normalize_eq, normalize_eq, getSlotPerSubframe_eq hnum]
  omega

end Valid

/-- The comparison is that of `Normalize` exactly if an instant that wraps is, from one that does
not, later by more than what the wrap takes away, or not later by more. -/
theorem lt_iff_normalizeUint (ha : a.Valid) (hb : b.Valid) (hnum : b.numerology = a.numerology) :
    (lt a b = some true ↔ a.normalizeUint < b.normalizeUint) ↔
      (a.Wraps → ¬ b.Wraps → b.normalize + 2 ^ 32 ≤ a.normalize) ∧
      (b.Wraps → ¬ a.Wraps → a.normalize + 2 ^ 32 < b.normalize) := by
  rw [lt_iff ha hb hnum]
  by_cases hwa : a.Wraps <;> by_cases hwb : b.Wraps
  · have h1 := ha.normalizeUint_of_wraps hwa
    have h2 := hb.normalizeUint_of_wraps hwb
    simp only [hwa, hwb, not_true_eq_false, false_implies, implies_true, and_self, iff_true]
    omega
  · have h1 := ha.normalizeUint_of_wraps hwa
    have h2 := hb.normalizeUint_of_not_wraps hwb
    have hlt := hb.lt_of_wraps hnum.symm hwb hwa
    simp only [hwa, hwb, not_false_eq_true, forall_const, false_implies, and_true]
    omega
  · have h1 := ha.normalizeUint_of_not_wraps hwa
    have h2 := hb.normalizeUint_of_wraps hwb
    have hlt := ha.lt_of_wraps hnum hwa hwb
    simp only [hwa, hwb, not_false_eq_true, forall_const, false_implies, true_and]
    omega
  · rw [ha.normalizeUint_of_not_wraps hwa, hb.normalizeUint_of_not_wraps hwb]
    simp [hwa, hwb]

/-! ## A number of slots later -/

theorem addUint_eq (hnum : a.numerology ≤ 5) (hfits : a.slotNum + n < 2 ^ 32)
    (hsub : a.subframeNum + (a.slotNum + n) / a.getSlotPerSubframe < 2 ^ 32)
    (hframe : (a.add n).frameNum < 2 ^ 32) : a.addUint n = some (a.add n) := by
  have hadd : (a.add n).frameNum = a.frameNum +
      (a.subframeNum + (a.slotNum + n) / a.getSlotPerSubframe) / getSubframesPerFrame := rfl
  rw [hadd] at hframe
  rw [addUint, if_pos hnum, Nat.mod_eq_of_lt hfits, Nat.mod_eq_of_lt hsub, Nat.mod_eq_of_lt hframe]
  rfl

theorem addUint_of_lt (hnum : a.numerology ≤ 5) (hframe : (a.add n).frameNum < 2 ^ 28)
    (hfits : a.slotNum + n < 2 ^ 32) : a.addUint n = some (a.add n) := by
  have hadd : (a.add n).frameNum = a.frameNum +
      (a.subframeNum + (a.slotNum + n) / a.getSlotPerSubframe) / 10 := rfl
  refine addUint_eq hnum hfits ?_ (hframe.trans (by decide))
  omega

/-- `Add` does not wrap where the product of the later instant does not. -/
theorem InFrame.addUint_of_not_wraps (h : a.InFrame) (hn : n < 2 ^ 31) (hw : ¬ (a.add n).Wraps) :
    a.addUint n = some (a.add n) := by
  have hslot := h.slot_lt
  have hsub := h.subframe
  have hle : (a.slotNum + n) / a.getSlotPerSubframe ≤ a.slotNum + n := Nat.div_le_self _ _
  have hframe := (h.add n).frames_lt hw
  exact addUint_eq h.numerology (by omega) (by omega) (by omega)

/-! ### The slots that follow -/

/-- The next slot is exact where this one does not wrap. -/
theorem InFrame.addUint_one (h : a.InFrame) (hw : ¬ a.Wraps) : a.addUint 1 = some (a.add 1) := by
  have hslot := h.slot_lt
  have hsub := h.subframe
  have hframe := h.frames_lt hw
  have hle : (a.slotNum + 1) / a.getSlotPerSubframe ≤ a.slotNum + 1 := Nat.div_le_self _ _
  have hadd : (a.add 1).frameNum = a.frameNum +
      (a.subframeNum + (a.slotNum + 1) / a.getSlotPerSubframe) / 10 := rfl
  exact addUint_eq h.numerology (by omega) (by omega) (by rw [hadd]; omega)

theorem InFrame.add_zero (h : a.InFrame) : a.add 0 = a :=
  (h.add 0).eq_of_normalize h rfl (normalize_add a 0)

theorem InFrame.add_add_one (h : a.InFrame) (k : Nat) : (a.add k).add 1 = a.add (k + 1) := by
  refine ((h.add k).add 1).eq_of_normalize (h.add (k + 1)) rfl ?_
  simp only [normalize_add]
  omega

theorem Valid.addUint_of_le (h : a.Valid) (hn : n < 2 ^ 32) (hwrap : 2 ^ 32 ≤ a.slotNum + n) :
    a.addUint n = some { a with slotNum := a.slotNum + n - 2 ^ 32 } := by
  have hframe := h.frame
  have hsub := h.subframe
  have hslot := h.slot
  have hmod : (a.slotNum + n) % 2 ^ 32 = a.slotNum + n - 2 ^ 32 := by
    rw [Nat.mod_eq_sub_mod hwrap, Nat.mod_eq_of_lt (by have := h.slotPerSubframe_le; omega)]
  have hdiv : (a.slotNum + n - 2 ^ 32) / a.getSlotPerSubframe = 0 := Nat.div_eq_of_lt (by omega)
  rw [addUint, if_pos h.numerology, hmod, hdiv, getSubframesPerFrame, Nat.add_zero,
    Nat.mod_eq_of_lt (by omega : a.subframeNum < 2 ^ 32), Nat.div_eq_of_lt hsub, Nat.add_zero,
    Nat.mod_eq_of_lt (by omega : a.frameNum < 2 ^ 32), Nat.mod_eq_of_lt hsub,
    Nat.mod_eq_of_lt (by omega : a.slotNum + n - 2 ^ 32 < a.getSlotPerSubframe)]

theorem Valid.add (h : a.Valid) (hframe : (a.add n).frameNum < 16777215) : (a.add n).Valid :=
  ⟨h.toInFrame.add n, hframe⟩

theorem Wraps.add (h : a.Wraps) : (a.add n).Wraps := by
  have hle : 2 ^ 32 ≤ a.frameNum * 10 * a.getSlotPerSubframe := h
  have hframe : a.frameNum ≤ (a.add n).frameNum := Nat.le_add_right _ _
  exact hle.trans (Nat.mul_le_mul_right _ (Nat.mul_le_mul_right 10 hframe))

/-- The number of slots of the later instant exceeds that of this one by the slots added exactly if
the sum of slots fits and the later instant does not wrap unless this one does. -/
theorem future_iff (h : a.Valid) (hn : n < 2 ^ 32) (hframe : (a.add n).frameNum < 16777215) :
    (∃ c, a.getFutureSfnSf n = some c ∧ c.normalizeUint = a.normalizeUint + n) ↔
      a.slotNum + n < 2 ^ 32 ∧ (a.Wraps ∨ ¬ (a.add n).Wraps) := by
  rw [getFutureSfnSf]
  rcases Nat.lt_or_ge (a.slotNum + n) (2 ^ 32) with hfits | hwrap
  · have hadd := h.add hframe
    have hnorm := normalize_add a n
    rw [addUint_of_lt h.numerology (hframe.trans (by decide)) hfits]
    simp only [Option.some.injEq, exists_eq_left', hfits, true_and]
    by_cases hwc : (a.add n).Wraps <;> by_cases hwa : a.Wraps
    · have h1 := hadd.normalizeUint_of_wraps hwc
      have h2 := h.normalizeUint_of_wraps hwa
      simp only [hwa, true_or, iff_true]
      omega
    · have h1 := hadd.normalizeUint_of_wraps hwc
      have h2 := h.normalizeUint_of_not_wraps hwa
      simp only [hwa, hwc, not_true_eq_false, or_self, iff_false]
      omega
    · exact absurd hwa.add hwc
    · rw [hadd.normalizeUint_of_not_wraps hwc, h.normalizeUint_of_not_wraps hwa, hnorm]
      simp [hwc]
  · rw [h.addUint_of_le hn hwrap]
    simp only [Option.some.injEq, exists_eq_left', Nat.not_lt.2 hwrap, false_and, iff_false]
    rw [h.normalizeUint_eq, normalizeUint, getSubframesPerFrame]
    have hframe := h.frame
    have hsub := h.subframes_lt
    have hspsf : ({ a with slotNum := a.slotNum + n - 2 ^ 32 } : SfnSf).getSlotPerSubframe =
      a.getSlotPerSubframe := getSlotPerSubframe_eq rfl
    simp only [hspsf]
    rw [Nat.mod_eq_of_lt (by omega : a.frameNum * 10 < 2 ^ 32),
      Nat.mod_eq_of_lt (by omega : a.subframeNum * a.getSlotPerSubframe < 2 ^ 32)]
    omega

/-! ## The four forms of an instant -/

/-- The comparison is that of the numbers of slots and that of the packed words, decoding undoes
encoding, and adding slots adds to the number of slots, where the frame stays in range. -/
structure Agree (a b : SfnSf) (n : Nat) : Prop where
  order : lt a b = some true ↔ a.normalizeUint < b.normalizeUint
  encoded : ∃ ea eb, a.getEncoding = some ea ∧ b.getEncoding = some eb ∧
    (lt a b = some true ↔ ea < eb)
  decoded : ∃ ea, a.getEncoding = some ea ∧ decode ea = a
  future : (a.add n).frameNum < 16777215 →
    ∃ c, a.getFutureSfnSf n = some c ∧ c.normalizeUint = a.normalizeUint + n

/-- What 32 bits allow: an instant whose frames wrap around is not compared with one whose frames do
not, unless the two are `2 ^ 32` slots apart, and no slots are added across a wrap. -/
structure Fits (a b : SfnSf) (n : Nat) : Prop where
  above : a.Wraps → ¬ b.Wraps → b.normalize + 2 ^ 32 ≤ a.normalize
  below : b.Wraps → ¬ a.Wraps → a.normalize + 2 ^ 32 < b.normalize
  added : (a.add n).frameNum < 16777215 →
    a.slotNum + n < 2 ^ 32 ∧ (a.Wraps ∨ ¬ (a.add n).Wraps)

/-- The four forms of an instant agree exactly if the number of slots fits in 32 bits. -/
theorem agree_iff_fits (a b : SfnSf) (n : Nat) (ha : a.Valid) (hb : b.Valid)
    (hnum : b.numerology = a.numerology) (hn : n < 2 ^ 32) : Agree a b n ↔ Fits a b n := by
  constructor
  · intro h
    obtain ⟨habove, hbelow⟩ := (lt_iff_normalizeUint ha hb hnum).1 h.order
    exact ⟨habove, hbelow, fun hframe => (future_iff ha hn hframe).1 (h.future hframe)⟩
  · intro h
    exact ⟨(lt_iff_normalizeUint ha hb hnum).2 ⟨h.above, h.below⟩, lt_iff_encoding ha hb hnum,
      ha.decode_getEncoding, fun hframe => (future_iff ha hn hframe).2 (h.added hframe)⟩

/-- Two instants below the wrap. -/
theorem agree_iff_fits_small : Agree ⟨3, 4, 7, 3⟩ ⟨3, 5, 0, 3⟩ 100 ↔
    Fits ⟨3, 4, 7, 3⟩ ⟨3, 5, 0, 3⟩ 100 :=
  agree_iff_fits _ _ _ (by decide) (by decide) rfl (by decide)

/-- The first frame of numerology 5 whose slots wrap around: its slot 0 has number 64, the slot
before it number 4294967359. -/
theorem normalize_wraps : ¬ ∀ (a b : SfnSf) (n : Nat), a.Valid → b.Valid →
    b.numerology = a.numerology → n < 2 ^ 32 → Agree a b n := by
  intro h
  have horder := (h ⟨13421772, 9, 31, 5⟩ ⟨13421773, 0, 0,
    5⟩ 0 (by decide +kernel) (by decide +kernel) rfl (by decide)).order
  exact absurd (horder.1 (by decide +kernel)) (by decide +kernel)

end SfnSf

end OranNs3.Phy
