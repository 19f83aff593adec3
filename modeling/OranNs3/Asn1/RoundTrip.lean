import Mathlib.Data.Nat.Log
import OranNs3.Asn1.Codec

/-!
# Reading what was written

A header that is written holds the bits of its octets and the pending ones (`Writer.Holds`), a
header that is read those that are left (`Reader.Holds`). A bitset is put behind the bits and taken
from the front of them at any alignment, and so are the primitives that are made of bitsets. So what
is read back is what was written (`readAll_writeAll`).
-/

namespace OranNs3.Asn1

open Octets List Option

variable (octets : List (BitVec 8))

/-- The bits of octets. -/
def bitsOf : List Bool := octets.flatMap fun o => bitsFrom o 8

theorem length_bitsOf : ∀ octets : List (BitVec 8), (bitsOf octets).length = 8 * octets.length
  | [] => rfl
  | o :: octets => by
    have hrest := length_bitsOf octets
    rw [bitsOf] at hrest ⊢
    rw [flatMap_cons, length_append, length_bitsFrom, hrest, length_cons]
    omega

theorem mask_shiftRight {i : Nat} (hi : i < 8) :
    (0x80#8 >>> i) >>> 1 &&& ~~~(0x80#8 >>> i) = 0x80#8 >>> (i + 1) := by
  have hall : ∀ i : Nat, i < 8 → (0x80#8 >>> i) >>> 1 &&& ~~~(0x80#8 >>> i) =
    0x80#8 >>> (i + 1) := by decide
  exact hall i hi

theorem mask_shiftLeft {i : Nat} (hi : i < 8) :
    (1#8 <<< i) <<< 1 &&& ~~~(1#8 <<< i) = 1#8 <<< (i + 1) := by
  have hall : ∀ i : Nat, i < 8 → (1#8 <<< i) <<< 1 &&& ~~~(1#8 <<< i) = 1#8 <<< (i + 1) := by decide
  exact hall i hi

theorem getLsbD_one {i j : Nat} (hi : i < 8) (hj : j < 8) :
    (1#8 <<< i).getLsbD j = decide (j = i) := by
  have hall : ∀ i : Nat, i < 8 → ∀ j : Nat, j < 8 → (1#8 <<< i).getLsbD j = decide (j = i) := by
    decide
  exact hall i hi j hj

/-! ## The bits of a header that is written -/

namespace Writer

/-- The bits that have been written. -/
def Holds (w : Writer) (bits : List Bool) : Prop :=
  ∃ l, w.numPendingBits = l.length ∧ l.length < 8 ∧ w.pendingBits = octetOf l ∧
    bitsOf w.result ++ l = bits

section
variable {n k : Nat} {data : BitVec n} {w : Writer} {l bits : List Bool}

theorem holds_init : Holds {} [] := ⟨[], rfl, by decide, rfl, rfl⟩

theorem appendPending_spec : ∀ {k : Nat} {w : Writer} {l : List Bool}, w.numPendingBits = l.length →
    l.length ≤ 8 → w.pendingBits = octetOf l → ∃ k' l',
      appendPending data k (0x80#8 >>> l.length) w =
        (k', { w with numPendingBits := l'.length, pendingBits := octetOf l' }) ∧ l'.length ≤ 8 ∧
          l' ++ bitsFrom data k' = l ++ bitsFrom data k ∧ (k' = 0 ∨ l'.length = 8)
  | 0, w, l, hnum, hl, hpending => ⟨0, l, by rw [appendPending, ← hnum, ← hpending], hl, rfl,
    .inl rfl⟩
  | k + 1, w, l, hnum, hl, hpending => by
    by_cases hlt : l.length < 8
    · have happend : (l ++ [data.getLsbD k]).length = l.length + 1 := by
        rw [length_append, length_singleton]
      have hnext : w.pendingBits ||| (if data.getLsbD k then 0x80#8 >>> l.length else 0#8) =
          octetOf (l ++ [data.getLsbD k]) := by rw [octetOf_append, hpending]
      obtain ⟨k', l', heq, hl', hbits, hend⟩ := @appendPending_spec k
        { w with pendingBits := octetOf (l ++ [data.getLsbD k]), numPendingBits := (l ++
        [data.getLsbD k]).length }
        (l ++ [data.getLsbD k]) rfl (by omega) rfl
      rw [appendPending, hnum, if_pos hlt, mask_shiftRight hlt, hnext, ← happend]
      refine ⟨k', l', heq, hl', hbits.trans ?_, hend⟩
      rw [append_assoc]
      rfl
    · refine ⟨k + 1, l, ?_, hl, rfl, .inr (by omega)⟩
      rw [appendPending, hnum, if_neg hlt, ← hnum, ← hpending]

theorem storePending_eq : ∀ {k : Nat} {l : List Bool}, l.length + k ≤ 8 →
    storePending data k (0x80#8 >>> l.length) (octetOf l) = octetOf (l ++ bitsFrom data k)
  | 0, l, _ => by rw [storePending, bitsFrom, append_nil]
  | k + 1, l, hl => by
    have happend : (l ++ [data.getLsbD k]).length = l.length + 1 := by
      rw [length_append, length_singleton]
    rw [storePending, mask_shiftRight (by omega), ← octetOf_append, ← happend,
      storePending_eq (by omega), append_assoc]
    rfl

theorem getLsbD_octetToWrite : ∀ {j : Nat} {octet : BitVec 8} {i : Nat}, j ≤ 8 → i < 8 → 8 ≤ k →
    (octetToWrite data k j (1#8 <<< (8 - j)) octet).getLsbD i =
      (octet.getLsbD i || (decide (8 - j ≤ i) && data.getLsbD (k - 8 + i)))
  | 0, octet, i, _, hi, _ => by
    rw [octetToWrite, decide_eq_false (by omega), Bool.false_and, Bool.or_false]
  | j + 1, octet, i, hj, hi, hk => by
    have hmask : (if data.getLsbD (k - (j + 1)) then 1#8 <<< (7 - j) else 0#8).getLsbD i =
        (decide (i = 7 - j) && data.getLsbD (k - 8 + i)) := by
      by_cases hij : i = 7 - j
      · have hindex : k - (j + 1) = k - 8 + i := by omega
        rw [hindex, decide_eq_true hij, Bool.true_and]
        cases data.getLsbD (k - 8 + i) with
        | false => exact BitVec.getLsbD_zero
        | true => exact (getLsbD_one (by omega) hi).trans (decide_eq_true hij)
      · rw [decide_eq_false hij, Bool.false_and]
        cases data.getLsbD (k - (j + 1)) with
        | false => exact BitVec.getLsbD_zero
        | true => exact (getLsbD_one (by omega) hi).trans (decide_eq_false hij)
    have hshift : 8 - (j + 1) = 7 - j := by omega
    have hnext : 7 - j + 1 = 8 - j := by omega
    rw [octetToWrite, hshift, mask_shiftLeft (by omega), hnext,
      getLsbD_octetToWrite (by omega) hi hk, BitVec.getLsbD_or, hmask,
      Bool.or_assoc, ← Bool.and_or_distrib_right, ← Bool.decide_or]
    congr 3
    exact propext (by omega)

theorem octetToWrite_eq (hk : 8 ≤ k) :
    octetToWrite data k 8 1#8 0#8 = octetOf ((bitsFrom data k).take 8) := by
  refine octet_ext fun i hi => ?_
  have hlength : i < ((bitsFrom data k).take 8).length := by
    rw [length_take, length_bitsFrom]
    omega
  have hall := @getLsbD_octetToWrite n k data 8 0#8 (7 - i) le_rfl (by omega) hk
  have hindex : k - 8 + (7 - i) = k - 1 - i := by omega
  rw [getLsbD_octetOf hi, getD_eq_getElem?_getD, getElem?_eq_getElem hlength, getD_some,
    getElem_take, getElem_bitsFrom, ← hindex]
  refine hall.trans ?_
  rw [decide_eq_true (by omega), BitVec.getLsbD_zero, Bool.false_or, Bool.true_and]

theorem bitsOf_append (o : BitVec 8) : bitsOf (octets ++ [o]) = bitsOf octets ++ bitsFrom o 8 := by
  rw [bitsOf, flatMap_append, flatMap_singleton, bitsOf]

theorem writeOctets_spec (hnum : w.numPendingBits = 0) (hpending : w.pendingBits = 0) :
    (writeOctets data k w).Holds (bitsOf w.result ++ bitsFrom data k) := by
  fun_induction writeOctets data k w with
  | case1 w => exact ⟨[], hnum, by decide, hpending, rfl⟩
  | case2 k w ih =>
    have hoctet := @octetToWrite_eq n (k + 8) data (by omega)
    have hlength : ((bitsFrom data (k + 8)).take 8).length = 8 := by
      rw [length_take, length_bitsFrom]
      omega
    have hbits := ih hnum hpending
    rw [writeOctet, hoctet, bitsOf_append, bits_octetOf hlength.le, hlength, Nat.sub_self,
      replicate_zero, append_nil, append_assoc, ← bitsFrom_add] at hbits
    rw [hoctet]
    exact hbits
  | case3 k w hzero height =>
    have hlt : k < 8 := by
      by_contra hge
      exact height (k - 8) (by omega)
    have hstore := @storePending_eq n data k [] (by simpa using hlt.le)
    rw [nil_append] at hstore
    refine ⟨bitsFrom data k, (length_bitsFrom data k).symm, by rwa [length_bitsFrom], ?_, rfl⟩
    rw [hpending]
    exact hstore

theorem Holds.serializeBitset (h : w.Holds bits) (hn : n < 256) :
    (w.serializeBitset data).Holds (bits ++ bitsFrom data n) := by
  obtain ⟨l, hnum, hl, hpending, rfl⟩ := h
  rw [Writer.serializeBitset]
  by_cases hzero : n = 0
  · subst hzero
    rw [if_pos rfl]
    exact ⟨l, hnum, hl, hpending, (append_nil _).symm⟩
  · rw [if_neg hzero, if_pos (by omega), Nat.mod_eq_of_lt hn]
    by_cases hpos : w.numPendingBits > 0
    · obtain ⟨k', l', heq, hl', hbits, hend⟩ := @appendPending_spec n data n w l hnum hl.le hpending
      rw [if_pos hpos, hnum, heq, append_assoc, ← hbits, ← append_assoc]
      dsimp only
      by_cases hfull : l'.length ≥ 8
      · have hlength : l'.length = 8 := by omega
        have hoctet := bits_octetOf hl'
        rw [hlength, Nat.sub_self, replicate_zero, append_nil] at hoctet
        rw [if_pos hfull, ← hoctet, ← bitsOf_append, hoctet]
        exact writeOctets_spec rfl rfl
      · have hnone : k' = 0 := hend.resolve_right (by omega)
        rw [if_neg hfull, hnone, writeOctets, bitsFrom, append_nil]
        exact ⟨l', rfl, by omega, rfl, rfl⟩
    · have hnil : l = [] := eq_nil_of_length_eq_zero (by omega)
      rw [if_neg hpos, hnil, append_nil]
      exact writeOctets_spec (by omega) (by rw [hpending, hnil]; rfl)

end

end Writer

/-! ## The bits of a header that is read -/

namespace Reader

/-- The bits that are left. -/
def Holds (r : Reader) (bits : List Bool) : Prop :=
  ∃ l, r.numPendingBits = l.length ∧ l.length < 8 ∧ (l ≠ [] → r.pendingBits = octetOf l) ∧
    l ++ bitsOf r.octets = bits

section
variable {n k : Nat} {target data : BitVec n} {r : Reader} {rest : List Bool}

theorem holds_init (pendingBits : BitVec 8) : Holds ⟨octets, pendingBits, 0⟩ (bitsOf octets) :=
  ⟨[], rfl, by decide, fun h => absurd rfl h, rfl⟩

/-- The data have the bits of the target from `k` on. -/
def Filled (target : BitVec n) (k : Nat) (data : BitVec n) : Prop :=
  ∀ i, k ≤ i → i < n → data.getLsbD i = target.getLsbD i

theorem Filled.setBit (h : Filled target (k + 1) data) (hk : k < n) :
    Filled target k (setBit data k (target.getLsbD k)) := by
  intro i hi hlt
  rw [getLsbD_setBit data hk]
  split_ifs with heq
  · rw [heq]
  · exact h i (by omega) hlt

theorem Filled.eq (h : Filled target 0 data) : data = target :=
  BitVec.eq_of_getLsbD_eq fun i hi => h i (Nat.zero_le i) hi

theorem readPending_spec : ∀ {k : Nat} {data : BitVec n} {r : Reader} {l : List Bool},
    r.numPendingBits = l.length → l.length ≤ 8 → (l ≠ [] → r.pendingBits = octetOf l) → k ≤ n →
      l ++ bitsOf r.octets = bitsFrom target k ++ rest →
    Filled target k data → ∃ k' data' r' l', readPending k data r = (k', data', r') ∧
      r'.numPendingBits = l'.length ∧ l'.length ≤ l.length ∧
        (l' ≠ [] → r'.pendingBits = octetOf l') ∧ k' ≤ n ∧
      l' ++ bitsOf r'.octets = bitsFrom target k' ++ rest ∧ Filled target k' data' ∧
        (k' = 0 ∨ l' = [])
  | 0, data, r, l, hnum, _, hpending, hk, hbits, hfilled =>
    ⟨0, data, r, l, rfl, hnum, le_rfl, hpending, hk, hbits, hfilled, .inl rfl⟩
  | k + 1, data, r, [], hnum, _, hpending, hk, hbits, hfilled => by
    refine ⟨k + 1, data, r, [], ?_, hnum, le_rfl, hpending, hk, hbits, hfilled, .inr rfl⟩
    rw [readPending, hnum, if_neg (by decide)]
  | k + 1, data, r, b :: l, hnum, hl, hpending, hk, hbits, hfilled => by
    have hoctet := hpending (cons_ne_nil b l)
    rw [bitsFrom] at hbits
    obtain ⟨hb, hbits⟩ := List.cons_eq_cons.mp hbits
    have hbit : decide (r.pendingBits &&& 0x80#8 ≠ 0) = target.getLsbD k := by
      have hmask := and_mask r.pendingBits (by decide : 0 < 8)
      rw [hoctet, getLsbD_octetOf (by decide)] at hmask
      rw [hoctet]
      exact hmask.trans hb
    have hnext : r.pendingBits <<< 1 = octetOf l := by
      rw [hoctet, octetOf_shiftLeft hl, drop_one, tail_cons]
    have hnum' : r.numPendingBits - 1 = l.length := by rw [hnum, length_cons, Nat.add_sub_cancel]
    obtain ⟨k', data', r', l', heq, hnum₁, hl', hpending', hk', hbits', hfilled', hend⟩ :=
      @readPending_spec k (setBit data k (target.getLsbD k))
        { r with numPendingBits := r.numPendingBits - 1, pendingBits := r.pendingBits <<< 1 } l
        hnum'
        (by rw [length_cons] at hl; omega) (fun _ => hnext) (by omega) hbits (hfilled.setBit hk)
    refine ⟨k', data', r', l', ?_, hnum₁, hl'.trans (Nat.le_succ _), hpending', hk', hbits',
      hfilled', hend⟩
    rw [readPending, if_pos (by rw [hnum]; exact Nat.succ_pos _), hbit]
    exact heq

theorem setBits_spec {octet : BitVec 8} : ∀ {j i k : Nat} {data : BitVec n}, i + j ≤ 8 → j ≤ k →
    k ≤ n → (∀ m < j, octet.getLsbD (7 - (i + m)) = target.getLsbD (k - 1 - m)) →
      Filled target k data →
    Filled target (k - j) (setBits octet j k (0x80#8 >>> i) data)
  | 0, _, _, _, _, _, _, _, hfilled => hfilled
  | j + 1, i, k, data, hij, hjk, hkn, hoctet, hfilled => by
    have hk : k = k - 1 + 1 := by omega
    have hfirst := hoctet 0 (Nat.succ_pos j)
    rw [Nat.add_zero, Nat.sub_zero] at hfirst
    have hnext : Filled target (k - 1 - j)
        (setBits octet j (k - 1) (0x80#8 >>> (i + 1))
        (setBit data (k - 1) (target.getLsbD (k - 1)))) := by
      rw [hk] at hfilled
      refine setBits_spec (by omega) (by omega) (by omega) (fun m hm => ?_)
        (hfilled.setBit (by omega))
      have hm' := hoctet (m + 1) (by omega)
      have hindex : i + 1 + m = i + (m + 1) := by omega
      have hindex' : k - 1 - 1 - m = k - 1 - (m + 1) := by omega
      rw [hindex, hindex', hm']
    have hindex : k - (j + 1) = k - 1 - j := by omega
    rw [setBits, and_mask octet (by omega), hfirst, ← BitVec.shiftRight_add, hindex]
    exact hnext

theorem getLsbD_of_take {octet : BitVec 8} {j m : Nat} (hj : j ≤ 8) (hjk : j ≤ k)
    (h : (bitsFrom octet 8).take j = (bitsFrom target k).take j) (hm : m < j) :
    octet.getLsbD (7 - (0 + m)) = target.getLsbD (k - 1 - m) := by
  have hget := congrArg (·[m]?) h
  rw [getElem?_take_of_lt hm, getElem?_take_of_lt hm,
    getElem?_eq_getElem (by rw [length_bitsFrom]; omega),
    getElem?_eq_getElem (by rw [length_bitsFrom]; omega), getElem_bitsFrom,
      getElem_bitsFrom] at hget
  rw [Nat.zero_add]
  exact some.inj hget

theorem ne_nil_of_bits {octets : List (BitVec 8)} (hk : 0 < k)
    (h : bitsOf octets = bitsFrom target k ++ rest) : octets ≠ [] := by
  rintro rfl
  have hlength := congrArg List.length h
  rw [length_append, length_bitsFrom, length_bitsOf, length_nil] at hlength
  omega

/-- Octets are read until the data are full. -/
theorem readOctets_spec (hnum : r.numPendingBits = 0) (hk : k ≤ n)
    (hbits : bitsOf r.octets = bitsFrom target k ++ rest) (hfilled : Filled target k data) :
    ∃ r', readOctets k data r = some (target, r') ∧ r'.Holds rest := by
  fun_induction readOctets k data r with
  | case1 data r => exact ⟨r, by rw [hfilled.eq], [], hnum, by decide, fun h => absurd rfl h, hbits⟩
  | case2 k data r hnil => exact absurd hnil (ne_nil_of_bits (Nat.succ_pos _) hbits)
  | case3 k data r octet octets hcons ih =>
    have hsplit : bitsFrom octet 8 ++ bitsOf octets = (bitsFrom target (k + 8)).take 8 ++
      (bitsFrom target k ++ rest) := by
      have hadd := bitsFrom_add target k 8
      rw [hcons] at hbits
      rw [← append_assoc, ← hadd]
      exact hbits
    have hlength : (bitsFrom octet 8).length = ((bitsFrom target (k + 8)).take 8).length := by
      rw [length_take, length_bitsFrom, length_bitsFrom]
      omega
    obtain ⟨hoctet, hrest⟩ := append_inj hsplit hlength
    have htake : (bitsFrom octet 8).take 8 = (bitsFrom target (k + 8)).take 8 := by
      rw [take_of_length_le (by rw [length_bitsFrom]), hoctet]
    have hset := @setBits_spec n target octet 8 0 (k + 8) data (by decide) (by omega) hk
      (fun m hm => getLsbD_of_take (by decide) (by omega) htake hm) hfilled
    rw [Nat.add_sub_cancel] at hset
    exact ih hnum ((Nat.le_add_right k 8).trans hk) hrest hset
  | case4 k data r hzero height hnil =>
    exact absurd hnil (ne_nil_of_bits (Nat.pos_of_ne_zero hzero) hbits)
  | case5 k data r hzero height octet octets hcons =>
    have hlt : k < 8 := by
      by_contra hge
      exact height (k - 8) (by omega)
    have hpos : 0 < k := Nat.pos_of_ne_zero hzero
    have hoctet : bitsFrom octet 8 = (bitsFrom octet 8).take k ++ (bitsFrom octet 8).drop k :=
      (take_append_drop k _).symm
    have hsplit : (bitsFrom octet 8).take k ++ ((bitsFrom octet 8).drop k ++ bitsOf octets) =
      bitsFrom target k ++ rest := by
      rw [← append_assoc, ← hoctet, ← hbits, hcons]
      rfl
    have hlength : ((bitsFrom octet 8).take k).length = (bitsFrom target k).length := by
      rw [length_take, length_bitsFrom, length_bitsFrom]
      omega
    obtain ⟨htake, hrest⟩ := append_inj hsplit hlength
    have htake' : (bitsFrom octet 8).take k = (bitsFrom target k).take k := by
      rw [htake, take_of_length_le (length_bitsFrom target k).le]
    have hset := @setBits_spec n target octet k 0 k data (by omega) le_rfl hk
      (fun m hm => getLsbD_of_take hlt.le le_rfl htake' hm) hfilled
    rw [Nat.sub_self] at hset
    refine ⟨_, congrArg (fun d => some (d, _)) hset.eq, (bitsFrom octet 8).drop k, ?_, ?_,
      fun _ => ?_, hrest⟩
    · rw [length_drop, length_bitsFrom]
    · rw [length_drop, length_bitsFrom]
      omega
    · rw [← octetOf_shiftLeft (length_bitsFrom octet 8).le, octetOf_bits]

theorem Holds.deserializeBitset (h : r.Holds (bitsFrom target n ++ rest)) :
    ∃ r', r.deserializeBitset data = some (target, r') ∧ r'.Holds rest := by
  obtain ⟨l, hnum, hl, hpending, hbits⟩ := h
  have hfilled : Filled target n data := fun i hi hlt => absurd hlt (not_lt.mpr hi)
  rw [Reader.deserializeBitset]
  by_cases hpos : r.numPendingBits > 0
  · obtain ⟨k', data', r', l', heq, hnum', hl', hpending', hk', hbits', hfilled', hend⟩ :=
      readPending_spec hnum hl.le hpending le_rfl hbits hfilled
    rw [if_pos hpos, heq]
    dsimp only
    rcases hend with hend | hend
    · subst hend
      exact ⟨r', by rw [readOctets, hfilled'.eq], l', hnum', by omega, hpending', hbits'⟩
    · subst hend
      exact readOctets_spec hnum' hk' hbits' hfilled'
  · have hnil : l = [] := eq_nil_of_length_eq_zero (by omega)
    subst hnil
    rw [if_neg hpos]
    exact readOctets_spec (by omega) le_rfl hbits hfilled

theorem Holds.deserializeBoolean {value : Bool} (h : r.Holds (value :: rest)) :
    ∃ r', r.deserializeBoolean = some (value, r') ∧ r'.Holds rest := by
  have hbits : r.Holds (bitsFrom (BitVec.ofBool value) 1 ++ rest) := by
    cases value <;> exact h
  obtain ⟨r', hread, hr'⟩ := @Holds.deserializeBitset 1 (BitVec.ofBool value) 0 r rest hbits
  refine ⟨r', ?_, hr'⟩
  rw [Reader.deserializeBoolean, hread]
  cases value <;> rfl

end

end Reader

/-! ## Primitives -/

section
variable {requiredBits : Nat → Nat} {w : Writer} {r : Reader} {bits rest : List Bool}
  {n nmin nmax : Int}

/-- The bounds of the integers of a type; a bitset has none. -/
def Ty.bounds : Ty → Option (Int × Int)
  | .null | .boolean | .bitstring _ | .sequence _ _ => none
  | .integer nmin nmax | .sequenceOf nmax nmin => some (nmin, nmax)
  | .enum num | .choice num _ => some (0, num - 1)

/-- A type whose bitset has 32 bits at most, and whose range has more than one and at most 2 ^ 28
values. -/
def Ty.Ok (ty : Ty) : Prop :=
  (match ty with
    | .bitstring n | .sequence n _ => n ≤ 32
    | _ => True) ∧ ∀ b, ty.bounds = some b → 1 < b.2 - b.1 + 1 ∧ b.2 - b.1 + 1 ≤ 2 ^ 28

/-- An integer between its bounds. -/
def Between (n nmin nmax : Int) : Prop := nmin ≤ n ∧ n ≤ nmax

/-- A value that is in the range of its type. -/
def Item.InRange : Item → Prop
  | ⟨.integer nmin nmax, n⟩ | ⟨.sequenceOf nmax nmin, n⟩ => Between n nmin nmax
  | ⟨.enum num, n⟩ | ⟨.choice num _, n⟩ => Between n 0 (num - 1)
  | _ => True

/-- The bits of an integer, of which there are enough. -/
def integerBits (requiredBits : Nat → Nat) (n nmin nmax : Int) : List Bool :=
  bitsFrom (BitVec.ofInt (requiredBits (nmax - nmin + 1).toNat) (n - nmin))
    (requiredBits (nmax - nmin + 1).toNat)

/-- The bits of an extension marker, which is never set. -/
def markerBits (isExtensionMarkerPresent : Bool) : List Bool :=
  if isExtensionMarkerPresent then [false] else []

/-- The bits of a primitive. -/
def Item.stream (requiredBits : Nat → Nat) : Item → List Bool
  | ⟨.null, _⟩ => []
  | ⟨.boolean, value⟩ => [value]
  | ⟨.bitstring n, data⟩ => bitsFrom (n := n) data n
  | ⟨.sequence n ext, mask⟩ => markerBits ext ++ bitsFrom (n := n) mask n
  | ⟨.integer nmin nmax, n⟩ => integerBits requiredBits n nmin nmax
  | ⟨.enum numElems, n⟩ => integerBits requiredBits n 0 (numElems - 1)
  | ⟨.choice numOptions ext, n⟩ => markerBits ext ++ integerBits requiredBits n 0 (numOptions - 1)
  | ⟨.sequenceOf nMax nMin, n⟩ => integerBits requiredBits n nMin nMax

/-- The number of bits is enough for each range, and not more than the source has cases for. -/
def Enough (requiredBits : Nat → Nat) : Prop :=
  ∀ range, 1 < range → range ≤ 2 ^ 28 → range ≤ 2 ^ requiredBits range ∧ requiredBits range ≤ 28

theorem Enough.width (h : Enough requiredBits) (hrange : 1 < nmax - nmin + 1)
    (hle : nmax - nmin + 1 ≤ 2 ^ 28) : 1 ≤ requiredBits (nmax - nmin + 1).toNat ∧
      requiredBits (nmax - nmin + 1).toNat ≤ 28 ∧
        (nmax - nmin + 1).toNat ≤ 2 ^ requiredBits (nmax - nmin + 1).toNat := by
  obtain ⟨henough, hfew⟩ := h (nmax - nmin + 1).toNat (by omega) (by omega)
  refine ⟨?_, hfew, henough⟩
  by_contra hnone
  have hzero : requiredBits (nmax - nmin + 1).toNat = 0 := by omega
  rw [hzero] at henough
  omega

theorem Writer.Holds.serializeBoolean (h : w.Holds bits) (value : Bool) :
    (w.serializeBoolean value).Holds (bits ++ [value]) := by
  have hbits : (w.serializeBitset (BitVec.ofBool value)).Holds
    (bits ++ bitsFrom (BitVec.ofBool value) 1) :=
    h.serializeBitset (by decide)
  cases value <;> exact hbits

theorem Writer.Holds.marker (h : w.Holds bits) (ext : Bool) :
    (if ext then w.serializeBoolean false else w).Holds (bits ++ markerBits ext) := by
  cases ext with
  | true => exact h.serializeBoolean false
  | false =>
    rw [markerBits, if_neg Bool.false_ne_true, if_neg Bool.false_ne_true, append_nil]
    exact h

theorem Reader.Holds.marker {ext : Bool} (h : r.Holds (markerBits ext ++ rest)) :
    ∃ r', (if ext then r.deserializeBoolean.map Prod.snd else some r) = some r' ∧
      r'.Holds rest := by
  cases ext with
  | true =>
    obtain ⟨r', hread, hr'⟩ := h.deserializeBoolean
    exact ⟨r', by rw [if_pos rfl, hread]; rfl, hr'⟩
  | false => exact ⟨r, if_neg Bool.false_ne_true, h⟩

theorem Writer.Holds.serializeInteger (h : w.Holds bits) (henough : Enough requiredBits)
    (hn : Between n nmin nmax) (hrange : 1 < nmax - nmin + 1) (hle : nmax - nmin + 1 ≤ 2 ^ 28) :
    ∃ w', w.serializeInteger requiredBits n nmin nmax = some w' ∧
      w'.Holds (bits ++ integerBits requiredBits n nmin nmax) := by
  obtain ⟨hpos, hfew, _⟩ := henough.width hrange hle
  have hin : nmin ≤ n ∧ n ≤ nmax := hn
  rw [Writer.serializeInteger, if_pos hin]
  dsimp only
  rw [if_neg (by omega), if_pos ⟨hpos, hfew⟩]
  exact ⟨_, rfl, h.serializeBitset (by omega)⟩

theorem Reader.Holds.deserializeInteger {old : Int}
    (h : r.Holds (integerBits requiredBits n nmin nmax ++ rest)) (henough : Enough requiredBits)
    (hn : Between n nmin nmax) (hrange : 1 < nmax - nmin + 1) (hle : nmax - nmin + 1 ≤ 2 ^ 28) :
    ∃ r', r.deserializeInteger requiredBits old nmin nmax = some (n, r') ∧ r'.Holds rest := by
  obtain ⟨hmin, hmax⟩ := hn
  obtain ⟨hpos, hfew, hbits⟩ := henough.width hrange hle
  obtain ⟨r', hread, hr'⟩ := @Holds.deserializeBitset (requiredBits (nmax - nmin + 1).toNat)
    (BitVec.ofInt (requiredBits (nmax - nmin + 1).toNat) (n - nmin)) 0 r rest h
  refine ⟨r', ?_, hr'⟩
  have hvalue : ((BitVec.ofInt (requiredBits (nmax - nmin + 1).toNat) (n - nmin)).toNat : Int) =
    n - nmin := by
    have hlt : n - nmin < ((2 ^ requiredBits (nmax - nmin + 1).toNat : Nat) : Int) := by omega
    rw [BitVec.toNat_ofInt, Int.emod_eq_of_lt (by omega) hlt, Int.toNat_of_nonneg (by omega)]
  rw [Reader.deserializeInteger, if_neg (by omega)]
  dsimp only
  rw [if_neg (by omega), if_pos ⟨hpos, hfew⟩, hread, map_some, hvalue, Int.sub_add_cancel]

theorem Writer.Holds.serializeSequence {m : Nat} {mask : BitVec m} {ext : Bool} (h : w.Holds bits)
    (hm : m < 256) :
    (w.serializeSequence mask ext).Holds (bits ++ (markerBits ext ++ bitsFrom mask m)) := by
  rw [← append_assoc]
  exact (h.marker ext).serializeBitset hm

theorem Reader.Holds.deserializeSequence {m : Nat} {mask old : BitVec m} {ext : Bool}
    (h : r.Holds (markerBits ext ++ bitsFrom mask m ++ rest)) :
    ∃ r', r.deserializeSequence old ext = some (mask, r') ∧ r'.Holds rest := by
  rw [append_assoc] at h
  obtain ⟨r₁, hmarker, hr₁⟩ := h.marker
  rw [Reader.deserializeSequence, hmarker]
  exact hr₁.deserializeBitset

theorem Writer.Holds.serializeChoice {num : Int} {ext : Bool} (h : w.Holds bits)
    (henough : Enough requiredBits) (hn : Between n 0 (num - 1)) (hrange : 1 < num - 1 - 0 + 1)
    (hle : num - 1 - 0 + 1 ≤ 2 ^ 28) :
    ∃ w', w.serializeChoice requiredBits num n ext = some w' ∧
      w'.Holds (bits ++ (markerBits ext ++ integerBits requiredBits n 0 (num - 1))) := by
  rw [Writer.serializeChoice, if_neg (by omega), ← append_assoc]
  exact (h.marker ext).serializeInteger henough hn hrange hle

theorem Reader.Holds.deserializeChoice {num old : Int} {ext : Bool}
    (h : r.Holds (markerBits ext ++ integerBits requiredBits n 0 (num - 1) ++ rest))
    (henough : Enough requiredBits)
    (hn : Between n 0 (num - 1)) (hrange : 1 < num - 1 - 0 + 1) (hle : num - 1 - 0 + 1 ≤ 2 ^ 28) :
    ∃ r', r.deserializeChoice requiredBits num ext old = some (n, r') ∧ r'.Holds rest := by
  rw [append_assoc] at h
  obtain ⟨r₁, hmarker, hr₁⟩ := h.marker
  rw [Reader.deserializeChoice, hmarker]
  exact hr₁.deserializeInteger henough hn hrange hle

/-- A value as a writer may write it. -/
def Item.Valid (item : Item) : Prop := item.1.Ok ∧ item.InRange

theorem Writer.Holds.write (h : w.Holds bits) (henough : Enough requiredBits) {item : Item}
    (hitem : item.Valid) : ∃ w', w.write requiredBits item = some w' ∧
    w'.Holds (bits ++ item.stream requiredBits) := by
  obtain ⟨⟨hwidth, hbounds⟩, hrange⟩ := hitem
  match item with
  | ⟨.null, _⟩ => exact ⟨w, rfl, by rw [Item.stream, append_nil]; exact h⟩
  | ⟨.boolean, value⟩ => exact ⟨_, rfl, h.serializeBoolean value⟩
  | ⟨.bitstring n, data⟩ => exact ⟨_, rfl, h.serializeBitset (hwidth.trans_lt (by decide))⟩
  | ⟨.sequence n ext, mask⟩ =>
    exact ⟨_, rfl, h.serializeSequence (hwidth.trans_lt (by decide))⟩
  | ⟨.integer nmin nmax, n⟩ =>
    obtain ⟨hone, hle⟩ := hbounds _ rfl
    exact h.serializeInteger henough hrange hone hle
  | ⟨.enum numElems, n⟩ =>
    obtain ⟨hone, hle⟩ := hbounds _ rfl
    exact h.serializeInteger henough hrange hone hle
  | ⟨.choice numOptions ext, n⟩ =>
    obtain ⟨hone, hle⟩ := hbounds _ rfl
    exact h.serializeChoice henough hrange hone hle
  | ⟨.sequenceOf nMax nMin, n⟩ =>
    obtain ⟨hone, hle⟩ := hbounds _ rfl
    exact h.serializeInteger henough hrange hone hle

theorem Reader.Holds.read (henough : Enough requiredBits) :
    ∀ {item : Item} (_ : item.Valid) (old : item.1.Value)
    {r : Reader} (_ : r.Holds (item.stream requiredBits ++ rest)),
    ∃ r', r.read requiredBits ⟨item.1, old⟩ = some (item.2, r') ∧ r'.Holds rest
  | ⟨.null, _⟩, _, _, r, h => ⟨r, rfl, h⟩
  | ⟨.boolean, value⟩, _, _, r, h => h.deserializeBoolean
  | ⟨.bitstring n, data⟩, _, old, r, h => @Holds.deserializeBitset n data old r rest h
  | ⟨.sequence n ext, mask⟩, _, old, r, h => @Holds.deserializeSequence r rest n mask old ext h
  | ⟨.integer nmin nmax, n⟩, ⟨⟨_, hbounds⟩, hrange⟩, old, r, h => by
    obtain ⟨hone, hle⟩ := hbounds _ rfl
    exact h.deserializeInteger henough hrange hone hle
  | ⟨.enum numElems, n⟩, ⟨⟨_, hbounds⟩, hrange⟩, old, r, h => by
    obtain ⟨hone, hle⟩ := hbounds _ rfl
    exact h.deserializeInteger henough hrange hone hle
  | ⟨.choice numOptions ext, n⟩, ⟨⟨_, hbounds⟩, hrange⟩, old, r, h => by
    obtain ⟨hone, hle⟩ := hbounds _ rfl
    exact h.deserializeChoice henough hrange hone hle
  | ⟨.sequenceOf nMax nMin, n⟩, ⟨⟨_, hbounds⟩, hrange⟩, old, r, h => by
    obtain ⟨hone, hle⟩ := hbounds _ rfl
    exact h.deserializeInteger henough hrange hone hle

/-! ## Sequences of primitives -/

theorem Writer.Holds.writeAll (henough : Enough requiredBits) :
    ∀ {items : List Item} {w : Writer} {bits : List Bool},
    w.Holds bits → (∀ item ∈ items, item.Valid) →
    ∃ w', w.writeAll requiredBits items = some w' ∧
      w'.Holds (bits ++ items.flatMap (Item.stream requiredBits))
  | [], w, bits, h, _ => ⟨w, rfl, by rw [flatMap_nil, append_nil]; exact h⟩
  | item :: items, w, bits, h, hitems => by
    obtain ⟨hitem, hitems⟩ := List.forall_mem_cons.mp hitems
    obtain ⟨w₁, hwrite, hw₁⟩ := h.write henough hitem
    obtain ⟨w', hrest, hw'⟩ := writeAll henough hw₁ hitems
    refine ⟨w', ?_, ?_⟩
    · rw [Writer.writeAll, foldlM_cons, hwrite]
      exact hrest
    · rw [flatMap_cons, ← append_assoc]
      exact hw'

theorem Reader.Holds.readAll (henough : Enough requiredBits) :
    ∀ {items vars : List Item} {r : Reader},
    (∀ item ∈ items, item.Valid) → vars.map Sigma.fst = items.map Sigma.fst →
    r.Holds (items.flatMap (Item.stream requiredBits) ++ rest) →
    ∃ r', r.readAll requiredBits vars = some (items, r') ∧ r'.Holds rest
  | [], [], r, _, _, h => ⟨r, rfl, h⟩
  | [], _ :: _, _, _, hvars, _ => absurd hvars (cons_ne_nil _ _)
  | _ :: _, [], _, _, hvars, _ => absurd hvars.symm (cons_ne_nil _ _)
  | item :: items, ⟨ty, old⟩ :: vars, r, hitems, hvars, h => by
    obtain ⟨hitem, hitems⟩ := List.forall_mem_cons.mp hitems
    obtain ⟨hty, htypes⟩ := List.cons_eq_cons.mp hvars
    dsimp only at hty
    subst hty
    rw [flatMap_cons, append_assoc] at h
    obtain ⟨r₁, hread, hr₁⟩ := Holds.read henough hitem old h
    obtain ⟨r', hrest, hr'⟩ := readAll henough hitems htypes hr₁
    refine ⟨r', ?_, hr'⟩
    rw [Reader.readAll, hread, bind_some]
    dsimp only
    rw [hrest]
    rfl

theorem Writer.Holds.finalizeSerialization (h : w.Holds bits) :
    ∃ n < 8, bitsOf w.finalizeSerialization.result = bits ++ replicate n false := by
  obtain ⟨l, hnum, hl, hpending, rfl⟩ := h
  rw [Writer.finalizeSerialization]
  by_cases hpos : w.numPendingBits > 0
  · rw [if_pos hpos]
    refine ⟨8 - l.length, by omega, ?_⟩
    have hoctet := @octetToWrite_eq 8 8 w.pendingBits le_rfl
    rw [take_of_length_le (length_bitsFrom _ _).le, octetOf_bits] at hoctet
    rw [Writer.serializeBitset, if_neg (by decide), if_pos (by decide), if_neg (Nat.lt_irrefl 0)]
    have hwrite : (writeOctets w.pendingBits 8 { w with numPendingBits := 0 }).result =
      w.result ++ [w.pendingBits] := by
      rw [writeOctets, writeOctets, hoctet]
      rfl
    have hbits := bits_octetOf hl.le
    rw [← hpending] at hbits
    rw [append_assoc, ← hbits, ← bitsOf_append, ← hwrite]
  · have hnil : l = [] := eq_nil_of_length_eq_zero (by omega)
    rw [if_neg hpos, hnil]
    exact ⟨0, by decide, by rw [append_nil, replicate_zero, append_nil]⟩

/-- What is read with a sequence of types is what was written with it, all octets are read, and what
is pending of the last one is padding. -/
theorem readAll_writeAll (henough : Enough requiredBits) {items vars : List Item}
    (hitems : ∀ item ∈ items, item.Valid) (hvars : vars.map Sigma.fst = items.map Sigma.fst)
    (pendingBits : BitVec 8) :
    ∃ w, Writer.writeAll requiredBits {} items = some w ∧
      ∃ r, Reader.readAll requiredBits ⟨w.finalizeSerialization.result, pendingBits, 0⟩ vars =
        some (items, r) ∧ r.octets = [] ∧ r.numPendingBits < 8 ∧
          (0 < r.numPendingBits → r.pendingBits = 0) := by
  obtain ⟨w, hwrite, hw⟩ := Writer.holds_init.writeAll henough hitems
  obtain ⟨n, hn, hbits⟩ := hw.finalizeSerialization
  have hholds := Reader.holds_init w.finalizeSerialization.result pendingBits
  rw [hbits, nil_append] at hholds
  obtain ⟨r, hread, l, hnum, hl, hpending, hrest⟩ :=
    Reader.Holds.readAll henough hitems hvars hholds
  have hlength := congrArg List.length hrest
  rw [length_append, length_bitsOf, length_replicate] at hlength
  have hnil : r.octets = [] := eq_nil_of_length_eq_zero (by omega)
  refine ⟨w, hwrite, r, hread, hnil, by omega, fun hpos => ?_⟩
  rw [hnil, bitsOf, flatMap_nil, append_nil] at hrest
  have hne : l ≠ [] := ne_nil_of_length_pos (by omega)
  rw [hpending hne, hrest, octetOf_replicate]

theorem enough_clog : Enough (Nat.clog 2) := fun _ _ hle =>
  ⟨Nat.le_pow_clog (by decide) _, Nat.clog_le_of_le_pow hle⟩

/-- A boolean, a bitset of 10 bits, a choice with an extension marker and an integer. -/
def sample : List Item :=
  [⟨.boolean, true⟩, ⟨.bitstring 10, 0x2a5#10⟩, ⟨.choice 3 true, (2 : Int)⟩,
    ⟨.integer (-5) 100, (7 : Int)⟩]

/-- The sample is read back. -/
theorem readAll_writeAll_sample : ∃ w, Writer.writeAll (Nat.clog 2) {} sample = some w ∧
    ∃ r, Reader.readAll (Nat.clog 2) ⟨w.finalizeSerialization.result, 0, 0⟩ sample =
      some (sample, r) ∧ r.octets = [] ∧ r.numPendingBits < 8 ∧
        (0 < r.numPendingBits → r.pendingBits = 0) := by
  refine readAll_writeAll enough_clog ?_ rfl 0
  simp [sample, Item.Valid, Ty.Ok, Ty.bounds, Item.InRange, Between]

end

end OranNs3.Asn1
