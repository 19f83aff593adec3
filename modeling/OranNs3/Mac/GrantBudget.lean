import Mathlib.Data.List.Induction
import OranNs3.Lib.Related
import OranNs3.Lib.Run
import OranNs3.Mac.UeGrant

/-!
# The budget of a grant

When the parts that `SendNewData` and `SendBufferStatusReport` send fit a grant: for every behaviour
of the RLC entities exactly if the status PDUs for which the block has room all fit together, with
their subheaders and the BSR (`grant_kept_iff`). Enough: the other phases leave five bytes for the
BSR. Needed: any number of bytes up to the condition's sum can be filled by the status PDUs up to
one byte (`exists_used`).
-/

namespace OranNs3.UeGrant

open Fallible Function List

variable {c : Context} {rlc : Rlc}

/-! ## Sizes -/

theorem subPduSize_le (size : Nat) : subPduSize size ≤ size + 3 := by
  unfold subPduSize
  split <;> omega

theorem subPduSize_mono {m n : Nat} (h : m ≤ n) (hn : n < 2 ^ 16) :
    subPduSize m ≤ subPduSize n := by
  unfold subPduSize
  rw [Nat.mod_eq_of_lt hn, Nat.mod_eq_of_lt (Nat.lt_of_le_of_lt h hn)]
  split <;> split <;> omega

/-! ## Reports -/

/-- The reports of one grant: one for a logical channel, which is configured, in one of the four
groups and with an LCID that a subheader can carry. SRB 0 has nothing to send (the assertion on LCID
0). -/
structure Reported (c : Context) (bs : List BufferStatus) : Prop where
  nodup : (bs.map BufferStatus.lcid).Nodup
  lcid_le : ∀ b ∈ bs, b.lcid ≤ 32
  configured : ∀ b ∈ bs, ∃ i, Keyed.find? LcInfo.lcid b.lcid c.lcInfoMap = some i ∧
    i.logicalChannelGroup < 4
  srb0 : ∀ b ∈ bs, b.lcid = 0 → b.txQueueSize = 0 ∧ b.retxQueueSize = 0 ∧ b.statusPduSize = 0
  status_lt : ∀ b ∈ bs, b.statusPduSize < 2 ^ 16

/-- A logical channel that can be served. -/
def Servable (c : Context) (lcid : Nat) : Prop :=
  lcid ≤ 32 ∧ (Keyed.find? LcInfo.lcid lcid c.lcInfoMap).isSome

variable {bs : List BufferStatus} {b : BufferStatus}

theorem Reported.servable (h : Reported c bs) (hb : b ∈ bs) : Servable c b.lcid := by
  obtain ⟨i, hi, -⟩ := h.configured b hb
  exact ⟨h.lcid_le b hb, by rw [hi]; rfl⟩

/-! ## Enough -/

variable {t : Tx}

theorem spec_notifyTxOpportunity {lcid bytes : Nat} (room : Nat) (hlc : Servable c lcid)
    (hroom : ∀ m ≤ bytes, subPduSize m ≤ room) (hfits : t.ulDciTotalUsed + room ≤ c.dci.tbSize) :
    Spec (fun _ => False) (fun t' => t'.ulDciTotalUsed ≤ t.ulDciTotalUsed + room ∧
      t'.dataBytes = t.dataBytes) (notifyTxOpportunity c rlc lcid bytes t) := by
  obtain ⟨i, hi⟩ := Option.isSome_iff_exists.1 hlc.2
  rw [notifyTxOpportunity, hi]
  cases hpdu : rlc.pdu t.opportunities lcid bytes with
  | none => exact ⟨Nat.le_add_right _ _, rfl⟩
  | some m =>
    have hm : subPduSize m ≤ room := hroom m (rlc.le hpdu)
    have hused : t.ulDciTotalUsed + subPduSize m ≤ c.dci.tbSize := by omega
    have hle : ¬32 < lcid := Nat.not_lt.2 hlc.1
    simp only [transmitPdu, hle, if_false, hused, if_true]
    exact ⟨by dsimp only; omega, rfl⟩

variable (tbSize : Nat)

/-- The status PDUs that are not larger than the block. -/
def statusRoom (bs : List BufferStatus) : List BufferStatus :=
  bs.filter fun b => 0 < b.statusPduSize ∧ b.statusPduSize ≤ tbSize

/-- The bytes of status PDUs with their subheaders. -/
def statusBytes (bs : List BufferStatus) : Nat := (bs.map fun b => subPduSize b.statusPduSize).sum

/-- The status PDUs for which the block has room fit together with the BSR, and if there is none,
there is no status PDU to be sent. -/
def StatusFits (bs : List BufferStatus) : Prop :=
  statusBytes (statusRoom tbSize bs) + 5 ≤ tbSize ∧
    (statusRoom tbSize bs = [] → ∀ b ∈ bs, b.statusPduSize = 0)

theorem spec_statusLoop :
    ∀ {bs : List BufferStatus} {t : Tx}, (∀ b ∈ bs, Servable c b.lcid) →
      (∀ b ∈ bs, b.statusPduSize < 2 ^ 16) →
      t.ulDciTotalUsed + statusBytes (statusRoom c.dci.tbSize bs) ≤ c.dci.tbSize →
      Spec (fun _ => False) (fun r =>
        r.2.1.ulDciTotalUsed ≤ t.ulDciTotalUsed + statusBytes (statusRoom c.dci.tbSize bs) ∧
        r.2.1.dataBytes = t.dataBytes ∧ (statusRoom c.dci.tbSize bs ≠ [] → r.2.2 = true))
        (statusLoop c rlc bs t)
  | [], t, _, _, _ => ⟨Nat.le_add_right _ _, rfl, fun h => absurd rfl h⟩
  | b :: bs, t, hlc, hlt, hfits => by
    obtain ⟨hb, hbs⟩ := forall_mem_cons.1 hlc
    obtain ⟨hblt, hbslt⟩ := forall_mem_cons.1 hlt
    rw [statusLoop]
    by_cases hroom : 0 < b.statusPduSize ∧ b.statusPduSize ≤ c.dci.tbSize
    · -- it is in the sum of the condition, so there is room for it
      have hcons : statusRoom c.dci.tbSize (b :: bs) = b :: statusRoom c.dci.tbSize bs :=
        filter_cons_of_pos (by simpa using hroom)
      rw [hcons] at hfits ⊢
      have hsum : statusBytes (b :: statusRoom c.dci.tbSize bs) =
          subPduSize b.statusPduSize + statusBytes (statusRoom c.dci.tbSize bs) := by
        simp [statusBytes]
      rw [hsum] at hfits ⊢
      have hle : b.statusPduSize ≤ subPduSize b.statusPduSize := Nat.le_add_right _ _
      rw [if_pos ⟨hroom.1, by omega⟩]
      refine (spec_notifyTxOpportunity _ hb (fun m hm => subPduSize_mono hm hblt) (by omega)).bind
        fun t' ht' => ?_
      refine (spec_statusLoop hbs hbslt (by omega)).bind fun r hr => ?_
      obtain ⟨bs', t'', sent⟩ := r
      obtain ⟨hused, hdata, -⟩ := hr
      dsimp only at hused
      have hused' : t''.ulDciTotalUsed ≤ t.ulDciTotalUsed +
          (subPduSize b.statusPduSize + statusBytes (statusRoom c.dci.tbSize bs)) := by omega
      exact ⟨hused', hdata.trans ht'.2, fun _ => rfl⟩
    · have hcons : statusRoom c.dci.tbSize (b :: bs) = statusRoom c.dci.tbSize bs :=
        filter_cons_of_neg (by simpa using hroom)
      rw [hcons] at hfits ⊢
      rw [if_neg fun h => hroom ⟨h.1, by omega⟩]
      exact (spec_statusLoop hbs hbslt hfits).bind fun r hr => hr

theorem spec_sendNewStatusData (h : Reported c bs)
    (ht : t.ulDciTotalUsed = 0) (hfits : StatusFits c.dci.tbSize bs) :
    Spec (fun _ => False) (fun r => r.2.ulDciTotalUsed + 5 ≤ c.dci.tbSize ∧
      r.2.dataBytes = t.dataBytes) (sendNewStatusData c rlc bs t) := by
  have hbytes := hfits.1
  refine (spec_statusLoop (fun b hb => h.servable hb) h.status_lt (by omega)).bind
    fun ⟨bs', t', sent⟩ hr => ?_
  obtain ⟨hused, hdata, hsent⟩ := hr
  dsimp only at hused
  have hused' : t'.ulDciTotalUsed + 5 ≤ c.dci.tbSize := by omega
  have hno : ¬(((bs.any fun b => 0 < b.statusPduSize) && !sent) = true) := by
    intro hstatus
    rw [Bool.and_eq_true, any_eq_true, Bool.not_eq_true'] at hstatus
    obtain ⟨⟨b, hb, hpos⟩, hnot⟩ := hstatus
    by_cases hroom : statusRoom c.dci.tbSize bs = []
    · have := hfits.2 hroom b hb
      simp [this] at hpos
    · exact absurd (hsent hroom) (by simp [hnot])
  dsimp only
  rw [if_neg hno]
  exact ⟨hused', hdata⟩

theorem spec_dataLoop {usefulTbs bytesPerLcId : Nat} {take : Nat → BufferStatus → BufferStatus}
    (huseful : usefulTbs + 3 + 5 ≤ c.dci.tbSize) :
    ∀ {bs : List BufferStatus} {t : Tx}, (∀ b ∈ bs, Servable c b.lcid) →
      t.ulDciTotalUsed + 5 ≤ c.dci.tbSize →
      Spec (fun _ => False) (fun r => r.2.ulDciTotalUsed + 5 ≤ c.dci.tbSize ∧
        ∀ n ∈ r.2.dataBytes, n ∈ t.dataBytes ∨ n = bytesPerLcId)
        (dataLoop c rlc usefulTbs bytesPerLcId take bs t)
  | [], t, _, ht => ⟨ht, fun _ => .inl⟩
  | b :: bs, t, hlc, ht => by
    obtain ⟨hb, hbs⟩ := forall_mem_cons.1 hlc
    rw [dataLoop]
    split
    · next hle =>
      refine (spec_notifyTxOpportunity (bytesPerLcId + 3) hb (fun m hm => ?_) ?_).bind fun t' ht' =>
        ?_
      · exact (subPduSize_le m).trans (by omega)
      · dsimp only
        omega
      dsimp only at ht'
      refine (spec_dataLoop huseful hbs (by omega)).bind fun r hr => ⟨hr.1, fun n hn => ?_⟩
      rcases hr.2 n hn with hn | hn
      · rw [ht'.2] at hn
        simpa using hn
      · exact .inr hn
    · exact (spec_dataLoop huseful hbs ht).bind fun r hr => hr

theorem spec_dataPhase (rlc : Rlc) {active : Nat}
    {send : Nat → List BufferStatus → Tx → Except MacError (List BufferStatus × Tx)}
    (take : Nat → BufferStatus → BufferStatus) (hsend : ∀ usefulTbs bs t, 0 < active →
      send usefulTbs bs t = dataLoop c rlc usefulTbs (usefulTbs / active) take bs t)
    (hlc : ∀ b ∈ bs, Servable c b.lcid) (ht : t.ulDciTotalUsed + 5 ≤ c.dci.tbSize)
    (hdata : ∀ n ∈ t.dataBytes, 7 ≤ n) :
    Spec (fun _ => False) (fun r => r.2.ulDciTotalUsed + 5 ≤ c.dci.tbSize ∧
      ∀ n ∈ r.2.dataBytes, 7 ≤ n) (dataPhase c active send bs t) := by
  rw [dataPhase, if_pos ht]
  dsimp only
  split
  · next hactive =>
    split
    · exact ⟨ht, hdata⟩
    · next hten =>
      rw [hsend _ _ _ hactive.1]
      refine (spec_dataLoop (by omega) hlc ht).imp fun r hr => ⟨hr.1, fun n hn => ?_⟩
      rcases hr.2 n hn with hn | rfl
      · exact hdata n hn
      · rw [Nat.le_div_iff_mul_le hactive.1]
        omega
  · exact ⟨ht, hdata⟩

theorem spec_addToQueue {queue : List Nat} {i : LcInfo}
    (hi : Keyed.find? LcInfo.lcid b.lcid c.lcInfoMap = some i) (hgroup : i.logicalChannelGroup < 4)
    (hsrb0 : b.lcid = 0 → b.txQueueSize = 0 ∧ b.retxQueueSize = 0 ∧ b.statusPduSize = 0)
    (hqueue : queue.length = 4) :
    Spec (fun _ => False) (fun q => q.length = 4) (addToQueue c queue b) := by
  rw [addToQueue, hi]
  dsimp only
  rw [if_neg fun h => h.2 (hsrb0 h.1), getElem?_eq_getElem (by omega)]
  exact (length_set).trans hqueue

theorem spec_sendBufferStatusReport {bs bs' : List BufferStatus} (h : Reported c bs)
    (hred : Forall₂ Reduced bs bs') (ht : t.ulDciTotalUsed + 5 ≤ c.dci.tbSize) :
    Spec (fun _ => False) (fun r => r.1.ulDciTotalUsed ≤ c.dci.tbSize ∧ r.1.dataBytes = t.dataBytes)
      (sendBufferStatusReport c bs' t) := by
  rw [sendBufferStatusReport]
  split
  · exact ⟨by dsimp only; omega, rfl⟩
  · refine (Spec.foldlM_mem (P := fun q => q.length = 4) (fun {q b'} hb' hq => ?_) rfl).bind
      fun q _ => ?_
    · obtain ⟨b, hb, hbb'⟩ := Related.exists_mem hred.flip hb'
      obtain ⟨i, hi, hgroup⟩ := h.configured b hb
      rw [← hbb'.lcid] at hi
      refine spec_addToQueue hi hgroup (fun h0 => ?_) hq
      obtain ⟨htx, hretx, hstatus⟩ := h.srb0 b hb (hbb'.lcid ▸ h0)
      have := hbb'.tx
      have := hbb'.retx
      have := hbb'.status
      omega
    · dsimp only
      rw [if_pos ht]
      exact ⟨ht, rfl⟩

/-! ## The grant -/

/-- `SendNewData` followed by `SendBufferStatusReport`, as in `ProcessUlDci`. -/
def sendGrant (c : Context) (rlc : Rlc) (bs : List BufferStatus) :
    Except MacError (List BufferStatus × Tx × Option (List Nat)) := do
  let (bs, t) ← sendNewData c rlc bs .init
  let (t, bsr) ← sendBufferStatusReport c bs t
  .ok (bs, t, bsr)

/-- The grant is not overused: the MAC does not stop, what it sends fits the block, and every
opportunity for data has seven bytes at least. -/
def Kept (c : Context) (rlc : Rlc) (bs : List BufferStatus) : Prop :=
  Spec (fun _ => False) (fun r => r.2.1.ulDciTotalUsed ≤ c.dci.tbSize ∧
    ∀ n ∈ r.2.1.dataBytes, 7 ≤ n) (sendGrant c rlc bs)

theorem forall_servable {bs bs' : List BufferStatus} (hred : Forall₂ Reduced bs bs')
    (h : ∀ b ∈ bs, Servable c b.lcid) : ∀ b ∈ bs', Servable c b.lcid := by
  intro b' hb'
  obtain ⟨b, hb, hbb'⟩ := Related.exists_mem hred.flip hb'
  rw [hbb'.lcid]
  exact h b hb

theorem kept_of_statusFits (h : Reported c bs)
    (hharq : c.dci.harqProcess < c.numHarqProcess) (hfits : StatusFits c.dci.tbSize bs) :
    Kept c rlc bs := by
  have hlc : ∀ b ∈ bs, Servable c b.lcid := fun b hb => h.servable hb
  have hnew : Spec (fun _ => False) (fun r => r.2.ulDciTotalUsed + 5 ≤ c.dci.tbSize ∧
      ∀ n ∈ r.2.dataBytes, 7 ≤ n) (sendNewData c rlc bs .init) := by
    rw [sendNewData, if_pos hharq]
    refine ((spec_sendNewStatusData h rfl hfits).also fun r => reduced_sendNewStatusData.ok).bind
      fun ⟨bs₁, t₁⟩ ⟨⟨hused₁, hdata₁⟩, hred₁⟩ => ?_
    have hnone : ∀ n ∈ t₁.dataBytes, 7 ≤ n := by
      intro n hn
      rw [show t₁.dataBytes = [] from hdata₁] at hn
      cases hn
    have hlc₁ := forall_servable hred₁ hlc
    refine ((spec_dataPhase rlc .takeRetx (fun _ _ _ hpos => if_neg (Nat.pos_iff_ne_zero.1 hpos))
      hlc₁ hused₁ hnone).also fun r => (reduced_dataPhase fun _ => reduced_sendRetxData).ok).bind
      fun ⟨bs₂, t₂⟩ ⟨⟨hused₂, hdata₂⟩, hred₂⟩ => ?_
    exact spec_dataPhase rlc .takeTx (fun _ _ _ hpos => if_neg (Nat.pos_iff_ne_zero.1 hpos))
      (forall_servable hred₂ hlc₁) hused₂ hdata₂
  refine (hnew.also fun r => reduced_sendNewData.ok).bind fun ⟨bs', t⟩ ⟨⟨hused, hdata⟩, hred⟩ => ?_
  refine (spec_sendBufferStatusReport h hred hused).bind fun r ⟨hle, hsame⟩ => ?_
  refine ⟨hle, fun n hn => hdata n ?_⟩
  rw [← hsame]
  exact hn

/-! ## Needed -/

/-- RLC entities that answer by the logical channel. -/
def Rlc.byLcid (a : Nat → Option Nat) : Rlc where
  pdu _ lcid bytes := (a lcid).filter (· ≤ bytes)
  le h := by simpa using (Option.filter_eq_some_iff.1 h).2

/-- The bytes used after the opportunity for a status PDU that is answered so. -/
def statusStep (a : Nat → Option Nat) (used : Nat) (b : BufferStatus) : Nat :=
  if 0 < b.statusPduSize ∧ used + b.statusPduSize ≤ tbSize then
    used + (((a b.lcid).filter (· ≤ b.statusPduSize)).elim 0 subPduSize)
  else used

theorem used_of_statusLoop {a : Nat → Option Nat} :
    ∀ {bs : List BufferStatus} {t : Tx} {r : List BufferStatus × Tx × Bool},
      statusLoop c (.byLcid a) bs t = .ok r →
        r.2.1.ulDciTotalUsed = bs.foldl (statusStep c.dci.tbSize a) t.ulDciTotalUsed
  | [], t, r, h => by
    cases h
    rfl
  | b :: bs, t, r, h => by
    rw [statusLoop] at h
    rw [foldl_cons, statusStep]
    split at h
    · next hroom =>
      rw [if_pos hroom]
      obtain ⟨t', ht', h⟩ := Lts.ok_of_bind h
      obtain ⟨r', hr', h⟩ := Lts.ok_of_bind h
      cases h
      rw [used_of_statusLoop hr']
      congr 1
      rw [notifyTxOpportunity] at ht'
      split at ht'
      · cases ht'
      · simp only [Rlc.byLcid] at ht'
        cases hpdu : (a b.lcid).filter (· ≤ b.statusPduSize) with
        | none =>
          rw [hpdu] at ht'
          cases ht'
          rfl
        | some size =>
          rw [hpdu] at ht'
          simp only [transmitPdu] at ht'
          split at ht'
          · cases ht'
          · split at ht'
            · cases ht'
              rfl
            · cases ht'
    · next hroom =>
      rw [if_neg hroom]
      obtain ⟨⟨bs', t', sent⟩, hr', h⟩ := Lts.ok_of_bind h
      cases h
      have hused := used_of_statusLoop hr'
      exact hused

theorem exists_subPduSize {d size : Nat} (hsize : size < 2 ^ 16) (hd : 2 ≤ d)
    (hle : d ≤ subPduSize size + 1) : ∃ m ≤ size, subPduSize m ≤ d ∧ d ≤ subPduSize m + 1 ∧
    (d = subPduSize size → subPduSize m = d) := by
  by_cases hfull : subPduSize size ≤ d
  · exact ⟨size, le_rfl, hfull, hle, fun h => h.symm⟩
  · unfold subPduSize at *
    rw [Nat.mod_eq_of_lt hsize] at *
    have hlt : d < size + 3 := by split at hfull <;> omega
    by_cases hsmall : d ≤ 130
    · refine ⟨min (d - 2) 127, ?_, ?_⟩
      · split at hfull <;> omega
      · rw [if_neg (by omega)]
        omega
    · refine ⟨d - 3, by omega, ?_⟩
      rw [Nat.mod_eq_of_lt (by omega), if_pos (by omega)]
      omega

/-- Some answers to the opportunities for status PDUs use any number of bytes up to their sum, up to
one byte. The last logical channel is given what those before it are made to leave. -/
theorem exists_used :
    (bs.map BufferStatus.lcid).Nodup → (∀ b ∈ bs, b.statusPduSize < 2 ^ 16) →
    ∀ v ≤ statusBytes (statusRoom tbSize bs), v ≤ tbSize →
      ∃ a : Nat → Option Nat, bs.foldl (statusStep tbSize a) 0 ≤ v ∧
        v ≤ bs.foldl (statusStep tbSize a) 0 + 1 ∧
        (v = statusBytes (statusRoom tbSize bs) → bs.foldl (statusStep tbSize a) 0 = v) := by
  induction bs using reverseRecOn with
  | nil =>
    intro _ _ v hv _
    have h0 : v = 0 := Nat.le_zero.1 hv
    exact ⟨fun _ => none, Nat.zero_le _, by omega, fun _ => h0.symm⟩
  | append_singleton bs b ih =>
    intro hnodup hlt v hv hvtb
    rw [map_append, nodup_append] at hnodup
    obtain ⟨hnd, -, hdisj⟩ := hnodup
    have ih := ih hnd fun b hb => hlt b (mem_append_left _ hb)
    have hblt : b.statusPduSize < 2 ^ 16 := hlt b (mem_append_right _ mem_cons_self)
    -- the answers of the others, and one for this logical channel
    have hupdate : ∀ (a : Nat → Option Nat) (x : Option Nat),
        (bs ++ [b]).foldl (statusStep tbSize (Function.update a b.lcid x)) 0 =
          statusStep tbSize (Function.update a b.lcid x) (bs.foldl (statusStep tbSize a) 0) b := by
      intro a x
      rw [foldl_append, foldl_cons, foldl_nil]
      congr 1
      refine foldl_ext _ _ _ fun u b' hb' => ?_
      have hne : b'.lcid ≠ b.lcid := hdisj _ (mem_map_of_mem hb') _ mem_cons_self
      rw [statusStep, statusStep, update_of_ne hne]
    by_cases hroom : 0 < b.statusPduSize ∧ b.statusPduSize ≤ tbSize
    · have hbytes : statusBytes (statusRoom tbSize (bs ++ [b])) =
          statusBytes (statusRoom tbSize bs) + subPduSize b.statusPduSize := by
        rw [statusRoom, filter_append, filter_cons_of_pos (by simpa using hroom), filter_nil]
        simp [statusBytes, statusRoom]
      rw [hbytes] at hv ⊢
      have hsub : b.statusPduSize + 2 ≤ subPduSize b.statusPduSize := by
        unfold subPduSize
        split <;> omega
      have hnone : ∀ a, (bs ++ [b]).foldl (statusStep tbSize (Function.update a b.lcid none)) 0 =
          bs.foldl (statusStep tbSize a) 0 := by
        intro a
        rw [hupdate, statusStep, update_self]
        simp
      by_cases hfew : v ≤ statusBytes (statusRoom tbSize bs)
      · obtain ⟨a, hle, hge, -⟩ := ih v hfew hvtb
        refine ⟨Function.update a b.lcid none, ?_, ?_, fun h => by omega⟩ <;> rwa [hnone]
      · obtain ⟨a, hle, hge, heq⟩ :=
          ih (min (statusBytes (statusRoom tbSize bs)) (tbSize - b.statusPduSize)) (by omega)
            (by omega)
        generalize hu : bs.foldl (statusStep tbSize a) 0 = u at hle hge heq hnone hupdate
        by_cases hone : v ≤ u + 1
        · refine ⟨Function.update a b.lcid none, ?_, ?_, fun h => ?_⟩
          · rw [hnone, hu]
            omega
          · rw [hnone, hu]
            exact hone
          · omega
        · obtain ⟨m, hm, hmle, hmge, hmeq⟩ := exists_subPduSize (d := v - u) hblt (by omega)
            (by omega)
          have hused : (bs ++ [b]).foldl (statusStep tbSize (Function.update a b.lcid (some m))) 0 =
              u + subPduSize m := by
            rw [hupdate, hu, statusStep, update_self, if_pos ⟨hroom.1, by omega⟩,
              Option.filter_some_pos (by simpa using hm)]
            rfl
          refine ⟨Function.update a b.lcid (some m), ?_, ?_, fun h => ?_⟩
          · rw [hused]
            omega
          · rw [hused]
            omega
          · have hexact := heq (by omega)
            have := hmeq (by omega)
            rw [hused]
            omega
    · have hbytes : statusRoom tbSize (bs ++ [b]) = statusRoom tbSize bs := by
        rw [statusRoom, filter_append, filter_cons_of_neg (by simpa using hroom), filter_nil,
          append_nil]
        rfl
      rw [hbytes] at hv ⊢
      obtain ⟨a, h⟩ := ih v hv hvtb
      have hskip : (bs ++ [b]).foldl (statusStep tbSize a) 0 = bs.foldl (statusStep tbSize a)
        0 := by
        rw [foldl_append, foldl_cons, foldl_nil]
        exact if_neg fun h => hroom ⟨h.1, by omega⟩
      exact ⟨a, by rwa [hskip]⟩

theorem statusLoop_of_noRoom :
    ∀ {bs : List BufferStatus} {t : Tx}, statusRoom c.dci.tbSize bs = [] →
      statusLoop c rlc bs t = .ok (bs, t, false)
  | [], _, _ => rfl
  | b :: bs, t, h => by
    rw [statusRoom, filter_eq_nil_iff] at h
    obtain ⟨hb, hbs⟩ := forall_mem_cons.1 h
    have hroom : ¬(0 < b.statusPduSize ∧ b.statusPduSize ≤ c.dci.tbSize) := by simpa using hb
    rw [statusLoop, if_neg fun h => hroom ⟨h.1, by omega⟩,
      statusLoop_of_noRoom (filter_eq_nil_iff.2 hbs)]
    rfl

theorem statusFits_of_kept (h : Reported c bs)
    (hkept : ∀ rlc, Kept c rlc bs) : StatusFits c.dci.tbSize bs := by
  -- what the first phase must leave, whatever the RLC entities answer
  have hfirst : ∀ rlc, ∃ r, sendNewStatusData c rlc bs .init = .ok r ∧
    r.2.ulDciTotalUsed + 5 ≤ c.dci.tbSize := by
    intro rlc
    have hk := hkept rlc
    rw [Kept, sendGrant, sendNewData] at hk
    split at hk
    · cases hr : sendNewStatusData c rlc bs .init with
      | error e =>
        rw [hr] at hk
        exact absurd hk id
      | ok r =>
        refine ⟨r, rfl, ?_⟩
        by_contra hno
        rw [hr, ok_bind] at hk
        simp only [dataPhase, hno, if_false] at hk
        exact hk
    · exact absurd hk id
  constructor
  · by_contra hmany
    obtain ⟨a, hle, hge, heq⟩ := exists_used c.dci.tbSize h.nodup h.status_lt
      (min (statusBytes (statusRoom c.dci.tbSize bs)) c.dci.tbSize) (by omega) (by omega)
    obtain ⟨r, hr, hused⟩ := hfirst (.byLcid a)
    obtain ⟨⟨bs', t', sent⟩, hr', hif⟩ := Lts.ok_of_bind hr
    have hused' : t'.ulDciTotalUsed = bs.foldl (statusStep c.dci.tbSize a) 0 :=
      used_of_statusLoop hr'
    dsimp only at hif
    split at hif
    · cases hif
    · cases hif
      dsimp only at hused
      omega
  · intro hroom b hb
    by_contra hpos
    obtain ⟨r, hr, -⟩ := hfirst (.byLcid fun _ => none)
    rw [sendNewStatusData, statusLoop_of_noRoom hroom, ok_bind] at hr
    have hany : (bs.any fun b => 0 < b.statusPduSize) = true :=
      any_eq_true.2 ⟨b, hb, by simpa using Nat.pos_of_ne_zero hpos⟩
    simp [hany] at hr

/-- A grant is not overused, whatever the RLC entities answer, exactly if the status PDUs for which
there is room fit together. -/
theorem grant_kept_iff {bs : List BufferStatus} (h : Reported c bs)
    (hharq : c.dci.harqProcess < c.numHarqProcess) :
    (∀ rlc, Kept c rlc bs) ↔ StatusFits c.dci.tbSize bs :=
  ⟨statusFits_of_kept h, fun hfits _ => kept_of_statusFits h hharq hfits⟩

/-- A UE with one data radio bearer and a grant of so many bytes. -/
def oneBearer : Context where
  lcInfoMap := [⟨3, 1⟩]
  rnti := 1
  numHarqProcess := 20
  dci := ⟨0, 1, 0, tbSize⟩

theorem reported_oneBearer (hlcid : b.lcid = 3)
    (hstatus : b.statusPduSize < 2 ^ 16) : Reported (oneBearer tbSize) [b] where
  nodup := nodup_singleton _
  lcid_le b' hb' := by
    cases mem_singleton.1 hb'
    omega
  configured b' hb' := by
    cases mem_singleton.1 hb'
    exact ⟨⟨3, 1⟩, by rw [hlcid]; rfl, by decide⟩
  srb0 b' hb' h0 := by
    cases mem_singleton.1 hb'
    omega
  status_lt b' hb' := by
    cases mem_singleton.1 hb'
    exact hstatus

/-- A status PDU of eight bytes and new data, in a block that holds them. -/
theorem grant_kept_iff_forty : Kept (oneBearer 40) .full [⟨3, 100, 0, 8⟩] :=
  (grant_kept_iff (reported_oneBearer 40 rfl (by decide)) (by decide)).2 ⟨by decide, by decide⟩
    .full

/-- A status PDU of eight bytes leaves no room for the BSR in a block of twelve. -/
theorem grant_overused : ¬∀ (c : Context) (bs : List BufferStatus) (rlc : Rlc), 12 ≤ c.dci.tbSize →
    Reported c bs → c.dci.harqProcess < c.numHarqProcess → Kept c rlc bs := by
  intro h
  have hkept := h (oneBearer 12) [⟨3, 0, 0, 8⟩] .full (by decide)
    (reported_oneBearer 12 rfl (by decide)) (by decide)
  exact hkept

end OranNs3.UeGrant
