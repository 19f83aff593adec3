import OranNs3.Tcp.RxSegments
import OranNs3.Tcp.TxStream

/-!
# The transfer of a stream

A transmit buffer and a receive buffer with a network between them that loses, repeats and reorders
segments and acknowledgments, as far as sequence numbers can tell them apart: what arrives is less
than half the sequence space old. What the receiving application reads is what the sending one
wrote, and a byte leaves the transmit buffer only when it was received (`transfer_of_run`). Each end
keeps its own invariant (`TxBuffer.Inv`, `World.Inv`); what joins them are the positions that
segments and acknowledgments carry.
-/

namespace OranNs3.Tcp

open SequenceNumber32 Intervals Fuel List Option

/-- Two ends, the bytes of the stream that were written, and those that are acknowledged. Segments
and acknowledgments in the network come with the positions of their numbers. -/
structure Transfer where
  tx : TxBuffer
  rx : World
  written : Nat
  acked : Nat
  segments : List (Nat × Nat × List UInt8)
  acks : List (Nat × Nat)

/-- The applications write and read; segments with `n` bytes from a position on and acknowledgments
are sent, and arrive. -/
inductive TransferAction where
  | write (n : Nat)
  | send (now n k : Nat)
  | deliver (segment : Nat × Nat × List UInt8)
  | read (maxSize : Nat)
  | acknowledge
  | receiveAck (now : Nat) (ack : Nat × Nat)

namespace Transfer

variable (isn : Nat) (stream : List UInt8) (t t' : Transfer)

/-- A connection on which nothing was sent. -/
def new (txBuffer rxBuffer dupAckThresh : Nat) (sackEnabled : Bool) : Transfer where
  tx := TxBuffer.new (seq isn 0) txBuffer dupAckThresh sackEnabled
  rx := World.new isn rxBuffer
  written := 0
  acked := 0
  segments := []
  acks := []

/-- A segment as the receive buffer takes it. -/
def arrive (segment : Nat × Nat × List UInt8) : Option World :=
  (t.rx.rx.add segment.2.2 segment.2.1).map fun (rx, _) => { t.rx with
    rx
    offered := (segment.1, (t.rx.windowEnd isn).elim (segment.1 + segment.2.2.length)
      (min (segment.1 + segment.2.2.length))) :: t.rx.offered }

/-- A step in which `CopyFromSequence` and `DiscardUpTo` may make so many calls. -/
def step? (calls : Nat) (t : Transfer) : TransferAction → Option Transfer
  | .write n =>
    let r := t.tx.add (slice stream (t.written, t.written + n))
    some { t with tx := r.1, written := if r.2 then t.written + n else t.written }
  | .send now n k => (TxBuffer.copyFromSequence now calls t.tx n (seq isn k)).bind fun r =>
    r.2.map fun item =>
      { t with tx := r.1, segments := (k, item.startSeq, item.packet) :: t.segments }
  | .deliver segment => if segment ∈ t.segments then (t.arrive isn segment).map fun rx =>
    { t with rx } else none
  | .read maxSize => (t.rx.call? isn stream (.extract maxSize)).map fun rx => { t with rx }
  | .acknowledge =>
    some { t with acks := (t.rx.position isn t.rx.rx.nextRxSeq, t.rx.rx.nextRxSeq) :: t.acks }
  | .receiveAck now ack =>
    if t.acks.any (· = ack) then (t.tx.discardUpTo now calls ack.2).map fun tx =>
      { t with tx, acked := max t.acked ack.1 } else none

/-- A step that returns. -/
def Step (t : Transfer) (action : TransferAction) (t' : Transfer) : Prop :=
  ∃ calls, step? isn stream calls t action = some t'

/-- The transmit buffer never has half the sequence space, and gives segments from places that it
admits; what arrives is less than half the sequence space old. -/
def Fits : TransferAction → Prop
  | .write n => t.written + n ≤ stream.length ∧ t.written + n < t.acked + 2 ^ 31
  | .send _ n k => 0 < n ∧ t.acked ≤ k ∧ k ≤ t.acked + t.tx.sentSize ∧ k < t.written ∧
      t.tx.Unwrapped n (seq isn k)
  | .deliver segment => segment ∈ t.segments ∧
      World.Fits isn stream t.rx (.add segment.1 segment.2.2.length)
  | .receiveAck _ ack => ack ∈ t.acks ∧ t.acked < ack.1 + 2 ^ 31
  | _ => True

/-- What is read was written, what was written and is not acknowledged is kept, what is acknowledged
was received, and a segment has the bytes at its number. -/
structure Transferred : Prop where
  read : t.rx.extracted <+: stream.take t.written
  kept : bytes t.tx.sentList ++ bytes t.tx.appList = slice stream (t.acked, t.written)
  acked : ∀ x < t.acked, Covers t.rx.offered x
  segments : ∀ e ∈ t.segments, e.2.1 = seq isn e.1 ∧
    e.2.2 = slice stream (e.1, e.1 + e.2.2.length) ∧ e.1 + e.2.2.length ≤ t.written

/-- What every step keeps. -/
structure Inv : Prop where
  tx : TxBuffer.Inv (seq isn t.acked) (slice stream (t.acked, t.written)) t.tx
  rx : ∃ l c, World.Inv isn stream t.rx l c
  open_ : t.rx.rx.gotFin = false
  acked_le : t.acked ≤ t.written
  written : t.written ≤ stream.length
  offered : ∀ x, Covers t.rx.offered x → x < t.written
  acked : ∀ x < t.acked, Covers t.rx.offered x
  segments : ∀ e ∈ t.segments, e.2.1 = seq isn e.1 ∧
    e.2.2 = slice stream (e.1, e.1 + e.2.2.length) ∧ e.1 + e.2.2.length ≤ t.written
  acks : ∀ e ∈ t.acks, e.2 = seq isn e.1 ∧ ∀ x < e.1, Covers t.rx.offered x

variable {isn stream t t'}

theorem seq_seq (a b : Nat) : seq (seq isn a) b = seq isn (a + b) := by
  simp only [seq]
  omega

section inv
variable (h : t.Inv isn stream)
include h

theorem Inv.transferred : t.Transferred isn stream where
  read := by
    obtain ⟨l, c, hinv⟩ := h.rx
    refine prefix_take_iff.2 ⟨hinv.extracted, ?_⟩
    by_contra hlt
    exact absurd (h.offered t.written ((hinv.received _).2 (.inl (by omega)))) (Nat.lt_irrefl _)
  kept := h.tx.eq
  acked := h.acked
  segments := h.segments

theorem Inv.write {n : Nat} (hfits : t.Fits isn stream (.write n)) :
    ∃ t', Returns (fun calls => step? isn stream calls t (.write n)) t' ∧ t'.Inv isn stream := by
  refine ⟨_, .const _, ?_⟩
  obtain ⟨hn, hsmall⟩ := hfits
  have hle := h.acked_le
  have hwritten := h.written
  have hadd := h.tx.add (p := slice stream (t.written, t.written + n)) fun _ => by
    rw [length_slice hwritten, length_slice hn]
    omega
  cases hr : (t.tx.add (slice stream (t.written, t.written + n))).2 with
  | false =>
    rw [hr] at hadd
    exact { h with tx := by simpa using hadd }
  | true =>
    rw [hr, if_pos rfl, slice_append hle (by omega)] at hadd
    refine { h with
      tx := hadd, acked_le := ?_, written := hn, offered := fun x hx => ?_, segments :=
        fun e he => ?_ }
    · exact hle.trans (Nat.le_add_right _ _)
    · exact (h.offered x hx).trans_le (Nat.le_add_right _ _)
    · obtain ⟨hnumber, hslice, hend⟩ := h.segments e he
      exact ⟨hnumber, hslice, hend.trans (Nat.le_add_right _ _)⟩

theorem Inv.send {now n k : Nat} (hfits : t.Fits isn stream (.send now n k)) :
    ∃ t', Returns (fun calls => step? isn stream calls t (.send now n k)) t' ∧
      t'.Inv isn stream := by
  obtain ⟨hn, hk, hsent, hlt, hunwrapped⟩ := hfits
  have hle := h.acked_le
  have hlength : (slice stream (t.acked, t.written)).length = t.written - t.acked :=
    length_slice h.written
  obtain ⟨a, rfl⟩ : ∃ a, k = t.acked + a := ⟨k - t.acked, by omega⟩
  rw [← seq_seq] at hunwrapped
  obtain ⟨tx, item, hret, hinv, hstart, hpos, hsize, hpacket⟩ := h.tx.copyFromSequence now (n := n)
    (k := a) (by omega) (by omega) ((h.tx.unwrapped (by omega)).1 hunwrapped)
  have hfit : a + item.size ≤ t.written - t.acked := by
    have hlen := congrArg List.length hpacket
    rw [slice, length_take, length_drop, hlength] at hlen
    rw [TxItem.size] at hpos ⊢
    omega
  have hreturns : Returns (fun calls => step? isn stream calls t (.send now n (t.acked + a)))
      { t with tx, segments := (t.acked + a, item.startSeq, item.packet) :: t.segments } := by
    simp only [step?, ← seq_seq]
    exact hret.bind (.const _)
  refine ⟨_, hreturns, { h with tx := hinv, segments := fun e he => ?_ }⟩
  rcases mem_cons.1 he with rfl | he
  · refine ⟨hstart.trans (seq_seq _ _), ?_, ?_⟩
    · have hcut : slice stream (t.acked, t.written) = slice stream
        (t.acked, t.acked + (t.written - t.acked)) := by
        rw [Nat.add_sub_cancel' hle]
      rw [hcut, slice_slice hfit] at hpacket
      exact hpacket
    · change t.acked + a + item.size ≤ t.written
      omega
  · exact h.segments e he

theorem Inv.receive {call : RxCall} {rx : World} (hfits : World.Fits isn stream t.rx call)
    (hstep : t.rx.Step isn stream call rx) (hfin : rx.rx.gotFin = t.rx.rx.gotFin)
    (hmono : ∀ x, Covers t.rx.offered x → Covers rx.offered x)
    (hoffered : ∀ x, Covers rx.offered x → x < t.written) : Inv isn stream { t with rx } where
  tx := h.tx
  rx := by
    obtain ⟨l, c, hinv⟩ := h.rx
    obtain ⟨rx', l', c', hstep', hinv'⟩ := hinv.step hfits
    cases (hstep.symm.trans hstep' : some rx = some rx')
    exact ⟨l', c', hinv'⟩
  open_ := hfin.trans h.open_
  acked_le := h.acked_le
  written := h.written
  offered := hoffered
  acked := fun x hx => hmono x (h.acked x hx)
  segments := h.segments
  acks := fun e he => ⟨(h.acks e he).1, fun x hx => hmono x ((h.acks e he).2 x hx)⟩

theorem Inv.deliver {segment : Nat × Nat × List UInt8}
    (hfits : t.Fits isn stream (.deliver segment)) :
    ∃ t', Returns (fun calls => step? isn stream calls t (.deliver segment)) t' ∧
      t'.Inv isn stream := by
  obtain ⟨hmem, hfits⟩ := hfits
  obtain ⟨k, s, p⟩ := segment
  obtain ⟨hnumber, hslice, hend⟩ := h.segments _ hmem
  dsimp only at hnumber hslice hend hfits
  obtain ⟨l, c, hinv⟩ := h.rx
  obtain ⟨rx, l', c', hstep, -⟩ := hinv.step hfits
  have harrive : t.arrive isn (k, s, p) = some rx := by
    rw [← show World.call? isn stream t.rx (.add k p.length) = some rx from hstep, World.call?,
      ← hslice, ← hnumber, arrive]
  refine ⟨{ t with rx }, (Returns.const _).congr fun _ => ?_, ?_⟩
  · rw [step?, if_pos hmem, harrive, map_some]
  obtain ⟨⟨rx', r⟩, hadd, rfl⟩ := map_eq_some_iff.1 harrive
  refine h.receive hfits hstep (RxBuffer.add_frame hadd).1 (fun x hx => covers_cons.2 (.inr hx))
    fun x hx => ?_
  rcases covers_cons.1 hx with ⟨-, hlt⟩ | hx
  · refine hlt.trans_le (le_trans ?_ hend)
    cases t.rx.windowEnd isn with
    | none => exact le_rfl
    | some e => exact min_le_left _ _
  · exact h.offered x hx

theorem Inv.read (maxSize : Nat) :
    ∃ t', Returns (fun calls => step? isn stream calls t (.read maxSize)) t' ∧
      t'.Inv isn stream := by
  obtain ⟨l, c, hinv⟩ := h.rx
  obtain ⟨rx, l', c', hstep, -⟩ := hinv.extract maxSize
  refine ⟨{ t with rx }, (Returns.const _).congr fun _ => ?_, ?_⟩
  · rw [step?, show t.rx.call? isn stream (.extract maxSize) = some rx from hstep, map_some]
  obtain ⟨⟨rx', r⟩, hextract, rfl⟩ := map_eq_some_iff.1 hstep
  have hfits : World.Fits isn stream t.rx (.extract maxSize) := ⟨trivial, trivial⟩
  exact h.receive hfits hstep (RxBuffer.extract_frame hextract).1 (fun _ => id) h.offered

theorem Inv.acknowledge :
    Inv isn stream { t with acks := (t.rx.position isn t.rx.rx.nextRxSeq, t.rx.rx.nextRxSeq) ::
      t.acks } := by
  obtain ⟨l, c, hinv⟩ := h.rx
  obtain ⟨lo, hmarked⟩ := hinv.marked
  have hc : t.rx.nextPosition stream c = c := by
    rw [World.nextPosition, h.open_]
    rfl
  have hposition : t.rx.position isn t.rx.rx.nextRxSeq = c := by
    have hle := hinv.le
    rw [← hc] at hle
    rw [hinv.next, hinv.position hmarked hmarked.next hle, hc]
  refine { h with acks := fun e he => ?_ }
  rcases mem_cons.1 he with rfl | he
  · rw [hposition]
    exact ⟨hc ▸ hinv.next, hinv.right.contiguous.1⟩
  · exact h.acks e he

theorem Inv.receiveAck {now : Nat} {ack : Nat × Nat}
    (hfits : t.Fits isn stream (.receiveAck now ack)) :
    ∃ t', Returns (fun calls => step? isn stream calls t (.receiveAck now ack)) t' ∧
      t'.Inv isn stream := by
  obtain ⟨hmem, hnear⟩ := hfits
  obtain ⟨hnumber, hreceived⟩ := h.acks ack hmem
  have hle := h.acked_le
  have hwritten := h.written
  have hsmall := h.tx.small
  rw [length_slice hwritten] at hsmall
  have hack : ack.1 ≤ t.written := by
    by_contra hlt
    exact absurd (h.offered _ (hreceived t.written (by omega))) (Nat.lt_irrefl _)
  have hge : Ge (seq isn t.acked) (seq isn ack.1) ↔ ack.1 ≤ t.acked := ge_seq (by omega) (by omega)
  have hreturns {tx : TxBuffer}
    (hret : Returns (fun calls => t.tx.discardUpTo now calls (seq isn ack.1)) tx) :
      Returns (fun calls => step? isn stream calls t (.receiveAck now ack)) { t with
        tx, acked := max t.acked ack.1 } :=
    (hret.map fun tx => { t with tx, acked := max t.acked ack.1 }).congr fun calls => by
      rw [step?, if_pos (any_eq_true.2 ⟨ack, hmem, decide_eq_true rfl⟩), hnumber]
  rcases Nat.lt_or_ge t.acked ack.1 with hlt | hold
  · obtain ⟨tx, hret, hinv⟩ := h.tx.discardUpTo now (k := seq isn ack.1) (seq_lt _ _)
      (hge.not.2 (by omega))
    refine ⟨_, hreturns hret, ?_⟩
    have hdrop : (slice stream (t.acked, t.written)).drop
      (toUint32 (sub (seq isn ack.1) (seq isn t.acked))) =
        slice stream (ack.1, t.written) := by
      rw [toUint32_sub_seq (by omega) hlt.le, slice, slice, drop_take, drop_drop]
      congr 1
      · omega
      · congr 1
        omega
    rw [hdrop] at hinv
    rw [max_eq_right hlt.le]
    exact { h with tx := hinv, acked_le := hack, acked := hreceived }
  · refine ⟨_, hreturns ((Returns.const t.tx).congr fun calls => ?_), ?_⟩
    · rw [TxBuffer.discardUpTo, h.tx.first, if_pos (hge.2 hold)]
    · rw [max_eq_left hold]
      exact h

theorem Inv.step {action : TransferAction} (hfits : t.Fits isn stream action) :
    ∃ t', Returns (fun calls => step? isn stream calls t action) t' ∧ t'.Inv isn stream := by
  cases action with
  | write n => exact h.write hfits
  | send now n k => exact h.send hfits
  | deliver segment => exact h.deliver hfits
  | read maxSize => exact h.read maxSize
  | acknowledge => exact ⟨_, .const _, h.acknowledge⟩
  | receiveAck now ack => exact h.receiveAck hfits

end inv

theorem step?_mono (action : TransferAction) : Mono fun calls =>
    step? isn stream calls t action := by
  intro calls
  cases action with
  | send now n k => exact (copyFromSequence_mono calls).bind fun _ => .refl _
  | receiveAck now ack => exact .ite ((call_mono (.discardUpTo now ack.2) calls).map _) (.refl _)
  | _ => exact .refl _

theorem Inv.of_step {action : TransferAction} (h : t.Inv isn stream)
    (hfits : t.Fits isn stream action) (hstep : t.Step isn stream action t') :
    t'.Inv isn stream := by
  obtain ⟨t₁, hret, hinv⟩ := h.step hfits
  obtain ⟨calls, hcall⟩ := hret.exists
  obtain ⟨calls', hcall'⟩ := hstep
  cases (step?_mono action).unique hcall hcall'
  exact hinv

theorem inv_new {txBuffer rxBuffer dupAckThresh : Nat} {sackEnabled : Bool} :
    (new isn txBuffer rxBuffer dupAckThresh sackEnabled).Inv isn stream where
  tx := TxWorld.inv_new (seq_lt isn 0)
  rx := ⟨[], 0, World.inv_new isn stream rxBuffer⟩
  open_ := rfl
  acked_le := le_rfl
  written := Nat.zero_le _
  offered := by simp [new, World.new]
  acked := by simp [new]
  segments := by simp [new]
  acks := by simp [new]

/-- In every such run what the receiving application has read is what the sending one wrote, every
byte that was not received is still in the transmit buffer, and the next step does not fail. -/
theorem transfer_of_run {txBuffer rxBuffer dupAckThresh : Nat} {sackEnabled : Bool}
    (hrun : Lts.Run (Step isn stream) (Fits isn stream)
      (new isn txBuffer rxBuffer dupAckThresh sackEnabled) t) :
    t.Transferred isn stream ∧ ∀ action, t.Fits isn stream action → ∃ t',
      t.Step isn stream action t' := by
  have h : t.Inv isn stream := hrun.invariant (I := Inv isn stream) Inv.of_step inv_new
  refine ⟨h.transferred, fun action hfits => ?_⟩
  obtain ⟨t', hret, -⟩ := h.step hfits
  exact ⟨t', hret.exists⟩

instance (isn : Nat) (stream : List UInt8) (t : Transfer) : DecidablePred (t.Fits isn stream)
  | .write _ => inferInstanceAs (Decidable (_ ∧ _))
  | .send _ _ _ => inferInstanceAs (Decidable (_ ∧ _))
  | .deliver _ => inferInstanceAs (Decidable (_ ∧ _))
  | .read _ | .acknowledge => inferInstanceAs (Decidable True)
  | .receiveAck _ _ => inferInstanceAs (Decidable (_ ∧ _))

/-- Twelve bytes whose numbers go round, in two segments that change places, of which the first one
is sent twice. -/
theorem transfer_of_run_example : ∃ t : Transfer,
    t.Transferred (2 ^ 32 - 4) (List.range 12 |>.map (·.toUInt8)) ∧ t.rx.extracted.length = 12 ∧
      t.acked = 12 := by
  have hexec : (Lts.execs (Fits (2 ^ 32 - 4) (List.range 12 |>.map (·.toUInt8)))
      (step? (2 ^ 32 - 4) (List.range 12 |>.map (·.toUInt8)) 9)
      (new (2 ^ 32 - 4) 65536 32768 3 true)
      [.write 12, .send 0 8 0, .send 0 8 8, .send 0 8 0, .deliver (8, 4, [8, 9, 10, 11]),
        .deliver (0, 2 ^ 32 - 4, [0, 1, 2, 3, 4, 5, 6, 7]), .read 5, .acknowledge, .read 20,
        .receiveAck 0 (12, 8),
        .deliver (0, 2 ^ 32 - 4, [0, 1, 2, 3, 4, 5, 6, 7])]).map (fun t =>
          (t.rx.extracted.length, t.acked)) =
      some (12, 12) := by
    decide +kernel
  obtain ⟨t, ht, hm⟩ := map_eq_some_iff.1 hexec
  obtain ⟨hread, hacked⟩ := Prod.mk.inj hm
  exact ⟨t, (transfer_of_run (Lts.run_of_execs (fun h => ⟨9, h⟩) ht)).1, hread, hacked⟩

end Transfer

end OranNs3.Tcp
