import OranNs3.Tcp.RxBufferRuns

/-!
# Segments with any payload

The numbers of a receive buffer do not depend on what the payloads are: with every byte replaced by
0 (`RxBuffer.blank`) each call does the same. So the invariant of a buffer that receives a stream
(`World.Inv`) holds of one that receives segments of which no two need to agree on a byte, for a
stream of zeros that is long enough (`World.inv_of_segments`).
-/

namespace OranNs3.Tcp

open SequenceNumber32 List Option

/-- A payload with its bytes replaced. -/
def blank (p : List UInt8) : List UInt8 := p.map fun _ => 0

variable {p : List UInt8}

@[simp] theorem length_blank : (blank p).length = p.length := length_map _

@[simp] theorem blank_append {p q : List UInt8} : blank (p ++ q) = blank p ++ blank q := map_append

theorem blank_take {n : Nat} : (blank p).take n = blank (p.take n) := List.map_take.symm

theorem blank_drop {n : Nat} : (blank p).drop n = blank (p.drop n) := List.map_drop.symm

theorem blank_eq_replicate : blank p = replicate p.length 0 := map_const'

/-- What is stored, with its bytes replaced. -/
def blankData (data : List (Nat × List UInt8)) : List (Nat × List UInt8) :=
  data.map fun e => (e.1, blank e.2)

@[simp]
theorem blankData_cons {k : Nat} {data : List (Nat × List UInt8)} :
    blankData ((k, p) :: data) = (k, blank p) :: blankData data := rfl

namespace RxBuffer

/-- A buffer with the bytes replaced that it stores. -/
def blank (b : RxBuffer) : RxBuffer := { b with data := blankData b.data }

variable {b b' : RxBuffer} {data : List (Nat × List UInt8)} {p : List UInt8} {k seq : Nat}

theorem setData_blank :
    setData k (Tcp.blank p) (blankData data) = blankData (setData k p data) := by
  induction data with
  | nil => rfl
  | cons e data ih =>
    obtain ⟨k', p'⟩ := e
    rw [blankData_cons, setData, setData]
    split <;> [skip; split]
    · rfl
    · rw [ih, blankData_cons]
    · rfl

theorem trimToWindow_blank {headSeq tailSeq : Nat} :
    b.blank.trimToWindow headSeq tailSeq = b.trimToWindow headSeq tailSeq := by
  obtain ⟨_, _, _, _, _, _, data, _⟩ := b
  cases data <;> rfl

theorem removeOverlap_blank {headSeq tailSeq size : Nat} :
    removeOverlap (blankData data) headSeq tailSeq size =
    (blankData (removeOverlap data headSeq tailSeq size).1,
      (removeOverlap data headSeq tailSeq size).2) := by
  induction data generalizing headSeq tailSeq size with
  | nil => rfl
  | cons e data ih =>
    obtain ⟨k, p⟩ := e
    rw [blankData_cons, removeOverlap, removeOverlap, length_blank]
    dsimp only
    split <;> [split <;> [split; skip]; skip]
    · rw [ih]
    · rw [ih, blankData_cons]
    · rw [ih, blankData_cons]
    · rfl

theorem updateSackList_blank {head tail : Nat} (h : b.updateSackList head tail = some b') :
    b.blank.updateSackList head tail = some b'.blank := by
  obtain ⟨hgt, hmerge⟩ := ite_none_right_eq_some.1 h
  obtain ⟨l, hl, rfl⟩ := map_eq_some_iff.1 hmerge
  have hgt' : Gt head b.blank.nextRxSeq := hgt
  have hl' : mergeSack (head, tail) [] b.blank.sackList = some l := hl
  rw [updateSackList, if_pos hgt', hl', map_some]
  rfl

theorem advance_blank (h : advance data b = some b') :
    advance (blankData data) b.blank = some b'.blank := by
  induction data generalizing b with
  | nil =>
    cases h
    rfl
  | cons e data ih =>
    obtain ⟨k, p⟩ := e
    have hnext : b.blank.nextRxSeq = b.nextRxSeq := rfl
    rw [advance] at h
    rw [blankData_cons, advance, length_blank, hnext]
    split at h <;> [skip; split at h]
    · next hlt =>
      rw [if_pos hlt]
      exact ih h
    · next hle hgt =>
      cases h
      rw [if_neg hle, if_pos hgt]
    · next hle hge =>
      obtain ⟨l, hl, h⟩ := bind_eq_some_iff.1 h
      have hl' : clearSackList (SequenceNumber32.add k p.length) b.blank.sackList = some l := hl
      rw [if_neg hle, if_neg hge, hl', bind_some]
      exact ih h

theorem store_blank {headSeq tailSeq : Nat} (h : b.store headSeq tailSeq p = some b') :
    b.blank.store headSeq tailSeq (Tcp.blank p) = some b'.blank := by
  obtain ⟨hfind, h⟩ := ite_none_right_eq_some.1 h
  obtain ⟨b₁, hsack, h⟩ := bind_eq_some_iff.1 h
  obtain ⟨b₂, hadvance, rfl⟩ := map_eq_some_iff.1 h
  have hfind' : ∀ e ∈ b.blank.data, Lt headSeq e.1 ∨ Lt e.1 headSeq := by
    intro e he
    obtain ⟨e', he', rfl⟩ := mem_map.1 he
    exact hfind e' he'
  have hset : ({ b.blank with data := setData headSeq (Tcp.blank p) b.blank.data } : RxBuffer) =
      ({ b with data := setData headSeq p b.data } : RxBuffer).blank := by
    simp only [blank, setData_blank]
  have hsack' : (if Gt headSeq b.blank.nextRxSeq then
      ({ b.blank with data := setData headSeq (Tcp.blank p) b.blank.data } :
        RxBuffer).updateSackList headSeq tailSeq
      else some { b.blank with data := setData headSeq (Tcp.blank p) b.blank.data }) =
        some b₁.blank := by
    rw [hset]
    split at hsack
    · next hgt => exact (if_pos hgt).trans (updateSackList_blank hsack)
    · next hle =>
      cases hsack
      exact if_neg hle
  have hadvance' :
      advance b₁.blank.data { b₁.blank with size := b₁.blank.size + (Tcp.blank p).length } =
      some b₂.blank := by
    rw [length_blank]
    exact advance_blank hadvance
  rw [store, if_pos hfind']
  dsimp only
  rw [hsack', bind_some, hadvance', map_some]
  have hfin : b₂.blank.gotFin = b₂.gotFin ∧ b₂.blank.nextRxSeq = b₂.nextRxSeq ∧
    b₂.blank.finSeq = b₂.finSeq :=
    ⟨rfl, rfl, rfl⟩
  rw [hfin.1, hfin.2.1, hfin.2.2]
  split <;> rfl

theorem createFragment_blank {start length : Nat} {q : List UInt8}
    (h : createFragment p start length = some q) :
    createFragment (Tcp.blank p) start length = some (Tcp.blank q) := by
  obtain ⟨hle, heq⟩ := ite_none_right_eq_some.1 h
  obtain rfl := some.inj heq
  rw [createFragment, length_blank, if_pos hle, blank_drop, blank_take]

theorem add_blank {r : Bool} (h : b.add p seq = some (b', r)) :
    b.blank.add (Tcp.blank p) seq = some (b'.blank, r) := by
  rw [add] at h
  rw [add, length_blank, trimToWindow_blank]
  have hdata : b.blank.data = blankData b.data := rfl
  have hsize : b.blank.size = b.size := rfl
  rw [hdata, hsize, removeOverlap_blank]
  dsimp only at h ⊢
  generalize removeOverlap b.data (b.trimToWindow seq (SequenceNumber32.add seq p.length)).1
    (b.trimToWindow seq (SequenceNumber32.add seq p.length)).2 b.size = r at *
  obtain ⟨data, headSeq, tailSeq, size⟩ := r
  dsimp only at h ⊢
  split at h
  · next hge =>
    cases h
    rw [if_pos hge]
    rfl
  · next hlt =>
    obtain ⟨q, hq, h⟩ := bind_eq_some_iff.1 h
    obtain ⟨b₁, hstore, heq⟩ := map_eq_some_iff.1 h
    obtain ⟨rfl, rfl⟩ := Prod.mk.inj heq
    rw [if_neg hlt, createFragment_blank hq, bind_some]
    have hstore' := store_blank hstore
    exact map_eq_some_iff.2 ⟨_, hstore', rfl⟩

theorem extractLoop_blank {nextRxSeq n : Nat} {out : List UInt8} {data' : List (Nat × List UInt8)}
    (h : extractLoop nextRxSeq data n = some (data', out)) :
    extractLoop nextRxSeq (blankData data) n = some (blankData data', Tcp.blank out) := by
  induction data generalizing n out data' with
  | nil =>
    cases n with
    | zero =>
      cases h
      rfl
    | succ n => cases h
  | cons e data ih =>
    obtain ⟨k, p⟩ := e
    cases n with
    | zero =>
      cases h
      rfl
    | succ n =>
      rw [extractLoop] at h
      rw [blankData_cons, extractLoop, length_blank]
      obtain ⟨hle, h⟩ := ite_none_right_eq_some.1 h
      rw [if_pos hle]
      split at h
      · next hfits =>
        obtain ⟨⟨rest, out'⟩, hrest, heq⟩ := map_eq_some_iff.1 h
        obtain ⟨rfl, rfl⟩ := Prod.mk.inj heq
        rw [if_pos hfits, ih hrest, map_some, blank_append]
      · next hpart =>
        cases h
        rw [if_neg hpart, blank_take, blank_drop, ← blankData_cons, setData_blank]
        congr 2
        generalize setData (SequenceNumber32.add k (n + 1)) (p.drop (n + 1)) ((k, p) :: data) = d
        rw [blankData, eraseP_map]
        rfl

variable {maxSize : Nat}

theorem extract_blank {r : Option (List UInt8)} (h : b.extract maxSize = some (b', r)) :
    b.blank.extract maxSize = some (b'.blank, r.map Tcp.blank) := by
  rw [extract] at h ⊢
  have havail : b.blank.availBytes = b.availBytes := rfl
  rw [havail]
  dsimp only at h ⊢
  split at h
  · next hzero =>
    cases h
    rw [if_pos hzero]
    rfl
  · next hpos =>
    obtain ⟨⟨data, out⟩, hloop, heq⟩ := map_eq_some_iff.1 h
    obtain ⟨rfl, rfl⟩ := Prod.mk.inj heq
    rw [if_neg hpos]
    refine map_eq_some_iff.2 ⟨_, extractLoop_blank hloop, ?_⟩
    dsimp only
    rw [length_blank]
    split <;> rfl

/-! ### What no call changes -/

theorem advance_frame (h : advance data b = some b') : b'.gotFin = b.gotFin ∧
    b'.maxBuffer = b.maxBuffer := by
  induction data generalizing b with
  | nil =>
    cases h
    exact ⟨rfl, rfl⟩
  | cons e data ih =>
    obtain ⟨k, p⟩ := e
    rw [advance] at h
    split at h <;> [skip; split at h]
    · exact ih h
    · cases h
      exact ⟨rfl, rfl⟩
    · obtain ⟨l, -, h⟩ := bind_eq_some_iff.1 h
      have hrest := ih h
      exact hrest

theorem add_frame {r : Bool} (h : b.add p seq = some (b', r)) : b'.gotFin = b.gotFin ∧
    b'.maxBuffer = b.maxBuffer := by
  rw [add] at h
  dsimp only at h
  split at h
  · cases h
    exact ⟨rfl, rfl⟩
  · obtain ⟨q, -, h⟩ := bind_eq_some_iff.1 h
    obtain ⟨b₁, hstore, heq⟩ := map_eq_some_iff.1 h
    obtain ⟨rfl, -⟩ := Prod.mk.inj heq
    obtain ⟨-, hstore⟩ := ite_none_right_eq_some.1 hstore
    obtain ⟨b₂, hsack, hstore⟩ := bind_eq_some_iff.1 hstore
    obtain ⟨b₃, hadvance, rfl⟩ := map_eq_some_iff.1 hstore
    have hframe := advance_frame hadvance
    have hframe₂ : b₂.gotFin = b.gotFin ∧ b₂.maxBuffer = b.maxBuffer := by
      split at hsack
      · obtain ⟨-, hmerge⟩ := ite_none_right_eq_some.1 hsack
        obtain ⟨l, -, rfl⟩ := map_eq_some_iff.1 hmerge
        exact ⟨rfl, rfl⟩
      · cases hsack
        exact ⟨rfl, rfl⟩
    split
    · exact ⟨hframe.1.trans hframe₂.1, hframe.2.trans hframe₂.2⟩
    · exact ⟨hframe.1.trans hframe₂.1, hframe.2.trans hframe₂.2⟩

theorem extract_frame {r : Option (List UInt8)} (h : b.extract maxSize = some (b', r)) :
    b'.gotFin = b.gotFin ∧ b'.maxBuffer = b.maxBuffer ∧ b'.sackList = b.sackList := by
  rw [extract] at h
  dsimp only at h
  split at h
  · cases h
    exact ⟨rfl, rfl, rfl⟩
  · obtain ⟨⟨data, out⟩, -, heq⟩ := map_eq_some_iff.1 h
    obtain ⟨rfl, -⟩ := Prod.mk.inj heq
    exact ⟨rfl, rfl, rfl⟩

end RxBuffer

/-! ## Calls with any payload -/

/-- A call: `Add` with a payload whose first byte has the position `k`, and `Extract`. -/
inductive SegmentCall where
  | add (k : Nat) (p : List UInt8)
  | extract (maxSize : Nat)
  deriving DecidableEq

namespace World

variable {isn : Nat} {w w' : World} {l : List (Nat × Nat)} {c N : Nat}

/-- One call; without a result where the buffer asserts. -/
def receive? (isn : Nat) (w : World) : SegmentCall → Option World
  | .add k p =>
    (w.rx.add p (seq isn k)).map fun (rx, _) =>
      { w with rx, offered := (k, (w.windowEnd isn).elim (k + p.length) (min (k + p.length))) ::
        w.offered }
  | .extract maxSize =>
    (w.rx.extract maxSize).map fun (rx, outPkt) =>
      { w with rx, extracted := w.extracted ++ outPkt.getD [] }

def Receive (isn : Nat) (w : World) (call : SegmentCall) (w' : World) : Prop :=
  w.receive? isn call = some w'

/-- The segment lies within half the sequence space of what the buffer has, and its end is compared
with the one of the window as their positions are. -/
def Receivable (isn : Nat) (w : World) : SegmentCall → Prop
  | .add k p => Near (k :: (k + p.length) :: w.marks isn) ∧
    ∀ e ∈ w.windowEnd isn, (Lt (seq isn e) (seq isn (k + p.length)) ↔ e < k + p.length)
  | .extract _ => True

instance (w : World) : DecidablePred (w.Receivable isn)
  | .add _ _ => inferInstanceAs (Decidable (_ ∧ _))
  | .extract _ => inferInstanceAs (Decidable True)

/-- A world with its bytes replaced. -/
def blank (w : World) : World := ⟨w.rx.blank, Tcp.blank w.extracted, w.offered⟩

@[simp]
theorem position_blank {v : Nat} : w.blank.position isn v = w.position isn v := by
  simp [position, blank]

@[simp]
theorem windowEnd_blank : w.blank.windowEnd isn = w.windowEnd isn := by
  simp only [windowEnd, position_blank]
  simp only [blank, RxBuffer.blank, blankData, List.head?_map, Option.map_map]
  rfl

@[simp]
theorem marks_blank : w.blank.marks isn = w.marks isn := by
  simp only [marks, position_blank]
  simp only [blank, RxBuffer.blank, blankData, flatMap_map, length_blank]
  rfl

theorem slice_zeros {k n : Nat} (h : k + n ≤ N) :
    slice (replicate N 0) (k, k + n) = replicate n 0 := by
  rw [slice, drop_replicate, take_replicate]
  congr 1
  omega

theorem receive_blank {k : Nat} (h : w.Receive isn (.add k p) w') (hN : k + p.length ≤ N) :
    w.blank.Step isn (replicate N 0) (.add k p.length) w'.blank := by
  obtain ⟨⟨rx, r⟩, hadd, rfl⟩ := map_eq_some_iff.1 h
  have hblank := RxBuffer.add_blank hadd
  rw [blank_eq_replicate, ← slice_zeros hN] at hblank
  rw [Step, call?, windowEnd_blank]
  exact map_eq_some_iff.2 ⟨_, hblank, rfl⟩

theorem extract_blank (h : w.Receive isn (.extract maxSize) w') :
    w.blank.Step isn (replicate N 0) (.extract maxSize) w'.blank := by
  obtain ⟨⟨rx, r⟩, hextract, rfl⟩ := map_eq_some_iff.1 h
  refine map_eq_some_iff.2 ⟨_, RxBuffer.extract_blank hextract, ?_⟩
  cases r with
  | none => simp [blank]
  | some out => simp [blank]

theorem Inv.longer (hinv : Inv isn (replicate N 0) w l c) (hfin : w.rx.gotFin = false) {N' : Nat}
    (hN : N ≤ N') : Inv isn (replicate N' 0) w l c := by
  have hnext : ∀ n, w.nextPosition (replicate n 0) c = c := by simp [nextPosition, hfin]
  have hinside := hinv.inside
  simp only [length_replicate] at hinside
  obtain ⟨lo, hmarked⟩ := hinv.marked
  exact { hinv with
    extracted := by
      refine hinv.extracted.trans ⟨replicate (N' - N) 0, ?_⟩
      rw [← replicate_add, Nat.add_sub_cancel' hN]
    data := by
      rw [hinv.data]
      refine map_congr_left fun i hi => ?_
      have hi' := hinside i hi
      have hle := (hinv.sorted.1 i hi).le
      have heq : i.2 = i.1 + (i.2 - i.1) := by omega
      obtain ⟨a, b⟩ := i
      simp only [stored] at heq hi' ⊢
      rw [heq, slice_zeros (by omega), slice_zeros (by omega)]
    inside := fun i hi => by
      have hi' := hinside i hi
      rw [length_replicate]
      omega
    next := by rw [hinv.next, hnext, hnext]
    fin := fun hgot => by simp [hfin] at hgot
    marked := by
      refine ⟨lo, ⟨?_, hmarked.stored, fun hgot => by simp [hfin] at hgot⟩⟩
      rw [hnext, ← hnext N]
      exact hmarked.next }

/-- The intervals `l` are stored, everything below `c` was received, and there was no FIN. -/
def Segments (isn : Nat) (w : World) (l : List (Nat × Nat)) (c : Nat) : Prop :=
  w.rx.gotFin = false ∧ ∃ N, Inv isn (List.replicate N 0) w.blank l c

theorem Segments.exists_inv (h : Segments isn w l c) (n : Nat) :
    ∃ N, n ≤ N ∧ Inv isn (replicate N 0) w.blank l c := by
  obtain ⟨hfin, N, hinv⟩ := h
  exact ⟨max n N, Nat.le_max_left _ _, hinv.longer hfin (Nat.le_max_right _ _)⟩

theorem Segments.next (h : Segments isn w l c) : w.rx.nextRxSeq = seq isn c := by
  obtain ⟨hfin, N, hinv⟩ := h
  have hnext := hinv.next
  have hfin' : w.blank.rx.gotFin = false := hfin
  rwa [nextPosition, hfin', if_neg (by simp), Nat.add_zero] at hnext

theorem Segments.receive (h : Segments isn w l c) {call : SegmentCall}
    (hfits : w.Receivable isn call) (hstep : w.Receive isn call w') :
    ∃ l' c', Segments isn w' l' c' := by
  cases call with
  | add k p =>
    obtain ⟨N, hN, hinv⟩ := h.exists_inv (k + p.length)
    have hstep' := receive_blank hstep hN
    have hadm : w.blank.Admitted isn (replicate N 0) (.add k p.length) := by
      refine ⟨by rwa [length_replicate], ?_⟩
      rw [marks_blank]
      exact hfits.1
    have hwindow : w.blank.WindowCompares isn (.add k p.length) := by
      rw [WindowCompares, windowEnd_blank]
      exact hfits.2
    obtain ⟨w₁, l', c', hstep₁, hinv'⟩ := hinv.add hadm hwindow
    cases (hstep'.symm.trans hstep₁ : some w'.blank = some w₁)
    obtain ⟨⟨rx, r⟩, hadd, rfl⟩ := map_eq_some_iff.1 hstep
    exact ⟨l', c', (RxBuffer.add_frame hadd).1.trans h.1, N, hinv'⟩
  | extract maxSize =>
    obtain ⟨N, -, hinv⟩ := h.exists_inv 0
    have hstep' := extract_blank (N := N) hstep
    obtain ⟨w₁, l', c', hstep₁, hinv'⟩ := hinv.extract maxSize
    cases (hstep'.symm.trans hstep₁ : some w'.blank = some w₁)
    obtain ⟨⟨rx, r⟩, hextract, rfl⟩ := map_eq_some_iff.1 hstep
    exact ⟨l', c', (RxBuffer.extract_frame hextract).1.trans h.1, N, hinv'⟩

theorem segments_new (isn maxBuffer : Nat) : Segments isn (new isn maxBuffer) [] 0 :=
  ⟨rfl, 0, inv_new isn (replicate 0 0) maxBuffer⟩

end World

end OranNs3.Tcp
