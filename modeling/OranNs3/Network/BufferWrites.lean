import OranNs3.Network.BufferRuns

/-!
# Writes through an iterator

An iterator stands at an offset of a buffer. The offsets of the virtual zeros have no place in the
array, so a write there, or past the last byte, has to fail its assertion; any other write changes
the bytes it addresses and nothing else (`Write.Exactly`). `view` is the buffer as a memory of its
own.

`WriteU8` lets through the offset after the last byte. `Write` of an array checks the size in the
place of the end. `Write` of a range does not translate the offset, so that behind a zero area it
stores too far into the array. `Write.exactly_iff` says when each writer is exact.
-/

namespace OranNs3.Network

open Memory List Option

variable {h h' : Heap} {b o : Buffer} {it start stop : Iterator} {p cur : Nat} {l l' : List UInt8}

/-! ## A buffer as a memory -/

/-- The byte at an offset of a buffer. -/
def Buffer.view (h : Heap) (b : Buffer) (i : Nat) : UInt8 :=
  if i < b.zeroAreaStart then (h.mem b.data).data i
  else if i < b.zeroAreaEnd then 0
  else (h.mem b.data).data (i - (b.zeroAreaEnd - b.zeroAreaStart))

theorem Buffer.view_eq_zero (hdata : ∀ k, (h.mem b.data).data k = 0) (i : Nat) :
    b.view h i = 0 := by
  simp only [view, hdata, ite_self]

variable {n : Nat}

theorem Buffer.slice_view_front (hn : p + n ≤ b.zeroAreaStart) :
    slice (b.view h) p n = slice (h.mem b.data).data p n :=
  slice_congr fun _ _ h2 => if_pos (by omega)

theorem Buffer.slice_view_zeroes (hp : b.zeroAreaStart ≤ p) (hn : p + n ≤ b.zeroAreaEnd) :
    slice (b.view h) p n = replicate n 0 := by
  refine eq_replicate_iff.2 ⟨length_slice, fun v hv => ?_⟩
  obtain ⟨i, hi, rfl⟩ := mem_map.1 hv
  obtain ⟨h1, h2⟩ := mem_range'_1.1 hi
  rw [view, if_neg (by omega), if_pos (by omega)]

theorem Buffer.slice_view_back (hzero : b.zeroAreaStart ≤ b.zeroAreaEnd) (hp : b.zeroAreaEnd ≤ p) :
    slice (b.view h) p n = slice (h.mem b.data).data (p - (b.zeroAreaEnd - b.zeroAreaStart)) n := by
  refine slice_ext fun i _ => ?_
  rw [view, if_neg (by omega), if_neg (by omega)]
  congr 1
  omega

theorem Buffer.slice_view_parts (hzero : b.zeroAreaStart ≤ b.zeroAreaEnd) {n front zeroes : Nat}
    (hfront : front = if p ≤ b.zeroAreaStart then min n (b.zeroAreaStart - p) else 0)
    (hzeroes : zeroes = if p + front ≤ b.zeroAreaEnd then
      min (n - front) (b.zeroAreaEnd - (p + front)) else 0) :
    slice (b.view h) p n = slice (h.mem b.data).data p front ++ replicate zeroes 0 ++
      slice (h.mem b.data).data (p + front + zeroes - (b.zeroAreaEnd - b.zeroAreaStart))
      (n - front - zeroes) := by
  have hsum : front + (zeroes + (n - front - zeroes)) = n := by grind
  have h1 : slice (b.view h) p front = slice (h.mem b.data).data p front := by
    rcases Nat.eq_zero_or_pos front with h0 | hpos
    · rw [h0, slice_zero, slice_zero]
    · exact slice_view_front (by grind)
  have h2 : slice (b.view h) (p + front) zeroes = replicate zeroes 0 := by
    rcases Nat.eq_zero_or_pos zeroes with h0 | hpos
    · rw [h0, slice_zero, replicate_zero]
    · exact slice_view_zeroes (by grind) (by grind)
  have h3 : slice (b.view h) (p + front + zeroes) (n - front - zeroes) = slice (h.mem b.data).data
      (p + front + zeroes - (b.zeroAreaEnd - b.zeroAreaStart)) (n - front - zeroes) := by
    rcases Nat.eq_zero_or_pos (n - front - zeroes) with h0 | hpos
    · rw [h0, slice_zero, slice_zero]
    · exact slice_view_back hzero (by grind)
  rw [← h1, ← h2, ← h3, append_assoc, slice_append, slice_append, hsum]

theorem Buffer.bytes_eq_view (hoffsets : b.InOrder) :
    b.bytes h = slice (b.view h) b.start b.size := by
  obtain ⟨hstart, hzero, hlast⟩ := hoffsets
  have hfront : slice (b.view h) b.start (b.zeroAreaStart - b.start) =
      slice (h.mem b.data).data b.start (b.zeroAreaStart - b.start) :=
        Buffer.slice_view_front (by omega)
  have hzeroes : slice (b.view h) b.zeroAreaStart (b.zeroAreaEnd - b.zeroAreaStart) =
      replicate (b.zeroAreaEnd - b.zeroAreaStart) 0 := Buffer.slice_view_zeroes le_rfl (by omega)
  have hback : slice (b.view h) b.zeroAreaEnd (b.last - b.zeroAreaEnd) =
      slice (h.mem b.data).data b.zeroAreaStart (b.last - b.zeroAreaEnd) := by
    rw [Buffer.slice_view_back hzero le_rfl, Nat.sub_sub_self hzero]
  rw [Buffer.bytes, ← hfront, ← hzeroes, ← hback, slice_trans hstart hzero,
    slice_trans (by omega) hlast, Buffer.size]

/-- A store through a translated offset is a store into the view. -/
theorem Fits.store (hfit : Fits h b) (hin : p + l.length ≤ b.internalEnd)
    (hp : l = [] ∨ b.start ≤ cur ∧ cur + l.length ≤ b.last ∧
      (cur + l.length ≤ b.zeroAreaStart ∧ p = cur ∨
        (b.zeroAreaEnd ≤ cur ∨ b.zeroAreaStart = b.zeroAreaEnd) ∧
          p = cur - (b.zeroAreaEnd - b.zeroAreaStart))) :
    ∃ h', h.store b.data p l = some h' ∧ b.bytes h' = patch (b.bytes h) (cur - b.start) l ∧
      ∀ a, a ≠ b.data → h'.mem a = h.mem a := by
  obtain ⟨hstart, hzero, hlast⟩ := hfit.offsets
  obtain ⟨h', hstore, -, -, -, hdata, hother⟩ :=
    Heap.store_spec (h := h) (a := b.data) (hin.trans hfit.internalEnd)
  refine ⟨h', hstore, ?_, hother⟩
  rw [Buffer.bytes_eq_view hfit.offsets, Buffer.bytes_eq_view hfit.offsets]
  rcases hp with rfl | ⟨h1, h2, hp⟩
  · rw [patch_nil]
    refine slice_congr fun i _ _ => ?_
    simp only [Buffer.view, hdata, overwrite_nil]
  · rw [← slice_overwrite_of_inside h1 (by rw [Buffer.size]; omega)]
    refine slice_congr fun i hi1 hi2 => ?_
    rw [Buffer.size] at hi2
    by_cases hi : cur ≤ i ∧ i < cur + l.length
    · -- an addressed byte: its place in the array is as far from `p` as it is from `cur`
      rw [overwrite_of_inside hi.1 hi.2, Buffer.view, hdata]
      split
      · rw [overwrite_of_inside (by omega) (by omega)]
        congr 1
        omega
      · rw [if_neg (by omega), overwrite_of_inside (by omega) (by omega)]
        congr 1
        omega
    · rw [overwrite_of_outside (by omega), Buffer.view, Buffer.view, hdata]
      split
      · rw [overwrite_of_outside (by omega)]
      · split
        · rfl
        · rw [overwrite_of_outside (by omega)]

/-! ## Positions and writes -/

/-- An iterator of a buffer: it starts at an end, and `Next` and `Prev` move it. -/
inductive Buffer.Position (b : Buffer) : Iterator → Prop
  | begin : b.Position b.begin
  | endIterator : b.Position b.endIterator
  | next {it it' : Iterator} {delta : Nat} (hit : b.Position it)
    (hnext : it.next delta = some it') : b.Position it'
  | prev {it it' : Iterator} {delta : Nat} (hit : b.Position it)
    (hprev : it.prev delta = some it') : b.Position it'

theorem Buffer.Position.eq (hit : b.Position it) (hle : b.start ≤ b.last) :
    it = b.iterator it.current ∧ it.current ≤ b.last := by
  induction hit with
  | begin => exact ⟨rfl, hle⟩
  | endIterator => exact ⟨rfl, le_rfl⟩
  | next _ hnext ih =>
    obtain ⟨hbound, heq⟩ := ite_none_right_eq_some.1 hnext
    obtain ⟨hit, -⟩ := ih
    cases heq
    rw [hit] at hbound ⊢
    exact ⟨rfl, hbound⟩
  | prev _ hprev ih =>
    obtain ⟨hbound, heq⟩ := ite_none_right_eq_some.1 hprev
    obtain ⟨hit, hle⟩ := ih
    cases heq
    rw [hit] at hle ⊢
    exact ⟨rfl, (Nat.sub_le ..).trans hle⟩

/-- The `n` bytes from an offset on are bytes of the buffer, and none of them is a virtual zero. -/
def Buffer.Real (b : Buffer) (cur n : Nat) : Prop :=
  n = 0 ∨ b.start ≤ cur ∧ cur + n ≤ b.last ∧
    (cur + n ≤ b.zeroAreaStart ∨ b.zeroAreaEnd ≤ cur ∨ b.zeroAreaStart = b.zeroAreaEnd)
deriving Decidable

/-- The writes of an iterator; a range is one of a buffer. -/
inductive Write
  | writeByte (data : UInt8)
  | writeU8 (data : UInt8) (len : Nat)
  | writeHtonU16 (data : UInt16)
  | writeHtonU32 (data : UInt32)
  | write (buffer : List UInt8)
  | writeRange (o : Buffer) (start stop : Iterator)

namespace Write

/-- The call. -/
def run (h : Heap) (it : Iterator) : Write → Option Heap
  | writeByte data => it.writeByte h data
  | writeU8 data len => it.writeU8 h data len
  | writeHtonU16 data => it.writeHtonU16 h data
  | writeHtonU32 data => it.writeHtonU32 h data
  | write buffer => it.write h buffer
  | writeRange _ start stop => it.writeRange h start stop

/-- The assertion of the call. -/
def Admitted (it : Iterator) : Write → Prop
  | writeByte _ => it.Check it.current
  | writeU8 _ len => it.CheckNoZero it.current (it.current + len)
  | writeHtonU16 _ => it.CheckNoZero it.current (it.current + 2)
  | writeHtonU32 _ => it.CheckNoZero it.current (it.current + 4)
  | write buffer => it.CheckNoZero it.current buffer.length
  | writeRange _ start stop => it.CanWriteRange start stop

/-- The bytes to write. -/
def content (h : Heap) : Write → List UInt8
  | writeByte data => [data]
  | writeU8 data len => List.replicate len data
  | writeHtonU16 data => Iterator.htonU16 data
  | writeHtonU32 data => Iterator.htonU32 data
  | write buffer => buffer
  | writeRange o start stop => slice (o.view h) start.current (stop.current - start.current)

/-- How many they are. -/
def len : Write → Nat
  | writeByte _ => 1
  | writeU8 _ len => len
  | writeHtonU16 _ => 2
  | writeHtonU32 _ => 4
  | write buffer => buffer.length
  | writeRange _ start stop => stop.current - start.current

/-- The iterators of a range are iterators of its buffer. -/
def Valid (h : Heap) : Write → Prop
  | writeRange o start stop => Fits h o ∧ o.Position start ∧ o.Position stop
  | _ => True

/-- What a write promises. -/
structure Exactly (w : Write) (h : Heap) (b : Buffer) (it : Iterator) : Prop where
  rejected : ¬ b.Real it.current w.len → w.run h it = none
  exact : w.Admitted it → ∃ h', w.run h it = some h' ∧
    b.bytes h' = patch (b.bytes h) (it.current - b.start) (w.content h) ∧ ∀ a, a ≠ b.data →
    h'.mem a = h.mem a

@[simp] theorem length_content (h : Heap) (w : Write) : (w.content h).length = w.len := by
  cases w <;> simp [content, len, Iterator.htonU16, Iterator.htonU32]

variable {w : Write}

theorem Exactly.real (hw : w.Exactly h b it) (had : w.Admitted it) : b.Real it.current w.len := by
  obtain ⟨h', hrun, -⟩ := hw.exact had
  refine by_contra fun hreal => ?_
  rw [hw.rejected hreal] at hrun
  cases hrun

theorem run_eq_none (hw : ¬ w.Admitted it) : w.run h it = none := by
  cases w <;> exact if_neg hw

theorem exactly_of_store (hfit : Fits h b) (hreal : w.Admitted it → b.Real it.current w.len)
    (hrun : w.Admitted it → ∃ p, w.run h it = h.store b.data p (w.content h) ∧
      p + w.len ≤ b.internalEnd ∧ (it.current + w.len ≤ b.zeroAreaStart ∧ p = it.current ∨
        (b.zeroAreaEnd ≤ it.current ∨ b.zeroAreaStart = b.zeroAreaEnd ∨ w.len = 0) ∧
          p = it.current - (b.zeroAreaEnd - b.zeroAreaStart))) : w.Exactly h b it where
  rejected := fun hnot => run_eq_none fun had => hnot (hreal had)
  exact := by
    intro had
    obtain ⟨p, hstore, hin, hp⟩ := hrun had
    rw [← length_content h w] at hin hp
    have hw := hreal had
    rw [hstore]
    refine hfit.store hin ?_
    rcases hw with hzero | ⟨h1, h2, -⟩
    · exact .inl (eq_nil_of_length_eq_zero ((length_content h w).trans hzero))
    · by_cases hnil : w.content h = []
      · exact .inl hnil
      · have hpos := length_pos_iff.2 hnil
        rw [length_content] at hp hpos ⊢
        exact .inr ⟨h1, h2, by omega⟩

theorem exactly_writeByte (hfit : Fits h b) (hcur : cur ≠ b.last) (data : UInt8) :
    (writeByte data).Exactly h b (b.iterator cur) := by
  obtain ⟨hstart, hzero, hlast⟩ := hfit.offsets
  refine exactly_of_store hfit (fun had => ?_) fun had => ⟨_, if_pos had, ?_, ?_⟩
  all_goals
    obtain ⟨h1, h2, h3⟩ := had
    simp only [Buffer.iterator, len, Buffer.Real, Buffer.internalEnd] at h1 h2 h3 ⊢
    grind

theorem real_of_checkNoZero (hcheck : (b.iterator cur).CheckNoZero cur (cur + n)) :
    b.Real cur n := by
  simp only [Iterator.CheckNoZero, Buffer.iterator] at hcheck
  rw [Buffer.Real]
  omega

theorem exactly_writeU8 (hfit : Fits h b) (data : UInt8) (n : Nat) :
    (writeU8 data n).Exactly h b (b.iterator cur) := by
  obtain ⟨hstart, hzero, hlast⟩ := hfit.offsets
  refine exactly_of_store hfit real_of_checkNoZero fun had => ⟨_, if_pos had, ?_, ?_⟩
  all_goals
    simp only [Admitted, Iterator.CheckNoZero, Iterator.target, Buffer.iterator, len,
    Buffer.internalEnd] at had ⊢
    grind

theorem exactly_writeHtonU16 (hfit : Fits h b) (data : UInt16) :
    (writeHtonU16 data).Exactly h b (b.iterator cur) := by
  obtain ⟨hstart, hzero, hlast⟩ := hfit.offsets
  refine exactly_of_store hfit real_of_checkNoZero fun had => ⟨_, if_pos had, ?_, ?_⟩
  all_goals
    simp only [Admitted, Iterator.CheckNoZero, Iterator.targetOf, Buffer.iterator, len,
    Buffer.internalEnd] at had ⊢
    grind

theorem exactly_writeHtonU32 (hfit : Fits h b) (data : UInt32) :
    (writeHtonU32 data).Exactly h b (b.iterator cur) := by
  obtain ⟨hstart, hzero, hlast⟩ := hfit.offsets
  refine exactly_of_store hfit real_of_checkNoZero fun had => ⟨_, if_pos had, ?_, ?_⟩
  all_goals
    simp only [Admitted, Iterator.CheckNoZero, Iterator.targetOf, Buffer.iterator, len,
    Buffer.internalEnd] at had ⊢
    grind

theorem exactly_write (hfit : Fits h b) (hcur : cur ≤ b.last) {buffer : List UInt8}
    (hreal : (b.iterator cur).CheckNoZero cur buffer.length → b.Real cur buffer.length) :
    (write buffer).Exactly h b (b.iterator cur) := by
  obtain ⟨hstart, hzero, hlast⟩ := hfit.offsets
  refine exactly_of_store hfit hreal fun had => ⟨_, if_pos had, ?_, ?_⟩
  all_goals
    have hreal := hreal had
    simp only [Buffer.Real, Iterator.target, Buffer.iterator, len, Buffer.internalEnd] at hreal ⊢
    grind

end Write

/-! ## The write of a range -/

/-- A store that touches nothing when there is nothing to store. -/
def Heap.put (h : Heap) (a p : Nat) (l : List UInt8) : Option Heap :=
  if l = [] then some h else h.store a p l

theorem Heap.put_of_store {a : Nat} (hstore : h.store a p l = some h') : h.put a p l = some h' := by
  rw [put]
  split
  · next hl =>
    obtain ⟨-, heq⟩ := ite_none_right_eq_some.1 hstore
    simp only [hl, overwrite_nil, set, Function.update_eq_self] at heq
    exact heq
  · exact hstore

theorem Heap.put_append (h : Heap) (a p : Nat) (l l' : List UInt8) :
    ((h.put a p l).bind fun h => h.put a (p + l.length) l') = h.put a p (l ++ l') := by
  by_cases hl : l = []
  · simp [put, hl]
  by_cases hl' : l' = []
  · simp [put, hl']
  rw [put, put, if_neg hl, if_neg (by simp [hl]), store, store, length_append]
  by_cases hfit : p + l.length ≤ (h.mem a).size
  · rw [if_pos hfit, bind_some, put, if_neg hl', store, mem_set_self]
    by_cases hfit' : p + l.length + l'.length ≤ (h.mem a).size
    · rw [if_pos hfit', if_pos (by omega)]
      simp only [set, Function.update_idem, overwrite_append]
    · rw [if_neg hfit', if_neg (by omega)]
  · rw [if_neg hfit, if_neg (by omega), bind_none]

theorem Heap.mem_put {a a' : Nat} (hput : h.put a p l = some h') (ha : a' ≠ a) :
    h'.mem a' = h.mem a' := by
  rw [put] at hput
  split at hput
  · cases hput
    rfl
  · obtain ⟨-, heq⟩ := ite_none_right_eq_some.1 hput
    cases heq
    exact mem_set_ne _ _ ha

theorem Heap.memcpy_eq {a a' p' n : Nat} (hread : n = 0 ∨ p' + n ≤ (h.mem a').size) :
    h.memcpy a p a' p' n = h.put a p (slice (h.mem a').data p' n) := by
  rw [memcpy]
  split
  · next hn => simp [put, hn]
  · next hn =>
    have hne : slice (h.mem a').data p' n ≠ [] :=
      fun heq => hn (by simpa using congrArg List.length heq)
    rw [read, if_pos (hread.resolve_left hn), bind_some, put, if_neg hne]

theorem Heap.memset_eq {a : Nat} {v : UInt8} : h.memset a p v n = h.put a p (replicate n v) := by
  rw [memset, put]
  split
  · next hn => simp [hn]
  · next hn => rw [if_neg (by simpa using hn)]

variable {i j : Nat}

theorem Fits.writeRange (hfit : Fits h o) (hj : j ≤ o.last)
    (hcan : it.CanWriteRange (o.iterator i) (o.iterator j)) :
    it.writeRange h (o.iterator i) (o.iterator j) = h.put it.data it.current
      (slice (o.view h) i (j - i)) := by
  obtain ⟨hstart, hzero, hlast⟩ := hfit.offsets
  have hsize := hfit.internalEnd
  have hij : i ≤ j := hcan.2.1
  have hne : o.data ≠ it.data := hcan.2.2.2.2.1.symm
  rw [Iterator.writeRange, if_pos hcan]
  dsimp only
  generalize hfront : (if (o.iterator i).current ≤ (o.iterator i).zeroStart then
    min ((o.iterator j).current - (o.iterator i).current)
      ((o.iterator i).zeroStart - (o.iterator i).current) else 0) = front
  generalize hzeroes : (if (o.iterator i).current + front ≤ (o.iterator i).zeroEnd then
    min ((o.iterator j).current - (o.iterator i).current - front)
      ((o.iterator i).zeroEnd - ((o.iterator i).current + front)) else 0) = zeroes
  replace hfront : front = if i ≤ o.zeroAreaStart then min (j - i) (o.zeroAreaStart - i) else 0 :=
    hfront.symm
  replace hzeroes : zeroes = if i + front ≤ o.zeroAreaEnd then
    min (j - i - front) (o.zeroAreaEnd - (i + front)) else 0 := hzeroes.symm
  simp only [Buffer.iterator]
  have hback : min (j - i - front - zeroes) (o.last - (i + front + zeroes)) =
    j - i - front - zeroes := by
    grind
  have hlen : (slice (h.mem o.data).data i front ++ replicate zeroes 0).length =
    front + zeroes := by simp
  rw [hback, Heap.memcpy_eq (by grind [Buffer.internalEnd]),
    Buffer.slice_view_parts hzero hfront hzeroes,
    ← Heap.put_append, ← Heap.put_append, bind_assoc, hlen, length_slice, ← Nat.add_assoc]
  refine Option.bind_congr fun h₁ hput₁ => ?_
  rw [Heap.memset_eq]
  refine Option.bind_congr fun h₂ hput₂ => ?_
  have hmem : h₂.mem o.data = h.mem o.data :=
    (Heap.mem_put hput₂ hne).trans (Heap.mem_put hput₁ hne)
  rw [Heap.memcpy_eq (by grind [Buffer.internalEnd]), hmem]

namespace Write

theorem exactly_writeRange (hfit : Fits h b) (ho : Fits h o) (hj : j ≤ o.last)
    (hsafe : i = j ∨ b.zeroAreaStart = b.zeroAreaEnd ∨ cur < b.zeroAreaEnd) :
    (writeRange o (o.iterator i) (o.iterator j)).Exactly h b (b.iterator cur) := by
  obtain ⟨hstart, hzero, hlast⟩ := hfit.offsets
  by_cases hcan : (b.iterator cur).CanWriteRange (o.iterator i) (o.iterator j)
  · have hrun := ho.writeRange hj hcan
    have hij : i ≤ j := hcan.2.1
    have hreal : b.Real cur (j - i) := real_of_checkNoZero hcan.2.2.2.2.2
    rcases Nat.eq_or_lt_of_le hij with rfl | hlt
    · rw [Nat.sub_self, slice_zero] at hrun
      have hnil : (writeRange o (o.iterator i) (o.iterator i)).content h = [] := by simp [content]
      refine ⟨fun hnot => absurd hreal hnot, fun _ => ⟨h, hrun, ?_, fun _ _ => rfl⟩⟩
      rw [hnil, patch_nil]
    · have hne : slice (o.view h) i (j - i) ≠ [] := by
        intro heq
        have hlen := congrArg List.length heq
        rw [length_slice, length_nil] at hlen
        omega
      refine exactly_of_store hfit (fun _ => hreal) fun _ => ⟨cur, ?_, ?_, ?_⟩
      · exact hrun.trans (if_neg hne)
      · simp only [Buffer.Real, len, Buffer.iterator, Buffer.internalEnd] at hreal ⊢
        omega
      · simp only [Buffer.Real, len, Buffer.iterator, and_true] at hreal ⊢
        omega
  · exact ⟨fun _ => run_eq_none hcan, fun had => absurd had hcan⟩

end Write

/-! ## When the writes are exact -/

/-- The heap with other bytes in its arrays. -/
def Heap.withData (h : Heap) (f : Nat → Nat → UInt8) : Heap :=
  { h with mem := fun a => { h.mem a with data := f a } }

theorem Fits.withData (hfit : Fits h b) (f : Nat → Nat → UInt8) : Fits (h.withData f) b :=
  ⟨hfit.start_le, hfit.zero_le, hfit.last_le, hfit.dirtyStart, hfit.dirtyEnd, hfit.internalEnd⟩

theorem Fits.writeRange_misses (ho : Fits h o) (hj : j ≤ o.last)
    (hcan : (b.iterator cur).CanWriteRange (o.iterator i) (o.iterator j))
    (hzero : b.zeroAreaStart < b.zeroAreaEnd) (hcur : b.zeroAreaEnd ≤ cur)
    (hrun : (b.iterator cur).writeRange h (o.iterator i) (o.iterator j) = some h') :
    b.view h' cur = b.view h cur := by
  rw [ho.writeRange hj hcan, Heap.put] at hrun
  split at hrun
  · cases hrun
    rfl
  · -- its place in the array is before the place of the store
    obtain ⟨-, heq⟩ := ite_none_right_eq_some.1 hrun
    have hdata : (h'.mem b.data).data =
        overwrite (h.mem b.data).data cur (slice (o.view h) i (j - i)) := by
      rw [← some.inj heq]
      exact congrArg Data.data (Heap.mem_set_self ..)
    rw [Buffer.view, Buffer.view, if_neg (by omega), if_neg (by omega), if_neg (by omega),
      if_neg (by omega), hdata, overwrite_of_outside (by omega)]

theorem Write.not_exactly_writeRange (hfit : Fits h b) (ho : Fits h o) (hj : j ≤ o.last)
    (hcan : (b.iterator cur).CanWriteRange (o.iterator i) (o.iterator j)) (hij : i ≠ j)
    (hzero : b.zeroAreaStart < b.zeroAreaEnd) (hcur : b.zeroAreaEnd ≤ cur) :
    ¬ (writeRange o (o.iterator i) (o.iterator j)).Exactly
      (h.withData fun a _ => if a = b.data then 1 else 0) b (b.iterator cur) := by
  intro hw
  obtain ⟨hstart, hzle, hlast⟩ := hfit.offsets
  have hij' : i < j := lt_of_le_of_ne hcan.2.1 hij
  have hend : cur + (j - i) ≤ b.last := by
    have hcheck := hcan.2.2.2.2.2
    simp only [Iterator.CheckNoZero, Buffer.iterator] at hcheck
    omega
  set f : Nat → Nat → UInt8 := fun a _ => if a = b.data then 1 else 0
  have hone : ∀ k, ((h.withData f).mem b.data).data k = 1 := fun _ => if_pos rfl
  have hnone : ∀ k, ((h.withData f).mem o.data).data k = 0 := fun _ => if_neg hcan.2.2.2.2.1.symm
  obtain ⟨h', hrun, hbytes, -⟩ := hw.exact hcan
  have hold : b.view h' cur = 1 := by
    rw [(ho.withData f).writeRange_misses hj hcan hzero hcur hrun, Buffer.view, if_neg (by omega),
      if_neg (by omega), hone]
  have hnew : b.view h' cur = 0 := by
    have hlen : (slice (o.view (h.withData f)) i (j - i)).length = j - i := length_slice
    have hslice : slice (b.view h') b.start b.size =
        slice (overwrite (b.view (h.withData f)) cur (slice (o.view (h.withData f)) i (j - i)))
        b.start b.size := by
      rw [slice_overwrite_of_inside (by omega) (by rw [Buffer.size]; omega),
        ← Buffer.bytes_eq_view hfit.offsets, ← Buffer.bytes_eq_view hfit.offsets]
      exact hbytes
    rw [eq_of_slice_eq (i := cur) hslice (by omega) (by rw [Buffer.size]; omega),
      overwrite_of_inside le_rfl (by omega)]
    simp only [slice, Nat.sub_self, getElem_map, getElem_range']
    exact Buffer.view_eq_zero hnone _
  rw [hold] at hnew
  cases hnew

namespace Write

/-- When a write is exact. `WriteU8` is, but for the offset after the last byte; `Write` of an
array, when its assertion, with the size in the place of the end, fails or the bytes are real;
`Write` of a range, but for offsets after a zero area. -/
def Safe (b : Buffer) (it : Iterator) : Write → Prop
  | writeByte _ => it.current ≠ b.last
  | writeU8 .. | writeHtonU16 _ | writeHtonU32 _ => True
  | write buffer => ¬ it.CheckNoZero it.current buffer.length ∨ b.Real it.current buffer.length
  | writeRange _ start stop => ¬ it.CanWriteRange start stop ∨ start.current = stop.current ∨
      b.zeroAreaStart = b.zeroAreaEnd ∨ it.current < b.zeroAreaEnd

/-- Whatever the arrays hold, a write is exact if and only if it is safe. -/
theorem exactly_iff {w : Write} (hfit : Fits h b) (hit : b.Position it) (hw : w.Valid h) :
    (∀ f, w.Exactly (h.withData f) b it) ↔ w.Safe b it := by
  obtain ⟨hit, hcur⟩ := hit.eq (hfit.start_le.trans (hfit.zero_le.trans hfit.last_le))
  generalize it.current = cur at hit hcur
  subst hit
  cases w with
  | writeByte data =>
    refine ⟨fun hex heq => ?_, fun hsafe f => exactly_writeByte (hfit.withData f) hsafe data⟩
    -- the assertion admits the offset after the last byte
    have hcheck : (b.iterator cur).Check cur := by
      obtain ⟨hstart, hzero, hlast⟩ := hfit.offsets
      simp only [Iterator.Check, Buffer.iterator] at heq ⊢
      omega
    have hreal := (hex fun _ _ => 0).real (w := writeByte data) hcheck
    simp only [Buffer.Real, len, Buffer.iterator] at hreal heq
    omega
  | writeU8 data len =>
    exact ⟨fun _ => trivial, fun _ f => exactly_writeU8 (hfit.withData f) data len⟩
  | writeHtonU16 data =>
    exact ⟨fun _ => trivial, fun _ f => exactly_writeHtonU16 (hfit.withData f) data⟩
  | writeHtonU32 data =>
    exact ⟨fun _ => trivial, fun _ f => exactly_writeHtonU32 (hfit.withData f) data⟩
  | write buffer =>
    refine ⟨fun hex => ?_, fun hsafe f => ?_⟩
    · exact not_or_of_imp (hex fun _ _ => 0).real
    · exact exactly_write (hfit.withData f) hcur fun hcheck => hsafe.resolve_left (not_not.2 hcheck)
  | writeRange o start stop =>
    obtain ⟨ho, hi, hj⟩ := hw
    have hole := ho.start_le.trans (ho.zero_le.trans ho.last_le)
    obtain ⟨hi, -⟩ := hi.eq hole
    obtain ⟨hj, hjle⟩ := hj.eq hole
    generalize start.current = i at hi
    generalize stop.current = j at hj hjle
    subst hi hj
    refine ⟨fun hex => ?_, fun hsafe f => ?_⟩
    · by_contra hnot
      simp only [Safe, not_or, not_not, not_lt] at hnot
      obtain ⟨hcan, hij, hzero, hcur⟩ := hnot
      exact not_exactly_writeRange hfit ho hjle hcan hij (lt_of_le_of_ne hfit.zero_le hzero) hcur
        (hex _)
    · rcases hsafe with hcan | hsafe
      · exact ⟨fun _ => run_eq_none hcan, fun had => absurd had hcan⟩
      · exact exactly_writeRange (hfit.withData f) (ho.withData f) hjle hsafe

/-- Two bytes before three virtual zeros, and two after them: the last two are written. -/
theorem exactly_iff_example : (writeHtonU16 0x0102).Exactly
    ((Heap.new.set 0 ⟨1, 9, 0, 7, fun _ => 0⟩).withData fun _ _ => 9) ⟨0, 2, 2, 5, 0, 7⟩
    (Buffer.iterator ⟨0, 2, 2, 5, 0, 7⟩ 5) :=
  (exactly_iff (w := writeHtonU16 0x0102) ⟨by decide, by decide, by decide, by decide, by decide, by
    decide⟩
    (.prev .endIterator (show Iterator.prev _ 2 = some _ from rfl)) trivial).2 trivial _

/-- A write at the end is not rejected, a write of two bytes that should end in the zero area
changes a byte behind it, and a range behind the zero area does not change the byte it should. -/
theorem exactly_fails : ∃ w outs,
    Lts.outputs (Buffers.call fun _ _ => 0) Buffers.new
      [.construct 3, .prepend 0 [1, 2], .append 0 [3, 4], .construct 0, .append 1 [9]] =
        some (w, outs) ∧
    ∃ b o, w.bufs = [b, o] ∧
      ¬ (writeByte 7).Exactly w.heap b b.endIterator ∧
      ¬ (write [7, 7]).Exactly w.heap b (b.iterator (b.start + 1)) ∧
      ¬ (writeRange o o.begin o.endIterator).Exactly w.heap b (b.iterator (b.last - 2)) := by
  have hrun : ((Lts.outputs (Buffers.call fun _ _ => 0) Buffers.new
      [.construct 3, .prepend 0 [1, 2], .append 0 [3, 4], .construct 0, .append 1 [9]]).any fun r =>
        let b : Buffer := ⟨1, 2, 2, 5, 0, 7⟩
        let o : Buffer := ⟨0, 0, 0, 0, 0, 1⟩
        r.1.bufs = [b, o] ∧ b.bytes r.1.heap = [1, 2, 0, 0, 0, 3, 4] ∧ o.bytes r.1.heap = [9] ∧
          ((writeByte 7).run r.1.heap (b.iterator 7)).isSome ∧
          ((write [7, 7]).run r.1.heap (b.iterator 1)).isSome ∧
          ((writeRange o o.begin o.endIterator).run r.1.heap (b.iterator 5)).all
            (b.bytes · = [1, 2, 0, 0, 0, 3, 4])) = true := by
    decide +kernel
  obtain ⟨⟨w, outs⟩, hw, hres⟩ := (any_eq_true _ _).1 hrun
  obtain ⟨hbufs, hb, ho, hbyte, hwrite, hrange⟩ := of_decide_eq_true hres
  refine ⟨w, outs, hw, _, _, hbufs, fun hex => ?_, fun hex => ?_, fun hex => ?_⟩
  · exact isSome_iff_ne_none.1 hbyte (hex.rejected (by decide))
  · exact isSome_iff_ne_none.1 hwrite (hex.rejected (by decide))
  · have hcan : (Buffer.iterator ⟨1, 2, 2, 5, 0, 7⟩ 5).CanWriteRange
        (Buffer.begin ⟨0, 0, 0, 0, 0, 1⟩) (Buffer.endIterator ⟨0, 0, 0, 0, 0, 1⟩) := by decide
    obtain ⟨h', hrun, hbytes, -⟩ := hex.exact hcan
    have hcontent : (writeRange ⟨0, 0, 0, 0, 0, 1⟩ (Buffer.begin ⟨0, 0, 0, 0, 0, 1⟩)
        (Buffer.endIterator ⟨0, 0, 0, 0, 0, 1⟩)).content w.heap = [9] := ho
    have hsame := (all_eq_true _ _).1 hrange h' hrun
    rw [hcontent, hb, of_decide_eq_true hsame] at hbytes
    revert hbytes
    decide

end Write

end OranNs3.Network
