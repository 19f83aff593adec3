import OranNs3.Epc.GtpcMessages

/-!
# The elements of GTP-C messages are read again

For each information element, what is written is read again, and the length that is found is the one
that was noted. The exception is the header of a bearer context, whose length is written with the
lower byte first and read with the upper one first (`reads_bearerContextHeader`), so that each
bearer context is read again with another length (`ReadsContext`).
-/

namespace OranNs3.Epc

open BitField Wire List

/-! ## Numbers -/

section numbers
variable {v n : Nat}

theorem reads_u8 (hv : v < 256) : Reads readU8 (writeU8 v).bytes [] v := by
  rw [writeU8, Nat.mod_eq_of_lt hv]
  exact Reads.byte v

theorem reads_u16 (hv : v < 2 ^ 16) : Reads readNtohU16 (writeHtonU16 v).bytes [] v := Reads.big hv

theorem reads_u32 (hv : v < 2 ^ 32) : Reads readNtohU32 (writeHtonU32 v).bytes [] v := Reads.big hv

theorem reads_u64 (hv : v < 2 ^ 64) : Reads readNtohU64 (writeHtonU64 v).bytes [] v := Reads.big hv

theorem reads_u40 (hv : v < 2 ^ 40) : Reads readNtohU40 (writeHtonU40 v).bytes [] v := Reads.big hv

theorem reads_length (hv : v < 2 ^ 16) : Reads readLength (noting v (writeHtonU16 v)).bytes [v] v :=
  ((reads_u16 hv).bind (Reads.skip (Reads.note v) (Reads.pure v))).cast rfl rfl

theorem reads_enum {α : Type} {ofNat? : Nat → Option α} {a : α} (h : ofNat? n = some a) :
    Reads (readEnum ofNat? n) [] [] a := by
  intro left notes
  rw [readEnum, h, append_nil]
  rfl

/-- A number of at most 16 bits with its bytes the other way round. -/
def swap16 (v : Nat) : Nat := v % 256 * 256 + v / 256

theorem little_eq (hv : v < 2 ^ 16) : little 2 v = big 2 (swap16 v) := by
  have h1 : (v % 256 * 256 + v / 256) / 256 % 256 = v % 256 := by
    rw [Nat.mul_comm, Nat.mul_add_div (by omega), Nat.div_eq_of_lt (by omega), Nat.add_zero,
      Nat.mod_mod]
  have h2 : (v % 256 * 256 + v / 256) % 256 = v / 256 % 256 := by
    rw [Nat.mul_comm, Nat.mul_add_mod]
  simp only [little, big, swap16, Nat.pow_one, Nat.pow_zero, Nat.div_one, h1, h2]

end numbers

/-! ## The header -/

/-- A header whose fields have the range of their types, with its TEID. -/
structure GtpcHeader.InRange (h : GtpcHeader) : Prop where
  teidFlag : h.teidFlag = true
  messageType : h.messageType < 256
  messageLength : h.messageLength < 2 ^ 16
  teid : h.teid < 2 ^ 32

/-- The header that is read: 24 bits of the sequence number. -/
def GtpcHeader.written (h : GtpcHeader) : GtpcHeader :=
  { h with sequenceNumber := h.sequenceNumber % 2 ^ 24 }

theorem sequenceNumber_eq (n : Nat) :
    ((((n &&& 0x00ff0000) >>> 16) <<< 16 ||| ((n &&& 0x0000ff00) >>> 8) <<< 8) |||
      (n &&& 0x000000ff)) = n % 2 ^ 24 := by
  have h1 : (n &&& 0x00ff0000) >>> 16 = n / 65536 % 256 := by
    rw [show n &&& 0x00ff0000 = _ from and_mask n 16 8, shr]
    omega
  have h2 : (n &&& 0x0000ff00) >>> 8 = n / 256 % 256 := by
    rw [show n &&& 0x0000ff00 = _ from and_mask n 8 8, shr]
    omega
  have h3 : n &&& 0x000000ff = n % 256 := by
    rw [show n &&& 0x000000ff = _ from and_mask n 0 8]
    omega
  rw [h1, h2, h3, shl, shl, or_eq_add (a := n / 65536 % 256 * 2 ^ 16) 16 (by omega) (by omega),
    or_eq_add (a := n / 65536 % 256 * 2 ^ 16 + n / 256 % 256 * 2 ^ 8) 8 (by omega) (by omega)]
  omega

/-- The header is read back. -/
theorem reads_preDeserialize {h : GtpcHeader} (hh : h.InRange) :
    Reads GtpcHeader.preDeserialize h.preSerialize.bytes [] h.written := by
  have hmiddle : ∀ k, (h.sequenceNumber &&& (0xff <<< k)) >>> k < 256 := by
    intro k
    rw [show h.sequenceNumber &&& (0xff <<< k) = _ from and_mask _ k 8, shr,
      Nat.mul_div_cancel _ (Nat.two_pow_pos k)]
    exact Nat.mod_lt _ (by omega)
  refine Reads.cast
    (Reads.seq (reads_u8 (by decide)) <| Reads.skip (Reads.require rfl) <|
    Reads.skip (Reads.require rfl) <|
      Reads.seq (reads_u8 hh.messageType) <| Reads.seq (reads_u16 hh.messageLength) <|
      Reads.seq (reads_u32 hh.teid) <| Reads.seq (reads_u8 (hmiddle 16)) <|
        Reads.seq (reads_u8 (hmiddle 8)) <|
      Reads.seq (reads_u8 (hmiddle 0)) <| Reads.seq (reads_u8 (by decide)) <| Reads.pure _) rfl ?_
  rw [sequenceNumber_eq, GtpcHeader.written, hh.teidFlag]

/-! ## Information elements -/

section elements

/-- An IMSI is read back. -/
theorem reads_imsi {imsi : Nat} (h : imsi < 2 ^ 64) :
    Reads deserializeImsi (serializeImsi imsi).bytes [8] imsi :=
  Reads.cast (Reads.seq (reads_u8 (by decide)) <| Reads.skip (Reads.require rfl) <|
    Reads.seq (reads_length (by decide)) <|
    Reads.skip (Reads.require rfl) <| Reads.seq (reads_u8 (by decide)) <|
      Reads.skip (Reads.require rfl) <|
    Reads.last (reads_u64 h)) rfl rfl

theorem Cause.ofNat?_toNat (cause : Cause) : Cause.ofNat? cause.toNat = some cause := by
  cases cause <;> rfl

theorem reads_cause (cause : Cause) :
    Reads deserializeCause (serializeCause cause).bytes [2] cause :=
  Reads.cast (Reads.seq (reads_u8 (by decide)) <| Reads.skip (Reads.require rfl) <|
    Reads.seq (reads_length (by decide)) <|
    Reads.skip (Reads.require rfl) <| Reads.seq (reads_u8 (by decide)) <|
      Reads.skip (Reads.require rfl) <|
    Reads.seq (reads_u8 (by cases cause <;> decide)) <|
      Reads.skip (reads_enum cause.ofNat?_toNat) <|
    Reads.seq (reads_u8 (by decide)) <| Reads.pure _) rfl rfl

theorem lowBits_of_le {v : Nat} (h : v ≤ 15) : v &&& 0x0f = v := by
  rw [show v &&& 0x0f = _ from and_mask v 0 4]
  omega

theorem reads_ebi {epsBearerId : Nat} (h : epsBearerId ≤ 15) :
    Reads deserializeEbi (serializeEbi epsBearerId).bytes [1] epsBearerId := by
  rw [serializeEbi, lowBits_of_le h]
  exact Reads.cast (Reads.seq (reads_u8 (by decide)) <| Reads.skip (Reads.require rfl) <|
    Reads.seq (reads_length (by decide)) <|
    Reads.skip (Reads.require rfl) <| Reads.seq (reads_u8 (by decide)) <|
      Reads.skip (Reads.require rfl) <|
    Reads.seq (reads_u8 (by omega)) <| Reads.pure _) rfl (lowBits_of_le h)

/-- Bit rates below `2 ^ 40`. -/
structure EpsBearer.InRange (b : EpsBearer) : Prop where
  qci : b.qci < 256
  gbrDl : b.gbrDl < 2 ^ 40
  gbrUl : b.gbrUl < 2 ^ 40
  mbrDl : b.mbrDl < 2 ^ 40
  mbrUl : b.mbrUl < 2 ^ 40

/-- The QoS of a bearer is read back. -/
theorem reads_bearerQos {b : EpsBearer} (h : b.InRange) :
    Reads deserializeBearerQos (serializeBearerQos b).bytes [22] b :=
  Reads.cast (Reads.seq (reads_u8 (by decide)) <| Reads.skip (Reads.require rfl) <|
    Reads.seq (reads_length (by decide)) <|
    Reads.skip (Reads.require rfl) <| Reads.seq (reads_u8 (by decide)) <|
      Reads.skip (Reads.require rfl) <|
    Reads.seq (reads_u8 (by decide)) <| Reads.seq (reads_u8 h.qci) <|
      Reads.seq (reads_u40 h.mbrUl) <|
    Reads.seq (reads_u40 h.mbrDl) <| Reads.seq (reads_u40 h.gbrUl) <|
      Reads.seq (reads_u40 h.gbrDl) <|
    Reads.pure _) rfl rfl

/-- A packet filter whose fields have the range of their types. -/
structure PacketFilter.InRange (pf : PacketFilter) : Prop where
  precedence : pf.precedence < 256
  remoteAddress : pf.remoteAddress < 2 ^ 32
  remoteMask : pf.remoteMask < 2 ^ 32
  localAddress : pf.localAddress < 2 ^ 32
  localMask : pf.localMask < 2 ^ 32
  remotePortStart : pf.remotePortStart < 2 ^ 16
  remotePortEnd : pf.remotePortEnd < 2 ^ 16
  localPortStart : pf.localPortStart < 2 ^ 16
  localPortEnd : pf.localPortEnd < 2 ^ 16
  typeOfService : pf.typeOfService < 256
  typeOfServiceMask : pf.typeOfServiceMask < 256

theorem Direction.ofNat?_bits (d : Direction) :
    Direction.ofNat? (((d.toNat <<< 4 &&& 0x30) &&& 0x30) >>> 4) = some d := by
  cases d <;> rfl

/-- A packet filter is read back. -/
theorem reads_packetFilter {pf : PacketFilter} (h : pf.InRange) :
    Reads deserializePacketFilter (serializePacketFilter pf).bytes [] pf :=
  Reads.cast (Reads.seq (reads_u8 (by cases pf.direction <;> decide)) <|
    Reads.skip (reads_enum pf.direction.ofNat?_bits) <|
    Reads.seq (reads_u8 h.precedence) <| Reads.seq (reads_u8 (by decide)) <|
      Reads.seq (reads_u8 (by decide)) <|
    Reads.seq (reads_u32 h.remoteAddress) <| Reads.seq (reads_u32 h.remoteMask) <|
      Reads.seq (reads_u8 (by decide)) <|
    Reads.seq (reads_u32 h.localAddress) <| Reads.seq (reads_u32 h.localMask) <|
      Reads.seq (reads_u8 (by decide)) <|
    Reads.seq (reads_u16 h.localPortStart) <| Reads.seq (reads_u16 h.localPortEnd) <|
    Reads.seq (reads_u8 (by decide)) <| Reads.seq (reads_u16 h.remotePortStart) <|
    Reads.seq (reads_u16 h.remotePortEnd) <| Reads.seq (reads_u8 (by decide)) <|
      Reads.seq (reads_u8 h.typeOfService) <|
    Reads.seq (reads_u8 h.typeOfServiceMask) <| Reads.pure _) rfl rfl

/-- At most 15 packet filters. -/
structure Tft.InRange (tft : Tft) : Prop where
  length : tft.filters.length ≤ 15
  filters : ∀ pf ∈ tft.filters, pf.InRange

theorem Tft.eq_of_filters {tft tft' : Tft} (h : tft.filters = tft'.filters) : tft = tft' := by
  cases tft
  cases tft'
  cases h
  rfl

theorem reads_addFilter {tft s : Tft} {pre post : List PacketFilter} {pf : PacketFilter}
    (h : tft.InRange) (htft : tft.filters = pre ++ pf :: post) (hs : s.filters = pre) :
    ∃ s', Reads (deserializePacketFilter >>= fun pf => s.add pf) (serializePacketFilter pf).bytes []
      s' ∧ s'.filters = pre ++ [pf] := by
  have hpf : pf.InRange := h.filters pf (htft ▸ mem_append_right pre mem_cons_self)
  have hlen : ¬ s.filters.length ≥ 16 := by
    have := h.length
    rw [htft, length_append, length_cons] at this
    rw [hs]
    omega
  have hsorted : ∀ f ∈ s.filters, f.precedence ≤ pf.precedence := by
    have := tft.sorted
    rw [htft, pairwise_append] at this
    exact fun f hf => this.2.2 f (hs ▸ hf) pf mem_cons_self
  have hadd : Reads (s.add pf) [] []
      ⟨Keyed.insertBehind PacketFilter.precedence pf s.filters,
      Keyed.sorted_insertBehind pf s.sorted,
        Keyed.length_insertBehind.le.trans (Nat.lt_of_not_le hlen)⟩ := by
    intro left noted
    rw [Tft.add, dif_neg hlen, append_nil]
    rfl
  have hreads := (reads_packetFilter hpf).bind hadd
  rw [append_nil] at hreads
  refine ⟨_, hreads, ?_⟩
  show Keyed.insertBehind PacketFilter.precedence pf s.filters = _
  rw [Keyed.insertBehind_eq_concat hsorted, hs]

/-- A TFT is read back, filter by filter. -/
theorem reads_bearerTft {tft : Tft} (h : tft.InRange) :
    Reads (deserializeBearerTft .empty) (serializeBearerTft tft.filters).bytes
      [1 + tft.filters.length * serializedSizePacketFilter] tft := by
  have hlen := h.length
  have hsize : 1 + tft.filters.length * serializedSizePacketFilter < 2 ^ 16 := by
    rw [serializedSizePacketFilter]
    omega
  have hcount : (0x20 + (tft.filters.length &&& 0x0f)) &&& 0x0f = tft.filters.length := by
    rw [lowBits_of_le hlen, show (0x20 + tft.filters.length) &&& 0x0f = _ from and_mask _ 0 4]
    omega
  obtain ⟨tft', hloop, hall⟩ := Reads.iterate (P := fun pre (s : Tft) => s.filters = pre)
    (f := fun pf => (serializePacketFilter pf).bytes) (g := fun _ => [])
    (fun {_ _ _ _} hxs hs => reads_addFilter h hxs hs) [] tft.filters (s := .empty) rfl rfl
  obtain rfl : tft' = tft := Tft.eq_of_filters hall
  have hfilters : (Out.seq (tft'.filters.map serializePacketFilter)).bytes =
      tft'.filters.flatMap fun pf => (serializePacketFilter pf).bytes := by
    rw [Out.bytes_seq, flatMap_map]
  rw [← hfilters, List.flatMap_eq_nil_iff.mpr fun _ _ => rfl] at hloop
  refine Reads.cast (Reads.seq (reads_u8 (by decide)) <| Reads.skip (Reads.require rfl) <|
    Reads.seq (reads_length hsize) <| Reads.seq (reads_u8 (by decide)) <| Reads.seq (reads_u8 ?_) <|
    Reads.last (o := Out.seq (tft'.filters.map serializePacketFilter)) ?_) rfl rfl
  · rw [lowBits_of_le hlen]
    omega
  · rw [hcount]
    exact hloop

/-- An ECGI is read back. -/
theorem reads_uliEcgi {uliEcgi : Nat} (h : uliEcgi < 2 ^ 28) :
    Reads deserializeUliEcgi (serializeUliEcgi uliEcgi).bytes [8] uliEcgi := by
  have hmask : uliEcgi &&& 0x0fffffff = uliEcgi := by
    rw [show uliEcgi &&& 0x0fffffff = _ from and_mask uliEcgi 0 28]
    omega
  exact Reads.cast (Reads.seq (reads_u8 (by decide)) <| Reads.skip (Reads.require rfl) <|
    Reads.seq (reads_length (by decide)) <| Reads.skip (Reads.require rfl) <|
    Reads.seq (reads_u8 (by decide)) <|
    Reads.skip (Reads.require rfl) <| Reads.seq (reads_u8 (by decide)) <|
      Reads.seq (reads_u8 (by decide)) <|
    Reads.seq (reads_u8 (by decide)) <| Reads.seq (reads_u8 (by decide)) <|
    Reads.seq (reads_u32 (h.trans (by decide))) <| Reads.pure _) rfl hmask

structure Fteid.InRange (fteid : Fteid) : Prop where
  addr : fteid.addr < 2 ^ 32
  teid : fteid.teid < 2 ^ 32

theorem InterfaceType.ofNat?_bits (t : InterfaceType) :
    InterfaceType.ofNat? ((0x80 ||| (t.toNat &&& 0x1f)) &&& 0x1f) = some t := by
  cases t <;> rfl

/-- An F-TEID is read back. -/
theorem reads_fteid {fteid : Fteid} (h : fteid.InRange) :
    Reads deserializeFteid (serializeFteid fteid).bytes [9] fteid :=
  Reads.cast (Reads.seq (reads_u8 (by decide)) <| Reads.skip (Reads.require rfl) <|
    Reads.seq (reads_length (by decide)) <| Reads.skip (Reads.require rfl) <|
    Reads.seq (reads_u8 (by decide)) <|
    Reads.skip (Reads.require rfl) <|
      Reads.seq (reads_u8 (by cases fteid.interfaceType <;> decide)) <|
    Reads.skip (reads_enum fteid.interfaceType.ofNat?_bits) <| Reads.seq (reads_u32 h.teid) <|
    Reads.seq (reads_u32 h.addr) <| Reads.pure _) rfl rfl

theorem reads_bearerContextHeader {length : Nat} (h : length < 2 ^ 16) :
    Reads deserializeBearerContextHeader (serializeBearerContextHeader length).bytes [swap16 length]
      (swap16 length) := by
  have hswap : swap16 length < 2 ^ 16 := by
    rw [swap16]
    omega
  have hlength : Reads readLength (noting length (writeU16 length)).bytes [swap16 length]
    (swap16 length) := by
    show Reads readLength (little 2 length) _ _
    rw [little_eq h]
    exact reads_length hswap
  exact Reads.cast (Reads.seq (reads_u8 (by decide)) <| Reads.skip (Reads.require rfl) <|
    Reads.seq hlength <|
    Reads.seq (reads_u8 (by decide)) <| Reads.skip (Reads.require rfl) <| Reads.pure _) rfl rfl

end elements

/-! ## Bearer contexts -/

section contexts
variable {α : Type} {item : Reader GtpcError α} {write : α → Out} {notes : α → List Nat}
  {xs : List α}

/-- A list is read back, where its elements are. -/
theorem readsAll_readList (old : List α) (hne : ∀ x ∈ xs, (write x).bytes ≠ [])
    (h : ∀ x ∈ xs, Reads item (write x).bytes (notes x) x) :
    ReadsAll (readList item old) (Out.seq (xs.map write)).bytes (xs.flatMap notes) (old ++ xs) := by
  obtain ⟨s, hs, rfl⟩ := ReadsAll.untilEnd (P := fun pre s => s = old ++ pre)
    (f := fun x => (write x).bytes) (e := .endOfBuffer) (g := notes) (fun items =>
    item >>= fun x => pure (items ++ [x])) hne
    (fun {pre x post s} hxs hs => by
      have hx : x ∈ xs := hxs ▸ mem_append_right pre mem_cons_self
      have hreads := (h x hx).bind (f := fun x => pure (s ++ [x])) (Reads.pure _)
      rw [append_nil, append_nil] at hreads
      exact ⟨s ++ [x], hreads, by rw [hs, append_assoc]⟩)
    (append_nil old).symm
  rw [Out.bytes_seq, flatMap_map]
  exact hs

/-- The notes of a bearer context, with the bytes of its length the other way round. -/
def swapLength : List Nat → List Nat
  | [] => []
  | length :: notes => swap16 length :: notes

theorem length_swapLength (notes : List Nat) : (swapLength notes).length = notes.length := by
  cases notes <;> rfl

/-- A bearer context is read again, except that its length is another. -/
structure ReadsContext (item : Reader GtpcError α) (o : Out) (x : α) : Prop where
  bytes : o.bytes ≠ []
  reads : Reads item o.bytes (swapLength o.notes) x
  length : swapLength o.notes ≠ o.notes

theorem readsAll_contexts (old : List α) (h : ∀ x ∈ xs, ReadsContext item (write x) x) :
    ∃ notes, ReadsAll (readList item old) (Out.seq (xs.map write)).bytes notes (old ++ xs) ∧
      (notes = (Out.seq (xs.map write)).notes ↔ xs.length = 0) := by
  refine ⟨_, readsAll_readList old (fun x hx => (h x hx).bytes) (fun x hx => (h x hx).reads), ?_⟩
  rw [Out.notes_seq, flatMap_map]
  cases xs with
  | nil => exact ⟨fun _ => rfl, fun _ => rfl⟩
  | cons x xs =>
    refine ⟨fun heq => ?_, fun hlen => absurd hlen (Nat.succ_ne_zero _)⟩
    rw [flatMap_cons, flatMap_cons] at heq
    exact absurd (append_inj heq (length_swapLength _)).1 (h x mem_cons_self).length

theorem readsContext_ofCommand {epsBearerId : Nat} (h : epsBearerId ≤ 15) :
    ReadsContext deserializeContextOfCommand (serializeContextOfCommand epsBearerId) epsBearerId
      where
  bytes := cons_ne_nil _ _
  reads := Reads.cast (Reads.seq (reads_bearerContextHeader (by decide)) <|
    Reads.last (reads_ebi h)) rfl rfl
  length := show [swap16 5, 1] ≠ [5, 1] by decide

/-- The fields of a bearer context have the range of their types. -/
structure BearerContextToBeModified.InRange (bc : BearerContextToBeModified) : Prop where
  epsBearerId : bc.epsBearerId ≤ 15
  fteid : bc.fteid.InRange

theorem readsContext_toBeModified {bc : BearerContextToBeModified} (h : bc.InRange) :
    ReadsContext deserializeContextToBeModified (serializeContextToBeModified bc) bc where
  bytes := cons_ne_nil _ _
  reads := Reads.cast (Reads.seq (reads_bearerContextHeader (by decide)) <|
    Reads.seq (reads_ebi h.epsBearerId) <| Reads.seq (reads_fteid h.fteid) <| Reads.pure _) rfl rfl
  length := show [swap16 18, 1, 9] ≠ [18, 1, 9] by decide

structure BearerContext.InRange (bc : BearerContext) : Prop where
  epsBearerId : bc.epsBearerId ≤ 15
  tft : bc.tft.InRange
  fteid : bc.fteid.InRange
  bearerLevelQos : bc.bearerLevelQos.InRange

theorem BearerContext.swap16_contentsSize {bc : BearerContext} (h : bc.tft.InRange) :
    bc.contentsSize < 2 ^ 16 ∧ swap16 bc.contentsSize ≠ bc.contentsSize := by
  have hlen := h.length
  have hsize : bc.contentsSize = 49 + 34 * bc.tft.filters.length := by
    simp only [contentsSize, serializedSizeEbi, getSerializedSizeBearerTft,
      serializedSizePacketFilter, serializedSizeFteid, serializedSizeBearerQos]
    omega
  rw [hsize, swap16]
  omega

theorem notes_serializeBearerTft (filters : List PacketFilter) :
    (serializeBearerTft filters).notes = [1 + filters.length * serializedSizePacketFilter] := by
  have hfilters : (Out.seq (filters.map serializePacketFilter)).notes = [] := by
    rw [Out.notes_seq, flatMap_map]
    exact List.flatMap_eq_nil_iff.mpr fun _ _ => rfl
  show _ :: (Out.seq (filters.map serializePacketFilter)).notes ++ [] = _
  rw [hfilters]
  rfl

theorem notes_serializeBearerContext (bc : BearerContext) :
    (serializeBearerContext bc).notes =
      [bc.contentsSize, 1, 1 + bc.tft.filters.length * serializedSizePacketFilter, 9, 22] := by
  show [bc.contentsSize, 1] ++ ((serializeBearerTft bc.tft.filters).notes ++ [9, 22]) = _
  rw [notes_serializeBearerTft]
  rfl

/-- A bearer context is read back. -/
theorem readsContext {bc : BearerContext} (h : bc.InRange) :
    ReadsContext deserializeBearerContext (serializeBearerContext bc) bc where
  bytes := cons_ne_nil _ _
  reads := notes_serializeBearerContext bc ▸ Reads.cast
    (Reads.seq (reads_bearerContextHeader (BearerContext.swap16_contentsSize h.tft).1) <|
    Reads.seq (reads_ebi h.epsBearerId) <| Reads.seq (reads_bearerTft h.tft) <|
      Reads.seq (reads_fteid h.fteid) <|
    Reads.seq (reads_bearerQos h.bearerLevelQos) <| Reads.pure _) rfl rfl
  length := fun heq => by
    rw [notes_serializeBearerContext] at heq
    exact (BearerContext.swap16_contentsSize h.tft).2 (cons.inj heq).1

end contexts

end OranNs3.Epc
