import OranNs3.Epc.GtpcElements

/-!
# GTP-C messages are read again

A message is read again with all of its fields if its sequence number has 24 bits and the list that
is added to was empty (`GtpcMessage.reads`), with the lengths that were written if it has no bearer
context, and takes as many bytes as `GetSerializedSize` says if 32 bits suffice for them
(`GtpcMessage.roundTrip_iff`).
-/

namespace OranNs3.Epc

open Wire List

/-! ## Sizes -/

/-- The bytes of a bearer context, with a packet filter in 34 of them. -/
def BearerContext.bytes (bc : BearerContext) : Nat := 53 + 34 * bc.tft.filters.length

namespace GtpcMessage

/-- The bytes of a message. -/
def bytes : GtpcMessage → Nat
  | createSessionRequest m => 49 + (m.bearerContextsToBeCreated.map BearerContext.bytes).sum
  | createSessionResponse m => 31 + (m.bearerContextsCreated.map BearerContext.bytes).sum
  | modifyBearerRequest m => 36 + 22 * m.bearerContextsToBeModified.length
  | modifyBearerResponse _ => 18
  | deleteBearerCommand m => 12 + 9 * m.bearerContexts.length
  | deleteBearerRequest m => 12 + 5 * m.epsBearerIds.length
  | deleteBearerResponse m => 18 + 5 * m.epsBearerIds.length

/-- The number of bearer contexts of a message. -/
def contexts : GtpcMessage → Nat
  | createSessionRequest m => m.bearerContextsToBeCreated.length
  | createSessionResponse m => m.bearerContextsCreated.length
  | modifyBearerRequest m => m.bearerContextsToBeModified.length
  | modifyBearerResponse _ => 0
  | deleteBearerCommand m => m.bearerContexts.length
  | deleteBearerRequest _ => 0
  | deleteBearerResponse _ => 0

/-- The number of elements in the list of an object that `Deserialize` does not clear. -/
def leftOver : GtpcMessage → Nat
  | createSessionRequest _ => 0
  | createSessionResponse _ => 0
  | modifyBearerRequest old => old.bearerContextsToBeModified.length
  | modifyBearerResponse _ => 0
  | deleteBearerCommand old => old.bearerContexts.length
  | deleteBearerRequest old => old.epsBearerIds.length
  | deleteBearerResponse old => old.epsBearerIds.length

/-- The fields of a message have the range of their types, with TEID, bearer IDs of at most 15, at
most 15 packet filters in a TFT, bit rates below `2 ^ 40`, and an ECGI below `2 ^ 28`. -/
def InRange : GtpcMessage → Prop
  | createSessionRequest m =>
    m.toGtpcHeader.InRange ∧ m.imsi < 2 ^ 64 ∧ m.uliEcgi < 2 ^ 28 ∧ m.senderCpFteid.InRange ∧
      ∀ bc ∈ m.bearerContextsToBeCreated, bc.InRange
  | createSessionResponse m =>
    m.toGtpcHeader.InRange ∧ m.senderCpFteid.InRange ∧ ∀ bc ∈ m.bearerContextsCreated, bc.InRange
  | modifyBearerRequest m =>
    m.toGtpcHeader.InRange ∧ m.imsi < 2 ^ 64 ∧ m.uliEcgi < 2 ^ 28 ∧
      ∀ bc ∈ m.bearerContextsToBeModified, bc.InRange
  | modifyBearerResponse m => m.toGtpcHeader.InRange
  | deleteBearerCommand m => m.toGtpcHeader.InRange ∧ ∀ id ∈ m.bearerContexts, id ≤ 15
  | deleteBearerRequest m => m.toGtpcHeader.InRange ∧ ∀ id ∈ m.epsBearerIds, id ≤ 15
  | deleteBearerResponse m => m.toGtpcHeader.InRange ∧ ∀ id ∈ m.epsBearerIds, id ≤ 15

theorem InRange.header {m : GtpcMessage} (h : m.InRange) : m.header.InRange := by
  cases m with
  | modifyBearerResponse m => exact h
  | _ => exact h.1

end GtpcMessage

section lengths

@[simp]
theorem length_preSerialize (h : GtpcHeader) : h.preSerialize.length = 12 := rfl

@[simp]
theorem length_serializeImsi (imsi : Nat) : (serializeImsi imsi).length = 12 := rfl

@[simp]
theorem length_serializeCause (cause : Cause) : (serializeCause cause).length = 6 := rfl

@[simp]
theorem length_serializeUliEcgi (uliEcgi : Nat) : (serializeUliEcgi uliEcgi).length = 12 := rfl

@[simp]
theorem length_serializeFteid (fteid : Fteid) : (serializeFteid fteid).length = 13 := rfl

theorem length_serializeEbi (id : Nat) : (serializeEbi id).length = 5 := rfl

theorem length_serializeContextOfCommand (id : Nat) : (serializeContextOfCommand id).length = 9 :=
  rfl

theorem length_serializeContextToBeModified (bc : BearerContextToBeModified) :
    (serializeContextToBeModified bc).length = 22 := rfl

theorem length_serializeBearerTft (filters : List PacketFilter) :
    (serializeBearerTft filters).length = 5 + 34 * filters.length := by
  have hfilters := Out.length_seq_map (f := serializePacketFilter) (n := 34) filters fun _ => rfl
  rw [serializeBearerTft]
  simp only [Out.length_seq_cons, hfilters, Out.length_seq_nil]
  simp only [Out.length, writeU8, noting, writeHtonU16, length_singleton, length_big]
  omega

theorem length_serializeBearerContext (bc : BearerContext) :
    (serializeBearerContext bc).length = bc.bytes := by
  rw [serializeBearerContext]
  simp only [Out.length_seq_cons, length_serializeBearerTft, Out.length_seq_nil,
    BearerContext.bytes]
  have hheader : (serializeBearerContextHeader bc.contentsSize).length = 4 := rfl
  have hqos : (serializeBearerQos bc.bearerLevelQos).length = 26 := rfl
  rw [hheader, hqos, length_serializeEbi, length_serializeFteid]
  omega

@[simp]
theorem length_serializeBearerContexts (bcs : List BearerContext) :
    (Out.seq (bcs.map serializeBearerContext)).length = (bcs.map BearerContext.bytes).sum := by
  induction bcs with
  | nil => rfl
  | cons bc bcs ih =>
    rw [map_cons, Out.length_seq_cons, ih, length_serializeBearerContext, map_cons, sum_cons]

theorem bearerContextsSize_eq (bcs : List BearerContext) :
    bearerContextsSize bcs = (bcs.map BearerContext.bytes).sum := by
  have h : ∀ bc : BearerContext, serializedSizeBearerContextHeader + bc.contentsSize =
    bc.bytes := by
    intro bc
    simp only [serializedSizeBearerContextHeader, BearerContext.contentsSize, serializedSizeEbi,
      getSerializedSizeBearerTft, serializedSizePacketFilter, serializedSizeFteid,
      serializedSizeBearerQos,
      BearerContext.bytes]
    omega
  simp only [bearerContextsSize, h]

end lengths

namespace GtpcMessage

theorem length_serialize (m : GtpcMessage) : m.serialize.length = m.bytes := by
  cases m with
  | createSessionRequest m =>
    simp [serialize, CreateSessionRequest.serialize, bytes, ← Nat.add_assoc]
  | createSessionResponse m =>
    simp [serialize, CreateSessionResponse.serialize, bytes, ← Nat.add_assoc]
  | modifyBearerRequest m =>
    have h := Out.length_seq_map m.bearerContextsToBeModified length_serializeContextToBeModified
    simp [serialize, ModifyBearerRequest.serialize, bytes, h]
    omega
  | modifyBearerResponse m => simp [serialize, ModifyBearerResponse.serialize, bytes]
  | deleteBearerCommand m =>
    have h := Out.length_seq_map m.bearerContexts length_serializeContextOfCommand
    simp [serialize, DeleteBearerCommand.serialize, bytes, h, Nat.mul_comm]
  | deleteBearerRequest m =>
    have h := Out.length_seq_map m.epsBearerIds length_serializeEbi
    simp [serialize, DeleteBearerRequest.serialize, bytes, h, Nat.mul_comm]
  | deleteBearerResponse m =>
    have h := Out.length_seq_map m.epsBearerIds length_serializeEbi
    simp [serialize, DeleteBearerResponse.serialize, bytes, h]
    omega

theorem getSerializedSize_eq {m : GtpcMessage} (h : m.InRange) :
    m.getSerializedSize = m.bytes % 2 ^ 32 := by
  have hflag := h.header.teidFlag
  rw [getSerializedSize, GtpcHeader.sizeWith, GtpcHeader.getSerializedSize, if_pos hflag]
  cases m <;>
    simp only [getMessageSize, CreateSessionRequest.getMessageSize,
    CreateSessionResponse.getMessageSize,
      ModifyBearerRequest.getMessageSize, ModifyBearerResponse.getMessageSize,
      DeleteBearerCommand.getMessageSize,
      DeleteBearerRequest.getMessageSize, DeleteBearerResponse.getMessageSize,
        bearerContextsSize_eq, bytes,
      serializedSizeImsi, serializedSizeCause, serializedSizeEbi, serializedSizeUliEcgi,
        serializedSizeFteid,
      serializedSizeBearerContextHeader] <;>
    omega

end GtpcMessage

/-! ## Reading -/

theorem GtpcHeader.written_eq_iff {h : GtpcHeader} : h.written = h ↔ h.sequenceNumber < 2 ^ 24 := by
  refine ⟨fun heq => ?_, fun hlt => ?_⟩
  · have hmod : h.sequenceNumber % 2 ^ 24 = h.sequenceNumber := congrArg GtpcHeader.sequenceNumber
      heq
    exact hmod ▸ Nat.mod_lt _ (by decide)
  · rw [written, Nat.mod_eq_of_lt hlt]

theorem readsAll_ebis {ids : List Nat} (old : List Nat) (h : ∀ id ∈ ids, id ≤ 15) :
    ReadsAll (readList deserializeEbi old) (Out.seq (ids.map serializeEbi)).bytes
      (Out.seq (ids.map serializeEbi)).notes (old ++ ids) := by
  rw [Out.notes_seq, flatMap_map]
  exact readsAll_readList old (fun _ _ => cons_ne_nil _ _) fun id hid => reads_ebi (h id hid)

section messages

theorem CreateSessionRequest.reads {m : CreateSessionRequest} (old : CreateSessionRequest)
    (hm : (GtpcMessage.createSessionRequest m).InRange) :
    ∃ notes, ReadsAll old.deserialize m.serialize.bytes notes { m with toGtpcHeader := m.written } ∧
      (notes = m.serialize.notes ↔ m.bearerContextsToBeCreated.length = 0) := by
  obtain ⟨hh, himsi, hecgi, hfteid, hbcs⟩ := hm
  obtain ⟨notes, hreads, hnotes⟩ := readsAll_contexts [] fun bc hbc => readsContext (hbcs bc hbc)
  refine ⟨_, Reads.seqAll (reads_preDeserialize hh) <| Reads.seqAll (reads_imsi himsi) <|
    Reads.seqAll (reads_uliEcgi hecgi) <| Reads.seqAll (reads_fteid hfteid) hreads.last, ?_⟩
  show [8, 8, 9] ++ notes = [8, 8, 9] ++ (_ ++ []) ↔ _
  rw [append_nil, append_right_inj, hnotes]

theorem CreateSessionResponse.reads {m : CreateSessionResponse} (old : CreateSessionResponse)
    (hm : (GtpcMessage.createSessionResponse m).InRange) :
    ∃ notes, ReadsAll old.deserialize m.serialize.bytes notes { m with toGtpcHeader := m.written } ∧
      (notes = m.serialize.notes ↔ m.bearerContextsCreated.length = 0) := by
  obtain ⟨hh, hfteid, hbcs⟩ := hm
  obtain ⟨notes, hreads, hnotes⟩ := readsAll_contexts [] fun bc hbc => readsContext (hbcs bc hbc)
  refine ⟨_, Reads.seqAll (reads_preDeserialize hh) <| Reads.seqAll (reads_cause m.cause) <|
    Reads.seqAll (reads_fteid hfteid) hreads.last, ?_⟩
  show [2, 9] ++ notes = [2, 9] ++ (_ ++ []) ↔ _
  rw [append_nil, append_right_inj, hnotes]

theorem ModifyBearerRequest.reads {m : ModifyBearerRequest} (old : ModifyBearerRequest)
    (hm : (GtpcMessage.modifyBearerRequest m).InRange) :
    ∃ notes, ReadsAll old.deserialize m.serialize.bytes notes
        ⟨m.written, m.imsi, m.uliEcgi,
          old.bearerContextsToBeModified ++ m.bearerContextsToBeModified⟩ ∧
      (notes = m.serialize.notes ↔ m.bearerContextsToBeModified.length = 0) := by
  obtain ⟨hh, himsi, hecgi, hbcs⟩ := hm
  obtain ⟨notes, hreads, hnotes⟩ :=
    readsAll_contexts old.bearerContextsToBeModified fun bc hbc =>
      readsContext_toBeModified (hbcs bc hbc)
  refine ⟨_, Reads.seqAll (reads_preDeserialize hh) <| Reads.seqAll (reads_imsi himsi) <|
    Reads.seqAll (reads_uliEcgi hecgi) hreads.last, ?_⟩
  show [8, 8] ++ notes = [8, 8] ++ (_ ++ []) ↔ _
  rw [append_nil, append_right_inj, hnotes]

theorem ModifyBearerResponse.reads {m : ModifyBearerResponse} (old : ModifyBearerResponse)
    (hm : (GtpcMessage.modifyBearerResponse m).InRange) :
    ReadsAll old.deserialize m.serialize.bytes m.serialize.notes
      { m with toGtpcHeader := m.written } :=
  Reads.seqAll (reads_preDeserialize hm) (reads_cause m.cause).all.last

theorem DeleteBearerCommand.reads {m : DeleteBearerCommand} (old : DeleteBearerCommand)
    (hm : (GtpcMessage.deleteBearerCommand m).InRange) :
    ∃ notes, ReadsAll old.deserialize m.serialize.bytes notes
        ⟨m.written, old.bearerContexts ++ m.bearerContexts⟩ ∧
      (notes = m.serialize.notes ↔ m.bearerContexts.length = 0) := by
  obtain ⟨hh, hids⟩ := hm
  obtain ⟨notes, hreads, hnotes⟩ :=
    readsAll_contexts old.bearerContexts fun id hid => readsContext_ofCommand (hids id hid)
  refine ⟨_, Reads.seqAll (reads_preDeserialize hh) hreads.last, ?_⟩
  show notes = _ ++ [] ↔ _
  rw [append_nil, hnotes]

theorem DeleteBearerRequest.reads {m : DeleteBearerRequest} (old : DeleteBearerRequest)
    (hm : (GtpcMessage.deleteBearerRequest m).InRange) :
    ReadsAll old.deserialize m.serialize.bytes m.serialize.notes
      ⟨m.written, old.epsBearerIds ++ m.epsBearerIds⟩ :=
  ReadsAll.cast
    (Reads.seqAll (reads_preDeserialize hm.1) (readsAll_ebis old.epsBearerIds hm.2).last)
    (append_nil _).symm rfl

theorem DeleteBearerResponse.reads {m : DeleteBearerResponse} (old : DeleteBearerResponse)
    (hm : (GtpcMessage.deleteBearerResponse m).InRange) :
    ReadsAll old.deserialize m.serialize.bytes m.serialize.notes
      ⟨m.written, m.cause, old.epsBearerIds ++ m.epsBearerIds⟩ :=
  ReadsAll.cast (Reads.seqAll (reads_preDeserialize hm.1) <| Reads.seqAll (reads_cause m.cause)
    (readsAll_ebis old.epsBearerIds hm.2).last) (congrArg ([2] ++ ·) (append_nil _).symm) rfl

end messages

namespace GtpcMessage

/-- A message is read into an object of its class: with its fields, if its sequence number has 24
bits and the list that is added to was empty, and with its lengths, if it has no bearer context. -/
theorem reads {old m : GtpcMessage} (hsame : Same old m) (hm : m.InRange) :
    ∃ r notes, ReadsAll old.read m.serialize.bytes notes r ∧
      (r = m ↔ m.header.sequenceNumber < 2 ^ 24 ∧ old.leftOver = 0) ∧
      (notes = m.serialize.notes ↔ m.contexts = 0) := by
  rw [← GtpcHeader.written_eq_iff]
  cases hsame with
  | createSessionRequest old m =>
    obtain ⟨notes, hreads, hnotes⟩ := CreateSessionRequest.reads old hm
    refine ⟨_, notes, hreads.bindPure, ?_, hnotes⟩
    cases m
    simp [header, leftOver]
  | createSessionResponse old m =>
    obtain ⟨notes, hreads, hnotes⟩ := CreateSessionResponse.reads old hm
    refine ⟨_, notes, hreads.bindPure, ?_, hnotes⟩
    cases m
    simp [header, leftOver]
  | modifyBearerRequest old m =>
    obtain ⟨notes, hreads, hnotes⟩ := ModifyBearerRequest.reads old hm
    refine ⟨_, notes, hreads.bindPure, ?_, hnotes⟩
    cases m
    simp [header, leftOver]
  | modifyBearerResponse old m =>
    refine ⟨_, _, (ModifyBearerResponse.reads old hm).bindPure, ?_, iff_of_true rfl rfl⟩
    cases m
    simp [header, leftOver]
  | deleteBearerCommand old m =>
    obtain ⟨notes, hreads, hnotes⟩ := DeleteBearerCommand.reads old hm
    refine ⟨_, notes, hreads.bindPure, ?_, hnotes⟩
    cases m
    simp [header, leftOver]
  | deleteBearerRequest old m =>
    refine ⟨_, _, (DeleteBearerRequest.reads old hm).bindPure, ?_, iff_of_true rfl rfl⟩
    cases m
    simp [header, leftOver]
  | deleteBearerResponse old m =>
    refine ⟨_, _, (DeleteBearerResponse.reads old hm).bindPure, ?_, iff_of_true rfl rfl⟩
    cases m
    simp [header, leftOver]

/-- The bytes of a message are as many as `GetSerializedSize` says, and are read into `old` with all
fields, to the end, with every length as it was written. -/
structure RoundTrip (m old : GtpcMessage) : Prop where
  size : m.serialize.length = m.getSerializedSize
  reads : old.deserialize ⟨m.serialize.bytes, []⟩ =
    .ok ((m, m.getSerializedSize), ⟨[], m.serialize.notes⟩)

theorem deserialize_eq {old r : GtpcMessage} {bytes notes : List Nat}
    (h : ReadsAll old.read bytes notes r) :
    old.deserialize ⟨bytes, []⟩ = .ok ((r, r.getSerializedSize), ⟨[], notes⟩) :=
  ReadsAll.bindPure (f := fun m : GtpcMessage => (m, m.getSerializedSize)) h []

/-- A message is read again exactly if it has no bearer context, whose length would be another, its
sequence number has 24 bits, nothing is left over in the list that is not cleared, and its size has
32 bits. -/
theorem roundTrip_iff {old m : GtpcMessage} (hsame : Same old m) (hm : m.InRange) :
    RoundTrip m old ↔
      m.contexts = 0 ∧ m.header.sequenceNumber < 2 ^ 24 ∧ old.leftOver = 0 ∧ m.bytes < 2 ^ 32 := by
  obtain ⟨r, notes, hreads, hfields, hlengths⟩ := reads hsame hm
  have hsize : m.serialize.length = m.getSerializedSize ↔ m.bytes < 2 ^ 32 := by
    rw [length_serialize, getSerializedSize_eq hm, eq_comm]
    exact Nat.mod_eq_iff_lt (by decide)
  constructor
  · rintro ⟨hlen, heq⟩
    rw [deserialize_eq hreads] at heq
    obtain ⟨⟨rfl, -⟩, -, hnotes⟩ : (r = m ∧ _) ∧ _ ∧ notes = m.serialize.notes := by
      simpa only [Except.ok.injEq, Prod.mk.injEq, In.mk.injEq] using heq
    obtain ⟨hseq, hleft⟩ := hfields.mp rfl
    exact ⟨hlengths.mp hnotes, hseq, hleft, hsize.mp hlen⟩
  · rintro ⟨hcontexts, hseq, hleft, hlen⟩
    obtain rfl : r = m := hfields.mpr ⟨hseq, hleft⟩
    refine ⟨hsize.mpr hlen, ?_⟩
    rw [deserialize_eq hreads, hlengths.mpr hcontexts]

/-- A response with two bearer IDs, read into a new object. -/
theorem roundTrip_two_ids :
    RoundTrip (deleteBearerResponse ⟨⟨true, 36, 22, 7, 5⟩, .requestAccepted, [5, 6]⟩)
      (deleteBearerResponse ⟨{}, .reserved, []⟩) :=
  (roundTrip_iff (.deleteBearerResponse _ _) ⟨⟨rfl, by decide, by decide, by decide⟩, by
    decide⟩).mpr
    ⟨rfl, by decide, rfl, by decide⟩

/-- A request with one bearer context, of which the length is 18. -/
def modifyOne : GtpcMessage :=
  modifyBearerRequest ⟨⟨true, 34, 54, 7, 5⟩, 1, 2, [⟨5, ⟨.s1uGnbGtpu, 1, 2⟩⟩]⟩

/-- A request to delete one bearer. -/
def deleteOne : GtpcMessage := deleteBearerRequest ⟨⟨true, 99, 9, 7, 5⟩, [5]⟩

/-- The length of a bearer context is found as 4608 in a new object, and a bearer is deleted twice
by an object that has read the same message before. -/
theorem roundTrip_fails :
    modifyOne.InRange ∧ deleteOne.InRange ∧
      (modifyBearerRequest ⟨{}, 0, 0, []⟩).deserialize ⟨modifyOne.serialize.bytes, []⟩ =
        .ok ((modifyOne, 58), ⟨[], [8, 8, 4608, 1, 9]⟩) ∧
      modifyOne.serialize.notes = [8, 8, 18, 1, 9] ∧
      deleteOne.deserialize ⟨deleteOne.serialize.bytes, []⟩ =
        .ok ((deleteBearerRequest ⟨⟨true, 99, 9, 7, 5⟩, [5, 5]⟩, 22), ⟨[], [1]⟩) ∧
      ¬ ∀ old m : GtpcMessage, Same old m → m.InRange → RoundTrip m old := by
  have hmodify : modifyOne.InRange := by
    refine ⟨⟨rfl, by decide, by decide, by decide⟩, by decide, by decide, fun bc hbc => ?_⟩
    rw [List.mem_singleton.mp hbc]
    exact ⟨by decide, ⟨by decide, by decide⟩⟩
  have hdelete : deleteOne.InRange := ⟨⟨rfl, by decide, by decide, by decide⟩, by decide⟩
  have hread : deleteOne.deserialize ⟨deleteOne.serialize.bytes, []⟩ =
      .ok ((deleteBearerRequest ⟨⟨true, 99, 9, 7, 5⟩, [5, 5]⟩, 22), ⟨[], [1]⟩) := by decide +kernel
  refine ⟨hmodify, hdelete, by decide +kernel, by decide +kernel, hread, fun h => ?_⟩
  have heq := (h deleteOne deleteOne (.deleteBearerRequest _ _) hdelete).reads
  rw [hread] at heq
  revert heq
  decide +kernel

end GtpcMessage

end OranNs3.Epc
