import OranNs3.Epc.Gtpc

/-!
# The messages of GTP-C

The seven classes of `nr-epc-gtpc-header.cc`, each a header and its fields, with `GetMessageSize`,
`Serialize` and `Deserialize`. A message is read into an object that exists (`old`): the two
messages about sessions clear their lists first, the four others add to theirs. Sizes are 32 bits
wide.
-/

namespace OranNs3.Epc

open Wire

def serializedSizeImsi : Nat := 12
def serializedSizeCause : Nat := 6
def serializedSizeEbi : Nat := 5
def serializedSizeBearerQos : Nat := 26
def serializedSizeUliEcgi : Nat := 12
def serializedSizeFteid : Nat := 13
def serializedSizeBearerContextHeader : Nat := 4

/-- The sum of a message's size and that of its header. -/
def GtpcHeader.sizeWith (h : GtpcHeader) (messageSize : Nat) : Nat :=
  (h.getSerializedSize + messageSize) % 2 ^ 32

/-- A list that a loop reads up to the end, behind what is in it. -/
def readList {α : Type} (item : Reader GtpcError α) (old : List α) : Reader GtpcError (List α) :=
  untilEnd .endOfBuffer
    (fun items => do
      let x ← item
      return items ++ [x])
    old

/-! ## Bearer contexts -/

/-- `BearerContextToBeCreated`, and `BearerContextCreated`, whose F-TEID has another name. -/
structure BearerContext where
  fteid : Fteid
  epsBearerId : Nat
  tft : Tft
  bearerLevelQos : EpsBearer
deriving DecidableEq

/-- The length of the contents of a bearer context. -/
def BearerContext.contentsSize (bc : BearerContext) : Nat :=
  serializedSizeEbi + getSerializedSizeBearerTft bc.tft.filters + serializedSizeFteid +
    serializedSizeBearerQos

/-- The loop of `Serialize` in both messages about sessions. -/
def serializeBearerContext (bc : BearerContext) : Out := .seq
  [serializeBearerContextHeader bc.contentsSize, serializeEbi bc.epsBearerId,
    serializeBearerTft bc.tft.filters, serializeFteid bc.fteid,
      serializeBearerQos bc.bearerLevelQos]

/-- The loop of `Deserialize` in both. -/
def deserializeBearerContext : Reader GtpcError BearerContext := do
  let _ ← deserializeBearerContextHeader
  let epsBearerId ← deserializeEbi
  let tft ← deserializeBearerTft .empty
  let fteid ← deserializeFteid
  let bearerLevelQos ← deserializeBearerQos
  return { fteid, epsBearerId, tft, bearerLevelQos }

/-- The part of `GetMessageSize` in both. -/
def bearerContextsSize (bcs : List BearerContext) : Nat :=
  (bcs.map fun bc => serializedSizeBearerContextHeader + bc.contentsSize).sum

/-! ## Sessions -/

/-- `NrGtpcCreateSessionRequestMessage`. -/
structure CreateSessionRequest extends GtpcHeader where
  imsi : Nat
  uliEcgi : Nat
  senderCpFteid : Fteid
  bearerContextsToBeCreated : List BearerContext
deriving DecidableEq

namespace CreateSessionRequest

def getMessageSize (m : CreateSessionRequest) : Nat :=
  (serializedSizeImsi + serializedSizeUliEcgi + serializedSizeFteid +
    bearerContextsSize m.bearerContextsToBeCreated) % 2 ^ 32

def serialize (m : CreateSessionRequest) : Out := .seq
  [m.preSerialize, serializeImsi m.imsi, serializeUliEcgi m.uliEcgi, serializeFteid m.senderCpFteid,
    .seq (m.bearerContextsToBeCreated.map serializeBearerContext)]

def deserialize (_old : CreateSessionRequest) : Reader GtpcError CreateSessionRequest := do
  let h ← GtpcHeader.preDeserialize
  let imsi ← deserializeImsi
  let uliEcgi ← deserializeUliEcgi
  let senderCpFteid ← deserializeFteid
  let bearerContexts ← readList deserializeBearerContext []
  return ⟨h, imsi, uliEcgi, senderCpFteid, bearerContexts⟩

end CreateSessionRequest

/-- `NrGtpcCreateSessionResponseMessage`. -/
structure CreateSessionResponse extends GtpcHeader where
  cause : Cause
  senderCpFteid : Fteid
  bearerContextsCreated : List BearerContext
deriving DecidableEq

namespace CreateSessionResponse

def getMessageSize (m : CreateSessionResponse) : Nat :=
  (serializedSizeCause + serializedSizeFteid + bearerContextsSize m.bearerContextsCreated) % 2 ^ 32

def serialize (m : CreateSessionResponse) : Out := .seq
  [m.preSerialize, serializeCause m.cause, serializeFteid m.senderCpFteid,
    .seq (m.bearerContextsCreated.map serializeBearerContext)]

def deserialize (_old : CreateSessionResponse) : Reader GtpcError CreateSessionResponse := do
  let h ← GtpcHeader.preDeserialize
  let cause ← deserializeCause
  let senderCpFteid ← deserializeFteid
  let bearerContexts ← readList deserializeBearerContext []
  return ⟨h, cause, senderCpFteid, bearerContexts⟩

end CreateSessionResponse

/-! ## Modification of bearers -/

/-- `BearerContextToBeModified`. -/
structure BearerContextToBeModified where
  epsBearerId : Nat
  fteid : Fteid
deriving DecidableEq

/-- The loop of `Serialize`. -/
def serializeContextToBeModified (bc : BearerContextToBeModified) : Out := .seq
  [serializeBearerContextHeader (serializedSizeEbi + serializedSizeFteid),
    serializeEbi bc.epsBearerId, serializeFteid bc.fteid]

/-- The loop of `Deserialize`. -/
def deserializeContextToBeModified : Reader GtpcError BearerContextToBeModified := do
  let _ ← deserializeBearerContextHeader
  let epsBearerId ← deserializeEbi
  let fteid ← deserializeFteid
  return ⟨epsBearerId, fteid⟩

/-- `NrGtpcModifyBearerRequestMessage`. -/
structure ModifyBearerRequest extends GtpcHeader where
  imsi : Nat
  uliEcgi : Nat
  bearerContextsToBeModified : List BearerContextToBeModified
deriving DecidableEq

namespace ModifyBearerRequest

def getMessageSize (m : ModifyBearerRequest) : Nat :=
  (serializedSizeImsi + serializedSizeUliEcgi + m.bearerContextsToBeModified.length *
    (serializedSizeBearerContextHeader + serializedSizeEbi + serializedSizeFteid)) % 2 ^ 32

def serialize (m : ModifyBearerRequest) : Out := .seq
  [m.preSerialize, serializeImsi m.imsi, serializeUliEcgi m.uliEcgi,
    .seq (m.bearerContextsToBeModified.map serializeContextToBeModified)]

/-- The list is not cleared. -/
def deserialize (old : ModifyBearerRequest) : Reader GtpcError ModifyBearerRequest := do
  let h ← GtpcHeader.preDeserialize
  let imsi ← deserializeImsi
  let uliEcgi ← deserializeUliEcgi
  let bearerContexts ← readList deserializeContextToBeModified old.bearerContextsToBeModified
  return ⟨h, imsi, uliEcgi, bearerContexts⟩

end ModifyBearerRequest

/-- `NrGtpcModifyBearerResponseMessage`. -/
structure ModifyBearerResponse extends GtpcHeader where
  cause : Cause
deriving DecidableEq

namespace ModifyBearerResponse

def getMessageSize (_m : ModifyBearerResponse) : Nat := serializedSizeCause

def serialize (m : ModifyBearerResponse) : Out := .seq [m.preSerialize, serializeCause m.cause]

def deserialize (_old : ModifyBearerResponse) : Reader GtpcError ModifyBearerResponse := do
  let h ← GtpcHeader.preDeserialize
  let cause ← deserializeCause
  return ⟨h, cause⟩

end ModifyBearerResponse

/-! ## Deletion of bearers -/

/-- `BearerContext` of the command, which has a bearer ID only. -/
def serializeContextOfCommand (epsBearerId : Nat) : Out := .seq
  [serializeBearerContextHeader serializedSizeEbi, serializeEbi epsBearerId]

/-- The loop of `Deserialize`. -/
def deserializeContextOfCommand : Reader GtpcError Nat := do
  let _ ← deserializeBearerContextHeader
  deserializeEbi

/-- `NrGtpcDeleteBearerCommandMessage`, with the bearer IDs of its contexts. -/
structure DeleteBearerCommand extends GtpcHeader where
  bearerContexts : List Nat
deriving DecidableEq

namespace DeleteBearerCommand

def getMessageSize (m : DeleteBearerCommand) : Nat :=
  (m.bearerContexts.length * (serializedSizeBearerContextHeader + serializedSizeEbi)) % 2 ^ 32

def serialize (m : DeleteBearerCommand) : Out := .seq
  [m.preSerialize, .seq (m.bearerContexts.map serializeContextOfCommand)]

/-- The list is not cleared. -/
def deserialize (old : DeleteBearerCommand) : Reader GtpcError DeleteBearerCommand := do
  let h ← GtpcHeader.preDeserialize
  let bearerContexts ← readList deserializeContextOfCommand old.bearerContexts
  return ⟨h, bearerContexts⟩

end DeleteBearerCommand

/-- `NrGtpcDeleteBearerRequestMessage`. -/
structure DeleteBearerRequest extends GtpcHeader where
  epsBearerIds : List Nat
deriving DecidableEq

namespace DeleteBearerRequest

def getMessageSize (m : DeleteBearerRequest) : Nat :=
  (m.epsBearerIds.length * serializedSizeEbi) % 2 ^ 32

def serialize (m : DeleteBearerRequest) : Out :=
  .seq [m.preSerialize, .seq (m.epsBearerIds.map serializeEbi)]

/-- The list is not cleared. -/
def deserialize (old : DeleteBearerRequest) : Reader GtpcError DeleteBearerRequest := do
  let h ← GtpcHeader.preDeserialize
  let epsBearerIds ← readList deserializeEbi old.epsBearerIds
  return ⟨h, epsBearerIds⟩

end DeleteBearerRequest

/-- `NrGtpcDeleteBearerResponseMessage`. -/
structure DeleteBearerResponse extends GtpcHeader where
  cause : Cause
  epsBearerIds : List Nat
deriving DecidableEq

namespace DeleteBearerResponse

def getMessageSize (m : DeleteBearerResponse) : Nat :=
  (serializedSizeCause + m.epsBearerIds.length * serializedSizeEbi) % 2 ^ 32

def serialize (m : DeleteBearerResponse) : Out := .seq
  [m.preSerialize, serializeCause m.cause, .seq (m.epsBearerIds.map serializeEbi)]

/-- The list is not cleared. -/
def deserialize (old : DeleteBearerResponse) : Reader GtpcError DeleteBearerResponse := do
  let h ← GtpcHeader.preDeserialize
  let cause ← deserializeCause
  let epsBearerIds ← readList deserializeEbi old.epsBearerIds
  return ⟨h, cause, epsBearerIds⟩

end DeleteBearerResponse

/-! ## Any message -/

/-- An object of one of the classes. -/
inductive GtpcMessage
  | createSessionRequest (m : CreateSessionRequest)
  | createSessionResponse (m : CreateSessionResponse)
  | modifyBearerRequest (m : ModifyBearerRequest)
  | modifyBearerResponse (m : ModifyBearerResponse)
  | deleteBearerCommand (m : DeleteBearerCommand)
  | deleteBearerRequest (m : DeleteBearerRequest)
  | deleteBearerResponse (m : DeleteBearerResponse)
deriving DecidableEq

namespace GtpcMessage

/-- The header of a message. -/
def header : GtpcMessage → GtpcHeader
  | createSessionRequest m => m.toGtpcHeader
  | createSessionResponse m => m.toGtpcHeader
  | modifyBearerRequest m => m.toGtpcHeader
  | modifyBearerResponse m => m.toGtpcHeader
  | deleteBearerCommand m => m.toGtpcHeader
  | deleteBearerRequest m => m.toGtpcHeader
  | deleteBearerResponse m => m.toGtpcHeader

def getMessageSize : GtpcMessage → Nat
  | createSessionRequest m => m.getMessageSize
  | createSessionResponse m => m.getMessageSize
  | modifyBearerRequest m => m.getMessageSize
  | modifyBearerResponse m => m.getMessageSize
  | deleteBearerCommand m => m.getMessageSize
  | deleteBearerRequest m => m.getMessageSize
  | deleteBearerResponse m => m.getMessageSize

/-- `GetSerializedSize`, the same for all of them. -/
def getSerializedSize (m : GtpcMessage) : Nat := m.header.sizeWith m.getMessageSize

def serialize : GtpcMessage → Out
  | createSessionRequest m => m.serialize
  | createSessionResponse m => m.serialize
  | modifyBearerRequest m => m.serialize
  | modifyBearerResponse m => m.serialize
  | deleteBearerCommand m => m.serialize
  | deleteBearerRequest m => m.serialize
  | deleteBearerResponse m => m.serialize

/-- What an object is after `Deserialize`. -/
def read : GtpcMessage → Reader GtpcError GtpcMessage
  | createSessionRequest old => old.deserialize >>= fun m => pure (.createSessionRequest m)
  | createSessionResponse old => old.deserialize >>= fun m => pure (.createSessionResponse m)
  | modifyBearerRequest old => old.deserialize >>= fun m => pure (.modifyBearerRequest m)
  | modifyBearerResponse old => old.deserialize >>= fun m => pure (.modifyBearerResponse m)
  | deleteBearerCommand old => old.deserialize >>= fun m => pure (.deleteBearerCommand m)
  | deleteBearerRequest old => old.deserialize >>= fun m => pure (.deleteBearerRequest m)
  | deleteBearerResponse old => old.deserialize >>= fun m => pure (.deleteBearerResponse m)

/-- `Deserialize`, which returns `GetSerializedSize`. -/
def deserialize (old : GtpcMessage) : Reader GtpcError (GtpcMessage × Nat) := do
  let m ← old.read
  return (m, m.getSerializedSize)

/-- Two objects of one class. -/
inductive Same : GtpcMessage → GtpcMessage → Prop
  | createSessionRequest (m n) : Same (.createSessionRequest m) (.createSessionRequest n)
  | createSessionResponse (m n) : Same (.createSessionResponse m) (.createSessionResponse n)
  | modifyBearerRequest (m n) : Same (.modifyBearerRequest m) (.modifyBearerRequest n)
  | modifyBearerResponse (m n) : Same (.modifyBearerResponse m) (.modifyBearerResponse n)
  | deleteBearerCommand (m n) : Same (.deleteBearerCommand m) (.deleteBearerCommand n)
  | deleteBearerRequest (m n) : Same (.deleteBearerRequest m) (.deleteBearerRequest n)
  | deleteBearerResponse (m n) : Same (.deleteBearerResponse m) (.deleteBearerResponse n)

end GtpcMessage

end OranNs3.Epc
