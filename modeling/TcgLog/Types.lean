import TcgLog.Io

/-! The log's data model: the digest-algorithm registry and its zero digests, the registry hash
(which panics on any other algorithm), the TCG event types, the decoded event-data variants and
the `Event` record. The registry is the one the older copy of the log reader declares
(src/unnamed/part_000); the algorithm identifiers, the digest functions and five subdecoders are
not in src/, and what of them the modelled code calls is taken as a parameter, `Externals`. -/

namespace TcgLog

/-- A digest value. -/
abbrev Digest := Bytes

def algorithmSha1 : AlgorithmId := 0x0004
def algorithmSha256 : AlgorithmId := 0x000b
def algorithmSha384 : AlgorithmId := 0x000c
def algorithmSha512 : AlgorithmId := 0x000d

/-- `knownAlgorithms` (declared in the older copy of the log reader): the registry of supported
algorithms and their digest sizes. -/
def knownAlgorithms (alg : AlgorithmId) : Option UInt16 :=
  if alg = algorithmSha1 then some 20
  else if alg = algorithmSha256 then some 32
  else if alg = algorithmSha384 then some 48
  else if alg = algorithmSha512 then some 64
  else none

def isKnownAlgorithm (alg : AlgorithmId) : Bool := (knownAlgorithms alg).isSome

/-- `zeroDigests[alg]`: a zero digest of the registry's size (`nil` off the registry). -/
def zeroDigests (alg : AlgorithmId) : Digest := List.replicate ((knownAlgorithms alg).getD 0).toNat 0

/-- `Spec`: the specification a log conforms to, as its Spec ID event names it. -/
inductive Spec where
  | specUnknown
  | specPCClient
  | specEFI_1_2
  | specEFI_2
  deriving DecidableEq, Repr

/-- `LogOptions`. -/
structure LogOptions where
  enableGrub : Bool := false
  deriving DecidableEq, Repr

/-- `EFISpecIdEventAlgorithmSize`: an advertised algorithm and its digest length. -/
structure EFISpecIdEventAlgorithmSize where
  algorithmId : AlgorithmId
  digestSize : UInt16
  deriving DecidableEq, Repr

/-- `SpecIdEventData`; `data` is the whole payload, what `Bytes()` returns. -/
structure SpecIdEventData where
  data : Bytes
  spec : Spec
  platformClass : UInt32
  specVersionMinor : UInt8
  specVersionMajor : UInt8
  specErrata : UInt8
  uintnSize : UInt8
  digestSizes : List EFISpecIdEventAlgorithmSize
  vendorInfo : Bytes
  deriving DecidableEq, Repr

/-- The `EventData` values: the variant of each subdecoder, each with the payload it was decoded
from. The fields the missing subdecoders parse out of it are not modelled. -/
inductive EventData where
  | specIdEventData (d : SpecIdEventData)
  | startupLocalityEventData (data : Bytes)
  | bimReferenceManifestEventData (data : Bytes)
  | unknownNoActionEventData (data : Bytes)
  | asciiStringEventData (data : Bytes)
  | separatorEventData (data : Bytes) (isError : Bool)
  | efiVariableEventData (data : Bytes)
  | efiImageLoadEventData (data : Bytes)
  | efiGPTEventData (data : Bytes)
  | grubStringEventData (data : Bytes)
  | opaqueEventData (data : Bytes)
  | brokenEventData (data : Bytes) (error : GoError)
  deriving DecidableEq, Repr

/-- `DigestMap` (`map[AlgorithmId]Digest`), by lookup. -/
abbrev DigestMap := AlgorithmId → Option Digest

namespace DigestMap

/-- `make(DigestMap)`. -/
def empty : DigestMap := fun _ => none

/-- `digests[alg] = d`. -/
def insert (m : DigestMap) (alg : AlgorithmId) (d : Digest) : DigestMap :=
  fun a => if a = alg then some d else m a

@[simp] theorem empty_apply (a : AlgorithmId) : empty a = none := rfl

@[simp] theorem insert_apply (m : DigestMap) (alg a : AlgorithmId) (d : Digest) :
    m.insert alg d a = if a = alg then some d else m a := rfl

end DigestMap

/-- `Event`. The stream readers leave `index` at zero; the log driver assigns it. -/
structure Event where
  index : Nat
  pcrIndex : PCRIndex
  eventType : EventType
  digests : DigestMap
  data : EventData

/-- What the modelled code calls and src/ does not hold: the `crypto` digest functions, the
`String` method of `AlgorithmId`, and the subdecoders of the missing files. A subdecoder returns
whether its data is non-nil, its trailing-byte count where it has one, and its error. -/
structure Externals where
  sha1Sum : Bytes → Digest
  sha256Sum : Bytes → Digest
  sha384Sum : Bytes → Digest
  sha512Sum : Bytes → Digest
  algorithmIdString : AlgorithmId → String
  decodeBIMReferenceManifestEvent : Bytes → Bool × Option GoError
  decodeStartupLocalityEvent : Bytes → Bool × Option GoError
  decodeEventDataEFIVariable : Bytes → EventType → Bool × Nat × Option GoError
  decodeEventDataEFIImageLoad : Bytes → Bool × Nat × Option GoError
  decodeEventDataEFIGPT : Bytes → Bool × Nat × Option GoError

/-- `hash(data, alg)` of utils.go, which log.go calls `hashSum`: the registry's digest function for
`alg`; any other algorithm panics. -/
def hash (ext : Externals) (data : Bytes) (alg : AlgorithmId) : Except String Digest :=
  if alg = algorithmSha1 then .ok (ext.sha1Sum data)
  else if alg = algorithmSha256 then .ok (ext.sha256Sum data)
  else if alg = algorithmSha384 then .ok (ext.sha384Sum data)
  else if alg = algorithmSha512 then .ok (ext.sha512Sum data)
  else .error "Unhandled algorithm"

/-- Digest functions that give zero digests of the registry sizes, and subdecoders that decode
nothing: a concrete `Externals` to run the model on. -/
def zeroExternals : Externals where
  sha1Sum _ := List.replicate 20 0
  sha256Sum _ := List.replicate 32 0
  sha384Sum _ := List.replicate 48 0
  sha512Sum _ := List.replicate 64 0
  algorithmIdString a := toString a.toNat
  decodeBIMReferenceManifestEvent _ := (false, none)
  decodeStartupLocalityEvent _ := (false, none)
  decodeEventDataEFIVariable _ _ := (false, 0, none)
  decodeEventDataEFIImageLoad _ := (false, 0, none)
  decodeEventDataEFIGPT _ := (false, 0, none)

theorem hash_panics_iff (ext : Externals) (data : Bytes) (alg : AlgorithmId) :
    (∃ msg, hash ext data alg = .error msg) ↔ isKnownAlgorithm alg = false := by
  unfold hash isKnownAlgorithm knownAlgorithms
  split_ifs <;> simp

theorem hash_sha1 (ext : Externals) (data : Bytes) :
    hash ext data algorithmSha1 = .ok (ext.sha1Sum data) := rfl

def eventTypeNoAction : EventType := 0x00000003
def eventTypeSeparator : EventType := 0x00000004
def eventTypeAction : EventType := 0x00000005
def eventTypeEFIVariableDriverConfig : EventType := 0x80000001
def eventTypeEFIVariableBoot : EventType := 0x80000002
def eventTypeEFIBootServicesApplication : EventType := 0x80000003
def eventTypeEFIBootServicesDriver : EventType := 0x80000004
def eventTypeEFIRuntimeServicesDriver : EventType := 0x80000005
def eventTypeEFIGPTEvent : EventType := 0x80000006
def eventTypeEFIAction : EventType := 0x80000007
def eventTypeEFIVariableAuthority : EventType := 0x800000e0

end TcgLog
