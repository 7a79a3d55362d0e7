import TcgLog.Types

/-! The event-data decoders of tcgeventdata.go: the NO_ACTION dispatch on the 16-byte signature,
the three Spec ID event layouts over their common header, and the TCG dispatch on the event type.
A payload is read through a `bytes.Reader` over it, so a short payload is `io.EOF` or
`io.ErrUnexpectedEOF`, which the Spec ID readers turn into `invalidSpecIdEventError`.
`decodeEventData`, which log.go calls, is not in src/ and is modelled from the spec. -/

namespace TcgLog

/-- The bytes of an ASCII string. -/
def ascii (s : String) : Bytes := s.toList.map fun c => UInt8.ofNat c.toNat

/-- `"Spec ID Event00\x00"` -/
def specIdEvent00Signature : Bytes := ascii "Spec ID Event00" ++ [0]
/-- `"Spec ID Event02\x00"` -/
def specIdEvent02Signature : Bytes := ascii "Spec ID Event02" ++ [0]
/-- `"Spec ID Event03\x00"` -/
def specIdEvent03Signature : Bytes := ascii "Spec ID Event03" ++ [0]
/-- `"SP800-155 Event\x00"` -/
def sp800155EventSignature : Bytes := ascii "SP800-155 Event" ++ [0]
/-- `"StartupLocality\x00"` -/
def startupLocalitySignature : Bytes := ascii "StartupLocality" ++ [0]

@[simp] theorem length_specIdEvent00Signature : specIdEvent00Signature.length = 16 := rfl

variable (ext : Externals)

/-- `wrapSpecIdEventReadError`. -/
def wrapSpecIdEventReadError (origErr : GoError) : GoError :=
  if origErr = .eof then .invalidSpecIdEvent "not enough data"
  else .invalidSpecIdEvent (origErr.Error ext.algorithmIdString)

/-- A read of a Spec ID event field, its error passed through `wrapSpecIdEventReadError`. -/
def specIdRead {α : Type} (x : IoM α) : IoM α :=
  EStateM.adaptExcept (wrapSpecIdEventReadError ext) x

/-- `parsePCClientSpecIdEvent`: the trailer `vendorInfoSize`, `vendorInfo`. -/
def parsePCClientSpecIdEvent (eventData : SpecIdEventData) : IoM SpecIdEventData := do
  let eventData := { eventData with spec := .specPCClient }
  let vendorInfoSize ← specIdRead ext readUint8
  let vendorInfo ← specIdRead ext (readFull vendorInfoSize.toNat)
  pure { eventData with vendorInfo }

/-- Modelled from the spec: `parseEFI_1_2_SpecIdEvent` is not in src/. The spec names only "the
trailer handled by the EFI 1.2 variant"; it is read as the `vendorInfoSize`, `vendorInfo` that
ends `TCG_EfiSpecIdEventStruct`, as the PC Client trailer is read. -/
def parseEFI_1_2_SpecIdEvent (eventData : SpecIdEventData) : IoM SpecIdEventData := do
  let eventData := { eventData with spec := .specEFI_1_2 }
  let vendorInfoSize ← specIdRead ext readUint8
  let vendorInfo ← specIdRead ext (readFull vendorInfoSize.toNat)
  pure { eventData with vendorInfo }

/-- `n` advertised `(u16 AlgorithmId, u16 DigestSize)` pairs. -/
def readAlgorithmSizes : Nat → IoM (List EFISpecIdEventAlgorithmSize)
  | 0 => pure []
  | n + 1 => do
    let algorithmId ← specIdRead ext readUint16
    let digestSize ← specIdRead ext readUint16
    let rest ← readAlgorithmSizes n
    pure (⟨algorithmId, digestSize⟩ :: rest)

/-- Modelled from the spec: `parseEFI_2_SpecIdEvent` is not in src/. Its trailer is "uint32
numberOfAlgorithms + that many (u16 AlgorithmId, u16 DigestSize) + u8 vendorInfoSize +
vendorInfo"; the spec names no check on the count or on the advertised sizes, and none is made. -/
def parseEFI_2_SpecIdEvent (eventData : SpecIdEventData) : IoM SpecIdEventData := do
  let eventData := { eventData with spec := .specEFI_2 }
  let numberOfAlgorithms ← specIdRead ext readUint32
  let digestSizes ← readAlgorithmSizes ext numberOfAlgorithms.toNat
  let vendorInfoSize ← specIdRead ext readUint8
  let vendorInfo ← specIdRead ext (readFull vendorInfoSize.toNat)
  pure { eventData with digestSizes, vendorInfo }

/-- `specIdEventCommon`: the header every Spec ID event has after its signature. -/
structure SpecIdEventCommon where
  platformClass : UInt32
  specVersionMinor : UInt8
  specVersionMajor : UInt8
  specErrata : UInt8
  uintnSize : UInt8
  deriving DecidableEq, Repr

/-- `binary.Read(stream, binary.LittleEndian, &common)`: one `io.ReadFull` of the struct's 8 bytes,
then the fields in order. -/
def readSpecIdEventCommon : IoM SpecIdEventCommon := do
  let b ← readFull 8
  pure ⟨decodeUint32 (b.take 4), b.getD 4 0, b.getD 5 0, b.getD 6 0, b.getD 7 0⟩

/-- `decodeSpecIdEvent`: the common header, then the trailer of the variant, read by `helper`. -/
def decodeSpecIdEvent (data : Bytes) (helper : SpecIdEventData → IoM SpecIdEventData) :
    IoM SpecIdEventData := do
  let common ← specIdRead ext readSpecIdEventCommon
  helper
    { data := data
      spec := .specUnknown
      platformClass := common.platformClass
      specVersionMinor := common.specVersionMinor
      specVersionMajor := common.specVersionMajor
      specErrata := common.specErrata
      uintnSize := common.uintnSize
      digestSizes := []
      vendorInfo := [] }

/-- The `(out, trailingBytes, err)` of a Spec ID branch of `decodeEventDataNoAction`. -/
def specIdBranch : EStateM.Result GoError Source SpecIdEventData →
    Option EventData × Nat × Option GoError
  | .ok d _ => (some (.specIdEventData d), 0, none)
  | .error e _ => (none, 0, some e)

/-- The `(out, trailingBytes, err)` of a branch whose subdecoder is not in src/. -/
def externalBranch (data : Bytes) (mk : Bytes → EventData) :
    Bool × Option GoError → Option EventData × Nat × Option GoError
  | (nonNil, err) => (if nonNil then some (mk data) else none, 0, err)

/-- `decodeEventDataNoAction`: dispatch on the 16-byte signature. The named result `trailingBytes`
is never assigned, so every branch reports zero trailing bytes. -/
def decodeEventDataNoAction (data : Bytes) : Option EventData × Nat × Option GoError :=
  match readFull 16 (bytesReader data) with
  | .error err _ => (none, 0, some err)
  | .ok signature stream =>
    if signature = specIdEvent00Signature then
      specIdBranch (decodeSpecIdEvent ext data (parsePCClientSpecIdEvent ext) stream)
    else if signature = specIdEvent02Signature then
      specIdBranch (decodeSpecIdEvent ext data (parseEFI_1_2_SpecIdEvent ext) stream)
    else if signature = specIdEvent03Signature then
      specIdBranch (decodeSpecIdEvent ext data (parseEFI_2_SpecIdEvent ext) stream)
    else if signature = sp800155EventSignature then
      externalBranch data .bimReferenceManifestEventData (ext.decodeBIMReferenceManifestEvent data)
    else if signature = startupLocalitySignature then
      externalBranch data .startupLocalityEventData (ext.decodeStartupLocalityEvent data)
    else (some (.unknownNoActionEventData data), 0, none)

/-- `decodeEventDataAction`. -/
def decodeEventDataAction (data : Bytes) : Option EventData × Nat × Option GoError :=
  (some (.asciiStringEventData data), 0, none)

/-- `decodeEventDataSeparator`. -/
def decodeEventDataSeparator (data : Bytes) (isError : Bool) :
    Option EventData × Nat × Option GoError :=
  (some (.separatorEventData data isError), 0, none)

/-- A result of a TCG subdecoder whose code is not in src/. -/
def externalResult (data : Bytes) (mk : Bytes → EventData) :
    Bool × Nat × Option GoError → Option EventData × Nat × Option GoError
  | (nonNil, trailing, err) => (if nonNil then some (mk data) else none, trailing, err)

/-- `decodeEventDataTCG`: dispatch on the event type; an unhandled type has no data. -/
def decodeEventDataTCG (eventType : EventType) (data : Bytes) (hasDigestOfSeparatorError : Bool) :
    Option EventData × Nat × Option GoError :=
  if eventType = eventTypeNoAction then decodeEventDataNoAction ext data
  else if eventType = eventTypeSeparator then decodeEventDataSeparator data hasDigestOfSeparatorError
  else if eventType = eventTypeAction ∨ eventType = eventTypeEFIAction then
    decodeEventDataAction data
  else if eventType = eventTypeEFIVariableDriverConfig ∨ eventType = eventTypeEFIVariableBoot ∨
      eventType = eventTypeEFIVariableAuthority then
    externalResult data .efiVariableEventData (ext.decodeEventDataEFIVariable data eventType)
  else if eventType = eventTypeEFIBootServicesApplication ∨
      eventType = eventTypeEFIBootServicesDriver ∨ eventType = eventTypeEFIRuntimeServicesDriver then
    externalResult data .efiImageLoadEventData (ext.decodeEventDataEFIImageLoad data)
  else if eventType = eventTypeEFIGPTEvent then
    externalResult data .efiGPTEventData (ext.decodeEventDataEFIGPT data)
  else (none, 0, none)

/-- Whether a payload is a GRUB string: it starts `grub_cmd: ` or `kernel_cmdline: `. -/
def isGrubString (data : Bytes) : Bool :=
  (ascii "grub_cmd: ").isPrefixOf data || (ascii "kernel_cmdline: ").isPrefixOf data

/-- Modelled from the spec: `decodeEventData` is not in src/. With `EnableGrub` set, a payload on
PCR 8 or 9 that is a GRUB string is a GRUB event; otherwise the TCG decoder runs, and "any parse
error is returned inside an Opaque/Broken variant carrying the original bytes and the error", a
payload with no decoded data being opaque. -/
def decodeEventData (pcrIndex : PCRIndex) (eventType : EventType) (data : Bytes)
    (options : LogOptions) (hasDigestOfSeparatorError : Bool) : EventData × Nat :=
  if options.enableGrub ∧ (pcrIndex = 8 ∨ pcrIndex = 9) ∧ isGrubString data then
    (.grubStringEventData data, 0)
  else
    match decodeEventDataTCG ext eventType data hasDigestOfSeparatorError with
    | (_, _, some err) => (.brokenEventData data err, 0)
    | (some d, trailing, none) => (d, trailing)
    | (none, _, none) => (.opaqueEventData data, 0)

end TcgLog
