import TcgLog.EventData

/-! The two readers behind log.go's `stream` interface. `stream_1_2` reads one
`TCG_PCClientPCREventStruct` (PCR index, event type, a SHA-1 digest, the event size and data);
`stream_2` hands its first call to a `stream_1_2`, so that the Spec ID event is read in the legacy
layout, and then reads `TCG_PCR_EVENT2` records, whose digests are checked against the algorithms
the Spec ID event advertised. Each returns the event, the trailing-byte count of its data, an
error, or panics. -/

namespace TcgLog

variable (ext : Externals)

/-- `isPCRIndexInRange`: `maxPCRIndex` is 31. -/
def isPCRIndexInRange (index : PCRIndex) : Bool := index ≤ 31

/-- `separatorEventErrorValue` (declared in the older copy of the log reader). -/
def separatorEventErrorValue : UInt32 := 1

/-- `isDigestOfSeparatorErrorValue`: whether `digest` is the digest under `alg` of the separator
error value in four little-endian bytes. `hashSum` panics off the registry. -/
def isDigestOfSeparatorErrorValue (digest : Digest) (alg : AlgorithmId) : Except String Bool := do
  let errorValue := le32 separatorEventErrorValue
  let h ← hash ext errorValue alg
  pure (digest == h)

/-- `wrapLogReadError`: end of stream is `io.EOF` only where no part of a record was read. -/
def wrapLogReadError (origErr : GoError) (isPartial : Bool) : GoError :=
  if origErr = .eof then
    if !isPartial then origErr else .logStream .unexpectedEOF
  else .logStream origErr

/-- A read of a record field whose error goes through `wrapLogReadError(err, partial)`. -/
def logRead {α : Type} (isPartial : Bool) (x : IoM α) : ReadM α :=
  EStateM.adaptExcept (fun e => .error (wrapLogReadError e isPartial)) x

/-- A call that may panic, made inside a stream method. -/
def mayPanic {α : Type} : Except String α → ReadM α
  | .ok a => pure a
  | .error msg => throw (.panic msg)

@[simp] theorem mayPanic_ok {α : Type} (a : α) (s : Source) : mayPanic (.ok a) s = .ok a s := rfl

theorem isDigestOfSeparatorErrorValue_sha1 (digest : Digest) :
    isDigestOfSeparatorErrorValue ext digest algorithmSha1 =
      .ok (digest == ext.sha1Sum (le32 separatorEventErrorValue)) := rfl

/-- `stream_1_2`. -/
structure Stream_1_2 where
  r : Source
  options : LogOptions

/-- `stream_1_2.readNextEvent`: one `TCG_PCClientPCREventStruct`. The digest is read with a single
`Read` into a 20-byte buffer. -/
def Stream_1_2.readNextEvent (options : LogOptions) : ReadM (Event × Nat) := do
  let pcrIndex ← logRead false readUint32
  if !isPCRIndexInRange pcrIndex then throw (.error (.pcrIndexOutOfRange pcrIndex))
  let eventType ← logRead true readUint32
  let digest ← logRead true (readInto ((knownAlgorithms algorithmSha1).getD 0).toNat)
  let digests := DigestMap.empty.insert algorithmSha1 digest
  let eventSize ← logRead true readUint32
  let event ← logRead true (readFull eventSize.toNat)
  let isError ← mayPanic (isDigestOfSeparatorErrorValue ext digest algorithmSha1)
  let decoded := decodeEventData ext pcrIndex eventType event options isError
  pure ({ index := 0, pcrIndex, eventType, digests, data := decoded.1 }, decoded.2)

/-- `s.algSizes[0]`: Go's index expression, which panics on an empty slice. -/
def firstAlgSize : List EFISpecIdEventAlgorithmSize → ReadM EFISpecIdEventAlgorithmSize
  | [] => throw (.panic "runtime error: index out of range [0] with length 0")
  | a :: _ => pure a

/-- `stream_2`. -/
structure Stream_2 where
  r : Source
  options : LogOptions
  algSizes : List EFISpecIdEventAlgorithmSize
  readFirstEvent : Bool

/-- The digest loop of `stream_2.readNextEvent`, `count` entries to go: each algorithm must be
advertised, its digest has the advertised size, and no algorithm comes twice. -/
def readDigests (algSizes : List EFISpecIdEventAlgorithmSize) :
    Nat → DigestMap → ReadM DigestMap
  | 0, digests => pure digests
  | count + 1, digests => do
    let algorithmId ← logRead true readUint16
    let some algSize := algSizes.find? (·.algorithmId == algorithmId)
      | throw (.error (.unrecognizedAlgorithm algorithmId))
    let digest ← logRead true (readFull algSize.digestSize.toNat)
    if (digests algorithmId).isSome then throw (.error (.duplicateDigestValue algorithmId))
    readDigests algSizes count (digests.insert algorithmId digest)

/-- `stream_2.readNextEvent`, with `readFirstEvent` as it was before the call. After the digest
loop every advertised algorithm must have a digest, and the algorithms off the registry are
dropped. The separator classification looks at `algSizes[0]` only: an empty list panics on the
index, and an algorithm off the registry panics in `hashSum`. -/
def Stream_2.readNextEvent (options : LogOptions) (algSizes : List EFISpecIdEventAlgorithmSize)
    (readFirstEvent : Bool) : ReadM (Event × Nat) :=
  if !readFirstEvent then Stream_1_2.readNextEvent ext {}
  else do
    let pcrIndex ← logRead false readUint32
    if !isPCRIndexInRange pcrIndex then throw (.error (.pcrIndexOutOfRange pcrIndex))
    let eventType ← logRead true readUint32
    let count ← logRead true readUint32
    let digests ← readDigests algSizes count.toNat DigestMap.empty
    if let some algSize := algSizes.find? (fun a => (digests a.algorithmId).isNone) then
      throw (.error (.missingDigestValue algSize.algorithmId))
    let digests : DigestMap := fun alg => if isKnownAlgorithm alg then digests alg else none
    let eventSize ← logRead true readUint32
    let event ← logRead true (readFull eventSize.toNat)
    let first ← firstAlgSize algSizes
    let isError ← mayPanic
      (isDigestOfSeparatorErrorValue ext ((digests first.algorithmId).getD []) first.algorithmId)
    let decoded := decodeEventData ext pcrIndex eventType event options isError
    pure ({ index := 0, pcrIndex, eventType, digests, data := decoded.1 }, decoded.2)

/-- The `stream` interface. -/
inductive Stream where
  | stream_1_2 (s : Stream_1_2)
  | stream_2 (s : Stream_2)

/-- `stream.readNextEvent()` with its effect on the stream: the source is left where reading
stopped, and a `stream_2` has its first event read after any call. -/
def Stream.readNextEvent : Stream → Except Fault (Event × Nat) × Stream
  | .stream_1_2 s =>
    let (res, r) := toPair (Stream_1_2.readNextEvent ext s.options s.r)
    (res, .stream_1_2 { s with r })
  | .stream_2 s =>
    let (res, r) := toPair (Stream_2.readNextEvent ext s.options s.algSizes s.readFirstEvent s.r)
    (res, .stream_2 { s with r, readFirstEvent := true })

end TcgLog
