import TcgLog.Stream

/-! The log driver of log.go. `newLogFromReader` reads the first record with a `stream_1_2`,
chooses the reader from its Spec ID event and returns to where it started; `nextEventInternal`
refuses to read once a read has failed with anything but `io.EOF`, numbers the events of each PCR
from zero, and fills the digests a crypto-agile Spec ID event lacks with zero digests. -/

namespace TcgLog

variable (ext : Externals)

/-- `Log`. -/
structure Log where
  spec : Spec
  algorithms : List AlgorithmId
  stream : Stream
  failed : Bool
  indexTracker : PCRIndex → Option Nat

/-- `isSpecIdEvent`. -/
def isSpecIdEvent (event : Event) : Bool :=
  match event.data with
  | .specIdEventData _ => true
  | _ => false

/-- `fixupSpecIdEvent`: for an EFI 2 Spec ID event, a zero digest for each algorithm of the log
that the event has no digest for, SHA-1 apart. Only called on a Spec ID event, where Go's type
assertion holds. -/
def fixupSpecIdEvent (event : Event) (algorithms : List AlgorithmId) : Event :=
  match event.data with
  | .specIdEventData d =>
    if d.spec ≠ .specEFI_2 then event
    else
      { event with
        digests := algorithms.foldl (fun digests alg =>
          if alg = algorithmSha1 then digests
          else if (digests alg).isSome then digests
          else digests.insert alg (zeroDigests alg)) event.digests }
  | _ => event

/-- The spec, advertised digest sizes and Spec ID error the first event's data gives `newLogFromReader`. -/
def firstEventSpec : EventData → Spec × List EFISpecIdEventAlgorithmSize × Option GoError
  | .specIdEventData d => (d.spec, d.digestSizes, none)
  | .brokenEventData _ (.invalidSpecIdEvent s) => (.specUnknown, [], some (.invalidSpecIdEvent s))
  | _ => (.specUnknown, [], none)

/-- `newLogFromReader`. The offset is taken and restored with `Seek`, which does not fail on the
sources modelled. -/
def newLogFromReader (r : Source) (options : LogOptions) : Except Fault Log :=
  let start := r.off
  match Stream_1_2.readNextEvent ext options r with
  | .error (.error err) _ => .error (.error (wrapLogReadError err true))
  | .error (.panic msg) _ => .error (.panic msg)
  | .ok (event, _) r =>
    match firstEventSpec event.data with
    | (_, _, some err) => .error (.error err)
    | (spec, digestSizes, none) =>
      let r := { r with off := start }
      if spec = .specEFI_2 then
        .ok { spec
              algorithms := (digestSizes.filter (isKnownAlgorithm ·.algorithmId)).map (·.algorithmId)
              stream := .stream_2 { r, options, algSizes := digestSizes, readFirstEvent := false }
              failed := false
              indexTracker := fun _ => none }
      else
        .ok { spec
              algorithms := [algorithmSha1]
              stream := .stream_1_2 { r, options }
              failed := false
              indexTracker := fun _ => none }

/-- `indexTracker[pcrIndex]` after an event of `pcrIndex`, and the index that event gets. -/
def trackIndex (indexTracker : PCRIndex → Option Nat) (pcrIndex : PCRIndex) :
    Nat × (PCRIndex → Option Nat) :=
  let index := (indexTracker pcrIndex).getD 0
  (index, fun p => if p = pcrIndex then some (index + 1) else indexTracker p)

/-- `Log.nextEventInternal`. -/
def Log.nextEventInternal (l : Log) : Except Fault (Event × Nat) × Log :=
  if l.failed then (.error (.error .logInconsistent), l)
  else
    match l.stream.readNextEvent ext with
    | (.error (.error err), stream) =>
      (.error (.error err), if err ≠ .eof then { l with stream, failed := true } else { l with stream })
    | (.error (.panic msg), stream) => (.error (.panic msg), { l with stream })
    | (.ok (event, trailing), stream) =>
      let (index, indexTracker) := trackIndex l.indexTracker event.pcrIndex
      let event := { event with index }
      let event := if isSpecIdEvent event then fixupSpecIdEvent event l.algorithms else event
      (.ok (event, trailing), { l with stream, indexTracker })

/-- `Log.NextEvent`. -/
def Log.nextEvent (l : Log) : Except Fault Event × Log :=
  let (res, l) := l.nextEventInternal ext
  (res.map Prod.fst, l)

/-- `k` successive `NextEvent` calls: what each returns, and the log after them. -/
def Log.nextEvents : Nat → Log → List (Except Fault Event) × Log
  | 0, l => ([], l)
  | k + 1, l =>
    let (res, l) := l.nextEvent ext
    let (rest, l) := Log.nextEvents k l
    (res :: rest, l)

end TcgLog
