import TcgLog.Log

/-! Runs of `NextEvent` calls. One call is fully described by what the stream returns: a failed
log refuses without reading, an error other than `io.EOF` marks the log failed, and an event is
numbered from `indexTracker` and counted there. From these step lemmas, by induction on the number
of calls: the log is failed exactly when some call returned an error other than `io.EOF`, and the
events of each PCR are numbered 0, 1, 2, … in the order they are returned. -/

namespace TcgLog

variable (ext : Externals)

/-- Whether a `NextEvent` call returned an error other than `io.EOF`. -/
def returnedFailure : Except Fault Event → Bool
  | .error (.error e) => e != .eof
  | _ => false

/-- The events among what `NextEvent` calls returned, in order. -/
def returnedEvents (outs : List (Except Fault Event)) : List Event :=
  outs.filterMap fun o => match o with
    | .ok ev => some ev
    | .error _ => none

@[simp] theorem index_fixupSpecIdEvent (event : Event) (algorithms : List AlgorithmId) :
    (fixupSpecIdEvent event algorithms).index = event.index := by
  unfold fixupSpecIdEvent; split <;> (try split) <;> rfl

@[simp] theorem pcrIndex_fixupSpecIdEvent (event : Event) (algorithms : List AlgorithmId) :
    (fixupSpecIdEvent event algorithms).pcrIndex = event.pcrIndex := by
  unfold fixupSpecIdEvent; split <;> (try split) <;> rfl

section Step

variable {ext}

theorem nextEvent_of_failed {l : Log} (h : l.failed = true) :
    l.nextEvent ext = (.error (.error .logInconsistent), l) := by
  simp [Log.nextEvent, Log.nextEventInternal, h, Except.map]

/-- One call on a log that has not failed, by what the stream returns. -/
theorem nextEvent_of_not_failed {l : Log} (h : l.failed = false) :
    l.nextEvent ext = match l.stream.readNextEvent ext with
      | (.error (.error err), stream) => (.error (.error err), { l with stream, failed := err != .eof })
      | (.error (.panic msg), stream) => (.error (.panic msg), { l with stream })
      | (.ok (event, _), stream) =>
        (.ok (if isSpecIdEvent event then
            fixupSpecIdEvent { event with index := (l.indexTracker event.pcrIndex).getD 0 } l.algorithms
          else { event with index := (l.indexTracker event.pcrIndex).getD 0 }),
         { l with stream, indexTracker := (trackIndex l.indexTracker event.pcrIndex).2 }) := by
  simp only [Log.nextEvent, Log.nextEventInternal, h]
  rcases l.stream.readNextEvent ext with ⟨(⟨err⟩ | ⟨msg⟩) | ⟨event, trailing⟩, stream⟩
  · by_cases he : err = .eof <;> simp [he, h, Except.map]
  · rfl
  · rfl

/-- After a call the log is failed exactly when that call returned an error other than `io.EOF`. -/
theorem failed_nextEvent (l : Log) :
    (l.nextEvent ext).2.failed = returnedFailure (l.nextEvent ext).1 := by
  cases h : l.failed
  · rw [nextEvent_of_not_failed h]
    rcases l.stream.readNextEvent ext with ⟨(⟨err⟩ | ⟨msg⟩) | ⟨event, trailing⟩, stream⟩ <;>
      simp [returnedFailure, h]
  · simp [nextEvent_of_failed h, returnedFailure, h]

/-- A call that does not return an event leaves `indexTracker` as it was. -/
theorem indexTracker_nextEvent_of_error {l l' : Log} {f : Fault}
    (h : l.nextEvent ext = (.error f, l')) : l'.indexTracker = l.indexTracker := by
  cases hf : l.failed
  · rw [nextEvent_of_not_failed hf] at h
    generalize l.stream.readNextEvent ext = r at h
    rcases r with ⟨(⟨err⟩ | ⟨msg⟩) | ⟨event, trailing⟩, stream⟩ <;> simp at h
    all_goals rw [← h.2]
  · rw [nextEvent_of_failed hf] at h
    rw [← (Prod.mk.inj h).2]

/-- A returned event is numbered from `indexTracker`, which then counts it. -/
theorem nextEvent_of_ok {l l' : Log} {ev : Event} (h : l.nextEvent ext = (.ok ev, l')) :
    ev.index = (l.indexTracker ev.pcrIndex).getD 0 ∧
      l'.indexTracker = (trackIndex l.indexTracker ev.pcrIndex).2 := by
  cases hf : l.failed
  · rw [nextEvent_of_not_failed hf] at h
    generalize l.stream.readNextEvent ext = r at h
    rcases r with ⟨(⟨err⟩ | ⟨msg⟩) | ⟨event, trailing⟩, stream⟩ <;> simp at h
    obtain ⟨rfl, rfl⟩ := h
    split <;> simp
  · simp [nextEvent_of_failed hf] at h

theorem returnedFailure_of_failed {l : Log} (h : l.failed = true) :
    returnedFailure (l.nextEvent ext).1 = true := by
  simp [nextEvent_of_failed h, returnedFailure]

end Step

@[simp] theorem nextEvents_zero (l : Log) : l.nextEvents ext 0 = ([], l) := rfl

theorem nextEvents_succ (k : Nat) (l : Log) :
    l.nextEvents ext (k + 1) =
      ((l.nextEvent ext).1 :: ((l.nextEvent ext).2.nextEvents ext k).1,
        ((l.nextEvent ext).2.nextEvents ext k).2) := rfl

theorem newLogFromReader_fresh {r : Source} {options : LogOptions} {l : Log}
    (h : newLogFromReader ext r options = .ok l) :
    l.failed = false ∧ l.indexTracker = fun _ => none := by
  unfold newLogFromReader at h
  split at h <;> try simp at h
  split at h <;> try simp at h
  split at h <;> simp at h <;> exact ⟨by rw [← h], by rw [← h]⟩

/-! ## Sticky failure -/

/-- After `k` calls the log is failed exactly when it was before or one of the calls returned an
error other than `io.EOF`. -/
theorem failed_nextEvents (k : Nat) (l : Log) :
    (l.nextEvents ext k).2.failed = (l.failed || (l.nextEvents ext k).1.any returnedFailure) := by
  induction k generalizing l with
  | zero => simp
  | succ k ih =>
      rw [nextEvents_succ, ih, failed_nextEvent, List.any_cons]
      cases h : l.failed
      · simp
      · simp [returnedFailure_of_failed h]

/-- Sticky failure: on a log as `newLogFromReader` opens it, after any number of `NextEvent`
calls the log is failed exactly when one of them returned an error other than `io.EOF`; a failed
log answers every call with an error and is left exactly as it was, so no reader runs and the
source, the stream and `indexTracker` keep their state; and a call returning `io.EOF` leaves
`failed` as it was. -/
theorem nextEvents_failed_iff_failure (r : Source) (options : LogOptions) (l : Log)
    (hl : newLogFromReader ext r options = .ok l) (k : Nat) :
    ((l.nextEvents ext k).2.failed = true ↔
      ∃ o ∈ (l.nextEvents ext k).1, returnedFailure o = true) ∧
    (∀ l' : Log, l'.failed = true → l'.nextEvent ext = (.error (.error .logInconsistent), l')) ∧
    (∀ l' l'' : Log, l'.nextEvent ext = (.error (.error .eof), l'') → l''.failed = l'.failed) := by
  refine ⟨?_, fun _ h => nextEvent_of_failed h, fun l' l'' h => ?_⟩
  · rw [failed_nextEvents, (newLogFromReader_fresh ext hl).1]
    simp
  · have hfailed := @failed_nextEvent ext l'
    rw [h] at hfailed
    cases h' : l'.failed
    · simpa [returnedFailure] using hfailed
    · have := @returnedFailure_of_failed ext _ h'
      simp [h, returnedFailure] at this

/-- One legacy record: PCR 0, `EV_ACTION`, a zero SHA-1 digest and no data. -/
def actionRecord : Bytes := le32 0 ++ le32 eventTypeAction ++ List.replicate 20 0 ++ le32 0

theorem nextEvents_failed_iff_failure_actionRecord :
    ∃ l, newLogFromReader zeroExternals (bytesReader actionRecord) {} = .ok l ∧
      (((l.nextEvents zeroExternals 2).2.failed = true ↔
        ∃ o ∈ (l.nextEvents zeroExternals 2).1, returnedFailure o = true) ∧
      (∀ l' : Log, l'.failed = true →
        l'.nextEvent zeroExternals = (.error (.error .logInconsistent), l')) ∧
      (∀ l' l'' : Log, l'.nextEvent zeroExternals = (.error (.error .eof), l'') →
        l''.failed = l'.failed)) :=
  ⟨_, rfl, nextEvents_failed_iff_failure zeroExternals (bytesReader actionRecord) {} _ rfl 2⟩

/-! ## Per-PCR indices -/

@[simp] theorem returnedEvents_nil : returnedEvents [] = [] := rfl

@[simp] theorem returnedEvents_cons_ok (ev : Event) (outs : List (Except Fault Event)) :
    returnedEvents (.ok ev :: outs) = ev :: returnedEvents outs := rfl

@[simp] theorem returnedEvents_cons_error (f : Fault) (outs : List (Except Fault Event)) :
    returnedEvents (.error f :: outs) = returnedEvents outs := rfl

/-- Each event's index is the number of events of its PCR before it, those of `prior` included. -/
def IndexedFrom : List Event → List Event → Prop
  | _, [] => True
  | prior, ev :: evs =>
    ev.index = prior.countP (·.pcrIndex = ev.pcrIndex) ∧ IndexedFrom (prior ++ [ev]) evs

/-- `indexTracker` holds, for each PCR, the number of its events in `prior`. -/
def TracksIndices (l : Log) (prior : List Event) : Prop :=
  ∀ p, (l.indexTracker p).getD 0 = prior.countP (·.pcrIndex = p)

theorem IndexedFrom.index_eq {prior evs : List Event} (h : IndexedFrom prior evs) (i : Nat)
    (hi : i < evs.length) :
    (evs.get ⟨i, hi⟩).index = (prior ++ evs.take i).countP (·.pcrIndex = (evs.get ⟨i, hi⟩).pcrIndex) := by
  induction evs generalizing prior i with
  | nil => simp at hi
  | cons ev evs ih =>
      cases i with
      | zero => simpa using h.1
      | succ i => simpa using ih h.2 i (by simpa using hi)

/-- One call keeps `indexTracker` counting the returned events, and numbers the event it returns
by the events of its PCR before it. -/
theorem tracksIndices_nextEvent {l : Log} {prior : List Event} (h : TracksIndices l prior) :
    TracksIndices (l.nextEvent ext).2 (prior ++ returnedEvents [(l.nextEvent ext).1]) ∧
      ∀ ev, (l.nextEvent ext).1 = .ok ev → ev.index = prior.countP (·.pcrIndex = ev.pcrIndex) := by
  rcases hn : l.nextEvent ext with ⟨f | ev, l'⟩
  · refine ⟨fun p => ?_, fun _ h' => by simp at h'⟩
    simpa [indexTracker_nextEvent_of_error hn] using h p
  · obtain ⟨hidx, htr⟩ := nextEvent_of_ok hn
    refine ⟨fun p => ?_, fun ev' h' => ?_⟩
    · rw [htr, trackIndex]
      by_cases hp : p = ev.pcrIndex
      · subst hp
        simp [List.countP_append, h ev.pcrIndex]
      · simp [List.countP_append, hp, h p, Ne.symm hp]
    · cases h'
      rw [hidx, h]

theorem indexedFrom_nextEvents (k : Nat) {l : Log} {prior : List Event} (h : TracksIndices l prior) :
    IndexedFrom prior (returnedEvents (l.nextEvents ext k).1) ∧
      TracksIndices (l.nextEvents ext k).2 (prior ++ returnedEvents (l.nextEvents ext k).1) := by
  induction k generalizing l prior with
  | zero => simpa [IndexedFrom] using h
  | succ k ih =>
      obtain ⟨hstep, hidx⟩ := tracksIndices_nextEvent ext h
      obtain ⟨hrun, htr⟩ := ih hstep
      rw [nextEvents_succ]
      rcases ho : (l.nextEvent ext).1 with f | ev
      · simp only [ho, returnedEvents_cons_error] at hrun htr ⊢
        simpa [returnedEvents] using And.intro hrun htr
      · simp only [ho, returnedEvents_cons_ok, IndexedFrom] at hrun htr ⊢
        simp only [ho, returnedEvents, List.filterMap_cons, List.filterMap_nil] at hrun htr
        exact ⟨⟨hidx ev ho, hrun⟩, by simpa using htr⟩

/-- Per-PCR indices: on a log as `newLogFromReader` opens it, after any number of `NextEvent`
calls, each returned event's index is the number of events of the same PCR returned before it;
a call that does not return an event leaves `indexTracker` as it was. -/
theorem nextEvents_index_eq_count (r : Source) (options : LogOptions) (l : Log)
    (hl : newLogFromReader ext r options = .ok l) (k : Nat) :
    (∀ i (hi : i < (returnedEvents (l.nextEvents ext k).1).length),
      ((returnedEvents (l.nextEvents ext k).1).get ⟨i, hi⟩).index =
        ((returnedEvents (l.nextEvents ext k).1).take i).countP
          (·.pcrIndex = ((returnedEvents (l.nextEvents ext k).1).get ⟨i, hi⟩).pcrIndex)) ∧
    (∀ (l' l'' : Log) (f : Fault), l'.nextEvent ext = (.error f, l'') →
      l''.indexTracker = l'.indexTracker) := by
  have hfresh : TracksIndices l [] := fun p => by simp [(newLogFromReader_fresh ext hl).2]
  refine ⟨fun i hi => ?_, fun _ _ _ h => indexTracker_nextEvent_of_error h⟩
  simpa using ((indexedFrom_nextEvents ext k hfresh).1.index_eq i hi)

theorem nextEvents_index_eq_count_actionRecord :
    ∃ l, newLogFromReader zeroExternals (bytesReader (actionRecord ++ actionRecord)) {} = .ok l ∧
      (∀ i (hi : i < (returnedEvents (l.nextEvents zeroExternals 3).1).length),
        ((returnedEvents (l.nextEvents zeroExternals 3).1).get ⟨i, hi⟩).index =
          ((returnedEvents (l.nextEvents zeroExternals 3).1).take i).countP
            (·.pcrIndex = ((returnedEvents (l.nextEvents zeroExternals 3).1).get ⟨i, hi⟩).pcrIndex)) ∧
      (∀ (l' l'' : Log) (f : Fault), l'.nextEvent zeroExternals = (.error f, l'') →
        l''.indexTracker = l'.indexTracker) :=
  ⟨_, rfl, nextEvents_index_eq_count zeroExternals (bytesReader (actionRecord ++ actionRecord)) {}
    _ rfl 3⟩

end TcgLog
