import TcgLog.Records
import TcgLog.LogRuns

/-! Whole logs over encoded records, from `newLogFromReader` on. A legacy log reads its records
back one per call and then returns `io.EOF`; so does a crypto-agile log whose Spec ID event
advertises first a registry algorithm, its first call returning the Spec ID event with zero
digests back-filled. A crypto-agile log that advertises no algorithm, or first one off the
registry, panics on the call after the Spec ID event. Any log returns `io.EOF` exactly at the end
of its data, and an error other than `io.EOF` on a record cut short. -/

namespace TcgLog

variable (ext : Externals)

/-- The source a stream reads. -/
def Stream.source : Stream → Source
  | .stream_1_2 s => s.r
  | .stream_2 s => s.r

/-- A zero digest for each algorithm of `algorithms` that `m` has none for, SHA-1 apart. -/
def backfillZeroDigests (algorithms : List AlgorithmId) (m : DigestMap) : DigestMap :=
  fun a => if a ≠ algorithmSha1 ∧ a ∈ algorithms ∧ m a = none then some (zeroDigests a) else m a

/-- The loop of `fixupSpecIdEvent` back-fills zero digests. -/
theorem foldl_backfill (algorithms : List AlgorithmId) (m : DigestMap) :
    algorithms.foldl (fun digests alg =>
        if alg = algorithmSha1 then digests
        else if (digests alg).isSome then digests
        else digests.insert alg (zeroDigests alg)) m = backfillZeroDigests algorithms m := by
  funext a
  induction algorithms generalizing m with
  | nil => simp [backfillZeroDigests]
  | cons b algorithms ih =>
    rw [List.foldl_cons, ih]
    unfold backfillZeroDigests
    by_cases hb : b = algorithmSha1
    · subst hb
      by_cases ha : a = algorithmSha1 <;> simp [ha]
    · by_cases hab : a = b
      · subst hab
        cases hm : m a <;> simp [hb, hm]
      · split_ifs <;> simp_all

theorem fixupSpecIdEvent_efi2 {ev : Event} {d : SpecIdEventData} (hd : ev.data = .specIdEventData d)
    (hspec : d.spec = .specEFI_2) (algorithms : List AlgorithmId) :
    fixupSpecIdEvent ev algorithms =
      { ev with digests := backfillZeroDigests algorithms ev.digests } := by
  unfold fixupSpecIdEvent
  rw [hd]
  simp only [hspec, ne_eq, not_true_eq_false, if_false, foldl_backfill]

theorem fixupSpecIdEvent_of_present {ev : Event} {algorithms : List AlgorithmId}
    (h : ∀ a ∈ algorithms, a ≠ algorithmSha1 → (ev.digests a).isSome) :
    fixupSpecIdEvent ev algorithms = ev := by
  by_cases hd : ∃ d, ev.data = .specIdEventData d ∧ d.spec = .specEFI_2
  · obtain ⟨d, hd, hspec⟩ := hd
    rw [fixupSpecIdEvent_efi2 hd hspec]
    congr 1
    funext a
    unfold backfillZeroDigests
    split_ifs with ha
    · simpa [ha.2.2] using h a ha.2.1 ha.1
    · rfl
  · unfold fixupSpecIdEvent
    split
    · next d hd' => simp_all
    · rfl

theorem nextEvents_add (m n : Nat) (l : Log) :
    l.nextEvents ext (m + n) =
      ((l.nextEvents ext m).1 ++ ((l.nextEvents ext m).2.nextEvents ext n).1,
        ((l.nextEvents ext m).2.nextEvents ext n).2) := by
  induction m generalizing l with
  | zero => simp
  | succ m ih => rw [Nat.add_right_comm, nextEvents_succ, ih, nextEvents_succ]; simp

section Open

variable {ext} {r r' : Source} {options : LogOptions} {ev : Event} {t : Nat}

/-- `newLogFromReader` when the first record is neither an EFI 2 Spec ID event nor a malformed
Spec ID event: a legacy log that reads from where the source was. -/
theorem newLogFromReader_legacy (hread : Stream_1_2.readNextEvent ext options r = .ok (ev, t) r')
    (hback : { r' with off := r.off } = r)
    (hefi2 : ∀ d, ev.data = .specIdEventData d → d.spec ≠ .specEFI_2)
    (hvalid : ∀ data s, ev.data ≠ .brokenEventData data (.invalidSpecIdEvent s)) :
    ∃ l, newLogFromReader ext r options = .ok l ∧ l.failed = false ∧
      l.algorithms = [algorithmSha1] ∧ l.stream = .stream_1_2 { r, options } := by
  have hfs : (firstEventSpec ev.data).2.2 = none ∧ (firstEventSpec ev.data).1 ≠ .specEFI_2 := by
    unfold firstEventSpec
    split
    · next d hd => exact ⟨rfl, hefi2 d hd⟩
    · next data s hd => exact absurd hd (hvalid data s)
    · exact ⟨rfl, by simp⟩
  rcases h : firstEventSpec ev.data with ⟨spec, ds, _ | e⟩
  · rw [h] at hfs
    simp [newLogFromReader, hread, h, hfs.2, hback]
  · simp [h] at hfs

/-- `newLogFromReader` when the first record is an EFI 2 Spec ID event: a crypto-agile log over
the registry algorithms it advertises, whose stream has still to read that first record. -/
theorem newLogFromReader_agile {d : SpecIdEventData}
    (hread : Stream_1_2.readNextEvent ext options r = .ok (ev, t) r')
    (hback : { r' with off := r.off } = r) (hd : ev.data = .specIdEventData d)
    (hspec : d.spec = .specEFI_2) :
    ∃ l, newLogFromReader ext r options = .ok l ∧ l.failed = false ∧ l.spec = .specEFI_2 ∧
      l.algorithms = (d.digestSizes.filter (isKnownAlgorithm ·.algorithmId)).map (·.algorithmId) ∧
      l.stream = .stream_2 { r, options, algSizes := d.digestSizes, readFirstEvent := false } := by
  simp [newLogFromReader, hread, hd, firstEventSpec, hspec, hback]

end Open

/-- A payload that decodes to a Spec ID event decodes the same way with the default options: the
options only switch on the GRUB decoder. -/
theorem decodeEventData_default_of_specId {pcrIndex : PCRIndex} {eventType : EventType}
    {data : Bytes} {options : LogOptions} {isError : Bool} {d : SpecIdEventData}
    (h : (decodeEventData ext pcrIndex eventType data options isError).1 = .specIdEventData d) :
    decodeEventData ext pcrIndex eventType data {} isError =
      decodeEventData ext pcrIndex eventType data options isError := by
  unfold decodeEventData at h ⊢
  by_cases hgrub : options.enableGrub = true ∧ (pcrIndex = 8 ∨ pcrIndex = 9) ∧ isGrubString data
  · rw [if_pos hgrub] at h
    cases h
  · rw [if_neg hgrub, if_neg (by simp)]

/-- The registry algorithms never make the separator check panic. -/
theorem isDigestOfSeparatorErrorValue_of_known (digest : Digest) {alg : AlgorithmId}
    (h : isKnownAlgorithm alg) : ∃ b, isDigestOfSeparatorErrorValue ext digest alg = .ok b := by
  cases hh : hash ext (le32 separatorEventErrorValue) alg with
  | error msg => simp [(hash_panics_iff ext _ alg).mp ⟨msg, hh⟩] at h
  | ok v => exact ⟨_, by simp [isDigestOfSeparatorErrorValue, hh]; rfl⟩

section Legacy

variable {ext}

/-- One call on a legacy log whose source holds an encoded record returns that record, numbered
from `indexTracker`. -/
theorem nextEvent_legacy {l : Log} {st : Stream_1_2} {r : PCClientPCREvent} {tail : Bytes}
    (hf : l.failed = false) (hst : l.stream = .stream_1_2 st)
    (halg : ∀ a ∈ l.algorithms, a = algorithmSha1) (hc : st.r.chunk = fullChunks)
    (hs : st.r.rest = r.encode ++ tail) (hpcr : r.pcrIndex ≤ 31) :
    l.nextEvent ext =
      (.ok { r.toEvent ext st.options with index := (l.indexTracker r.pcrIndex).getD 0 },
        { l with stream := .stream_1_2 { st with r := st.r.skip r.encode.length },
                 indexTracker := (trackIndex l.indexTracker r.pcrIndex).2 }) := by
  have hfix : ∀ ev : Event, fixupSpecIdEvent ev l.algorithms = ev := fun ev =>
    fixupSpecIdEvent_of_present fun a ha hne => absurd (halg a ha) hne
  rw [nextEvent_of_not_failed hf, hst]
  simp only [Stream.readNextEvent, readNextEvent_encode st.options hc hs hpcr, toPair, hfix, ite_self]
  rfl

/-- A legacy log whose source holds encoded records reads them back, one per call. -/
theorem nextEvents_legacy {l : Log} {st : Stream_1_2} {rs : List PCClientPCREvent} {tail : Bytes}
    (hf : l.failed = false) (hst : l.stream = .stream_1_2 st)
    (halg : ∀ a ∈ l.algorithms, a = algorithmSha1) (hc : st.r.chunk = fullChunks)
    (hs : st.r.rest = PCClientPCREvent.encodeList rs ++ tail) (hpcr : ∀ r ∈ rs, r.pcrIndex ≤ 31) :
    (∃ evs, (l.nextEvents ext rs.length).1 = evs.map .ok ∧
      List.Forall₂ (fun ev r => ∃ i, ev = { r.toEvent ext st.options with index := i }) evs rs) ∧
    (l.nextEvents ext rs.length).2.failed = false ∧
    (l.nextEvents ext rs.length).2.algorithms = l.algorithms ∧
    (l.nextEvents ext rs.length).2.stream =
      .stream_1_2 { st with r := st.r.skip (PCClientPCREvent.encodeList rs).length } := by
  induction rs generalizing l st with
  | nil => exact ⟨⟨[], rfl, .nil⟩, hf, rfl, hst⟩
  | cons r rs ih =>
    rw [PCClientPCREvent.encodeList_cons, List.append_assoc] at hs
    have hstep := @nextEvent_legacy ext l st r _ hf hst halg hc hs (hpcr r (List.mem_cons_self _ _))
    obtain ⟨⟨evs, hevs, hrel⟩, hf', halg', hst'⟩ :=
      @ih (l.nextEvent ext).2 { st with r := st.r.skip r.encode.length } (by rw [hstep]; exact hf)
        (by rw [hstep]) (by rw [hstep]; exact halg) hc (rest_skip_append hs rfl)
        fun r' hr' => hpcr r' (List.mem_cons_of_mem _ hr')
    rw [List.length_cons, nextEvents_succ]
    refine ⟨⟨_ :: evs, by rw [List.map_cons, ← hevs, hstep], .cons ⟨_, rfl⟩ hrel⟩, hf',
      by rw [halg', hstep], ?_⟩
    rw [hst']
    simp [Nat.add_comm]

end Legacy

section Agile

variable {ext} {l : Log} {st : Stream_2}

/-- The first call on a crypto-agile log reads its first record in the legacy layout, with the
default options; an EFI 2 Spec ID event gets zero digests back-filled for the log's algorithms. -/
theorem nextEvent_agile_first {r : PCClientPCREvent} {tail : Bytes} {d : SpecIdEventData}
    (hf : l.failed = false) (hst : l.stream = .stream_2 st) (hfirst : st.readFirstEvent = false)
    (hc : st.r.chunk = fullChunks) (hs : st.r.rest = r.encode ++ tail) (hpcr : r.pcrIndex ≤ 31)
    (hd : (r.decoded ext {}).1 = .specIdEventData d) (hspec : d.spec = .specEFI_2) :
    l.nextEvent ext =
      (.ok { r.toEvent ext {} with index := (l.indexTracker r.pcrIndex).getD 0,
                                   digests := backfillZeroDigests l.algorithms (r.toEvent ext {}).digests },
        { l with stream := .stream_2 { st with r := st.r.skip r.encode.length, readFirstEvent := true },
                 indexTracker := (trackIndex l.indexTracker r.pcrIndex).2 }) := by
  rw [nextEvent_of_not_failed hf, hst]
  simp only [Stream.readNextEvent, Stream_2.readNextEvent, hfirst, Bool.not_false, if_true,
    readNextEvent_encode {} hc hs hpcr, toPair]
  have hspecId : isSpecIdEvent (r.toEvent ext {}) := by
    simp [isSpecIdEvent, PCClientPCREvent.toEvent, hd]
  rw [if_pos hspecId, fixupSpecIdEvent_efi2 (d := d) ?_ hspec]
  · rfl
  · exact hd

/-- Every algorithm of a crypto-agile record that fits the advertised sizes is in its digest map
when it is on the registry. -/
theorem digestMap_isSome {r : PCREvent2} {L : List EFISpecIdEventAlgorithmSize} (hfits : Fits L r.digests)
    {x : AlgorithmId} (hknown : isKnownAlgorithm x) (hx : x ∈ L.map (·.algorithmId)) :
    (r.digestMap x).isSome := by
  obtain ⟨e, he, rfl⟩ := List.mem_map.mp hx
  simpa [PCREvent2.digestMap, hknown] using DigestMap.insertAll_isSome (m := DigestMap.empty)
    (hfits.complete e he)

/-- A later call on a crypto-agile log reads an encoded record whose digests fit the advertised
sizes, when the first advertised algorithm is on the registry. -/
theorem nextEvent_agile {r : PCREvent2} {tail : Bytes} {a : EFISpecIdEventAlgorithmSize}
    {L : List EFISpecIdEventAlgorithmSize} {isError : Bool}
    (hf : l.failed = false) (hst : l.stream = .stream_2 st) (hfirst : st.readFirstEvent = true)
    (hL : st.algSizes = a :: L) (hs : st.r.rest = r.encode ++ tail) (hpcr : r.pcrIndex ≤ 31)
    (hfits : Fits st.algSizes r.digests)
    (hsep : isDigestOfSeparatorErrorValue ext ((r.digestMap a.algorithmId).getD []) a.algorithmId =
      .ok isError)
    (halg : ∀ x ∈ l.algorithms, isKnownAlgorithm x ∧ x ∈ st.algSizes.map (·.algorithmId)) :
    l.nextEvent ext =
      (.ok { r.toEvent ext st.options isError with index := (l.indexTracker r.pcrIndex).getD 0 },
        { l with stream := .stream_2 { st with r := st.r.skip r.encode.length, readFirstEvent := true },
                 indexTracker := (trackIndex l.indexTracker r.pcrIndex).2 }) := by
  have hfix : ∀ ev : Event, ev.digests = r.digestMap → fixupSpecIdEvent ev l.algorithms = ev :=
    fun ev hev => fixupSpecIdEvent_of_present fun x hx _ => by
      rw [hev]; exact digestMap_isSome hfits (halg x hx).1 (halg x hx).2
  have hhead : firstAlgSize st.algSizes = pure a := by rw [hL]; rfl
  rw [nextEvent_of_not_failed hf, hst]
  simp only [Stream.readNextEvent, hfirst, readNextEvent_2_encode st.options hs hpcr hfits, run_bind,
    hhead, run_pure, hsep, mayPanic_ok, toPair]
  rw [hfix _ rfl, ite_self]
  rfl

/-- A later call on a crypto-agile log panics on an encoded record that fits the advertised sizes
when the advertised list is empty or starts with an algorithm off the registry. -/
theorem nextEvent_agile_panics {r : PCREvent2} {tail : Bytes}
    (hf : l.failed = false) (hst : l.stream = .stream_2 st) (hfirst : st.readFirstEvent = true)
    (hhead : ∀ a ∈ st.algSizes.head?, isKnownAlgorithm a.algorithmId = false)
    (hs : st.r.rest = r.encode ++ tail) (hpcr : r.pcrIndex ≤ 31) (hfits : Fits st.algSizes r.digests) :
    ∃ msg, (l.nextEvent ext).1 = .error (.panic msg) := by
  rw [nextEvent_of_not_failed hf, hst]
  simp only [Stream.readNextEvent, hfirst, readNextEvent_2_encode st.options hs hpcr hfits, run_bind]
  cases hL : st.algSizes with
  | nil => exact ⟨_, rfl⟩
  | cons a L =>
    obtain ⟨msg, hmsg⟩ := (hash_panics_iff ext (le32 separatorEventErrorValue) a.algorithmId).mpr
      (hhead a (by simp [hL]))
    simp [firstAlgSize, isDigestOfSeparatorErrorValue, hmsg, mayPanic, toPair]

/-- A crypto-agile log past its first record reads encoded records back, one per call, when the
first advertised algorithm is on the registry. -/
theorem nextEvents_agile {rs : List PCREvent2} {tail : Bytes} {a : EFISpecIdEventAlgorithmSize}
    {L : List EFISpecIdEventAlgorithmSize}
    (hf : l.failed = false) (hst : l.stream = .stream_2 st) (hfirst : st.readFirstEvent = true)
    (hL : st.algSizes = a :: L) (ha : isKnownAlgorithm a.algorithmId)
    (hs : st.r.rest = PCREvent2.encodeList rs ++ tail) (hpcr : ∀ r ∈ rs, r.pcrIndex ≤ 31)
    (hfits : ∀ r ∈ rs, Fits st.algSizes r.digests)
    (halg : ∀ x ∈ l.algorithms, isKnownAlgorithm x ∧ x ∈ st.algSizes.map (·.algorithmId)) :
    (∃ evs, (l.nextEvents ext rs.length).1 = evs.map .ok ∧
      List.Forall₂ (fun ev r => ∃ i b, isDigestOfSeparatorErrorValue ext
          ((r.digestMap a.algorithmId).getD []) a.algorithmId = .ok b ∧
        ev = { r.toEvent ext st.options b with index := i }) evs rs) ∧
    (l.nextEvents ext rs.length).2.failed = false ∧
    (l.nextEvents ext rs.length).2.algorithms = l.algorithms ∧
    (l.nextEvents ext rs.length).2.stream =
      .stream_2 { st with r := st.r.skip (PCREvent2.encodeList rs).length } := by
  induction rs generalizing l st with
  | nil => exact ⟨⟨[], rfl, .nil⟩, hf, rfl, hst⟩
  | cons r rs ih =>
    rw [PCREvent2.encodeList_cons, List.append_assoc] at hs
    obtain ⟨b, hb⟩ := isDigestOfSeparatorErrorValue_of_known ext
      ((r.digestMap a.algorithmId).getD []) ha
    have hstep := @nextEvent_agile ext l st r _ a L b hf hst hfirst hL hs
      (hpcr r (List.mem_cons_self _ _)) (hfits r (List.mem_cons_self _ _)) hb halg
    obtain ⟨⟨evs, hevs, hrel⟩, hf', halg', hst'⟩ :=
      @ih (l.nextEvent ext).2 { st with r := st.r.skip r.encode.length, readFirstEvent := true }
        (by rw [hstep]; exact hf) (by rw [hstep]) rfl hL (rest_skip_append hs rfl)
        (fun r' hr' => hpcr r' (List.mem_cons_of_mem _ hr'))
        (fun r' hr' => hfits r' (List.mem_cons_of_mem _ hr')) (by rw [hstep]; exact halg)
    rw [List.length_cons, nextEvents_succ]
    refine ⟨⟨_ :: evs, by rw [List.map_cons, ← hevs, hstep], .cons ⟨_, b, hb, rfl⟩ hrel⟩, hf',
      by rw [halg', hstep], ?_⟩
    rw [hst']
    obtain ⟨_, _, _, f⟩ := st
    subst hfirst
    simp [Nat.add_comm]

end Agile

/-! ## Legacy logs -/

/-- An `EV_ACTION` record on PCR 0 with a zero digest and no data. -/
def actionEvent : PCClientPCREvent where
  pcrIndex := 0
  eventType := eventTypeAction
  digest := List.replicate 20 0
  event := []
  digest_length := rfl
  event_length := by decide

theorem decoded_actionEvent : (actionEvent.decoded zeroExternals {}).1 = .asciiStringEventData [] := by
  decide

/-- Whole legacy log round trip: over records whose first is neither an EFI 2 Spec ID event nor a
malformed Spec ID event, the log opens over SHA-1 alone, the calls return the records in order,
each with its PCR index, event type, SHA-1 digest alone and data decoded from its own event data,
and the call after the last returns `io.EOF`. -/
theorem legacyLog_round_trip (options : LogOptions) (r₀ : PCClientPCREvent)
    (rs : List PCClientPCREvent) (hpcr : ∀ r ∈ r₀ :: rs, r.pcrIndex ≤ 31)
    (hefi2 : ∀ d, (r₀.decoded ext options).1 = .specIdEventData d → d.spec ≠ .specEFI_2)
    (hvalid : ∀ data s, (r₀.decoded ext options).1 ≠ .brokenEventData data (.invalidSpecIdEvent s)) :
    ∃ l, newLogFromReader ext (bytesReader (PCClientPCREvent.encodeList (r₀ :: rs))) options = .ok l ∧
      l.algorithms = [algorithmSha1] ∧
      ∃ evs, (l.nextEvents ext (rs.length + 2)).1 = evs.map .ok ++ [.error (.error .eof)] ∧
        List.Forall₂ (fun ev r => ∃ i, ev = { r.toEvent ext options with index := i }) evs (r₀ :: rs) := by
  have hread := @readNextEvent_encode ext (bytesReader (PCClientPCREvent.encodeList (r₀ :: rs)))
    r₀ _ options rfl rfl (hpcr r₀ (List.mem_cons_self _ _))
  obtain ⟨l, hopen, hf, halg, hst⟩ := newLogFromReader_legacy hread rfl hefi2 hvalid
  obtain ⟨⟨evs, hevs, hrel⟩, hf', -, hst'⟩ :=
    @nextEvents_legacy ext l _ (r₀ :: rs) [] hf hst (by simp [halg]) rfl (by simp) hpcr
  refine ⟨l, hopen, halg, evs, ?_, hrel⟩
  rw [show rs.length + 2 = (r₀ :: rs).length + 1 from rfl, nextEvents_add, hevs, nextEvents_succ,
    nextEvent_of_not_failed hf', hst']
  simp [Stream.readNextEvent, readNextEvent_at_end, toPair]

theorem legacyLog_round_trip_actionEvents :
    ∃ l, newLogFromReader zeroExternals
        (bytesReader (PCClientPCREvent.encodeList [actionEvent, actionEvent])) {} = .ok l ∧
      l.algorithms = [algorithmSha1] ∧
      ∃ evs, (l.nextEvents zeroExternals (1 + 2)).1 = evs.map .ok ++ [.error (.error .eof)] ∧
        List.Forall₂ (fun ev r => ∃ i, ev = { r.toEvent zeroExternals {} with index := i }) evs
          [actionEvent, actionEvent] :=
  legacyLog_round_trip zeroExternals {} actionEvent [actionEvent] (by decide)
    (fun _ h => by simp [decoded_actionEvent] at h) (fun _ _ => by simp [decoded_actionEvent])

/-! ## Crypto-agile logs -/

theorem decoded_default_of_specId {options : LogOptions} {r : PCClientPCREvent}
    {d : SpecIdEventData} (hd : (r.decoded ext options).1 = .specIdEventData d) :
    r.decoded ext {} = r.decoded ext options :=
  decodeEventData_default_of_specId ext hd

/-- Opening a crypto-agile log and its first call: the log is over the registry algorithms the
Spec ID event advertises, and the first call returns that event, with zero digests back-filled,
and leaves the stream after it. -/
theorem agileLog_first_call (options : LogOptions) (r₀ : PCClientPCREvent) (d : SpecIdEventData)
    (rest : Bytes) (hpcr₀ : r₀.pcrIndex ≤ 31) (hd : (r₀.decoded ext options).1 = .specIdEventData d)
    (hspec : d.spec = .specEFI_2) :
    ∃ l, newLogFromReader ext (bytesReader (r₀.encode ++ rest)) options = .ok l ∧
      l.spec = .specEFI_2 ∧
      l.algorithms = (d.digestSizes.filter (isKnownAlgorithm ·.algorithmId)).map (·.algorithmId) ∧
      (l.nextEvent ext).1 = .ok { r₀.toEvent ext options with
        index := 0
        digests := backfillZeroDigests l.algorithms (DigestMap.empty.insert algorithmSha1 r₀.digest) } ∧
      (l.nextEvent ext).2.failed = false ∧ (l.nextEvent ext).2.algorithms = l.algorithms ∧
      (l.nextEvent ext).2.stream =
        .stream_2 { r := (bytesReader (r₀.encode ++ rest)).skip r₀.encode.length, options,
                    algSizes := d.digestSizes, readFirstEvent := true } := by
  have hread := @readNextEvent_encode ext (bytesReader (r₀.encode ++ rest)) r₀ _ options rfl rfl hpcr₀
  obtain ⟨l, hopen, hf, hspec', halg, hst⟩ := newLogFromReader_agile hread rfl hd hspec
  have hfresh := (newLogFromReader_fresh ext hopen).2
  have hdefault := decoded_default_of_specId ext hd
  have hstep := @nextEvent_agile_first ext l _ r₀ _ d hf hst rfl rfl rfl hpcr₀ (hdefault ▸ hd) hspec
  refine ⟨l, hopen, hspec', halg, ?_, by rw [hstep]; exact hf, by rw [hstep], by rw [hstep]⟩
  rw [hstep, hfresh]
  simp only [PCClientPCREvent.toEvent, hdefault]
  rfl

/-- The event data of an EFI 2 Spec ID event advertising `algs`, with no vendor data. -/
def specIdEvent03Data (algs : List EFISpecIdEventAlgorithmSize) : Bytes :=
  specIdEvent03Signature ++ le32 0 ++ [0, 2, 0, 2] ++ le32 (UInt32.ofNat algs.length) ++
    algs.flatMap (fun a => le16 a.algorithmId ++ le16 a.digestSize) ++ [0]

/-- The Spec ID event data `specIdEvent03Data algs` decodes to. -/
def specIdEvent03Decoded (algs : List EFISpecIdEventAlgorithmSize) : SpecIdEventData where
  data := specIdEvent03Data algs
  spec := .specEFI_2
  platformClass := 0
  specVersionMinor := 0
  specVersionMajor := 2
  specErrata := 0
  uintnSize := 2
  digestSizes := algs
  vendorInfo := []

/-- The legacy `EV_NO_ACTION` record on PCR 0 that carries `specIdEvent03Data algs`. -/
def specIdRecord (algs : List EFISpecIdEventAlgorithmSize)
    (h : (specIdEvent03Data algs).length < 2 ^ 32) : PCClientPCREvent where
  pcrIndex := 0
  eventType := eventTypeNoAction
  digest := List.replicate 20 0
  event := specIdEvent03Data algs
  digest_length := rfl
  event_length := h

/-- An `EV_ACTION` crypto-agile record on PCR 0 with digests `ds` and no data. -/
def actionEvent2 (ds : List (AlgorithmId × Digest)) (h : ds.length < 2 ^ 32) : PCREvent2 where
  pcrIndex := 0
  eventType := eventTypeAction
  digests := ds
  event := []
  digests_length := h
  event_length := by decide

/-- SHA-1 and SHA-256 banks, with their registry sizes. -/
def sha1Sha256Sizes : List EFISpecIdEventAlgorithmSize :=
  [⟨algorithmSha1, 20⟩, ⟨algorithmSha256, 32⟩]

/-- One SM3-256 bank (`TPM_ALG_SM3_256`, off the registry). -/
def sm3Sizes : List EFISpecIdEventAlgorithmSize := [⟨0x0012, 32⟩]

/-- Whole crypto-agile log round trip: over a legacy first record whose data is an EFI 2 Spec ID
event advertising a list whose first algorithm is on the registry, and records whose digests fit
that list, the log opens over the registry algorithms of the list, in its order; the first call
returns the Spec ID event with its SHA-1 digest and zero digests for the other algorithms of the
log; the next calls return the records in order, each with its digests on the registry
algorithms and its data decoded from its own event data; and the call after the last returns
`io.EOF`. -/
theorem agileLog_round_trip (options : LogOptions) (r₀ : PCClientPCREvent) (d : SpecIdEventData)
    (a : EFISpecIdEventAlgorithmSize) (L : List EFISpecIdEventAlgorithmSize) (rs : List PCREvent2)
    (hpcr₀ : r₀.pcrIndex ≤ 31) (hd : (r₀.decoded ext options).1 = .specIdEventData d)
    (hspec : d.spec = .specEFI_2) (hL : d.digestSizes = a :: L) (ha : isKnownAlgorithm a.algorithmId)
    (hpcr : ∀ r ∈ rs, r.pcrIndex ≤ 31) (hfits : ∀ r ∈ rs, Fits d.digestSizes r.digests) :
    ∃ l, newLogFromReader ext (bytesReader (r₀.encode ++ PCREvent2.encodeList rs)) options = .ok l ∧
      l.spec = .specEFI_2 ∧
      l.algorithms = (d.digestSizes.filter (isKnownAlgorithm ·.algorithmId)).map (·.algorithmId) ∧
      ∃ ev₀ evs, (l.nextEvents ext (rs.length + 2)).1 =
          .ok ev₀ :: evs.map .ok ++ [.error (.error .eof)] ∧
        ev₀.pcrIndex = r₀.pcrIndex ∧ ev₀.eventType = r₀.eventType ∧
        ev₀.data = (r₀.decoded ext options).1 ∧
        ev₀.digests = backfillZeroDigests l.algorithms (DigestMap.empty.insert algorithmSha1 r₀.digest) ∧
        List.Forall₂ (fun ev r => ∃ i b, isDigestOfSeparatorErrorValue ext
            ((r.digestMap a.algorithmId).getD []) a.algorithmId = .ok b ∧
          ev = { r.toEvent ext options b with index := i }) evs rs := by
  obtain ⟨l, hopen, hspec', halg, hev₀, hf, halg₁, hst⟩ :=
    agileLog_first_call ext options r₀ d (PCREvent2.encodeList rs) hpcr₀ hd hspec
  have halg' : ∀ x ∈ (l.nextEvent ext).2.algorithms,
      isKnownAlgorithm x ∧ x ∈ d.digestSizes.map (·.algorithmId) := by
    intro x hx
    rw [halg₁, halg] at hx
    obtain ⟨e, he, rfl⟩ := List.mem_map.mp hx
    exact ⟨(List.mem_filter.mp he).2, List.mem_map_of_mem _ (List.mem_filter.mp he).1⟩
  obtain ⟨⟨evs, hevs, hrel⟩, hf', -, hst'⟩ :=
    @nextEvents_agile ext (l.nextEvent ext).2 _ rs [] a L hf hst rfl hL ha (by simp) hpcr hfits halg'
  refine ⟨l, hopen, hspec', halg, { r₀.toEvent ext options with
    index := 0
    digests := backfillZeroDigests l.algorithms (DigestMap.empty.insert algorithmSha1 r₀.digest) },
    evs, ?_, rfl, rfl, rfl, rfl, hrel⟩
  rw [show rs.length + 2 = (rs.length + 1) + 1 from rfl, nextEvents_add, nextEvents_succ, hevs,
    nextEvents_succ, nextEvents_zero, nextEvent_of_not_failed hf', hst', hev₀]
  simp [Stream.readNextEvent, readNextEvent_2_at_end, toPair]

theorem agileLog_round_trip_sha1Sha256 :
    ∃ l, newLogFromReader zeroExternals (bytesReader ((specIdRecord sha1Sha256Sizes (by decide)).encode ++
        PCREvent2.encodeList [actionEvent2 [(algorithmSha256, List.replicate 32 0),
          (algorithmSha1, List.replicate 20 0)] (by decide)])) {} = .ok l ∧
      l.spec = .specEFI_2 ∧
      l.algorithms = (sha1Sha256Sizes.filter (isKnownAlgorithm ·.algorithmId)).map (·.algorithmId) ∧
      ∃ ev₀ evs, (l.nextEvents zeroExternals (1 + 2)).1 =
          .ok ev₀ :: evs.map .ok ++ [.error (.error .eof)] ∧
        ev₀.pcrIndex = 0 ∧ ev₀.eventType = eventTypeNoAction ∧
        ev₀.data = ((specIdRecord sha1Sha256Sizes (by decide)).decoded zeroExternals {}).1 ∧
        ev₀.digests = backfillZeroDigests l.algorithms
          (DigestMap.empty.insert algorithmSha1 (List.replicate 20 0)) ∧
        List.Forall₂ (fun ev r => ∃ i b, isDigestOfSeparatorErrorValue zeroExternals
            ((r.digestMap algorithmSha1).getD []) algorithmSha1 = .ok b ∧
          ev = { r.toEvent zeroExternals {} b with index := i }) evs
          [actionEvent2 [(algorithmSha256, List.replicate 32 0),
            (algorithmSha1, List.replicate 20 0)] (by decide)] :=
  agileLog_round_trip zeroExternals {} (specIdRecord sha1Sha256Sizes (by decide))
    (specIdEvent03Decoded sha1Sha256Sizes) ⟨algorithmSha1, 20⟩ [⟨algorithmSha256, 32⟩] _ (by decide)
    (by decide) rfl rfl (by decide) (by decide) (by decide)

/-- A crypto-agile log whose Spec ID event advertises no algorithm, or first an algorithm off the
registry, panics on its second call, whatever the record after the Spec ID event: the separator
check indexes `algSizes[0]` and hashes with that algorithm. -/
theorem agileLog_nextEvent_panics (options : LogOptions) (r₀ : PCClientPCREvent)
    (d : SpecIdEventData) (r₁ : PCREvent2) (tail : Bytes) (hpcr₀ : r₀.pcrIndex ≤ 31)
    (hd : (r₀.decoded ext options).1 = .specIdEventData d) (hspec : d.spec = .specEFI_2)
    (hhead : ∀ a ∈ d.digestSizes.head?, isKnownAlgorithm a.algorithmId = false)
    (hpcr₁ : r₁.pcrIndex ≤ 31) (hfits : Fits d.digestSizes r₁.digests) :
    ∃ l, newLogFromReader ext (bytesReader (r₀.encode ++ (r₁.encode ++ tail))) options = .ok l ∧
      ∃ ev msg, (l.nextEvents ext 2).1 = [.ok ev, .error (.panic msg)] := by
  obtain ⟨l, hopen, -, -, hev₀, hf, -, hst⟩ :=
    agileLog_first_call ext options r₀ d (r₁.encode ++ tail) hpcr₀ hd hspec
  obtain ⟨msg, hmsg⟩ := @nextEvent_agile_panics ext (l.nextEvent ext).2 _ r₁ tail hf hst rfl hhead
    (by simp) hpcr₁ hfits
  exact ⟨l, hopen, _, msg, by rw [nextEvents_succ, nextEvents_succ, hev₀, hmsg]; rfl⟩

theorem agileLog_nextEvent_panics_sm3 :
    ∃ l, newLogFromReader zeroExternals (bytesReader ((specIdRecord sm3Sizes (by decide)).encode ++
        ((actionEvent2 [(0x0012, List.replicate 32 0)] (by decide)).encode ++ []))) {} = .ok l ∧
      ∃ ev msg, (l.nextEvents zeroExternals 2).1 = [.ok ev, .error (.panic msg)] :=
  agileLog_nextEvent_panics zeroExternals {} (specIdRecord sm3Sizes (by decide))
    (specIdEvent03Decoded sm3Sizes) _ [] (by decide) (by decide) rfl (by decide) (by decide)
    (by decide)

/-- A crypto-agile log whose Spec ID event advertises no algorithm does not read back the record
after it, even one with no digests: the second call panics indexing `algSizes[0]`. -/
theorem agileLog_no_algorithms_panics (options : LogOptions) (r₀ : PCClientPCREvent)
    (d : SpecIdEventData) (r₁ : PCREvent2) (rs : List PCREvent2) (hpcr₀ : r₀.pcrIndex ≤ 31)
    (hd : (r₀.decoded ext options).1 = .specIdEventData d) (hspec : d.spec = .specEFI_2)
    (hnil : d.digestSizes = []) (hpcr₁ : r₁.pcrIndex ≤ 31) (hr₁ : r₁.digests = []) :
    ∃ l, newLogFromReader ext (bytesReader (r₀.encode ++ PCREvent2.encodeList (r₁ :: rs))) options =
        .ok l ∧
      ((l.nextEvent ext).2.nextEvent ext).1 =
        .error (.panic "runtime error: index out of range [0] with length 0") := by
  obtain ⟨l, hopen, -, -, -, hf, -, hst⟩ :=
    agileLog_first_call ext options r₀ d (PCREvent2.encodeList (r₁ :: rs)) hpcr₀ hd hspec
  have hfits : Fits d.digestSizes r₁.digests := ⟨by simp [hr₁], by simp [hr₁], by simp [hnil]⟩
  have hs : ((bytesReader (r₀.encode ++ PCREvent2.encodeList (r₁ :: rs))).skip r₀.encode.length).rest =
      r₁.encode ++ PCREvent2.encodeList rs := by
    simp
  refine ⟨l, hopen, ?_⟩
  rw [nextEvent_of_not_failed hf, hst]
  simp only [Stream.readNextEvent, readNextEvent_2_encode options hs hpcr₁ hfits]
  simp only [run_bind, hnil, firstAlgSize, run_throw, toPair]

theorem agileLog_no_algorithms_panics_empty :
    ∃ l, newLogFromReader zeroExternals (bytesReader ((specIdRecord [] (by decide)).encode ++
        PCREvent2.encodeList [actionEvent2 [] (by decide)])) {} = .ok l ∧
      ((l.nextEvent zeroExternals).2.nextEvent zeroExternals).1 =
        .error (.panic "runtime error: index out of range [0] with length 0") :=
  agileLog_no_algorithms_panics zeroExternals {} (specIdRecord [] (by decide))
    (specIdEvent03Decoded []) _ [] (by decide) (by decide) rfl rfl (by decide) rfl

/-! ## End of data and cut records -/

/-- The source holds the start of the record the stream reads next, cut after `k` of its bytes,
`0 < k` and short of its end: a legacy record for `stream_1_2` and for the first call of
`stream_2`, a crypto-agile record that fits the advertised sizes after that. -/
def Stream.AtCutRecord : Stream → Prop
  | .stream_1_2 s =>
    ∃ (r : PCClientPCREvent) (k : Nat), s.r.rest = r.encode.take k ∧ 0 < k ∧ k < r.encode.length
  | .stream_2 s =>
    if s.readFirstEvent then
      ∃ (r : PCREvent2) (k : Nat), Fits s.algSizes r.digests ∧ s.r.rest = r.encode.take k ∧ 0 < k ∧
        k < r.encode.length
    else
      ∃ (r : PCClientPCREvent) (k : Nat), s.r.rest = r.encode.take k ∧ 0 < k ∧ k < r.encode.length

theorem toPair_fst_eq_error {ε α : Type} {x : EStateM.Result ε Source α} {e : ε} :
    (toPair x).1 = .error e ↔ ∃ s', x = .error e s' := by
  cases x <;> simp [toPair]

/-- A stream returns `io.EOF` exactly when its source is at the end of the data. -/
theorem Stream.readNextEvent_eof_iff (st : Stream) :
    (st.readNextEvent ext).1 = .error (.error .eof) ↔ st.source.rest = [] := by
  cases st with
  | stream_1_2 s =>
    simp only [Stream.readNextEvent, Stream.source, toPair_fst_eq_error]
    exact ⟨fun ⟨_, h⟩ => (readNextEvent_eof h).1, fun h => ⟨_, readNextEvent_at_end h⟩⟩
  | stream_2 s =>
    simp only [Stream.readNextEvent, Stream.source, toPair_fst_eq_error]
    exact ⟨fun ⟨_, h⟩ => (readNextEvent_2_eof h).1, fun h => ⟨_, readNextEvent_2_at_end h⟩⟩

/-- A stream whose source holds a cut record returns an error other than `io.EOF`. -/
theorem Stream.readNextEvent_cut {st : Stream} (hc : st.source.chunk = fullChunks)
    (hcut : st.AtCutRecord) : ∃ e, (st.readNextEvent ext).1 = .error (.error e) ∧ e ≠ .eof := by
  cases st with
  | stream_1_2 s =>
    obtain ⟨r, k, hs, hk0, hk⟩ := hcut
    obtain ⟨e, s', he, hne⟩ := @readNextEvent_take ext s.r r k s.options hc hs hk0 hk
    exact ⟨e, by simp [Stream.readNextEvent, he, toPair], hne⟩
  | stream_2 s =>
    simp only [Stream.AtCutRecord] at hcut
    split at hcut
    · next hfirst =>
      obtain ⟨r, k, hfits, hs, hk0, hk⟩ := hcut
      obtain ⟨e, s', he, hne⟩ := @readNextEvent_2_take ext s.r s.algSizes r k s.options hs hk0 hk hfits
      exact ⟨e, by simp [Stream.readNextEvent, hfirst, he, toPair], hne⟩
    · next hfirst =>
      obtain ⟨r, k, hs, hk0, hk⟩ := hcut
      obtain ⟨e, s', he, hne⟩ := @readNextEvent_take ext s.r r k {} hc hs hk0 hk
      exact ⟨e, by simp [Stream.readNextEvent, Stream_2.readNextEvent, hfirst, he, toPair], hne⟩

theorem nextEvent_fst_eq_error {l : Log} (hf : l.failed = false) {f : Fault} :
    (l.nextEvent ext).1 = .error f ↔ (l.stream.readNextEvent ext).1 = .error f := by
  rw [nextEvent_of_not_failed hf]
  rcases l.stream.readNextEvent ext with ⟨(⟨err⟩ | ⟨msg⟩) | ⟨event, trailing⟩, stream⟩ <;> simp

/-- End of stream against a cut log: a call returns `io.EOF` exactly when the log has not failed
and its source is at the end of the data; and a call on a source that holds a record cut after
its first byte and short of its end, in whichever field, returns an error other than `io.EOF`
and marks the log failed. -/
theorem nextEvent_eof_only_at_end (l : Log) :
    ((l.nextEvent ext).1 = .error (.error .eof) ↔ l.failed = false ∧ l.stream.source.rest = []) ∧
    (l.failed = false → l.stream.source.chunk = fullChunks → l.stream.AtCutRecord →
      ∃ e, (l.nextEvent ext).1 = .error (.error e) ∧ e ≠ .eof ∧ (l.nextEvent ext).2.failed = true) := by
  constructor
  · cases hf : l.failed
    · rw [nextEvent_fst_eq_error ext hf, Stream.readNextEvent_eof_iff]
      simp
    · simp [nextEvent_of_failed hf]
  · intro hf hc hcut
    obtain ⟨e, he, hne⟩ := Stream.readNextEvent_cut ext hc hcut
    have hl := (nextEvent_fst_eq_error ext hf).mpr he
    refine ⟨e, hl, hne, ?_⟩
    rw [failed_nextEvent, hl]
    simpa [returnedFailure] using hne

/-- A legacy log whose source holds the first five bytes of `actionEvent`. -/
def cutActionLog : Log where
  spec := .specUnknown
  algorithms := [algorithmSha1]
  stream := .stream_1_2 { r := bytesReader (actionEvent.encode.take 5), options := {} }
  failed := false
  indexTracker := fun _ => none

theorem nextEvent_eof_only_at_end_cutActionLog :
    ((cutActionLog.nextEvent zeroExternals).1 = .error (.error .eof) ↔
      cutActionLog.failed = false ∧ cutActionLog.stream.source.rest = []) ∧
    ∃ e, (cutActionLog.nextEvent zeroExternals).1 = .error (.error e) ∧ e ≠ .eof ∧
      (cutActionLog.nextEvent zeroExternals).2.failed = true :=
  ⟨(nextEvent_eof_only_at_end zeroExternals cutActionLog).1,
    (nextEvent_eof_only_at_end zeroExternals cutActionLog).2 rfl rfl
      ⟨actionEvent, 5, rfl, by decide, by decide⟩⟩

end TcgLog
