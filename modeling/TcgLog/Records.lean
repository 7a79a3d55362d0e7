import TcgLog.Log

/-! The records a log is made of, as values that can only be built with fields that fit their
encoding, and what each reader does on one. On an encoded record followed by anything, a reader
returns that record and stops right after it; on a record cut short anywhere after its first byte,
it returns an error other than `io.EOF`. `io.EOF` itself comes only from a source already at its
end, since every read after a record's first field turns it into `io.ErrUnexpectedEOF`. The legacy
record is read by `stream_1_2`; the crypto-agile one by `stream_2` once it has read its first
event, against the advertised algorithm sizes. -/

namespace TcgLog

variable (ext : Externals)

/-- A `TCG_PCClientPCREventStruct`: PCR index, event type, SHA-1 digest, event data. -/
structure PCClientPCREvent where
  pcrIndex : PCRIndex
  eventType : EventType
  digest : Digest
  event : Bytes
  digest_length : digest.length = 20
  event_length : event.length < 2 ^ 32

namespace PCClientPCREvent

/-- The record's bytes. -/
def encode (r : PCClientPCREvent) : Bytes :=
  le32 r.pcrIndex ++ le32 r.eventType ++ r.digest ++ le32 (UInt32.ofNat r.event.length) ++ r.event

@[simp] theorem length_encode (r : PCClientPCREvent) : r.encode.length = 32 + r.event.length := by
  simp [encode, r.digest_length]
  omega

/-- Records one after the other. -/
def encodeList (rs : List PCClientPCREvent) : Bytes := rs.flatMap encode

@[simp] theorem encodeList_nil : encodeList [] = [] := rfl

@[simp] theorem encodeList_cons (r : PCClientPCREvent) (rs : List PCClientPCREvent) :
    encodeList (r :: rs) = r.encode ++ encodeList rs := rfl

/-- What `decodeEventData` makes of the record's event data. -/
def decoded (options : LogOptions) (r : PCClientPCREvent) : EventData × Nat :=
  decodeEventData ext r.pcrIndex r.eventType r.event options
    (r.digest == ext.sha1Sum (le32 separatorEventErrorValue))

/-- The event `stream_1_2` reads from the record. -/
def toEvent (options : LogOptions) (r : PCClientPCREvent) : Event :=
  { index := 0, pcrIndex := r.pcrIndex, eventType := r.eventType,
    digests := DigestMap.empty.insert algorithmSha1 r.digest, data := (r.decoded ext options).1 }

end PCClientPCREvent

/-- A stream method that returned an error other than `io.EOF`: what a record cut short gives. -/
def EndsInError {α : Type} (res : EStateM.Result Fault Source α) : Prop :=
  ∃ e s', res = .error (.error e) s' ∧ e ≠ .eof

theorem wrapLogReadError_partial_ne_eof (e : GoError) : wrapLogReadError e true ≠ .eof := by
  unfold wrapLogReadError; split <;> simp

theorem endsInError_partial {α : Type} {e : GoError} {s : Source} :
    EndsInError (.error (.error (wrapLogReadError e true)) s : EStateM.Result Fault Source α) :=
  ⟨_, _, rfl, wrapLogReadError_partial_ne_eof e⟩

section Legacy

variable {ext} {s : Source}

/-- On an encoded record followed by anything, `stream_1_2` returns the record and stops after
it. -/
theorem readNextEvent_encode {r : PCClientPCREvent} {tail : Bytes} (options : LogOptions)
    (hc : s.chunk = fullChunks) (hs : s.rest = r.encode ++ tail) (hpcr : r.pcrIndex ≤ 31) :
    Stream_1_2.readNextEvent ext options s =
      .ok (r.toEvent ext options, (r.decoded ext options).2) (s.skip r.encode.length) := by
  have h0 : s.rest = le32 r.pcrIndex ++ (le32 r.eventType ++ (r.digest ++
      (le32 (UInt32.ofNat r.event.length) ++ (r.event ++ tail)))) := by
    simp [hs, PCClientPCREvent.encode]
  have h1 := rest_skip_append h0 (length_le32 _)
  have h2 := rest_skip_append h1 (length_le32 _)
  have h3 := rest_skip_append h2 r.digest_length
  have h4 := rest_skip_append h3 (length_le32 _)
  have hpcr' : isPCRIndexInRange r.pcrIndex = true := by simpa [isPCRIndexInRange] using hpcr
  have h20 : ((knownAlgorithms algorithmSha1).getD 0).toNat = 20 := rfl
  simp only [Stream_1_2.readNextEvent, run_bind, logRead, run_adaptExcept, readUint32_append h0,
    readUint32_append h1, readUint32_append h3, hpcr', Bool.not_true, Bool.false_eq_true, if_false,
    run_pure, h20, readInto_of_fullChunks (by simpa using hc) h2 r.digest_length (by decide),
    readFull_append' h4 (UInt32.toNat_ofNat_of_lt r.event_length).symm,
    isDigestOfSeparatorErrorValue_sha1, mayPanic_ok]
  simp [PCClientPCREvent.toEvent, PCClientPCREvent.decoded, UInt32.toNat_ofNat_of_lt r.event_length]

/-- On a record cut after `k` of its bytes, `0 < k`, `stream_1_2` returns an error other than
`io.EOF`, whichever field the cut falls in. -/
theorem readNextEvent_take {r : PCClientPCREvent} {k : Nat} (options : LogOptions)
    (hc : s.chunk = fullChunks) (hs : s.rest = r.encode.take k) (hk0 : 0 < k)
    (hk : k < r.encode.length) :
    EndsInError (Stream_1_2.readNextEvent ext options s) := by
  have henc : r.encode = le32 r.pcrIndex ++ (le32 r.eventType ++ (r.digest ++
      (le32 (UInt32.ofNat r.event.length) ++ r.event))) := by
    simp [PCClientPCREvent.encode]
  have hlen : s.rest.length = k := by rw [hs, List.length_take]; omega
  obtain hk4 | hk4 := Nat.lt_or_ge k 4
  · -- cut in the PCR index
    have hne : s.rest ≠ [] := by simp [← List.length_pos, hlen, hk0]
    simp only [Stream_1_2.readNextEvent, run_bind, logRead, run_adaptExcept,
      readUint32_short hne (by omega)]
    exact ⟨_, _, rfl, by simp [wrapLogReadError]⟩
  rw [henc, List.take_append_eq_append_take, List.take_of_length_le (by simpa using hk4),
    length_le32] at hs
  have h1 := rest_skip_append hs (length_le32 _)
  simp only [Stream_1_2.readNextEvent, run_bind, logRead, run_adaptExcept, readUint32_append hs]
  cases hpcr : isPCRIndexInRange r.pcrIndex
  · -- PCR index out of range
    exact ⟨_, _, rfl, by simp⟩
  simp only [Bool.not_true, Bool.false_eq_true, if_false, run_bind, run_pure, run_adaptExcept]
  obtain hk8 | hk8 := Nat.lt_or_ge k 8
  · -- cut in the event type
    obtain ⟨e, s', he⟩ := readUint32_error_of_lt (s := s.skip 4) (by rw [h1, List.length_take]; omega)
    simp only [he]
    exact endsInError_partial
  rw [List.take_append_eq_append_take, List.take_of_length_le (by simp; omega), length_le32] at h1
  have h2 := rest_skip_append h1 (length_le32 _)
  have h20 : ((knownAlgorithms algorithmSha1).getD 0).toNat = 20 := rfl
  simp only [readUint32_append h1, h20]
  obtain hk28 | hk28 := Nat.lt_or_ge k 28
  · -- cut in the digest: nothing of it left, or a part that one `Read` hands back
    obtain hk8' | hk8' := Nat.eq_or_lt_of_le hk8
    · simp only [readInto_eof (by rw [h2, ← hk8']; rfl)]
      exact endsInError_partial
    have hne : ((s.skip 4).skip 4).rest ≠ [] := by
      rw [h2, ← List.length_pos, List.length_take]; simp [r.digest_length]; omega
    have hshort : ((s.skip 4).skip 4).rest.length < 20 := by
      rw [h2, List.length_take]; omega
    have hempty := rest_skip_append (List.append_nil _).symm rfl (s := (s.skip 4).skip 4)
    obtain ⟨e, s', he⟩ := readUint32_error_of_lt (by rw [hempty]; decide)
    simp only [readInto_of_fullChunks_short (by simpa using hc) hne hshort, he]
    exact endsInError_partial
  rw [List.take_append_eq_append_take, List.take_of_length_le (by simp [r.digest_length]; omega),
    r.digest_length] at h2
  have h3 := rest_skip_append h2 r.digest_length
  simp only [readInto_of_fullChunks (by simpa using hc) h2 r.digest_length (by decide)]
  obtain hk32 | hk32 := Nat.lt_or_ge k 32
  · -- cut in the event size
    obtain ⟨e, s', he⟩ := readUint32_error_of_lt (by rw [h3, List.length_take]; omega)
    simp only [he]
    exact endsInError_partial
  -- cut in the event data
  rw [List.take_append_eq_append_take, List.take_of_length_le (by simp; omega), length_le32] at h3
  have h4 := rest_skip_append h3 (length_le32 _)
  obtain ⟨e, s', he⟩ := readFull_error_of_lt (n := r.event.length) (by
    rw [h4, List.length_take]; simp at hk; omega)
  simp only [readUint32_append h3, UInt32.toNat_ofNat_of_lt r.event_length, he]
  exact endsInError_partial

end Legacy

/-- The `(algorithm, digest)` entries of a `TCG_PCR_EVENT2` as bytes: each a u16 algorithm id, then
the digest. -/
def encodeDigests : List (AlgorithmId × Digest) → Bytes
  | [] => []
  | (a, d) :: ds => le16 a ++ d ++ encodeDigests ds

/-- The map the digest loop builds from `ds` on top of `m`. -/
def DigestMap.insertAll (m : DigestMap) (ds : List (AlgorithmId × Digest)) : DigestMap :=
  ds.foldl (fun m p => m.insert p.1 p.2) m

theorem DigestMap.insertAll_cons (m : DigestMap) (p : AlgorithmId × Digest)
    (ds : List (AlgorithmId × Digest)) :
    m.insertAll (p :: ds) = (m.insert p.1 p.2).insertAll ds := rfl

theorem DigestMap.insertAll_of_not_mem {m : DigestMap} {ds : List (AlgorithmId × Digest)}
    {a : AlgorithmId} (h : a ∉ ds.map Prod.fst) : m.insertAll ds a = m a := by
  induction ds generalizing m with
  | nil => rfl
  | cons p ds ih =>
    simp only [List.map_cons, List.mem_cons, not_or] at h
    simp [DigestMap.insertAll_cons, ih h.2, h.1]

theorem DigestMap.insertAll_isSome {m : DigestMap} {ds : List (AlgorithmId × Digest)}
    {a : AlgorithmId} (h : a ∈ ds.map Prod.fst) : (m.insertAll ds a).isSome := by
  induction ds generalizing m with
  | nil => simp at h
  | cons p ds ih =>
    by_cases hp : a ∈ ds.map Prod.fst
    · exact ih hp
    · have ha : a = p.1 := by simp_all
      rw [DigestMap.insertAll_cons, DigestMap.insertAll_of_not_mem hp, ha]
      simp

/-- A `TCG_PCR_EVENT2`: PCR index, event type, the `(algorithm, digest)` list, event data. -/
structure PCREvent2 where
  pcrIndex : PCRIndex
  eventType : EventType
  digests : List (AlgorithmId × Digest)
  event : Bytes
  digests_length : digests.length < 2 ^ 32
  event_length : event.length < 2 ^ 32

/-- A digest list fits the advertised sizes `algSizes`: no algorithm comes twice, each digest has
the size first advertised for its algorithm, and every advertised algorithm has a digest. -/
structure Fits (algSizes : List EFISpecIdEventAlgorithmSize) (ds : List (AlgorithmId × Digest)) :
    Prop where
  nodup : (ds.map Prod.fst).Nodup
  sized : ∀ p ∈ ds,
    (algSizes.find? (·.algorithmId == p.1)).map (·.digestSize.toNat) = some p.2.length
  complete : ∀ e ∈ algSizes, e.algorithmId ∈ ds.map Prod.fst

instance (algSizes : List EFISpecIdEventAlgorithmSize) (ds : List (AlgorithmId × Digest)) :
    Decidable (Fits algSizes ds) :=
  decidable_of_iff ((ds.map Prod.fst).Nodup ∧
      (∀ p ∈ ds, (algSizes.find? (·.algorithmId == p.1)).map (·.digestSize.toNat) = some p.2.length) ∧
      ∀ e ∈ algSizes, e.algorithmId ∈ ds.map Prod.fst)
    ⟨fun ⟨a, b, c⟩ => ⟨a, b, c⟩, fun ⟨a, b, c⟩ => ⟨a, b, c⟩⟩

namespace PCREvent2

/-- The record's bytes. -/
def encode (r : PCREvent2) : Bytes :=
  le32 r.pcrIndex ++ le32 r.eventType ++ le32 (UInt32.ofNat r.digests.length) ++
    encodeDigests r.digests ++ le32 (UInt32.ofNat r.event.length) ++ r.event

@[simp] theorem length_encode (r : PCREvent2) :
    r.encode.length = 16 + (encodeDigests r.digests).length + r.event.length := by
  simp [encode]
  omega

/-- Records one after the other. -/
def encodeList (rs : List PCREvent2) : Bytes := rs.flatMap encode

@[simp] theorem encodeList_nil : encodeList [] = [] := rfl

@[simp] theorem encodeList_cons (r : PCREvent2) (rs : List PCREvent2) :
    encodeList (r :: rs) = r.encode ++ encodeList rs := rfl

/-- The digest map `stream_2` returns for the record: its digests on the registry algorithms. -/
def digestMap (r : PCREvent2) : DigestMap :=
  fun alg => if isKnownAlgorithm alg then DigestMap.empty.insertAll r.digests alg else none

/-- What `decodeEventData` makes of the record's event data, with separator flag `isError`. -/
def decoded (options : LogOptions) (isError : Bool) (r : PCREvent2) : EventData × Nat :=
  decodeEventData ext r.pcrIndex r.eventType r.event options isError

/-- The event `stream_2` reads from the record, with separator flag `isError`. -/
def toEvent (options : LogOptions) (isError : Bool) (r : PCREvent2) : Event :=
  { index := 0, pcrIndex := r.pcrIndex, eventType := r.eventType, digests := r.digestMap,
    data := (r.decoded ext options isError).1 }

end PCREvent2

section Agile

variable {ext} {s : Source} {L : List EFISpecIdEventAlgorithmSize}

/-- The digest loop reads the encoded entries back, when each has its advertised size and
none is in the map yet. -/
theorem readDigests_encode {ds : List (AlgorithmId × Digest)} {m : DigestMap} {tail : Bytes}
    (hs : s.rest = encodeDigests ds ++ tail) (hnodup : (ds.map Prod.fst).Nodup)
    (hsized : ∀ p ∈ ds, (L.find? (·.algorithmId == p.1)).map (·.digestSize.toNat) = some p.2.length)
    (hfresh : ∀ p ∈ ds, m p.1 = none) :
    readDigests L ds.length m s = .ok (m.insertAll ds) (s.skip (encodeDigests ds).length) := by
  induction ds generalizing m s with
  | nil => rfl
  | cons p ds ih =>
    obtain ⟨a, d⟩ := p
    obtain ⟨e, he, hsz⟩ := Option.map_eq_some'.mp (hsized (a, d) (List.mem_cons_self _ _))
    rw [encodeDigests, List.append_assoc, List.append_assoc] at hs
    have h1 := rest_skip_append hs (length_le16 _)
    have h2 := rest_skip_append h1 hsz.symm
    have hnodup' : a ∉ ds.map Prod.fst ∧ (ds.map Prod.fst).Nodup := by simpa using hnodup
    have hm : m a = none := hfresh (a, d) (List.mem_cons_self _ _)
    have hfresh' : ∀ p ∈ ds, (m.insert a d) p.1 = none := by
      intro p hp
      have hne : p.1 ≠ a := by
        rintro rfl
        exact hnodup'.1 (List.mem_map_of_mem Prod.fst hp)
      simp [hne, hfresh p (List.mem_cons_of_mem _ hp)]
    simp only [List.length_cons, readDigests, run_bind, logRead, run_adaptExcept,
      readUint16_append hs, he, readFull_append' h1 hsz.symm, hm, Option.isSome_none,
      Bool.false_eq_true, if_false, run_pure,
      ih h2 hnodup'.2 (fun p hp => hsized p (List.mem_cons_of_mem _ hp)) hfresh']
    simp [DigestMap.insertAll, encodeDigests, Nat.add_assoc, hsz]

theorem find?_missing_eq_none {ds : List (AlgorithmId × Digest)}
    (h : ∀ e ∈ L, e.algorithmId ∈ ds.map Prod.fst) :
    L.find? (fun a => (DigestMap.empty.insertAll ds a.algorithmId).isNone) = none :=
  List.find?_eq_none.mpr fun e he => by
    simpa [Option.isNone_iff_eq_none, ← Option.ne_none_iff_isSome] using
      DigestMap.insertAll_isSome (m := DigestMap.empty) (h e he)

/-- On an encoded record whose digests fit the advertised sizes, `stream_2`, once past its first
event, reads the whole record; what is left is the separator classification on `algSizes[0]`. -/
theorem readNextEvent_2_encode {r : PCREvent2} {tail : Bytes} (options : LogOptions)
    (hs : s.rest = r.encode ++ tail) (hpcr : r.pcrIndex ≤ 31) (hfits : Fits L r.digests) :
    Stream_2.readNextEvent ext options L true s =
      (do
        let first ← firstAlgSize L
        let isError ← mayPanic (isDigestOfSeparatorErrorValue ext
          ((r.digestMap first.algorithmId).getD []) first.algorithmId)
        pure (r.toEvent ext options isError, (r.decoded ext options isError).2))
        (s.skip r.encode.length) := by
  have h0 : s.rest = le32 r.pcrIndex ++ (le32 r.eventType ++ (le32 (UInt32.ofNat r.digests.length) ++
      (encodeDigests r.digests ++ (le32 (UInt32.ofNat r.event.length) ++ (r.event ++ tail))))) := by
    simp [hs, PCREvent2.encode]
  have h1 := rest_skip_append h0 (length_le32 _)
  have h2 := rest_skip_append h1 (length_le32 _)
  have h3 := rest_skip_append h2 (length_le32 _)
  have h4 := rest_skip_append h3 rfl
  have h5 := rest_skip_append h4 (length_le32 _)
  have hpcr' : isPCRIndexInRange r.pcrIndex = true := by simpa [isPCRIndexInRange] using hpcr
  have hlen : (((((s.skip 4).skip 4).skip 4).skip (encodeDigests r.digests).length).skip 4).skip
      r.event.length = s.skip r.encode.length := by
    simp only [Source.skip_skip, PCREvent2.length_encode]; congr 1; omega
  simp only [Stream_2.readNextEvent, Bool.not_true, Bool.false_eq_true, if_false, run_bind, logRead,
    run_adaptExcept, readUint32_append h0, readUint32_append h1, readUint32_append h2, hpcr',
    run_pure, UInt32.toNat_ofNat_of_lt r.digests_length,
    readDigests_encode h3 hfits.nodup hfits.sized (fun _ _ => DigestMap.empty_apply _),
    find?_missing_eq_none hfits.complete, readUint32_append h4,
    UInt32.toNat_ofNat_of_lt r.event_length, readFull_append' h5 rfl, hlen]
  rfl

/-- The digest loop on entries cut short returns an error other than `io.EOF`. -/
theorem readDigests_take {ds : List (AlgorithmId × Digest)} {m : DigestMap} {k : Nat}
    (hs : s.rest = (encodeDigests ds).take k) (hk : k < (encodeDigests ds).length)
    (hsized : ∀ p ∈ ds, (L.find? (·.algorithmId == p.1)).map (·.digestSize.toNat) = some p.2.length) :
    EndsInError (readDigests L ds.length m s) := by
  induction ds generalizing m s k with
  | nil => simp [encodeDigests] at hk
  | cons p ds ih =>
    obtain ⟨a, d⟩ := p
    obtain ⟨e, he, hsz⟩ := Option.map_eq_some'.mp (hsized (a, d) (List.mem_cons_self _ _))
    rw [encodeDigests, List.append_assoc] at hs hk
    obtain hk2 | hk2 := Nat.lt_or_ge k 2
    · -- cut in the algorithm id
      obtain ⟨e', s', he'⟩ := readUint16_error_of_lt (by rw [hs, List.length_take]; omega)
      simp only [List.length_cons, readDigests, run_bind, logRead, run_adaptExcept, he']
      exact endsInError_partial
    rw [List.take_append_eq_append_take, List.take_of_length_le (by simpa using hk2),
      length_le16] at hs
    have h1 := rest_skip_append hs (length_le16 _)
    simp only [List.length_cons, readDigests, run_bind, logRead, run_adaptExcept,
      readUint16_append hs, he]
    obtain hkd | hkd := Nat.lt_or_ge (k - 2) d.length
    · -- cut in the digest
      obtain ⟨e', s', he'⟩ := readFull_error_of_lt (n := e.digestSize.toNat) (by
        rw [h1, List.length_take]; simp only at hsz; omega)
      simp only [he']
      exact endsInError_partial
    rw [List.take_append_eq_append_take, List.take_of_length_le hkd] at h1
    have h2 := rest_skip_append h1 hsz.symm
    simp only [readFull_append' h1 hsz.symm]
    cases hm : (m a).isSome
    · simp only [Bool.false_eq_true, if_false, run_bind, run_pure]
      exact ih h2 (by simp at hk; omega) (fun p hp => hsized p (List.mem_cons_of_mem _ hp))
    · exact ⟨_, _, rfl, by simp⟩

/-- On a record cut after `k` of its bytes, `0 < k`, `stream_2` past its first event returns an
error other than `io.EOF`, whichever field the cut falls in. -/
theorem readNextEvent_2_take {r : PCREvent2} {k : Nat} (options : LogOptions)
    (hs : s.rest = r.encode.take k) (hk0 : 0 < k) (hk : k < r.encode.length)
    (hfits : Fits L r.digests) :
    EndsInError (Stream_2.readNextEvent ext options L true s) := by
  have henc : r.encode = le32 r.pcrIndex ++ (le32 r.eventType ++
      (le32 (UInt32.ofNat r.digests.length) ++ (encodeDigests r.digests ++
        (le32 (UInt32.ofNat r.event.length) ++ r.event)))) := by
    simp [PCREvent2.encode]
  have hlen : s.rest.length = k := by rw [hs, List.length_take]; omega
  obtain hk4 | hk4 := Nat.lt_or_ge k 4
  · -- cut in the PCR index
    have hne : s.rest ≠ [] := by simp [← List.length_pos, hlen, hk0]
    simp only [Stream_2.readNextEvent, Bool.not_true, Bool.false_eq_true, if_false, run_bind,
      logRead, run_adaptExcept, readUint32_short hne (by omega)]
    exact ⟨_, _, rfl, by simp [wrapLogReadError]⟩
  rw [henc, List.take_append_eq_append_take, List.take_of_length_le (by simpa using hk4),
    length_le32] at hs
  have h1 := rest_skip_append hs (length_le32 _)
  simp only [Stream_2.readNextEvent, Bool.not_true, Bool.false_eq_true, if_false, run_bind, logRead,
    run_adaptExcept, readUint32_append hs]
  cases hpcr : isPCRIndexInRange r.pcrIndex
  · -- PCR index out of range
    exact ⟨_, _, rfl, by simp⟩
  simp only [Bool.not_true, Bool.false_eq_true, if_false, run_bind, run_pure, run_adaptExcept]
  obtain hk8 | hk8 := Nat.lt_or_ge k 8
  · -- cut in the event type
    obtain ⟨e, s', he⟩ := readUint32_error_of_lt (by rw [h1, List.length_take]; omega)
    simp only [he]
    exact endsInError_partial
  rw [List.take_append_eq_append_take, List.take_of_length_le (by simp; omega), length_le32] at h1
  have h2 := rest_skip_append h1 (length_le32 _)
  simp only [readUint32_append h1]
  obtain hk12 | hk12 := Nat.lt_or_ge k 12
  · -- cut in the digest count
    obtain ⟨e, s', he⟩ := readUint32_error_of_lt (by rw [h2, List.length_take]; omega)
    simp only [he]
    exact endsInError_partial
  rw [List.take_append_eq_append_take, List.take_of_length_le (by simp; omega), length_le32] at h2
  have h3 := rest_skip_append h2 (length_le32 _)
  simp only [readUint32_append h2, UInt32.toNat_ofNat_of_lt r.digests_length]
  obtain hkd | hkd := Nat.lt_or_ge (k - 4 - 4 - 4) (encodeDigests r.digests).length
  · -- cut in the digests
    rw [List.take_append_of_le_length hkd.le] at h3
    obtain ⟨e, s', he, hne⟩ := readDigests_take (m := DigestMap.empty) h3 hkd hfits.sized
    simp only [he]
    exact ⟨e, s', rfl, hne⟩
  rw [List.take_append_eq_append_take, List.take_of_length_le hkd] at h3
  have h4 := rest_skip_append h3 rfl
  simp only [readDigests_encode h3 hfits.nodup hfits.sized (fun _ _ => DigestMap.empty_apply _),
    find?_missing_eq_none hfits.complete, run_bind, run_pure, run_adaptExcept]
  obtain hk16 | hk16 := Nat.lt_or_ge (k - 4 - 4 - 4 - (encodeDigests r.digests).length) 4
  · -- cut in the event size
    obtain ⟨e, s', he⟩ := readUint32_error_of_lt (by rw [h4, List.length_take]; omega)
    simp only [he]
    exact endsInError_partial
  -- cut in the event data
  rw [List.take_append_eq_append_take, List.take_of_length_le (by simp; omega), length_le32] at h4
  have h5 := rest_skip_append h4 (length_le32 _)
  obtain ⟨e, s', he⟩ := readFull_error_of_lt (n := r.event.length) (by
    rw [h5, List.length_take]; simp at hk; omega)
  simp only [readUint32_append h4, UInt32.toNat_ofNat_of_lt r.event_length, he]
  exact endsInError_partial

end Agile

/-- A stream step that never fails with `io.EOF`: every read of a record after its first field. -/
def NoEof {α : Type} (x : ReadM α) : Prop := ∀ s e s', x s = .error e s' → e ≠ .error .eof

section NoEof

variable {α β : Type}

theorem NoEof.bind {x : ReadM α} {f : α → ReadM β} (hx : NoEof x) (hf : ∀ a, NoEof (f a)) :
    NoEof (x >>= f) := by
  intro s e s' h
  rw [run_bind] at h
  cases hxs : x s with
  | ok a s1 => rw [hxs] at h; exact hf a _ _ _ h
  | error e1 s1 => rw [hxs] at h; cases h; exact hx _ _ _ hxs

/-- A call that ends in `io.EOF` got it from its first step, when nothing after that step can. -/
theorem eof_of_bind {x : ReadM α} {f : α → ReadM β} {s s' : Source} (hf : ∀ a, NoEof (f a))
    (h : (x >>= f) s = .error (.error .eof) s') : x s = .error (.error .eof) s' := by
  rw [run_bind] at h
  cases hxs : x s with
  | ok a s1 => rw [hxs] at h; exact absurd rfl (hf a _ _ _ h)
  | error e1 s1 => rw [hxs] at h; cases h; rfl

theorem noEof_pure (a : α) : NoEof (pure a : ReadM α) := fun _ _ _ h => by cases h

theorem noEof_throw {e : Fault} (he : e ≠ .error .eof) : NoEof (throw e : ReadM α) :=
  fun _ _ _ h => by cases h; exact he

theorem noEof_logRead (x : IoM α) : NoEof (logRead true x) := by
  intro s e s' h
  simp only [logRead, run_adaptExcept] at h
  split at h
  · cases h
  · cases h
    simpa using wrapLogReadError_partial_ne_eof _

theorem noEof_mayPanic (r : Except String α) : NoEof (mayPanic r) := by
  cases r with
  | error msg => exact noEof_throw (by simp)
  | ok a => exact noEof_pure a

theorem noEof_firstAlgSize (L : List EFISpecIdEventAlgorithmSize) : NoEof (firstAlgSize L) := by
  cases L with
  | nil => exact noEof_throw (by simp)
  | cons a _ => exact noEof_pure a

/-- `if c then return err` before the rest of a method: the rest, or an error that is not EOF. -/
theorem noEof_guard {c : Bool} {e : Fault} {k : PUnit → ReadM α} (he : e ≠ .error .eof)
    (hk : NoEof (k ())) : NoEof (if c = true then throw e >>= k else pure () >>= k) := by
  split
  · exact NoEof.bind (noEof_throw he) fun _ => hk
  · exact NoEof.bind (noEof_pure _) fun _ => hk

theorem noEof_readDigests (L : List EFISpecIdEventAlgorithmSize) (n : Nat) (m : DigestMap) :
    NoEof (readDigests L n m) := by
  induction n generalizing m with
  | zero => exact noEof_pure m
  | succ n ih =>
    refine NoEof.bind (noEof_logRead _) fun a => ?_
    split
    · exact NoEof.bind (noEof_logRead _) fun _ => noEof_guard (by simp) (ih _)
    · exact noEof_throw (by simp)

end NoEof

section EndOfData

variable {ext} {s s' : Source}

/-- The first field of a record ends in `io.EOF` only on a source at its end. -/
theorem eof_of_first_field (h : logRead false readUint32 s = .error (.error .eof) s') :
    s.rest = [] ∧ s' = s := by
  simp only [logRead, run_adaptExcept, readUint32, run_map, readFull_eq] at h
  split_ifs at h <;> simp_all [wrapLogReadError]

theorem first_field_at_end (h : s.rest = []) :
    logRead false readUint32 s = .error (.error .eof) s := by
  simp [logRead, readUint32, readFull_eof (n := 4) (by decide) h, wrapLogReadError]

/-- At the end of the data `stream_1_2` returns `io.EOF` and reads nothing. -/
theorem readNextEvent_at_end {options : LogOptions} (h : s.rest = []) :
    Stream_1_2.readNextEvent ext options s = .error (.error .eof) s := by
  show (logRead false readUint32 >>= _) s = _
  rw [run_bind, first_field_at_end h]

theorem readNextEvent_2_at_end {options : LogOptions} {L : List EFISpecIdEventAlgorithmSize}
    {readFirstEvent : Bool} (h : s.rest = []) :
    Stream_2.readNextEvent ext options L readFirstEvent s = .error (.error .eof) s := by
  cases readFirstEvent
  · exact readNextEvent_at_end h
  show (logRead false readUint32 >>= _) s = _
  rw [run_bind, first_field_at_end h]

theorem readNextEvent_eof {options : LogOptions}
    (h : Stream_1_2.readNextEvent ext options s = .error (.error .eof) s') : s.rest = [] ∧ s' = s := by
  have h1 := eof_of_bind (fun a => ?_) h
  · exact eof_of_first_field h1
  · refine noEof_guard (by simp) ?_
    exact NoEof.bind (noEof_logRead _) fun _ => NoEof.bind (noEof_logRead _) fun _ =>
      NoEof.bind (noEof_logRead _) fun _ => NoEof.bind (noEof_logRead _) fun _ =>
      NoEof.bind (noEof_mayPanic _) fun _ => noEof_pure _

theorem readNextEvent_2_eof {options : LogOptions} {L : List EFISpecIdEventAlgorithmSize}
    {readFirstEvent : Bool}
    (h : Stream_2.readNextEvent ext options L readFirstEvent s = .error (.error .eof) s') :
    s.rest = [] ∧ s' = s := by
  cases readFirstEvent
  · exact readNextEvent_eof h
  have h1 := eof_of_bind (fun a => ?_) h
  · exact eof_of_first_field h1
  · refine noEof_guard (by simp) ?_
    refine NoEof.bind (noEof_logRead _) fun _ => NoEof.bind (noEof_logRead _) fun _ =>
      NoEof.bind (noEof_readDigests _ _ _) fun _ => ?_
    dsimp only
    split
    on_goal 1 => refine NoEof.bind (noEof_throw (by simp)) fun _ => ?_
    on_goal 2 => refine NoEof.bind (noEof_pure _) fun _ => ?_
    all_goals exact NoEof.bind (noEof_logRead _) fun _ => NoEof.bind (noEof_logRead _) fun _ =>
      NoEof.bind (noEof_firstAlgSize _) fun _ => NoEof.bind (noEof_mayPanic _) fun _ => noEof_pure _

end EndOfData

end TcgLog
