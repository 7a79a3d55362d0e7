import TcgLog.ReaderSpec

/-! What holds of every event a log returns, over a whole run from `newLogFromReader`.
`Reached l₀ k l` describes the log after `k` calls on the log `l₀` that was opened: it holds when
the log opens, every call keeps it, and the event a call on such a log returns satisfies
`RunEvent`. A legacy log returns one 20-byte SHA-1 digest per event. A crypto-agile log returns
its Spec ID event with SHA-1 and the log's algorithms, each digest of its registry size, and every
later event with exactly the log's algorithms, each digest of the size the Spec ID event
advertised for it, whatever the registry says. A separator is flagged by its digest under the
log's first algorithm alone. Two concrete logs show that the advertised size is not checked
against the registry and that the flag depends on which algorithm is advertised first. -/

namespace TcgLog

variable (ext : Externals)

/-! ## Every call of a run -/

/-- The advertised pairs a log's reader checks digests against; none for a legacy log. -/
def Log.algSizes (l : Log) : List EFISpecIdEventAlgorithmSize :=
  match l.stream with
  | .stream_2 s => s.algSizes
  | .stream_1_2 _ => []

/-- The record at `r`, read again with the default options, is an EFI 2 Spec ID event. -/
def FirstRecordSpecId (r : Source) : Prop :=
  ∀ p r', Stream_1_2.readNextEvent ext {} r = .ok p r' →
    ∃ d, p.1.data = .specIdEventData d ∧ d.spec = .specEFI_2

/-- A log after `k` calls on the log `l₀` that `newLogFromReader` opened: the spec and the
algorithms are those of `l₀`; a legacy log reads with `stream_1_2` over SHA-1; a crypto-agile
log reads with `stream_2` over the registry algorithms it advertises, and before its first call
the record its stream reads first is the EFI 2 Spec ID event. -/
structure Reached (l₀ : Log) (k : Nat) (l : Log) : Prop where
  spec : l.spec = l₀.spec
  algorithms : l.algorithms = l₀.algorithms
  legacy : l₀.spec ≠ .specEFI_2 → l₀.algorithms = [algorithmSha1] ∧ ∃ st, l.stream = .stream_1_2 st
  agile : l₀.spec = .specEFI_2 → l₀.algorithms = advertisedAlgorithms l₀.algSizes ∧
    ∃ st, l.stream = .stream_2 st ∧ st.algSizes = l₀.algSizes ∧
      (k = 0 → st.readFirstEvent = false ∧ FirstRecordSpecId ext st.r) ∧
      (0 < k → st.readFirstEvent = true ∨ l.failed = true)

theorem firstEventSpec_efi2 {data : EventData} {L : List EFISpecIdEventAlgorithmSize}
    {e : Option GoError} (h : firstEventSpec data = (.specEFI_2, L, e)) :
    ∃ d, data = .specIdEventData d ∧ d.spec = .specEFI_2 := by
  unfold firstEventSpec at h
  split at h <;> simp_all

/-- What `newLogFromReader` opens, from the first record it reads: a crypto-agile log over the
registry algorithms advertised when that record is an EFI 2 Spec ID event, a legacy log over
SHA-1 otherwise, either with its stream on the source where it was. -/
theorem newLogFromReader_ok {r : Source} {options : LogOptions} {l₀ : Log}
    (h : newLogFromReader ext r options = .ok l₀) :
    ∃ event t r', Stream_1_2.readNextEvent ext options r = .ok (event, t) r' ∧
      ∃ L, firstEventSpec event.data = (l₀.spec, L, none) ∧
        (l₀.spec = .specEFI_2 → l₀.algorithms = advertisedAlgorithms L ∧
          l₀.stream = .stream_2 { r, options, algSizes := L, readFirstEvent := false }) ∧
        (l₀.spec ≠ .specEFI_2 → l₀.algorithms = [algorithmSha1] ∧
          l₀.stream = .stream_1_2 { r, options }) := by
  have hkeep := keepsBytes_readNextEvent_1_2 ext options r
  unfold newLogFromReader at h
  rcases hread : Stream_1_2.readNextEvent ext options r with ⟨⟨event, t⟩, r'⟩ | ⟨e | msg, r'⟩ <;>
    rw [hread] at h hkeep <;> try cases h
  simp only at h
  rcases hspec : firstEventSpec event.data with ⟨spec, L, _ | err⟩ <;> rw [hspec] at h <;>
    simp only at h <;> try cases h
  rw [@seek_start r r' hkeep] at h
  refine ⟨event, t, r', rfl, L, ?_⟩
  split_ifs at h with hefi <;> cases h
  · exact ⟨hspec, fun _ => ⟨rfl, rfl⟩, fun h => absurd hefi h⟩
  · exact ⟨hspec, fun h => absurd h hefi, fun _ => ⟨rfl, rfl⟩⟩

/-- `newLogFromReader` opens a log in the state `Reached` describes before its first call. -/
theorem reached_open {r : Source} {options : LogOptions} {l₀ : Log}
    (h : newLogFromReader ext r options = .ok l₀) : Reached ext l₀ 0 l₀ := by
  obtain ⟨event, t, r', hread, L, hspec, hagile, hlegacy⟩ := newLogFromReader_ok ext h
  refine ⟨rfl, rfl, fun hs => ⟨(hlegacy hs).1, _, (hlegacy hs).2⟩, fun hs => ?_⟩
  obtain ⟨halg, hst⟩ := hagile hs
  have hsizes : l₀.algSizes = L := by rw [Log.algSizes, hst]
  refine ⟨by rw [halg, hsizes], _, hst, hsizes.symm, fun _ => ⟨rfl, ?_⟩,
    fun h => absurd h (lt_irrefl 0)⟩
  obtain ⟨d, hd, hd2⟩ := firstEventSpec_efi2 (hs ▸ hspec)
  intro p r'' hp
  rw [readNextEvent_default_of_specId ext hread hd] at hp
  cases hp
  exact ⟨d, hd, hd2⟩

theorem toPair_fst_eq_ok {ε α : Type} {x : EStateM.Result ε Source α} {a : α} :
    (toPair x).1 = .ok a ↔ ∃ s', x = .ok a s' := by
  cases x <;> simp [toPair]

theorem Stream.readNextEvent_stream_1_2 (s : Stream_1_2) :
    ∃ r, (Stream.readNextEvent ext (.stream_1_2 s)).2 = .stream_1_2 { s with r } := ⟨_, rfl⟩

theorem Stream.readNextEvent_stream_2 (s : Stream_2) :
    ∃ r, (Stream.readNextEvent ext (.stream_2 s)).2 = .stream_2 { s with r, readFirstEvent := true } :=
  ⟨_, rfl⟩

@[simp] theorem data_fixupSpecIdEvent (ev : Event) (algorithms : List AlgorithmId) :
    (fixupSpecIdEvent ev algorithms).data = ev.data := by
  unfold fixupSpecIdEvent; split <;> (try split) <;> rfl

section Step

variable {ext} {l : Log}

/-- What one call does to the log: a failed log is left as it is; otherwise the stream reads, and
`failed` and `indexTracker` may change. -/
theorem nextEvent_log (l : Log) :
    (l.failed = true ∧ (l.nextEvent ext).2 = l) ∨
    (l.failed = false ∧ ∃ failed indexTracker, (l.nextEvent ext).2 =
      { l with stream := (l.stream.readNextEvent ext).2, failed, indexTracker }) := by
  cases hf : l.failed
  · refine .inr ⟨rfl, ?_⟩
    rw [nextEvent_of_not_failed hf]
    rcases l.stream.readNextEvent ext with ⟨(⟨err⟩ | ⟨msg⟩) | ⟨event, trailing⟩, stream⟩
    all_goals exact ⟨_, _, rfl⟩
  · exact .inl ⟨rfl, by rw [nextEvent_of_failed hf]⟩

/-- An event a call returns is what the stream read, numbered, and back-filled if it is a Spec ID
event. -/
theorem nextEvent_ok {ev : Event} (h : (l.nextEvent ext).1 = .ok ev) :
    l.failed = false ∧ ∃ event t, (l.stream.readNextEvent ext).1 = .ok (event, t) ∧
      ev = if isSpecIdEvent event then
        fixupSpecIdEvent { event with index := (l.indexTracker event.pcrIndex).getD 0 } l.algorithms
      else { event with index := (l.indexTracker event.pcrIndex).getD 0 } := by
  cases hf : l.failed
  · rw [nextEvent_of_not_failed hf] at h
    refine ⟨rfl, ?_⟩
    generalize l.stream.readNextEvent ext = x at h ⊢
    rcases x with ⟨(⟨err⟩ | ⟨msg⟩) | ⟨event, trailing⟩, stream⟩ <;> simp at h
    exact ⟨event, trailing, rfl, h.symm⟩
  · simp [nextEvent_of_failed hf] at h

end Step

/-- The digests of the Spec ID event of a crypto-agile log: SHA-1 and the log's algorithms, each
digest of its registry size. -/
structure FirstEventDigests (algorithms : List AlgorithmId) (ev : Event) : Prop where
  keys : ∀ a, (ev.digests a).isSome ↔ a = algorithmSha1 ∨ a ∈ algorithms
  sizes : ∀ a d, ev.digests a = some d → (knownAlgorithms a).map (·.toNat) = some d.length

/-- What holds of the event the call after `k` calls on `l₀` returns. -/
structure RunEvent (l₀ : Log) (k : Nat) (ev : Event) : Prop where
  pcrIndex_le : ev.pcrIndex ≤ 31
  legacy : l₀.spec ≠ .specEFI_2 →
    ∃ d, d.length = 20 ∧ ev.digests = DigestMap.empty.insert algorithmSha1 d
  first : l₀.spec = .specEFI_2 → k = 0 → FirstEventDigests l₀.algorithms ev
  later : l₀.spec = .specEFI_2 → 0 < k →
    (∀ a, (ev.digests a).isSome ↔ a ∈ l₀.algorithms) ∧
      ∀ a d, ev.digests a = some d → advertisedSize l₀.algSizes a = some d.length
  separator : SeparatorFlagged ext l₀.algorithms ev

section Run

variable {ext} {l₀ l : Log} {k : Nat}

theorem reached_nextEvent (hR : Reached ext l₀ k l) : Reached ext l₀ (k + 1) (l.nextEvent ext).2 := by
  rcases nextEvent_log l with ⟨hf, h⟩ | ⟨hf, failed, indexTracker, h⟩
  · rw [h]
    refine ⟨hR.spec, hR.algorithms, hR.legacy, fun hspec => ?_⟩
    obtain ⟨halg, st, hst, hL, -, -⟩ := hR.agile hspec
    exact ⟨halg, st, hst, hL, fun h => absurd h (Nat.succ_ne_zero k), fun _ => .inr hf⟩
  · rw [h]
    refine ⟨hR.spec, hR.algorithms, fun hspec => ?_, fun hspec => ?_⟩
    · obtain ⟨halg, st, hst⟩ := hR.legacy hspec
      obtain ⟨r, hr⟩ := Stream.readNextEvent_stream_1_2 ext st
      exact ⟨halg, { st with r }, by simp only [hst, hr]⟩
    · obtain ⟨halg, st, hst, hL, -, -⟩ := hR.agile hspec
      obtain ⟨r, hr⟩ := Stream.readNextEvent_stream_2 ext st
      exact ⟨halg, { st with r, readFirstEvent := true }, by simp only [hst, hr], hL,
        fun h => absurd h (Nat.succ_ne_zero k),
        fun _ => .inl rfl⟩

/-- The SHA-1 digest of the Spec ID event with zero digests back-filled for the log's algorithms. -/
theorem firstEventDigests_backfill {algorithms : List AlgorithmId} {d : Digest} {ev : Event}
    (hknown : ∀ a ∈ algorithms, isKnownAlgorithm a) (hd : d.length = 20)
    (hev : ev.digests = backfillZeroDigests algorithms (DigestMap.empty.insert algorithmSha1 d)) :
    FirstEventDigests algorithms ev := by
  constructor
  · intro a
    rw [hev, backfillZeroDigests]
    by_cases ha : a = algorithmSha1 <;> simp [ha]
  · intro a d' h
    rw [hev, backfillZeroDigests] at h
    split_ifs at h with hc
    · cases h
      obtain ⟨n, hn⟩ := Option.isSome_iff_exists.mp (hknown a hc.2.1)
      simp [zeroDigests, hn]
    · simp only [DigestMap.insert_apply, DigestMap.empty_apply] at h
      split_ifs at h with ha
      cases h
      subst ha
      simp [hd, knownAlgorithms]

/-- The event a call on a reached log returns. -/
theorem runEvent_of_reached (hR : Reached ext l₀ k l) {ev : Event}
    (hev : (l.nextEvent ext).1 = .ok ev) : RunEvent ext l₀ k ev := by
  obtain ⟨hf, event, t, hread, rfl⟩ := nextEvent_ok hev
  by_cases hspec : l₀.spec = .specEFI_2
  · obtain ⟨halg, st, hst, hL, hfirst, hlater⟩ := hR.agile hspec
    rw [hst] at hread
    obtain ⟨s', hs⟩ := toPair_fst_eq_ok.mp hread
    rcases Nat.eq_zero_or_pos k with rfl | hk
    · obtain ⟨hrf, hfr⟩ := hfirst rfl
      rw [hrf] at hs
      have hle := returns_readNextEvent_1_2 ext {} _ _ _ hs
      obtain ⟨d, hd, hd2⟩ : ∃ d, event.data = .specIdEventData d ∧ d.spec = .specEFI_2 := hfr _ _ hs
      obtain ⟨dig, hlen, hdig⟩ : ∃ d, d.length = 20 ∧
          event.digests = DigestMap.empty.insert algorithmSha1 d := hle.digest
      have hspecId : isSpecIdEvent event = true := by simp [isSpecIdEvent, hd]
      rw [if_pos hspecId,
        @fixupSpecIdEvent_efi2 { event with index := (l.indexTracker event.pcrIndex).getD 0 } d hd hd2]
      refine ⟨hle.pcrIndex_le, fun h => absurd hspec h, fun _ _ => ?_,
        fun _ h => absurd h (lt_irrefl 0), fun data b h => by simp [hd] at h⟩
      rw [hR.algorithms]
      exact firstEventDigests_backfill (fun a ha => (mem_advertisedAlgorithms (halg ▸ ha)).1)
        hlen (by rw [← hdig])
    · have hrf : st.readFirstEvent = true := (hlater hk).resolve_right (by simp [hf])
      rw [hrf] at hs
      have hag : AgileEvent ext st.algSizes event := returns_readNextEvent_2 ext st.options _ _ _ _ hs
      have hkeys : ∀ a, (event.digests a).isSome ↔ a ∈ l₀.algorithms := by
        rw [halg, ← hL]
        exact hag.keys
      rw [fixupSpecIdEvent_of_present fun a ha _ => by
        rw [hR.algorithms] at ha; exact (hkeys a).mpr ha, ite_self]
      exact ⟨hag.pcrIndex_le, fun h => absurd hspec h, fun _ h => absurd h (Nat.pos_iff_ne_zero.mp hk),
        fun _ _ => ⟨hkeys, hL ▸ hag.sizes⟩, by rw [halg, ← hL]; exact hag.separator⟩
  · obtain ⟨halg, st, hst⟩ := hR.legacy hspec
    rw [hst] at hread
    obtain ⟨s', hs⟩ := toPair_fst_eq_ok.mp hread
    have hle := returns_readNextEvent_1_2 ext st.options _ _ _ hs
    rw [fixupSpecIdEvent_of_present fun a ha hne => by
      rw [hR.algorithms, halg, List.mem_singleton] at ha; exact absurd ha hne, ite_self]
    exact ⟨hle.pcrIndex_le, fun _ => hle.digest, fun h => absurd h hspec, fun h => absurd h hspec,
      halg ▸ hle.separator⟩

/-- Every log a run from `newLogFromReader` reaches, after any number of calls. -/
theorem reached_nextEvents {r : Source} {options : LogOptions}
    (hopen : newLogFromReader ext r options = .ok l₀) (k : Nat) :
    Reached ext l₀ k (l₀.nextEvents ext k).2 := by
  induction k with
  | zero => exact reached_open ext hopen
  | succ k ih =>
    rw [nextEvents_add ext k 1]
    exact reached_nextEvent ih

end Run

/-! ## Logs that trust the advertised sizes and the first bank -/

/-- The second call on a crypto-agile log whose first advertised algorithm is on the registry
returns the record after the Spec ID event, flagged by its digest under that algorithm. -/
theorem agileLog_second_call (options : LogOptions) (r₀ : PCClientPCREvent) (d : SpecIdEventData)
    (a : EFISpecIdEventAlgorithmSize) (L : List EFISpecIdEventAlgorithmSize) (r₁ : PCREvent2)
    (tail : Bytes) (hpcr₀ : r₀.pcrIndex ≤ 31) (hd : (r₀.decoded ext options).1 = .specIdEventData d)
    (hspec : d.spec = .specEFI_2) (hL : d.digestSizes = a :: L) (ha : isKnownAlgorithm a.algorithmId)
    (hpcr₁ : r₁.pcrIndex ≤ 31) (hfits : Fits d.digestSizes r₁.digests) :
    ∃ l, newLogFromReader ext (bytesReader (r₀.encode ++ (r₁.encode ++ tail))) options = .ok l ∧
      l.spec = .specEFI_2 ∧ ∃ i b, isDigestOfSeparatorErrorValue ext
        ((r₁.digestMap a.algorithmId).getD []) a.algorithmId = .ok b ∧
      ((l.nextEvents ext 1).2.nextEvent ext).1 = .ok { r₁.toEvent ext options b with index := i } := by
  obtain ⟨l, hopen, hspec', halg, -, hf, halg₁, hst⟩ :=
    agileLog_first_call ext options r₀ d (r₁.encode ++ tail) hpcr₀ hd hspec
  obtain ⟨b, hb⟩ := isDigestOfSeparatorErrorValue_of_known ext ((r₁.digestMap a.algorithmId).getD []) ha
  have hstep := @nextEvent_agile ext (l.nextEvent ext).2 _ r₁ tail a L b hf hst rfl hL (by simp) hpcr₁
    hfits hb fun x hx => mem_advertisedAlgorithms (by rw [halg₁, halg] at hx; exact hx)
  exact ⟨l, hopen, hspec', _, b, hb, by rw [nextEvents_succ, nextEvents_zero, hstep]⟩

/-- SHA-1 and SHA-256 banks, SHA-256 advertised with the size of a SHA-1 digest. -/
def shortSha256Sizes : List EFISpecIdEventAlgorithmSize :=
  [⟨algorithmSha1, 20⟩, ⟨algorithmSha256, 20⟩]

/-- An `EV_ACTION` record with a zero SHA-1 digest and a 20-byte zero SHA-256 digest. -/
def shortSha256Event : PCREvent2 :=
  actionEvent2 [(algorithmSha1, List.replicate 20 0), (algorithmSha256, List.replicate 20 0)] (by decide)

/-! ## Event invariant -/

/-- Event invariant: on a log that `newLogFromReader` opened, the event the call after any `k`
calls returns is on a PCR in range; on a legacy log its digests are one SHA-1 digest of 20 bytes;
on a crypto-agile log the first event (the Spec ID event) has SHA-1 and the log's algorithms,
each digest of its registry size, and every later event has exactly the log's algorithms, each
digest of the size the Spec ID event advertised for it. -/
theorem nextEvent_digests_invariant (r : Source) (options : LogOptions) (l₀ : Log)
    (hopen : newLogFromReader ext r options = .ok l₀) (k : Nat) (ev : Event)
    (hev : ((l₀.nextEvents ext k).2.nextEvent ext).1 = .ok ev) :
    ev.pcrIndex ≤ 31 ∧
    (l₀.spec ≠ .specEFI_2 →
      ∃ d, d.length = 20 ∧ ev.digests = DigestMap.empty.insert algorithmSha1 d) ∧
    (l₀.spec = .specEFI_2 → k = 0 → FirstEventDigests l₀.algorithms ev) ∧
    (l₀.spec = .specEFI_2 → 0 < k →
      (∀ a, (ev.digests a).isSome ↔ a ∈ l₀.algorithms) ∧
        ∀ a d, ev.digests a = some d → advertisedSize l₀.algSizes a = some d.length) :=
  have h := runEvent_of_reached (reached_nextEvents hopen k) hev
  ⟨h.pcrIndex_le, h.legacy, h.first, h.later⟩

theorem nextEvent_digests_invariant_shortSha256 :
    ∃ l ev, newLogFromReader zeroExternals (bytesReader ((specIdRecord shortSha256Sizes (by decide)).encode ++
        (shortSha256Event.encode ++ []))) {} = .ok l ∧
      ((l.nextEvents zeroExternals 1).2.nextEvent zeroExternals).1 = .ok ev ∧
      ∀ d, ev.digests algorithmSha256 = some d → advertisedSize l.algSizes algorithmSha256 = some d.length := by
  obtain ⟨l, hopen, hspec, i, b, -, hev⟩ := agileLog_second_call zeroExternals {}
    (specIdRecord shortSha256Sizes (by decide)) (specIdEvent03Decoded shortSha256Sizes)
    ⟨algorithmSha1, 20⟩ [⟨algorithmSha256, 20⟩] shortSha256Event [] (by decide) (by decide) rfl rfl
    (by decide) (by decide) (by decide)
  exact ⟨l, _, hopen, hev,
    ((nextEvent_digests_invariant zeroExternals _ {} l hopen 1 _ hev).2.2.2 hspec (by decide)).2 _⟩

theorem agileLog_short_sha256_digest :
    ∃ l, newLogFromReader zeroExternals (bytesReader ((specIdRecord shortSha256Sizes (by decide)).encode ++
        (shortSha256Event.encode ++ []))) {} = .ok l ∧
      ∃ ev d, ((l.nextEvents zeroExternals 1).2.nextEvent zeroExternals).1 = .ok ev ∧
        ev.digests algorithmSha256 = some d ∧ knownAlgorithms algorithmSha256 = some 32 ∧ d.length = 20 := by
  obtain ⟨l, hopen, -, i, b, -, hev⟩ := agileLog_second_call zeroExternals {}
    (specIdRecord shortSha256Sizes (by decide)) (specIdEvent03Decoded shortSha256Sizes)
    ⟨algorithmSha1, 20⟩ [⟨algorithmSha256, 20⟩] shortSha256Event [] (by decide) (by decide) rfl rfl
    (by decide) (by decide) (by decide)
  exact ⟨l, hopen, _, List.replicate 20 0, hev, rfl, rfl, rfl⟩


/-! ## Separator classification -/

/-- SHA-256 advertised first, then SHA-1. -/
def sha256Sha1Sizes : List EFISpecIdEventAlgorithmSize :=
  [⟨algorithmSha256, 32⟩, ⟨algorithmSha1, 20⟩]

/-- A separator on PCR 0 over the error value, whose SHA-256 digest is the digest of the error
value under `zeroExternals` and whose SHA-1 digest is not. -/
def splitSeparatorEvent : PCREvent2 where
  pcrIndex := 0
  eventType := eventTypeSeparator
  digests := [(algorithmSha1, 1 :: List.replicate 19 0), (algorithmSha256, List.replicate 32 0)]
  event := le32 separatorEventErrorValue
  digests_length := by decide
  event_length := by decide

theorem splitSeparatorEvent_flag_sha1 : isDigestOfSeparatorErrorValue zeroExternals
    ((splitSeparatorEvent.digestMap algorithmSha1).getD []) algorithmSha1 = .ok false := rfl

/-- A separator on PCR 0 over the error value, with SHA-1 digest `d₁` and SHA-256 digest `d₂₅₆`. -/
def separatorEvent2 (d₁ d₂₅₆ : Digest) : PCREvent2 where
  pcrIndex := 0
  eventType := eventTypeSeparator
  digests := [(algorithmSha1, d₁), (algorithmSha256, d₂₅₆)]
  event := le32 separatorEventErrorValue
  digests_length := (by decide : 2 < 2 ^ 32)
  event_length := by decide

theorem separatorEvent2_flag_sha1 (d₁ d₂₅₆ : Digest) : isDigestOfSeparatorErrorValue ext
    (((separatorEvent2 d₁ d₂₅₆).digestMap algorithmSha1).getD []) algorithmSha1 =
      .ok (d₁ == ext.sha1Sum (le32 separatorEventErrorValue)) := rfl

theorem separatorEvent2_flag_sha256 (d₁ d₂₅₆ : Digest) : isDigestOfSeparatorErrorValue ext
    (((separatorEvent2 d₁ d₂₅₆).digestMap algorithmSha256).getD []) algorithmSha256 =
      .ok (d₂₅₆ == ext.sha256Sum (le32 separatorEventErrorValue)) := rfl

/-- The separator's digests fit either order of the SHA-1 and SHA-256 banks once they have the
registry sizes. -/
theorem fits_separatorEvent2 {L : List EFISpecIdEventAlgorithmSize} {d₁ d₂₅₆ : Digest}
    (hL : L = sha1Sha256Sizes ∨ L = sha256Sha1Sizes) (h₁ : d₁.length = 20) (h₂₅₆ : d₂₅₆.length = 32) :
    Fits L (separatorEvent2 d₁ d₂₅₆).digests := by
  refine ⟨(by decide : [algorithmSha1, algorithmSha256].Nodup), ?_, ?_⟩
  · simp only [separatorEvent2, List.forall_mem_cons, List.forall_mem_nil, h₁, h₂₅₆, and_true]
    rcases hL with rfl | rfl <;> decide
  · show ∀ e ∈ L, e.algorithmId ∈ [algorithmSha1, algorithmSha256]
    rcases hL with rfl | rfl <;> decide

/-- The Spec ID record of either order of the SHA-1 and SHA-256 banks decodes to its Spec ID event
under every registry. -/
theorem decoded_specIdRecord_banks {L : List EFISpecIdEventAlgorithmSize}
    (hL : L = sha1Sha256Sizes ∨ L = sha256Sha1Sizes) (h : (specIdEvent03Data L).length < 2 ^ 32) :
    ((specIdRecord L h).decoded ext {}).1 = .specIdEventData (specIdEvent03Decoded L) := by
  rcases hL with rfl | rfl <;> rfl

/-- Separator classification: on a log that `newLogFromReader` opened, a separator event is
flagged exactly when its digest under the log's first algorithm `A` (SHA-1 on a legacy log, the
first advertised algorithm on a crypto-agile one) is the digest under `A` of `01 00 00 00`. -/
theorem nextEvent_separator_flag (r : Source) (options : LogOptions) (l₀ : Log)
    (hopen : newLogFromReader ext r options = .ok l₀) (k : Nat) (ev : Event)
    (hev : ((l₀.nextEvents ext k).2.nextEvent ext).1 = .ok ev) (data : Bytes) (isError : Bool)
    (hsep : ev.data = .separatorEventData data isError) :
    ∃ A h, l₀.algorithms.head? = some A ∧ hash ext (le32 separatorEventErrorValue) A = .ok h ∧
      (isError = true ↔ ev.digests A = some h) :=
  (runEvent_of_reached (reached_nextEvents hopen k) hev).separator data isError hsep


theorem nextEvent_separator_flag_splitSeparator :
    ∃ l ev, newLogFromReader zeroExternals (bytesReader ((specIdRecord sha1Sha256Sizes (by decide)).encode ++
        (splitSeparatorEvent.encode ++ []))) {} = .ok l ∧
      ((l.nextEvents zeroExternals 1).2.nextEvent zeroExternals).1 = .ok ev ∧
      ∃ A h, l.algorithms.head? = some A ∧
        hash zeroExternals (le32 separatorEventErrorValue) A = .ok h ∧ (false = true ↔ ev.digests A = some h) := by
  obtain ⟨l, hopen, -, i, b, hb, hev⟩ := agileLog_second_call zeroExternals {}
    (specIdRecord sha1Sha256Sizes (by decide)) (specIdEvent03Decoded sha1Sha256Sizes)
    ⟨algorithmSha1, 20⟩ [⟨algorithmSha256, 32⟩] splitSeparatorEvent [] (by decide) (by decide) rfl rfl
    (by decide) (by decide) (by decide)
  obtain rfl : b = false := (Except.ok.inj (splitSeparatorEvent_flag_sha1.symm.trans hb)).symm
  exact ⟨l, _, hopen, hev,
    nextEvent_separator_flag zeroExternals _ {} l hopen 1 _ hev (le32 separatorEventErrorValue) false rfl⟩

/-- The same separator record, whose SHA-256 digest is the digest of `01 00 00 00` and whose
SHA-1 digest is any other digest of the SHA-1 size, is returned unflagged behind a Spec ID event
advertising SHA-1 first and flagged behind one advertising SHA-256 first. It holds for every digest
registry whose SHA-256 digests have 32 bytes; no other property of the hashes is used. -/
theorem separator_flag_first_bank :
    (∀ (ext : Externals) (d₁ : Digest), d₁.length = 20 → d₁ ≠ ext.sha1Sum (le32 separatorEventErrorValue) →
      (ext.sha256Sum (le32 separatorEventErrorValue)).length = 32 →
      ∃ l, newLogFromReader ext (bytesReader ((specIdRecord sha1Sha256Sizes (by decide)).encode ++
          (separatorEvent2 d₁ (ext.sha256Sum (le32 separatorEventErrorValue))).encode)) {} = .ok l ∧
        ∃ ev, ((l.nextEvents ext 1).2.nextEvent ext).1 = .ok ev ∧
          ev.digests algorithmSha256 = some (ext.sha256Sum (le32 separatorEventErrorValue)) ∧
          ev.data = .separatorEventData (le32 separatorEventErrorValue) false) ∧
    (∀ (ext : Externals) (d₁ : Digest), d₁.length = 20 →
      (ext.sha256Sum (le32 separatorEventErrorValue)).length = 32 →
      ∃ l, newLogFromReader ext (bytesReader ((specIdRecord sha256Sha1Sizes (by decide)).encode ++
          (separatorEvent2 d₁ (ext.sha256Sum (le32 separatorEventErrorValue))).encode)) {} = .ok l ∧
        ∃ ev, ((l.nextEvents ext 1).2.nextEvent ext).1 = .ok ev ∧
          ev.data = .separatorEventData (le32 separatorEventErrorValue) true) := by
  constructor
  · intro ext d₁ h₁ hne h₂₅₆
    obtain ⟨l, hopen, -, i, b, hb, hev⟩ := agileLog_second_call ext {}
      (specIdRecord sha1Sha256Sizes (by decide)) (specIdEvent03Decoded sha1Sha256Sizes)
      ⟨algorithmSha1, 20⟩ [⟨algorithmSha256, 32⟩] (separatorEvent2 d₁ _) [] (by decide)
      (decoded_specIdRecord_banks ext (.inl rfl) _) rfl rfl (by decide) (by decide : (0 : PCRIndex) ≤ 31)
      (fits_separatorEvent2 (.inl rfl) h₁ h₂₅₆)
    obtain rfl : b = false := (Except.ok.inj ((separatorEvent2_flag_sha1 ext d₁ _).symm.trans hb)).symm.trans
      (beq_eq_false_iff_ne.mpr hne)
    rw [List.append_nil] at hopen
    exact ⟨l, hopen, _, hev, rfl, rfl⟩
  · intro ext d₁ h₁ h₂₅₆
    obtain ⟨l, hopen, -, i, b, hb, hev⟩ := agileLog_second_call ext {}
      (specIdRecord sha256Sha1Sizes (by decide)) (specIdEvent03Decoded sha256Sha1Sizes)
      ⟨algorithmSha256, 32⟩ [⟨algorithmSha1, 20⟩] (separatorEvent2 d₁ _) [] (by decide)
      (decoded_specIdRecord_banks ext (.inr rfl) _) rfl rfl (by decide) (by decide : (0 : PCRIndex) ≤ 31)
      (fits_separatorEvent2 (.inr rfl) h₁ h₂₅₆)
    obtain rfl : b = true := (Except.ok.inj ((separatorEvent2_flag_sha256 ext d₁ _).symm.trans hb)).symm.trans
      (beq_self_eq_true _)
    rw [List.append_nil] at hopen
    exact ⟨l, hopen, _, hev, rfl⟩

end TcgLog
