import TcgLog.EventInvariant

/-! What `LogOptions` can change. The readers hand the options only to `decodeEventData`, and
`EnableGrub` only turns a GRUB string on PCR 8 or 9 into a GRUB event. A Spec ID payload starts
with its signature, which no GRUB string does, so every option decodes a Spec ID event the same
way. Two runs of the log over the same source with different options therefore stay in step: every
call returns the same fault, or events that differ in their decoded data alone, and the logs differ
only in the options their stream holds. The two opened logs are the same up to their options.
For the same reason the first call, which a crypto-agile stream makes with zero options, returns
the event `newLogFromReader` read with the log's options to choose the reader. -/

namespace TcgLog

variable (ext : Externals)

/-! ## The data decoder -/

theorem externalBranch_fst {data : Bytes} {mk : Bytes → EventData} {p : Bool × Option GoError}
    {x : EventData} (h : (externalBranch data mk p).1 = some x) : x = mk data := by
  obtain ⟨_ | _, _⟩ := p
  · cases h
  · exact (Option.some.inj h).symm

theorem externalResult_fst {data : Bytes} {mk : Bytes → EventData}
    {p : Bool × Nat × Option GoError} {x : EventData} (h : (externalResult data mk p).1 = some x) :
    x = mk data := by
  obtain ⟨_ | _, _⟩ := p
  · cases h
  · exact (Option.some.inj h).symm

theorem ite_fst_ne {α β : Type} {c : Prop} [Decidable c] {x y : α × β} {a : α} (hx : x.1 ≠ a)
    (hy : y.1 ≠ a) : (if c then x else y).1 ≠ a := by
  split <;> assumption

/-- The no-action decoder yields a Spec ID event only behind a Spec ID signature, whose first
byte is `S`. -/
theorem decodeEventDataNoAction_specId {data : Bytes} {d : SpecIdEventData}
    (h : (decodeEventDataNoAction ext data).1 = some (.specIdEventData d)) :
    data.head? = some 83 := by
  unfold decodeEventDataNoAction at h
  split at h
  · cases h
  · next signature stream hread =>
    rw [readFull_eq] at hread
    split_ifs at hread
    cases hread
    rw [rest_bytesReader] at h
    have hsig : data.take 16 = specIdEvent00Signature ∨ data.take 16 = specIdEvent02Signature ∨
        data.take 16 = specIdEvent03Signature := by
      by_contra hk
      push_neg at hk
      rw [if_neg hk.1, if_neg hk.2.1, if_neg hk.2.2] at h
      exact absurd h <| ite_fst_ne (fun h => nomatch externalBranch_fst h) <|
        ite_fst_ne (fun h => nomatch externalBranch_fst h) nofun
    rw [← List.take_append_drop 16 data]
    rcases hsig with hk | hk | hk <;> rw [hk] <;> rfl

/-- Only the no-action branch of the TCG decoder yields a Spec ID event. -/
theorem decodeEventDataTCG_specId {eventType : EventType} {data : Bytes} {isError : Bool}
    {d : SpecIdEventData}
    (h : (decodeEventDataTCG ext eventType data isError).1 = some (.specIdEventData d)) :
    (decodeEventDataNoAction ext data).1 = some (.specIdEventData d) := by
  unfold decodeEventDataTCG at h
  by_cases hna : eventType = eventTypeNoAction
  · rwa [if_pos hna] at h
  · rw [if_neg hna] at h
    exact absurd h <| ite_fst_ne nofun <| ite_fst_ne nofun <|
      ite_fst_ne (fun h => nomatch externalResult_fst h) <|
      ite_fst_ne (fun h => nomatch externalResult_fst h) <|
      ite_fst_ne (fun h => nomatch externalResult_fst h) nofun

/-- A payload that decodes to a Spec ID event, under any options, is no GRUB string. -/
theorem isGrubString_of_specId {pcrIndex : PCRIndex} {eventType : EventType} {data : Bytes}
    {options : LogOptions} {isError : Bool} {d : SpecIdEventData}
    (h : (decodeEventData ext pcrIndex eventType data options isError).1 = .specIdEventData d) :
    isGrubString data = false := by
  unfold decodeEventData at h
  split_ifs at h
  rcases hT : decodeEventDataTCG ext eventType data isError with ⟨_ | x, t, _ | err⟩ <;>
    simp only [hT] at h <;> try cases h
  obtain ⟨rest, hrest⟩ : ∃ rest, data = 83 :: rest := by
    have := decodeEventDataNoAction_specId ext (decodeEventDataTCG_specId ext (by rw [hT]))
    exact List.head?_eq_some_iff.mp this
  rw [hrest]
  rfl

/-- Off GRUB strings the options play no part in decoding. -/
theorem decodeEventData_of_not_grub {pcrIndex : PCRIndex} {eventType : EventType} {data : Bytes}
    {isError : Bool} (h : isGrubString data = false) (options options' : LogOptions) :
    decodeEventData ext pcrIndex eventType data options isError =
      decodeEventData ext pcrIndex eventType data options' isError := by
  simp only [decodeEventData, h, Bool.false_eq_true, and_false, if_false]

/-- Every option decodes a Spec ID event the same way. -/
theorem decodeEventData_specId_iff {pcrIndex : PCRIndex} {eventType : EventType} {data : Bytes}
    {isError : Bool} (options options' : LogOptions) (d : SpecIdEventData) :
    (decodeEventData ext pcrIndex eventType data options isError).1 = .specIdEventData d ↔
      (decodeEventData ext pcrIndex eventType data options' isError).1 = .specIdEventData d := by
  constructor <;> intro h
  · rwa [← decodeEventData_of_not_grub ext (isGrubString_of_specId ext h)]
  · rwa [decodeEventData_of_not_grub ext (isGrubString_of_specId ext h)]

/-! ## Two runs in step -/

/-- Two events that differ at most in their decoded data, and are Spec ID events with the same
data if either is. -/
structure Event.DecodedAlike (ev ev' : Event) : Prop where
  index_eq : ev.index = ev'.index
  pcrIndex_eq : ev.pcrIndex = ev'.pcrIndex
  eventType_eq : ev.eventType = ev'.eventType
  digests_eq : ev.digests = ev'.digests
  specId_iff : ∀ d, ev.data = .specIdEventData d ↔ ev'.data = .specIdEventData d

theorem Event.DecodedAlike.refl (ev : Event) : ev.DecodedAlike ev :=
  ⟨rfl, rfl, rfl, rfl, fun _ => Iff.rfl⟩

/-- What two calls return: the same fault, or values related by `R`. -/
def ResultsAlike {α : Type} (R : α → α → Prop) : Except Fault α → Except Fault α → Prop
  | .ok a, .ok b => R a b
  | .error f, .error f' => f = f'
  | _, _ => False

theorem ResultsAlike.cases {α : Type} {R : α → α → Prop} {x y : Except Fault α}
    (h : ResultsAlike R x y) :
    (∃ f, x = .error f ∧ y = .error f) ∨ ∃ a b, x = .ok a ∧ y = .ok b ∧ R a b := by
  rcases x with f | a <;> rcases y with f' | b
  · cases (h : f = f'); exact .inl ⟨f, rfl, rfl⟩
  · exact (h : False).elim
  · exact (h : False).elim
  · exact .inr ⟨a, b, rfl, rfl, h⟩

theorem ReadsAlike.throw_bind {ε α β : Type} {R : α → α → Prop} {e : ε}
    {k k' : β → EStateM ε Source α} : ReadsAlike R (throw e >>= k) (throw e >>= k') :=
  fun s => .inl ⟨e, s, rfl, rfl⟩

theorem ReadsAlike.refl {ε α : Type} {R : α → α → Prop} (hR : ∀ a, R a a) (x : EStateM ε Source α) :
    ReadsAlike R x x := fun s => by
  cases x s with
  | ok a s' => exact .inr ⟨a, a, s', rfl, rfl, hR a⟩
  | error e s' => exact .inl ⟨e, s', rfl, rfl⟩

section Readers

variable {ext}

theorem readNextEvent_decodedAlike (options options' : LogOptions) :
    ReadsAlike (fun p q => p.1.DecodedAlike q.1)
      (Stream_1_2.readNextEvent ext options) (Stream_1_2.readNextEvent ext options') := by
  refine ReadsAlike.bind fun pcrIndex => ReadsAlike.ite ReadsAlike.throw_bind ?_
  refine ReadsAlike.bind fun _ => ReadsAlike.bind fun eventType => ReadsAlike.bind fun digest => ?_
  refine ReadsAlike.bind fun _ => ReadsAlike.bind fun event => ReadsAlike.bind fun isError => ?_
  exact ReadsAlike.pure ⟨rfl, rfl, rfl, rfl, decodeEventData_specId_iff ext options options'⟩

theorem readNextEvent_2_decodedAlike (options options' : LogOptions)
    (L : List EFISpecIdEventAlgorithmSize) (readFirstEvent : Bool) :
    ReadsAlike (fun p q => p.1.DecodedAlike q.1)
      (Stream_2.readNextEvent ext options L readFirstEvent)
      (Stream_2.readNextEvent ext options' L readFirstEvent) := by
  unfold Stream_2.readNextEvent
  refine ReadsAlike.ite (ReadsAlike.refl (R := fun p q : Event × Nat => p.1.DecodedAlike q.1)
    (fun p => .refl p.1) _) ?_
  refine ReadsAlike.bind fun pcrIndex => ReadsAlike.ite ReadsAlike.throw_bind ?_
  refine ReadsAlike.bind fun _ => ReadsAlike.bind fun eventType => ReadsAlike.bind fun count => ?_
  refine ReadsAlike.bind fun digests => ?_
  dsimp only
  split
  · exact ReadsAlike.throw_bind
  refine ReadsAlike.bind fun _ => ReadsAlike.bind fun eventSize => ReadsAlike.bind fun event => ?_
  refine ReadsAlike.bind fun first => ReadsAlike.bind fun isError => ?_
  exact ReadsAlike.pure ⟨rfl, rfl, rfl, rfl, decodeEventData_specId_iff ext options options'⟩

end Readers

/-- The stream with its options replaced. -/
def Stream.withOptions (options : LogOptions) : Stream → Stream
  | .stream_1_2 s => .stream_1_2 { s with options }
  | .stream_2 s => .stream_2 { s with options }

/-- The log with the options of its stream replaced. -/
def Log.withOptions (l : Log) (options : LogOptions) : Log :=
  { l with stream := l.stream.withOptions options }

section Logs

variable {ext}

/-- Results of two reads alike, as a stream call returns them. -/
theorem toPair_readsAlike {α : Type} {R : α → α → Prop} {x y : ReadM α} (h : ReadsAlike R x y)
    (s : Source) : ResultsAlike R (toPair (x s)).1 (toPair (y s)).1 ∧ (toPair (y s)).2 = (toPair (x s)).2 := by
  rcases h s with ⟨e, s', hx, hy⟩ | ⟨a, b, s', hx, hy, hab⟩
  · rw [hx, hy]; exact ⟨rfl, rfl⟩
  · rw [hx, hy]; exact ⟨hab, rfl⟩

theorem Stream.readNextEvent_withOptions (st : Stream) (options : LogOptions) :
    ResultsAlike (fun p q => p.1.DecodedAlike q.1) (st.readNextEvent ext).1
      ((st.withOptions options).readNextEvent ext).1 ∧
    ((st.withOptions options).readNextEvent ext).2 = (st.readNextEvent ext).2.withOptions options := by
  cases st with
  | stream_1_2 s =>
    obtain ⟨hres, hsrc⟩ := toPair_readsAlike (readNextEvent_decodedAlike s.options options) s.r
    exact ⟨hres, by simp only [Stream.withOptions, Stream.readNextEvent, hsrc]⟩
  | stream_2 s =>
    obtain ⟨hres, hsrc⟩ := toPair_readsAlike
      (readNextEvent_2_decodedAlike s.options options s.algSizes s.readFirstEvent) s.r
    exact ⟨hres, by simp only [Stream.withOptions, Stream.readNextEvent, hsrc]⟩

theorem isSpecIdEvent_iff {ev : Event} :
    isSpecIdEvent ev = true ↔ ∃ d, ev.data = .specIdEventData d := by
  unfold isSpecIdEvent
  split
  · next d hd => exact ⟨fun _ => ⟨d, hd⟩, fun _ => rfl⟩
  · next hne => exact ⟨nofun, fun ⟨d, hd⟩ => (hne d hd).elim⟩

/-- The numbering and the zero-digest back-fill of a call look only at what two alike events
share. -/
theorem decodedAlike_numbered {ev ev' : Event} (h : ev.DecodedAlike ev')
    (tracker : PCRIndex → Option Nat) (algorithms : List AlgorithmId) :
    (if isSpecIdEvent ev then
        fixupSpecIdEvent { ev with index := (tracker ev.pcrIndex).getD 0 } algorithms
      else { ev with index := (tracker ev.pcrIndex).getD 0 }).DecodedAlike
    (if isSpecIdEvent ev' then
        fixupSpecIdEvent { ev' with index := (tracker ev'.pcrIndex).getD 0 } algorithms
      else { ev' with index := (tracker ev'.pcrIndex).getD 0 }) := by
  by_cases hs : ∃ d, ev.data = .specIdEventData d
  · obtain ⟨d, hd⟩ := hs
    have hd' := (h.specId_iff d).mp hd
    have heq : ({ ev with index := (tracker ev.pcrIndex).getD 0 } : Event) =
        { ev' with index := (tracker ev'.pcrIndex).getD 0 } := by
      rw [h.pcrIndex_eq, h.eventType_eq, h.digests_eq, hd, hd']
    rw [if_pos (isSpecIdEvent_iff.mpr ⟨d, hd⟩), if_pos (isSpecIdEvent_iff.mpr ⟨d, hd'⟩), heq]
    exact Event.DecodedAlike.refl _
  · have hs' : ¬∃ d, ev'.data = .specIdEventData d := fun ⟨d, hd⟩ => hs ⟨d, (h.specId_iff d).mpr hd⟩
    rw [if_neg (mt isSpecIdEvent_iff.mp hs), if_neg (mt isSpecIdEvent_iff.mp hs')]
    exact ⟨by rw [h.pcrIndex_eq], h.pcrIndex_eq, h.eventType_eq, h.digests_eq, h.specId_iff⟩

/-- One call with other options returns alike and leaves the log with those options. -/
theorem nextEvent_withOptions (l : Log) (options : LogOptions) :
    ResultsAlike Event.DecodedAlike (l.nextEvent ext).1 ((l.withOptions options).nextEvent ext).1 ∧
      ((l.withOptions options).nextEvent ext).2 = (l.nextEvent ext).2.withOptions options := by
  cases hf : l.failed
  · rw [nextEvent_of_not_failed hf, nextEvent_of_not_failed (l := l.withOptions options) hf]
    obtain ⟨hres, hst⟩ := @Stream.readNextEvent_withOptions ext l.stream options
    rw [show (l.withOptions options).stream = l.stream.withOptions options from rfl]
    generalize l.stream.readNextEvent ext = x at hres hst ⊢
    generalize (l.stream.withOptions options).readNextEvent ext = y at hres hst ⊢
    obtain ⟨rx, st'⟩ := x
    obtain ⟨ry, st''⟩ := y
    obtain rfl : st'' = st'.withOptions options := hst
    rcases ResultsAlike.cases hres with ⟨f, rfl, rfl⟩ | ⟨⟨ev, t⟩, ⟨ev', t'⟩, rfl, rfl, h⟩
    · rcases f with err | msg <;> exact ⟨rfl, rfl⟩
    · dsimp only at h ⊢
      refine ⟨?_, ?_⟩
      · exact decodedAlike_numbered h l.indexTracker l.algorithms
      · simp only [Log.withOptions, h.pcrIndex_eq]
  · rw [nextEvent_of_failed hf, nextEvent_of_failed (l := l.withOptions options) hf]
    exact ⟨rfl, rfl⟩

/-- Calls with other options return alike, call after call. -/
theorem nextEvents_withOptions (k : Nat) (l : Log) (options : LogOptions) :
    List.Forall₂ (ResultsAlike Event.DecodedAlike) (l.nextEvents ext k).1
        ((l.withOptions options).nextEvents ext k).1 ∧
      ((l.withOptions options).nextEvents ext k).2 = (l.nextEvents ext k).2.withOptions options := by
  induction k generalizing l with
  | zero => exact ⟨.nil, rfl⟩
  | succ k ih =>
    obtain ⟨hres, hstep⟩ := @nextEvent_withOptions ext l options
    obtain ⟨hrest, hend⟩ := ih (l.nextEvent ext).2
    simp only [nextEvents_succ, hstep]
    exact ⟨.cons hres hrest, hend⟩

/-- Outside a Spec ID event and a Spec ID error, `newLogFromReader` sees an unknown spec. -/
theorem firstEventSpec_of_not_specId {x : EventData} (hx : ∀ d, x ≠ .specIdEventData d)
    (hn : (firstEventSpec x).2.2 = none) : firstEventSpec x = (.specUnknown, [], none) := by
  unfold firstEventSpec at hn ⊢
  split
  · next d => exact absurd rfl (hx d)
  · cases hn
  · rfl

/-- Outside a Spec ID error, the first event's data gives `newLogFromReader` a spec and sizes
only through a Spec ID event. -/
theorem firstEventSpec_eq_of_specId_iff {x y : EventData}
    (hiff : ∀ d, x = .specIdEventData d ↔ y = .specIdEventData d)
    (hx : (firstEventSpec x).2.2 = none) (hy : (firstEventSpec y).2.2 = none) :
    firstEventSpec x = firstEventSpec y := by
  by_cases hs : ∃ d, x = .specIdEventData d
  · obtain ⟨d, rfl⟩ := hs
    rw [(hiff d).mp rfl]
  · push_neg at hs
    rw [firstEventSpec_of_not_specId hs hx,
      firstEventSpec_of_not_specId (fun d hd => hs d ((hiff d).mpr hd)) hy]

/-- Two logs `newLogFromReader` opens over one source with different options differ only in the
options their stream holds. -/
theorem newLogFromReader_withOptions {r : Source} {options options' : LogOptions} {l l' : Log}
    (h : newLogFromReader ext r options = .ok l) (h' : newLogFromReader ext r options' = .ok l') :
    l' = l.withOptions options' := by
  unfold newLogFromReader at h h'
  rcases @readNextEvent_decodedAlike ext options options' r with
    ⟨e, s', hx, hy⟩ | ⟨⟨ev, t⟩, ⟨ev', t'⟩, s', hx, hy, hev⟩
  · rw [hx] at h
    rcases e <;> cases h
  · rw [hx] at h
    rw [hy] at h'
    dsimp only at h h'
    have hx' : (firstEventSpec ev.data).2.2 = none := by
      revert h; rcases firstEventSpec ev.data with ⟨_, _, _ | _⟩ <;> simp
    have hy' : (firstEventSpec ev'.data).2.2 = none := by
      revert h'; rcases firstEventSpec ev'.data with ⟨_, _, _ | _⟩ <;> simp
    rw [← firstEventSpec_eq_of_specId_iff hev.specId_iff hx' hy'] at h'
    revert h h'
    rcases firstEventSpec ev.data with ⟨spec, sizes, _ | err⟩
    · dsimp only
      split_ifs <;> rintro ⟨⟩ ⟨⟩ <;> rfl
    · rintro ⟨⟩

end Logs

/-- `EnableGrub` changes nothing but how event data is decoded. Two logs `newLogFromReader`
opens over one source with different options differ only in the options their stream holds,
and over any number of calls each call returns the same fault on both, or events with the same
index, PCR, event type and digests whose data is the same Spec ID event if either is one. -/
theorem options_only_change_event_data (r : Source) (options options' : LogOptions) (l l' : Log)
    (hopen : newLogFromReader ext r options = .ok l) (hopen' : newLogFromReader ext r options' = .ok l')
    (k : Nat) :
    l' = l.withOptions options' ∧
      List.Forall₂ (ResultsAlike Event.DecodedAlike) (l.nextEvents ext k).1 (l'.nextEvents ext k).1 := by
  obtain rfl := newLogFromReader_withOptions hopen hopen'
  exact ⟨rfl, (nextEvents_withOptions k l options').1⟩

/-- A GRUB command measured as an `EV_ACTION` string on PCR 8. -/
def grubCmdRecord : PCClientPCREvent where
  pcrIndex := 8
  eventType := eventTypeAction
  digest := List.replicate 20 0
  event := ascii "grub_cmd: x"
  digest_length := rfl
  event_length := by decide

theorem options_only_change_event_data_grubCmd :
    ∃ l l', newLogFromReader zeroExternals (bytesReader grubCmdRecord.encode) {} = .ok l ∧
      newLogFromReader zeroExternals (bytesReader grubCmdRecord.encode) { enableGrub := true } =
        .ok l' ∧
      l' = l.withOptions { enableGrub := true } ∧
      List.Forall₂ (ResultsAlike Event.DecodedAlike) (l.nextEvents zeroExternals 1).1
        (l'.nextEvents zeroExternals 1).1 := by
  refine ⟨_, _, rfl, rfl, options_only_change_event_data zeroExternals (bytesReader grubCmdRecord.encode)
    {} { enableGrub := true } _ _ ?_ ?_ 1⟩ <;> rfl

/-- The first `NextEvent` call reads again the record `newLogFromReader` read to choose the
reader, from the offset it returned to, and returns the event read there, numbered 0 and
back-filled if it is a Spec ID event. A crypto-agile stream reads that record with zero options,
which decode a Spec ID event as any options do. The re-read is chunked as the first read was
because a `Source`'s chunking depends on the offset and the requested length only. -/
theorem first_nextEvent_is_opening_event (r : Source) (options : LogOptions) (l₀ : Log)
    (hopen : newLogFromReader ext r options = .ok l₀) :
    ∃ event t r', Stream_1_2.readNextEvent ext options r = .ok (event, t) r' ∧
      (l₀.nextEvent ext).1 = .ok (if isSpecIdEvent event then
        fixupSpecIdEvent { event with index := 0 } l₀.algorithms else { event with index := 0 }) := by
  obtain ⟨event, t, r', hread, L, hspec, hagile, hlegacy⟩ := newLogFromReader_ok ext hopen
  obtain ⟨hf, htracker⟩ := newLogFromReader_fresh ext hopen
  refine ⟨event, t, r', hread, ?_⟩
  rw [nextEvent_of_not_failed hf, htracker]
  by_cases hs : l₀.spec = .specEFI_2
  · obtain ⟨d, hd, -⟩ := firstEventSpec_efi2 (hs ▸ hspec)
    rw [(hagile hs).2]
    simp only [Stream.readNextEvent, Stream_2.readNextEvent, Bool.not_false, if_true,
      readNextEvent_default_of_specId ext hread hd, toPair, Option.getD_none]
  · rw [(hlegacy hs).2]
    simp only [Stream.readNextEvent, hread, toPair, Option.getD_none]

theorem first_nextEvent_is_opening_event_actionEvent :
    ∃ l, newLogFromReader zeroExternals (bytesReader actionEvent.encode) {} = .ok l ∧
      ∃ event t r', Stream_1_2.readNextEvent zeroExternals {} (bytesReader actionEvent.encode) =
          .ok (event, t) r' ∧
        (l.nextEvent zeroExternals).1 = .ok (if isSpecIdEvent event then
          fixupSpecIdEvent { event with index := 0 } l.algorithms else { event with index := 0 }) :=
  ⟨_, rfl, first_nextEvent_is_opening_event zeroExternals (bytesReader actionEvent.encode) {} _ rfl⟩

end TcgLog
