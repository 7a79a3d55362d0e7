import TcgLog.Records

/-! How the readers depend on the way a source hands out its bytes. `io.ReadFull` loops until its
buffer is full, so a read through it sees the same bytes and ends at the same offset under every
chunking the `io.Reader` contract allows, and so does every `stream_2` record after the first. The
SHA-1 digest of a `TCG_PCClientPCREventStruct` is read with one plain `Read`: a source that hands
back fewer than 20 bytes there leaves the rest of the buffer zero, and `stream_1_2` reads the event
size from the middle of the digest. -/

namespace TcgLog

variable (ext : Externals)

/-- The source under another chunking policy: the same bytes at the same offset. -/
def Source.withChunk (s : Source) (c : Nat → Nat → Nat) : Source := { s with chunk := c }

@[simp] theorem Source.rest_withChunk (s : Source) (c : Nat → Nat → Nat) :
    (s.withChunk c).rest = s.rest := rfl

/-- A result with its source put under the chunking `c`. -/
def withChunkResult {ε α : Type} (c : Nat → Nat → Nat) :
    EStateM.Result ε Source α → EStateM.Result ε Source α
  | .ok a s => .ok a (s.withChunk c)
  | .error e s => .error e (s.withChunk c)

/-- A computation whose result, and the offset it leaves, are the same under every chunking. -/
def ChunkFree {ε α : Type} (x : EStateM ε Source α) : Prop :=
  ∀ s c, x (s.withChunk c) = withChunkResult c (x s)

section ChunkFree

variable {ε ε' α β : Type}

theorem ChunkFree.bind {x : EStateM ε Source α} {f : α → EStateM ε Source β} (hx : ChunkFree x)
    (hf : ∀ a, ChunkFree (f a)) : ChunkFree (x >>= f) := by
  intro s c
  rw [run_bind, run_bind, hx]
  cases x s with
  | ok a s' => exact hf a s' c
  | error e s' => rfl

theorem chunkFree_pure (a : α) : ChunkFree (pure a : EStateM ε Source α) := fun _ _ => rfl

theorem chunkFree_throw (e : ε) : ChunkFree (throw e : EStateM ε Source α) := fun _ _ => rfl

theorem ChunkFree.map {x : EStateM ε Source α} (f : α → β) (hx : ChunkFree x) :
    ChunkFree (f <$> x) := by
  intro s c
  rw [run_map, run_map, hx]
  cases x s <;> rfl

theorem ChunkFree.adaptExcept {x : EStateM ε Source α} (f : ε → ε') (hx : ChunkFree x) :
    ChunkFree (EStateM.adaptExcept f x) := by
  intro s c
  rw [run_adaptExcept, run_adaptExcept, hx]
  cases x s <;> rfl

theorem ChunkFree.ite {p : Prop} [Decidable p] {x y : EStateM ε Source α} (hx : ChunkFree x)
    (hy : ChunkFree y) : ChunkFree (if p then x else y) := by
  split <;> assumption

/-- `io.ReadFull` reads the same bytes whatever the chunking. -/
theorem chunkFree_readFull (n : Nat) : ChunkFree (readFull n) := by
  intro s c
  simp only [readFull_eq, Source.rest_withChunk]
  split_ifs <;> rfl

theorem chunkFree_readUint32 : ChunkFree readUint32 := (chunkFree_readFull 4).map _

theorem chunkFree_readUint16 : ChunkFree readUint16 := (chunkFree_readFull 2).map _

theorem chunkFree_logRead {x : IoM α} (b : Bool) (hx : ChunkFree x) : ChunkFree (logRead b x) :=
  hx.adaptExcept _

theorem chunkFree_mayPanic (r : Except String α) : ChunkFree (mayPanic r) := by
  cases r with
  | error msg => exact chunkFree_throw _
  | ok a => exact chunkFree_pure a

theorem chunkFree_firstAlgSize (L : List EFISpecIdEventAlgorithmSize) :
    ChunkFree (firstAlgSize L) := by
  cases L with
  | nil => exact chunkFree_throw _
  | cons a _ => exact chunkFree_pure a

theorem chunkFree_readDigests (L : List EFISpecIdEventAlgorithmSize) (n : Nat) (m : DigestMap) :
    ChunkFree (readDigests L n m) := by
  induction n generalizing m with
  | zero => exact chunkFree_pure m
  | succ n ih =>
    refine (chunkFree_logRead _ chunkFree_readUint16).bind fun a => ?_
    split
    · refine (chunkFree_logRead _ (chunkFree_readFull _)).bind fun _ => ?_
      exact ChunkFree.ite ((chunkFree_throw _).bind fun _ => ih _) ((chunkFree_pure _).bind fun _ => ih _)
    · exact chunkFree_throw _

end ChunkFree

/-- After its first record, `stream_2` reads every field with `io.ReadFull`: its result and the
offset it leaves are the same under every chunking of the source. -/
theorem readNextEvent_2_chunkFree (options : LogOptions) (L : List EFISpecIdEventAlgorithmSize) :
    ChunkFree (Stream_2.readNextEvent ext options L true) := by
  refine (chunkFree_logRead _ chunkFree_readUint32).bind fun _ => ?_
  refine ChunkFree.ite ((chunkFree_throw _).bind fun _ => ?_) ((chunkFree_pure _).bind fun _ => ?_)
  all_goals
    refine (chunkFree_logRead _ chunkFree_readUint32).bind fun _ =>
      (chunkFree_logRead _ chunkFree_readUint32).bind fun _ =>
      (chunkFree_readDigests _ _ _).bind fun _ => ?_
    dsimp only
    split
    on_goal 1 => refine (chunkFree_throw _).bind fun _ => ?_
    on_goal 2 => refine (chunkFree_pure _).bind fun _ => ?_
    all_goals exact (chunkFree_logRead _ chunkFree_readUint32).bind fun _ =>
      (chunkFree_logRead _ (chunkFree_readFull _)).bind fun _ =>
      (chunkFree_firstAlgSize _).bind fun _ => (chunkFree_mayPanic _).bind fun _ => chunkFree_pure _

/-- A source that hands back `k < 20` bytes when `stream_1_2` reads a record's digest: the reader
does not return what a `bytes.Reader` over the same bytes gives, as soon as the digest has a nonzero
byte after its first `k`. -/
theorem readNextEvent_short_digest {s : Source} {r : PCClientPCREvent} {tail : Bytes} {k : Nat}
    (options : LogOptions) (hs : s.rest = r.encode ++ tail) (hpcr : r.pcrIndex ≤ 31)
    (hk : s.chunk (s.off + 8) 20 = k) (hk0 : 0 < k) (hk20 : k < 20)
    (hd : r.digest.drop k ≠ List.replicate (20 - k) 0) :
    (toPair (Stream_1_2.readNextEvent ext options s)).1 ≠
      (toPair (Stream_1_2.readNextEvent ext options (s.withChunk fullChunks))).1 := by
  rw [readNextEvent_encode (s := s.withChunk fullChunks) options rfl hs hpcr]
  have h0 : s.rest = le32 r.pcrIndex ++ (le32 r.eventType ++ (r.digest ++
      (le32 (UInt32.ofNat r.event.length) ++ (r.event ++ tail)))) := by
    simp [hs, PCClientPCREvent.encode]
  have h1 := rest_skip_append h0 (length_le32 _)
  have h2 := rest_skip_append h1 (length_le32 _)
  have hpcr' : isPCRIndexInRange r.pcrIndex = true := by simpa [isPCRIndexInRange] using hpcr
  have h20 : ((knownAlgorithms algorithmSha1).getD 0).toNat = 20 := rfl
  have hdig : readInto 20 ((s.skip 4).skip 4) =
      .ok (r.digest.take k ++ List.replicate (20 - k) 0) (((s.skip 4).skip 4).skip k) := by
    have := readInto_of_chunk (s := (s.skip 4).skip 4) (n := 20) (by simpa [Nat.add_assoc] using hk)
      hk0 hk20.le (by rw [h2]; simp [r.digest_length]; omega)
    rwa [h2, List.take_append_of_le_length (by rw [r.digest_length]; omega)] at this
  simp only [Stream_1_2.readNextEvent, run_bind, logRead, run_adaptExcept, readUint32_append h0,
    readUint32_append h1, hpcr', Bool.not_true, Bool.false_eq_true, if_false, run_pure, h20, hdig]
  rcases hA : readUint32 (((s.skip 4).skip 4).skip k) with ⟨size, s4⟩ | ⟨e, s4⟩ <;> simp only [hA]
  · rcases hB : readFull size.toNat s4 with ⟨event, s5⟩ | ⟨e, s5⟩ <;> simp only [hB]
    · simp only [isDigestOfSeparatorErrorValue_sha1, mayPanic_ok, run_pure, toPair, ne_eq,
        Except.ok.injEq, Prod.mk.injEq, not_and]
      intro hev
      have := congrArg (fun ev => ev.digests algorithmSha1) hev
      simp [PCClientPCREvent.toEvent] at this
      exact absurd (by rw [← this, List.drop_left' (by simp [r.digest_length]; omega)]) hd
    · simp [toPair]
  · simp [toPair]

/-- A reader that hands back one byte per `Read`, as the `io.Reader` contract allows. -/
def oneByteReader (b : Bytes) : Source := ⟨b, 0, fun _ _ => 1⟩

/-- A record whose digest has a nonzero byte after its first. -/
def splitDigestRecord : PCClientPCREvent :=
  ⟨0, eventTypeAction, [1, 2] ++ List.replicate 18 0, [], by decide, by decide⟩

theorem readNextEvent_short_digest_oneByte :
    (toPair (Stream_1_2.readNextEvent zeroExternals {} (oneByteReader splitDigestRecord.encode))).1 ≠
      (toPair (Stream_1_2.readNextEvent zeroExternals {}
        ((oneByteReader splitDigestRecord.encode).withChunk fullChunks))).1 :=
  readNextEvent_short_digest zeroExternals (k := 1) {} (List.append_nil _).symm (by decide) rfl
    (by decide) (by decide) (by decide)

end TcgLog
