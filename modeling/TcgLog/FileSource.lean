import TcgLog.Chunking
import TcgLog.EventInvariant

/-! `NewLogFromFile` against `NewLogFromByteReader`. Both call `newLogFromReader`; they differ only
in how the source hands out its bytes. Every read of the log reader goes through `io.ReadFull`
or `binary.Read` but one, the single `Read` of a legacy SHA-1 digest, so the two agree on the same
bytes whenever a 20-byte `Read` of the file hands back all 20 bytes there are (a regular file's
does). `ChunkFreeOn P x` says that `x` gives the same result and stops at the same offset under
any two chunkings satisfying `P`; it is built from `ChunkFree` and one rule for that `Read`. Over
a run: under such chunkings `newLogFromReader` opens the same log, and every call returns the
same result and leaves the log at the same place. -/

namespace TcgLog

variable (ext : Externals)

/-- A chunking under which a 20-byte `Read` hands back all 20 bytes that are left. -/
def WholeDigestReads (c : Nat → Nat → Nat) : Prop := ∀ o, 20 ≤ c o 20

theorem wholeDigestReads_fullChunks : WholeDigestReads fullChunks := fun _ => le_refl 20

@[simp] theorem Source.withChunk_chunk (s : Source) : s.withChunk s.chunk = s := rfl

/-- `x` gives the same result, and stops at the same offset, under any two chunkings
satisfying `P`. -/
def ChunkFreeOn (P : (Nat → Nat → Nat) → Prop) {ε α : Type} (x : EStateM ε Source α) : Prop :=
  ∀ s c, P s.chunk → P c → x (s.withChunk c) = withChunkResult c (x s)

section ChunkFreeOn

variable {P : (Nat → Nat → Nat) → Prop} {ε α β : Type}

theorem ChunkFree.on {x : EStateM ε Source α} (hx : ChunkFree x) : ChunkFreeOn P x :=
  fun s c _ _ => hx s c

/-- A step keeps the chunking of its source: it is one of those it is the same under. -/
theorem ChunkFreeOn.chunk_toPair {x : EStateM ε Source α} (hx : ChunkFreeOn P x) {s : Source}
    (hs : P s.chunk) : (toPair (x s)).2.chunk = s.chunk := by
  have h := congrArg (fun r => (toPair r).2.chunk) (hx s s.chunk hs hs)
  simp only [Source.withChunk_chunk] at h
  rw [h]
  cases x s <;> rfl

theorem ChunkFreeOn.bind {x : EStateM ε Source α} {f : α → EStateM ε Source β}
    (hx : ChunkFreeOn P x) (hf : ∀ a, ChunkFreeOn P (f a)) : ChunkFreeOn P (x >>= f) := by
  intro s c hs hc
  rw [run_bind, run_bind, hx s c hs hc]
  cases h : x s with
  | ok a s' =>
    have hchunk : s'.chunk = s.chunk := by simpa only [h, toPair] using hx.chunk_toPair hs
    exact hf a s' c (hchunk ▸ hs) hc
  | error e s' => rfl

theorem ChunkFreeOn.adaptExcept {ε' : Type} {x : EStateM ε Source α} (f : ε → ε')
    (hx : ChunkFreeOn P x) : ChunkFreeOn P (EStateM.adaptExcept f x) := by
  intro s c hs hc
  rw [run_adaptExcept, run_adaptExcept, hx s c hs hc]
  cases x s <;> rfl

theorem ChunkFreeOn.ite {p : Prop} [Decidable p] {x y : EStateM ε Source α} (hx : ChunkFreeOn P x)
    (hy : ChunkFreeOn P y) : ChunkFreeOn P (if p then x else y) := by
  split <;> assumption

/-- The single `Read` of a 20-byte digest, under chunkings that hand back whole 20-byte reads. -/
theorem chunkFreeOn_readInto : ChunkFreeOn WholeDigestReads (readInto 20) := by
  refine ChunkFreeOn.bind (fun s c hs hc => ?_) fun _ => (chunkFree_pure _).on
  have hmin : ∀ c : Nat → Nat → Nat, WholeDigestReads c → min (max 1 (c s.off 20)) 20 = 20 :=
    fun c hc => by have := hc s.off; omega
  simp only [read, Source.rest_withChunk, hmin _ hs]
  simp only [Source.withChunk, hmin _ hc]
  split_ifs <;> rfl

end ChunkFreeOn

section Readers

variable {ext}

theorem chunkFreeOn_readNextEvent (options : LogOptions) :
    ChunkFreeOn WholeDigestReads (Stream_1_2.readNextEvent ext options) := by
  refine (chunkFree_logRead _ chunkFree_readUint32).on.bind fun _ => ?_
  refine ChunkFreeOn.ite ((chunkFree_throw _).on.bind fun _ => ?_) ((chunkFree_pure _).on.bind fun _ => ?_)
  all_goals
    refine (chunkFree_logRead _ chunkFree_readUint32).on.bind fun _ => ?_
    refine (chunkFreeOn_readInto.adaptExcept _).bind fun _ => ?_
    exact ((chunkFree_logRead _ chunkFree_readUint32).bind fun _ =>
      (chunkFree_logRead _ (chunkFree_readFull _)).bind fun _ =>
      (chunkFree_mayPanic _).bind fun _ => chunkFree_pure _).on

theorem chunkFreeOn_readNextEvent_2 (options : LogOptions) (L : List EFISpecIdEventAlgorithmSize)
    (readFirstEvent : Bool) :
    ChunkFreeOn WholeDigestReads (Stream_2.readNextEvent ext options L readFirstEvent) := by
  unfold Stream_2.readNextEvent
  refine ChunkFreeOn.ite (chunkFreeOn_readNextEvent {}) (ChunkFree.on ?_)
  refine (chunkFree_logRead _ chunkFree_readUint32).bind fun _ =>
    ChunkFree.ite ((chunkFree_throw _).bind fun _ => ?_) ((chunkFree_pure _).bind fun _ => ?_)
  all_goals
    refine (chunkFree_logRead _ chunkFree_readUint32).bind fun _ =>
      (chunkFree_logRead _ chunkFree_readUint32).bind fun _ =>
      (chunkFree_readDigests _ _ _).bind fun _ => ?_
    dsimp only
    split
    on_goal 1 => refine (chunkFree_throw _).bind fun _ => ?_
    on_goal 2 => refine (chunkFree_pure _).bind fun _ => ?_
    all_goals exact (chunkFree_logRead _ chunkFree_readUint32).bind fun _ =>
      (chunkFree_logRead _ (chunkFree_readFull _)).bind fun _ =>
      (chunkFree_firstAlgSize _).bind fun _ => (chunkFree_mayPanic _).bind fun _ => chunkFree_pure _

end Readers

/-! ## Logs -/

/-- The stream with its source under the chunking `c`. -/
def Stream.withChunk (c : Nat → Nat → Nat) : Stream → Stream
  | .stream_1_2 s => .stream_1_2 { s with r := s.r.withChunk c }
  | .stream_2 s => .stream_2 { s with r := s.r.withChunk c }

/-- The log with its stream's source under the chunking `c`. -/
def Log.withChunk (l : Log) (c : Nat → Nat → Nat) : Log :=
  { l with stream := l.stream.withChunk c }

section Logs

variable {ext}

theorem toPair_withChunkResult {α : Type} (c : Nat → Nat → Nat) (x : EStateM.Result Fault Source α) :
    toPair (withChunkResult c x) = ((toPair x).1, (toPair x).2.withChunk c) := by
  cases x <;> rfl

/-- A call under another whole-digest chunking returns the same and leaves the stream at the
same place; the chunking of the stream stays what it was. -/
theorem Stream.readNextEvent_withChunk {st : Stream} {c : Nat → Nat → Nat}
    (hst : WholeDigestReads st.source.chunk) (hc : WholeDigestReads c) :
    (st.withChunk c).readNextEvent ext =
        ((st.readNextEvent ext).1, (st.readNextEvent ext).2.withChunk c) ∧
      (st.readNextEvent ext).2.source.chunk = st.source.chunk := by
  cases st with
  | stream_1_2 s =>
    have hx := @chunkFreeOn_readNextEvent ext s.options
    refine ⟨?_, hx.chunk_toPair hst⟩
    simp only [Stream.withChunk, Stream.readNextEvent, hx s.r c hst hc, toPair_withChunkResult]
  | stream_2 s =>
    have hx := @chunkFreeOn_readNextEvent_2 ext s.options s.algSizes s.readFirstEvent
    refine ⟨?_, hx.chunk_toPair hst⟩
    simp only [Stream.withChunk, Stream.readNextEvent, hx s.r c hst hc, toPair_withChunkResult]

/-- One call under another whole-digest chunking returns the same and leaves the log at the same
place. -/
theorem nextEvent_withChunk {l : Log} {c : Nat → Nat → Nat}
    (hl : WholeDigestReads l.stream.source.chunk) (hc : WholeDigestReads c) :
    (l.withChunk c).nextEvent ext = ((l.nextEvent ext).1, (l.nextEvent ext).2.withChunk c) ∧
      (l.nextEvent ext).2.stream.source.chunk = l.stream.source.chunk := by
  cases hf : l.failed
  · rw [nextEvent_of_not_failed hf, nextEvent_of_not_failed (l := l.withChunk c) hf]
    obtain ⟨hread, hchunk⟩ := @Stream.readNextEvent_withChunk ext _ _ hl hc
    rw [show (l.withChunk c).stream = l.stream.withChunk c from rfl, hread]
    generalize l.stream.readNextEvent ext = x at hchunk ⊢
    rcases x with ⟨(⟨err⟩ | ⟨msg⟩) | ⟨ev, t⟩, st'⟩ <;> exact ⟨rfl, hchunk⟩
  · rw [nextEvent_of_failed hf, nextEvent_of_failed (l := l.withChunk c) hf]
    exact ⟨rfl, rfl⟩

/-- Calls under another whole-digest chunking return the same, call after call. -/
theorem nextEvents_withChunk (k : Nat) {l : Log} {c : Nat → Nat → Nat}
    (hl : WholeDigestReads l.stream.source.chunk) (hc : WholeDigestReads c) :
    (l.withChunk c).nextEvents ext k = ((l.nextEvents ext k).1, (l.nextEvents ext k).2.withChunk c) := by
  induction k generalizing l with
  | zero => rfl
  | succ k ih =>
    obtain ⟨hstep, hchunk⟩ := @nextEvent_withChunk ext _ _ hl hc
    rw [nextEvents_succ, nextEvents_succ, hstep]
    dsimp only
    rw [ih (hchunk ▸ hl)]

/-- `newLogFromReader` opens the same log under another whole-digest chunking. -/
theorem newLogFromReader_withChunk {r : Source} {c : Nat → Nat → Nat} (options : LogOptions)
    (hr : WholeDigestReads r.chunk) (hc : WholeDigestReads c) :
    newLogFromReader ext (r.withChunk c) options = (newLogFromReader ext r options).map (·.withChunk c) := by
  unfold newLogFromReader
  rw [chunkFreeOn_readNextEvent options r c hr hc]
  rcases Stream_1_2.readNextEvent ext options r with ⟨⟨event, t⟩, r'⟩ | ⟨f | msg, r'⟩
  · dsimp only [withChunkResult]
    split
    · rfl
    · split_ifs <;> rfl
  · rfl
  · rfl

end Logs

/-- `NewLogFromFile` agrees with `NewLogFromByteReader`: over the same bytes, two sources whose
20-byte `Read`s hand back all 20 bytes left open the same log or fail alike, and every
`NextEvent` call on the two logs returns the same result and leaves them at the same place. -/
theorem logs_agree_under_whole_digest_reads (r : Source) (c : Nat → Nat → Nat)
    (options : LogOptions) (hr : WholeDigestReads r.chunk) (hc : WholeDigestReads c) :
    newLogFromReader ext (r.withChunk c) options = (newLogFromReader ext r options).map (·.withChunk c) ∧
      ∀ l k, newLogFromReader ext r options = .ok l →
        (l.withChunk c).nextEvents ext k = ((l.nextEvents ext k).1, (l.nextEvents ext k).2.withChunk c) := by
  refine ⟨newLogFromReader_withChunk options hr hc, fun l k hopen => nextEvents_withChunk k ?_ hc⟩
  obtain ⟨-, -, -, -, L, -, hagile, hlegacy⟩ := newLogFromReader_ok ext hopen
  by_cases hs : l.spec = .specEFI_2
  · rw [(hagile hs).2]; exact hr
  · rw [(hlegacy hs).2]; exact hr

theorem logs_agree_under_whole_digest_reads_pageReads :
    WholeDigestReads (bytesReader actionEvent.encode).chunk ∧ WholeDigestReads (fun _ _ => 4096) ∧
      newLogFromReader zeroExternals ((bytesReader actionEvent.encode).withChunk fun _ _ => 4096) {} =
        (newLogFromReader zeroExternals (bytesReader actionEvent.encode) {}).map
          (·.withChunk fun _ _ => 4096) ∧
      ∀ l k, newLogFromReader zeroExternals (bytesReader actionEvent.encode) {} = .ok l →
        (l.withChunk fun _ _ => 4096).nextEvents zeroExternals k =
          ((l.nextEvents zeroExternals k).1, (l.nextEvents zeroExternals k).2.withChunk fun _ _ => 4096) :=
  ⟨wholeDigestReads_fullChunks, fun _ => (by decide : 20 ≤ 4096),
    logs_agree_under_whole_digest_reads zeroExternals _ _ {} wholeDigestReads_fullChunks
      fun _ => (by decide : 20 ≤ 4096)⟩

end TcgLog
