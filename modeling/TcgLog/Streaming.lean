import TcgLog.RoundTrip

/-! The log reader reads no further than the records it returns. `NoLookahead x` says that
whatever `x` returns from a source, it returns again, stopping at the same offset, when more bytes
follow the data; as `Returns` is, it is built from a bind rule and one rule per primitive.
`io.ReadFull` and `binary.Read` have it outright. The single `Read` of the legacy digest has it
only where it stops before the end of the data, and there a `binary.Read` of the event size
follows, so `stream_1_2` has it as a whole. Over a run: bytes written after a log's data change
neither `newLogFromReader` nor any event a `NextEvent` call returned, whatever the chunking. -/

namespace TcgLog

variable (ext : Externals)

/-- The source with `e` written after its data. -/
def Source.append (s : Source) (e : Bytes) : Source := { s with data := s.data ++ e }

namespace Source

@[simp] theorem skip_append (s : Source) (e : Bytes) (n : Nat) :
    (s.append e).skip n = (s.skip n).append e := rfl

@[simp] theorem off_append (s : Source) (e : Bytes) : (s.append e).off = s.off := rfl

@[simp] theorem chunk_append (s : Source) (e : Bytes) : (s.append e).chunk = s.chunk := rfl

theorem rest_append (s : Source) (e : Bytes) :
    (s.append e).rest = s.rest ++ e.drop (s.off - s.data.length) :=
  List.drop_append_eq_append_drop

/-- What a source had left starts what it has left once more bytes follow its data. -/
theorem take_rest_append {s : Source} {n : Nat} (h : n ≤ s.rest.length) (e : Bytes) :
    (s.append e).rest.take n = s.rest.take n := by
  rw [rest_append, List.take_append_of_le_length h]

theorem length_rest_le_append (s : Source) (e : Bytes) : s.rest.length ≤ (s.append e).rest.length := by
  rw [rest_append, List.length_append]
  exact Nat.le_add_right _ _

end Source

/-- Whatever `x` returns from a source, it returns again, stopping at the same offset, when more
bytes follow the data. -/
def NoLookahead {ε α : Type} (x : EStateM ε Source α) : Prop :=
  ∀ s a s' e, x s = .ok a s' → x (s.append e) = .ok a (s'.append e)

section NoLookahead

variable {ε ε' α β : Type}

theorem NoLookahead.bind {x : EStateM ε Source α} {f : α → EStateM ε Source β} (hx : NoLookahead x)
    (hf : ∀ a, NoLookahead (f a)) : NoLookahead (x >>= f) := by
  intro s b s' e h
  rw [run_bind] at h ⊢
  cases hxs : x s with
  | ok a s₁ => rw [hxs] at h; rw [hx s a s₁ e hxs]; exact hf a _ _ _ e h
  | error e₁ s₁ => rw [hxs] at h; cases h

theorem noLookahead_pure (a : α) : NoLookahead (pure a : EStateM ε Source α) := by
  intro s a' s' e h
  cases h
  rfl

theorem noLookahead_throw (e : ε) : NoLookahead (throw e : EStateM ε Source α) := fun _ _ _ _ h => by
  cases h

theorem NoLookahead.map {x : EStateM ε Source α} (f : α → β) (hx : NoLookahead x) :
    NoLookahead (f <$> x) := by
  intro s b s' e h
  rw [run_map] at h ⊢
  cases hxs : x s with
  | ok a s₁ => rw [hxs] at h; cases h; rw [hx _ _ _ e hxs]
  | error e₁ s₁ => rw [hxs] at h; cases h

theorem NoLookahead.adaptExcept {x : EStateM ε Source α} (g : ε → ε') (hx : NoLookahead x) :
    NoLookahead (EStateM.adaptExcept g x) := by
  intro s a s' e h
  rw [run_adaptExcept] at h ⊢
  cases hxs : x s with
  | ok a₁ s₁ => rw [hxs] at h; cases h; rw [hx _ _ _ e hxs]
  | error e₁ s₁ => rw [hxs] at h; cases h

/-- `if b then return err` before the rest of a method. -/
theorem noLookahead_guard {b : Bool} {e : ε} {k : PUnit → EStateM ε Source α}
    (hk : NoLookahead (k ())) : NoLookahead (if b = true then throw e >>= k else pure () >>= k) := by
  split
  · exact fun _ _ _ _ h => by cases h
  · exact hk

theorem noLookahead_readFull (n : Nat) : NoLookahead (readFull n) := by
  intro s a s' e h
  rw [readFull_eq] at h
  split_ifs at h with hn
  cases h
  rw [readFull_eq, if_pos (hn.trans (s.length_rest_le_append e)), Source.take_rest_append hn]
  rfl

theorem noLookahead_readUint16 : NoLookahead readUint16 := (noLookahead_readFull 2).map _

theorem noLookahead_readUint32 : NoLookahead readUint32 := (noLookahead_readFull 4).map _

theorem noLookahead_logRead {x : IoM α} (b : Bool) (hx : NoLookahead x) :
    NoLookahead (logRead b x) :=
  hx.adaptExcept _

theorem noLookahead_mayPanic (r : Except String α) : NoLookahead (mayPanic r) := by
  cases r with
  | error msg => exact noLookahead_throw _
  | ok a => exact noLookahead_pure a

theorem noLookahead_firstAlgSize (L : List EFISpecIdEventAlgorithmSize) :
    NoLookahead (firstAlgSize L) := by
  cases L with
  | nil => exact noLookahead_throw _
  | cons a _ => exact noLookahead_pure a

end NoLookahead

/-! ## The legacy digest `Read` -/

/-- A single `Read` that stops before the end of the data got all it asked for within what was
left, so more bytes after the data change nothing. -/
theorem read_append {n : Nat} {s s' : Source} {got : Bytes} (h : read n s = .ok got s')
    (hs' : s'.rest ≠ []) (e : Bytes) : read n (s.append e) = .ok got (s'.append e) := by
  simp only [read] at h
  split_ifs at h with h0
  cases h
  have hlt : min (max 1 (s.chunk s.off n)) n ≤ s.rest.length := by
    by_contra hgt
    rw [List.take_of_length_le (Nat.le_of_not_le hgt), Source.rest_skip, List.drop_length] at hs'
    exact hs' rfl
  have h0' : (s.append e).rest ≠ [] := fun h' => h0 <| List.eq_nil_of_length_eq_zero <| by
    have := s.length_rest_le_append e
    rw [h', List.length_nil] at this
    omega
  simp only [read, if_neg h0', Source.chunk_append, Source.off_append, Source.take_rest_append hlt]
  rfl

/-- A `binary.Read` of a `uint32` returns only from a source with a byte left. -/
theorem rest_ne_nil_of_readUint32_bind {b : Bool} {g : UInt32 → ReadM β} {s s' : Source} {v : β}
    (h : (logRead b readUint32 >>= g) s = .ok v s') : s.rest ≠ [] := by
  intro h0
  simp [logRead, readUint32, readFull_eq, h0] at h

/-- The digest `Read` of `stream_1_2` followed by a `binary.Read` of the event size. -/
theorem noLookahead_readInto_bind {n : Nat} {g : Bytes → ReadM β} (hg : ∀ d, NoLookahead (g d))
    (hne : ∀ d s v s', g d s = .ok v s' → s.rest ≠ []) :
    NoLookahead (logRead true (readInto n) >>= g) := by
  intro s v s'' e h
  simp only [logRead, readInto, run_bind, run_adaptExcept, run_pure] at h ⊢
  cases hr : read n s with
  | error e₁ s₁ => simp only [hr] at h; cases h
  | ok got s₁ =>
    simp only [hr] at h
    simp only [read_append hr (hne _ _ _ _ h) e]
    exact hg _ _ _ _ e h

/-! ## The readers -/

theorem noLookahead_readDigests (L : List EFISpecIdEventAlgorithmSize) (n : Nat) (m : DigestMap) :
    NoLookahead (readDigests L n m) := by
  induction n generalizing m with
  | zero => exact noLookahead_pure m
  | succ n ih =>
    refine (noLookahead_logRead _ noLookahead_readUint16).bind fun a => ?_
    split
    · exact (noLookahead_logRead _ (noLookahead_readFull _)).bind fun _ => noLookahead_guard (ih _)
    · exact noLookahead_throw _

section Readers

variable {ext}

theorem noLookahead_readNextEvent (options : LogOptions) :
    NoLookahead (Stream_1_2.readNextEvent ext options) := by
  refine (noLookahead_logRead _ noLookahead_readUint32).bind fun _ => noLookahead_guard ?_
  refine (noLookahead_logRead _ noLookahead_readUint32).bind fun _ => ?_
  refine noLookahead_readInto_bind (fun _ => ?_) fun _ _ _ _ => rest_ne_nil_of_readUint32_bind
  refine (noLookahead_logRead _ noLookahead_readUint32).bind fun _ => ?_
  refine (noLookahead_logRead _ (noLookahead_readFull _)).bind fun _ => ?_
  exact (noLookahead_mayPanic _).bind fun _ => noLookahead_pure _

theorem noLookahead_readNextEvent_2 (options : LogOptions) (L : List EFISpecIdEventAlgorithmSize)
    (readFirstEvent : Bool) : NoLookahead (Stream_2.readNextEvent ext options L readFirstEvent) := by
  unfold Stream_2.readNextEvent
  split
  · exact noLookahead_readNextEvent {}
  refine (noLookahead_logRead _ noLookahead_readUint32).bind fun _ => noLookahead_guard ?_
  refine (noLookahead_logRead _ noLookahead_readUint32).bind fun _ => ?_
  refine (noLookahead_logRead _ noLookahead_readUint32).bind fun _ => ?_
  refine (noLookahead_readDigests L _ _).bind fun _ => ?_
  dsimp only
  split
  · exact fun _ _ _ _ h => by cases h
  refine (noLookahead_logRead _ noLookahead_readUint32).bind fun _ => ?_
  refine (noLookahead_logRead _ (noLookahead_readFull _)).bind fun _ => ?_
  refine (noLookahead_firstAlgSize L).bind fun _ => ?_
  exact (noLookahead_mayPanic _).bind fun _ => noLookahead_pure _

end Readers

/-! ## Logs -/

/-- The stream with `e` written after the data of its source. -/
def Stream.append (e : Bytes) : Stream → Stream
  | .stream_1_2 s => .stream_1_2 { s with r := s.r.append e }
  | .stream_2 s => .stream_2 { s with r := s.r.append e }

/-- The log with `e` written after the data of its stream's source. -/
def Log.append (l : Log) (e : Bytes) : Log := { l with stream := l.stream.append e }

section Logs

variable {ext}

theorem Stream.readNextEvent_append {st st' : Stream} {p : Event × Nat}
    (h : st.readNextEvent ext = (.ok p, st')) (e : Bytes) :
    (st.append e).readNextEvent ext = (.ok p, st'.append e) := by
  cases st with
  | stream_1_2 s =>
    simp only [Stream.readNextEvent] at h
    rcases hx : Stream_1_2.readNextEvent ext s.options s.r with ⟨p', r'⟩ | ⟨f, r'⟩ <;>
      simp only [hx, toPair, Prod.mk.injEq, Except.ok.injEq, reduceCtorEq, false_and] at h
    obtain ⟨rfl, rfl⟩ := h
    simp only [Stream.append, Stream.readNextEvent, noLookahead_readNextEvent _ _ _ _ e hx, toPair]
  | stream_2 s =>
    simp only [Stream.readNextEvent] at h
    rcases hx : Stream_2.readNextEvent ext s.options s.algSizes s.readFirstEvent s.r with
      ⟨p', r'⟩ | ⟨f, r'⟩ <;> simp only [hx, toPair, Prod.mk.injEq, Except.ok.injEq, reduceCtorEq, false_and] at h
    obtain ⟨rfl, rfl⟩ := h
    simp only [Stream.append, Stream.readNextEvent, noLookahead_readNextEvent_2 _ _ _ _ _ _ e hx,
      toPair]

/-- A `NextEvent` call that returns an event returns it again, and leaves the log at the same
place, when more bytes follow the data. -/
theorem nextEvent_append {l l' : Log} {ev : Event} (h : l.nextEvent ext = (.ok ev, l')) (e : Bytes) :
    (l.append e).nextEvent ext = (.ok ev, l'.append e) := by
  cases hf : l.failed
  · rw [nextEvent_of_not_failed hf] at h
    rw [nextEvent_of_not_failed (l := l.append e) hf]
    rcases hx : l.stream.readNextEvent ext with ⟨(⟨err⟩ | ⟨msg⟩) | ⟨event, t⟩, st'⟩ <;>
      simp only [hx, Prod.mk.injEq, reduceCtorEq, false_and, Except.ok.injEq] at h
    obtain ⟨rfl, rfl⟩ := h
    rw [show (l.append e).stream = l.stream.append e from rfl, Stream.readNextEvent_append hx]
    rfl
  · simp [nextEvent_of_failed hf] at h

/-- Calls that all return events return them again when more bytes follow the data. -/
theorem nextEvents_append (k : Nat) {l : Log} {evs : List Event}
    (h : (l.nextEvents ext k).1 = evs.map .ok) (e : Bytes) :
    (l.append e).nextEvents ext k = (evs.map .ok, (l.nextEvents ext k).2.append e) := by
  induction k generalizing l evs with
  | zero => cases evs <;> simp_all
  | succ k ih =>
    rw [nextEvents_succ] at h ⊢
    cases evs with
    | nil => cases h
    | cons ev evs =>
      obtain ⟨hev, hevs⟩ := List.cons.inj h
      rw [nextEvent_append (Prod.ext hev rfl) e, ih hevs]
      rfl

/-- `newLogFromReader` reads only the first record, so it opens the log alike when more bytes
follow the data. -/
theorem newLogFromReader_append {r : Source} {options : LogOptions} {l₀ : Log}
    (h : newLogFromReader ext r options = .ok l₀) (e : Bytes) :
    newLogFromReader ext (r.append e) options = .ok (l₀.append e) := by
  unfold newLogFromReader at h ⊢
  rcases hx : Stream_1_2.readNextEvent ext options r with ⟨⟨event, t⟩, r'⟩ | ⟨f, r'⟩
  · rw [hx] at h
    rw [noLookahead_readNextEvent options r _ r' e hx]
    dsimp only at h ⊢
    split at h
    · cases h
    · split_ifs at h ⊢ <;> cases h <;> rfl
  · rw [hx] at h
    rcases f <;> cases h

end Logs

/-- Bytes written after a log's data change nothing already read, whatever the chunking: if
`newLogFromReader` opens the log and the first `k` `NextEvent` calls return events, then over the
data with any bytes after it the log opens alike, and the first `k` calls return the same events
and leave the reader at the same place. -/
theorem nextEvents_no_lookahead (r : Source) (options : LogOptions) (l₀ : Log) (e : Bytes)
    (hopen : newLogFromReader ext r options = .ok l₀) (k : Nat) (evs : List Event)
    (hevs : (l₀.nextEvents ext k).1 = evs.map .ok) :
    newLogFromReader ext (r.append e) options = .ok (l₀.append e) ∧
      (l₀.append e).nextEvents ext k = (evs.map .ok, (l₀.nextEvents ext k).2.append e) :=
  ⟨newLogFromReader_append hopen e, nextEvents_append k hevs e⟩

theorem nextEvents_no_lookahead_actionEvent :
    ∃ l, newLogFromReader zeroExternals (bytesReader actionEvent.encode) {} = .ok l ∧
      (l.nextEvents zeroExternals 1).1 = [{ actionEvent.toEvent zeroExternals {} with index := 0 }].map .ok ∧
      newLogFromReader zeroExternals ((bytesReader actionEvent.encode).append [0]) {} =
        .ok (l.append [0]) ∧
      (l.append [0]).nextEvents zeroExternals 1 =
        ([{ actionEvent.toEvent zeroExternals {} with index := 0 }].map .ok,
          (l.nextEvents zeroExternals 1).2.append [0]) :=
  ⟨_, rfl, rfl, nextEvents_no_lookahead zeroExternals (bytesReader actionEvent.encode) {} _ [0] rfl 1 _ rfl⟩

end TcgLog
