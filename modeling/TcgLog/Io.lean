import TcgLog.Bytes

/-! The Go I/O the log readers are built on, by its documented contract. A source is a byte string
read from an offset; one `Read` hands back an arbitrary chunk of what is asked for (a
`bytes.Reader` hands back all of it), while `io.ReadFull` and `binary.Read` loop until the buffer is
full, so their result does not depend on the chunking. End of data is `io.EOF` when nothing was
read and `io.ErrUnexpectedEOF` when a fixed-size read got part of its bytes. Readers return their
error and leave the source where reading stopped; a runtime panic is a `Fault` of its own. -/

namespace TcgLog

/-- `AlgorithmId` (uint16). -/
abbrev AlgorithmId := UInt16

/-- `PCRIndex` (uint32). -/
abbrev PCRIndex := UInt32

/-- `EventType` (uint32). -/
abbrev EventType := UInt32

/-- The `error` values the modelled code returns, by the Go value or format that makes each. -/
inductive GoError where
  /-- `io.EOF` -/
  | eof
  /-- `io.ErrUnexpectedEOF` -/
  | unexpectedEOF
  /-- `fmt.Errorf("error when reading from log stream (%v)", origErr)`, made by `wrapLogReadError` -/
  | logStream (origErr : GoError)
  /-- `wrapPCRIndexOutOfRangeError` -/
  | pcrIndexOutOfRange (pcrIndex : PCRIndex)
  | unrecognizedAlgorithm (algorithmId : AlgorithmId)
  | duplicateDigestValue (algorithmId : AlgorithmId)
  | missingDigestValue (algorithmId : AlgorithmId)
  /-- `invalidSpecIdEventError{s}` -/
  | invalidSpecIdEvent (s : String)
  /-- the error `nextEventInternal` returns once the log has failed -/
  | logInconsistent
  /-- an error made by a subdecoder whose code is not in src/ -/
  | other (msg : String)
  deriving DecidableEq, Repr

/-- `err.Error()`. `%s` of an `AlgorithmId` goes through its `String` method, which is not in src/
and is taken as `algorithmIdString`. -/
def GoError.Error (algorithmIdString : AlgorithmId → String) : GoError → String
  | .eof => "EOF"
  | .unexpectedEOF => "unexpected EOF"
  | .logStream e => "error when reading from log stream (" ++ e.Error algorithmIdString ++ ")"
  | .pcrIndexOutOfRange i => "log entry has an out-of-range PCR index (" ++ toString i.toNat ++ ")"
  | .unrecognizedAlgorithm a =>
      "crypto-agile log entry contains a digest for an unrecognized algorithm (" ++
        algorithmIdString a ++ ")"
  | .duplicateDigestValue a =>
      "crypto-agile log entry contains more than one digest value for algorithm " ++
        algorithmIdString a
  | .missingDigestValue a =>
      "crypto-agile log entry is missing a digest value for algorithm " ++ algorithmIdString a ++
        " that was present in the Spec ID Event"
  | .invalidSpecIdEvent s => "invalid SpecIdEvent (" ++ s ++ ")"
  | .logInconsistent => "cannot read next event: log status inconsistent due to a previous error"
  | .other msg => msg

/-- How a stream method ends when it does not return: with an `error`, or with a runtime panic. -/
inductive Fault where
  | error (e : GoError)
  | panic (msg : String)
  deriving DecidableEq, Repr

/-- A byte source behind `io.ReadSeeker`: its bytes, the read offset, and how many bytes one `Read`
call hands back when asked for `n` at offset `off` (`chunk off n`, kept between one and what is
asked and left). The chunk depends on the offset and the requested length only, so a `Read` from
an offset it has read before is chunked as it was then; readers whose `Read` sizes depend on the
history of calls, which `io.Reader` allows, are not modelled. -/
structure Source where
  data : Bytes
  off : Nat
  chunk : Nat → Nat → Nat

namespace Source

/-- The bytes not read yet. -/
def rest (s : Source) : Bytes := s.data.drop s.off

/-- The source after `n` more bytes were read. -/
def skip (s : Source) (n : Nat) : Source := { s with off := s.off + n }

@[simp] theorem rest_skip (s : Source) (n : Nat) : (s.skip n).rest = s.rest.drop n := by
  simp [rest, skip, List.drop_drop, Nat.add_comm]

@[simp] theorem skip_zero (s : Source) : s.skip 0 = s := rfl

@[simp] theorem skip_skip (s : Source) (m n : Nat) : (s.skip m).skip n = s.skip (m + n) := by
  simp [skip, Nat.add_assoc]

@[simp] theorem data_skip (s : Source) (n : Nat) : (s.skip n).data = s.data := rfl

@[simp] theorem chunk_skip (s : Source) (n : Nat) : (s.skip n).chunk = s.chunk := rfl

@[simp] theorem off_skip (s : Source) (n : Nat) : (s.skip n).off = s.off + n := rfl

end Source

/-- How a `bytes.Reader` chunks: every `Read` hands back all that is asked for and left. -/
def fullChunks : Nat → Nat → Nat := fun _ n => n

/-- A `bytes.Reader` over `b`. -/
def bytesReader (b : Bytes) : Source := ⟨b, 0, fullChunks⟩

@[simp] theorem rest_bytesReader (b : Bytes) : (bytesReader b).rest = b := rfl

/-- A result with the source it leaves, as a pair. -/
def toPair {ε α : Type} : EStateM.Result ε Source α → Except ε α × Source
  | .ok a s => (.ok a, s)
  | .error e s => (.error e, s)

/-- A Go call that reads the source and returns an `error`. -/
abbrev IoM := EStateM GoError Source

/-- A stream method: it returns, returns an `error`, or panics. -/
abbrev ReadM := EStateM Fault Source

section Run

variable {ε ε' α β : Type}

@[simp] theorem run_bind (x : EStateM ε Source α) (f : α → EStateM ε Source β) (s : Source) :
    (x >>= f) s = match x s with
      | .ok a s => f a s
      | .error e s => .error e s := by
  show EStateM.bind x f s = _
  cases h : x s <;> simp only [EStateM.bind, h]

@[simp] theorem run_pure (a : α) (s : Source) : (pure a : EStateM ε Source α) s = .ok a s := rfl

@[simp] theorem run_throw (e : ε) (s : Source) :
    (throw e : EStateM ε Source α) s = .error e s := rfl

@[simp] theorem run_map (f : α → β) (x : EStateM ε Source α) (s : Source) :
    (f <$> x) s = match x s with
      | .ok a s => .ok (f a) s
      | .error e s => .error e s := by
  show EStateM.map f x s = _
  cases h : x s <;> simp only [EStateM.map, h]

@[simp] theorem run_adaptExcept (f : ε → ε') (x : EStateM ε Source α) (s : Source) :
    EStateM.adaptExcept f x s = match x s with
      | .ok a s => .ok a s
      | .error e s => .error (f e) s := by
  cases h : x s <;> simp only [EStateM.adaptExcept, h]

end Run

/-- `r.Read(p)` with `len(p) = n`: `io.EOF` at the end of the data, otherwise one chunk of what
is left. -/
def read (n : Nat) : IoM Bytes := fun s =>
  if s.rest = [] then .error .eof s
  else
    let got := s.rest.take (min (max 1 (s.chunk s.off n)) n)
    .ok got (s.skip got.length)

/-- `io.ReadFull(r, buf)` with `len(buf) = n`: the next `n` bytes, or `io.EOF` if none is left, or
`io.ErrUnexpectedEOF` with the source at its end if only part of them is. -/
def readFull (n : Nat) : IoM Bytes := fun s =>
  if n ≤ s.rest.length then .ok (s.rest.take n) (s.skip n)
  else if s.rest = [] then .error .eof s
  else .error .unexpectedEOF (s.skip s.rest.length)

/-- `r.Read(buf)` into `buf := make([]byte, n)`: the buffer, filled from its start with what one
`Read` hands back. -/
def readInto (n : Nat) : IoM Bytes := do
  let got ← read n
  pure (got ++ List.replicate (n - got.length) 0)

/-- `binary.Read(r, binary.LittleEndian, &x)` for `x uint8`. -/
def readUint8 : IoM UInt8 := decodeUint8 <$> readFull 1

/-- `binary.Read(r, binary.LittleEndian, &x)` for `x uint16`. -/
def readUint16 : IoM UInt16 := decodeUint16 <$> readFull 2

/-- `binary.Read(r, binary.LittleEndian, &x)` for `x uint32`. -/
def readUint32 : IoM UInt32 := decodeUint32 <$> readFull 4

section Spec

variable {s : Source} {n : Nat}

theorem readFull_eq : readFull n s =
    if n ≤ s.rest.length then .ok (s.rest.take n) (s.skip n)
    else if s.rest = [] then .error .eof s
    else .error .unexpectedEOF (s.skip s.rest.length) := rfl

/-- A `bytes.Reader` hands back a whole buffer while enough bytes are left. -/
theorem read_of_fullChunks (hc : s.chunk = fullChunks) (hn : 0 < n) (h : n ≤ s.rest.length) :
    read n s = .ok (s.rest.take n) (s.skip n) := by
  have hmin : min (max 1 n) n = n := by omega
  have hne : s.rest ≠ [] := by
    intro h0
    simp [h0] at h
    omega
  simp [read, hc, fullChunks, hmin, hne, Nat.min_eq_left h]

theorem readFull_of_le (h : n ≤ s.rest.length) : readFull n s = .ok (s.rest.take n) (s.skip n) :=
  if_pos h

theorem readFull_append {bs t : Bytes} (h : s.rest = bs ++ t) :
    readFull bs.length s = .ok bs (s.skip bs.length) := by
  rw [readFull_of_le (by simp [h]), h, List.take_left]

theorem readFull_append' {bs t : Bytes} (h : s.rest = bs ++ t) (hn : bs.length = n) :
    readFull n s = .ok bs (s.skip n) := by
  subst hn
  exact readFull_append h

theorem rest_skip_append {bs t : Bytes} (h : s.rest = bs ++ t) (hn : bs.length = n) :
    (s.skip n).rest = t := by
  subst hn
  rw [Source.rest_skip, h, List.drop_left]

theorem readInto_of_fullChunks {bs t : Bytes} (hc : s.chunk = fullChunks) (h : s.rest = bs ++ t)
    (hn : bs.length = n) (hpos : 0 < n) : readInto n s = .ok bs (s.skip n) := by
  have hle : n ≤ s.rest.length := by simp [h, ← hn]
  have htake : s.rest.take n = bs := by rw [h, ← hn, List.take_left]
  simp [readInto, read_of_fullChunks hc hpos hle, htake, hn]

theorem readFull_eof (hn : 0 < n) (h : s.rest = []) : readFull n s = .error .eof s := by
  simp [readFull, h, Nat.not_le.mpr hn]

theorem readFull_short (h0 : s.rest ≠ []) (h : s.rest.length < n) :
    readFull n s = .error .unexpectedEOF (s.skip s.rest.length) := by
  simp [readFull, h0, Nat.not_le.mpr h]

theorem readFull_error_of_lt (h : s.rest.length < n) : ∃ e s', readFull n s = .error e s' := by
  by_cases h0 : s.rest = []
  · exact ⟨_, _, readFull_eof (by simp_all) h0⟩
  · exact ⟨_, _, readFull_short h0 h⟩

/-- A plain `Read` on a `bytes.Reader` with fewer bytes left than asked for hands back all of
them, and the rest of the buffer stays zero. -/
theorem readInto_of_fullChunks_short (hc : s.chunk = fullChunks) (h0 : s.rest ≠ [])
    (h : s.rest.length < n) :
    readInto n s = .ok (s.rest ++ List.replicate (n - s.rest.length) 0) (s.skip s.rest.length) := by
  have hpos : 0 < s.rest.length := List.length_pos.mpr h0
  have hmin : min (max 1 n) n = n := by omega
  simp [readInto, read, h0, hc, fullChunks, hmin, List.take_of_length_le h.le]

/-- A plain `Read` that hands back `k` of the `n` bytes asked for fills only the buffer's first
`k` bytes, whatever follows in the source. -/
theorem readInto_of_chunk {k : Nat} (hk : s.chunk s.off n = k) (hk0 : 0 < k) (hkn : k ≤ n)
    (hlen : k ≤ s.rest.length) :
    readInto n s = .ok (s.rest.take k ++ List.replicate (n - k) 0) (s.skip k) := by
  have hmin : min (max 1 k) n = k := by omega
  have hne : s.rest ≠ [] := fun h => by simp [h] at hlen; omega
  simp [readInto, read, hne, hk, hmin, Nat.min_eq_left hlen]

theorem readInto_eof (h : s.rest = []) : readInto n s = .error .eof s := by
  simp [readInto, read, h]

theorem readUint32_append {x : UInt32} {t : Bytes} (h : s.rest = le32 x ++ t) :
    readUint32 s = .ok x (s.skip 4) := by
  have hread := readFull_append h
  rw [length_le32] at hread
  simp [readUint32, hread]

theorem readUint16_append {x : UInt16} {t : Bytes} (h : s.rest = le16 x ++ t) :
    readUint16 s = .ok x (s.skip 2) := by
  have hread := readFull_append h
  rw [length_le16] at hread
  simp [readUint16, hread]

theorem readUint32_error_of_lt (h : s.rest.length < 4) : ∃ e s', readUint32 s = .error e s' := by
  obtain ⟨e, s', he⟩ := readFull_error_of_lt h
  exact ⟨e, s', by simp [readUint32, he]⟩

theorem readUint16_error_of_lt (h : s.rest.length < 2) : ∃ e s', readUint16 s = .error e s' := by
  obtain ⟨e, s', he⟩ := readFull_error_of_lt h
  exact ⟨e, s', by simp [readUint16, he]⟩

theorem readUint32_short (h0 : s.rest ≠ []) (h : s.rest.length < 4) :
    readUint32 s = .error .unexpectedEOF (s.skip s.rest.length) := by
  simp [readUint32, readFull_short h0 h]

end Spec

end TcgLog
