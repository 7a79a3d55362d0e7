import TcgLog.RoundTrip

/-! What each reader returns, from any source. `Returns x P` says that every value `x` returns
satisfies `P` whatever the source holds; it is built, as a Hoare triple is, from a bind rule, a
consequence rule and one rule per primitive read. From it: `stream_1_2` returns events on a PCR in
range with one 20-byte SHA-1 digest, and `stream_2` past its first record returns events whose
digests are on exactly the advertised registry algorithms, each of the size advertised for it;
both flag a separator by the digest under their first algorithm alone. Two more facts serve the
reopening of a log: a read moves only the offset (`KeepsBytes`), and the options reach only the
data decoder (`ReadsAlike`), so the first call of `stream_2` reads the Spec ID event that
`newLogFromReader` read, and reads it the same. -/

namespace TcgLog

variable (ext : Externals)

/-- Every value `x` returns, from any source, satisfies `P`. -/
def Returns {ε α : Type} (x : EStateM ε Source α) (P : α → Prop) : Prop :=
  ∀ s a s', x s = .ok a s' → P a

section Returns

variable {ε ε' α β : Type} {P : α → Prop}

theorem Returns.bind {Q : α → Prop} {R : β → Prop} {x : EStateM ε Source α}
    {f : α → EStateM ε Source β} (hx : Returns x Q) (hf : ∀ a, Q a → Returns (f a) R) :
    Returns (x >>= f) R := by
  intro s b s' h
  rw [run_bind] at h
  cases hxs : x s with
  | ok a s1 => rw [hxs] at h; exact hf a (hx _ _ _ hxs) _ _ _ h
  | error e s1 => rw [hxs] at h; cases h

theorem Returns.mono {Q : α → Prop} {x : EStateM ε Source α} (hx : Returns x P)
    (h : ∀ a, P a → Q a) : Returns x Q :=
  fun s a s' hs => h a (hx s a s' hs)

theorem returns_any (x : EStateM ε Source α) : Returns x fun _ => True := fun _ _ _ _ => trivial

theorem returns_pure {a : α} (h : P a) : Returns (pure a : EStateM ε Source α) P := by
  intro s a' s' h'
  cases h'
  exact h

theorem returns_throw (e : ε) : Returns (throw e : EStateM ε Source α) P := fun _ _ _ h => by
  cases h

theorem Returns.map {R : β → Prop} {x : EStateM ε Source α} {f : α → β}
    (hx : Returns x fun a => R (f a)) : Returns (f <$> x) R := by
  intro s b s' h
  rw [run_map] at h
  cases hxs : x s with
  | ok a s1 => rw [hxs] at h; cases h; exact hx _ _ _ hxs
  | error e s1 => rw [hxs] at h; cases h

theorem Returns.adaptExcept {x : EStateM ε Source α} (f : ε → ε') (hx : Returns x P) :
    Returns (EStateM.adaptExcept f x) P := by
  intro s a s' h
  rw [run_adaptExcept] at h
  cases hxs : x s with
  | ok a s1 => rw [hxs] at h; cases h; exact hx _ _ _ hxs
  | error e s1 => rw [hxs] at h; cases h

/-- `if c then return err` before the rest of a method: the rest runs only when `c` is false. -/
theorem returns_guard {c : Bool} {e : ε} {k : PUnit → EStateM ε Source α}
    (hk : c = false → Returns (k ()) P) :
    Returns (if c = true then throw e >>= k else pure () >>= k) P := by
  split
  · exact (returns_throw (P := fun _ => False) e).bind fun _ h => h.elim
  · next hc => exact (returns_any _).bind fun _ _ => hk (by simpa using hc)

theorem returns_readFull (n : Nat) : Returns (readFull n) (·.length = n) := by
  intro s a s' h
  rw [readFull_eq] at h
  split_ifs at h with hn
  · cases h
    exact List.length_take_of_le hn

theorem returns_readInto (n : Nat) : Returns (readInto n) (·.length = n) := by
  refine Returns.bind (Q := (·.length ≤ n)) ?_ fun got hgot => returns_pure ?_
  · intro s a s' h
    simp only [read] at h
    split_ifs at h
    cases h
    simp only [List.length_take]
    omega
  · simp only [List.length_append, List.length_replicate]
    omega

theorem returns_logRead {x : IoM α} (b : Bool) (hx : Returns x P) : Returns (logRead b x) P :=
  hx.adaptExcept _

theorem returns_mayPanic (r : Except String α) : Returns (mayPanic r) (r = .ok ·) := by
  cases r with
  | error msg => exact returns_throw _
  | ok a => exact returns_pure rfl

theorem returns_firstAlgSize (L : List EFISpecIdEventAlgorithmSize) :
    Returns (firstAlgSize L) (L.head? = some ·) := by
  cases L with
  | nil => exact returns_throw _
  | cons a _ => exact returns_pure rfl

end Returns

/-! ## What each reader returns -/

/-- The size `L` advertises for `a`: that of its first entry naming `a`. -/
def advertisedSize (L : List EFISpecIdEventAlgorithmSize) (a : AlgorithmId) : Option Nat :=
  (L.find? (·.algorithmId == a)).map (·.digestSize.toNat)

/-- The algorithms of a crypto-agile log: the registry algorithms `L` advertises, in its order. -/
def advertisedAlgorithms (L : List EFISpecIdEventAlgorithmSize) : List AlgorithmId :=
  (L.filter (isKnownAlgorithm ·.algorithmId)).map (·.algorithmId)

theorem mem_advertisedAlgorithms {L : List EFISpecIdEventAlgorithmSize} {a : AlgorithmId}
    (h : a ∈ advertisedAlgorithms L) : isKnownAlgorithm a ∧ a ∈ L.map (·.algorithmId) := by
  obtain ⟨e, he, rfl⟩ := List.mem_map.mp h
  exact ⟨(List.mem_filter.mp he).2, List.mem_map_of_mem _ (List.mem_filter.mp he).1⟩

/-- A digest map holds only algorithms `L` advertises, each with a digest of the advertised size. -/
def DigestsAdvertised (L : List EFISpecIdEventAlgorithmSize) (m : DigestMap) : Prop :=
  ∀ a d, m a = some d → a ∈ L.map (·.algorithmId) ∧ advertisedSize L a = some d.length

/-- A separator's flag is set exactly when the event's digest under the log's first algorithm `A`
is the digest under `A` of the separator error value. -/
def SeparatorFlagged (algorithms : List AlgorithmId) (ev : Event) : Prop :=
  ∀ data isError, ev.data = .separatorEventData data isError →
    ∃ A h, algorithms.head? = some A ∧ hash ext (le32 separatorEventErrorValue) A = .ok h ∧
      (isError = true ↔ ev.digests A = some h)

/-- What `stream_1_2` returns. -/
structure LegacyEvent (ev : Event) : Prop where
  pcrIndex_le : ev.pcrIndex ≤ 31
  digest : ∃ d, d.length = 20 ∧ ev.digests = DigestMap.empty.insert algorithmSha1 d
  separator : SeparatorFlagged ext [algorithmSha1] ev

/-- What `stream_2` returns after its first record. -/
structure AgileEvent (L : List EFISpecIdEventAlgorithmSize) (ev : Event) : Prop where
  pcrIndex_le : ev.pcrIndex ≤ 31
  keys : ∀ a, (ev.digests a).isSome ↔ a ∈ advertisedAlgorithms L
  sizes : ∀ a d, ev.digests a = some d → advertisedSize L a = some d.length
  separator : SeparatorFlagged ext (advertisedAlgorithms L) ev

theorem pcrIndex_le_of_guard {pcrIndex : PCRIndex} (h : (!isPCRIndexInRange pcrIndex) = false) :
    pcrIndex ≤ 31 := by
  simpa [isPCRIndexInRange] using h

theorem specIdBranch_fst_ne_separator (r : EStateM.Result GoError Source SpecIdEventData)
    {data' : Bytes} {b : Bool} : (specIdBranch r).1 ≠ some (.separatorEventData data' b) := by
  cases r <;> nofun

theorem externalBranch_fst_ne_separator {data data' : Bytes} {b : Bool} {mk : Bytes → EventData}
    (hmk : ∀ d, mk d ≠ .separatorEventData data' b) (p : Bool × Option GoError) :
    (externalBranch data mk p).1 ≠ some (.separatorEventData data' b) := by
  obtain ⟨_ | _, _⟩ := p
  · nofun
  · exact fun h => hmk data (Option.some.inj h)

theorem externalResult_fst_ne_separator {data data' : Bytes} {b : Bool} {mk : Bytes → EventData}
    (hmk : ∀ d, mk d ≠ .separatorEventData data' b) (p : Bool × Nat × Option GoError) :
    (externalResult data mk p).1 ≠ some (.separatorEventData data' b) := by
  obtain ⟨_ | _, _⟩ := p
  · nofun
  · exact fun h => hmk data (Option.some.inj h)

/-- No branch of the no-action decoder yields separator data. -/
theorem decodeEventDataNoAction_ne_separator {data data' : Bytes} {b : Bool} :
    (decodeEventDataNoAction ext data).1 ≠ some (.separatorEventData data' b) := by
  unfold decodeEventDataNoAction
  split
  · nofun
  · split_ifs
    all_goals first
      | exact specIdBranch_fst_ne_separator _
      | exact externalBranch_fst_ne_separator (by intro _ h; cases h) _
      | exact fun h => nomatch Option.some.inj h

/-- Only the separator branch of the TCG decoder yields separator data, with the flag it was
given. -/
theorem decodeEventDataTCG_separator {eventType : EventType} {data data' : Bytes}
    {isError b : Bool}
    (h : (decodeEventDataTCG ext eventType data isError).1 = some (.separatorEventData data' b)) :
    b = isError := by
  unfold decodeEventDataTCG at h
  split_ifs at h
  · exact absurd h (decodeEventDataNoAction_ne_separator ext)
  · exact (EventData.separatorEventData.inj (Option.some.inj h)).2.symm
  all_goals first
    | exact absurd h (externalResult_fst_ne_separator (by intro _ h; cases h) _)
    | exact nomatch Option.some.inj h

/-- The data decoded from a separator carries the flag it was decoded with. -/
theorem decodeEventData_separator {pcrIndex : PCRIndex} {eventType : EventType} {data data' : Bytes}
    {options : LogOptions} {isError b : Bool}
    (h : (decodeEventData ext pcrIndex eventType data options isError).1 = .separatorEventData data' b) :
    b = isError := by
  unfold decodeEventData at h
  split_ifs at h
  rcases hT : decodeEventDataTCG ext eventType data isError with ⟨_ | d, t, _ | err⟩ <;>
    rw [hT] at h <;> try cases h
  exact decodeEventDataTCG_separator ext (congrArg Prod.fst hT)

theorem isDigestOfSeparatorErrorValue_ok {digest : Digest} {alg : AlgorithmId} {b : Bool}
    (h : isDigestOfSeparatorErrorValue ext digest alg = .ok b) :
    ∃ v, hash ext (le32 separatorEventErrorValue) alg = .ok v ∧ b = (digest == v) := by
  unfold isDigestOfSeparatorErrorValue at h
  cases hv : hash ext (le32 separatorEventErrorValue) alg <;> simp_all [bind, Except.bind, pure, Except.pure]

theorem returns_readDigests (L : List EFISpecIdEventAlgorithmSize) (n : Nat) {m : DigestMap}
    (hm : DigestsAdvertised L m) : Returns (readDigests L n m) (DigestsAdvertised L) := by
  induction n generalizing m with
  | zero => exact returns_pure hm
  | succ n ih =>
    refine (returns_logRead _ (returns_any _)).bind fun alg _ => ?_
    split
    · next algSize hfind =>
      refine (returns_logRead _ (returns_readFull _)).bind fun digest hlen => returns_guard fun _ => ih ?_
      intro a d had
      simp only [DigestMap.insert_apply] at had
      split_ifs at had with ha
      · cases had
        subst ha
        have hmem := List.mem_of_find?_eq_some hfind
        have hid : algSize.algorithmId = a := by simpa using List.find?_some hfind
        exact ⟨List.mem_map.mpr ⟨algSize, hmem, hid⟩, by simp [advertisedSize, hfind, hlen]⟩
      · exact hm a d had
    · exact returns_throw _

/-- `stream_1_2` returns an event on a PCR in range, with one SHA-1 digest of 20 bytes, and flags
a separator by that digest. -/
theorem returns_readNextEvent_1_2 (options : LogOptions) :
    Returns (Stream_1_2.readNextEvent ext options) fun p => LegacyEvent ext p.1 := by
  refine (returns_logRead _ (returns_any _)).bind fun pcrIndex _ => returns_guard fun hpcr => ?_
  refine (returns_logRead _ (returns_any _)).bind fun eventType _ => ?_
  refine (returns_logRead _ (returns_readInto _)).bind fun digest hlen => ?_
  refine (returns_logRead _ (returns_any _)).bind fun eventSize _ => ?_
  refine (returns_logRead _ (returns_any _)).bind fun event _ => ?_
  refine (returns_mayPanic _).bind fun isError hsep => returns_pure ?_
  rw [isDigestOfSeparatorErrorValue_sha1] at hsep
  cases hsep
  refine ⟨pcrIndex_le_of_guard hpcr, ⟨digest, hlen, rfl⟩, fun data b hdata => ?_⟩
  have hb := decodeEventData_separator ext hdata
  subst hb
  exact ⟨_, _, rfl, hash_sha1 ext _, by simp⟩

theorem advertisedAlgorithms_head {a : EFISpecIdEventAlgorithmSize} {L : List EFISpecIdEventAlgorithmSize}
    (hL : L.head? = some a) (ha : isKnownAlgorithm a.algorithmId) :
    (advertisedAlgorithms L).head? = some a.algorithmId := by
  cases L with
  | nil => cases hL
  | cons b L =>
    cases hL
    simp [advertisedAlgorithms, List.filter_cons, ha]

/-- `stream_2` past its first record returns an event on a PCR in range whose digests are exactly
on the registry algorithms advertised, each of the advertised size, and flags a separator by its
digest under the first advertised algorithm. -/
theorem returns_readNextEvent_2 (options : LogOptions) (L : List EFISpecIdEventAlgorithmSize) :
    Returns (Stream_2.readNextEvent ext options L true) fun p => AgileEvent ext L p.1 := by
  refine (returns_logRead _ (returns_any _)).bind fun pcrIndex _ => returns_guard fun hpcr => ?_
  refine (returns_logRead _ (returns_any _)).bind fun eventType _ => ?_
  refine (returns_logRead _ (returns_any _)).bind fun count _ => ?_
  refine (returns_readDigests L _ fun _ _ h => by cases h).bind fun digests hread => ?_
  dsimp only
  split
  · exact (returns_throw (P := fun _ => False) _).bind fun _ h => h.elim
  · next hmissing =>
    refine (returns_any _).bind fun _ _ => ?_
    refine (returns_logRead _ (returns_any _)).bind fun eventSize _ => ?_
    refine (returns_logRead _ (returns_any _)).bind fun event _ => ?_
    refine (returns_firstAlgSize L).bind fun first hfirst => ?_
    refine (returns_mayPanic _).bind fun isError hsep => returns_pure ?_
    have hnone : L.find? (fun a => (digests a.algorithmId).isNone) = none := by
      cases h : L.find? _ with
      | none => rfl
      | some a => exact (hmissing a h).elim
    have hall : ∀ e ∈ L, (digests e.algorithmId).isSome := fun e he => by
      simpa [Option.isSome_iff_ne_none] using List.find?_eq_none.mp hnone e he
    have hkeys : ∀ a, ((if isKnownAlgorithm a then digests a else none).isSome ↔
        a ∈ advertisedAlgorithms L) := fun a => by
      constructor
      · intro h
        split_ifs at h with hk
        swap
        · simp at h
        obtain ⟨d, hd⟩ := Option.isSome_iff_exists.mp h
        obtain ⟨e, he, rfl⟩ := List.mem_map.mp (hread a d hd).1
        exact List.mem_map.mpr ⟨e, List.mem_filter.mpr ⟨he, hk⟩, rfl⟩
      · intro h
        obtain ⟨e, he, rfl⟩ := List.mem_map.mp h
        obtain ⟨he, hk⟩ := List.mem_filter.mp he
        simpa [hk] using hall e he
    refine ⟨pcrIndex_le_of_guard hpcr, hkeys, fun a d had => ?_, fun data b hdata => ?_⟩
    · dsimp only at had
      split_ifs at had
      exact (hread a d had).2
    · have hb := decodeEventData_separator ext hdata
      subst hb
      obtain ⟨v, hv, rfl⟩ := isDigestOfSeparatorErrorValue_ok ext hsep
      have hk : isKnownAlgorithm first.algorithmId := by
        cases h : isKnownAlgorithm first.algorithmId
        · obtain ⟨msg, hmsg⟩ := (hash_panics_iff ext _ _).mpr h
          rw [hmsg] at hv
          cases hv
        · rfl
      have hmem : first ∈ L := List.mem_of_mem_head? hfirst
      obtain ⟨dd, hdd⟩ := Option.isSome_iff_exists.mp (hall first hmem)
      refine ⟨_, v, advertisedAlgorithms_head hfirst hk, hv, ?_⟩
      simp [hk, hdd]

/-! ## Reopening the first record -/

/-- A computation that leaves the bytes and the chunking of the source as they were: only the
offset moves. -/
def KeepsBytes {ε α : Type} (x : EStateM ε Source α) : Prop :=
  ∀ s, (toPair (x s)).2.data = s.data ∧ (toPair (x s)).2.chunk = s.chunk

section KeepsBytes

variable {ε ε' α β : Type}

theorem KeepsBytes.bind {x : EStateM ε Source α} {f : α → EStateM ε Source β} (hx : KeepsBytes x)
    (hf : ∀ a, KeepsBytes (f a)) : KeepsBytes (x >>= f) := by
  intro s
  rw [run_bind]
  have hxs := hx s
  cases h : x s with
  | ok a s1 => rw [h] at hxs; exact ⟨(hf a s1).1.trans hxs.1, (hf a s1).2.trans hxs.2⟩
  | error e s1 => rw [h] at hxs; exact hxs

theorem keepsBytes_pure (a : α) : KeepsBytes (pure a : EStateM ε Source α) := fun _ => ⟨rfl, rfl⟩

theorem keepsBytes_throw (e : ε) : KeepsBytes (throw e : EStateM ε Source α) := fun _ => ⟨rfl, rfl⟩

theorem KeepsBytes.adaptExcept {x : EStateM ε Source α} (f : ε → ε') (hx : KeepsBytes x) :
    KeepsBytes (EStateM.adaptExcept f x) := by
  intro s
  rw [run_adaptExcept]
  have hxs := hx s
  cases h : x s <;> rw [h] at hxs <;> exact hxs

theorem KeepsBytes.map {x : EStateM ε Source α} (f : α → β) (hx : KeepsBytes x) :
    KeepsBytes (f <$> x) := by
  intro s
  rw [run_map]
  have hxs := hx s
  cases h : x s <;> rw [h] at hxs <;> exact hxs

theorem KeepsBytes.ite {p : Prop} [Decidable p] {x y : EStateM ε Source α} (hx : KeepsBytes x)
    (hy : KeepsBytes y) : KeepsBytes (if p then x else y) := by
  split <;> assumption

theorem keepsBytes_readFull (n : Nat) : KeepsBytes (readFull n) := by
  intro s
  rw [readFull_eq]
  split_ifs <;> exact ⟨rfl, rfl⟩

theorem keepsBytes_readInto (n : Nat) : KeepsBytes (readInto n) := by
  refine KeepsBytes.bind (fun s => ?_) fun _ => keepsBytes_pure _
  simp only [read]
  split_ifs <;> exact ⟨rfl, rfl⟩

theorem keepsBytes_mayPanic (r : Except String α) : KeepsBytes (mayPanic r) := by
  cases r with
  | error msg => exact keepsBytes_throw _
  | ok a => exact keepsBytes_pure a

end KeepsBytes

theorem keepsBytes_readNextEvent_1_2 (options : LogOptions) :
    KeepsBytes (Stream_1_2.readNextEvent ext options) := by
  refine ((keepsBytes_readFull 4).map _).adaptExcept _ |>.bind fun _ => ?_
  refine KeepsBytes.ite ((keepsBytes_throw _).bind fun _ => ?_) ((keepsBytes_pure _).bind fun _ => ?_)
  all_goals exact ((keepsBytes_readFull 4).map _).adaptExcept _ |>.bind fun _ =>
    (keepsBytes_readInto _).adaptExcept _ |>.bind fun _ =>
    ((keepsBytes_readFull 4).map _).adaptExcept _ |>.bind fun _ =>
    (keepsBytes_readFull _).adaptExcept _ |>.bind fun _ =>
    (keepsBytes_mayPanic _).bind fun _ => keepsBytes_pure _

/-- Seeking back to where a read started gives the source it started from. -/
theorem seek_start {s s' : Source} (h : s'.data = s.data ∧ s'.chunk = s.chunk) :
    { s' with off := s.off } = s := by
  obtain ⟨data, off, chunk⟩ := s
  obtain ⟨data', off', chunk'⟩ := s'
  simp only at h
  rw [h.1, h.2]

/-- `x` and `y` read alike: from any source both fail alike, or both return values related by `R`
and leave the same source. -/
def ReadsAlike {ε α : Type} (R : α → α → Prop) (x y : EStateM ε Source α) : Prop :=
  ∀ s, (∃ e s', x s = .error e s' ∧ y s = .error e s') ∨
    (∃ a b s', x s = .ok a s' ∧ y s = .ok b s' ∧ R a b)

section ReadsAlike

variable {ε α β : Type} {R : α → α → Prop}

theorem ReadsAlike.bind {x : EStateM ε Source β} {f g : β → EStateM ε Source α}
    (h : ∀ b, ReadsAlike R (f b) (g b)) : ReadsAlike R (x >>= f) (x >>= g) := by
  intro s
  rw [run_bind, run_bind]
  cases x s with
  | ok b s1 => exact h b s1
  | error e s1 => exact .inl ⟨e, s1, rfl, rfl⟩

theorem ReadsAlike.pure {a b : α} (h : R a b) :
    ReadsAlike R (Pure.pure a : EStateM ε Source α) (Pure.pure b) :=
  fun s => .inr ⟨a, b, s, rfl, rfl, h⟩

theorem ReadsAlike.ite {p : Prop} [Decidable p] {x x' y y' : EStateM ε Source α}
    (hx : ReadsAlike R x x') (hy : ReadsAlike R y y') :
    ReadsAlike R (if p then x else y) (if p then x' else y') := by
  split <;> assumption

end ReadsAlike

/-- The options only reach the data decoder: `stream_1_2` reads alike with the default ones, and
returns the same where the data is a Spec ID event. -/
theorem readNextEvent_alike (options : LogOptions) :
    ReadsAlike (fun p q => ∀ d, p.1.data = .specIdEventData d → q = p)
      (Stream_1_2.readNextEvent ext options) (Stream_1_2.readNextEvent ext {}) := by
  refine ReadsAlike.bind fun pcrIndex => ReadsAlike.ite ?_ ?_
  all_goals
    refine ReadsAlike.bind fun _ => ReadsAlike.bind fun eventType => ReadsAlike.bind fun digest => ?_
    refine ReadsAlike.bind fun _ => ReadsAlike.bind fun event => ReadsAlike.bind fun isError => ?_
    exact ReadsAlike.pure fun d hd => by rw [decodeEventData_default_of_specId ext hd]

/-- A first record whose data is a Spec ID event reads the same with the default options, which
`stream_2` reads it with. -/
theorem readNextEvent_default_of_specId {options : LogOptions} {s s' : Source} {ev : Event}
    {t : Nat} {d : SpecIdEventData} (h : Stream_1_2.readNextEvent ext options s = .ok (ev, t) s')
    (hd : ev.data = .specIdEventData d) :
    Stream_1_2.readNextEvent ext {} s = .ok (ev, t) s' := by
  rcases readNextEvent_alike ext options s with ⟨e, s1, he, -⟩ | ⟨a, b, s1, ha, hb, hab⟩
  · rw [he] at h; cases h
  · rw [ha] at h
    cases h
    rw [hb, hab d hd]

end TcgLog
