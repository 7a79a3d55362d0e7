import TcgLog.EventInvariant

/-! What the record readers accept. `Parses c x G` says that whatever `x` returns from a source
chunked by `c`, it returns after moving past a prefix `b` of what was left, with `t` left after
it, and `G a b t` holds. As `Returns` is, it is built from a bind rule and one rule per primitive
read. From it, every event `stream_2` returns past its first record is the event of a
`TCG_PCR_EVENT2` record on a PCR in range whose digests fit the advertised sizes, and the reader
moved past exactly that record. The same holds of `stream_1_2` on a source whose `Read` hands
back the whole 20-byte digest buffer. With the round-trip lemmas of the records, each reader
accepts exactly the encoded records in front of it. -/

namespace TcgLog

variable (ext : Externals)

/-- Every value `x` returns from a source chunked by `c` was read from the bytes `b` it moved
past, with `t` left after them, and `G a b t` holds. -/
def Parses {ε α : Type} (c : Nat → Nat → Nat) (x : EStateM ε Source α)
    (G : α → Bytes → Bytes → Prop) : Prop :=
  ∀ s a s', s.chunk = c → x s = .ok a s' →
    ∃ b, s.rest = b ++ s'.rest ∧ s' = s.skip b.length ∧ G a b s'.rest

section Parses

variable {ε ε' α β : Type} {c : Nat → Nat → Nat} {G : α → Bytes → Bytes → Prop}

/-- The second step reads on from where the first stopped, so its bytes follow the first's. -/
theorem Parses.bind {Q : α → Bytes → Bytes → Prop} {H : β → Bytes → Bytes → Prop}
    {x : EStateM ε Source α} {f : α → EStateM ε Source β} (hx : Parses c x Q)
    (hf : ∀ a b₁ t₁, Q a b₁ t₁ → Parses c (f a) fun v b₂ t => t₁ = b₂ ++ t → H v (b₁ ++ b₂) t) :
    Parses c (x >>= f) H := by
  intro s v s' hc h
  rw [run_bind] at h
  cases hxs : x s with
  | error e s₁ => rw [hxs] at h; cases h
  | ok a s₁ =>
    rw [hxs] at h
    obtain ⟨b₁, hr₁, hs₁, hq⟩ := hx s a s₁ hc hxs
    obtain ⟨b₂, hr₂, rfl, hh⟩ := hf a b₁ _ hq s₁ v s' (by rw [hs₁, Source.chunk_skip, hc]) h
    subst hs₁
    refine ⟨b₁ ++ b₂, by rw [hr₁, hr₂, List.append_assoc], ?_, hh hr₂⟩
    rw [Source.skip_skip, List.length_append]

theorem Parses.mono {H : α → Bytes → Bytes → Prop} {x : EStateM ε Source α} (hx : Parses c x G)
    (h : ∀ a b t, G a b t → H a b t) : Parses c x H := fun s a s' hc hs => by
  obtain ⟨b, hr, hs', hg⟩ := hx s a s' hc hs
  exact ⟨b, hr, hs', h _ _ _ hg⟩

theorem Parses.map {H : β → Bytes → Bytes → Prop} {x : EStateM ε Source α} {f : α → β}
    (hx : Parses c x fun a => H (f a)) : Parses c (f <$> x) H := by
  intro s v s' hc h
  rw [run_map] at h
  cases hxs : x s with
  | ok a s₁ => rw [hxs] at h; cases h; exact hx _ _ _ hc hxs
  | error e s₁ => rw [hxs] at h; cases h

theorem Parses.adaptExcept {x : EStateM ε Source α} (f : ε → ε') (hx : Parses c x G) :
    Parses c (EStateM.adaptExcept f x) G := by
  intro s a s' hc h
  rw [run_adaptExcept] at h
  cases hxs : x s with
  | ok a s₁ => rw [hxs] at h; cases h; exact hx _ _ _ hc hxs
  | error e s₁ => rw [hxs] at h; cases h

theorem parses_pure {a : α} (h : ∀ t, G a [] t) : Parses c (pure a : EStateM ε Source α) G := by
  intro s a' s' _ h'
  cases h'
  exact ⟨[], rfl, rfl, h _⟩

theorem parses_throw (e : ε) : Parses c (throw e : EStateM ε Source α) G := fun _ _ _ _ h => by
  cases h

theorem parses_throw_bind {e : ε} {k : PUnit → EStateM ε Source α} : Parses c (throw e >>= k) G :=
  fun _ _ _ _ h => by cases h

theorem parses_pure_bind {k : PUnit → EStateM ε Source α} (hk : Parses c (k ()) G) :
    Parses c (pure () >>= k) G :=
  hk

/-- `if b then return err` before the rest of a method: only the rest can return. -/
theorem parses_guard {b : Bool} {e : ε} {k : PUnit → EStateM ε Source α}
    (hk : b = false → Parses c (k ()) G) :
    Parses c (if b = true then throw e >>= k else pure () >>= k) G := by
  split
  · exact parses_throw_bind
  · next hb => exact parses_pure_bind (hk (by simpa using hb))

/-- A source read over a prefix `b` of what it had left has the rest after `b` left. -/
theorem rest_eq_append_of_prefix {s : Source} {b : Bytes} (h : b <+: s.rest) :
    s.rest = b ++ (s.skip b.length).rest := by
  rw [Source.rest_skip]
  exact (List.prefix_iff_eq_append.mp h).symm

theorem parses_readFull (n : Nat) : Parses c (readFull n) fun v b _ => v = b ∧ b.length = n := by
  intro s v s' _ h
  rw [readFull_eq] at h
  split_ifs at h with hn
  cases h
  have hlen := List.length_take_of_le hn
  refine ⟨s.rest.take n, ?_, by rw [hlen], rfl, hlen⟩
  simpa only [hlen] using rest_eq_append_of_prefix (List.take_prefix n s.rest)

theorem parses_readUint16 : Parses c readUint16 fun x b _ => b = le16 x :=
  Parses.map <| (parses_readFull 2).mono fun _ _ _ ⟨hv, hl⟩ => hv ▸ (le16_decodeUint16 hl).symm

theorem parses_readUint32 : Parses c readUint32 fun x b _ => b = le32 x :=
  Parses.map <| (parses_readFull 4).mono fun _ _ _ ⟨hv, hl⟩ => hv ▸ (le32_decodeUint32 hl).symm

/-- A plain `Read` into an `n`-byte buffer, on a source whose `Read` hands back all that is asked
for: the buffer holds the bytes read, zero-filled, and fewer than `n` were read only at the end
of the data. -/
theorem parses_readInto (n : Nat) (hc : ∀ o, n ≤ c o n) :
    Parses c (readInto n) fun v b t =>
      v = b ++ List.replicate (n - b.length) 0 ∧ (b.length = n ∨ t = []) := by
  intro s v s' hs h
  have hmin : min (max 1 (s.chunk s.off n)) n = n := by have := hc s.off; rw [← hs] at this; omega
  simp only [readInto, run_bind, read, hmin] at h
  split_ifs at h
  cases h
  refine ⟨s.rest.take n, rest_eq_append_of_prefix (List.take_prefix n s.rest), rfl, rfl, ?_⟩
  rcases Nat.le_total n s.rest.length with hn | hn
  · exact .inl (List.length_take_of_le hn)
  · exact .inr (by rw [Source.rest_skip, List.take_of_length_le hn, List.drop_length])

theorem parses_logRead {x : IoM α} (b : Bool) (hx : Parses c x G) : Parses c (logRead b x) G :=
  hx.adaptExcept _

theorem parses_mayPanic (r : Except String α) :
    Parses c (mayPanic r) fun a b _ => r = .ok a ∧ b = [] := by
  cases r with
  | error msg => exact parses_throw _
  | ok a => exact parses_pure fun _ => ⟨rfl, rfl⟩

theorem parses_firstAlgSize (L : List EFISpecIdEventAlgorithmSize) :
    Parses c (firstAlgSize L) fun a b _ => L.head? = some a ∧ b = [] := by
  cases L with
  | nil => exact parses_throw _
  | cons a _ => exact parses_pure fun _ => ⟨rfl, rfl⟩

end Parses

/-! ## The digest loop -/

theorem DigestMap.mem_of_insertAll_isSome {ds : List (AlgorithmId × Digest)} {a : AlgorithmId}
    (h : (DigestMap.empty.insertAll ds a).isSome) : a ∈ ds.map Prod.fst := by
  by_contra hn
  rw [DigestMap.insertAll_of_not_mem hn, DigestMap.empty_apply] at h
  cases h

/-- Digest entries as the digest loop takes them on top of the map `m`: no algorithm is in `m`
or comes twice, and each digest has the size advertised for its algorithm. -/
structure EntriesRead (L : List EFISpecIdEventAlgorithmSize) (m : DigestMap)
    (ds : List (AlgorithmId × Digest)) : Prop where
  fresh : ∀ p ∈ ds, m p.1 = none
  nodup : (ds.map Prod.fst).Nodup
  sized : ∀ p ∈ ds, (L.find? (·.algorithmId == p.1)).map (·.digestSize.toNat) = some p.2.length

theorem entriesRead_cons {L : List EFISpecIdEventAlgorithmSize} {m : DigestMap} {a : AlgorithmId}
    {d : Digest} {ds : List (AlgorithmId × Digest)} (hm : m a = none)
    (hsize : (L.find? (·.algorithmId == a)).map (·.digestSize.toNat) = some d.length)
    (hds : EntriesRead L (m.insert a d) ds) : EntriesRead L m ((a, d) :: ds) := by
  have hne : ∀ p ∈ ds, p.1 ≠ a := fun p hp hpa => by simpa [hpa] using hds.fresh p hp
  refine ⟨?_, ?_, ?_⟩
  · rintro p (_ | ⟨_, hp⟩)
    · exact hm
    · simpa [hne p hp] using hds.fresh p hp
  · refine List.nodup_cons.mpr ⟨fun ha => ?_, hds.nodup⟩
    obtain ⟨p, hp, hpa⟩ := List.mem_map.mp ha
    exact hne p hp hpa
  · rintro p (_ | ⟨_, hp⟩)
    · exact hsize
    · exact hds.sized p hp

section Digests

variable {c : Nat → Nat → Nat} (L : List EFISpecIdEventAlgorithmSize)

/-- The digest loop returns the map of the `n` entries it moved past, each taken on top of the
map so far. -/
theorem parses_readDigests (n : Nat) (m : DigestMap) :
    Parses c (readDigests L n m) fun m' b _ =>
      ∃ ds, b = encodeDigests ds ∧ ds.length = n ∧ EntriesRead L m ds ∧ m' = m.insertAll ds := by
  induction n generalizing m with
  | zero => exact parses_pure fun _ => ⟨[], rfl, rfl, ⟨nofun, .nil, nofun⟩, rfl⟩
  | succ n ih =>
    refine (parses_logRead _ parses_readUint16).bind fun a b₁ _ hb₁ => ?_
    split
    · next e hfind =>
      refine (parses_logRead _ (parses_readFull _)).bind fun d b₂ _ ⟨hd, hlen⟩ =>
        parses_guard fun hm => (ih _).mono fun m' b₃ _ ⟨ds, hb₃, hn, hds, hm'⟩ _ _ => ?_
      subst hd
      refine ⟨(a, d) :: ds, by simp [hb₁, hb₃, encodeDigests], by simp [hn], ?_, hm'⟩
      exact entriesRead_cons (by simpa using hm) (by simp [hfind, hlen]) hds
    · exact parses_throw _

end Digests

/-! ## The readers -/

section Readers

variable {ext} {c : Nat → Nat → Nat}

/-- `stream_1_2`, on a source whose `Read` hands back the whole 20-byte digest buffer, returns
only the event of a record on a PCR in range, after moving past exactly that record. -/
theorem parses_readNextEvent (options : LogOptions) (hc : ∀ o, 20 ≤ c o 20) :
    Parses c (Stream_1_2.readNextEvent ext options) fun p b _ =>
      ∃ r : PCClientPCREvent, r.pcrIndex ≤ 31 ∧ b = r.encode ∧
        p = (r.toEvent ext options, (r.decoded ext options).2) := by
  refine (parses_logRead _ parses_readUint32).bind fun pcrIndex b₁ _ hb₁ =>
    parses_guard fun hpcr => ?_
  refine (parses_logRead _ parses_readUint32).bind fun eventType b₂ _ hb₂ => ?_
  refine (parses_logRead _ (parses_readInto _ hc)).bind fun digest b₃ t₃ ⟨hd, hb₃⟩ => ?_
  refine (parses_logRead _ parses_readUint32).bind fun eventSize b₄ _ hb₄ => ?_
  refine (parses_logRead _ (parses_readFull _)).bind fun event b₅ _ ⟨he, hb₅⟩ => ?_
  refine (parses_mayPanic _).bind fun isError b₆ _ ⟨hsep, hb₆⟩ => parses_pure fun t => ?_
  intro _ _ _ h₃ _ _
  have ht₃ : t₃ ≠ [] := by rw [h₃, hb₄]; intro h; simpa using congrArg List.length h
  have h20 : b₃.length = 20 := hb₃.resolve_right ht₃
  have hlen : b₅.length < 2 ^ 32 := hb₅ ▸ eventSize.toNat_lt
  subst hb₁ hb₂ hb₄ hb₆ he
  rw [h20] at hd
  subst hd
  rw [isDigestOfSeparatorErrorValue_sha1] at hsep
  cases hsep
  refine ⟨⟨pcrIndex, eventType, b₃, event, h20, hlen⟩, by simpa [isPCRIndexInRange] using hpcr, ?_, ?_⟩
  · simp [PCClientPCREvent.encode, hb₅, uint32_ofNat_toNat]
  · simp [PCClientPCREvent.toEvent, PCClientPCREvent.decoded]

/-- `stream_2` past its first record returns only the event of a `TCG_PCR_EVENT2` record on a PCR
in range whose digests fit the advertised sizes, flagged by its digest under the first advertised
algorithm, after moving past exactly that record. -/
theorem parses_readNextEvent_2 (options : LogOptions) (L : List EFISpecIdEventAlgorithmSize) :
    Parses c (Stream_2.readNextEvent ext options L true) fun p b _ =>
      ∃ r : PCREvent2, r.pcrIndex ≤ 31 ∧ Fits L r.digests ∧ b = r.encode ∧
        ∃ first isError, L.head? = some first ∧
          isDigestOfSeparatorErrorValue ext ((r.digestMap first.algorithmId).getD [])
            first.algorithmId = .ok isError ∧
          p = (r.toEvent ext options isError, (r.decoded ext options isError).2) := by
  refine (parses_logRead _ parses_readUint32).bind fun pcrIndex b₁ _ hb₁ =>
    parses_guard fun hpcr => ?_
  refine (parses_logRead _ parses_readUint32).bind fun eventType b₂ _ hb₂ => ?_
  refine (parses_logRead _ parses_readUint32).bind fun count b₃ _ hb₃ => ?_
  refine (parses_readDigests L _ _).bind fun digests b₄ _ ⟨ds, hb₄, hn, hds, hm⟩ => ?_
  dsimp only
  split
  · exact parses_throw_bind
  · next hmissing =>
    refine parses_pure_bind ?_
    refine (parses_logRead _ parses_readUint32).bind fun eventSize b₅ _ hb₅ => ?_
    refine (parses_logRead _ (parses_readFull _)).bind fun event b₆ _ ⟨he, hb₆⟩ => ?_
    refine (parses_firstAlgSize L).bind fun first b₇ _ ⟨hfirst, hb₇⟩ => ?_
    refine (parses_mayPanic _).bind fun isError b₈ _ ⟨hsep, hb₈⟩ => parses_pure fun t _ _ _ _ _ _ _ _ => ?_
    have hcomplete : ∀ e ∈ L, e.algorithmId ∈ ds.map Prod.fst := fun e he' => by
      refine DigestMap.mem_of_insertAll_isSome (hm ▸ ?_)
      cases hnone : L.find? (fun a => (digests a.algorithmId).isNone) with
      | none => simpa [Option.isSome_iff_ne_none] using List.find?_eq_none.mp hnone e he'
      | some a => exact (hmissing a hnone).elim
    subst hb₁ hb₂ hb₃ hb₄ hb₅ he hb₇ hb₈ hm
    have hds_len : ds.length < 2 ^ 32 := hn ▸ count.toNat_lt
    have hev_len : event.length < 2 ^ 32 := hb₆ ▸ eventSize.toNat_lt
    refine ⟨⟨pcrIndex, eventType, ds, event, hds_len, hev_len⟩, by simpa [isPCRIndexInRange] using hpcr,
      ⟨hds.nodup, hds.sized, hcomplete⟩, ?_, first, isError, hfirst, hsep, rfl⟩
    simp [PCREvent2.encode, hn, hb₆, uint32_ofNat_toNat]

/-- On a source whose `Read` hands back all that is asked for, `stream_1_2` accepts exactly an
encoded record on a PCR in range in front of it, returns that record's event and moves past
exactly that record. -/
theorem readNextEvent_ok_iff {options : LogOptions} {s s' : Source} {ev : Event} {t : Nat}
    (hc : s.chunk = fullChunks) :
    Stream_1_2.readNextEvent ext options s = .ok (ev, t) s' ↔
      ∃ r : PCClientPCREvent, r.pcrIndex ≤ 31 ∧ s.rest = r.encode ++ s'.rest ∧
        s' = s.skip r.encode.length ∧ ev = r.toEvent ext options ∧ t = (r.decoded ext options).2 := by
  constructor
  · intro h
    obtain ⟨b, hrest, hs', r, hpcr, rfl, hp⟩ :=
      parses_readNextEvent options (fun _ => le_refl 20) s (ev, t) s' hc h
    obtain ⟨rfl, rfl⟩ := Prod.mk.inj hp
    exact ⟨r, hpcr, hrest, hs', rfl, rfl⟩
  · rintro ⟨r, hpcr, hrest, rfl, rfl, rfl⟩
    exact readNextEvent_encode options hc hrest hpcr

theorem readNextEvent_ok_iff_actionEvent :
    ∃ ev t s', Stream_1_2.readNextEvent zeroExternals {} (bytesReader actionEvent.encode) =
        .ok (ev, t) s' ∧
      ∃ r : PCClientPCREvent, r.pcrIndex ≤ 31 ∧ (bytesReader actionEvent.encode).rest = r.encode ++ s'.rest ∧
        s' = (bytesReader actionEvent.encode).skip r.encode.length ∧ ev = r.toEvent zeroExternals {} ∧
        t = (r.decoded zeroExternals {}).2 :=
  ⟨_, _, _, rfl, (readNextEvent_ok_iff rfl).mp rfl⟩

/-- `stream_2` past its first record accepts exactly an encoded record in front of it on a PCR in
range whose digests fit the advertised sizes, when the advertised list has a first algorithm
whose separator check does not panic; it returns that record's event, flagged by that check, and
moves past exactly that record. -/
theorem readNextEvent_2_ok_iff {options : LogOptions} {L : List EFISpecIdEventAlgorithmSize}
    {s s' : Source} {ev : Event} {t : Nat} :
    Stream_2.readNextEvent ext options L true s = .ok (ev, t) s' ↔
      ∃ r : PCREvent2, r.pcrIndex ≤ 31 ∧ Fits L r.digests ∧ s.rest = r.encode ++ s'.rest ∧
        s' = s.skip r.encode.length ∧ ∃ first isError, L.head? = some first ∧
          isDigestOfSeparatorErrorValue ext ((r.digestMap first.algorithmId).getD [])
            first.algorithmId = .ok isError ∧
          ev = r.toEvent ext options isError ∧ t = (r.decoded ext options isError).2 := by
  constructor
  · intro h
    obtain ⟨b, hrest, hs', r, hpcr, hfits, rfl, first, isError, hfirst, hsep, hp⟩ :=
      parses_readNextEvent_2 options L s (ev, t) s' rfl h
    obtain ⟨rfl, rfl⟩ := Prod.mk.inj hp
    exact ⟨r, hpcr, hfits, hrest, hs', first, isError, hfirst, hsep, rfl, rfl⟩
  · rintro ⟨r, hpcr, hfits, hrest, rfl, first, isError, hfirst, hsep, rfl, rfl⟩
    obtain ⟨L', rfl⟩ : ∃ L', L = first :: L' := by
      cases L with
      | nil => cases hfirst
      | cons a L' => cases hfirst; exact ⟨L', rfl⟩
    rw [readNextEvent_2_encode options hrest hpcr hfits]
    simp only [firstAlgSize, run_bind, run_pure, hsep, mayPanic_ok]


end Readers

/-! ## Logs -/

section Logs

variable {ext}

/-- A legacy log over a source whose `Read` hands back all that is asked for returns, call after
call, the events of encoded records lying one after the other in front of its stream. -/
theorem nextEvents_legacy_records {l : Log} {st : Stream_1_2} (hf : l.failed = false)
    (hst : l.stream = .stream_1_2 st) (halg : ∀ a ∈ l.algorithms, a = algorithmSha1)
    (hc : st.r.chunk = fullChunks) (k : Nat) {evs : List Event}
    (hevs : (l.nextEvents ext k).1 = evs.map .ok) :
    ∃ rs tail, st.r.rest = PCClientPCREvent.encodeList rs ++ tail ∧ (∀ r ∈ rs, r.pcrIndex ≤ 31) ∧
      List.Forall₂ (fun ev r => ∃ i, ev = { r.toEvent ext st.options with index := i }) evs rs := by
  induction k generalizing l st evs with
  | zero =>
    cases evs with
    | nil => exact ⟨[], st.r.rest, rfl, nofun, .nil⟩
    | cons _ _ => cases hevs
  | succ k ih =>
    rw [nextEvents_succ] at hevs
    cases evs with
    | nil => cases hevs
    | cons ev evs =>
      obtain ⟨hev, hevs⟩ := List.cons.inj hevs
      obtain ⟨-, event, t, hread, -⟩ := nextEvent_ok hev
      rw [hst] at hread
      obtain ⟨s', hread⟩ := toPair_fst_eq_ok.mp hread
      obtain ⟨r, hpcr, hrest, rfl, -, -⟩ := (readNextEvent_ok_iff hc).mp hread
      have hstep := @nextEvent_legacy ext l st r _ hf hst halg hc hrest hpcr
      obtain ⟨rs, tail, hrest', hpcr', hrel⟩ :=
        @ih (l.nextEvent ext).2 { st with r := st.r.skip r.encode.length } (by rw [hstep]; exact hf)
          (by rw [hstep]) (by rw [hstep]; exact halg) hc _ hevs
      rw [hstep] at hev
      refine ⟨r :: rs, tail, ?_, List.forall_mem_cons.mpr ⟨hpcr, hpcr'⟩,
        .cons ⟨_, (Except.ok.inj hev).symm⟩ hrel⟩
      rw [hrest, hrest', PCClientPCREvent.encodeList_cons, List.append_assoc]

/-- A crypto-agile log past its first record returns, call after call, the events of encoded
records lying one after the other in front of its stream, each on a PCR in range with digests
that fit the advertised sizes, whatever the chunking of the source. -/
theorem nextEvents_agile_records {l : Log} {st : Stream_2} (hf : l.failed = false)
    (hst : l.stream = .stream_2 st) (hfirst : st.readFirstEvent = true)
    (halg : ∀ x ∈ l.algorithms, isKnownAlgorithm x ∧ x ∈ st.algSizes.map (·.algorithmId))
    (k : Nat) {evs : List Event} (hevs : (l.nextEvents ext k).1 = evs.map .ok) :
    ∃ rs tail, st.r.rest = PCREvent2.encodeList rs ++ tail ∧
      (∀ r ∈ rs, r.pcrIndex ≤ 31 ∧ Fits st.algSizes r.digests) ∧
      List.Forall₂ (fun ev r => ∃ i first b, st.algSizes.head? = some first ∧
        isDigestOfSeparatorErrorValue ext ((r.digestMap first.algorithmId).getD [])
          first.algorithmId = .ok b ∧
        ev = { r.toEvent ext st.options b with index := i }) evs rs := by
  induction k generalizing l st evs with
  | zero =>
    cases evs with
    | nil => exact ⟨[], st.r.rest, rfl, nofun, .nil⟩
    | cons _ _ => cases hevs
  | succ k ih =>
    rw [nextEvents_succ] at hevs
    cases evs with
    | nil => cases hevs
    | cons ev evs =>
      obtain ⟨hev, hevs⟩ := List.cons.inj hevs
      obtain ⟨-, event, t, hread, -⟩ := nextEvent_ok hev
      rw [hst] at hread
      obtain ⟨s', hread⟩ := toPair_fst_eq_ok.mp hread
      rw [hfirst] at hread
      obtain ⟨r, hpcr, hfits, hrest, rfl, first, b, hhead, hsep, -, -⟩ := readNextEvent_2_ok_iff.mp hread
      obtain ⟨L, hL⟩ := List.head?_eq_some_iff.mp hhead
      have hstep := @nextEvent_agile ext l st r _ first L b hf hst hfirst hL hrest hpcr
        hfits hsep halg
      obtain ⟨rs, tail, hrest', hall, hrel⟩ :=
        @ih (l.nextEvent ext).2 { st with r := st.r.skip r.encode.length, readFirstEvent := true }
          (by rw [hstep]; exact hf) (by rw [hstep]) rfl (by rw [hstep]; exact halg) _ hevs
      rw [hstep] at hev
      refine ⟨r :: rs, tail, ?_, List.forall_mem_cons.mpr ⟨⟨hpcr, hfits⟩, hall⟩,
        .cons ⟨_, first, b, hhead, hsep, (Except.ok.inj hev).symm⟩ hrel⟩
      rw [hrest, hrest', PCREvent2.encodeList_cons, List.append_assoc]


end Logs

/-- Every event a legacy log opened over a `bytes.Reader` returns, call after call, is the event of
a record on a PCR in range, and those records lie one after the other at the start of the data. -/
theorem legacyLog_events_from_records (options : LogOptions) (data : Bytes) (l₀ : Log)
    (hopen : newLogFromReader ext (bytesReader data) options = .ok l₀)
    (hlegacy : l₀.spec ≠ .specEFI_2) (k : Nat) (evs : List Event)
    (hevs : (l₀.nextEvents ext k).1 = evs.map .ok) :
    ∃ rs tail, data = PCClientPCREvent.encodeList rs ++ tail ∧ (∀ r ∈ rs, r.pcrIndex ≤ 31) ∧
      List.Forall₂ (fun ev r => ∃ i, ev = { r.toEvent ext options with index := i }) evs rs := by
  obtain ⟨-, -, -, -, -, -, -, hleg⟩ := newLogFromReader_ok ext hopen
  obtain ⟨halg, hst⟩ := hleg hlegacy
  exact nextEvents_legacy_records (newLogFromReader_fresh ext hopen).1 hst (by simp [halg]) rfl k hevs

theorem legacyLog_events_from_records_actionEvents :
    ∃ l, newLogFromReader zeroExternals
        (bytesReader (PCClientPCREvent.encodeList [actionEvent, actionEvent])) {} = .ok l ∧
      l.spec ≠ .specEFI_2 ∧
      (l.nextEvents zeroExternals 2).1 = [{ actionEvent.toEvent zeroExternals {} with index := 0 },
        { actionEvent.toEvent zeroExternals {} with index := 1 }].map .ok ∧
      ∃ rs tail, PCClientPCREvent.encodeList [actionEvent, actionEvent] =
          PCClientPCREvent.encodeList rs ++ tail ∧ (∀ r ∈ rs, r.pcrIndex ≤ 31) ∧
        List.Forall₂ (fun ev r => ∃ i, ev = { r.toEvent zeroExternals {} with index := i })
          [{ actionEvent.toEvent zeroExternals {} with index := 0 },
            { actionEvent.toEvent zeroExternals {} with index := 1 }] rs :=
  ⟨_, rfl, by decide, rfl, legacyLog_events_from_records zeroExternals {}
    (PCClientPCREvent.encodeList [actionEvent, actionEvent]) _ rfl (by decide) 2 _ rfl⟩

/-- Every event a crypto-agile log opened over a `bytes.Reader` returns, call after call, is read
from a record at its place in the data: the first is the EFI 2 Spec ID event of a legacy record
on a PCR in range, with zero digests back-filled; each later one is the event of a
`TCG_PCR_EVENT2` record on a PCR in range whose digests fit the sizes that Spec ID event
advertises, flagged by the separator check under the first advertised algorithm. -/
theorem agileLog_events_from_records (options : LogOptions) (data : Bytes) (l₀ : Log)
    (hopen : newLogFromReader ext (bytesReader data) options = .ok l₀)
    (hagile : l₀.spec = .specEFI_2) (k : Nat) (ev₀ : Event) (evs : List Event)
    (hevs : (l₀.nextEvents ext (k + 1)).1 = (ev₀ :: evs).map .ok) :
    ∃ (r₀ : PCClientPCREvent) (d : SpecIdEventData) (rs : List PCREvent2) (tail : Bytes),
      data = r₀.encode ++ PCREvent2.encodeList rs ++ tail ∧ r₀.pcrIndex ≤ 31 ∧
      (r₀.decoded ext options).1 = .specIdEventData d ∧ d.spec = .specEFI_2 ∧
      ev₀ = { r₀.toEvent ext options with
        index := 0
        digests := backfillZeroDigests l₀.algorithms (DigestMap.empty.insert algorithmSha1 r₀.digest) } ∧
      (∀ r ∈ rs, r.pcrIndex ≤ 31 ∧ Fits d.digestSizes r.digests) ∧
      List.Forall₂ (fun ev r => ∃ i first b, d.digestSizes.head? = some first ∧
        isDigestOfSeparatorErrorValue ext ((r.digestMap first.algorithmId).getD [])
          first.algorithmId = .ok b ∧
        ev = { r.toEvent ext options b with index := i }) evs rs := by
  obtain ⟨event, t, r', hread, L, hspec, -, -⟩ := newLogFromReader_ok ext hopen
  obtain ⟨d, hd, hd2⟩ := firstEventSpec_efi2 (hagile ▸ hspec)
  obtain ⟨r₀, hpcr₀, hrest₀, -, rfl, -⟩ := (readNextEvent_ok_iff rfl).mp hread
  rw [rest_bytesReader] at hrest₀
  subst hrest₀
  obtain ⟨l, hopen', -, halg, hev₀, hf, halg₁, hst⟩ :=
    agileLog_first_call ext options r₀ d r'.rest hpcr₀ hd hd2
  obtain rfl : l = l₀ := Except.ok.inj (hopen'.symm.trans hopen)
  rw [nextEvents_succ] at hevs
  obtain ⟨hev, hevs⟩ := List.cons.inj hevs
  rw [hev₀] at hev
  obtain ⟨rs, tail, hrest, hall, hrel⟩ := nextEvents_agile_records hf hst rfl
    (fun x hx => mem_advertisedAlgorithms (by rwa [halg₁, halg] at hx)) k hevs
  refine ⟨r₀, d, rs, tail, ?_, hpcr₀, hd, hd2, (Except.ok.inj hev).symm, hall, hrel⟩
  simpa using hrest

/-- A crypto-agile log of a Spec ID event advertising SHA-1 and SHA-256 and one `EV_ACTION` record
with both digests. -/
def sha1Sha256LogData : Bytes :=
  (specIdRecord sha1Sha256Sizes (by decide)).encode ++
    PCREvent2.encodeList [actionEvent2 [(algorithmSha256, List.replicate 32 0),
      (algorithmSha1, List.replicate 20 0)] (by decide)]

set_option maxRecDepth 4000 in
theorem agileLog_events_from_records_sha1Sha256 :
    ∃ l ev₀ ev₁, newLogFromReader zeroExternals (bytesReader sha1Sha256LogData) {} = .ok l ∧
      l.spec = .specEFI_2 ∧ (l.nextEvents zeroExternals (1 + 1)).1 = (ev₀ :: [ev₁]).map .ok ∧
      ∃ (r₀ : PCClientPCREvent) (d : SpecIdEventData) (rs : List PCREvent2) (tail : Bytes),
        sha1Sha256LogData = r₀.encode ++ PCREvent2.encodeList rs ++ tail ∧ r₀.pcrIndex ≤ 31 ∧
        (r₀.decoded zeroExternals {}).1 = .specIdEventData d ∧ d.spec = .specEFI_2 ∧
        ev₀ = { r₀.toEvent zeroExternals {} with
          index := 0
          digests := backfillZeroDigests l.algorithms (DigestMap.empty.insert algorithmSha1 r₀.digest) } ∧
        (∀ r ∈ rs, r.pcrIndex ≤ 31 ∧ Fits d.digestSizes r.digests) ∧
        List.Forall₂ (fun ev r => ∃ i first b, d.digestSizes.head? = some first ∧
          isDigestOfSeparatorErrorValue zeroExternals ((r.digestMap first.algorithmId).getD [])
            first.algorithmId = .ok b ∧
          ev = { r.toEvent zeroExternals {} b with index := i }) [ev₁] rs :=
  ⟨_, _, _, rfl, by decide, rfl,
    agileLog_events_from_records zeroExternals {} sha1Sha256LogData _ rfl (by decide) 1 _ _ rfl⟩

end TcgLog
