import TcgLog.EventData

/-! The PC Client Spec ID event as `decodeEventDataNoAction` reads it from its payload: the
signature `Spec ID Event00`, the common header `specIdEventCommon`, the vendor data size and the
vendor data. A payload that holds all of them decodes to its fields whatever follows, and one that
ends before them is an `invalidSpecIdEventError`. The trailing-byte count is zero either way:
`decodeEventDataNoAction` never assigns its named result `trailingBytes`. -/

namespace TcgLog

variable (ext : Externals)

/-- The eight bytes `binary.Write` gives for a `specIdEventCommon`. -/
def SpecIdEventCommon.encode (h : SpecIdEventCommon) : Bytes :=
  le32 h.platformClass ++ [h.specVersionMinor, h.specVersionMajor, h.specErrata, h.uintnSize]

@[simp] theorem SpecIdEventCommon.length_encode (h : SpecIdEventCommon) : h.encode.length = 8 := by
  simp [SpecIdEventCommon.encode]

/-- Every eight bytes are the encoding of a header. -/
theorem SpecIdEventCommon.exists_encode {c : Bytes} (hc : c.length = 8) :
    ∃ h : SpecIdEventCommon, h.encode = c := by
  rcases c with _ | ⟨a0, _ | ⟨a1, _ | ⟨a2, _ | ⟨a3, _ | ⟨a4, _ | ⟨a5, _ | ⟨a6, _ | ⟨a7, _ | ⟨a8, c⟩⟩⟩⟩⟩⟩⟩⟩⟩ <;>
    simp at hc
  exact ⟨⟨decodeUint32 [a0, a1, a2, a3], a4, a5, a6, a7⟩,
    by rw [SpecIdEventCommon.encode, le32_decodeUint32 (show [a0, a1, a2, a3].length = 4 from rfl)]; rfl⟩

/-- The payload of a PC Client Spec ID event: the signature, the common header, the vendor data
size and the vendor data, then `rest`. -/
def pcClientSpecIdEventData (h : SpecIdEventCommon) (vendorInfo rest : Bytes) : Bytes :=
  specIdEvent00Signature ++ h.encode ++ [UInt8.ofNat vendorInfo.length] ++ vendorInfo ++ rest

/-- The Spec ID event data of a PC Client header and vendor data, decoded from `data`. -/
def SpecIdEventCommon.pcClientData (h : SpecIdEventCommon) (data vendorInfo : Bytes) :
    SpecIdEventData :=
  { data := data
    spec := .specPCClient
    platformClass := h.platformClass
    specVersionMinor := h.specVersionMinor
    specVersionMajor := h.specVersionMajor
    specErrata := h.specErrata
    uintnSize := h.uintnSize
    digestSizes := []
    vendorInfo := vendorInfo }

theorem wrapSpecIdEventReadError_invalid (e : GoError) :
    ∃ msg, wrapSpecIdEventReadError ext e = .invalidSpecIdEvent msg := by
  unfold wrapSpecIdEventReadError
  split <;> exact ⟨_, rfl⟩

/-- A payload that starts with `Spec ID Event00` goes to the PC Client reader, which reads on
after the signature. -/
theorem decodeEventDataNoAction_specIdEvent00 (q : Bytes) :
    decodeEventDataNoAction ext (specIdEvent00Signature ++ q) =
      specIdBranch (decodeSpecIdEvent ext (specIdEvent00Signature ++ q) (parsePCClientSpecIdEvent ext)
        ((bytesReader (specIdEvent00Signature ++ q)).skip 16)) := by
  simp only [decodeEventDataNoAction,
    readFull_append' (rest_bytesReader _) length_specIdEvent00Signature, if_true]

section Reader

variable {ext} {data : Bytes} {s : Source}

theorem readSpecIdEventCommon_append {h : SpecIdEventCommon} {t : Bytes} (hs : s.rest = h.encode ++ t) :
    readSpecIdEventCommon s = .ok h (s.skip 8) := by
  simp only [readSpecIdEventCommon, run_bind, readFull_append' hs h.length_encode, run_pure]
  obtain ⟨pc, minor, major, errata, uintnSize⟩ := h
  simp [SpecIdEventCommon.encode, List.getElem_append_right]

/-- The PC Client reader on a header, a size byte and as many bytes of vendor data. -/
theorem decodeSpecIdEvent_pcClient_append {h : SpecIdEventCommon} {b : UInt8} {v t : Bytes}
    (hs : s.rest = h.encode ++ b :: (v ++ t)) (hb : b.toNat = v.length) :
    decodeSpecIdEvent ext data (parsePCClientSpecIdEvent ext) s =
      .ok (h.pcClientData data v) (((s.skip 8).skip 1).skip v.length) := by
  have h1 : (s.skip 8).rest = [b] ++ (v ++ t) := rest_skip_append hs h.length_encode
  have h2 := rest_skip_append (n := 1) h1 rfl
  simp only [decodeSpecIdEvent, parsePCClientSpecIdEvent, specIdRead, run_bind, run_adaptExcept,
    readSpecIdEventCommon_append hs, readUint8, run_map, readFull_append' (n := 1) h1 rfl,
    decodeUint8_singleton, hb, readFull_append' h2 rfl, run_pure]
  rfl

/-- The PC Client reader fails, with an error of `wrapSpecIdEventReadError`, on a source that ends
before the header, the size byte or the vendor data that byte announces. -/
theorem decodeSpecIdEvent_pcClient_short (h : s.rest.length < 9 + (s.rest.getD 8 0).toNat) :
    ∃ e s', decodeSpecIdEvent ext data (parsePCClientSpecIdEvent ext) s =
      .error (wrapSpecIdEventReadError ext e) s' := by
  by_cases h8 : s.rest.length < 8
  · obtain ⟨e, s', he⟩ := readFull_error_of_lt h8
    exact ⟨e, s', by simp [decodeSpecIdEvent, readSpecIdEventCommon, specIdRead, he]⟩
  · have hc : s.rest = s.rest.take 8 ++ s.rest.drop 8 := (List.take_append_drop _ _).symm
    have hc8 : (s.rest.take 8).length = 8 := List.length_take_of_le (by omega)
    have h1 := rest_skip_append hc hc8
    have hcommon : readFull 8 s = .ok (s.rest.take 8) (s.skip 8) := readFull_append' hc hc8
    cases hd : s.rest.drop 8 with
    | nil =>
      obtain ⟨e, s', he⟩ := readFull_error_of_lt (s := s.skip 8) (n := 1) (by simp [h1, hd])
      exact ⟨e, s', by simp [decodeSpecIdEvent, readSpecIdEventCommon, parsePCClientSpecIdEvent,
        specIdRead, readUint8, hcommon, he]⟩
    | cons b v =>
      have hb : s.rest.getD 8 0 = b := by
        rw [hc, hd, List.getD_append_right _ _ _ _ (by omega), hc8]
        rfl
      have hlen : s.rest.length = 9 + v.length := by
        have := congrArg List.length hd
        simp only [List.length_drop, List.length_cons] at this
        omega
      have h2 := rest_skip_append (n := 1) (h1.trans hd : (s.skip 8).rest = [b] ++ v) rfl
      obtain ⟨e, s', he⟩ := readFull_error_of_lt (s := (s.skip 8).skip 1) (n := b.toNat)
        (by rw [h2]; rw [hb] at h; omega)
      exact ⟨e, s', by simp only [decodeSpecIdEvent, readSpecIdEventCommon, parsePCClientSpecIdEvent,
        specIdRead, readUint8, run_bind, run_adaptExcept, run_map, run_pure, hcommon,
        readFull_append' (n := 1) (h1.trans hd : _ = [b] ++ v) rfl, decodeUint8_singleton, he]⟩

end Reader

/-- A PC Client Spec ID payload decodes to its header and vendor data, whatever follows them, and
`Bytes()` is the whole payload; the trailing-byte count is zero, not the length of `rest`. -/
theorem decodeEventDataNoAction_pcClient (h : SpecIdEventCommon) (vendorInfo rest : Bytes)
    (hv : vendorInfo.length ≤ 255) :
    decodeEventDataNoAction ext (pcClientSpecIdEventData h vendorInfo rest) =
      (some (.specIdEventData
        (h.pcClientData (pcClientSpecIdEventData h vendorInfo rest) vendorInfo)), 0, none) := by
  have hp : pcClientSpecIdEventData h vendorInfo rest = specIdEvent00Signature ++
      (h.encode ++ UInt8.ofNat vendorInfo.length :: (vendorInfo ++ rest)) := by
    simp [pcClientSpecIdEventData]
  have hs := rest_skip_append (rest_bytesReader _) length_specIdEvent00Signature
    (t := h.encode ++ UInt8.ofNat vendorInfo.length :: (vendorInfo ++ rest))
  have hb : (UInt8.ofNat vendorInfo.length).toNat = vendorInfo.length :=
    Nat.mod_eq_of_lt (by omega)
  rw [hp, decodeEventDataNoAction_specIdEvent00, decodeSpecIdEvent_pcClient_append hs hb, ← hp]
  rfl

theorem decodeEventDataNoAction_pcClient_trailing :
    (decodeEventDataNoAction zeroExternals
      (pcClientSpecIdEventData ⟨0, 21, 1, 0, 2⟩ [] [0xAA])).2.1 ≠ [(0xAA : UInt8)].length := by
  rw [decodeEventDataNoAction_pcClient zeroExternals ⟨0, 21, 1, 0, 2⟩ [] [0xAA] (by decide)]
  decide

theorem exists_append_length {l : Bytes} {n : Nat} (h : n ≤ l.length) :
    ∃ a t, l = a ++ t ∧ a.length = n :=
  ⟨l.take n, l.drop n, (List.take_append_drop n l).symm, List.length_take_of_le h⟩

/-- The acceptance condition of a PC Client Spec ID payload `p`: it decodes exactly when it holds
the 16-byte signature, the 8-byte header, the size byte `p[24]` and `p[24]` bytes of vendor data;
otherwise it is an `invalidSpecIdEventError` and has no data. -/
theorem decodeEventDataNoAction_pcClient_iff (p : Bytes) (hsig : specIdEvent00Signature <+: p) :
    (p.length < 25 + (p.getD 24 0).toNat →
      ∃ msg, decodeEventDataNoAction ext p = (none, 0, some (.invalidSpecIdEvent msg))) ∧
    (25 + (p.getD 24 0).toNat ≤ p.length →
      ∃ d, decodeEventDataNoAction ext p = (some (.specIdEventData d), 0, none)) := by
  obtain ⟨q, rfl⟩ := hsig
  have hs := rest_skip_append (rest_bytesReader _) length_specIdEvent00Signature (t := q)
  have hget : (specIdEvent00Signature ++ q).getD 24 0 = q.getD 8 0 := by
    rw [List.getD_append_right _ _ _ _ (by simp)]
    rfl
  simp only [decodeEventDataNoAction_specIdEvent00, hget, List.length_append,
    length_specIdEvent00Signature]
  constructor
  · intro hshort
    obtain ⟨e, s', he⟩ := @decodeSpecIdEvent_pcClient_short ext
      (specIdEvent00Signature ++ q) _ (by rw [hs]; omega)
    obtain ⟨msg, hmsg⟩ := wrapSpecIdEventReadError_invalid ext e
    exact ⟨msg, by rw [he, specIdBranch, hmsg]⟩
  · intro hlong
    obtain ⟨c, r, rfl, hc⟩ := exists_append_length (l := q) (n := 8) (by omega)
    have hget8 : (c ++ r).getD 8 0 = r.getD 0 0 := by
      rw [List.getD_append_right _ _ _ _ (by omega), hc]
    cases r with
    | nil => simp at hlong; omega
    | cons b r =>
      obtain ⟨v, t, rfl, hv⟩ := exists_append_length (l := r) (n := b.toNat)
        (by rw [hget8, List.getD_cons_zero] at hlong; simp only [List.length_append,
          List.length_cons, hc] at hlong; omega)
      obtain ⟨h, rfl⟩ := SpecIdEventCommon.exists_encode hc
      exact ⟨_, by rw [decodeSpecIdEvent_pcClient_append hs hv.symm]; rfl⟩

/-- A PC Client Spec ID payload cut after its header, before the vendor data size. -/
def cutPCClientSpecIdEventData : Bytes := (pcClientSpecIdEventData ⟨0, 21, 1, 0, 2⟩ [] []).take 24

theorem decodeEventDataNoAction_pcClient_iff_cut :
    specIdEvent00Signature <+: cutPCClientSpecIdEventData ∧
    ∃ msg, decodeEventDataNoAction zeroExternals cutPCClientSpecIdEventData =
      (none, 0, some (.invalidSpecIdEvent msg)) :=
  have hsig : specIdEvent00Signature <+: cutPCClientSpecIdEventData := by decide
  ⟨hsig, (decodeEventDataNoAction_pcClient_iff zeroExternals _ hsig).1 (by decide)⟩

end TcgLog
