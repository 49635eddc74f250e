import DocWire.Proofs.Codec.HandOff
import DocWire.Proofs.Codec.Resolution

namespace DocWire.Registry

open Outcome Reader

variable {r : Registry} {s : Reader} {codec : Codec}

theorem LeadsBack.resolved {start : Codec × Reader} (h : r.LeadsBack start) :
    r.resolve .document = .ok .value ∨ r.resolve (.list .value) = .ok .value := by
  obtain ⟨t, _, hloop⟩ := h
  obtain ⟨hresolved, _⟩ := currentCodec_eq_ok.mp (handsOff_value.mp hloop)
  cases htag : t.current.getD .document with
  | document =>
      rw [htag] at hresolved
      exact .inl hresolved
  | array =>
      rw [htag] at hresolved
      exact .inr hresolved
  | _ =>
      rw [htag] at hresolved
      simp [resolveTag, resolve] at hresolved

-- A document with one element, an array.
def oneArray : ByteArray :=
  [6, 0, 0, 0, 4, 0].toByteArray

theorem value_leadsBack (hvalue : r.resolve .document = .ok .value) (bytes : ByteArray) :
    r.LeadsBack (.value, ofBytes bytes) :=
  ⟨ofBytes bytes, .refl, .value (currentCodec_eq_ok.mpr ⟨hvalue, rfl⟩)⟩

theorem oneArray_leadsBack (hnests : codec.Nests)
    (harray : r.resolve (.list .value) = .ok .value) :
    r.LeadsBack (codec, Reader.ofBytes oneArray) := by
  have hstart : Reader.start (Reader.ofBytes oneArray) =
      .ok () ⟨oneArray, 4, none, [6]⟩ := by
    rfl
  have htag : Reader.tag ⟨oneArray, 4, none, [6]⟩ =
      .ok (some .array) ⟨oneArray, 5, some .array, [6]⟩ := by
    rfl
  have hname : Reader.name ⟨oneArray, 5, some .array, [6]⟩ =
      .ok "" ⟨oneArray, 6, some .array, [6]⟩ := by
    rfl
  have hcodec : r.currentCodec ⟨oneArray, 6, some .array, [6]⟩ =
      .ok .value ⟨oneArray, 6, some .array, [6]⟩ :=
    currentCodec_eq_ok.mpr ⟨harray, rfl⟩
  exact ⟨_, .single (.element hnests hstart (.refl _) ⟨htag, hname, hcodec⟩), .value hcodec⟩

section

variable {history : List Registration} {target : Option Kind}

theorem own_of_last (hown : ∀ change ∈ history, change.codec.Own)
    (h : LastFor (initial ++ history) target codec) : codec.Own := by
  obtain ⟨before, after, hsplit, _⟩ := h
  have hmem : (⟨target, codec⟩ : Registration) ∈ initial ++ history := by
    rw [hsplit]
    simp
  rcases List.mem_append.mp hmem with hinitial | hhistory
  · simp only [initial, List.mem_cons, List.not_mem_nil, or_false, Registration.mk.injEq]
      at hinitial
    rcases hinitial with ⟨_, rfl⟩ | ⟨_, rfl⟩ <;> trivial
  · exact hown _ hhistory

theorem resolve_own (hown : ∀ change ∈ history, change.codec.Own) {kind : Kind}
    (h : (standard.registered history).resolve kind = .ok codec) : codec.Own := by
  have hresolves := resolves_resolve history kind
  rw [h] at hresolves
  cases hresolves with
  | scalar | array | sequence | mapping => trivial
  | registered _ hlast => exact own_of_last hown hlast
  | fallback _ hlast => exact own_of_last hown hlast

theorem registered_ofOwn (hown : ∀ change ∈ history, change.codec.Own) :
    (standard.registered history).OfOwn := by
  intro tag codec h
  rcases resolveTag_cases (standard.registered history) tag with hnull | ⟨kind, hkind⟩
  · rw [hnull] at h
    cases h
    trivial
  · rw [hkind] at h
    exact resolve_own hown h

theorem resolve_document (history : List Registration) (codec : Codec) :
    (standard.registered history).resolve .document = .ok codec ↔
      LastFor (initial ++ history) (some .document) codec := by
  constructor
  · intro h
    have hresolves := resolves_resolve history .document
    rw [h] at hresolves
    cases hresolves with
    | array hshape => cases hshape
    | registered _ hlast => exact hlast
    | sequence _ hshape => cases hshape
    | mapping hnone _ =>
        obtain ⟨other, hlast⟩ := exists_last_document history
        exact absurd hlast (hnone other)
    | fallback hunmatched _ => exact absurd rfl hunmatched.notMapping
  · intro h
    exact resolve_of_resolves (.registered (Kind.not_fixed (.inr rfl)) h)

theorem resolve_values (history : List Registration) :
    (standard.registered history).resolve (.list .value) = .ok .value ↔
      LastFor (initial ++ history) (some (.list .value)) .value := by
  constructor
  · intro h
    have hresolves := resolves_resolve history (.list .value)
    rw [h] at hresolves
    cases hresolves with
    | registered _ hlast => exact hlast
    | fallback hunmatched _ => exact absurd rfl hunmatched.notSequence
  · intro h
    exact resolve_of_resolves (.registered (Kind.not_fixed (.inl rfl)) h)

theorem endless_decode_iff (hown : ∀ change ∈ history, change.codec.Own)
    (hlast : LastFor (initial ++ history) (some .document) codec) (bytes : ByteArray) :
    Endless (standard.registered history).decodeDocument (ofBytes bytes) ↔
      (standard.registered history).HandedOnForever (codec, ofBytes bytes) := by
  rw [endless_decodeDocument ((resolve_document history codec).mpr hlast)]
  exact endless_iff_forever (registered_ofOwn hown) (own_of_last hown hlast)
    (inBounds_ofBytes bytes) (sufficient_steps codec _)

-- With `value` for documents, nothing is ever decoded.
theorem endless_of_value (hown : ∀ change ∈ history, change.codec.Own)
    (hlast : LastFor (initial ++ history) (some .document) .value) (bytes : ByteArray) :
    Endless (standard.registered history).decodeDocument (ofBytes bytes) := by
  rw [endless_decode_iff hown hlast]
  exact (value_leadsBack ((resolve_document history .value).mpr hlast) bytes).forever

-- Decoding does not end for some bytes if and only if `value` serves documents, or serves lists of
-- values where the codec of documents reads elements.
theorem endless_some_iff (hown : ∀ change ∈ history, change.codec.Own) :
    (∃ bytes, Endless (standard.registered history).decodeDocument (ofBytes bytes)) ↔
      ∃ codec, LastFor (initial ++ history) (some .document) codec ∧
        (codec = .value ∨
          codec.Nests ∧ LastFor (initial ++ history) (some (.list .value)) .value) := by
  constructor
  · rintro ⟨bytes, h⟩
    obtain ⟨codec, hlast⟩ := exists_last_document history
    have hcodec := (resolve_document history codec).mpr hlast
    rw [endless_decodeDocument hcodec] at h
    have hback := traced (registered_ofOwn hown) _ codec _ (own_of_last hown hlast)
      (inBounds_ofBytes bytes) (sufficient_steps codec _) h
    refine ⟨codec, hlast, ?_⟩
    rcases hback.forever.source with hvalue | hnests
    · exact .inl hvalue
    rcases hback.resolved with hdocument | hvalues
    · rw [hcodec] at hdocument
      cases hdocument
      exact .inl rfl
    · exact .inr ⟨hnests, (resolve_values history).mp hvalues⟩
  · rintro ⟨codec, hlast, rfl | ⟨hnests, hvalues⟩⟩
    · exact ⟨ByteArray.empty, endless_of_value hown hlast _⟩
    · refine ⟨oneArray, (endless_decode_iff hown hlast _).mpr ?_⟩
      exact (oneArray_leadsBack hnests ((resolve_values history).mpr hvalues)).forever

-- Whatever of the registry's own codecs is registered, bytes are decoded to no end if and only if
-- they are handed on for ever, and then in no number of steps. A hand-off moves on unless `value`
-- passes on all that it was to read. So decoding may come to no end just where `value` serves
-- documents, and then it never does, or where it serves the lists in documents.
theorem decoding_ends_unless_handed_on (history : List Registration)
    (hown : ∀ change ∈ history, change.codec.Own) :
    (∀ codec, LastFor (initial ++ history) (some .document) codec → ∀ bytes,
      (Endless (standard.registered history).decodeDocument (ofBytes bytes) ↔
        (standard.registered history).HandedOnForever (codec, ofBytes bytes)) ∧
      (Endless (standard.registered history).decodeDocument (ofBytes bytes) ↔ ∀ steps,
        Endless ((standard.registered history).readWith steps codec) (ofBytes bytes))) ∧
    (∀ codec s next, s.InBounds → (standard.registered history).HandsOff (codec, s) next →
      next.2.InBounds ∧ (s.position < next.2.position ∨ codec = .value ∧ next.2 = s)) ∧
    ((∃ bytes, Endless (standard.registered history).decodeDocument (ofBytes bytes)) ↔
      ∃ codec, LastFor (initial ++ history) (some .document) codec ∧
        (codec = .value ∨
          codec.Nests ∧ LastFor (initial ++ history) (some (.list .value)) .value)) ∧
    (LastFor (initial ++ history) (some .document) .value → ∀ bytes,
      Endless (standard.registered history).decodeDocument (ofBytes bytes)) := by
  have hregistry := registered_ofOwn hown
  refine ⟨fun codec hlast bytes => ?_, fun codec s next hs h => h.onward hregistry hs,
    endless_some_iff hown, fun hlast bytes => endless_of_value hown hlast bytes⟩
  have hforever := endless_decode_iff hown hlast bytes
  refine ⟨hforever, fun h steps => (hforever.mp h).endless steps, fun h => ?_⟩
  rw [endless_decodeDocument ((resolve_document history codec).mpr hlast)]
  exact h _

end

-- As a fallback, `value` does no harm.
theorem fallback_ends :
    (∀ change ∈ [(⟨none, .value⟩ : Registration)], change.codec.Own) ∧
      ¬∃ bytes, Endless (standard.registered [⟨none, .value⟩]).decodeDocument (ofBytes bytes) := by
  have hown : ∀ change ∈ [(⟨none, .value⟩ : Registration)], change.codec.Own := by
    simp [Codec.Own]
  refine ⟨hown, ?_⟩
  rw [(decoding_ends_unless_handed_on [⟨none, .value⟩] hown).2.2.1]
  rintro ⟨codec, hlast, hcase⟩
  have hdocument := (at?_registered [⟨none, .value⟩] _ _).mpr hlast
  cases hdocument
  rcases hcase with hvalue | ⟨_, hvalues⟩
  · cases hvalue
  · have hnone := (at?_registered [⟨none, .value⟩] _ _).mpr hvalues
    cases hnone

-- A document that a new registry decodes, and that is handed on for ever once `value` was registered
-- for documents.
theorem empty_document_handed_on :
    (∃ s, standard.decodeDocument (ofBytes [5, 0, 0, 0, 0].toByteArray) = .ok .empty s) ∧
      Endless (standard.registered [⟨some .document, .value⟩]).decodeDocument
        (ofBytes [5, 0, 0, 0, 0].toByteArray) := by
  have hown : ∀ change ∈ [(⟨some .document, .value⟩ : Registration)], change.codec.Own := by
    simp [Codec.Own]
  have hlast : LastFor (initial ++ [⟨some .document, .value⟩]) (some .document) .value :=
    lastFor_concat.mpr (.inl rfl)
  exact ⟨⟨_, rfl⟩, endless_of_value hown hlast _⟩

end DocWire.Registry
