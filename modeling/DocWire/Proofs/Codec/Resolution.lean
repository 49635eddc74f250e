import Mathlib.Data.List.Induction
import DocWire.Codec.Registry

namespace DocWire

-- A codec for exactly one type, or without a type for all that nothing else serves.
structure Registration where
  target : Option Kind
  codec : Codec

-- What a registration answers, and the registry that it leaves.
def Registration.apply (change : Registration) (r : Registry) : Bool × Registry :=
  match change.target with
  | some kind => r.register kind change.codec
  | none => r.registerFallback change.codec

-- The codec was registered for the target, and nothing has been registered for that since.
def LastFor (history : List Registration) (target : Option Kind) (codec : Codec) : Prop :=
  ∃ before after, history = before ++ ⟨target, codec⟩ :: after ∧
    ∀ later ∈ after, later.target ≠ target

-- The types whose codecs no registration changes.
def Kind.Fixed (kind : Kind) : Prop :=
  (∃ s, kind = .scalar s) ∨ kind.shape = .array

theorem Kind.not_fixed {kind : Kind} (h : kind.shape = .sequence ∨ kind.shape = .mapping) :
    ¬kind.Fixed := by
  rintro (⟨s, rfl⟩ | hshape)
  · simp [Kind.shape] at h
  · simp [hshape] at h

-- The types that only the fallback can serve.
structure Unmatched (history : List Registration) (kind : Kind) : Prop where
  notFixed : ¬kind.Fixed
  unregistered : ∀ codec, ¬LastFor history (some kind) codec
  notSequence : kind.shape ≠ .sequence
  notMapping : kind.shape ≠ .mapping

-- What the search for the codec of a type ends with after a history of registrations.
inductive Resolves (history : List Registration) : Kind → Except CodecError Codec → Prop where
  | scalar (s : Scalar) : Resolves history (.scalar s) (.ok (.scalar s))
  | array {kind : Kind} (hshape : kind.shape = .array) : Resolves history kind (.ok .array)
  | registered {kind : Kind} {codec : Codec} (hfixed : ¬kind.Fixed)
      (hlast : LastFor history (some kind) codec) : Resolves history kind (.ok codec)
  | sequence {kind : Kind} (hnone : ∀ codec, ¬LastFor history (some kind) codec)
      (hshape : kind.shape = .sequence) : Resolves history kind (.ok .sequence)
  | mapping {kind : Kind} (hnone : ∀ codec, ¬LastFor history (some kind) codec)
      (hshape : kind.shape = .mapping) : Resolves history kind (.ok .map)
  | fallback {kind : Kind} {codec : Codec} (hunmatched : Unmatched history kind)
      (hlast : LastFor history none codec) : Resolves history kind (.ok codec)
  | unresolved {kind : Kind} (hunmatched : Unmatched history kind)
      (hnone : ∀ codec, ¬LastFor history none codec) :
      Resolves history kind (.error (.unresolved kind))

theorem lastFor_concat {history : List Registration} {change : Registration}
    {target : Option Kind} {codec : Codec} :
    LastFor (history ++ [change]) target codec ↔
      change = ⟨target, codec⟩ ∨ change.target ≠ target ∧ LastFor history target codec := by
  constructor
  · rintro ⟨before, after, hsplit, hafter⟩
    cases after using List.reverseRecOn with
    | nil =>
        obtain ⟨_, hlast⟩ := List.append_inj' hsplit rfl
        exact .inl (List.singleton_inj.mp hlast)
    | append_singleton after last =>
        rw [← List.cons_append, ← List.append_assoc] at hsplit
        obtain ⟨hhistory, hlast⟩ := List.append_inj' hsplit rfl
        obtain rfl := List.singleton_inj.mp hlast
        exact .inr ⟨hafter change (by simp), before, after, hhistory,
          fun later hlater => hafter later (by simp [hlater])⟩
  · rintro (rfl | ⟨hchange, before, after, rfl, hafter⟩)
    · exact ⟨history, [], rfl, by simp⟩
    · refine ⟨before, after ++ [change], by simp, fun later hlater => ?_⟩
      rcases List.mem_append.mp hlater with hmem | hmem
      · exact hafter later hmem
      · rw [List.mem_singleton.mp hmem]
        exact hchange

theorem lastFor_added (earlier history : List Registration) (target : Option Kind)
    (codec : Codec) : LastFor (earlier ++ (history ++ [⟨target, codec⟩])) target codec := by
  rw [← List.append_assoc]
  exact lastFor_concat.mpr (.inl rfl)

theorem not_lastFor_nil (target : Option Kind) (codec : Codec) : ¬LastFor [] target codec := by
  rintro ⟨before, after, hsplit, _⟩
  simp at hsplit

-- Something was registered last if anything was.
theorem exists_lastFor_iff {history : List Registration} {target : Option Kind} :
    (∃ codec, LastFor history target codec) ↔ ∃ change ∈ history, change.target = target := by
  induction history using List.reverseRecOn with
  | nil => simp [not_lastFor_nil]
  | append_singleton history change ih =>
      simp only [lastFor_concat, exists_or, exists_and_left, ih, List.mem_append,
        List.mem_singleton, or_and_right, exists_eq_left]
      constructor
      · rintro (⟨codec, rfl⟩ | ⟨_, hbefore⟩)
        · exact .inr rfl
        · exact .inl hbefore
      · rintro (hbefore | rfl)
        · by_cases htarget : change.target = target
          · exact .inl ⟨change.codec, by rw [← htarget]⟩
          · exact .inr ⟨htarget, hbefore⟩
        · exact .inl ⟨change.codec, rfl⟩

namespace Registry

-- What is registered for exactly this type, or as the fallback.
def at? (r : Registry) : Option Kind → Option Codec
  | some kind => r.exactly.lookup kind
  | none => r.fallback

def registered (r : Registry) (history : List Registration) : Registry :=
  history.foldl (fun r change => (change.apply r).2) r

-- What every registry is told first.
def initial : List Registration :=
  [⟨some .document, .document .any⟩, ⟨some .value, .value⟩]

theorem registered_concat (r : Registry) (history : List Registration) (change : Registration) :
    r.registered (history ++ [change]) = (change.apply (r.registered history)).2 :=
  List.foldl_append

theorem lookup_filter_other {entries : List (Kind × Codec)} {kind other : Kind}
    (h : other ≠ kind) :
    (entries.filter fun entry => entry.1 ≠ kind).lookup other = entries.lookup other := by
  induction entries with
  | nil => rfl
  | cons entry rest ih =>
      obtain ⟨name, codec⟩ := entry
      by_cases hname : name = kind
      · subst hname
        rw [List.filter_cons_of_neg (by simp), ih, List.lookup_cons, beq_false_of_ne h]
      · rw [List.filter_cons_of_pos (by simpa using hname), List.lookup_cons, List.lookup_cons, ih]

-- A registration tells whether its place was taken, takes it, and leaves all other places alone.
theorem apply_answers (change : Registration) (r : Registry) :
    (change.apply r).1 = (r.at? change.target).isSome ∧
      ∀ target, (change.apply r).2.at? target =
        if target = change.target then some change.codec else r.at? target := by
  obtain ⟨place, codec⟩ := change
  cases place with
  | none =>
      refine ⟨rfl, fun target => ?_⟩
      cases target with
      | none => rfl
      | some kind => rfl
  | some kind =>
      refine ⟨rfl, fun target => ?_⟩
      cases target with
      | none => rfl
      | some other =>
          change List.lookup other ((kind, codec) :: _) = _
          by_cases hother : other = kind
          · subst hother
            rw [if_pos rfl, List.lookup_cons_self]
          · rw [if_neg (by simpa using hother), List.lookup_cons, beq_false_of_ne hother]
            exact lookup_filter_other hother

theorem at?_standard (target : Option Kind) (codec : Codec) :
    standard.at? target = some codec ↔ LastFor initial target codec := by
  have hinitial : initial = [] ++ [⟨some .document, .document .any⟩] ++ [⟨some .value, .value⟩] :=
    rfl
  rw [hinitial, lastFor_concat, lastFor_concat]
  simp only [not_lastFor_nil, and_false, or_false, Registration.mk.injEq]
  cases target with
  | none => simp [at?, standard]
  | some kind =>
      by_cases hdocument : kind = .document
      · subst hdocument
        simp [at?, standard]
      by_cases hvalue : kind = .value
      · subst hvalue
        have hother : (Kind.value == Kind.document) = false := beq_false_of_ne hdocument
        simp [at?, standard, List.lookup_cons, hother]
      · have hother : (kind == Kind.document) = false := beq_false_of_ne hdocument
        have hother' : (kind == Kind.value) = false := beq_false_of_ne hvalue
        simp [at?, standard, List.lookup_cons, hother, hother', Ne.symm hdocument, Ne.symm hvalue]

-- A registry holds what was registered last.
theorem at?_registered (history : List Registration) (target : Option Kind) (codec : Codec) :
    (standard.registered history).at? target = some codec ↔
      LastFor (initial ++ history) target codec := by
  induction history using List.reverseRecOn with
  | nil =>
      rw [List.append_nil]
      exact at?_standard target codec
  | append_singleton history change ih =>
      rw [registered_concat, (apply_answers change _).2, ← List.append_assoc, lastFor_concat, ← ih]
      by_cases htarget : target = change.target
      · subst htarget
        obtain ⟨place, own⟩ := change
        simp
      · have hother : change.target ≠ target := fun heq => htarget heq.symm
        have hchange : change ≠ ⟨target, codec⟩ := fun heq => hother (congrArg (·.target) heq)
        simp [htarget, hother, hchange]

theorem at?_registered_eq_none {history : List Registration} {target : Option Kind} :
    (standard.registered history).at? target = none ↔
      ∀ codec, ¬LastFor (initial ++ history) target codec := by
  simp only [← at?_registered]
  exact Option.eq_none_iff_forall_ne_some

theorem resolve_array {kind : Kind} (hshape : kind.shape = .array) (r : Registry) :
    r.resolve kind = .ok .array := by
  cases kind <;> simp_all [resolve, Kind.shape]

-- Scalars and arrays have the same codecs in all registries.
theorem resolve_fixed {kind : Kind} (hfixed : kind.Fixed) (r r' : Registry) :
    r.resolve kind = r'.resolve kind := by
  rcases hfixed with ⟨s, rfl⟩ | hshape
  · rfl
  · rw [resolve_array hshape, resolve_array hshape]

-- For all other types the search looks at what is registered for exactly this type, at the shape
-- of the type, and at the fallback.
theorem resolve_open {kind : Kind} (hfixed : ¬kind.Fixed) (r : Registry) :
    r.resolve kind =
      match r.at? (some kind) with
      | some codec => .ok codec
      | none =>
        match kind.shape, r.at? none with
        | .sequence, _ => .ok .sequence
        | .mapping, _ => .ok .map
        | _, some codec => .ok codec
        | _, none => .error (.unresolved kind) := by
  have hshape : kind.shape ≠ .array := fun h => hfixed (.inr h)
  cases kind with
  | scalar s => exact absurd (.inl ⟨s, rfl⟩) hfixed
  | _ =>
      unfold resolve
      exact if_neg hshape

theorem resolve_sequence {kind : Kind} {r : Registry} (hnone : r.at? (some kind) = none)
    (hshape : kind.shape = .sequence) : r.resolve kind = .ok .sequence := by
  rw [resolve_open (Kind.not_fixed (.inl hshape)), hnone, hshape]

theorem resolve_mapping {kind : Kind} {r : Registry} (hnone : r.at? (some kind) = none)
    (hshape : kind.shape = .mapping) : r.resolve kind = .ok .map := by
  rw [resolve_open (Kind.not_fixed (.inr hshape)), hnone, hshape]

-- What nothing else serves is left to the fallback.
theorem resolve_unmatched {history : List Registration} {kind : Kind}
    (h : Unmatched (initial ++ history) kind) :
    (standard.registered history).resolve kind =
      match (standard.registered history).at? none with
      | some codec => .ok codec
      | none => .error (.unresolved kind) := by
  rw [resolve_open h.notFixed, at?_registered_eq_none.mpr h.unregistered]
  dsimp only
  cases hshape : kind.shape with
  | array => exact absurd (.inr hshape) h.notFixed
  | sequence => exact absurd hshape h.notSequence
  | mapping => exact absurd hshape h.notMapping
  | _ => cases (standard.registered history).at? none <;> rfl

-- For every type there is a rule that gives the outcome of the search.
theorem resolves_resolve (history : List Registration) (kind : Kind) :
    Resolves (initial ++ history) kind ((standard.registered history).resolve kind) := by
  by_cases hfixed : kind.Fixed
  · rcases hfixed with ⟨s, rfl⟩ | hshape
    · exact .scalar s
    · rw [resolve_array hshape]
      exact .array hshape
  cases hregistered : (standard.registered history).at? (some kind) with
  | some codec =>
      rw [resolve_open hfixed, hregistered]
      exact .registered hfixed ((at?_registered history _ _).mp hregistered)
  | none =>
      have hnone := at?_registered_eq_none.mp hregistered
      by_cases hsequence : kind.shape = .sequence
      · rw [resolve_sequence hregistered hsequence]
        exact .sequence hnone hsequence
      by_cases hmapping : kind.shape = .mapping
      · rw [resolve_mapping hregistered hmapping]
        exact .mapping hnone hmapping
      have hunmatched : Unmatched (initial ++ history) kind :=
        ⟨hfixed, hnone, hsequence, hmapping⟩
      rw [resolve_unmatched hunmatched]
      cases hfallback : (standard.registered history).at? none with
      | some codec => exact .fallback hunmatched ((at?_registered history _ _).mp hfallback)
      | none => exact .unresolved hunmatched (at?_registered_eq_none.mp hfallback)

-- No other outcome follows from a rule.
theorem resolve_of_resolves {history : List Registration} {kind : Kind}
    {outcome : Except CodecError Codec} (h : Resolves (initial ++ history) kind outcome) :
    (standard.registered history).resolve kind = outcome := by
  cases h with
  | scalar s => rfl
  | array hshape => exact resolve_array hshape _
  | registered hfixed hlast =>
      rw [resolve_open hfixed, (at?_registered history _ _).mpr hlast]
  | sequence hnone hshape => exact resolve_sequence (at?_registered_eq_none.mpr hnone) hshape
  | mapping hnone hshape => exact resolve_mapping (at?_registered_eq_none.mpr hnone) hshape
  | fallback hunmatched hlast =>
      rw [resolve_unmatched hunmatched, (at?_registered history _ _).mpr hlast]
  | unresolved hunmatched hnone =>
      rw [resolve_unmatched hunmatched, at?_registered_eq_none.mpr hnone]

-- A registration for one type matters to this type only, and not even to that if it is fixed.
theorem resolve_apply_exactly (kind : Kind) (codec : Codec) (r : Registry) (other : Kind)
    (h : other = kind → kind.Fixed) :
    ((⟨some kind, codec⟩ : Registration).apply r).2.resolve other = r.resolve other := by
  by_cases hfixed : other.Fixed
  · exact resolve_fixed hfixed _ _
  · have hother : other ≠ kind := fun heq => hfixed (heq ▸ h heq)
    have hplaces := (apply_answers ⟨some kind, codec⟩ r).2
    rw [resolve_open hfixed, resolve_open hfixed, hplaces, hplaces, if_neg (by simpa using hother),
      if_neg (by simp)]

-- A fallback matters only to types that nothing else serves.
theorem resolve_apply_fallback (history : List Registration) (codec : Codec) (kind : Kind)
    (h : ¬Unmatched (initial ++ history) kind) :
    ((⟨none, codec⟩ : Registration).apply (standard.registered history)).2.resolve kind =
      (standard.registered history).resolve kind := by
  by_cases hfixed : kind.Fixed
  · exact resolve_fixed hfixed _ _
  have hsame : ((⟨none, codec⟩ : Registration).apply (standard.registered history)).2.at?
      (some kind) = (standard.registered history).at? (some kind) := by
    rw [(apply_answers ⟨none, codec⟩ _).2, if_neg (by simp)]
  cases hregistered : (standard.registered history).at? (some kind) with
  | some own =>
      rw [hregistered] at hsame
      rw [resolve_open hfixed, resolve_open hfixed, hsame, hregistered]
  | none =>
      rw [hregistered] at hsame
      by_cases hsequence : kind.shape = .sequence
      · rw [resolve_sequence hsame hsequence, resolve_sequence hregistered hsequence]
      by_cases hmapping : kind.shape = .mapping
      · rw [resolve_mapping hsame hmapping, resolve_mapping hregistered hmapping]
      exact absurd ⟨hfixed, at?_registered_eq_none.mp hregistered, hsequence, hmapping⟩ h

theorem exists_last_document (history : List Registration) :
    ∃ codec, LastFor (initial ++ history) (some .document) codec :=
  exists_lastFor_iff.mpr ⟨⟨some .document, .document .any⟩, by simp [initial], rfl⟩

-- Every element has a codec, and only those of documents and of arrays go by what is registered.
theorem resolveTag_registered (history : List Registration) (tag : Tag) :
    (∃ codec, (standard.registered history).resolveTag tag = .ok codec) ∧
      (tag ≠ .document → tag ≠ .array →
        (standard.registered history).resolveTag tag = standard.resolveTag tag) := by
  cases tag with
  | document =>
      obtain ⟨codec, hlast⟩ := exists_last_document history
      have hregistered := (at?_registered history _ _).mpr hlast
      refine ⟨⟨codec, ?_⟩, fun h => absurd rfl h⟩
      rw [resolveTag, resolve_open (Kind.not_fixed (.inr rfl)), hregistered]
  | array =>
      refine ⟨?_, fun _ h => absurd rfl h⟩
      rw [resolveTag]
      cases hregistered : (standard.registered history).at? (some (.list .value)) with
      | some codec =>
          rw [resolve_open (Kind.not_fixed (.inl rfl)), hregistered]
          exact ⟨codec, rfl⟩
      | none => exact ⟨.sequence, resolve_sequence hregistered rfl⟩
  | _ => exact ⟨⟨_, rfl⟩, fun _ _ => rfl⟩

-- Whatever was registered, the codec of a type is found by the first rule that applies to it, and a
-- registration tells whether there was one for the same target. It changes nothing for other types,
-- nor for a type that is fixed, and as a fallback it changes nothing for types that something else
-- serves. Elements can always be read.
theorem codecs_follow_registrations (history : List Registration) :
    (∀ kind outcome, (standard.registered history).resolve kind = outcome ↔
        Resolves (initial ++ history) kind outcome) ∧
      (∀ change : Registration, (change.apply (standard.registered history)).1 = true ↔
        ∃ earlier ∈ initial ++ history, earlier.target = change.target) ∧
      (∀ kind codec other, (other = kind → kind.Fixed) →
        (standard.registered (history ++ [⟨some kind, codec⟩])).resolve other =
          (standard.registered history).resolve other) ∧
      (∀ kind codec, ¬kind.Fixed →
        (standard.registered (history ++ [⟨some kind, codec⟩])).resolve kind = .ok codec) ∧
      (∀ codec kind, ¬Unmatched (initial ++ history) kind →
        (standard.registered (history ++ [⟨none, codec⟩])).resolve kind =
          (standard.registered history).resolve kind) ∧
      (∀ codec kind, Unmatched (initial ++ history) kind →
        (standard.registered (history ++ [⟨none, codec⟩])).resolve kind = .ok codec) ∧
      ∀ tag, (∃ codec, (standard.registered history).resolveTag tag = .ok codec) ∧
        (tag ≠ .document → tag ≠ .array →
          (standard.registered history).resolveTag tag = standard.resolveTag tag) := by
  refine ⟨fun kind outcome => ⟨?_, resolve_of_resolves⟩, fun change => ?_,
    fun kind codec other h => ?_, fun kind codec hfixed => ?_, fun codec kind h => ?_,
    fun codec kind h => ?_, resolveTag_registered history⟩
  · rintro rfl
    exact resolves_resolve history kind
  · rw [(apply_answers change _).1, Option.isSome_iff_exists, ← exists_lastFor_iff]
    exact exists_congr fun codec => at?_registered history change.target codec
  · rw [registered_concat]
    exact resolve_apply_exactly kind codec _ other h
  · exact resolve_of_resolves (.registered hfixed (lastFor_added _ history _ codec))
  · rw [registered_concat]
    exact resolve_apply_fallback history codec kind h
  · have hunregistered : ∀ own,
        ¬LastFor (initial ++ (history ++ [⟨none, codec⟩])) (some kind) own := by
      intro own hown
      rw [← List.append_assoc] at hown
      rcases lastFor_concat.mp hown with heq | ⟨_, hown⟩
      · cases heq
      · exact h.unregistered own hown
    exact resolve_of_resolves (.fallback
      ⟨h.notFixed, hunregistered, h.notSequence, h.notMapping⟩ (lastFor_added _ history _ codec))

-- A codec for a scalar is kept, and is not used.
example :
    let r := standard.registered [⟨some (.scalar .int32), .null⟩]
    r.resolve (.scalar .int32) = .ok (.scalar .int32) ∧
      (r.register (.scalar .int32) .value).1 = true :=
  ⟨rfl, rfl⟩

end Registry

end DocWire
