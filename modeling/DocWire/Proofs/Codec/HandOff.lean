import Mathlib.Logic.Relation
import DocWire.Proofs.Codec.Steps
import DocWire.Proofs.Wire.Soundness

namespace DocWire.Registry

open Outcome Reader Wire

-- An element is announced: its tag and its name are read, and its payload is left to a codec.
inductive Element (r : Registry) (s : Reader) (name : String) (codec : Codec) : Reader → Prop where
  | intro {t : Tag} {u w : Reader} (htag : Reader.tag s = .ok (some t) u)
      (hname : Reader.name u = .ok name w) (hcodec : r.currentCodec w = .ok codec w) :
      Element r s name codec w

-- Some elements are read, one behind the other.
inductive Passed (r : Registry) : Reader → Reader → Prop where
  | refl (s : Reader) : Passed r s s
  | next {s w x y : Reader} {name : String} {codec : Codec} {steps : Nat} {v : Value}
      (helement : r.Element s name codec w) (hread : r.readWith steps codec w = .ok v x)
      (hpassed : Passed r x y) : Passed r s y

-- A codec leaves to another what it was to read: all of it, or one of its elements.
inductive HandsOff (r : Registry) : Codec × Reader → Codec × Reader → Prop where
  | value {s : Reader} {codec : Codec} (hcodec : r.currentCodec s = .ok codec s) :
      HandsOff r (.value, s) (codec, s)
  | element {s inside place w : Reader} {outer codec : Codec} {name : String}
      (hnests : outer.Nests) (hstart : Reader.start s = .ok () inside)
      (hpassed : r.Passed inside place) (helement : r.Element place name codec w) :
      HandsOff r (outer, s) (codec, w)

-- It is handed on and on.
def HandedOnForever (r : Registry) (start : Codec × Reader) : Prop :=
  ∃ chain : Nat → Codec × Reader, chain 0 = start ∧ ∀ n, r.HandsOff (chain n) (chain (n + 1))

-- Hand-offs lead to the codec that passes its work back to itself.
def LeadsBack (r : Registry) (start : Codec × Reader) : Prop :=
  ∃ t, Relation.ReflTransGen r.HandsOff start (.value, t) ∧ r.HandsOff (.value, t) (.value, t)

variable {α : Type} {r : Registry} {s t w x : Reader} {codec : Codec} {name : String}
  {steps : Nat}

theorem handsOff_value : r.HandsOff (.value, s) (codec, t) ↔ r.currentCodec s = .ok codec t := by
  constructor
  · intro h
    cases h with
    | value hcodec => exact hcodec
    | element hnests hstart hpassed helement => exact hnests.elim
  · intro h
    obtain ⟨_, rfl⟩ := currentCodec_eq_ok.mp h
    exact .value h

theorem HandedOnForever.of_loop {start : Codec × Reader} (h : r.HandsOff start start) :
    r.HandedOnForever start :=
  ⟨fun _ => start, rfl, fun _ => h⟩

theorem HandedOnForever.cons {start next : Codec × Reader} (h : r.HandsOff start next)
    (hnext : r.HandedOnForever next) : r.HandedOnForever start := by
  obtain ⟨chain, hfirst, hchain⟩ := hnext
  refine ⟨fun n => n.casesOn start chain, rfl, fun n => ?_⟩
  cases n with
  | zero =>
      change r.HandsOff start (chain 0)
      rw [hfirst]
      exact h
  | succ n => exact hchain n

theorem LeadsBack.forever {start : Codec × Reader} (h : r.LeadsBack start) :
    r.HandedOnForever start := by
  obtain ⟨t, hpath, hloop⟩ := h
  induction hpath using Relation.ReflTransGen.head_induction_on with
  | refl => exact .of_loop hloop
  | head hfirst _ ih => exact .cons hfirst ih

theorem LeadsBack.cons {start next : Codec × Reader} (h : r.HandsOff start next)
    (hnext : r.LeadsBack next) : r.LeadsBack start := by
  obtain ⟨t, hpath, hloop⟩ := hnext
  exact ⟨t, hpath.head h, hloop⟩

theorem resolve_error {kind : Kind} {e : CodecError} (h : r.resolve kind = .error e) :
    e = .unresolved kind := by
  unfold resolve at h
  split at h
  · cases h
  · split at h
    · cases h
    · split at h
      · cases h
      · split at h <;> cases h
        rfl

theorem resolveTag_cases (r : Registry) (tag : Tag) :
    r.resolveTag tag = .ok .null ∨ ∃ kind, r.resolveTag tag = r.resolve kind := by
  cases tag with
  | null => exact .inl rfl
  | _ =>
      rw [resolveTag]
      exact .inr ⟨_, rfl⟩

theorem resolveTag_error {tag : Tag} {e : CodecError} (h : r.resolveTag tag = .error e) :
    e ≠ .endless := by
  rcases resolveTag_cases r tag with hnull | ⟨kind, hkind⟩
  · rw [hnull] at h
    cases h
  · rw [hkind] at h
    rw [resolve_error h]
    exact nofun

theorem currentCodec_ends (r : Registry) : Ends r.currentCodec := by
  intro s e t h
  rw [currentCodec_eq] at h
  cases hresolve : r.resolveTag (s.current.getD .document) with
  | ok codec => simp [hresolve] at h
  | error fault =>
      rw [hresolve] at h
      cases h
      exact resolveTag_error hresolve

-- The payload of an element is read next, and then what follows it.
theorem Element.turn_eq (h : r.Element s name codec w) (done : α)
    (next : String → Value → Reader.Action α) :
    r.turn steps done next s = (r.readWith steps codec >>= next name) w := by
  obtain ⟨htag, hname, hcodec⟩ := h
  rw [turn, bind_of_ok htag]
  dsimp only
  rw [bind_of_ok hname, bind_of_ok hcodec]

theorem endless_turn {done : α} {next : String → Value → Reader.Action α} :
    Endless (r.turn steps done next) s ↔ ∃ name codec w, r.Element s name codec w ∧
      Endless (r.readWith steps codec >>= next name) w := by
  constructor
  · intro h
    rw [turn, endless_bind_of_ends tag_ends] at h
    obtain ⟨found, u, htag, h⟩ := h
    cases found with
    | none => exact absurd h (not_endless_pure _ _)
    | some t =>
        dsimp only at h
        rw [endless_bind_of_ends name_ends] at h
        obtain ⟨name, w, hname, h⟩ := h
        rw [endless_bind_of_ends (currentCodec_ends r)] at h
        obtain ⟨codec, w', hcodec, h⟩ := h
        obtain ⟨_, rfl⟩ := currentCodec_eq_ok.mp hcodec
        exact ⟨name, codec, w', ⟨htag, hname, hcodec⟩, h⟩
  · rintro ⟨name, codec, w, helement, t, h⟩
    exact ⟨t, by rw [helement.turn_eq, h]⟩

theorem endless_enclosed {body : Reader.Action α} {wrap : α → Value} :
    Endless (enclosed body wrap) s ↔
      ∃ inside, Reader.start s = .ok () inside ∧ Endless body inside := by
  have hrest : ∀ contents, Ends (do Reader.finish; return wrap contents) :=
    fun contents => raises_bind finish_ends fun _ => raises_pure _
  rw [enclosed, endless_bind_of_ends start_ends]
  constructor
  · rintro ⟨_, inside, hstart, h⟩
    rw [endless_bind] at h
    rcases h with h | ⟨contents, u, _, h⟩
    · exact ⟨inside, hstart, h⟩
    · exact absurd h ((hrest contents).not_endless u)
  · rintro ⟨inside, hstart, h⟩
    exact ⟨(), inside, hstart, endless_bind.mpr (.inl h)⟩

-- Fields and items are gone through in the same way, whatever is made of them.
theorem endless_fields_iff (d : Document) :
    Endless (r.readFields steps d) s ↔ Endless (r.readItems steps) s := by
  induction steps generalizing d s with
  | zero => exact iff_of_true (endless_throw s) (endless_throw s)
  | succ steps ih =>
      rw [readFields_succ, readItems_succ, endless_turn, endless_turn]
      simp only [endless_bind, not_endless_pure, and_false, exists_false, or_false, ih]

theorem endless_items_succ : Endless (r.readItems (steps + 1)) s ↔
    ∃ name codec w, r.Element s name codec w ∧ (Endless (r.readWith steps codec) w ∨
      ∃ v x, r.readWith steps codec w = .ok v x ∧ Endless (r.readItems steps) x) := by
  simp only [readItems_succ, endless_turn, endless_bind, not_endless_pure, and_false, exists_false,
    or_false]

theorem readWith_nests (hnests : codec.Nests) (steps : Nat) :
    r.readWith (steps + 1) codec = r.readDocument steps ∨
      r.readWith (steps + 1) codec = r.readArray steps := by
  cases codec with
  | document names => exact .inl rfl
  | map => exact .inl rfl
  | sequence => exact .inr rfl
  | array => exact .inr rfl
  | _ => exact hnests.elim

-- A codec that reads elements ends unless one of them does not.
theorem endless_nested (hnests : codec.Nests) : Endless (r.readWith (steps + 2) codec) s ↔
    ∃ inside, Reader.start s = .ok () inside ∧ Endless (r.readItems steps) inside := by
  rcases readWith_nests hnests (steps + 1) with h | h
  · rw [h, readDocument_succ, endless_enclosed]
    simp only [endless_fields_iff]
  · rw [h, readArray_succ, endless_enclosed]

theorem endless_few (hnests : codec.Nests) (hfew : steps < 2) (s : Reader) :
    Endless (r.readWith steps codec) s := by
  match steps, hfew with
  | 0, _ =>
      cases codec with
      | scalar | null | value | custom => exact hnests.elim
      | _ => exact endless_throw s
  | 1, _ =>
      rcases readWith_nests hnests 0 with h | h
      · rw [h]
        exact endless_throw s
      · rw [h]
        exact endless_throw s

-- What an element comes to in some number of steps, it comes to in any that is enough.
theorem readWith_settled {more : Nat} {v : Value} (h : r.readWith more codec s = .ok v x)
    (hends : ¬Endless (r.readWith steps codec) s) : r.readWith steps codec s = .ok v x := by
  have hmore : ¬Endless (r.readWith more codec) s := by
    rintro ⟨t, hthrow⟩
    rw [h] at hthrow
    cases hthrow
  rw [← continued_readWith (Nat.le_max_left steps more) codec s hends,
    continued_readWith (Nat.le_max_right steps more) codec s hmore, h]

-- Elements that were passed do not keep those behind them from being reached.
theorem endless_items_of_passed {place : Reader} (hpassed : r.Passed s place)
    (helement : r.Element place name codec w)
    (hendless : ∀ fewer < steps, Endless (r.readWith fewer codec) w) :
    Endless (r.readItems steps) s := by
  induction hpassed generalizing steps with
  | refl s =>
      cases steps with
      | zero => exact endless_throw s
      | succ steps =>
          exact endless_items_succ.mpr
            ⟨name, codec, w, helement, .inl (hendless steps (Nat.lt_succ_self _))⟩
  | @next s u x place own first more v hfirst hread _ ih =>
      cases steps with
      | zero => exact endless_throw s
      | succ steps =>
          refine endless_items_succ.mpr ⟨own, first, u, hfirst, ?_⟩
          by_cases hown : Endless (r.readWith steps first) u
          · exact .inl hown
          · have hrest := ih helement fun fewer h => hendless fewer (Nat.lt_succ_of_lt h)
            exact .inr ⟨v, x, readWith_settled hread hown, hrest⟩

theorem endless_of_handsOff {next : Codec × Reader} (h : r.HandsOff (codec, s) next)
    (hnext : ∀ fewer < steps, Endless (r.readWith fewer next.1) next.2) :
    Endless (r.readWith steps codec) s := by
  cases h with
  | value hcodec =>
      cases steps with
      | zero => exact endless_throw s
      | succ steps =>
          rw [readWith_value]
          exact endless_bind.mpr (.inr ⟨_, _, hcodec, hnext steps (Nat.lt_succ_self _)⟩)
  | @element _ inside place w _ own name hnests hstart hpassed helement =>
      by_cases hfew : steps < 2
      · exact endless_few hnests hfew s
      · obtain ⟨fewer, rfl⟩ := Nat.exists_eq_add_of_le (Nat.not_lt.mp hfew)
        rw [Nat.add_comm]
        refine (endless_nested hnests).mpr ⟨inside, hstart, ?_⟩
        exact endless_items_of_passed hpassed helement fun count h => hnext count (by omega)

-- What is handed on and on comes to no end in any number of steps.
theorem HandedOnForever.endless {start : Codec × Reader} (h : r.HandedOnForever start)
    (steps : Nat) : Endless (r.readWith steps start.1) start.2 := by
  obtain ⟨chain, rfl, hchain⟩ := h
  have hall : ∀ n, Endless (r.readWith steps (chain n).1) (chain n).2 := by
    induction steps using Nat.strongRecOn with
    | ind steps ih =>
        intro n
        exact endless_of_handsOff (hchain n) fun fewer h => ih fewer h (n + 1)
  exact hall 0

theorem Element.onward (h : r.Element s name codec w) (hs : s.InBounds) :
    Moved s w ∧ s.position < w.position ∧ w.remaining + 2 ≤ s.remaining := by
  obtain ⟨htag, hname, _⟩ := h
  obtain ⟨_, _, hheld, hpast⟩ := element_read_sound hs.bounded htag hname
  have hposition := hpast.position
  rw [size_announced] at hposition
  have hinside : w.position ≤ s.limit := by
    rw [hpast.position]
    exact hheld.1
  have hmoved : Moved s w := ⟨hpast.bytes, hpast.ends, by omega, hinside⟩
  refine ⟨hmoved, by omega, ?_⟩
  rw [remaining, remaining, hmoved.limit_eq]
  omega

theorem Element.own (hr : r.OfOwn) (h : r.Element s name codec w) : codec.Own := by
  obtain ⟨_, _, hcodec⟩ := h
  exact hr _ codec (currentCodec_eq_ok.mp hcodec).1

theorem Passed.onward (hr : r.OfOwn) {place : Reader} (h : r.Passed s place) (hs : s.InBounds) :
    Moved s place := by
  induction h with
  | refl => exact hs.refl
  | next helement hread _ ih =>
      have hannounced := (helement.onward hs).1
      have hvalue := (movesOn hr _).value _ (helement.own hr) _ _ _ (hs.moved hannounced) hread
      have hmoved := hannounced.trans hvalue
      exact hmoved.trans (ih (hs.moved hmoved))

-- The steps that are enough, as `value` passes on once before it reads.
def Sufficient (steps : Nat) (codec : Codec) (s : Reader) : Prop :=
  match codec with
  | .value => 4 * s.remaining + 3 ≤ steps
  | _ => 4 * s.remaining + 2 ≤ steps

theorem sufficient_of_le (h : 4 * s.remaining + 3 ≤ steps) : Sufficient steps codec s := by
  cases codec with
  | value => exact h
  | _ => exact Nat.le_of_succ_le h

theorem sufficient_of_ne (hcodec : codec ≠ .value) (h : 4 * s.remaining + 2 ≤ steps) :
    Sufficient steps codec s := by
  cases codec with
  | value => exact absurd rfl hcodec
  | _ => exact h

theorem Sufficient.two_le (h : Sufficient steps codec s) : 4 * s.remaining + 2 ≤ steps := by
  cases codec with
  | value => exact Nat.le_of_succ_le h
  | _ => exact h

-- A codec that comes to no end in that many steps leads to one that passes its work back.
def Traced (r : Registry) (steps : Nat) : Prop :=
  ∀ codec s, codec.Own → s.InBounds → Sufficient steps codec s →
    Endless (r.readWith steps codec) s → r.LeadsBack (codec, s)

theorem items_traced (hr : r.OfOwn) (htraced : ∀ fewer < steps, r.Traced fewer)
    (hs : s.InBounds) (hsteps : 4 * s.remaining + 1 ≤ steps)
    (h : Endless (r.readItems steps) s) :
    ∃ place name codec w, r.Passed s place ∧ r.Element place name codec w ∧
      r.LeadsBack (codec, w) := by
  induction steps generalizing s with
  | zero => omega
  | succ steps ih =>
      obtain ⟨name, codec, w, helement, hcases⟩ := endless_items_succ.mp h
      obtain ⟨hmoved, _, hless⟩ := helement.onward hs
      have hown := helement.own hr
      have hw := hs.moved hmoved
      rcases hcases with hvalue | ⟨v, x, hread, hrest⟩
      · have hback := htraced steps (Nat.lt_succ_self _) codec w hown hw
          (sufficient_of_le (by omega)) hvalue
        exact ⟨s, name, codec, w, .refl s, helement, hback⟩
      · have hx := (movesOn hr steps).value codec hown w v x hw hread
        have hremaining := hx.remaining_le
        obtain ⟨place, later, last, u, hpassed, hlast, hback⟩ :=
          ih (fun fewer h => htraced fewer (Nat.lt_succ_of_lt h)) (hw.moved hx) (by omega) hrest
        exact ⟨place, later, last, u, .next helement hread hpassed, hlast, hback⟩

theorem nested_traced (hr : r.OfOwn) (htraced : ∀ fewer < steps, r.Traced fewer)
    (hnests : codec.Nests) (hs : s.InBounds) (hsteps : 4 * s.remaining ≤ steps)
    (h : Endless (r.readWith (steps + 2) codec) s) : r.LeadsBack (codec, s) := by
  obtain ⟨inside, hstart, hitems⟩ := (endless_nested hnests).mp h
  obtain ⟨hinside, _, _, hless, _⟩ := start_enters hs hstart
  obtain ⟨place, name, own, w, hpassed, helement, hback⟩ :=
    items_traced hr htraced hinside (by omega) hitems
  exact hback.cons (.element hnests hstart hpassed helement)

theorem value_traced (hr : r.OfOwn) (htraced : r.Traced steps) (hs : s.InBounds)
    (hsteps : 4 * s.remaining + 2 ≤ steps) (h : Endless (r.readWith (steps + 1) .value) s) :
    r.LeadsBack (.value, s) := by
  rw [readWith_value, endless_bind_of_ends (currentCodec_ends r)] at h
  obtain ⟨codec, w, hcodec, h⟩ := h
  obtain ⟨hresolved, rfl⟩ := currentCodec_eq_ok.mp hcodec
  by_cases hvalue : codec = .value
  · subst hvalue
    exact ⟨w, .refl, .value hcodec⟩
  · have hback := htraced codec w (hr _ codec hresolved) hs (sufficient_of_ne hvalue hsteps) h
    exact hback.cons (.value hcodec)

-- The induction is on the steps: a codec hands on to others with fewer of them, and each element
-- leaves enough of them for what follows it, as it takes two bytes at least.
theorem traced (hr : r.OfOwn) (steps : Nat) : r.Traced steps := by
  induction steps using Nat.strongRecOn with
  | ind steps ih =>
      intro codec s hown hs hsteps h
      have htwo := hsteps.two_le
      by_cases hnests : codec.Nests
      · obtain ⟨fewer, rfl⟩ := Nat.exists_eq_add_of_le' (by omega : 2 ≤ steps)
        exact nested_traced hr (fun count h => ih count (by omega)) hnests hs (by omega) h
      cases codec with
      | scalar scalar =>
          rw [readWith_scalar] at h
          exact absurd h (scalar.read_ends.not_endless s)
      | null =>
          rw [readWith_null, endless_bind_of_ends null_ends] at h
          obtain ⟨_, u, _, hpure⟩ := h
          exact absurd hpure (not_endless_pure _ u)
      | custom encode decode => exact hown.elim
      | value =>
          obtain ⟨fewer, rfl⟩ := Nat.exists_eq_add_of_le' (by omega : 1 ≤ steps)
          have hthree : 4 * s.remaining + 3 ≤ fewer + 1 := hsteps
          exact value_traced hr (ih fewer (Nat.lt_succ_self _)) hs (by omega) h
      | _ => exact absurd trivial hnests

theorem endless_iff_forever (hr : r.OfOwn) (hown : codec.Own) (hs : s.InBounds)
    (hsteps : Sufficient steps codec s) :
    Endless (r.readWith steps codec) s ↔ r.HandedOnForever (codec, s) :=
  ⟨fun h => (traced hr steps codec s hown hs hsteps h).forever, fun h => h.endless steps⟩

theorem endless_decodeDocument (hcodec : r.resolve .document = .ok codec) :
    Endless r.decodeDocument s ↔ Endless (r.readWith (Registry.steps s) codec) s := by
  rw [decodeDocument, hcodec]
  dsimp only
  rw [endless_bind, decodeWith]
  constructor
  · rintro (h | ⟨v, u, _, t, hjudged⟩)
    · exact h
    · cases v <;> cases hjudged
  · exact .inl

theorem sufficient_steps (codec : Codec) (s : Reader) : Sufficient (Registry.steps s) codec s :=
  sufficient_of_le (by rw [Registry.steps]; omega)

-- Each hand-off moves on, unless all of the work is passed on by `value`.
theorem HandsOff.onward (hr : r.OfOwn) {next : Codec × Reader} (hs : s.InBounds)
    (h : r.HandsOff (codec, s) next) :
    next.2.InBounds ∧ (s.position < next.2.position ∨ codec = .value ∧ next.2 = s) := by
  cases h with
  | value hcodec => exact ⟨hs, .inr ⟨rfl, rfl⟩⟩
  | @element _ inside place w _ own name hnests hstart hpassed helement =>
      obtain ⟨hinside, _, hentered, _⟩ := start_enters hs hstart
      have hplace := hpassed.onward hr hinside
      obtain ⟨hw, hannounced, _⟩ := helement.onward (hinside.moved hplace)
      have hpast : s.position < w.position := by
        have honward := hplace.onward
        omega
      exact ⟨(hinside.moved hplace).moved hw, .inl hpast⟩

theorem HandsOff.source {next : Codec × Reader} (h : r.HandsOff (codec, s) next) :
    codec = .value ∨ codec.Nests := by
  cases h with
  | value hcodec => exact .inl rfl
  | element hnests hstart hpassed helement => exact .inr hnests

theorem HandedOnForever.source (h : r.HandedOnForever (codec, s)) :
    codec = .value ∨ codec.Nests := by
  obtain ⟨chain, hfirst, hchain⟩ := h
  have hnext := hchain 0
  rw [hfirst] at hnext
  exact hnext.source

end DocWire.Registry
