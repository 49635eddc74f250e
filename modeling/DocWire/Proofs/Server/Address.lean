import DocWire.Proofs.Text.Blank
import DocWire.Proofs.Text.Decimal
import DocWire.Server.Address

namespace DocWire.ServerAddress

-- The texts of an address: a host alone, which goes with the default port, or a host and a decimal
-- form of a port behind the last colon.
inductive Written : List Char → ServerAddress → Prop where
  | alone {host : List Char} (hhost : host ≠ []) (hcolon : ':' ∉ host) :
      Written host ⟨String.ofList host, defaultPort⟩
  | withPort {host digits : List Char} {port : UInt16} (hhost : host ≠ []) (hlast : ':' ∉ digits)
      (hport : Text.Numeral port.toNat digits) :
      Written (host ++ ':' :: digits) ⟨String.ofList host, port⟩

variable {a : ServerAddress} {inner : List Char} {text : String} {e : SelectionError}

theorem Written.parsed (h : Written inner a) : parseTrimmed inner = some a := by
  cases h with
  | alone hhost hcolon =>
      simp [parseTrimmed, Text.splitLast_eq_none.mpr hcolon, hhost]
  | @withPort host digits port hhost hlast hport =>
      have hnumber := Text.unsigned_eq_some.mpr ⟨port.toNat_lt, hport⟩
      obtain ⟨c, rest, rfl⟩ := List.exists_cons_of_ne_nil hhost
      rw [parseTrimmed, Text.splitLast_append hlast]
      simp only [hnumber, Option.map_some, UInt16.ofNat_toNat]

theorem written_of_parsed (h : parseTrimmed inner = some a) : Written inner a := by
  rw [parseTrimmed] at h
  split at h
  · cases h
  · rename_i host digits hempty hsplit
    obtain ⟨rfl, hlast⟩ := Text.splitLast_eq_some.mp hsplit
    obtain ⟨n, hnumber, rfl⟩ := Option.map_eq_some_iff.mp h
    obtain ⟨hn, hport⟩ := Text.unsigned_eq_some.mp hnumber
    have hvalue : (UInt16.ofNat n).toNat = n := UInt16.toNat_ofNat_of_lt hn
    rw [← hvalue] at hport
    exact .withPort hempty hlast hport
  · rename_i hsplit
    by_cases hinner : inner = []
    · simp [hinner] at h
    · simp only [List.isEmpty_iff, hinner, if_false, Option.some.injEq] at h
      subst h
      exact .alone hinner (Text.splitLast_eq_none.mp hsplit)

theorem parseTrimmed_eq_some : parseTrimmed inner = some a ↔ Written inner a :=
  ⟨written_of_parsed, Written.parsed⟩

theorem parse_eq_ok : parse text = .ok a ↔ Written (Text.trim text.toList) a := by
  rw [parse, ← parseTrimmed_eq_some]
  cases parseTrimmed (Text.trim text.toList) <;> simp

theorem parse_eq_error : parse text = .error e ↔
    (∀ b, ¬Written (Text.trim text.toList) b) ∧
      e = .invalidAddress (String.ofList (Text.trim text.toList)) := by
  simp only [parse, ← parseTrimmed_eq_some]
  cases parseTrimmed (Text.trim text.toList) <;> simp [eq_comm]

theorem render_toList (a : ServerAddress) :
    a.render.toList = a.host.toList ++ ':' :: (toString a.port.toNat).toList := by
  simp [render]

theorem written_render (hhost : a.host ≠ "") : Written a.render.toList a := by
  have hdigits := Text.Numeral.plain (Text.padded_toString a.port.toNat)
  have hhost' : a.host.toList ≠ [] := by simpa using hhost
  have hwritten := Written.withPort hhost' hdigits.no_colon hdigits
  rw [String.ofList_toList] at hwritten
  rw [render_toList]
  exact hwritten

-- The text of an address begins with its host and ends with a digit.
theorem trimmed_render (hhost : a.host ≠ "")
    (hhead : ∀ c ∈ a.host.toList.head?, Text.isBlank c = false) :
    Text.Trimmed a.render.toList a.render.toList where
  within := ⟨[], [], Text.blank_nil, Text.blank_nil, by simp⟩
  head := by
    rw [render_toList, List.head?_append_of_ne_nil _ (by simpa using hhost)]
    exact hhead
  last := by
    intro c hc
    have hdigits : (toString a.port.toNat).toList ≠ [] := (Text.padded_toString _).ne_nil
    rw [render_toList, List.getLast?_append_of_ne_nil _ (by simp),
      List.getLast?_cons_of_ne_nil hdigits] at hc
    exact Text.isBlank_of_isDigit (Text.isDigit_of_mem (List.mem_of_getLast? hc))

theorem parse_render (hhost : a.host ≠ "")
    (hhead : ∀ c ∈ a.host.toList.head?, Text.isBlank c = false) : parse a.render = .ok a := by
  rw [parse_eq_ok, ← Text.trimmed_iff.mp (trimmed_render hhost hhead)]
  exact written_render hhost

theorem Written.host_ne (h : Written inner a) : a.host ≠ "" := by
  cases h with
  | alone hhost hcolon => simpa using hhost
  | withPort hhost hlast hport => simpa using hhost

-- The host of an address that was read begins as the text does, the blanks aside.
theorem Written.head (h : Written inner a) : a.host.toList.head? = inner.head? := by
  cases h with
  | alone hhost hcolon => simp
  | withPort hhost hlast hport =>
      rw [String.toList_ofList, List.head?_append_of_ne_nil _ hhost]

theorem render_of_parsed (h : parse text = .ok a) : parse a.render = .ok a := by
  have hwritten := parse_eq_ok.mp h
  refine parse_render hwritten.host_ne fun c hc => ?_
  rw [hwritten.head] at hc
  exact Text.head_trim hc

-- An address is read from its texts and from nothing else, with any blanks around them, and an
-- address that is printed is read back: each that was read, and each whose host a blank does not
-- begin.
theorem printed_and_read (a : ServerAddress) (text : String) :
    (a.host ≠ "" → (∀ c ∈ a.host.toList.head?, Text.isBlank c = false) →
      parse a.render = .ok a) ∧
    (parse text = .ok a → parse a.render = .ok a ∧ a.host ≠ "") ∧
    (parse text = .ok a ↔ ∃ inner, Text.Trimmed text.toList inner ∧ Written inner a) ∧
    ∀ e, parse text = .error e ↔ ∃ inner, Text.Trimmed text.toList inner ∧
      (∀ b, ¬Written inner b) ∧ e = .invalidAddress (String.ofList inner) := by
  refine ⟨parse_render, fun h => ⟨render_of_parsed h, (parse_eq_ok.mp h).host_ne⟩, ?_, ?_⟩
  · simp only [Text.trimmed_iff, exists_eq_left]
    exact parse_eq_ok
  · intro e
    simp only [Text.trimmed_iff, exists_eq_left]
    exact parse_eq_error

end DocWire.ServerAddress
