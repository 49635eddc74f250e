import Mathlib.Data.List.DropRight
import DocWire.Text.Blank

namespace DocWire.Text

def Blank (gap : List Char) : Prop :=
  ∀ c ∈ gap, isBlank c = true

def IsWord (word : List Char) : Prop :=
  word ≠ [] ∧ ∀ c ∈ word, isBlank c = false

-- The words stand in the text one after the other, with blanks around and between them.
inductive Spaced : List (List Char) → List Char → Prop where
  | nil {gap : List Char} (hgap : Blank gap) : Spaced [] gap
  | cons {gap word rest : List Char} {words : List (List Char)} (hgap : Blank gap)
      (hword : IsWord word) (hrest : ∀ c ∈ rest.head?, isBlank c = true)
      (hwords : Spaced words rest) : Spaced (word :: words) (gap ++ (word ++ rest))

-- A text without the blanks around it.
structure Trimmed (text inner : List Char) : Prop where
  within : ∃ lead trail, Blank lead ∧ Blank trail ∧ text = lead ++ (inner ++ trail)
  head : ∀ c ∈ inner.head?, isBlank c = false
  last : ∀ c ∈ inner.getLast?, isBlank c = false

theorem blank_nil : Blank [] := by
  simp [Blank]

theorem trimEnd_eq (text : List Char) : trimEnd text = text.rdropWhile isBlank :=
  rfl

theorem trimStart_append {lead : List Char} (hlead : Blank lead) (rest : List Char) :
    trimStart (lead ++ rest) = trimStart rest :=
  List.dropWhile_append_of_pos hlead

theorem trimEnd_append {trail : List Char} (htrail : Blank trail) (rest : List Char) :
    trimEnd (rest ++ trail) = trimEnd rest := by
  have hreverse : ∀ c ∈ trail.reverse, isBlank c = true :=
    fun c hc => htrail c (List.mem_reverse.mp hc)
  simp only [trimEnd, List.reverse_append, List.dropWhile_append_of_pos hreverse]

theorem trimStart_of_head {text : List Char} (h : ∀ c ∈ text.head?, isBlank c = false) :
    trimStart text = text := by
  cases text with
  | nil => rfl
  | cons c rest =>
      have hc : isBlank c = false := h c rfl
      simp [trimStart, hc]

theorem trimEnd_of_last {text : List Char} (h : ∀ c ∈ text.getLast?, isBlank c = false) :
    trimEnd text = text := by
  rw [trimEnd_eq, List.rdropWhile_eq_self_iff]
  intro hne
  have hlast := h (text.getLast hne) (List.getLast?_eq_some_getLast hne)
  simp [hlast]

theorem Trimmed.trim_eq {text inner : List Char} (h : Trimmed text inner) : trim text = inner := by
  obtain ⟨⟨lead, trail, hlead, htrail, rfl⟩, hhead, hlast⟩ := h
  rw [trim, trimStart_append hlead]
  by_cases hinner : inner = []
  · subst hinner
    have hnone : trimStart trail = [] := List.dropWhile_eq_nil_iff.mpr htrail
    rw [List.nil_append, hnone]
    rfl
  · have hwhole : trimStart (inner ++ trail) = inner ++ trail :=
      trimStart_of_head (by rwa [List.head?_append_of_ne_nil _ hinner])
    rw [hwhole, trimEnd_append htrail, trimEnd_of_last hlast]

-- What is cut off at the end leaves the first character where it is.
theorem head_trim {text : List Char} {c : Char} (h : c ∈ (trim text).head?) :
    isBlank c = false := by
  have hprefix : trim text <+: trimStart text := List.rdropWhile_prefix _ _
  have hfirst : (trimStart text).head? = some c := by
    obtain ⟨cut, hwhole⟩ := hprefix
    rw [← hwhole, List.head?_append, h]
    rfl
  have hstart := List.head?_dropWhile_not isBlank text
  rw [trimStart] at hfirst
  rw [hfirst] at hstart
  simpa using hstart

theorem last_trim {text : List Char} {c : Char} (h : c ∈ (trim text).getLast?) :
    isBlank c = false := by
  have hne : trim text ≠ [] := by
    rintro hnil
    rw [hnil] at h
    cases h
  have hlast := List.rdropWhile_last_not isBlank (trimStart text) hne
  rw [List.getLast?_eq_some_getLast hne, Option.mem_some_iff] at h
  subst h
  exact Bool.eq_false_iff.mpr hlast

theorem trimmed_trim (text : List Char) : Trimmed text (trim text) where
  within := by
    have hlead : Blank (text.takeWhile isBlank) := fun c hc => List.mem_takeWhile_imp hc
    have htrail : Blank ((trimStart text).rtakeWhile isBlank) :=
      fun c hc => List.mem_rtakeWhile_imp hc
    refine ⟨_, _, hlead, htrail, ?_⟩
    rw [trim, trimEnd_eq, List.rdropWhile_append_rtakeWhile, trimStart,
      List.takeWhile_append_dropWhile]
  head := fun _ => head_trim
  last := fun _ => last_trim

theorem trimmed_iff {text inner : List Char} : Trimmed text inner ↔ inner = trim text := by
  constructor
  · intro h
    exact h.trim_eq.symm
  · rintro rfl
    exact trimmed_trim text

theorem Spaced.blank {words : List (List Char)} {text : List Char} (h : Spaced words text)
    {c : Char} (hc : isBlank c = true) : Spaced words (c :: text) := by
  have hlonger : ∀ gap, Blank gap → Blank (c :: gap) := by
    intro gap hgap
    simpa [Blank, hc] using hgap
  cases h with
  | nil hgap => exact .nil (hlonger _ hgap)
  | cons hgap hword hrest hwords => exact .cons (hlonger _ hgap) hword hrest hwords

theorem Spaced.word {words : List (List Char)} {word rest : List Char} (hword : IsWord word)
    (hrest : ∀ c ∈ rest.head?, isBlank c = true) (hwords : Spaced words rest) :
    Spaced (word :: words) (word ++ rest) :=
  .cons blank_nil hword hrest hwords

theorem isWord_reverse {word : List Char} (hne : word ≠ [])
    (hword : ∀ c ∈ word, isBlank c = false) : IsWord word.reverse :=
  ⟨by simpa using hne, fun c hc => hword c (List.mem_reverse.mp hc)⟩

-- The word that is being read stands in front of what is still to be read.
theorem spaced_wordsFrom {word : List Char} (hword : ∀ c ∈ word, isBlank c = false)
    (text : List Char) : Spaced (wordsFrom word text) (word.reverse ++ text) := by
  induction text generalizing word with
  | nil =>
      by_cases hnil : word = []
      · subst hnil
        exact .nil blank_nil
      · simp only [wordsFrom, List.isEmpty_iff, hnil, if_false]
        exact .word (isWord_reverse hnil hword) (by simp) (.nil blank_nil)
  | cons c rest ih =>
      by_cases hc : isBlank c = true
      · have hrest : Spaced (wordsFrom [] rest) rest := ih (by simp)
        have hbehind := hrest.blank hc
        by_cases hnil : word = []
        · subst hnil
          simpa [wordsFrom, hc] using hbehind
        · simp only [wordsFrom, hc, if_true, List.isEmpty_iff, hnil, if_false]
          exact .word (isWord_reverse hnil hword) (by simpa using hc) hbehind
      · have hlonger : ∀ d ∈ c :: word, isBlank d = false := by simpa [hc] using hword
        simpa [wordsFrom, hc] using ih hlonger

theorem wordsFrom_append {letters : List Char} (hletters : ∀ c ∈ letters, isBlank c = false)
    (word rest : List Char) :
    wordsFrom word (letters ++ rest) = wordsFrom (letters.reverse ++ word) rest := by
  induction letters generalizing word with
  | nil => rfl
  | cons c letters ih =>
      obtain ⟨hc, hmore⟩ := List.forall_mem_cons.mp hletters
      simp [wordsFrom, hc, ih hmore]

theorem words_append {gap : List Char} (hgap : Blank gap) (rest : List Char) :
    words (gap ++ rest) = words rest := by
  induction gap with
  | nil => rfl
  | cons c gap ih =>
      obtain ⟨hc, hmore⟩ := List.forall_mem_cons.mp hgap
      have hrest := ih hmore
      simpa [words, wordsFrom, hc] using hrest

-- A word ends at the next blank, or with the text.
theorem wordsFrom_end {word rest : List Char} (hword : word ≠ [])
    (hrest : ∀ c ∈ rest.head?, isBlank c = true) :
    wordsFrom word rest = word.reverse :: words rest := by
  cases rest with
  | nil => simp [words, wordsFrom, hword]
  | cons c rest =>
      have hc : isBlank c = true := hrest c rfl
      simp [words, wordsFrom, hc, hword]

theorem Spaced.words_eq {ws : List (List Char)} {text : List Char} (h : Spaced ws text) :
    words text = ws := by
  induction h with
  | nil hgap =>
      have hnone := words_append hgap []
      rw [List.append_nil] at hnone
      exact hnone
  | cons hgap hword hrest _ ih =>
      obtain ⟨hne, hletters⟩ := hword
      rw [words_append hgap, words, wordsFrom_append hletters, List.append_nil,
        wordsFrom_end (by simpa using hne) hrest, List.reverse_reverse, ih]

theorem spaced_iff {ws : List (List Char)} {text : List Char} :
    Spaced ws text ↔ ws = words text := by
  constructor
  · intro h
    exact h.words_eq.symm
  · rintro rfl
    exact spaced_wordsFrom (by simp) text

end DocWire.Text
