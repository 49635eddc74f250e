import DocWire.Proofs.Text.Blank
import DocWire.Shell.Command

namespace DocWire

namespace ReadPreference

-- A word for a preference, in any mixture of upper and lower case.
def Names (p : ReadPreference) (word : String) : Prop :=
  word.toList.map Char.toLower = p.render.toList.map Char.toLower

variable {word : String} {p q : ReadPreference}

theorem named_iff : named word p = true ↔ p.Names word :=
  decide_eq_true_iff

theorem mem_all (p : ReadPreference) : p ∈ all := by
  cases p <;> decide

theorem Names.unique (hp : p.Names word) (hq : q.Names word) : p = q := by
  have hsame : p.render.toList.map Char.toLower = q.render.toList.map Char.toLower :=
    hp.symm.trans hq
  revert hsame
  cases p <;> cases q <;> decide

theorem parse_eq_ok : parse word = .ok p ↔ p.Names word := by
  rw [parse]
  cases hfound : all.find? (named word) with
  | none =>
      have hnone : ¬p.Names word := by
        intro hp
        exact List.find?_eq_none.mp hfound p (mem_all p) (named_iff.mpr hp)
      simp [hnone]
  | some q =>
      have hq : q.Names word := named_iff.mp (List.find?_some hfound)
      constructor
      · intro h
        cases h
        exact hq
      · intro hp
        rw [hq.unique hp]

theorem parse_unknown (h : ∀ p : ReadPreference, ¬p.Names word) :
    parse word = .error (.unknownPreference word) := by
  have hnone : all.find? (named word) = none := by
    rw [List.find?_eq_none]
    intro p _ hp
    exact h p (named_iff.mp hp)
  rw [parse, hnone]

end ReadPreference

namespace ShellCommand

-- The line consists of the words, with any blanks around and between them.
def Worded (line : String) (words : List String) : Prop :=
  Text.Spaced (words.map String.toList) line.toList

-- What a user can say, word by word.
inductive Phrase : List String → ShellCommand → Prop where
  | exit : Phrase [".exit"] .exit
  | poolStats : Phrase [".pool"] .poolStats
  | ping : Phrase ["ping"] .ping
  | run (database name : String) :
      Phrase ["run", database, name] (.run database ⟨[(name, .int32 1)]⟩ none)
  | preferring (database name : String) {word : String} {p : ReadPreference}
      (hword : p.Names word) :
      Phrase ["run", database, name, word] (.run database ⟨[(name, .int32 1)]⟩ (some p))

-- The right answer to a line of these words: a phrase is the command that it stands for, a line
-- that begins as a command to run is told how to go on, and any other is not known.
inductive Answer (line : String) : List String → Except ShellError ShellCommand → Prop where
  | command {words : List String} {command : ShellCommand} (hphrase : Phrase words command) :
      Answer line words (.ok command)
  | tooFew {arguments : List String} (hfew : arguments.length < 2) :
      Answer line ("run" :: arguments) (.error .usage)
  | tooMany {database name word surplus : String} {more : List String} {p : ReadPreference}
      (hword : p.Names word) :
      Answer line ("run" :: database :: name :: word :: surplus :: more) (.error .usage)
  | preference {database name word : String} {more : List String}
      (hword : ∀ p : ReadPreference, ¬p.Names word) :
      Answer line ("run" :: database :: name :: word :: more)
        (.error (.preference (.unknownPreference word)))
  | unrecognized {words : List String} {text : List Char}
      (hphrase : ∀ command, ¬Phrase words command) (hrun : words.head? ≠ some "run")
      (htext : Text.Trimmed line.toList text) :
      Answer line words (.error (.unrecognized (String.ofList text)))

-- The first word is a phrase by itself, and others follow it.
def Overlong (words : List String) : Prop :=
  ∃ word surplus more command, words = word :: surplus :: more ∧ Phrase [word] command

variable {line word : String} {words arguments more : List String}
variable {command : ShellCommand} {outcome : Except ShellError ShellCommand}

theorem worded_iff : Worded line words ↔ words = (Text.words line.toList).map String.ofList := by
  rw [Worded, Text.spaced_iff]
  constructor
  · intro h
    rw [← h, List.map_map]
    simp [Function.comp_def]
  · rintro rfl
    rw [List.map_map]
    simp [Function.comp_def]

-- A line whose first word says all is taken for that, whatever follows.
theorem parse_single (hline : Worded line (word :: more)) (hword : Phrase [word] command) :
    parse line = .ok command := by
  rw [parse, ← worded_iff.mp hline]
  cases hword <;> rfl

theorem parse_run (hline : Worded line ("run" :: arguments)) :
    parse line = parseRun arguments := by
  rw [parse, ← worded_iff.mp hline]
  rfl

theorem parse_other (hline : Worded line words)
    (hsingle : ∀ word more command, words = word :: more → ¬Phrase [word] command)
    (hrun : words.head? ≠ some "run") :
    parse line = .error (.unrecognized (String.ofList (Text.trim line.toList))) := by
  rw [parse, ← worded_iff.mp hline]
  split
  · exact absurd .exit (hsingle _ _ _ rfl)
  · exact absurd .poolStats (hsingle _ _ _ rfl)
  · exact absurd .ping (hsingle _ _ _ rfl)
  · exact absurd rfl hrun
  · rfl

theorem Phrase.head_of_long (h : Phrase words command) (hlong : 1 < words.length) :
    words.head? = some "run" := by
  cases h with
  | run database name => rfl
  | preferring database name hword => rfl
  | _ => exact absurd hlong (by decide)

theorem Phrase.parsed (hline : Worded line words) (h : Phrase words command) :
    parse line = .ok command := by
  cases h with
  | exit => exact parse_single hline .exit
  | poolStats => exact parse_single hline .poolStats
  | ping => exact parse_single hline .ping
  | run database name => rw [parse_run hline, parseRun, runOf]; rfl
  | preferring database name hword =>
      rw [parse_run hline, parseRun, ReadPreference.parse_eq_ok.mpr hword]
      rfl

theorem not_single (hshort : ¬Overlong words) (hphrase : ∀ command, ¬Phrase words command) :
    ∀ word more command, words = word :: more → ¬Phrase [word] command := by
  rintro word more command rfl hword
  cases more with
  | nil => exact hphrase command hword
  | cons surplus more => exact hshort ⟨word, surplus, more, command, rfl, hword⟩

theorem Answer.eq_parse (hline : Worded line words) (hshort : ¬Overlong words)
    (h : Answer line words outcome) : parse line = outcome := by
  cases h with
  | command hphrase => exact hphrase.parsed hline
  | @tooFew arguments hfew =>
      rw [parse_run hline]
      match arguments, hfew with
      | [], _ => rfl
      | [_], _ => rfl
  | tooMany hword =>
      rw [parse_run hline, parseRun, ReadPreference.parse_eq_ok.mpr hword]
      rfl
  | preference hword => rw [parse_run hline, parseRun, ReadPreference.parse_unknown hword]
  | unrecognized hphrase hrun htext =>
      rw [parse_other hline (not_single hshort hphrase) hrun, Text.trimmed_iff.mp htext]

theorem run_answered (line : String) (arguments : List String) :
    Answer line ("run" :: arguments) (parseRun arguments) := by
  match arguments with
  | [] => exact .tooFew (by simp)
  | [_] => exact .tooFew (by simp)
  | [database, name] => exact .command (.run database name)
  | database :: name :: word :: more =>
      by_cases hword : ∃ p : ReadPreference, p.Names word
      · obtain ⟨p, hp⟩ := hword
        rw [parseRun, ReadPreference.parse_eq_ok.mpr hp]
        cases more with
        | nil => exact .command (.preferring database name hp)
        | cons surplus more => exact .tooMany hp
      · have hnone : ∀ p : ReadPreference, ¬p.Names word := not_exists.mp hword
        rw [parseRun, ReadPreference.parse_unknown hnone]
        exact .preference hnone

theorem answer_given (hline : Worded line words) (hshort : ¬Overlong words) :
    Answer line words (parse line) := by
  by_cases hrun : words.head? = some "run"
  · obtain ⟨arguments, rfl⟩ := List.head?_eq_some_iff.mp hrun
    rw [parse_run hline]
    exact run_answered line arguments
  by_cases hphrase : ∃ command, Phrase words command
  · obtain ⟨command, hphrase⟩ := hphrase
    rw [hphrase.parsed hline]
    exact .command hphrase
  · have hnone := not_exists.mp hphrase
    rw [parse_other hline (not_single hshort hnone) hrun]
    exact .unrecognized hnone hrun (Text.trimmed_trim _)

-- A line that goes on behind such a word should not be known, but it is taken for the word.
theorem Overlong.parsed (hline : Worded line words) (hlong : Overlong words) :
    ∃ command, parse line = .ok command ∧ ∀ outcome, Answer line words outcome ↔
      outcome = .error (.unrecognized (String.ofList (Text.trim line.toList))) := by
  obtain ⟨word, surplus, more, command, rfl, hword⟩ := hlong
  have hrun : (word :: surplus :: more).head? ≠ some "run" := by
    cases hword <;> simp
  have hphrase : ∀ command, ¬Phrase (word :: surplus :: more) command :=
    fun other hother => hrun (hother.head_of_long (by simp))
  refine ⟨command, parse_single hline hword, fun outcome => ⟨fun h => ?_, ?_⟩⟩
  · cases h with
    | command h => exact absurd h (hphrase _)
    | unrecognized _ _ htext => rw [Text.trimmed_iff.mp htext]
    | _ => exact absurd rfl hrun
  · rintro rfl
    exact .unrecognized hphrase hrun (Text.trimmed_trim _)

-- Each line has one right answer, and gets it unless it is overlong.
theorem answer_eq_iff (hline : Worded line words) :
    ∃ outcome, (∀ other, Answer line words other ↔ other = outcome) ∧
      (parse line = outcome ↔ ¬Overlong words) := by
  by_cases hlong : Overlong words
  · obtain ⟨command, hparse, hanswer⟩ := hlong.parsed hline
    refine ⟨_, hanswer, ?_⟩
    simp [hparse, hlong]
  · refine ⟨parse line, fun other => ⟨fun h => (h.eq_parse hline hlong).symm, ?_⟩, by simp [hlong]⟩
    rintro rfl
    exact answer_given hline hlong

theorem parse_eq_ok (hline : Worded line words) :
    parse line = .ok command ↔
      Phrase words command ∨ ∃ word more, words = word :: more ∧ Phrase [word] command := by
  constructor
  · intro h
    by_cases hlong : Overlong words
    · obtain ⟨word, surplus, more, said, rfl, hword⟩ := hlong
      rw [parse_single hline hword] at h
      cases h
      exact .inr ⟨word, surplus :: more, rfl, hword⟩
    · have hanswer := answer_given hline hlong
      rw [h] at hanswer
      cases hanswer with
      | command hphrase => exact .inl hphrase
  · rintro (hphrase | ⟨word, more, rfl, hword⟩)
    · exact hphrase.parsed hline
    · exact parse_single hline hword

-- What a line says depends on its words alone. Each line has one right answer, which it gets if and
-- only if nothing follows a first word that says all: what does follow it is not looked at.
theorem lines_read_by_words (line : String) :
    ∃ words, (∀ other, Worded line other ↔ other = words) ∧
      (∃ outcome, (∀ other, Answer line words other ↔ other = outcome) ∧
        (parse line = outcome ↔ ¬Overlong words)) ∧
      (∀ command, parse line = .ok command ↔
        Phrase words command ∨ ∃ word more, words = word :: more ∧ Phrase [word] command) ∧
      ∀ other, Worded other words → ∀ command, parse other = .ok command ↔ parse line = .ok command := by
  have hline : Worded line ((Text.words line.toList).map String.ofList) := worded_iff.mpr rfl
  refine ⟨_, fun other => worded_iff, answer_eq_iff hline, fun command => parse_eq_ok hline, ?_⟩
  intro other hother command
  rw [parse_eq_ok hother, parse_eq_ok hline]

-- A line of two words, none of which is a command to run, and which is taken for a wish to leave.
theorem surplus_word_ignored :
    Worded ".exit now" [".exit", "now"] ∧
      Answer ".exit now" [".exit", "now"] (.error (.unrecognized ".exit now")) ∧
      parse ".exit now" = .ok .exit := by
  have hline : Worded ".exit now" [".exit", "now"] := worded_iff.mpr (by decide)
  refine ⟨hline, .unrecognized ?_ (by decide) (Text.trimmed_iff.mpr (by decide)), ?_⟩
  · intro command hphrase
    exact absurd (hphrase.head_of_long (by decide)) (by decide)
  · exact parse_single hline .exit

end ShellCommand

end DocWire
