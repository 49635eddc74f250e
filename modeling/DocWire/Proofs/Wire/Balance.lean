import DocWire.Proofs.Wire.Encoding
import DocWire.Proofs.Wire.Reads
import DocWire.Proofs.Wire.Spelling

namespace DocWire

open Outcome Wire

def Token.said? : Token → Option String
  | .name said => some said
  | _ => none

-- The last name that was set.
def lastSaid (tokens : List Token) : Option String :=
  (tokens.filterMap Token.said?).getLast?

namespace Container

def opening : Container → Token
  | .document => .startDocument
  | .array => .startArray

def closing : Container → Token
  | .document => .endDocument
  | .array => .endArray

def tag : Container → Tag
  | .document => .document
  | .array => .array

def spell : Container → List (String × Spelling) → Spelling
  | .document => .document
  | .array => .array

-- The name of the next element behind `count` others: what was set last, or where it stands.
def nextName (tokens : List Token) (count : Nat) : Container → Option String
  | .document => lastSaid tokens
  | .array => some (toString count)

-- What a frame counts of its elements.
def counted (count : Nat) : Container → Nat
  | .document => 0
  | .array => count

end Container

mutual

-- The tokens of one element, where those in `before` came first.
inductive Spells : List Token → List Token → Spelling → Prop where
  | single {before : List Token} {v : Value} {token : Token} (hv : v.token? = some token)
      (hsingle : v.token?.isSome = true) : Spells before [token] (.single v hsingle)
  | nested {before inner : List Token} {container : Container}
      {elements : List (String × Spelling)}
      (hinner : Composes (before ++ [container.opening]) container inner elements) :
      Spells before (container.opening :: inner ++ [container.closing]) (container.spell elements)

-- The tokens between the ends of a container, where those in `before` came first. Names may be set
-- anywhere, and come to nothing where no element takes them up.
inductive Composes : List Token → Container → List Token → List (String × Spelling) → Prop where
  | nil {before : List Token} {container : Container} : Composes before container [] []
  | said {before tokens : List Token} {container : Container}
      {elements : List (String × Spelling)} (h : Composes before container tokens elements)
      (name : String) : Composes before container (tokens ++ [.name name]) elements
  | element {before tokens more : List Token} {container : Container}
      {elements : List (String × Spelling)} {name : String} {s : Spelling}
      (h : Composes before container tokens elements)
      (hname : container.nextName (before ++ tokens) elements.length = some name)
      (hs : Spells (before ++ tokens) more s) :
      Composes before container (tokens ++ more) (elements ++ [(name, s)])

end

-- The tokens of documents in a row, which stand in no other.
inductive Row : List Token → List (List (String × Spelling)) → Prop where
  | nil : Row [] []
  | said {tokens : List Token} {documents : List (List (String × Spelling))}
      (h : Row tokens documents) (name : String) : Row (tokens ++ [.name name]) documents
  | document {tokens more : List Token} {documents : List (List (String × Spelling))}
      {elements : List (String × Spelling)} (h : Row tokens documents)
      (hs : Spells tokens more (.document elements)) : Row (tokens ++ more) (documents ++ [elements])

def rowBytes : List (List (String × Spelling)) → ByteArray
  | [] => ByteArray.empty
  | elements :: rest => enclosed (elementBytes elements) ++ rowBytes rest

theorem rowBytes_concat (documents : List (List (String × Spelling)))
    (elements : List (String × Spelling)) :
    rowBytes (documents ++ [elements]) = rowBytes documents ++ enclosed (elementBytes elements) := by
  induction documents with
  | nil => simp [rowBytes]
  | cons first rest ih => rw [List.cons_append, rowBytes, ih, rowBytes, ByteArray.append_assoc]

theorem elementBytes_concat (elements : List (String × Spelling)) (name : String) (s : Spelling) :
    elementBytes (elements ++ [(name, s)]) =
      elementBytes elements ++ (announced s.tag name ++ s.text) := by
  induction elements with
  | nil => simp [elementBytes]
  | cons first rest ih =>
      obtain ⟨head, first⟩ := first
      rw [List.cons_append, elementBytes, ih, elementBytes]
      simp only [ByteArray.append_assoc]

theorem lastSaid_concat (tokens : List Token) (token : Token) :
    lastSaid (tokens ++ [token]) = token.said?.or (lastSaid tokens) := by
  simp only [lastSaid, List.filterMap_append]
  cases hsaid : token.said? with
  | none => simp [hsaid]
  | some name => simp [hsaid]

theorem Container.tag_spell (container : Container) (elements : List (String × Spelling)) :
    (container.spell elements).tag = container.tag := by
  cases container <;> rfl

theorem Container.text_spell (container : Container) (elements : List (String × Spelling)) :
    (container.spell elements).text = enclosed (elementBytes elements) := by
  cases container <;> rfl

theorem Container.legible_spell {container : Container} {elements : List (String × Spelling)}
    {levels : Nat} (hlevels : 0 < levels) (helements : elementsLegible (levels - 1) elements)
    (hsize : (elementBytes elements).size + 5 ≤ Word.maxLength) :
    (container.spell elements).Legible levels := by
  cases container <;> exact ⟨hlevels, helements, hsize⟩

namespace Writer

-- How a container opens: a document that stands in no other without a name, and every other one as
-- the next element of the innermost frame.
inductive Opens : List Token → ByteArray → List Frame → Container → ByteArray → List Frame → Prop
  where
  | outside {tokens : List Token} {buffer : ByteArray} :
      Opens tokens buffer [] .document ByteArray.empty []
  | inside {tokens : List Token} {buffer : ByteArray} {frame : Frame} {outer frames : List Frame}
      {container : Container} {said : Option String} {name : String}
      (hsaid : said = none ∨ said = lastSaid tokens)
      (hname : takeName ⟨buffer, frame :: outer, said⟩ = .ok name ⟨buffer, frames, none⟩)
      (hclean : hasZeroByte name = false) :
      Opens tokens buffer (frame :: outer) container (announced container.tag name) frames

-- The buffer and the frames after tokens that were all accepted: behind the prior bytes stand whole
-- documents, then for each open frame what announces it, a place for its size, and its elements.
inductive Stands (prior : ByteArray) : List Token → ByteArray → List Frame → Prop where
  | outside {tokens : List Token} {documents : List (List (String × Spelling))}
      (hrow : Row tokens documents)
      (hlegible : ∀ elements ∈ documents, (Spelling.document elements).Legible maxNesting) :
      Stands prior tokens (prior ++ rowBytes documents) []
  | inside {before inner : List Token} {buffer header : ByteArray} {outer frames : List Frame}
      {container : Container} {elements : List (String × Spelling)}
      (houter : Stands prior before buffer outer)
      (hopens : Opens before buffer outer container header frames)
      (hdeep : outer.length < maxNesting)
      (hinner : Composes (before ++ [container.opening]) container inner elements)
      (hlegible : elementsLegible (maxNesting - (outer.length + 1)) elements) :
      Stands prior (before ++ container.opening :: inner)
        (buffer ++ header ++ (Word.int32 0 ++ elementBytes elements))
        (⟨(buffer ++ header).size, container, container.counted elements.length⟩ :: frames)

-- What is known of a writer after tokens that it accepted. A name that it still keeps is the one
-- that was set last.
structure After (prior : ByteArray) (tokens : List Token) (w : Writer) : Prop where
  stands : Stands prior tokens w.buffer w.frames
  name : w.name = none ∨ w.name = lastSaid tokens

theorem after_onBuffer (prior : ByteArray) : After prior [] (onBuffer prior) where
  stands := by
    have hempty : Stands prior [] (prior ++ rowBytes []) [] := .outside .nil (by simp)
    rw [rowBytes, ByteArray.append_empty] at hempty
    exact hempty
  name := .inl rfl

variable {prior : ByteArray} {tokens more : List Token} {w u : Writer}

theorem takeName_eq_ok {name : String} (h : takeName w = .ok name u) :
    u = ⟨w.buffer, u.frames, none⟩ ∧ u.frames.length = w.frames.length := by
  unfold takeName at h
  split at h
  · cases h
  · next hframes =>
    cases h
    simp [hframes]
  · split at h
    · cases h
      exact ⟨rfl, rfl⟩
    · cases h

theorem Opens.length_eq {buffer header : ByteArray} {outer frames : List Frame}
    {container : Container} (h : Opens tokens buffer outer container header frames) :
    frames.length = outer.length := by
  cases h with
  | outside => rfl
  | inside _ hname _ => exact (takeName_eq_ok hname).2

-- The next element of a frame is named as its container says, and counted there.
theorem takeName_counted {buffer : ByteArray} {start count : Nat} {container : Container}
    {outer frames : List Frame} {said : Option String} {name : String}
    (hsaid : said = none ∨ said = lastSaid tokens)
    (h : takeName ⟨buffer, ⟨start, container, container.counted count⟩ :: outer, said⟩ =
      .ok name ⟨buffer, frames, none⟩) :
    container.nextName tokens count = some name ∧
      frames = ⟨start, container, container.counted (count + 1)⟩ :: outer := by
  cases container with
  | document =>
      cases said with
      | none => cases h
      | some set =>
          cases h
          obtain hnone | hlast := hsaid
          · cases hnone
          · exact ⟨hlast.symm, rfl⟩
  | array =>
      cases h
      exact ⟨rfl, rfl⟩

-- An element takes its place behind those of the innermost frame.
theorem Stands.element {buffer : ByteArray} {frame : Frame} {outer frames : List Frame}
    {said : Option String} {name : String} {s : Spelling}
    (h : Stands prior tokens buffer (frame :: outer))
    (hsaid : said = none ∨ said = lastSaid tokens)
    (hname : takeName ⟨buffer, frame :: outer, said⟩ = .ok name ⟨buffer, frames, none⟩)
    (hclean : hasZeroByte name = false) (hs : Spells tokens more s)
    (hlegible : s.Legible (maxNesting - (outer.length + 1))) :
    Stands prior (tokens ++ more) (buffer ++ (announced s.tag name ++ s.text)) frames := by
  cases h with
  | @inside before inner buffer header around _ container elements houter hopens hdeep hinner
      helements =>
      obtain ⟨hnext, rfl⟩ := takeName_counted hsaid hname
      have hsplit : before ++ container.opening :: inner =
          before ++ [container.opening] ++ inner := by
        simp
      rw [hsplit] at hnext hs
      have hbody := Composes.element hinner hnext hs
      have hall : elementsLegible (maxNesting - (around.length + 1)) (elements ++ [(name, s)]) := by
        rw [hopens.length_eq] at hlegible
        simp only [Spelling.elementsLegible_iff, List.forall_mem_append, List.forall_mem_singleton]
        exact ⟨Spelling.elementsLegible_iff.mp helements, hclean, hlegible⟩
      have hstands := Stands.inside houter hopens hdeep hbody hall
      rw [elementBytes_concat, List.length_append, List.length_singleton] at hstands
      simpa only [List.cons_append, List.append_assoc, ByteArray.append_assoc] using hstands

-- A container that ends becomes a document of the row, or an element of the frame around it.
theorem Stands.close {before inner : List Token} {buffer header : ByteArray}
    {outer frames : List Frame} {container : Container} {elements : List (String × Spelling)}
    (houter : Stands prior before buffer outer)
    (hopens : Opens before buffer outer container header frames)
    (hdeep : outer.length < maxNesting)
    (hinner : Composes (before ++ [container.opening]) container inner elements)
    (helements : elementsLegible (maxNesting - (outer.length + 1)) elements)
    (hsize : (elementBytes elements).size + 5 ≤ Word.maxLength) :
    Stands prior (before ++ container.opening :: inner ++ [container.closing])
      (buffer ++ header ++ enclosed (elementBytes elements)) frames := by
  have hspells : Spells before (container.opening :: inner ++ [container.closing])
      (container.spell elements) := .nested hinner
  have hlegible : (container.spell elements).Legible (maxNesting - outer.length) :=
    Container.legible_spell (by omega) helements hsize
  rw [List.append_assoc]
  cases hopens with
  | outside =>
      cases houter with
      | @outside _ documents hrow hdocuments =>
          have hall : ∀ fields ∈ documents ++ [elements],
              (Spelling.document fields).Legible maxNesting := by
            simp only [List.forall_mem_append, List.forall_mem_singleton]
            exact ⟨hdocuments, hlegible⟩
          have hstands : Stands prior _ _ [] := .outside (hrow.document hspells) hall
          rw [rowBytes_concat, ← ByteArray.append_assoc] at hstands
          rw [ByteArray.append_empty]
          exact hstands
  | inside hsaid hname hclean =>
      have hstands := houter.element hsaid hname hclean hspells hlegible
      rw [container.tag_spell, container.text_spell, ← ByteArray.append_assoc] at hstands
      exact hstands

theorem Stands.said {buffer : ByteArray} {frames : List Frame}
    (h : Stands prior tokens buffer frames) (name : String) :
    Stands prior (tokens ++ [.name name]) buffer frames := by
  cases h with
  | outside hrow hlegible => exact .outside (hrow.said name) hlegible
  | inside houter hopens hdeep hinner hlegible =>
      rw [List.append_assoc]
      exact .inside houter hopens hdeep (hinner.said name) hlegible

theorem takeName_of_header {tag : Tag} (h : header tag w = .ok () u) :
    ∃ name frames, takeName w = .ok name ⟨w.buffer, frames, none⟩ := by
  obtain ⟨name, m, htaken, _⟩ := bind_eq_ok.mp h
  have hm := (takeName_eq_ok htaken).1
  rw [hm] at htaken
  exact ⟨name, m.frames, htaken⟩

-- A token of a single element begins with its header.
theorem takeName_of_token {v : Value} {token : Token} (hv : v.token? = some token)
    (h : apply token w = .ok () u) :
    ∃ name frames, takeName w = .ok name ⟨w.buffer, frames, none⟩ := by
  cases v <;> cases hv
  case null => exact takeName_of_header h
  all_goals
    obtain ⟨_, m, hheader, _⟩ := bind_eq_ok.mp h
    exact takeName_of_header hheader

-- A token that sets no name keeps what is known of the one that is kept.
theorem After.name_concat {token : Token} (h : After prior tokens w)
    (htoken : token.said? = none) (hname : u.name = none ∨ u.name = w.name) :
    u.name = none ∨ u.name = lastSaid (tokens ++ [token]) := by
  rw [lastSaid_concat, htoken, Option.none_or]
  rcases hname with hnone | hsame
  · exact .inl hnone
  · rw [hsame]
    exact h.name

theorem After.said (h : After prior tokens w) (name : String) :
    After prior (tokens ++ [.name name]) { w with name := some name } where
  stands := h.stands.said name
  name := by
    rw [lastSaid_concat]
    exact .inr rfl

theorem After.single (h : After prior tokens w) (v : Value) {token : Token}
    (hv : v.token? = some token) (hrun : apply token w = .ok () u) :
    After prior (tokens ++ [token]) u := by
  obtain ⟨name, frames, htaken⟩ := takeName_of_token hv hrun
  obtain ⟨⟨hclean, hlength⟩, rfl⟩ := (token_leaves htaken hv u).mp hrun
  have hsilent : token.said? = none := by
    cases v <;> cases hv <;> rfl
  have hsingle : v.token?.isSome = true := by
    rw [hv]
    rfl
  refine ⟨?_, h.name_concat hsilent (.inl rfl)⟩
  obtain ⟨buffer, framed, said⟩ := w
  cases framed with
  | nil => cases htaken
  | cons frame outer =>
      have hlegible : (Spelling.single v hsingle).Legible (maxNesting - (outer.length + 1)) := hlength
      have hstands := h.stands.element h.name htaken hclean (.single hv hsingle) hlegible
      rw [Spelling.tag, Spelling.text] at hstands
      exact hstands

theorem After.opened {container : Container} {header : ByteArray} {frames : List Frame}
    (h : After prior tokens w) (hopens : Opens tokens w.buffer w.frames container header frames)
    (hdeep : w.frames.length < maxNesting)
    (hu : u = ⟨w.buffer ++ header ++ Word.int32 0,
      ⟨(w.buffer ++ header).size, container, 0⟩ :: frames, u.name⟩)
    (hname : u.name = none ∨ u.name = w.name) : After prior (tokens ++ [container.opening]) u := by
  have hsilent : container.opening.said? = none := by
    cases container <;> rfl
  refine ⟨?_, h.name_concat hsilent hname⟩
  have hstands := Stands.inside h.stands hopens hdeep .nil trivial
  have hindex : container.counted ([] : List (String × Spelling)).length = 0 := by
    cases container <;> rfl
  rw [elementBytes, ByteArray.append_empty, hindex] at hstands
  rw [hu]
  exact hstands

-- A document that stands in no other one has no name.
theorem After.opensOutside (h : After prior tokens w) (hframes : w.frames = [])
    (hrun : openFrame .document w = .ok () u) : After prior (tokens ++ [.startDocument]) u := by
  obtain ⟨hdeep, rfl⟩ := (openFrame_leaves w .document u).mp hrun
  have hopens : Opens tokens w.buffer w.frames .document ByteArray.empty [] := by
    rw [hframes]
    exact .outside
  refine h.opened hopens hdeep ?_ (.inr rfl)
  rw [hframes, ByteArray.append_empty]

theorem After.opensInside (h : After prior tokens w) (container : Container)
    (hrun : (header container.tag >>= fun _ => openFrame container) w = .ok () u) :
    After prior (tokens ++ [container.opening]) u := by
  obtain ⟨_, m, hheader, _⟩ := bind_eq_ok.mp hrun
  obtain ⟨name, frames, htaken⟩ := takeName_of_header hheader
  obtain ⟨⟨hclean, hdeep⟩, rfl⟩ := (headed_leaves htaken container.tag container u).mp hrun
  have hlength : frames.length = w.frames.length := (takeName_eq_ok htaken).2
  have hopens : Opens tokens w.buffer w.frames container (announced container.tag name) frames := by
    obtain ⟨buffer, framed, said⟩ := w
    cases framed with
    | nil => cases htaken
    | cons frame outer => exact .inside h.name htaken hclean
  exact h.opened hopens (by omega) rfl (.inl rfl)

theorem After.closed (h : After prior tokens w) (container : Container)
    (hrun : closeFrame container w = .ok () u) :
    After prior (tokens ++ [container.closing]) u := by
  have hsilent : container.closing.said? = none := by
    cases container <;> rfl
  obtain ⟨hstands, hname⟩ := h
  obtain ⟨buffer, framed, said⟩ := w
  cases hstands with
  | outside hrow hlegible => cases hrun
  | @inside before inner _ header outer frames kind elements houter hopens hdeep hinner hlegible =>
      by_cases hkind : kind = container
      · subst hkind
        obtain ⟨hsize, rfl⟩ := (closeFrame_leaves u).mp hrun
        refine ⟨?_, ?_⟩
        · exact houter.close hopens hdeep hinner hlegible hsize
        · rw [lastSaid_concat, hsilent, Option.none_or]
          exact hname
      · rw [closeFrame] at hrun
        simp [hkind] at hrun

-- Every token that a writer accepts keeps it in order.
theorem After.step {token : Token} (h : After prior tokens w) (hrun : apply token w = .ok () u) :
    After prior (tokens ++ [token]) u := by
  cases token with
  | name name =>
      cases hrun
      exact h.said name
  | startDocument =>
      cases hframes : w.frames.isEmpty with
      | true =>
          rw [startDocument_outside hframes] at hrun
          exact h.opensOutside (List.isEmpty_iff.mp hframes) hrun
      | false =>
          rw [startDocument_inside hframes] at hrun
          exact h.opensInside .document hrun
  | startArray => exact h.opensInside .array hrun
  | endDocument => exact h.closed .document hrun
  | endArray => exact h.closed .array hrun
  | double d => exact h.single (.double d) rfl hrun
  | string s => exact h.single (.string s) rfl hrun
  | binary b => exact h.single (.binary b) rfl hrun
  | objectId id => exact h.single (.objectId id) rfl hrun
  | boolean b => exact h.single (.boolean b) rfl hrun
  | dateTime t => exact h.single (.dateTime t) rfl hrun
  | null => exact h.single .null rfl hrun
  | int32 n => exact h.single (.int32 n) rfl hrun
  | int64 n => exact h.single (.int64 n) rfl hrun

theorem After.run (h : After prior tokens w) (hrun : forM more apply w = .ok () u) :
    After prior (tokens ++ more) u := by
  induction more generalizing tokens w with
  | nil =>
      cases hrun
      rw [List.append_nil]
      exact h
  | cons token more ih =>
      rw [List.forM_cons] at hrun
      obtain ⟨_, m, htoken, hmore⟩ := bind_eq_ok.mp hrun
      have hall := ih (h.step htoken) hmore
      rw [List.append_assoc] at hall
      exact hall

end Writer

namespace Reader

-- The decoder finds the documents one after the other, each where the last one ended, and nothing
-- behind them.
def ReadsInTurn : Reader → List (List (String × Spelling)) → Prop
  | r, [] => r.position = r.bytes.size
  | r, elements :: rest =>
    ∃ s, Registry.standard.decodeDocument r = .ok (.denoted (elementValues elements)) s ∧
      s.position = r.position + (enclosed (elementBytes elements)).size ∧ s.ReadsInTurn rest

theorem readsInTurn_of_holds {r : Reader} {documents : List (List (String × Spelling))}
    (hr : r.Bounded) (houtside : r.ends = [])
    (hdocuments : ∀ elements ∈ documents,
      IsDocument (enclosed (elementBytes elements)) (.denoted (elementValues elements)))
    (htext : r.Holds (rowBytes documents))
    (hsize : r.position + (rowBytes documents).size = r.bytes.size) : r.ReadsInTurn documents := by
  induction documents generalizing r with
  | nil => exact hsize
  | cons elements rest ih =>
      obtain ⟨hfirst, hrest⟩ := List.forall_mem_cons.mp hdocuments
      obtain ⟨hheld, _⟩ := holds_append.mp htext
      obtain ⟨s, hread, hpast⟩ := document_read_held hr houtside hfirst hheld
      have hplace := hpast.position
      refine ⟨s, hread, hplace, ?_⟩
      refine ih (hpast.bounded hr) (hpast.ends.trans houtside) hrest (hpast.holds.mp htext).2 ?_
      rw [rowBytes, ByteArray.size_append] at hsize
      rw [hplace, hpast.bytes]
      omega

end Reader

namespace Writer

-- Whatever a writer is asked for, if it accepts all of it and no container is left open, it has
-- appended whole documents: as the tokens say, within the limits, and as the decoder reads them.
theorem balanced_wellFormed {prior : ByteArray} {tokens : List Token} {w : Writer}
    (hrun : forM tokens apply (onBuffer prior) = .ok () w) (hclosed : w.frames = []) :
    ∃ documents, Row tokens documents ∧ w.buffer = prior ++ rowBytes documents ∧
      (∀ elements ∈ documents, (Spelling.document elements).Legible maxNesting ∧
        IsDocument (enclosed (elementBytes elements)) (.denoted (elementValues elements))) ∧
      (Reader.ofBytes (rowBytes documents)).ReadsInTurn documents := by
  have hafter := (after_onBuffer prior).run hrun
  rw [List.nil_append] at hafter
  obtain ⟨hstands, _⟩ := hafter
  obtain ⟨buffer, frames, name⟩ := w
  cases hclosed
  cases hstands with
  | @outside _ documents hrow hlegible =>
      have hdocuments : ∀ elements ∈ documents,
          IsDocument (enclosed (elementBytes elements)) (.denoted (elementValues elements)) :=
        fun elements helements => legible_payload _ (hlegible elements helements)
      refine ⟨documents, hrow, rfl, fun elements helements =>
        ⟨hlegible elements helements, hdocuments elements helements⟩, ?_⟩
      refine Reader.readsInTurn_of_holds (bounded_ofBytes _) rfl hdocuments ?_ (Nat.zero_add _)
      exact ofBytes_holds.mpr ⟨ByteArray.empty, ByteArray.append_empty.symm⟩

-- Two documents, with a name that is set twice, one that an array makes nothing of, and one that is
-- set before its document begins.
def twoDocuments : List Token :=
  [.startDocument, .name "a", .name "xs", .startArray, .null, .name "b", .startDocument,
    .endDocument, .endArray, .name "c", .endDocument, .name "n", .startDocument, .boolean true,
    .endDocument]

def twoDocumentsBytes : ByteArray :=
  [25, 0, 0, 0, 4, 120, 115, 0, 16, 0, 0, 0, 10, 48, 0, 3, 49, 0, 5, 0, 0, 0, 0, 0, 0,
    9, 0, 0, 0, 8, 110, 0, 1, 0].toByteArray

theorem twoDocuments_wellFormed :
    ∃ documents, forM twoDocuments apply (onBuffer [7].toByteArray) =
        .ok () ⟨[7].toByteArray ++ twoDocumentsBytes, [], none⟩ ∧
      Row twoDocuments documents ∧ rowBytes documents = twoDocumentsBytes ∧
      (Reader.ofBytes twoDocumentsBytes).ReadsInTurn documents := by
  have hrun : forM twoDocuments apply (onBuffer [7].toByteArray) =
      .ok () ⟨[7].toByteArray ++ twoDocumentsBytes, [], none⟩ := by
    have hwriter : (match forM twoDocuments apply (onBuffer [7].toByteArray) with
        | .ok _ w => some w
        | .error _ _ => none) = some ⟨[7].toByteArray ++ twoDocumentsBytes, [], none⟩ := by
      decide +kernel
    split at hwriter
    · next u w hrun =>
      cases hwriter
      exact hrun
    · cases hwriter
  obtain ⟨documents, hrow, hbuffer, _, hread⟩ := balanced_wellFormed hrun rfl
  have hbytes : twoDocumentsBytes = rowBytes documents := (ByteArray.append_right_inj _).mp hbuffer
  rw [← hbytes] at hread
  exact ⟨documents, hrun, hrow, hbytes.symm, hread⟩

end Writer

end DocWire
