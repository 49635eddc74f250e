import DocWire.Proofs.Wire.Refusal
import DocWire.Proofs.Wire.RoundTrip
import DocWire.Proofs.Wire.Spelling

namespace DocWire.Wire

open Document Outcome Reader Spelling

theorem mem_elementValues {elements : List (String × Spelling)} {field : String × Value}
    (h : field ∈ elementValues elements) :
    ∃ element ∈ elements, (element.1, element.2.value) = field := by
  rw [map_elementValues] at h
  exact List.mem_map.mp h

theorem mem_denoted {elements : List (String × Spelling)} {field : String × Value}
    (h : field ∈ (denoted (elementValues elements)).fields) :
    ∃ element ∈ elements, (element.1, element.2.value) = field := by
  rw [← ofList_eq_denoted] at h
  exact mem_elementValues (mem_ofList h)

mutual

-- Whatever is read has names without a zero byte, and nests no deeper than the text does.
theorem legible_value (s : Spelling) {levels : Nat} (hs : s.Legible levels) :
    s.value.Throughout Named ∧ s.value.depth ≤ levels := by
  cases s with
  | single v h =>
      cases v with
      | document d => cases h
      | array items => cases h
      | _ => exact ⟨trivial, Nat.zero_le _⟩
  | document elements =>
      obtain ⟨hlevels, helements, _⟩ := hs
      obtain ⟨levels, rfl⟩ := Nat.exists_eq_add_of_le' hlevels
      have hshape := legible_elements elements helements
      refine ⟨throughout_iff.mpr ⟨named_iff.mpr ?_, ?_⟩, depth_le_iff.mpr ?_⟩
      all_goals
        intro field hfield
        obtain ⟨element, helement, rfl⟩ := mem_denoted hfield
        obtain ⟨hname, hnamed, hdepth⟩ := hshape element helement
        assumption
  | array elements =>
      obtain ⟨hlevels, helements, _⟩ := hs
      obtain ⟨levels, rfl⟩ := Nat.exists_eq_add_of_le' hlevels
      have hshape := legible_elements elements helements
      have hitems : ∀ v ∈ (elementValues elements).map (·.2),
          v.Throughout Named ∧ v.depth ≤ levels := by
        intro v hv
        obtain ⟨field, hfield, rfl⟩ := List.mem_map.mp hv
        obtain ⟨element, helement, rfl⟩ := mem_elementValues hfield
        exact (hshape element helement).2
      exact ⟨itemsThroughout_iff.mpr fun v hv => (hitems v hv).1,
        Nat.add_le_add_right (itemsDepth_le_iff.mpr fun v hv => (hitems v hv).2) 1⟩
termination_by structural s

theorem legible_elements (elements : List (String × Spelling)) {levels : Nat}
    (helements : elementsLegible levels elements) :
    ∀ element ∈ elements, Writer.hasZeroByte element.1 = false ∧
      element.2.value.Throughout Named ∧ element.2.value.depth ≤ levels := by
  cases elements with
  | nil => simp
  | cons element rest =>
      obtain ⟨name, s⟩ := element
      obtain ⟨hname, hs, hrest⟩ := helements
      exact List.forall_mem_cons.mpr
        ⟨⟨hname, legible_value s hs⟩, legible_elements rest hrest⟩
termination_by structural elements

end

-- Items under the names that a writer gives them.
def numbered (index : Nat) : List Value → List (String × Value)
  | [] => []
  | v :: rest => (toString index, v) :: numbered (index + 1) rest

theorem itemBytes_eq (index : Nat) (items : List Value) :
    itemBytes index items = fieldBytes (numbered index items) := by
  induction items generalizing index with
  | nil => rfl
  | cons v rest ih => rw [itemBytes, ih, numbered, fieldBytes]

theorem names_numbered (index : Nat) (items : List Value) :
    (numbered index items).map (·.1) = (List.range' index items.length).map toString := by
  induction items generalizing index with
  | nil => rfl
  | cons v rest ih =>
      rw [numbered, List.map_cons, ih, List.length_cons, List.range'_succ, List.map_cons]

theorem of_mem_numbered {index : Nat} {items : List Value} {field : String × Value}
    (h : field ∈ numbered index items) :
    Writer.hasZeroByte field.1 = false ∧ field.2 ∈ items := by
  induction items generalizing index with
  | nil => cases h
  | cons v rest ih =>
      cases h with
      | head => exact ⟨Writer.hasZeroByte_index index, List.mem_cons_self⟩
      | tail _ hrest =>
          obtain ⟨hname, hmem⟩ := ih hrest
          exact ⟨hname, List.mem_cons_of_mem _ hmem⟩

-- Fields with the names that a writer gives to items are those items, numbered.
theorem eq_numbered {index : Nat} {fields : List (String × Value)}
    (h : fields.map (·.1) = (List.range' index fields.length).map toString) :
    fields = numbered index (fields.map (·.2)) := by
  induction fields generalizing index with
  | nil => rfl
  | cons field rest ih =>
      obtain ⟨name, v⟩ := field
      rw [List.map_cons, List.length_cons, List.range'_succ, List.map_cons, List.cons.injEq] at h
      obtain ⟨hname, hrest⟩ := h
      rw [List.map_cons, numbered, ← ih hrest, ← hname]

mutual

-- What is spelled canonically is spelled as it is written.
theorem canonical_text (s : Spelling) (hs : s.Canonical) : s.text = s.value.payload := by
  cases s with
  | single v h => rfl
  | document elements =>
      obtain ⟨hnodup, helements⟩ := hs
      rw [← names_elementValues] at hnodup
      have hfields : denoted (elementValues elements) = ⟨elementValues elements⟩ := by
        rw [← ofList_eq_denoted, ofList_of_distinct hnodup]
      rw [Spelling.text, Spelling.value, Value.payload, hfields, Document.rendered,
        canonical_elements elements helements]
  | array elements =>
      obtain ⟨hnames, helements⟩ := hs
      have hlength : elements.length = (elementValues elements).length := by
        rw [map_elementValues, List.length_map]
      rw [← names_elementValues, hlength, List.range_eq_range'] at hnames
      rw [Spelling.text, Spelling.value, Value.payload, itemBytes_eq, ← eq_numbered hnames,
        canonical_elements elements helements]
termination_by structural s

theorem canonical_elements (elements : List (String × Spelling))
    (helements : elementsCanonical elements) :
    elementBytes elements = fieldBytes (elementValues elements) := by
  cases elements with
  | nil => rfl
  | cons element rest =>
      obtain ⟨name, s⟩ := element
      obtain ⟨hs, hrest⟩ := helements
      rw [elementBytes, elementValues, fieldBytes, tag_value, canonical_text s hs,
        canonical_elements rest hrest]
termination_by structural elements

end

-- One text cannot begin with two different ones that announce the same: a reader takes the first
-- that it finds.
theorem Payload.unique {levels : Nat} (hlevels : levels ≤ maxNesting) {t : Tag} {a b r s : ByteArray}
    {v w : Value} (ha : Payload levels t a v) (hb : Payload levels t b w) (h : a ++ r = b ++ s) :
    v = w ∧ a = b ∧ r = s := by
  have hbounded : (⟨a ++ r, 0, some t, []⟩ : Reader).Bounded := bounded_ofBytes (a ++ r)
  have hdepth : 0 + levels ≤ maxNesting := by omega
  have hfirst : (⟨a ++ r, 0, some t, []⟩ : Reader).Holds a := ofBytes_holds.mpr ⟨r, rfl⟩
  have hsecond : (⟨a ++ r, 0, some t, []⟩ : Reader).Holds b := ofBytes_holds.mpr ⟨s, h⟩
  obtain ⟨u, hread, hu⟩ := payload_read (a.size + b.size) ha hbounded hdepth (congrArg some)
    (Nat.le_add_right _ _) hfirst
  obtain ⟨u', hread', hu'⟩ := payload_read (a.size + b.size) hb hbounded hdepth (congrArg some)
    (Nat.le_add_left _ _) hsecond
  rw [hread] at hread'
  cases hread'
  have hsize : a.size = b.size := by
    have hplace := hu.position
    rw [hu'.position] at hplace
    omega
  obtain ⟨hab, hrs⟩ := (ByteArray.append_eq_append_iff_of_size_eq_left hsize).mp h
  exact ⟨rfl, hab, hrs⟩

theorem announced_unique {t t' : Tag} {name name' : String} {r s : ByteArray}
    (hname : Writer.hasZeroByte name = false) (hname' : Writer.hasZeroByte name' = false)
    (h : announced t name ++ r = announced t' name' ++ s) : t = t' ∧ name = name' ∧ r = s := by
  have hbounded := bounded_ofBytes (announced t name ++ r)
  obtain ⟨_, _, htag, htext, _, _⟩ :=
    element_announced hbounded hname (ofBytes_holds.mpr ⟨r, rfl⟩)
  obtain ⟨_, _, htag', htext', _, _⟩ :=
    element_announced hbounded hname' (ofBytes_holds.mpr ⟨s, h⟩)
  rw [htag] at htag'
  cases htag'
  rw [htext] at htext'
  cases htext'
  exact ⟨rfl, rfl, (ByteArray.append_right_inj _).mp h⟩

-- Elements whose bytes are those of some fields are these fields, each spelled as it is written.
theorem elements_unique {levels : Nat} (hlevels : levels ≤ maxNesting)
    {elements : List (String × Spelling)} {fields : List (String × Value)}
    (helements : elementsLegible levels elements)
    (hfields : ∀ field ∈ fields, Writer.hasZeroByte field.1 = false ∧
      Payload levels field.2.tag field.2.payload field.2)
    (h : elementBytes elements = fieldBytes fields) :
    elementValues elements = fields ∧
      ∀ element ∈ elements, element.2.text = element.2.value.payload := by
  induction elements generalizing fields with
  | nil =>
      cases fields with
      | nil => simp [elementValues]
      | cons field rest =>
          have hsize := congrArg ByteArray.size h
          simp only [elementBytes, fieldBytes, ByteArray.size_append, size_announced,
            ByteArray.size_empty] at hsize
          omega
  | cons element others ih =>
      obtain ⟨name, s⟩ := element
      cases fields with
      | nil =>
          have hsize := congrArg ByteArray.size h
          simp only [elementBytes, fieldBytes, ByteArray.size_append, size_announced,
            ByteArray.size_empty] at hsize
          omega
      | cons field rest =>
          obtain ⟨name', v⟩ := field
          obtain ⟨hname, hs, hothers⟩ := helements
          obtain ⟨⟨hname', hv⟩, hrest⟩ := List.forall_mem_cons.mp hfields
          obtain ⟨htag, rfl, hbehind⟩ := announced_unique hname hname' h
          have hpayload := legible_payload s hs
          rw [htag] at hpayload
          obtain ⟨rfl, htext, hbeyond⟩ := hpayload.unique hlevels hv hbehind
          obtain ⟨rfl, hexact⟩ := ih hothers hrest hbeyond
          exact ⟨rfl, List.forall_mem_cons.mpr ⟨htext, hexact⟩⟩

theorem enclosed_inj {a b : ByteArray} (h : enclosed a = enclosed b) : a = b := by
  have hsize := congrArg ByteArray.size h
  rw [size_enclosed, size_enclosed, Nat.add_right_cancel_iff] at hsize
  simp only [enclosed, framed, hsize, ByteArray.append_assoc] at h
  exact (ByteArray.append_left_inj _).mp ((ByteArray.append_right_inj _).mp h)

-- What a legible text stands for can be written, so long as it is not too long.
theorem payload_of_legible {s : Spelling} {levels : Nat} (hs : s.Legible levels)
    (hsize : s.value.payload.size ≤ Word.maxLength) :
    Payload levels s.value.tag s.value.payload s.value := by
  obtain ⟨hnamed, hdepth⟩ := legible_value s hs
  exact payload_rendered s.value hdepth hnamed (legible_payload s hs).distinct hsize

-- The same of fields that hold nothing but what the elements stand for.
theorem elements_exact {levels : Nat} (hlevels : levels ≤ maxNesting)
    {elements : List (String × Spelling)} {fields : List (String × Value)}
    (helements : elementsLegible levels elements)
    (hsize : (elementBytes elements).size ≤ Word.maxLength)
    (hfields : ∀ field ∈ fields, Writer.hasZeroByte field.1 = false ∧
      ∃ element ∈ elements, element.2.value = field.2)
    (h : elementBytes elements = fieldBytes fields) :
    elementValues elements = fields ∧
      ∀ element ∈ elements, element.2.text = element.2.value.payload := by
  refine elements_unique hlevels helements (fun field hfield => ?_) h
  obtain ⟨hname, element, helement, hvalue⟩ := hfields field hfield
  have hlegible := (elementsLegible_iff.mp helements element helement).2
  have hfits := payload_le_fieldBytes fields field hfield
  rw [← h] at hfits
  refine ⟨hname, ?_⟩
  rw [← hvalue] at hfits ⊢
  exact payload_of_legible hlegible (Nat.le_trans hfits hsize)

theorem nodup_denoted (fields : List (String × Value)) :
    ((denoted fields).fields.map (·.1)).Nodup := by
  have hnames : (denoted fields).fields.map (·.1) = (fields.map (·.1)).eraseDups := by
    simp [denoted, Function.comp_def]
  rw [hnames]
  exact nodup_eraseDups _

mutual

-- A text that is spelled as its value is written is spelled canonically.
theorem canonical_of_text (s : Spelling) {levels : Nat} (hlevels : levels ≤ maxNesting)
    (hs : s.Legible levels) (htext : s.text = s.value.payload) : s.Canonical := by
  cases s with
  | single v h => trivial
  | document elements =>
      obtain ⟨_, helements, hsize⟩ := hs
      have hbytes : elementBytes elements =
          fieldBytes (denoted (elementValues elements)).fields := enclosed_inj htext
      obtain ⟨hvalues, htexts⟩ := elements_exact (by omega) helements (by omega)
        (fun field hfield => by
          obtain ⟨element, helement, rfl⟩ := mem_denoted hfield
          exact ⟨(elementsLegible_iff.mp helements element helement).1, element, helement, rfl⟩)
        hbytes
      refine ⟨?_, canonical_of_texts elements (by omega) helements htexts⟩
      rw [← names_elementValues, hvalues]
      exact nodup_denoted _
  | array elements =>
      obtain ⟨_, helements, hsize⟩ := hs
      have hbytes : elementBytes elements =
          fieldBytes (numbered 0 ((elementValues elements).map (·.2))) := by
        rw [← itemBytes_eq]
        exact enclosed_inj htext
      obtain ⟨hvalues, htexts⟩ := elements_exact (by omega) helements (by omega)
        (fun field hfield => by
          obtain ⟨hname, hitem⟩ := of_mem_numbered hfield
          obtain ⟨other, hother, hvalue⟩ := List.mem_map.mp hitem
          obtain ⟨element, helement, rfl⟩ := mem_elementValues hother
          exact ⟨hname, element, helement, hvalue⟩)
        hbytes
      refine ⟨?_, canonical_of_texts elements (by omega) helements htexts⟩
      have hnames := names_numbered 0 ((elementValues elements).map (·.2))
      rw [← hvalues, names_elementValues, map_elementValues, List.map_map, List.length_map,
        ← List.range_eq_range'] at hnames
      exact hnames
termination_by structural s

theorem canonical_of_texts (elements : List (String × Spelling)) {levels : Nat}
    (hlevels : levels ≤ maxNesting) (helements : elementsLegible levels elements)
    (htexts : ∀ element ∈ elements, element.2.text = element.2.value.payload) :
    elementsCanonical elements := by
  cases elements with
  | nil => trivial
  | cons element rest =>
      obtain ⟨name, s⟩ := element
      obtain ⟨_, hs, hrest⟩ := helements
      obtain ⟨htext, htexts⟩ := List.forall_mem_cons.mp htexts
      exact ⟨canonical_of_text s hlevels hs htext, canonical_of_texts rest hlevels hrest htexts⟩
termination_by structural elements

end

theorem canonical_iff {s : Spelling} (hs : s.Legible maxNesting) :
    s.text = s.value.payload ↔ s.Canonical :=
  ⟨canonical_of_text s (Nat.le_refl _) hs, canonical_text s⟩

-- Whatever has been read can be written again unless it has become too long, and what is written
-- then is read as the same document. It is what stood there before just when that was written as a
-- writer does: no name twice in a document, and the items of every array numbered from zero.
theorem decodeDocument_normalises {bytes : ByteArray} {d : Document} {r : Reader}
    (h : Registry.standard.decodeDocument (ofBytes bytes) = .ok d r) :
    (∀ e, Registry.standard.toBytes d = .error e → e.TooLong d.rendered.size) ∧
      (∃ s : Spelling, s.Legible maxNesting ∧ s.tag = .document ∧
        s.text = bytes.extract 0 r.position ∧ s.value = .document d) ∧
      ∀ c, Registry.standard.toBytes d = .ok c →
        (∃ d' r', Registry.standard.decodeDocument (ofBytes c) = .ok d' r' ∧
          r'.position = c.size ∧ d' = d ∧ Registry.standard.toBytes d' = .ok c) ∧
        ∀ s : Spelling, s.Legible maxNesting → s.tag = .document →
          s.text = bytes.extract 0 r.position →
            (c = bytes.extract 0 r.position ↔ s.Canonical) := by
  obtain ⟨text, rest, rfl, hgrammar, hplace⟩ := document_read_sound h
  have htext : (text ++ rest).extract 0 r.position = text := by
    rw [hplace]
    exact ByteArray.extract_append_eq_left rfl
  obtain ⟨spelling, hlegible, htag, hspelled, hvalue⟩ := hgrammar.spelled
  obtain ⟨hnamed, hdepth⟩ := legible_value spelling hlegible
  rw [hvalue] at hnamed hdepth
  rw [htext]
  refine ⟨fun e => toBytes_error hnamed hdepth,
    ⟨spelling, hlegible, htag, hspelled, hvalue⟩, ?_⟩
  intro c hc
  obtain ⟨r', hread, hend⟩ :=
    document_read (isDocument_of_toBytes (wellFormed_of_decodeDocument h) hc) ByteArray.empty
  obtain ⟨_, rfl⟩ := toBytes_eq_ok.mp hc
  rw [ByteArray.append_empty] at hread
  refine ⟨⟨d, r', hread, hend, rfl, hc⟩, fun s hs htag' hsame => ?_⟩
  -- whatever spells this text stands for what has been read of it
  have hpayload := legible_payload s hs
  rw [htag', hsame] at hpayload
  obtain ⟨hv, _, _⟩ := hpayload.unique (Nat.le_refl _) hgrammar (Eq.refl (text ++ rest))
  rw [← canonical_iff hs, hv, hsame]
  exact eq_comm

-- A name that comes twice in front of other bytes.
def repeating : ByteArray := [12, 0, 0, 0, 0x0A, 0x61, 0, 0x08, 0x61, 0, 1, 0, 7].toByteArray

theorem repeating_normalises :
    ∃ r c, Registry.standard.decodeDocument (ofBytes repeating) =
        .ok ⟨[("a", .boolean true)]⟩ r ∧ r.position = 12 ∧
      Registry.standard.toBytes ⟨[("a", .boolean true)]⟩ = .ok c ∧ c ≠ repeating.extract 0 12 := by
  let spelling : Spelling :=
    .document [("a", .single .null rfl), ("a", .single (.boolean true) rfl)]
  have hname : Writer.hasZeroByte "a" = false := Writer.hasZeroByte_false_iff.mpr (by decide)
  have hlegible : spelling.Legible maxNesting :=
    ⟨Nat.succ_pos 99, ⟨hname, Nat.zero_le _, hname, Nat.zero_le _, trivial⟩, by decide⟩
  have hvalue : Document.denoted [("a", .null), ("a", .boolean true)] = ⟨[("a", .boolean true)]⟩ := by
    simp [← Document.ofList_eq_denoted, Document.ofList, Document.insert, Document.putField,
      Document.empty]
  have hdocument : IsDocument spelling.text ⟨[("a", .boolean true)]⟩ := by
    rw [← hvalue]
    exact legible_payload spelling hlegible
  obtain ⟨r, hread, hplace⟩ := document_read hdocument [7].toByteArray
  have htext : spelling.text ++ [7].toByteArray = repeating := by
    decide
  rw [htext] at hread
  have hplace : r.position = 12 := hplace
  obtain ⟨_, _, hwritten⟩ := decodeDocument_normalises hread
  have hnamed : Document.Throughout Document.Named ⟨[("a", .boolean true)]⟩ := by
    simp [Document.Throughout, fieldsThroughout, Value.Throughout, Document.Named, Document.keys]
  have hbytes := toBytes_eq_ok.mpr
    ⟨(Document.writable_iff _ 0 (Nat.zero_le _)).mpr ⟨hnamed, by decide, by decide⟩, rfl⟩
  refine ⟨r, _, hread, hplace, hbytes, fun hsame => ?_⟩
  rw [hplace] at hwritten
  have hcanonical :=
    ((hwritten _ hbytes).2 spelling hlegible rfl (by decide)).mp hsame
  have hnames : ["a", "a"].Nodup := hcanonical.1
  exact absurd hnames (by decide)

end DocWire.Wire
