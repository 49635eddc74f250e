import DocWire.Proofs.Message.Query

namespace DocWire

open Wire

namespace RequestMessage

open Writing

variable {key : String} {payload : Writing Unit}

-- Fields of other names are written as in any document.
theorem writeFields_other {fields : List (String × Value)} (h : key ∉ fields.map (·.1)) :
    writeFields .standard key payload fields = Registry.standard.writeFields .any fields := by
  induction fields with
  | nil => rfl
  | cons field rest ih =>
      obtain ⟨name, v⟩ := field
      rw [List.map_cons, List.mem_cons, not_or] at h
      obtain ⟨hname, hrest⟩ := h
      rw [writeFields, if_neg (fun heq => hname heq.symm), ih hrest]
      rfl

theorem writeFields_append (registry : Registry) (before after : List (String × Value)) :
    writeFields registry key payload (before ++ after) =
      writeFields registry key payload before >>= fun _ =>
        writeFields registry key payload after := by
  induction before with
  | nil => rfl
  | cons field rest ih =>
      obtain ⟨name, v⟩ := field
      simp only [List.cons_append, writeFields, ih, bind_assoc]
      split
      · simp only [bind_assoc]
      · simp only [bind_assoc]

end RequestMessage

theorem Registry.writeFields_append (registry : Registry) (names : FieldNames)
    (before after : List (String × Value)) :
    registry.writeFields names (before ++ after) =
      registry.writeFields names before >>= fun _ => registry.writeFields names after := by
  induction before with
  | nil => rfl
  | cons field rest ih =>
      obtain ⟨name, v⟩ := field
      simp only [List.cons_append, Registry.writeFields, ih, bind_assoc]

namespace RequestMessage

-- A document with a payload is written like the document that holds it.
theorem writeWithPayload_eq {c : Document} (hc : c.Distinct) (key : String) (p : Document) :
    writeWithPayload .standard c key (Registry.standard.encodeDocument p) =
      Registry.standard.encodeDocument (c.insert key (.document p)) := by
  obtain ⟨before, after, h⟩ := c.exists_opening key
  rw [h.insert_eq]
  change Writing.document _ =
    Writing.document (Registry.standard.writeFields .any (before ++ (key, .document p) :: after))
  rw [Registry.writeFields_append]
  rcases h.place with ⟨old, hfields⟩ | ⟨hfields, rfl⟩
  · have hcontains : c.contains key = true := by
      rw [Document.contains_iff, Document.keys, hfields]
      simp
    have hrest : writeFields .standard key (Registry.standard.encodeDocument p)
        ((key, old) :: after) = Registry.standard.writeFields .any ((key, .document p) :: after) := by
      rw [writeFields, if_pos rfl, writeFields_other (h.after_new hc)]
      rfl
    rw [hcontains, hfields, writeFields_append, writeFields_other h.new, hrest]
    simp only [if_true, bind_assoc, bind_pure_unit]
  · have hcontains : c.contains key = false := by
      rw [Bool.eq_false_iff, ne_eq, Document.contains_iff, Document.keys, hfields]
      exact h.new
    have hlast : Registry.standard.writeFields .any [(key, .document p)] = (do
        Writing.write (.name key)
        Registry.standard.encodeDocument p) := by
      change (Writing.write (.name key) >>= fun _ => Registry.standard.encodeDocument p >>= fun _ =>
        pure ()) = _
      simp only [bind_pure_unit]
    rw [hcontains, hfields, writeFields_other h.new, hlast]
    simp only [Bool.false_eq_true, if_false]

-- A request is told by its number, its addressee, its limits and what is written of its document.
theorem encode_congr {r r' : RequestMessage} {registry : Registry}
    (hdocument : r.writeDocument registry = r'.writeDocument registry) (hid : r.id = r'.id)
    (hspace : r.space = r'.space) (hsettings : r.settings = r'.settings) :
    r.encode registry = r'.encode registry := by
  simp only [encode, header, writeBody_eq, spaceBytes, hid, hspace, hsettings, hdocument]

-- Two requests that differ in their number are both refused, or are written with those numbers.
theorem encode_numbered {r r' : RequestMessage} {d : Document}
    (hr : r.writeDocument .standard = Registry.standard.encodeDocument d)
    (hr' : r'.writeDocument .standard = Registry.standard.encodeDocument d)
    (hspace : r'.space = r.space) (hsettings : r'.settings = r.settings) (prior : ByteArray) :
    (∃ e, r.encode .standard prior = .error e prior ∧ r'.encode .standard prior = .error e prior) ∨
      ∃ length rest,
        r.encode .standard prior =
          .ok () (prior ++ (Word.int32 length ++ (Word.int32 r.id ++ rest))) ∧
        r'.encode .standard prior =
          .ok () (prior ++ (Word.int32 length ++ (Word.int32 r'.id ++ rest))) := by
  rcases sendable_or_fault r.space d r.settings with ⟨text, htext⟩ | ⟨e, he⟩
  · have hfirst := encode_ok hr htext prior
    rw [← hspace, ← hsettings] at htext
    have hsecond := encode_ok hr' htext prior
    rw [hspace] at hsecond
    simp only [MessageHeader.toBytes, ByteArray.append_assoc] at hfirst hsecond
    exact .inr ⟨_, _, hfirst, hsecond⟩
  · have hfirst := encode_error hr he prior
    rw [← hspace, ← hsettings] at he
    exact .inl ⟨e, hfirst, encode_error hr' he prior⟩

-- A payload that is written by itself comes to the same as one that the command holds: the outcome
-- is the same, and so is the message but for its number. It stands where the field of its name
-- stood, or behind all fields, and what that field held before does not matter.
theorem payload_in_place (id other : Int32) (database : String) (c : Document) (key : String)
    (p : Document) (settings : MessageSettings) (prior : ByteArray) (hc : c.Distinct) :
    let payload := Registry.standard.encodeDocument p
    let spliced := (ofPayload id database c key payload settings).encode .standard prior
    let whole := (ofCommand other database (c.insert key (.document p)) settings none).encode
      .standard prior
    ((∃ e, spliced = .error e prior ∧ whole = .error e prior) ∨
        ∃ length rest,
          spliced = .ok () (prior ++ (Word.int32 length ++ (Word.int32 id ++ rest))) ∧
          whole = .ok () (prior ++ (Word.int32 length ++ (Word.int32 other ++ rest)))) ∧
      (∀ old, (ofPayload id database (c.insert key old) key payload settings).encode
        .standard prior = spliced) ∧
      ∃ before after, ((∃ old, c.fields = before ++ (key, old) :: after) ∨
          c.fields = before ∧ after = []) ∧
        key ∉ before.map (·.1) ∧ key ∉ after.map (·.1) ∧
        ∀ buffer, spliced = .ok () buffer → ∃ length : Int32, buffer = prior ++
          ((MessageHeader.mk length id 0 OpCode.query.code).toBytes ++
            Query.body (database ++ ".$cmd") (enclosed (fieldBytes before ++
              (announced .document key ++ (p.rendered ++ fieldBytes after))))) := by
  intro payload spliced whole
  have hspliced : ∀ c : Document, c.Distinct →
      (ofPayload id database c key payload settings).writeDocument .standard =
        Registry.standard.encodeDocument (c.insert key (.document p)) :=
    fun c hc => writeWithPayload_eq hc key p
  obtain ⟨before, after, h⟩ := c.exists_opening key
  refine ⟨?_, fun old => ?_, before, after, h.place, h.new, h.after_new hc, fun buffer hbuffer => ?_⟩
  · have hwhole : (ofCommand other database (c.insert key (.document p)) settings none).writeDocument
        .standard = Registry.standard.encodeDocument (c.insert key (.document p)) := rfl
    exact encode_numbered (hspliced c hc) hwhole rfl rfl prior
  · have hsame : (ofPayload id database (c.insert key old) key payload settings).writeDocument
        .standard = (ofPayload id database c key payload settings).writeDocument .standard := by
      rw [hspliced _ (Document.distinct_insert hc key old), hspliced c hc, Document.insert_insert]
    exact congrFun (encode_congr hsame rfl rfl rfl) prior
  · obtain ⟨text, hsent, rfl⟩ := (encode_eq_ok (hspliced c hc)).mp hbuffer
    obtain ⟨_, htext⟩ := toBytes_eq_ok.mp hsent.written
    rw [h.insert_eq, Document.rendered, fieldBytes_append, fieldBytes] at htext
    refine ⟨Int32.ofNat (Query.size (commandSpace database) text.size), ?_⟩
    rw [htext]
    rfl

-- A command with a field in the middle that holds the place of a payload.
def insertion : Document :=
  ⟨[("insert", .string "users"), ("documents", .null), ("ordered", .boolean true)]⟩

theorem insertion_in_place :
    ∃ length rest,
      (ofPayload 7 "app" insertion "documents" (Registry.standard.encodeDocument ⟨[("a", .int32 1)]⟩)
        .standard).encode .standard [1, 2, 3].toByteArray =
          .ok () ([1, 2, 3].toByteArray ++ (Word.int32 length ++ (Word.int32 7 ++ rest))) ∧
      (ofCommand 8 "app" ⟨[("insert", .string "users"), ("documents", .document ⟨[("a", .int32 1)]⟩),
        ("ordered", .boolean true)]⟩ .standard none).encode .standard [1, 2, 3].toByteArray =
          .ok () ([1, 2, 3].toByteArray ++ (Word.int32 length ++ (Word.int32 8 ++ rest))) := by
  have hdistinct : insertion.Distinct := by
    simp [insertion, Document.Distinct, Document.keys]
  obtain ⟨hboth, _, _⟩ := payload_in_place 7 8 "app" insertion "documents" ⟨[("a", .int32 1)]⟩
    .standard [1, 2, 3].toByteArray hdistinct
  rcases hboth with ⟨e, _, hwhole⟩ | hboth
  · have hnamed : (insertion.insert "documents" (.document ⟨[("a", .int32 1)]⟩)).Throughout
        Document.Named := by
      simp [insertion, Document.insert, Document.putField, Document.Throughout, fieldsThroughout,
        Value.Throughout, Document.Named, Document.keys]
    have hwritten := toBytes_eq_ok.mpr
      ⟨(Document.writable_iff _ 0 (Nat.zero_le _)).mpr ⟨hnamed, by decide, by decide⟩, rfl⟩
    have hsent : Sendable "app.$cmd" _ .standard _ :=
      ⟨by decide, hwritten, by decide, by decide, by decide⟩
    rw [encode_ok rfl hsent] at hwhole
    cases hwhole
  · exact hboth

end RequestMessage

end DocWire
