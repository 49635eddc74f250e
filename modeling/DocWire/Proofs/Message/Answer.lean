import DocWire.Command.Exchange
import DocWire.Proofs.Message.Request

namespace DocWire

open Outcome

-- The errors of bytes that are not a reply to the request in question.
def CommandError.rejectsReply : CommandError → Bool
  | .oversizedMessage _ _ => true
  | .responseMismatch _ _ => true
  | .unexpectedOpCode _ => true
  | .invalidReply _ => true
  | .codec _ => true
  | _ => false

theorem CommandError.out_of_step {e : CommandError} (h : e.rejectsReply = true) :
    e.leavesInStep = false ∧ e.HasNoResult := by
  cases e with
  | oversizedMessage _ _ => exact ⟨rfl, rfl⟩
  | responseMismatch _ _ => exact ⟨rfl, rfl⟩
  | unexpectedOpCode _ => exact ⟨rfl, rfl⟩
  | invalidReply _ => exact ⟨rfl, rfl⟩
  | codec _ => exact ⟨rfl, rfl⟩
  | _ => cases h

theorem CommandError.leavesInStep_iff (e : CommandError) :
    e.leavesInStep = true ↔ (∃ d, e = .queryFailure d) ∨ e = .emptyReply := by
  cases e with
  | queryFailure d => exact ⟨fun _ => .inl ⟨d, rfl⟩, fun _ => rfl⟩
  | emptyReply => exact ⟨fun _ => .inr rfl, fun _ => rfl⟩
  | _ => simp [leavesInStep]

-- The bytes of one whole message that answers the request of a number.
structure Answers (id : Int32) (reply : ByteArray) : Prop where
  whole : (MessageHeader.wordAt reply 0).toInt = reply.size
  isReply : MessageHeader.wordAt reply 12 = OpCode.reply.code
  responseTo : MessageHeader.wordAt reply 8 = id

-- What stands behind the header and the fixed fields of a reply.
def documentBytes (reply : ByteArray) : ByteArray :=
  reply.extract (MessageHeader.size + ReplyMessage.fieldsSize) reply.size

-- The document that stands first in a reply, as the decoder reads it.
def FirstDocument (decoder : Decoder Document) (reply : ByteArray) (d : Document) : Prop :=
  ∃ size rest, ReplyMessage.documentSize (documentBytes reply) = .ok size ∧
    decoder (Reader.ofBytes ((documentBytes reply).extract 0 size)) = .ok d rest

theorem extract_documentBytes (reply : ByteArray) :
    (reply.extract MessageHeader.size reply.size).extract ReplyMessage.fieldsSize
        (reply.extract MessageHeader.size reply.size).size = documentBytes reply := by
  have hend : min (MessageHeader.size + (reply.extract MessageHeader.size reply.size).size)
      reply.size = reply.size := by
    rw [ByteArray.size_extract]
    omega
  rw [ByteArray.extract_extract, hend]
  rfl

namespace ReplyMessage

theorem checkHeader_eq_ok {bytes : ByteArray} {settings : ReplySettings} {h : MessageHeader} :
    checkHeader bytes settings h = .ok () ↔
      bytes.size ≤ settings.maxMessageSize ∧ h.length.toInt = bytes.size ∧
        h.opCode = OpCode.reply.code ∧ h.responseTo = settings.responseTo := by
  constructor
  · intro hok
    unfold checkHeader at hok
    split at hok
    · cases hok
    · next hsize =>
      split at hok
      · cases hok
      · next hlength =>
        split at hok
        · cases hok
        · next hcode =>
          split at hok
          · cases hok
          · next hresponse =>
            have hfound : OpCode.ofCode? h.opCode = some .reply := Classical.not_not.mp hcode
            have hreply := List.find?_some hfound
            refine ⟨Nat.not_lt.mp hsize, Classical.not_not.mp hlength, ?_,
              Classical.not_not.mp hresponse⟩
            simpa using (decide_eq_true_eq.mp hreply).symm
  · rintro ⟨hsize, hlength, hcode, hresponse⟩
    have hreply : OpCode.ofCode? h.opCode = some .reply := by
      rw [hcode]
      rfl
    unfold checkHeader
    rw [if_neg (Nat.not_lt.mpr hsize), if_neg (not_not_intro hlength),
      if_neg (not_not_intro hreply), if_neg (not_not_intro hresponse)]

theorem checkHeader_error {bytes : ByteArray} {settings : ReplySettings} {h : MessageHeader}
    {e : CommandError} (herror : checkHeader bytes settings h = .error e) :
    e.rejectsReply = true := by
  unfold checkHeader at herror
  repeat' split at herror
  all_goals
    cases herror
    try rfl

theorem peek_error {bytes : ByteArray} {e : CommandError} (h : peek bytes = .error e) :
    e.rejectsReply = true := by
  unfold peek at h
  split at h
  · cases h
  · cases h
    rfl

theorem peek_eq_ok {bytes : ByteArray} {header : MessageHeader} :
    peek bytes = .ok header ↔ MessageHeader.size ≤ bytes.size ∧
      header = ⟨MessageHeader.wordAt bytes 0, MessageHeader.wordAt bytes 4,
        MessageHeader.wordAt bytes 8, MessageHeader.wordAt bytes 12⟩ := by
  unfold peek MessageHeader.ofBytes?
  by_cases hsize : bytes.size < MessageHeader.size
  · simp only [hsize, if_true, reduceCtorEq, false_iff]
    rintro ⟨hle, _⟩
    omega
  · simp only [hsize, if_false, Except.ok.injEq]
    rw [and_iff_right (Nat.not_lt.mp hsize)]
    exact eq_comm

theorem documentSize_error {bytes : ByteArray} {e : CommandError}
    (h : documentSize bytes = .error e) : e.rejectsReply = true := by
  unfold documentSize at h
  split at h
  · cases h
    rfl
  · dsimp only at h
    split at h
    · cases h
    · cases h
      rfl

theorem readDocument_error {decoder : Decoder Document} {bytes : ByteArray} {e : CommandError}
    (h : readDocument decoder bytes = .error e) : e.rejectsReply = true := by
  unfold readDocument at h
  split at h
  · cases h
  · cases h
    rfl

theorem readDocuments_error {decoder : Decoder Document} {bytes : ByteArray} {e : CommandError}
    (h : readDocuments decoder bytes = .error e) : e.rejectsReply = true := by
  fun_induction readDocuments decoder bytes
  case case1 bytes hempty => cases h
  case case2 bytes hsome fault hsize =>
    cases h
    exact documentSize_error hsize
  case case3 bytes hsome size hsize fault hread =>
    cases h
    exact readDocument_error hread
  case case4 bytes hsome size hsize d hread fault hrest ih =>
    cases h
    exact ih hrest
  case case5 bytes hsome size hsize d hread rest hrest ih => cases h

-- Of the documents that are read, the first stands at the beginning.
theorem readDocuments_first {decoder : Decoder Document} {bytes : ByteArray} {d : Document}
    {rest : List Document} (h : readDocuments decoder bytes = .ok (d :: rest)) :
    ∃ size, documentSize bytes = .ok size ∧
      readDocument decoder (bytes.extract 0 size) = .ok d := by
  rw [readDocuments] at h
  split at h
  · cases h
  · split at h
    · cases h
    · next size hsize =>
      split at h
      · cases h
      · next found hread =>
        split at h
        · cases h
        · cases h
          exact ⟨size, hsize, hread⟩

theorem readBody_error {decoder : Decoder Document} {header : MessageHeader} {body : ByteArray}
    {e : CommandError} (h : readBody decoder header body = .error e) : e.rejectsReply = true := by
  unfold readBody at h
  by_cases hshort : body.size < fieldsSize
  · rw [if_pos hshort] at h
    cases h
    rfl
  · rw [if_neg hshort] at h
    rcases except_bind_eq_error.mp h with hread | ⟨documents, _, h⟩
    · exact readDocuments_error hread
    · dsimp only at h
      split at h
      · cases h
        rfl
      · cases h

theorem readBody_eq_ok {decoder : Decoder Document} {header : MessageHeader} {body : ByteArray}
    {reply : ReplyMessage} :
    readBody decoder header body = .ok reply ↔ fieldsSize ≤ body.size ∧
      readDocuments decoder (body.extract fieldsSize body.size) = .ok reply.documents ∧
      (MessageHeader.wordAt body 16).toInt = reply.documents.length ∧
      reply = ⟨header, MessageHeader.wordAt body 0, Word.toInt64 (body.extract 4 12),
        MessageHeader.wordAt body 12, reply.documents⟩ := by
  unfold readBody
  by_cases hshort : body.size < fieldsSize
  · rw [if_pos hshort]
    constructor
    · intro h
      cases h
    · rintro ⟨hlong, _⟩
      omega
  · rw [if_neg hshort, and_iff_right (Nat.not_lt.mp hshort)]
    constructor
    · intro h
      obtain ⟨documents, hread, h⟩ := except_bind_eq_ok.mp h
      dsimp only at h
      split at h
      · cases h
      · next hcount =>
        cases h
        exact ⟨hread, Classical.not_not.mp hcount, rfl⟩
    · rintro ⟨hread, hcount, hreply⟩
      refine except_bind_eq_ok.mpr ⟨reply.documents, hread, ?_⟩
      dsimp only
      rw [if_neg (not_not_intro hcount), hreply]
      rfl

-- A reply as it is read, before its flags are looked at.
def readWhole (decoder : Decoder Document) (settings : ReplySettings) (bytes : ByteArray) :
    Except CommandError ReplyMessage := do
  let h ← peek bytes
  checkHeader bytes settings h
  readBody decoder h (bytes.extract MessageHeader.size bytes.size)

theorem decode_eq (decoder : Decoder Document) (settings : ReplySettings) (bytes : ByteArray) :
    decode decoder settings bytes = (do
      let reply ← readWhole decoder settings bytes
      if reply.queryFailed then throw (.queryFailure (reply.first?.getD .empty))
      return reply) := by
  simp only [decode, readWhole, bind_assoc]

theorem readWhole_error {decoder : Decoder Document} {settings : ReplySettings} {bytes : ByteArray}
    {e : CommandError} (h : readWhole decoder settings bytes = .error e) :
    e.rejectsReply = true := by
  rcases except_bind_eq_error.mp h with hpeek | ⟨header, _, h⟩
  · exact peek_error hpeek
  · rcases except_bind_eq_error.mp h with hcheck | ⟨_, _, hbody⟩
    · exact checkHeader_error hcheck
    · exact readBody_error hbody

theorem readWhole_eq_ok {decoder : Decoder Document} {settings : ReplySettings} {bytes : ByteArray}
    {reply : ReplyMessage} :
    readWhole decoder settings bytes = .ok reply ↔
      ∃ header, peek bytes = .ok header ∧ checkHeader bytes settings header = .ok () ∧
        readBody decoder header (bytes.extract MessageHeader.size bytes.size) = .ok reply := by
  unfold readWhole
  simp only [except_bind_eq_ok]
  constructor
  · rintro ⟨header, hpeek, _, hcheck, hbody⟩
    exact ⟨header, hpeek, hcheck, hbody⟩
  · rintro ⟨header, hpeek, hcheck, hbody⟩
    exact ⟨header, hpeek, (), hcheck, hbody⟩

-- A message whose header has been checked is a whole one that answers the request.
theorem answers_of_readWhole {decoder : Decoder Document} {settings : ReplySettings}
    {bytes : ByteArray} {reply : ReplyMessage} (h : readWhole decoder settings bytes = .ok reply) :
    Answers settings.responseTo bytes := by
  obtain ⟨header, hpeek, hcheck, _⟩ := readWhole_eq_ok.mp h
  obtain ⟨_, rfl⟩ := peek_eq_ok.mp hpeek
  obtain ⟨_, hlength, hcode, hresponse⟩ := checkHeader_eq_ok.mp hcheck
  exact ⟨hlength, hcode, hresponse⟩

-- A reply is refused for what it is, or else for what it says, which is known when the whole
-- message has been read.
theorem decode_eq_error {decoder : Decoder Document} {settings : ReplySettings} {bytes : ByteArray}
    {e : CommandError} :
    decode decoder settings bytes = .error e ↔
      readWhole decoder settings bytes = .error e ∨
        ∃ reply, readWhole decoder settings bytes = .ok reply ∧ reply.queryFailed = true ∧
          e = .queryFailure (reply.first?.getD .empty) := by
  rw [decode_eq, except_bind_eq_error]
  refine or_congr_right (exists_congr fun reply => and_congr_right fun _ => ?_)
  cases hfailed : reply.queryFailed with
  | true =>
      rw [if_pos rfl, and_iff_right rfl]
      constructor
      · intro h
        cases h
        rfl
      · rintro rfl
        rfl
  | false =>
      rw [if_neg Bool.false_ne_true]
      constructor
      · intro h
        cases h
      · rintro ⟨h, _⟩
        cases h

theorem decode_eq_ok {decoder : Decoder Document} {settings : ReplySettings} {bytes : ByteArray}
    {reply : ReplyMessage} :
    decode decoder settings bytes = .ok reply ↔
      readWhole decoder settings bytes = .ok reply ∧ reply.queryFailed = false := by
  rw [decode_eq, except_bind_eq_ok]
  constructor
  · rintro ⟨found, hread, h⟩
    split at h
    · cases h
    · next hflag =>
      cases h
      exact ⟨hread, Bool.eq_false_iff.mpr hflag⟩
  · rintro ⟨hread, hflag⟩
    refine ⟨reply, hread, ?_⟩
    rw [hflag, if_neg Bool.false_ne_true]
    rfl

end ReplyMessage

namespace Exchange

theorem readReply_error {x : Exchange} {reply : ByteArray} {e : CommandError}
    (h : x.readReply reply = .error e) :
    e.HasNoResult ∧ (e.leavesInStep = true → Answers x.message.id reply) := by
  unfold readReply at h
  cases hdecode : ReplyMessage.decode x.decoder x.replySettings reply with
  | error fault =>
      rw [hdecode] at h
      cases h
      rcases ReplyMessage.decode_eq_error.mp hdecode with hread | ⟨found, hread, _, rfl⟩
      · obtain ⟨hstep, hresult⟩ := e.out_of_step (ReplyMessage.readWhole_error hread)
        refine ⟨hresult, fun he => ?_⟩
        rw [hstep] at he
        cases he
      · exact ⟨rfl, fun _ => ReplyMessage.answers_of_readWhole hread⟩
  | ok found =>
      rw [hdecode] at h
      obtain ⟨hread, _⟩ := ReplyMessage.decode_eq_ok.mp hdecode
      refine ⟨?_, fun _ => ReplyMessage.answers_of_readWhole hread⟩
      dsimp only at h
      split at h
      · cases h
      · cases h
        rfl

-- The document of a reply is the first one that stands in it.
theorem readReply_ok {x : Exchange} {reply : ByteArray} {d : Document}
    (h : x.readReply reply = .ok d) :
    Answers x.message.id reply ∧ FirstDocument x.decoder reply d := by
  unfold readReply at h
  cases hdecode : ReplyMessage.decode x.decoder x.replySettings reply with
  | error fault =>
      rw [hdecode] at h
      cases h
  | ok found =>
      rw [hdecode] at h
      obtain ⟨hread, _⟩ := ReplyMessage.decode_eq_ok.mp hdecode
      refine ⟨ReplyMessage.answers_of_readWhole hread, ?_⟩
      obtain ⟨header, _, _, hbody⟩ := ReplyMessage.readWhole_eq_ok.mp hread
      obtain ⟨_, hdocuments, _, _⟩ := ReplyMessage.readBody_eq_ok.mp hbody
      cases hfirst : found.documents with
      | nil =>
          simp only [ReplyMessage.first?, hfirst, List.head?_nil] at h
          cases h
      | cons first rest =>
          simp only [ReplyMessage.first?, hfirst, List.head?_cons] at h
          cases h
          rw [hfirst, extract_documentBytes] at hdocuments
          obtain ⟨size, hsize, hread⟩ := ReplyMessage.readDocuments_first hdocuments
          unfold ReplyMessage.readDocument at hread
          split at hread
          · next d rest hdecoded =>
            cases hread
            exact ⟨size, rest, hsize, hdecoded⟩
          · cases hread

end Exchange

end DocWire
