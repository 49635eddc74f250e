import DocWire.Proofs.Command.Conversation
import DocWire.Proofs.Command.Success
import DocWire.Proofs.Running

namespace DocWire

-- What is done with a connection, with the outcome where there is one.
inductive Use where
  | sent (bytes : ByteArray) (outcome : Except TransportError Unit)
  | received (limit : Nat) (outcome : Except TransportError ByteArray)
  | invalidated
  | closed

-- A connection with everything that was done with it, in order.
structure Logged (κ : Type) where
  connection : κ
  uses : List Use

-- A run on a logged connection that ends like the run on the connection itself, and leaves behind
-- it the uses that it made.
def Logged.after {ω κ α : Type} (l : Logged κ) (uses : List Use) (plain : (α × κ) × ω) :
    (α × Logged κ) × ω :=
  ((plain.1.1, ⟨plain.1.2, l.uses ++ uses⟩), plain.2)

namespace Exchange

variable {ω κ : Type}

-- What an exchange moves over a connection, and the response that it comes to. A step that fails
-- is the last one, and nothing is done twice.
inductive Moves (x : Exchange) : List Use → Except CommandError Document → Prop where
  | unwritten {e : CommandError} (hrequest : x.request = .error e) : Moves x [] (.error e)
  | unsent {bytes : ByteArray} {e : TransportError} (hrequest : x.request = .ok bytes) :
      Moves x [.sent bytes (.error e)] (.error (.transport e))
  | unanswered {bytes : ByteArray} {e : TransportError} (hrequest : x.request = .ok bytes) :
      Moves x [.sent bytes (.ok ()), .received x.replySettings.maxMessageSize (.error e)]
        (.error (.transport e))
  | answered {bytes reply : ByteArray} (hrequest : x.request = .ok bytes) :
      Moves x [.sent bytes (.ok ()), .received x.replySettings.maxMessageSize (.ok reply)]
        (x.readReply reply)

-- A request went out, and what came of it is neither a document nor word from the server that it
-- has none.
def BreaksOff (x : Exchange) (response : Except CommandError Document) : Prop :=
  (∃ bytes, x.request = .ok bytes) ∧
    ∃ e, response = .error e ∧ ¬((∃ d, e = .queryFailure d) ∨ e = .emptyReply)

-- How a connection is given up: once, if the exchange broke off.
inductive GivesUp (x : Exchange) (response : Except CommandError Document) : List Use → Prop where
  | broken (h : x.BreaksOff response) : GivesUp x response [.invalidated]
  | sound (h : ¬x.BreaksOff response) : GivesUp x response []

-- What an execution makes of a response.
inductive Concludes (x : Exchange) : Except CommandError Document →
    Except CommandError CommandResult → Prop where
  | failed (e : CommandError) : Concludes x (.error e) (.error e)
  | succeeded {d : Document} (server : ServerAddress) (elapsed : Span) (hok : Succeeds d) :
      Concludes x (.ok d) (.ok ⟨x.message.command, server, d, elapsed⟩)
  | rejected {d : Document} (server : ServerAddress) (elapsed : Span) (hok : ¬Succeeds d) :
      Concludes x (.ok d) (.error (.commandFailure ⟨x.message.command, server, d, elapsed⟩))

-- How an execution ends for the connection.
def finalUses (x : Exchange) : List Use :=
  if x.closeAfterwards then [.closed] else []

-- All that one execution does with a connection.
structure Effects (x : Exchange) (uses : List Use) (result : Except CommandError CommandResult) :
    Prop where
  inOrder : ∃ moved response gaveUp, x.Moves moved response ∧ x.GivesUp response gaveUp ∧
    x.Concludes response result ∧ uses = moved ++ gaveUp ++ x.finalUses
  unwritten : ∀ e, x.request = .error e → ∀ bytes outcome, .sent bytes outcome ∉ uses
  rejected : ∀ r, result = .error (.commandFailure r) → .invalidated ∉ uses

section

variable {x : Exchange} {moved gaveUp : List Use} {response : Except CommandError Document}
  {result : Except CommandError CommandResult}

-- Apart from how it ends for the connection, an execution does what its round trip moves.
theorem GivesUp.mem_moved {use : Use} (h : x.GivesUp response gaveUp)
    (hmem : use ∈ moved ++ gaveUp ++ x.finalUses) (hinvalidated : use ≠ .invalidated)
    (hclosed : use ≠ .closed) : use ∈ moved := by
  rcases List.mem_append.mp hmem with hmem | hmem
  · rcases List.mem_append.mp hmem with hmem | hmem
    · exact hmem
    · cases h with
      | broken _ => exact (hinvalidated (List.mem_singleton.mp hmem)).elim
      | sound _ => cases hmem
  · unfold finalUses at hmem
    split at hmem
    · exact (hclosed (List.mem_singleton.mp hmem)).elim
    · cases hmem

end

namespace Effects

variable {x : Exchange} {uses : List Use} {result : Except CommandError CommandResult}
  {bytes reply : ByteArray} {limit : Nat}

-- A request that can be written is sent, and for one that cannot the reason is all that comes of
-- it.
theorem sends (h : x.Effects uses result) (hrequest : x.request = .ok bytes) :
    ∃ outcome, .sent bytes outcome ∈ uses := by
  obtain ⟨moved, response, gaveUp, hmoves, _, _, rfl⟩ := h.inOrder
  cases hmoves with
  | unwritten hother => cases hrequest.symm.trans hother
  | unsent hother | unanswered hother | answered hother =>
      cases hrequest.symm.trans hother
      exact ⟨_, List.mem_append_left _ (List.mem_append_left _ List.mem_cons_self)⟩

-- Whatever came in decides what comes of the exchange, and whether the connection is given up.
theorem of_reply (h : x.Effects uses result) (hreceived : .received limit (.ok reply) ∈ uses) :
    ∃ bytes gaveUp, x.request = .ok bytes ∧ x.GivesUp (x.readReply reply) gaveUp ∧
      x.Concludes (x.readReply reply) result ∧ ∀ use ∈ gaveUp, use ∈ uses := by
  obtain ⟨moved, response, gaveUp, hmoves, hgives, hconcludes, rfl⟩ := h.inOrder
  have hmoved := hgives.mem_moved hreceived (by simp) (by simp)
  cases hmoves with
  | unwritten _ => cases hmoved
  | unsent _ => simp at hmoved
  | unanswered _ => simp at hmoved
  | @answered bytes _ hrequest =>
      simp only [List.mem_cons, List.not_mem_nil, or_false, reduceCtorEq, false_or,
        Use.received.injEq, Except.ok.injEq] at hmoved
      obtain ⟨_, rfl⟩ := hmoved
      exact ⟨bytes, gaveUp, hrequest, hgives, hconcludes, fun use huse =>
        List.mem_append_left _ (List.mem_append_right _ huse)⟩

end Effects

section

variable (x : Exchange) (channel : Channel (StateM ω) κ)

theorem converse_run (bytes : ByteArray) (k : κ) (w : ω) :
    x.converse channel bytes k w =
      match channel.send bytes k w with
      | ((.error e, sent), w') => ((.error (.transport e), sent), w')
      | ((.ok (), sent), w') =>
        match channel.receive x.replySettings.maxMessageSize sent w' with
        | ((.error e, received), w'') => ((.error (.transport e), received), w'')
        | ((.ok reply, received), w'') => ((x.readReply reply, received), w'') := by
  rw [converse, bind_state]
  rcases channel.send bytes k w with ⟨⟨outcome, sent⟩, w'⟩
  cases outcome with
  | error e => rfl
  | ok u =>
      dsimp only
      rw [bind_state]
      rcases channel.receive x.replySettings.maxMessageSize sent w' with ⟨⟨outcome, received⟩, w''⟩
      cases outcome with
      | error e => rfl
      | ok reply => rfl

end

end Exchange

end DocWire
