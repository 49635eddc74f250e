import DocWire.Proofs.Message.Answer
import DocWire.Proofs.Transport.Recording

namespace DocWire

-- A connection on a recorded stream.
abbrev Line (σ : Type) := StreamConnection (Recorded σ)

namespace Line

variable {σ : Type}

def number (k : Line σ) : Nat := k.stream.number

def motions (k : Line σ) : List Motion := k.stream.motions

-- The second connection is the first one later.
def Continues (k k' : Line σ) (motions : List Motion) : Prop :=
  k.stream.Continues k'.stream motions

theorem Continues.number_eq {k k' : Line σ} {motions : List Motion} (h : k.Continues k' motions) :
    k'.number = k.number :=
  h.1

end Line

namespace StreamConnection

variable {σ : Type}

theorem send_ok {inner : ByteStream σ} {bytes : ByteArray} {k k' : Line σ}
    (h : k.send (Recorded.stream inner) bytes = (.ok (), k')) :
    k'.isOpen = true ∧ ∃ pieces : List ByteArray, Recorded.joined pieces = bytes ∧
      k.Continues k' (pieces.map .wrote ++ [.flushed]) := by
  obtain ⟨motions, hmotions, hpieces⟩ := Recorded.writeMessage_continues inner bytes k.stream
  unfold send guarded at h
  by_cases hopen : k.isOpen
  · rw [if_pos hopen] at h
    cases hwrite : (Recorded.stream inner).writeMessage bytes k.stream with
    | mk outcome t =>
        rw [hwrite] at h hmotions hpieces
        cases outcome with
        | error e => cases h
        | ok u =>
            cases h
            obtain ⟨pieces, hjoined, rfl⟩ := hpieces rfl
            exact ⟨hopen, pieces, hjoined, hmotions⟩
  · rw [if_neg hopen] at h
    cases h

theorem send_number (inner : ByteStream σ) (bytes : ByteArray) (k : Line σ) :
    Line.number (k.send (Recorded.stream inner) bytes).2 = k.number := by
  obtain ⟨motions, hmotions, _⟩ := Recorded.writeMessage_continues inner bytes k.stream
  unfold send guarded
  split
  · cases hwrite : (Recorded.stream inner).writeMessage bytes k.stream with
    | mk outcome t =>
        rw [hwrite] at hmotions
        cases outcome with
        | error e => exact hmotions.1
        | ok u => exact hmotions.1
  · rfl

theorem receive_ok {inner : ByteStream σ} {limit : Nat} {bytes : ByteArray} {k k' : Line σ}
    (h : k.receive (Recorded.stream inner) limit = (.ok bytes, k')) :
    k'.isOpen = true ∧ ∃ chunks : List ByteArray, Recorded.joined chunks = bytes ∧
      k.Continues k' (chunks.map .read) := by
  obtain ⟨chunks, hchunks, hjoined⟩ := Recorded.readMessage_continues inner limit k.stream
  unfold receive guarded at h
  by_cases hopen : k.isOpen
  · rw [if_pos hopen] at h
    cases hread : (Recorded.stream inner).readMessage limit k.stream with
    | mk outcome t =>
        rw [hread] at h hchunks hjoined
        cases outcome with
        | error e => cases h
        | ok u =>
            cases h
            exact ⟨hopen, chunks, hjoined bytes rfl, hchunks⟩
  · rw [if_neg hopen] at h
    cases h

theorem receive_number (inner : ByteStream σ) (limit : Nat) (k : Line σ) :
    Line.number (k.receive (Recorded.stream inner) limit).2 = k.number := by
  obtain ⟨chunks, hchunks, _⟩ := Recorded.readMessage_continues inner limit k.stream
  unfold receive guarded
  split
  · cases hread : (Recorded.stream inner).readMessage limit k.stream with
    | mk outcome t =>
        rw [hread] at hchunks
        cases outcome with
        | error e => exact hchunks.1
        | ok u => exact hchunks.1
  · rfl

end StreamConnection

open Recorded

-- One exchange in full: the request has gone out in pieces and the reply to it has come in chunks.
structure Completes (x : Exchange) (motions : List Motion) (request reply : ByteArray) : Prop where
  encoded : x.request = .ok request
  moved : ∃ pieces chunks, joined pieces = request ∧ joined chunks = reply ∧
    motions = pieces.map .wrote ++ [.flushed] ++ chunks.map .read
  numbered : MessageHeader.wordAt request 4 = x.message.id
  answered : Answers x.message.id reply

-- Nothing but exchanges in full, one after the other.
inductive InStep : List Motion → Prop where
  | fresh : InStep []
  | exchange {before motions : List Motion} {x : Exchange} {request reply : ByteArray}
      (hbefore : InStep before) (hexchange : Completes x motions request reply) :
      InStep (before ++ motions)

-- A channel that does with its connections what is done with the stream connections they carry.
structure Channel.Carries {m : Type → Type} [Monad m] {κ σ : Type} (channel : Channel m κ)
    (stream : ByteStream σ) (carry : StreamConnection σ → κ) : Prop where
  send : ∀ bytes k, (channel.send bytes).run (carry k) =
    pure ((k.send stream bytes).1, carry (k.send stream bytes).2)
  receive : ∀ limit k, (channel.receive limit).run (carry k) =
    pure ((k.receive stream limit).1, carry (k.receive stream limit).2)
  invalidate : ∀ k, channel.invalidate.run (carry k) = pure ((), carry k.close)

namespace Exchange

variable {σ : Type}

-- An exchange on a stream connection, which is all that a round trip does.
def talk (x : Exchange) (stream : ByteStream σ) (k : StreamConnection σ) :
    Except CommandError Document × StreamConnection σ :=
  match x.request with
  | .error e => (.error e, k)
  | .ok bytes =>
    match k.send stream bytes with
    | (.error e, sent) => (.error (.transport e), sent.close)
    | (.ok (), sent) =>
      match sent.receive stream x.replySettings.maxMessageSize with
      | (.error e, received) => (.error (.transport e), received.close)
      | (.ok reply, received) =>
        match x.readReply reply with
        | .ok d => (.ok d, received)
        | .error e => (.error e, if e.leavesInStep then received else received.close)

theorem settle_carries {m : Type → Type} [Monad m] [LawfulMonad m] {κ : Type}
    {channel : Channel m κ} {stream : ByteStream σ} {carry : StreamConnection σ → κ}
    (h : channel.Carries stream carry) (e : CommandError) (k : StreamConnection σ) :
    (settle channel (.error e)).run (carry k) =
      pure ((), carry (if e.leavesInStep then k else k.close)) := by
  unfold settle
  dsimp only
  by_cases he : e.leavesInStep
  · rw [if_pos he, if_pos he]
    rfl
  · rw [if_neg he, if_neg he]
    exact h.invalidate k

-- A round trip is an exchange on the stream connection that is carried, and nothing else happens.
theorem roundTrip_carries {m : Type → Type} [Monad m] [LawfulMonad m] {κ : Type}
    {channel : Channel m κ} {stream : ByteStream σ} {carry : StreamConnection σ → κ}
    (h : channel.Carries stream carry) (x : Exchange) (k : StreamConnection σ) :
    (x.roundTrip channel).run (carry k) =
      pure ((x.talk stream k).1, carry (x.talk stream k).2) := by
  unfold roundTrip talk
  cases x.request with
  | error e => rfl
  | ok bytes =>
      simp only [converse, StateT.run_bind, h.send, pure_bind]
      rcases k.send stream bytes with ⟨outcome, sent⟩
      cases outcome with
      | error e =>
          simp only [StateT.run_pure, pure_bind, settle_carries h, CommandError.leavesInStep,
            Bool.false_eq_true, if_false]
      | ok u =>
          simp only [StateT.run_bind, h.receive, pure_bind]
          rcases sent.receive stream x.replySettings.maxMessageSize with ⟨outcome, received⟩
          cases outcome with
          | error e =>
              simp only [StateT.run_pure, pure_bind, settle_carries h, CommandError.leavesInStep,
                Bool.false_eq_true, if_false]
          | ok reply =>
              simp only [StateT.run_pure, pure_bind]
              cases x.readReply reply with
              | ok d => simp only [settle, StateT.run_pure, pure_bind]
              | error e => simp only [settle_carries h, pure_bind]

variable {inner : ByteStream σ} {x : Exchange} {k k' : Line σ}

theorem request_hasNoResult {e : CommandError} (h : x.request = .error e) : e.HasNoResult := by
  unfold request at h
  split at h
  · cases h
  · next fault buffer hencode =>
    cases h
    exact RequestMessage.encode_hasNoResult _ _ _ _ _ hencode

theorem request_carries_id {bytes : ByteArray} (h : x.request = .ok bytes) :
    MessageHeader.wordAt bytes 4 = x.message.id := by
  unfold request at h
  split at h
  · next u buffer hencode =>
    cases h
    exact RequestMessage.encode_carries_id hencode
  · cases h

-- What a round trip on a connection comes to. The request is not written at all, or the exchange
-- takes place in full, or the connection is closed.
inductive Outcome (x : Exchange) (k : Line σ) : Except CommandError Document → Line σ → Prop where
  | unwritten {e : CommandError} (hrequest : x.request = .error e) : Outcome x k (.error e) k
  | answered {k' : Line σ} {motions : List Motion} {request reply : ByteArray} {d : Document}
      (hexchange : Completes x motions request reply) (hcontinues : k.Continues k' motions)
      (hopen : k'.isOpen = true) (hfirst : FirstDocument x.decoder reply d) :
      Outcome x k (.ok d) k'
  | refused {k' : Line σ} {motions : List Motion} {request reply : ByteArray} {e : CommandError}
      (hexchange : Completes x motions request reply) (hcontinues : k.Continues k' motions)
      (hopen : k'.isOpen = true) (he : e.leavesInStep = true) : Outcome x k (.error e) k'
  | broken {k' : Line σ} {e : CommandError} (hnumber : k'.number = k.number)
      (hclosed : k'.isOpen = false) (hresult : e.HasNoResult) : Outcome x k (.error e) k'

theorem talk_outcome (x : Exchange) (inner : ByteStream σ) (k : Line σ) :
    Outcome x k (x.talk (stream inner) k).1 (x.talk (stream inner) k).2 := by
  unfold talk
  cases hrequest : x.request with
  | error e => exact .unwritten hrequest
  | ok bytes =>
      dsimp only
      have hsent := StreamConnection.send_number inner bytes k
      rcases hsend : k.send (stream inner) bytes with ⟨outcome, sent⟩
      rw [hsend] at hsent
      cases outcome with
      | error e => exact .broken hsent rfl rfl
      | ok u =>
          dsimp only
          obtain ⟨_, pieces, hpieces, hwrote⟩ := StreamConnection.send_ok hsend
          have hreceived :=
            StreamConnection.receive_number inner x.replySettings.maxMessageSize sent
          rcases hreceive : sent.receive (stream inner) x.replySettings.maxMessageSize with
            ⟨outcome, received⟩
          rw [hreceive] at hreceived
          cases outcome with
          | error e => exact .broken (hreceived.trans hsent) rfl rfl
          | ok reply =>
              dsimp only
              obtain ⟨hopen, chunks, hchunks, hread⟩ := StreamConnection.receive_ok hreceive
              have hcontinues : k.Continues received
                  (pieces.map .wrote ++ [.flushed] ++ chunks.map .read) := hwrote.trans hread
              have hcompletes : Answers x.message.id reply → Completes x
                  (pieces.map .wrote ++ [.flushed] ++ chunks.map .read) bytes reply :=
                fun hanswers => ⟨hrequest, ⟨pieces, chunks, hpieces, hchunks, rfl⟩,
                  request_carries_id hrequest, hanswers⟩
              cases hreply : x.readReply reply with
              | ok d =>
                  obtain ⟨hanswers, hfirst⟩ := readReply_ok hreply
                  exact .answered (hcompletes hanswers) hcontinues hopen hfirst
              | error e =>
                  obtain ⟨hresult, hanswers⟩ := readReply_error hreply
                  dsimp only
                  by_cases he : e.leavesInStep = true
                  · rw [if_pos he]
                    exact .refused (hcompletes (hanswers he)) hcontinues hopen he
                  · rw [if_neg he]
                    exact .broken (hreceived.trans hsent) rfl hresult

namespace Outcome

variable {response : Except CommandError Document}

theorem number_eq (h : Outcome x k response k') : k'.number = k.number := by
  cases h with
  | unwritten _ => rfl
  | answered _ hcontinues _ _ => exact hcontinues.number_eq
  | refused _ hcontinues _ _ => exact hcontinues.number_eq
  | broken hnumber _ _ => exact hnumber

-- A connection that is still open afterwards stands between two messages as before.
theorem inStep (h : Outcome x k response k') (hk : InStep k.motions) (hopen : k'.isOpen = true) :
    InStep k'.motions := by
  cases h with
  | unwritten _ => exact hk
  | answered hexchange hcontinues _ _ =>
      have hmotions : k'.motions = k.motions ++ _ := hcontinues.2
      rw [hmotions]
      exact .exchange hk hexchange
  | refused hexchange hcontinues _ _ =>
      have hmotions : k'.motions = k.motions ++ _ := hcontinues.2
      rw [hmotions]
      exact .exchange hk hexchange
  | broken _ hclosed _ =>
      rw [hclosed] at hopen
      cases hopen

end Outcome

end Exchange

end DocWire
