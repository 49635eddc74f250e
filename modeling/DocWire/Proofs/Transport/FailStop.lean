import Mathlib
import DocWire.Proofs.Transport.Demand
import DocWire.Transport.Memory

namespace DocWire

open Recorded

-- What went out with a use, and what came in, where it succeeded.
def Use.sent? : Use → Option ByteArray
  | .sent bytes (.ok ()) => some bytes
  | _ => none

def Use.received? : Use → Option ByteArray
  | .received _ (.ok bytes) => some bytes
  | _ => none

def Motion.wrote? : Motion → Option ByteArray
  | .wrote bytes => some bytes
  | _ => none

def Motion.read? : Motion → Option ByteArray
  | .read bytes => some bytes
  | _ => none

-- All bytes that a stream has taken, and all that it has given, in order.
def bytesWritten (motions : List Motion) : ByteArray :=
  joined (motions.filterMap Motion.wrote?)

def bytesRead (motions : List Motion) : ByteArray :=
  joined (motions.filterMap Motion.read?)

-- All messages that went out, and all that came in, in order.
def messagesSent (uses : List Use) : ByteArray :=
  joined (uses.filterMap Use.sent?)

def messagesReceived (uses : List Use) : ByteArray :=
  joined (uses.filterMap Use.received?)

-- What a use leaves in the record of the stream. A message that was sent has been written from
-- beginning to end and then flushed.
inductive Use.Leaves : Use → List Motion → Prop where
  | sent {bytes : ByteArray} {pieces : List ByteArray} (hbytes : joined pieces = bytes) :
      Leaves (.sent bytes (.ok ())) (pieces.map .wrote ++ [.flushed])
  | received {limit : Nat} {bytes : ByteArray} {chunks : List ByteArray}
      (hbytes : joined chunks = bytes) : Leaves (.received limit (.ok bytes)) (chunks.map .read)
  | failed {use : Use} {motions : List Motion} (h : ¬ use.Succeeds) : Leaves use motions

theorem filterMap_wrote (pieces : List ByteArray) :
    (pieces.map Motion.wrote).filterMap Motion.wrote? = pieces := by
  rw [List.filterMap_map]
  exact List.filterMap_some

theorem filterMap_read (chunks : List ByteArray) :
    (chunks.map Motion.read).filterMap Motion.read? = chunks := by
  rw [List.filterMap_map]
  exact List.filterMap_some

-- A use that succeeded has moved its own message and nothing else.
theorem Use.Leaves.balanced {use : Use} {motions : List Motion} (h : use.Leaves motions)
    (hsucceeds : use.Succeeds) :
    bytesWritten motions = messagesSent [use] ∧ bytesRead motions = messagesReceived [use] := by
  unfold bytesWritten bytesRead messagesSent messagesReceived
  cases h with
  | @sent bytes pieces hbytes =>
      have hread : (pieces.map Motion.wrote).filterMap Motion.read? = [] := by
        simp [Motion.read?]
      rw [List.filterMap_append, List.filterMap_append, filterMap_wrote, hread]
      refine ⟨?_, rfl⟩
      change joined (pieces ++ []) = bytes ++ ByteArray.empty
      rw [List.append_nil, hbytes, ByteArray.append_empty]
  | @received limit bytes chunks hbytes =>
      have hwritten : (chunks.map Motion.read).filterMap Motion.wrote? = [] := by
        simp [Motion.wrote?]
      rw [filterMap_read, hwritten]
      refine ⟨rfl, ?_⟩
      change joined chunks = bytes ++ ByteArray.empty
      rw [hbytes, ByteArray.append_empty]
  | failed hfailed => exact absurd hsucceeds hfailed

-- All that a demand can come to. A failure closes the connection, and a closed one is left as it
-- is, with its stream.
inductive Line.Serves {σ : Type} (k : Line σ) : Use → Line σ → Prop where
  | succeeded {use : Use} {t : Recorded σ} {motions : List Motion} (hopen : k.isOpen = true)
      (hsucceeds : use.Succeeds) (hleaves : use.Leaves motions)
      (hcontinues : k.stream.Continues t motions) : Serves k use { k with stream := t }
  | failed {use : Use} {t : Recorded σ} {motions : List Motion} (hopen : k.isOpen = true)
      (hfailed : ¬ use.Succeeds) (hcontinues : k.stream.Continues t motions) :
      Serves k use { k with stream := t, isOpen := false }
  | refused {use : Use} (hclosed : k.isOpen = false) (hrefused : use.Refused k.address) :
      Serves k use k

theorem Use.Refused.fails {address : ServerAddress} {use : Use} (h : use.Refused address) :
    ¬ use.Succeeds := by
  cases h with
  | _ => rintro ⟨⟩

namespace StreamConnection

variable {σ : Type} {k : Line σ}

-- The stream is used only while the connection is open, and how that ends decides what follows.
theorem guarded_serves {α : Type} {use : Recorded σ → Except TransportError α × Recorded σ}
    {entry : Except TransportError α → Use} {motions : List Motion}
    (hrefused : (entry (.error (.closed k.address))).Refused k.address)
    (hfailed : ∀ e, ¬ (entry (.error e)).Succeeds)
    (hok : ∀ a, (use k.stream).1 = .ok a → (entry (.ok a)).Succeeds ∧ (entry (.ok a)).Leaves motions)
    (hcontinues : k.stream.Continues (use k.stream).2 motions) :
    k.Serves (entry (k.guarded use).1) (k.guarded use).2 := by
  cases hopen : k.isOpen with
  | false =>
      rw [guarded_closed _ hopen]
      exact .refused hopen hrefused
  | true =>
      rw [guarded_open _ hopen]
      cases houtcome : (use k.stream).1 with
      | error e => exact .failed hopen (hfailed e) hcontinues
      | ok a =>
          obtain ⟨hsucceeds, hleaves⟩ := hok a houtcome
          have hserves := Line.Serves.succeeded hopen hsucceeds hleaves hcontinues
          rw [hopen] at hserves
          exact hserves

theorem close_serves {use : Use} (hfailed : ¬ use.Succeeds) (hrefused : use.Refused k.address) :
    k.Serves use k.close := by
  cases hopen : k.isOpen with
  | false =>
      rw [close_closed hopen]
      exact .refused hopen hrefused
  | true => exact .failed hopen hfailed (.refl k.stream)

theorem meet_serves (inner : ByteStream σ) (k : Line σ) (demand : Demand) :
    k.Serves (k.meet (Recorded.stream inner) demand).1 (k.meet (Recorded.stream inner) demand).2 := by
  cases demand with
  | send bytes =>
      obtain ⟨motions, hcontinues, hpieces⟩ := writeMessage_continues inner bytes k.stream
      refine guarded_serves (.sent bytes) (fun e => by rintro ⟨⟩) (fun u hu => ?_) hcontinues
      obtain ⟨pieces, hbytes, rfl⟩ := hpieces hu
      exact ⟨.sent bytes, .sent hbytes⟩
  | receive limit =>
      obtain ⟨chunks, hcontinues, hbytes⟩ := readMessage_continues inner limit k.stream
      refine guarded_serves (.received limit) (fun e => by rintro ⟨⟩) (fun bytes h => ?_) hcontinues
      exact ⟨.received limit bytes, .received (hbytes bytes h)⟩
  | invalidate => exact close_serves (by rintro ⟨⟩) .invalidated
  | close => exact close_serves (by rintro ⟨⟩) .closed

theorem meet_demand (stream : ByteStream σ) (c : StreamConnection σ) (demand : Demand) :
    (c.meet stream demand).1.demand = demand := by
  cases demand with
  | _ => rfl

end StreamConnection

-- What has been done with a connection so far, and where that has left it.
structure Line.FailsStop {σ : Type} (k : Line σ) (uses : List Use) (k' : Line σ) : Prop where
  -- it is open as long as nothing has failed and nobody has closed it
  isOpen_iff : k'.isOpen = true ↔ k.isOpen = true ∧ ∀ use ∈ uses, use.Succeeds
  -- one that was closed to begin with is what it was, stream and all
  closed : k.isOpen = false → k' = k ∧ ∀ use ∈ uses, use.Refused k.address
  -- each use has left its own in the record of the stream, and nothing else is in there
  record : ∃ parts, List.Forall₂ Use.Leaves uses parts ∧ k.Continues k' parts.flatten
  -- and so an open one stands between two messages in both directions
  balance : k'.isOpen = true →
    bytesWritten k'.motions = bytesWritten k.motions ++ messagesSent uses ∧
      bytesRead k'.motions = bytesRead k.motions ++ messagesReceived uses

namespace Line

variable {σ : Type} {k k' k'' : Line σ} {use : Use} {uses : List Use}

theorem Serves.isOpen_iff (h : k.Serves use k') :
    k'.isOpen = true ↔ k.isOpen = true ∧ use.Succeeds := by
  cases h with
  | succeeded hopen hsucceeds hleaves hcontinues => simp [hopen, hsucceeds]
  | failed hopen hfailed hcontinues => simp [hfailed]
  | refused hclosed hrefused => simp [hclosed]

theorem Serves.closed (h : k.Serves use k') (hk : k.isOpen = false) :
    k' = k ∧ use.Refused k.address := by
  cases h with
  | succeeded hopen hsucceeds hleaves hcontinues => simp [hk] at hopen
  | failed hopen hfailed hcontinues => simp [hk] at hopen
  | refused hclosed hrefused => exact ⟨rfl, hrefused⟩

theorem Serves.record (h : k.Serves use k') :
    ∃ motions, use.Leaves motions ∧ k.Continues k' motions := by
  cases h with
  | succeeded hopen hsucceeds hleaves hcontinues => exact ⟨_, hleaves, hcontinues⟩
  | failed hopen hfailed hcontinues => exact ⟨_, .failed hfailed, hcontinues⟩
  | refused hclosed hrefused => exact ⟨[], .failed hrefused.fails, .refl k.stream⟩

end Line

theorem bytesWritten_append (a b : List Motion) :
    bytesWritten (a ++ b) = bytesWritten a ++ bytesWritten b := by
  rw [bytesWritten, List.filterMap_append, joined_append]
  rfl

theorem bytesRead_append (a b : List Motion) :
    bytesRead (a ++ b) = bytesRead a ++ bytesRead b := by
  rw [bytesRead, List.filterMap_append, joined_append]
  rfl

theorem messagesSent_append (a b : List Use) :
    messagesSent (a ++ b) = messagesSent a ++ messagesSent b := by
  rw [messagesSent, List.filterMap_append, joined_append]
  rfl

theorem messagesReceived_append (a b : List Use) :
    messagesReceived (a ++ b) = messagesReceived a ++ messagesReceived b := by
  rw [messagesReceived, List.filterMap_append, joined_append]
  rfl

theorem leaves_balanced {uses : List Use} {parts : List (List Motion)}
    (h : List.Forall₂ Use.Leaves uses parts) (hsucceed : ∀ use ∈ uses, use.Succeeds) :
    bytesWritten parts.flatten = messagesSent uses ∧
      bytesRead parts.flatten = messagesReceived uses := by
  induction h with
  | nil => exact ⟨rfl, rfl⟩
  | @cons use motions uses parts hfirst hrest ih =>
      obtain ⟨huse, huses⟩ := List.forall_mem_cons.mp hsucceed
      obtain ⟨hwritten, hread⟩ := hfirst.balanced huse
      obtain ⟨hwritten', hread'⟩ := ih huses
      rw [List.flatten_cons, bytesWritten_append, bytesRead_append, hwritten, hread, hwritten', hread',
        ← messagesSent_append, ← messagesReceived_append]
      exact ⟨rfl, rfl⟩

namespace Line

variable {σ : Type} {k k' k'' : Line σ} {use : Use} {uses : List Use}

theorem FailsStop.nil (k : Line σ) : k.FailsStop [] k := by
  refine ⟨by simp, fun _ => ⟨rfl, by simp⟩, ⟨[], .nil, .refl k.stream⟩, fun _ => ?_⟩
  exact ⟨ByteArray.append_empty.symm, ByteArray.append_empty.symm⟩

theorem FailsStop.cons (hfirst : k.Serves use k') (hrest : k'.FailsStop uses k'') :
    k.FailsStop (use :: uses) k'' := by
  obtain ⟨hopen, hclosed, ⟨parts, hparts, hcontinues⟩, _⟩ := hrest
  obtain ⟨motions, hmotions, hcontinues'⟩ := hfirst.record
  have hiff : k''.isOpen = true ↔ k.isOpen = true ∧ ∀ other ∈ use :: uses, other.Succeeds := by
    rw [hopen, hfirst.isOpen_iff, List.forall_mem_cons, and_assoc]
  have hrecord : List.Forall₂ Use.Leaves (use :: uses) (motions :: parts) := .cons hmotions hparts
  have hwhole : k.Continues k'' (motions :: parts).flatten := hcontinues'.trans hcontinues
  refine ⟨hiff, fun hk => ?_, ⟨_, hrecord, hwhole⟩, fun hk => ?_⟩
  · obtain ⟨rfl, hrefused⟩ := hfirst.closed hk
    obtain ⟨hsame, hrefusals⟩ := hclosed hk
    exact ⟨hsame, List.forall_mem_cons.mpr ⟨hrefused, hrefusals⟩⟩
  · -- while it is open, what the uses have left is all there is
    obtain ⟨hwritten, hread⟩ := leaves_balanced hrecord (hiff.mp hk).2
    have hmotions : k''.motions = k.motions ++ (motions :: parts).flatten := hwhole.2
    rw [hmotions, bytesWritten_append, bytesRead_append, hwritten, hread]
    exact ⟨rfl, rfl⟩

end Line

namespace StreamConnection

variable {σ : Type}

theorem meetAll_failsStop (inner : ByteStream σ) (demands : List Demand) (k : Line σ) :
    k.FailsStop (meetAll (Recorded.stream inner) demands k).1
      (meetAll (Recorded.stream inner) demands k).2 := by
  induction demands generalizing k with
  | nil => exact .nil k
  | cons demand rest ih => exact .cons (meet_serves inner k demand) (ih _)

theorem meetAll_demands (stream : ByteStream σ) (demands : List Demand) (c : StreamConnection σ) :
    (meetAll stream demands c).1.map Use.demand = demands := by
  induction demands generalizing c with
  | nil => rfl
  | cons demand rest ih => rw [meetAll, List.map_cons, meet_demand, ih]

-- Whatever the stream does, and whatever is asked of the connection: a failure is the end of it. A
-- closed connection answers that it is closed and leaves its stream alone, and an open one has
-- written just the messages that were sent and read just those that were received.
theorem fails_stop {m : Type → Type} [Monad m] [LawfulMonad m] (inner : ByteStream σ) (now : m Span)
    (demands : List Demand) (k : Line σ) :
    ∃ uses k', ((channel (Recorded.stream inner) now).meetAll demands).run k = pure (uses, k') ∧
      uses.map Use.demand = demands ∧ k.FailsStop uses k' :=
  ⟨_, _, meetAll_run _ now demands k, meetAll_demands _ demands k, meetAll_failsStop inner demands k⟩

-- A reply that is a header and nothing else.
def bareReply : ByteArray :=
  ⟨#[16, 0, 0, 0, 7, 0, 0, 0, 1, 0, 0, 0, 218, 7, 0, 0]⟩

-- A stream that moves few bytes at a time and is interrupted in between, and that breaks while it
-- takes the second message.
def brittle : MemoryStream :=
  ⟨bareReply, 0, ⟨#[]⟩, 0, some 10, [(2, some (.device .interrupted "interrupted"))],
    [(2, some (.device .interrupted "interrupted")), (5, some (.device .brokenPipe "broken pipe"))],
    []⟩

-- A message goes out in pieces and another comes in. The next one breaks off, and that is the end.
theorem brittle_stops :
    let address : ServerAddress := ⟨"localhost", 27017⟩
    let k : Line MemoryStream := .ofStream address ⟨0, brittle, []⟩
    let k' : Line MemoryStream :=
      ⟨address, ⟨0, ⟨bareReply, 16, ⟨#[1, 2, 3, 4, 5]⟩, 3, some 10, [], [], []⟩,
        [.wrote ⟨#[1, 2]⟩, .wrote ⟨#[3]⟩, .flushed, .read ⟨#[16, 0]⟩, .read ⟨#[0, 0]⟩,
          .read ⟨#[7, 0, 0, 0, 1, 0, 0, 0, 218, 7]⟩, .read ⟨#[0, 0]⟩, .wrote ⟨#[4, 5]⟩]⟩, false⟩
    let uses : List Use :=
      [.sent ⟨#[1, 2, 3]⟩ (.ok ()), .received 48 (.ok bareReply),
        .sent ⟨#[4, 5, 6]⟩ (.error (.io (.device .brokenPipe "broken pipe"))),
        .received 48 (.error (.closed address))]
    ((channel (Recorded.stream MemoryStream.stream) (pure ⟨0⟩ : Id Span)).meetAll
        [.send ⟨#[1, 2, 3]⟩, .receive 48, .send ⟨#[4, 5, 6]⟩, .receive 48]).run k = pure (uses, k') ∧
      k.FailsStop uses k' := by
  intro address k k' uses
  have hmet : meetAll (Recorded.stream MemoryStream.stream)
      [.send ⟨#[1, 2, 3]⟩, .receive 48, .send ⟨#[4, 5, 6]⟩, .receive 48] k = (uses, k') := by
    cbv
  obtain ⟨_, _, hrun, _, hstops⟩ := fails_stop MemoryStream.stream (pure ⟨0⟩ : Id Span)
    [.send ⟨#[1, 2, 3]⟩, .receive 48, .send ⟨#[4, 5, 6]⟩, .receive 48] k
  have hsame : (uses, k') = (_, _) := hmet.symm.trans ((meetAll_run _ _ _ k).symm.trans hrun)
  cases hsame
  exact ⟨hrun, hstops⟩

end StreamConnection

end DocWire
