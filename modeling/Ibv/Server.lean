import Ibv.SetupSteps
import Mathlib.Data.List.TakeWhile

set_option autoImplicit false

namespace Ibv

/-- A connection the listener accepts. The peer writes the first `sends` bytes of its
endpoint and its MR, and the stream takes `accepts` bytes for it before it is closed or
broken. `rtr` and `rts` say whether the driver makes the transitions that concern the
peer, `receiving` whether the application still receives from the channel. The calls that
have to do with neither succeed. -/
structure Incoming where
  endpoint : EndPoint
  mr : RemoteMR
  sends : Nat
  accepts : Nat
  own : EndPoint
  recvMr : MR
  sendMr : MR
  rtr : Bool
  rts : Bool
  receiving : Bool
deriving DecidableEq, Repr

namespace Incoming

variable (incoming : Incoming)

/-- The peer's side of the exchange is completed. -/
def completes : Bool := decide (38 ≤ incoming.sends ∧ 38 ≤ incoming.accepts)

def stream : List UInt8 :=
  (incoming.endpoint.toBytes ++ incoming.mr.serialize).take incoming.sends

def unread (party : Party) : List UInt8 := incoming.stream.drop party.consumed

/-- Writing to a stream that takes `accepts` bytes in all. -/
def sending (party : Party) (length : Nat) : Outcome :=
  if party.sent.length + length ≤ incoming.accepts then .success
  else .failure (incoming.accepts - party.sent.length)

/-- Reading from a stream that ends after what the peer has written. -/
def reading (party : Party) (length : Nat) : Outcome :=
  if length ≤ (incoming.unread party).length then .success
  else .failure (incoming.unread party).length

def verb (accepts : Bool) : Outcome := if accepts then .success else .failure 0

/-- How the next call of the server ends. -/
def outcome (party : Party) : Outcome :=
  match party.phase with
  | .sendEndpoint => incoming.sending party party.qp.endpoint.toBytes.length
  | .recvEndpoint => incoming.reading party party.qp.endpoint.toBytes.length
  | .readyToReceive _ => verb incoming.rtr
  | .readyToSend => verb incoming.rts
  | .sendMr => incoming.sending party (RemoteMR.fromMr party.recvMr).serialize.length
  | .recvMr => incoming.reading party RemoteMR.size
  | .handOut _ => verb incoming.receiving
  | _ => .success

def call (party : Party) : Option Party :=
  party.step .server (incoming.unread party) (incoming.outcome party)

/-- The next `n` calls, or those up to the last. -/
def calls : Nat → Party → Party
  | 0, party => party
  | n + 1, party =>
      match incoming.call party with
      | some next => calls n next
      | none => party

/-- One iteration of the loop. -/
def serve : Party := incoming.calls 12 (.new incoming.own incoming.recvMr incoming.sendMr)

def conn : Endpoint := .new incoming.recvMr incoming.sendMr incoming.mr

end Incoming

/-- The task of `run`. -/
structure Server where
  accepting : Bool
  conns : List Endpoint

namespace Server

def new : Server where
  accepting := true
  conns := []

/-- `listener.accept()` and what follows; `none` is its error. A panic in the iteration
is the end of the task. -/
def accept (server : Server) (accepted : Option Incoming) : Server :=
  if server.accepting then
    match accepted with
    | none => { server with accepting := false }
    | some incoming =>
        match incoming.serve.phase with
        | .handedOut conn => { server with conns := server.conns ++ [conn] }
        | _ => { server with accepting := false }
  else server

def run (accepted : List (Option Incoming)) : Server := accepted.foldl accept new

/-- After the connections the task still accepts, and has passed on a `Conn` for each
peer that has completed the exchange and for no other. -/
def Survives (accepted : List Incoming) : Prop :=
  (run (accepted.map some)).accepting = true ∧
    (run (accepted.map some)).conns =
      (accepted.filter Incoming.completes).map Incoming.conn

end Server

namespace Incoming

variable {incoming : Incoming} {party : Party}

theorem sending_ok (incoming : Incoming) (party : Party) (length : Nat) :
    (incoming.sending party length).ok =
      decide (party.sent.length + length ≤ incoming.accepts) := by
  unfold sending
  split
  · rename_i fits
    rw [decide_eq_true fits]
    rfl
  · rename_i breaks
    rw [decide_eq_false breaks]
    rfl

theorem reading_ok (incoming : Incoming) (party : Party) (length : Nat) :
    (incoming.reading party length).ok =
      decide (length ≤ (incoming.unread party).length) := by
  unfold reading
  split
  · rename_i enough
    rw [decide_eq_true enough]
    rfl
  · rename_i short
    rw [decide_eq_false short]
    rfl

variable (incoming party)

theorem tcpSend_sending (bytes : List UInt8) (some_bytes : 0 < bytes.length) :
    ∃ moved, party.tcpSend bytes (incoming.sending party bytes.length) =
        some { party with sent := party.sent ++ moved } ∧
      moved.length = min bytes.length (incoming.accepts - party.sent.length) := by
  unfold sending
  split
  · exact ⟨bytes, rfl, by omega⟩
  · have part : incoming.accepts - party.sent.length < bytes.length := by omega
    refine ⟨bytes.take (incoming.accepts - party.sent.length), ?_, ?_⟩
    · simp only [Party.tcpSend, part, ↓reduceIte]
    · rw [List.length_take]
      omega

theorem tcpRecv_reading (length : Nat) :
    ∃ buf, party.tcpRecv (incoming.unread party) length (incoming.reading party length) =
        some ({ party with
          consumed := party.consumed + min length (incoming.unread party).length }, buf) ∧
      buf.length = length ∧
        (length ≤ (incoming.unread party).length →
          buf = (incoming.unread party).take length) := by
  unfold reading
  split
  · rename_i enough
    refine ⟨(incoming.unread party).take length, ?_, List.length_take_of_le enough,
      fun _ => rfl⟩
    simp only [Party.tcpRecv, enough, ↓reduceIte, Nat.min_eq_left]
  · rename_i short
    have part : (incoming.unread party).length < length := Nat.not_le.mp short
    refine ⟨(incoming.unread party).take (incoming.unread party).length ++
      List.replicate (length - (incoming.unread party).length) 0, ?_, ?_,
      fun enough => absurd enough short⟩
    · simp only [Party.tcpRecv, part, Nat.le_refl, and_self, ↓reduceIte,
        Nat.min_eq_right (Nat.le_of_lt part)]
    · rw [List.length_append, List.length_replicate, List.length_take]
      omega

variable {incoming party}

theorem stream_length : incoming.stream.length = min incoming.sends 38 := by
  simp only [stream, List.length_take, List.length_append, EndPoint.toBytes_length,
    RemoteMR.serialize_length, RemoteMR.size]

theorem unread_length (party : Party) :
    (incoming.unread party).length = min incoming.sends 38 - party.consumed := by
  rw [unread, List.length_drop, stream_length]

theorem unread_mr (consumed : party.consumed = 22) (enough : 38 ≤ incoming.sends) :
    (incoming.unread party).take RemoteMR.size = incoming.mr.serialize := by
  have whole : incoming.stream = incoming.endpoint.toBytes ++ incoming.mr.serialize := by
    apply List.take_of_length_le
    rw [List.length_append, EndPoint.toBytes_length, RemoteMR.serialize_length]
    exact enough
  rw [unread, whole, consumed, List.drop_left' (EndPoint.toBytes_length _)]
  exact List.take_of_length_le (Nat.le_of_eq (RemoteMR.serialize_length _))

/-- What the peer's part so far has made of the iteration. -/
def Progress (incoming : Incoming) (party : Party) : Prop :=
  match party.phase with
  | .create | .init | .sendEndpoint => party.sent = [] ∧ party.consumed = 0
  | .recvEndpoint => party.sent.length = min 22 incoming.accepts ∧ party.consumed = 0
  | .readyToReceive _ | .readyToSend | .register | .sendMr =>
      party.sent.length = min 22 incoming.accepts ∧ party.consumed = min 22 incoming.sends
  | .recvMr => 38 ≤ incoming.accepts ∧ party.consumed = min 22 incoming.sends
  | .newConn remoteMr | .postRecvs remoteMr =>
      incoming.completes = true ∧ remoteMr = incoming.mr
  | .handOut conn | .handedOut conn => incoming.completes = true ∧ conn = incoming.conn
  | .closed => False
  | .panicked => incoming.completes = false

structure Served (incoming : Incoming) (party : Party) : Prop where
  recvMr : party.recvMr = incoming.recvMr
  sendMr : party.sendMr = incoming.sendMr
  progress : incoming.Progress party

end Incoming

/-- How many calls are behind a side. -/
def Phase.index : Phase → Nat
  | create => 0
  | init => 1
  | sendEndpoint => 2
  | recvEndpoint => 3
  | readyToReceive _ => 4
  | readyToSend => 5
  | register => 6
  | sendMr => 7
  | recvMr => 8
  | newConn _ => 9
  | postRecvs _ => 10
  | handOut _ => 11
  | handedOut _ | closed | panicked => 12

namespace Incoming

variable {incoming : Incoming} {party : Party}

/-- The next call keeps the account and comes closer to the end. -/
def Proceeds (incoming : Incoming) (party : Party) : Prop :=
  ∃ next, incoming.call party = some next ∧ incoming.Served next ∧
    party.phase.index < next.phase.index

/-- The error of a broken stream is logged. -/
theorem proceeds_sendEndpoint (served : incoming.Served party)
    (phase : party.phase = .sendEndpoint) : incoming.Proceeds party := by
  obtain ⟨recvMr, sendMr, progress⟩ := served
  unfold Progress at progress
  rw [phase] at progress
  obtain ⟨empty, unread⟩ := progress
  obtain ⟨moved, sends, length⟩ := tcpSend_sending incoming party party.qp.endpoint.toBytes
    (by rw [EndPoint.toBytes_length]; decide)
  unfold Proceeds call Party.step outcome
  rw [phase]
  dsimp only
  rw [sends]
  refine ⟨_, rfl, ⟨recvMr, sendMr, ?_, unread⟩, Nat.lt_succ_self 2⟩
  rw [empty, List.nil_append, length, EndPoint.toBytes_length, empty]
  rfl

/-- The error of a closed stream is logged, and what the buffer holds is decoded. -/
theorem proceeds_recvEndpoint (served : incoming.Served party)
    (phase : party.phase = .recvEndpoint) : incoming.Proceeds party := by
  obtain ⟨recvMr, sendMr, progress⟩ := served
  unfold Progress at progress
  rw [phase] at progress
  obtain ⟨sent, unread⟩ := progress
  obtain ⟨buf, reads, full, -⟩ :=
    tcpRecv_reading incoming party party.qp.endpoint.toBytes.length
  rw [EndPoint.toBytes_length] at full
  obtain ⟨remote, decodes⟩ := EndPoint.fromBytes_total buf full
  unfold Proceeds call Party.step outcome
  rw [phase]
  dsimp only
  rw [reads, Option.map_some, decodes]
  refine ⟨_, rfl, ⟨recvMr, sendMr, sent, ?_⟩, Nat.lt_succ_self 3⟩
  dsimp only
  rw [unread, EndPoint.toBytes_length, unread_length, unread]
  omega

/-- `send_mr` panics on a broken stream. -/
theorem proceeds_sendMr (served : incoming.Served party) (phase : party.phase = .sendMr) :
    incoming.Proceeds party := by
  obtain ⟨recvMr, sendMr, progress⟩ := served
  unfold Progress at progress
  rw [phase] at progress
  obtain ⟨sent, unread⟩ := progress
  obtain ⟨moved, sends, -⟩ := tcpSend_sending incoming party
    (RemoteMR.fromMr party.recvMr).serialize (by rw [RemoteMR.serialize_length]; decide)
  have ok : (incoming.sending party (RemoteMR.fromMr party.recvMr).serialize.length).ok =
      decide (38 ≤ incoming.accepts) := by
    rw [sending_ok, RemoteMR.serialize_length, sent, RemoteMR.size]
    exact decide_eq_decide.mpr (by omega)
  unfold Proceeds call Party.step outcome
  rw [phase]
  dsimp only
  rw [sends, Option.map_some]
  by_cases fits : 38 ≤ incoming.accepts
  · rw [decide_eq_true fits] at ok
    rw [Party.unwrapped_ok _ _ ok]
    exact ⟨_, rfl, ⟨recvMr, sendMr, fits, unread⟩, Nat.lt_succ_self 7⟩
  · rw [decide_eq_false fits] at ok
    rw [Party.unwrapped_failed _ _ ok]
    refine ⟨_, rfl, ⟨recvMr, sendMr, ?_⟩, (by decide : 7 < 12)⟩
    exact decide_eq_false fun both => fits both.2

/-- `recv_mr` panics on a closed stream. -/
theorem proceeds_recvMr (served : incoming.Served party) (phase : party.phase = .recvMr) :
    incoming.Proceeds party := by
  obtain ⟨recvMr, sendMr, progress⟩ := served
  unfold Progress at progress
  rw [phase] at progress
  obtain ⟨taken, consumed⟩ := progress
  obtain ⟨buf, reads, full, whole⟩ := tcpRecv_reading incoming party RemoteMR.size
  have ok : (incoming.reading party RemoteMR.size).ok = decide (38 ≤ incoming.sends) := by
    rw [reading_ok, unread_length, consumed, RemoteMR.size]
    exact decide_eq_decide.mpr (by omega)
  unfold Proceeds call Party.step outcome
  rw [phase]
  dsimp only
  rw [reads, Option.map_some]
  by_cases enough : 38 ≤ incoming.sends
  · have found : party.consumed = 22 := by omega
    have available : RemoteMR.size ≤ (incoming.unread party).length := by
      rw [unread_length, found, RemoteMR.size]
      omega
    rw [decide_eq_true enough] at ok
    rw [Party.unwrapped_ok _ _ ok, whole available, unread_mr found enough,
      RemoteMR.deserialize_serialize]
    refine ⟨_, rfl, ⟨recvMr, sendMr, ?_, rfl⟩, Nat.lt_succ_self 8⟩
    exact decide_eq_true ⟨enough, taken⟩
  · rw [decide_eq_false enough] at ok
    rw [Party.unwrapped_failed _ _ ok]
    refine ⟨_, rfl, ⟨recvMr, sendMr, ?_⟩, (by decide : 8 < 12)⟩
    exact decide_eq_false fun both => enough both.1

theorem Served.proceeds (served : incoming.Served party) (receiving : incoming.receiving = true)
    (going : party.phase.index < 12) : incoming.Proceeds party := by
  have progress := served.progress
  unfold Progress at progress
  cases phase : party.phase with
  | sendEndpoint => exact proceeds_sendEndpoint served phase
  | recvEndpoint => exact proceeds_recvEndpoint served phase
  | sendMr => exact proceeds_sendMr served phase
  | recvMr => exact proceeds_recvMr served phase
  | create | init | readyToReceive remote | readyToSend | register | newConn remoteMr =>
      rw [phase] at progress
      unfold Proceeds call Party.step outcome
      rw [phase]
      exact ⟨_, rfl, ⟨served.recvMr, served.sendMr, progress⟩, Nat.lt_succ_self _⟩
  | postRecvs remoteMr =>
      rw [phase] at progress
      unfold Proceeds call Party.step outcome
      rw [phase]
      refine ⟨_, rfl, ⟨served.recvMr, served.sendMr, progress.1, ?_⟩, Nat.lt_succ_self 10⟩
      rw [served.recvMr, served.sendMr, progress.2]
      rfl
  | handOut conn =>
      rw [phase] at progress
      unfold Proceeds call Party.step outcome
      rw [phase]
      dsimp only
      rw [receiving]
      exact ⟨_, rfl, ⟨served.recvMr, served.sendMr, progress⟩, Nat.lt_succ_self 11⟩
  | handedOut | closed | panicked =>
      rw [phase] at going
      exact absurd going (Nat.lt_irrefl 12)

theorem call_last (last : 12 ≤ party.phase.index) : incoming.call party = none := by
  unfold call Party.step
  cases phase : party.phase with
  | handedOut | closed | panicked => rfl
  | _ =>
      rw [phase] at last
      simp [Phase.index] at last

theorem calls_served (receiving : incoming.receiving = true) (n : Nat)
    (served : incoming.Served party) (enough : 12 ≤ party.phase.index + n) :
    incoming.Served (incoming.calls n party) ∧ 12 ≤ (incoming.calls n party).phase.index := by
  induction n generalizing party with
  | zero => exact ⟨served, enough⟩
  | succ n ih =>
      by_cases going : party.phase.index < 12
      · obtain ⟨next, called, kept, later⟩ := served.proceeds receiving going
        unfold calls
        rw [called]
        exact ih kept (by omega)
      · unfold calls
        rw [call_last (Nat.not_lt.mp going)]
        exact ⟨served, Nat.not_lt.mp going⟩

/-- The iteration hands out the `Conn` of a peer that completes the exchange, and any
other peer makes it panic. -/
theorem serve_phase (receiving : incoming.receiving = true) : incoming.serve.phase =
    if incoming.completes then .handedOut incoming.conn else .panicked := by
  have start : incoming.Served (.new incoming.own incoming.recvMr incoming.sendMr) :=
    ⟨rfl, rfl, rfl, rfl⟩
  obtain ⟨⟨-, -, progress⟩, finished⟩ := calls_served receiving 12 start (Nat.le_refl 12)
  change incoming.Progress incoming.serve at progress
  change 12 ≤ incoming.serve.phase.index at finished
  unfold Progress at progress
  cases phase : incoming.serve.phase with
  | handedOut conn =>
      rw [phase] at progress
      rw [if_pos progress.1, progress.2]
  | panicked =>
      rw [phase] at progress
      rw [progress]
      rfl
  | closed =>
      rw [phase] at progress
      exact progress.elim
  | _ =>
      rw [phase] at finished
      simp [Phase.index] at finished

end Incoming

namespace Server

variable {server : Server}

theorem accept_dead (accepted : List (Option Incoming)) (dead : server.accepting = false) :
    accepted.foldl accept server = server := by
  induction accepted with
  | nil => rfl
  | cons first rest ih =>
      have same : server.accept first = server := by
        unfold accept
        rw [dead]
        rfl
      rw [List.foldl_cons, same, ih]

theorem accept_incoming {incoming : Incoming} (receiving : incoming.receiving = true)
    (alive : server.accepting = true) : server.accept (some incoming) =
      if incoming.completes then { server with conns := server.conns ++ [incoming.conn] }
      else { server with accepting := false } := by
  unfold accept
  rw [if_pos alive]
  dsimp only
  rw [Incoming.serve_phase receiving]
  cases incoming.completes with
  | true => rfl
  | false => rfl

/-- The task serves the peers up to the first that does not complete the exchange. -/
theorem run_prefix (server : Server) (accepted : List Incoming)
    (receiving : ∀ incoming ∈ accepted, incoming.receiving = true)
    (alive : server.accepting = true) :
    ((accepted.map some).foldl accept server).accepting = accepted.all Incoming.completes ∧
      ((accepted.map some).foldl accept server).conns =
        server.conns ++ (accepted.takeWhile Incoming.completes).map Incoming.conn := by
  induction accepted generalizing server with
  | nil => exact ⟨alive, (List.append_nil _).symm⟩
  | cons first rest ih =>
      have later : ∀ incoming ∈ rest, incoming.receiving = true :=
        fun incoming member => receiving incoming (List.mem_cons_of_mem _ member)
      rw [List.map_cons, List.foldl_cons,
        accept_incoming (receiving first List.mem_cons_self) alive]
      cases completes : first.completes with
      | true =>
          rw [if_pos rfl, List.takeWhile_cons_of_pos completes, List.map_cons, List.all_cons,
            completes, Bool.true_and]
          obtain ⟨accepting, conns⟩ :=
            ih { server with conns := server.conns ++ [first.conn] } later alive
          refine ⟨accepting, conns.trans ?_⟩
          rw [List.append_assoc, List.singleton_append]
      | false =>
          rw [if_neg Bool.false_ne_true, accept_dead _ rfl, List.all_cons, completes,
            List.takeWhile_cons_of_neg (by rw [completes]; exact Bool.false_ne_true)]
          exact ⟨rfl, (List.append_nil _).symm⟩

/-- One peer that does not complete the exchange stops the task for all that come after
it. -/
theorem server_survives_iff (accepted : List Incoming)
    (receiving : ∀ incoming ∈ accepted, incoming.receiving = true) :
    Survives accepted ↔ ∀ incoming ∈ accepted, incoming.completes = true := by
  obtain ⟨accepting, conns⟩ := run_prefix new accepted receiving rfl
  constructor
  · rintro ⟨alive, -⟩
    exact List.all_eq_true.mp (accepting.symm.trans alive)
  · intro all
    refine ⟨accepting.trans (List.all_eq_true.mpr all), conns.trans ?_⟩
    rw [List.takeWhile_eq_self_iff.mpr all, List.filter_eq_self.mpr all]
    rfl

/- A peer that completes the exchange, and one that closes its stream behind its endpoint. -/
def goodPeer : Incoming where
  endpoint := Setup.sampleEndpoint .client
  mr := .fromMr (Setup.sampleRecvMr .client)
  sends := 38
  accepts := 38
  own := Setup.sampleEndpoint .server
  recvMr := Setup.sampleRecvMr .server
  sendMr := Setup.sampleSendMr .server
  rtr := true
  rts := true
  receiving := true

def closingPeer : Incoming := { goodPeer with sends := 22 }

theorem server_survives_two_peers : Survives [goodPeer, goodPeer] :=
  (server_survives_iff _ (by decide)).mpr (by decide)

/-- `recv_mr` unwraps the error of the closed stream. The task is gone, and the peer that
comes next gets no `Conn`. -/
theorem server_stopped_by_closing_peer :
    (∀ incoming ∈ [closingPeer, goodPeer], incoming.receiving = true) ∧
      goodPeer.completes = true ∧
      (run ([closingPeer, goodPeer].map some)).accepting = false ∧
      (run ([closingPeer, goodPeer].map some)).conns = [] ∧
      ¬ Survives [closingPeer, goodPeer] := by
  have receiving : ∀ incoming ∈ [closingPeer, goodPeer], incoming.receiving = true := by decide
  obtain ⟨accepting, conns⟩ := run_prefix new [closingPeer, goodPeer] receiving rfl
  refine ⟨receiving, by decide, accepting, conns, ?_⟩
  rintro ⟨alive, -⟩
  exact Bool.false_ne_true (accepting.symm.trans alive)

end Server

end Ibv
