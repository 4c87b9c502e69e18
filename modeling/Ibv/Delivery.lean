import Ibv.Burst
import Ibv.Flow

set_option autoImplicit false

namespace Ibv

open RingFifo
open Direction (sampleMr)

/-- Messages whose slices have been given back to the ring. -/
def Endpoint.released (endpoint : Endpoint) : Nat :=
  endpoint.returned.length - endpoint.held.length

/-- The messages of `sender` in the memory of `receiver`: each is where it was placed from
the moment it is written until its slice is released. -/
structure Arrived (sender receiver : Endpoint) : Prop where
  written : ∀ i, sender.written i = true → i < sender.posted.length
  delivered : ∀ i, i < sender.delivered → sender.written i = true
  stored : ∀ i request, sender.posted[i]? = some request → sender.written i = true →
    receiver.released ≤ i →
    ByteMemory.read receiver.recvMem request.remoteBuf.addr request.remoteBuf.length =
      request.msg.bytes
  returned : receiver.returned =
    (sender.posted.take receiver.returned.length).map fun request => request.msg.bytes

namespace Flow

open Endpoint (direction)

variable {peer : Endpoint}

theorem granted_posted (mine : Endpoint) {i : Nat} {request : Request}
    (entry : peer.posted[i]? = some request) :
    (direction peer mine).granted[i]? = some request.remoteBuf := by
  unfold direction Endpoint.grantedBufs
  rw [List.getElem?_append_left, List.getElem?_map, entry, Option.map_some]
  rw [List.length_map]
  exact (List.getElem?_eq_some_iff.mp entry).1

variable {mine : Endpoint}

theorem read_succeeds {request : Request} (flow : Flow peer mine)
    (next : peer.posted[mine.returned.length]? = some request)
    (sized : request.localBuf.length = request.msg.wireLen) :
    ∃ recvBuf, mine.recvBuf.read request.pair.1 = some (recvBuf, request.remoteBuf.region) := by
  obtain ⟨updated, batches, withheld, accounts⟩ := flow.accounts
  have place : (direction peer mine).released + (direction peer mine).held.length =
      mine.returned.length := Nat.sub_add_cancel flow.held
  have granted := granted_posted mine next
  rw [← place] at granted
  have succeeds := accounts.read_succeeds granted
  rw [(flow.posted request (List.mem_of_getElem? next)).trans sized.symm] at succeeds
  exact ⟨_, succeeds⟩

theorem held_region {k : Nat} {slice : Region} (flow : Flow peer mine)
    (sent : mine.returned.length ≤ peer.posted.length) (held : mine.held[k]? = some slice) :
    mine.released + k < mine.returned.length ∧ ∃ request,
      peer.posted[mine.released + k]? = some request ∧ slice = request.remoteBuf.region := by
  have below : k < (direction peer mine).held.length := (List.getElem?_eq_some_iff.mp held).1
  have within : (direction peer mine).held.length ≤ mine.returned.length := flow.held
  have inside : mine.released + k < mine.returned.length := by
    unfold Endpoint.released
    change mine.returned.length - (direction peer mine).held.length + k < _
    omega
  obtain ⟨updated, batches, withheld, accounts⟩ := flow.accounts
  have posted : mine.released + k < peer.posted.length := Nat.lt_of_lt_of_le inside sent
  have entry := List.getElem?_eq_getElem posted
  refine ⟨inside, _, entry, ?_⟩
  have slices := congrArg (fun regions => regions[k]?) accounts.slices
  rw [List.getElem?_take_of_lt below, List.getElem?_map, List.getElem?_drop] at slices
  have granted := granted_posted mine entry
  rw [show (direction peer mine).released = mine.released from rfl, granted] at slices
  exact Option.some.inj (held.symm.trans slices)

end Flow

namespace Arrived

open Endpoint (direction)

variable {mine peer after : Endpoint}

theorem new (recvMr sendMr : Side → MR) (side : Side) :
    Arrived (System.new recvMr sendMr side) (System.new recvMr sendMr side.other) where
  written := by
    intro i flag
    cases flag
  delivered := by
    intro i before
    exact absurd before (Nat.not_lt_zero i)
  stored := by
    intro i request entry
    cases entry
  returned := rfl

theorem sender (action : Endpoint.Action) (arrived : Arrived mine peer)
    (count : peer.returned.length ≤ mine.posted.length)
    (taken : mine.step action = some after) : Arrived after peer := by
  obtain ⟨delivered, added, posted⟩ := Endpoint.step_posted action taken
  have written := Endpoint.step_written action taken
  refine ⟨?_, ?_, ?_, ?_⟩
  · intro i flag
    rw [written] at flag
    rw [posted, List.length_append]
    exact Nat.lt_add_right _ (arrived.written i flag)
  · intro i before
    rw [delivered] at before
    rw [written]
    exact arrived.delivered i before
  · intro i request entry flag late
    rw [written] at flag
    rw [posted, List.getElem?_append_left (arrived.written i flag)] at entry
    exact arrived.stored i request entry flag late
  · rw [posted, List.take_append_of_le_length count]
    exact arrived.returned

theorem finish {request : Request} (arrived : Arrived peer mine) (flow : Flow peer mine)
    (below : mine.returned.length < peer.delivered)
    (next : peer.posted[mine.returned.length]? = some request)
    (sized : request.localBuf.length = request.msg.wireLen)
    (receiving : mine.receiving = some request.pair)
    (taken : mine.finish = some after) : Arrived peer after := by
  obtain ⟨pair, recvBuf, slice, same, read, rfl⟩ := Endpoint.finish_cases taken
  rw [receiving] at same
  cases same
  have region : slice = request.remoteBuf.region := by
    obtain ⟨recvBuf', succeeds⟩ := flow.read_succeeds next sized
    exact congrArg Prod.snd (Option.some.inj (read.symm.trans succeeds))
  have kept : Endpoint.released { mine with
      receiving := none
      allocator :=
        if request.pair.2 ≠ 0 then mine.allocator.update request.pair.2 else mine.allocator
      recvBuf := recvBuf
      held := mine.held ++ [slice]
      returned := mine.returned ++ [ByteMemory.read mine.recvMem slice.start slice.length] } =
      mine.released := by
    unfold Endpoint.released
    simp only [List.length_append, List.length_singleton, Nat.add_sub_add_right]
  refine ⟨arrived.written, arrived.delivered, ?_, ?_⟩
  · intro i request' entry flag late
    rw [kept] at late
    exact arrived.stored i request' entry flag late
  · have bytes := arrived.stored _ request next (arrived.delivered _ below) (Nat.sub_le _ _)
    dsimp only
    rw [List.length_append, List.length_singleton, List.take_add_one, next, Option.toList_some,
      List.map_append, ← arrived.returned, List.map_singleton, region]
    exact congrArg (mine.returned ++ [·]) bytes

theorem receiver (action : Endpoint.Action) {orphans : List Job} (arrived : Arrived peer mine)
    (flow : Flow peer mine) (transport : Transport mine peer)
    (tickets : (peer.outgoing orphans).Tickets)
    (taken : mine.step action = some after) : Arrived peer after := by
  by_cases reading : action.reading = true
  · cases action with
    | finish =>
        obtain ⟨pair, recvBuf, slice, receiving, -, -⟩ := Endpoint.finish_cases taken
        obtain ⟨below, request, next, same⟩ := transport.next receiving
        rw [← same] at receiving
        refine arrived.finish flow below next ?_ receiving taken
        refine (tickets.bought request.job ?_).2
        exact List.mem_append_right _ (List.mem_map_of_mem (List.mem_of_getElem? next))
    | release =>
        obtain ⟨slice, rest, held, rfl⟩ := Endpoint.releaseSlice_cases taken
        refine { arrived with stored := ?_ }
        intro i request entry flag late
        apply arrived.stored i request entry flag
        refine Nat.le_trans ?_ late
        unfold Endpoint.released
        dsimp only
        rw [held, List.length_cons]
        omega
    | _ => cases reading
  obtain ⟨-, held, returned, memory, -, -⟩ :=
    Endpoint.step_not_reading action (Bool.eq_false_iff.mpr reading) taken
  refine ⟨arrived.written, arrived.delivered, ?_, ?_⟩
  · unfold Endpoint.released
    rw [held, returned, memory]
    exact arrived.stored
  · rw [returned]
    exact arrived.returned

/-- The queue pair writes the bytes it has read of the local region to the remote region,
which no other message that is still needed shares. -/
theorem write {i : Nat} {both : Endpoint × Endpoint} {orphans : List Job}
    (arrived : Arrived mine peer) (back : Arrived peer mine) (flow : Flow mine peer)
    (count : peer.returned.length ≤ mine.delivered)
    (tickets : (mine.outgoing orphans).Tickets) (intact : (mine.outgoing orphans).Intact)
    (taken : System.writeData mine peer i = some both) :
    Arrived both.1 both.2 ∧ Arrived both.2 both.1 := by
  obtain ⟨request, data, entry, fetched, fresh, rfl⟩ := System.writeData_cases taken
  refine ⟨⟨?_, ?_, ?_, arrived.returned⟩, { back with }⟩
  · intro k flag
    dsimp only at flag
    by_cases same : k = i
    · rw [same]
      exact (List.getElem?_eq_some_iff.mp entry).1
    · rw [Function.update_of_ne same] at flag
      exact arrived.written k flag
  · intro k before
    dsimp only
    by_cases same : k = i
    · rw [same, Function.update_self]
    · rw [Function.update_of_ne same]
      exact arrived.delivered k before
  · intro k request' entry' flag late
    dsimp only at entry' flag ⊢
    change peer.released ≤ k at late
    obtain ⟨request'', entry'', bytes, whole⟩ := intact.read i data fetched
    have same : request'' = request := Option.some.inj (entry''.symm.trans entry)
    subst same
    have sized : request''.remoteBuf.length = data.length := by
      have bought := (tickets.bought request''.job (List.mem_append_right _
        (List.mem_map_of_mem (List.mem_of_getElem? entry)))).2
      have placed := flow.posted request'' (List.mem_of_getElem? entry)
      rw [placed, bytes, Msg.bytes_length]
      exact bought.symm.trans whole
    by_cases equal : k = i
    · subst equal
      have twice : request' = request'' := Option.some.inj (entry'.symm.trans entry)
      rw [twice, sized, ByteMemory.read_write]
      exact bytes
    · rw [Function.update_of_ne equal] at flag
      rw [ByteMemory.read_write_apart]
      · exact arrived.stored k request' entry' flag late
      · -- neither region is known to be released
        obtain ⟨updated, batches, withheld, accounts⟩ := flow.accounts
        have early : updated ≤ peer.released := accounts.updated_le
        have undelivered : mine.delivered ≤ i := by
          apply Nat.le_of_not_lt
          intro before
          rw [arrived.delivered i before] at fresh
          cases fresh
        have behind : peer.released ≤ peer.returned.length := Nat.sub_le _ _
        have apart := accounts.granted_apart (Flow.granted_posted peer entry')
          (Flow.granted_posted peer entry) (by omega) (by omega) equal
        rw [← sized]
        exact apart

theorem deliver {both : Endpoint × Endpoint} (arrived : Arrived mine peer)
    (back : Arrived peer mine) (taken : System.deliverNext mine peer = some both) :
    Arrived both.1 both.2 ∧ Arrived both.2 both.1 := by
  obtain ⟨request, entry, written, -, rfl⟩ := System.deliverNext_cases taken
  refine ⟨{ arrived with delivered := ?_ }, { back with }⟩
  intro i before
  rcases Nat.lt_succ_iff_lt_or_eq.mp before with old | same
  · exact arrived.delivered i old
  · rw [same]
    exact written

end Arrived

/-- All that ties two endpoints together. -/
structure Linked (mine peer : Endpoint) : Prop where
  counts : Counts mine peer
  sending : ∃ orphans, (mine.outgoing orphans).Tickets ∧ (mine.outgoing orphans).Intact
  transport : Transport mine peer
  flow : Flow mine peer
  arrived : Arrived mine peer

namespace Linked

variable {mine peer : Endpoint}

theorem write_step {i : Nat} {both : Endpoint × Endpoint} (forth : Linked mine peer)
    (back : Linked peer mine) (taken : System.writeData mine peer i = some both) :
    Linked both.1 both.2 ∧ Linked both.2 both.1 := by
  obtain ⟨counts, counts'⟩ := forth.counts.write_step back.counts taken
  obtain ⟨transport, transport'⟩ := forth.transport.write_step back.transport taken
  obtain ⟨flow, flow'⟩ := forth.flow.write_step back.flow taken
  obtain ⟨orphans, tickets, intact⟩ := forth.sending
  obtain ⟨orphans', tickets', intact'⟩ := back.sending
  obtain ⟨arrived, arrived'⟩ := forth.arrived.write back.arrived forth.flow
    back.transport.count tickets intact taken
  obtain ⟨request, data, -, -, -, rfl⟩ := System.writeData_cases taken
  exact ⟨⟨counts, ⟨orphans, { tickets with }, { intact with }⟩, transport, flow, arrived⟩,
    ⟨counts', ⟨orphans', { tickets' with }, { intact' with }⟩, transport', flow', arrived'⟩⟩

theorem deliver_step {both : Endpoint × Endpoint} (forth : Linked mine peer)
    (back : Linked peer mine) (taken : System.deliverNext mine peer = some both) :
    Linked both.1 both.2 ∧ Linked both.2 both.1 := by
  obtain ⟨counts, counts'⟩ := forth.counts.deliver_step back.counts taken
  obtain ⟨transport, transport'⟩ := forth.transport.deliver_step back.transport taken
  obtain ⟨flow, flow'⟩ := forth.flow.deliver_step back.flow taken
  obtain ⟨arrived, arrived'⟩ := forth.arrived.deliver back.arrived taken
  obtain ⟨orphans, tickets, intact⟩ := forth.sending
  obtain ⟨orphans', tickets', intact'⟩ := back.sending
  have kept := System.deliver_tickets tickets' taken
  obtain ⟨request, entry, -, -, rfl⟩ := System.deliverNext_cases taken
  exact ⟨⟨counts, ⟨orphans, { tickets with }, { intact with }⟩, transport, flow, arrived⟩,
    ⟨counts', ⟨orphans', kept, { intact' with }⟩, transport', flow', arrived'⟩⟩

end Linked

namespace System

theorem new_linked (recvMr sendMr : Side → MR) (side : Side) :
    Linked (new recvMr sendMr side) (new recvMr sendMr side.other) := by
  have start : Runs.Run step Runs.Any (new recvMr sendMr) (new recvMr sendMr) := .refl
  exact
    { counts := run_counts start side
      sending := ⟨[], new_tickets side, Endpoint.new_intact _ _ _⟩
      transport := run_transport start side
      flow := Flow.new_flow recvMr sendMr side
      arrived := Arrived.new recvMr sendMr side }

theorem run_linked {recvMr sendMr : Side → MR} {system : System}
    (run : Runs.Run step (Allowed fun mine _ action => mine.Assumed action)
      (new recvMr sendMr) system) (side : Side) :
    Linked (system side) (system side.other) := by
  refine pairwise (fun _ => Linked) run ?_ ?_ ?_ ?_ side
  · exact new_linked recvMr sendMr
  · intro side mine peer action after forth back assumed taken
    obtain ⟨counts, counts'⟩ := forth.counts.own_step action back.counts taken
    obtain ⟨transport, transport'⟩ :=
      forth.transport.own_step action back.transport forth.counts.sent taken
    obtain ⟨orphans, tickets, intact⟩ := forth.sending
    obtain ⟨orphans', tickets', intact'⟩ := back.sending
    obtain ⟨more, kept⟩ := Endpoint.step_tickets action tickets forth.counts.queues.acked taken
    have stored := Endpoint.step_intact action intact tickets assumed taken
    obtain ⟨flow, flow'⟩ := forth.flow.own_step action back.flow forth.transport back.transport
      forth.counts.sent tickets' assumed taken
    have count := back.transport.count
    have sent := forth.counts.sent
    exact ⟨⟨counts, ⟨_, kept, { stored with }⟩, transport, flow,
        forth.arrived.sender action (by omega) taken⟩,
      ⟨counts', ⟨orphans', tickets', intact'⟩, transport', flow',
        back.arrived.receiver action back.flow forth.transport tickets' taken⟩⟩
  · intro side sender receiver i both forth back taken
    exact forth.write_step back taken
  · intro side sender receiver both forth back taken
    exact forth.deliver_step back taken

/-- End-to-end delivery. In every state of every assumed run the slices returned by
`recv_msg` so far held the bytes of the messages posted first, in this order, each once; a
slice not yet released still does. The sums of the rings are the u64 sums of the source for
regions that end 4 GiB below the top of the address space (`rings_in_words`). -/
theorem end_to_end_delivery (recvMr sendMr : Side → MR) (system : System)
    (run : Runs.Run step (Allowed fun mine _ action => mine.Assumed action)
      (new recvMr sendMr) system) (side : Side) :
    (system side.other).returned =
        ((system side).posted.take (system side.other).returned.length).map
          (fun request => request.msg.bytes) ∧
      (∀ k slice, (system side.other).held[k]? = some slice → ∃ request,
        (system side).posted[(system side.other).released + k]? = some request ∧
          ByteMemory.read (system side.other).recvMem slice.start slice.length =
            request.msg.bytes) ∧
      ((system side.other).receiving.isSome → (system side.other).finish.isSome) ∧
      ((system side).delivered = (system side).posted.length → (system side.other).inbox = [] →
        (system side.other).returned =
          (system side).posted.map fun request => request.msg.bytes) := by
  have forth := run_linked run side
  have back := run_linked run side.other
  rw [Side.other_other] at back
  have count := back.transport.count
  have sent := forth.counts.sent
  obtain ⟨orphans, tickets, -⟩ := forth.sending
  refine ⟨forth.arrived.returned, ?_, ?_, ?_⟩
  · intro k slice held
    obtain ⟨inside, request, entry, rfl⟩ := forth.flow.held_region (by omega) held
    refine ⟨request, entry, forth.arrived.stored _ request entry ?_ (Nat.le_add_right _ _)⟩
    exact forth.arrived.delivered _ (by omega)
  · intro waiting
    obtain ⟨pair, receiving⟩ := Option.isSome_iff_exists.mp waiting
    obtain ⟨-, request, next, same⟩ := back.transport.next receiving
    have sized := (tickets.bought request.job (List.mem_append_right _
      (List.mem_map_of_mem (List.mem_of_getElem? next)))).2
    obtain ⟨recvBuf, read⟩ := forth.flow.read_succeeds next sized
    unfold Endpoint.finish
    rw [receiving, ← same]
    dsimp only [Option.bind_eq_bind, Option.bind_some]
    rw [read]
    rfl
  · intro delivered empty
    have pairs := congrArg List.length back.transport.pairs
    rw [empty, List.length_map, List.length_drop, List.length_take, List.length_nil] at pairs
    have all : (system side.other).returned.length = (system side).posted.length := by omega
    have returned := forth.arrived.returned
    rw [all, List.take_length] at returned
    exact returned

def assumes (system : System) : Action → Bool
  | .own _ (.call msg) => decide (msg.totalLen < 2 ^ 32)
  | .own side .localSecond =>
      match (system side).allocating with
      | some (_, .tested first) => decide ((system side).sendRing.buffer.done = first)
      | _ => true
  | .own side .remoteSecond =>
      match (system side).lock with
      | some ⟨_, _, _, .placing _ (.tested first)⟩ => decide ((system side).allocator.done = first)
      | _ => true
  | .own _ (.postFail _) => false
  | _ => true

theorem assumes_sound (system : System) (action : Action) (holds : assumes system action = true) :
    Allowed (fun mine _ action => mine.Assumed action) system action := by
  cases action with
  | write side i => trivial
  | deliver side => trivial
  | own side action =>
      cases action with
      | call msg =>
          have small : msg.totalLen < 2 ^ 32 := of_decide_eq_true holds
          exact small
      | localSecond =>
          intro msg first waiting
          unfold assumes at holds
          dsimp only at holds
          rw [waiting] at holds
          exact of_decide_eq_true holds
      | remoteSecond =>
          intro msg buf wrId imm first holder
          unfold assumes at holds
          dsimp only at holds
          rw [holder] at holds
          exact of_decide_eq_true holds
      | postFail errno => cases holds
      | _ => trivial

/-- A message of two slices, and a `recv_msg` of it, not yet released. -/
def twoSlices : List Action :=
  [Endpoint.Action.call [⟨1, fun _ => 7⟩, ⟨2, fun i => 8 + UInt8.ofNat i⟩], .lockIndex 0,
    .localFirst, .localSecond, .allocLocal, .copy 0, .copy 0, .takeLock 0, .load, .count,
    .popNotice, .remoteFirst, .remoteSecond, .allocRemote, .post, .fetch 0].map
      (Action.own .client) ++ [.write .client 0, .deliver .client] ++
    [Endpoint.Action.poll 1, .dispatch, .sendPair, .recv, .finish].map (Action.own .server)

/-- The server returns and releases a message of 40 MiB, which is retired, and reports it with
a message of its own. One of 30 MiB then goes over the right end and is returned. -/
def overTheEnd : List Action :=
  let large : IoSlice := ⟨0x2800000, fun _ => 7⟩
  let wrapping : IoSlice := ⟨0x1e00000, fun i => UInt8.ofNat i⟩
  let client (actions : List Endpoint.Action) := actions.map (Action.own .client)
  let server (actions : List Endpoint.Action) := actions.map (Action.own .server)
  let receives : List Endpoint.Action := [.poll 1, .dispatch, .sendPair, .recv, .finish]
  client (Endpoint.sendSteps large ++ [.fetch 0, .ack]) ++ [.write .client 0, .deliver .client] ++
    client [.poll 1, .dispatch, .popRelease, .releaseDone] ++ server (receives ++ [.release]) ++
    server (Endpoint.sendSteps Endpoint.oneByte ++ [.fetch 0]) ++
    [.write .server 0, .deliver .server] ++ client receives ++
    client (Endpoint.sendSteps wrapping ++ [.fetch 1]) ++ [.write .client 1, .deliver .client] ++
    server receives

/-- The second slice lies where the first has been. -/
theorem end_to_end_delivery_over_the_end : ∃ system,
    Runs.Run step (Allowed fun mine _ action => mine.Assumed action)
      (new (fun _ => sampleMr) (fun _ => sampleMr)) system ∧
      (system .client).posted.map (fun request => request.remoteBuf.addr) =
        [0x10000000, 0x10000000] ∧
      (system .server).returned =
        (system .client).posted.map (fun request => request.msg.bytes) ∧
      ∃ request, (system .client).posted[1]? = some request ∧
        ByteMemory.read (system .server).recvMem 0x10000000 0x1e00000 = request.msg.bytes := by
  obtain ⟨system, run, reached⟩ : ∃ system,
      Runs.Run step (Allowed fun mine _ action => mine.Assumed action)
        (new (fun _ => sampleMr) (fun _ => sampleMr)) system ∧
        decide ((system .client).delivered = (system .client).posted.length ∧
          (system .server).inbox = [] ∧
            (system .client).posted.map (fun request => request.remoteBuf.addr) =
              [0x10000000, 0x10000000] ∧
            (system .server).held[0]? = some (⟨0x10000000, 0x1e00000⟩ : Region) ∧
              (system .server).released = 1) = true :=
    Runs.Run.exists_of_execChecked assumes _ assumes_sound overTheEnd (by decide +kernel)
  obtain ⟨delivered, empty, places, held, released⟩ := of_decide_eq_true reached
  obtain ⟨-, slices, -, all⟩ := end_to_end_delivery _ _ system run .client
  obtain ⟨request, entry, stored⟩ := slices 0 _ held
  rw [show Side.client.other = Side.server from rfl, released] at entry
  exact ⟨system, run, places, all delivered empty, request, entry, stored⟩

end System

end Ibv
