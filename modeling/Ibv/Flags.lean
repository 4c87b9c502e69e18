import Ibv.Burst
import Ibv.Outgoing
import Ibv.Progress

set_option autoImplicit false

namespace Ibv

namespace Endpoint

/-- The pointer that a step hands to `Arc::from_raw`. -/
def pointer (endpoint : Endpoint) : Action → Option Nat
  | .dispatch =>
      match endpoint.forward, endpoint.polled with
      | none, wc :: _ => if wc.isSend then some wc.wrId else none
      | _, _ => none
  | _ => none

/-- `Arc::strong_count`: the queue's reference until it is retired, the raw one until it is
among `pointers`. -/
def strongCount (endpoint : Endpoint) (pointers : List Nat) (flag : Nat) : Nat :=
  (endpoint.sendRing.buffer.queue.map Prod.fst).count flag +
    if flag < endpoint.sendRing.granted.length ∧ flag ∉ pointers then 1 else 0

end Endpoint

/-- The pointers that one side hands to `Arc::from_raw` in a run. -/
def System.pointers (side : Side) (system : System) : System.Action → List Nat
  | .own chosen action =>
      if chosen = side then ((system chosen).pointer action).toList else []
  | .write _ _ | .deliver _ => []

namespace Outgoing

/-- The pointers of the send completions that `polling` has not dispatched. -/
def announced (out : Outgoing) : List Nat := (out.completions.filter WC.isSend).map WC.wrId

/-- `seen` are the pointers turned back so far. -/
structure Handing (out : Outgoing) (seen : List Nat) : Prop where
  queue : out.ring.buffer.queue.map Prod.fst =
    List.range' out.ring.retired out.ring.buffer.queue.length
  count : out.ring.retired + out.ring.buffer.queue.length = out.ring.granted.length
  order : seen ++ out.announced = (out.posted.take out.acked).map Request.wrId
  inUse : ∀ flag, out.ring.buffer.inUse flag = true ↔
    flag < out.ring.granted.length ∧ flag ∉ seen
  retired : ∀ flag, flag < out.ring.retired → flag ∈ seen

variable {out after : Outgoing} {seen : List Nat}

theorem Handing.acked (handing : Handing out seen) {flag : Nat} (member : flag ∈ seen) :
    flag ∈ (out.posted.take out.acked).map Request.wrId := by
  rw [← handing.order]
  exact List.mem_append_left _ member

theorem Handing.below (handing : Handing out seen) (tickets : Tickets out) {flag : Nat}
    (member : flag ∈ seen) : flag < out.ring.granted.length := by
  obtain ⟨request, posted, same⟩ := List.mem_map.mp (handing.acked member)
  have job : request.job ∈ out.jobs :=
    List.mem_append_right _ (List.mem_map_of_mem (List.mem_of_mem_take posted))
  rw [← same, ← tickets.numbered]
  exact tickets.fresh job

theorem Handing.alloc (length : Nat) (handing : Handing out seen) (tickets : Tickets out) :
    Handing { out with ring := out.ring.take length } seen := by
  have shape : out.ring.take length = { out.ring with
      buffer := (out.ring.buffer.take length).1
      granted := out.ring.granted ++ [(out.ring.buffer.take length).2.1] } := rfl
  rw [SendBuffer.take_eq] at shape
  have queue : (out.ring.take length).buffer.queue =
      out.ring.buffer.queue ++ [(out.ring.buffer.fresh, length)] := by
    rw [shape, SendBuffer.queue, SendBuffer.queue, List.append_assoc]
  have granted : (out.ring.take length).granted.length = out.ring.granted.length + 1 := by
    rw [shape, List.length_append, List.length_singleton]
  have count := handing.count
  refine
    { queue := ?_
      count := ?_
      order := handing.order
      inUse := ?_
      retired := handing.retired }
  · change (out.ring.take length).buffer.queue.map Prod.fst =
      List.range' out.ring.retired (out.ring.take length).buffer.queue.length
    rw [queue, List.map_append, List.length_append, List.length_singleton, List.range'_concat,
      handing.queue, List.map_singleton, tickets.numbered, ← count, Nat.one_mul]
  · change out.ring.retired + (out.ring.take length).buffer.queue.length = _
    rw [queue, granted, List.length_append, List.length_singleton]
    omega
  · intro flag
    change (out.ring.take length).buffer.inUse flag = true ↔
      flag < (out.ring.take length).granted.length ∧ flag ∉ seen
    rw [granted, shape]
    dsimp only
    by_cases new : flag = out.ring.buffer.fresh
    · rw [new, Function.update_self, tickets.numbered]
      refine iff_of_true rfl ⟨Nat.lt_succ_self _, ?_⟩
      intro member
      exact Nat.lt_irrefl _ (handing.below tickets member)
    · rw [Function.update_of_ne new, handing.inUse]
      rw [tickets.numbered] at new
      constructor
      · rintro ⟨below, fresh⟩
        exact ⟨Nat.lt_succ_of_lt below, fresh⟩
      · rintro ⟨below, fresh⟩
        exact ⟨by omega, fresh⟩

theorem Handing.post (request : Request) (handing : Handing out seen)
    (acked : out.acked ≤ out.posted.length) :
    Handing { out with posted := out.posted ++ [request] } seen :=
  { handing with
    order := by
      dsimp only
      rw [List.take_append_of_le_length acked]
      exact handing.order }

theorem Handing.ack {request : Request} {completions : List WC} (handing : Handing out seen)
    (entry : out.posted[out.acked]? = some request)
    (arrived : completions = out.completions ++ [request.sendWc]) :
    Handing { out with
      acked := out.acked + 1
      completions := completions } seen :=
  { handing with
    order := by
      have isSend : WC.isSend request.sendWc = true := rfl
      unfold announced
      dsimp only
      rw [List.take_add_one, entry, Option.toList_some, List.map_append, ← handing.order, arrived,
        List.filter_append, List.filter_singleton, isSend, cond_true, List.map_append,
        List.append_assoc]
      rfl }

theorem Handing.others {completions : List WC} (handing : Handing out seen)
    (same : completions.filter WC.isSend = out.completions.filter WC.isSend) :
    Handing { out with completions := completions } seen :=
  { handing with
    order := by
      unfold announced
      rw [same]
      exact handing.order }

theorem Handing.clear {wc : WC} {completions : List WC} (handing : Handing out seen)
    (isSend : wc.isSend = true) (next : out.completions = wc :: completions) :
    Handing { out with
      completions := completions
      ring := { out.ring with buffer := out.ring.buffer.clear wc.wrId } } (seen ++ [wc.wrId]) := by
  refine
    { queue := handing.queue
      count := handing.count
      order := ?_
      inUse := ?_
      retired := fun flag before => List.mem_append_left _ (handing.retired flag before) }
  · have order := handing.order
    unfold announced at order ⊢
    rw [next, List.filter_cons_of_pos isSend, List.map_cons] at order
    rw [List.append_assoc]
    exact order
  · intro flag
    change Function.update out.ring.buffer.inUse wc.wrId false flag = true ↔
      flag < out.ring.granted.length ∧ flag ∉ seen ++ [wc.wrId]
    rw [List.mem_append, List.mem_singleton, not_or]
    by_cases same : flag = wc.wrId
    · rw [same, Function.update_self]
      exact iff_of_false (fun other => nomatch other) (fun both => both.2.2 rfl)
    · rw [Function.update_of_ne same, handing.inUse]
      exact ⟨fun both => ⟨both.1, both.2, same⟩, fun both => ⟨both.1, both.2.1⟩⟩

theorem Handing.popRelease {buffer : SendBuffer} (handing : Handing out seen)
    (taken : out.ring.buffer.popRelease = some buffer) :
    Handing { out with ring := { out.ring with buffer := buffer } } seen := by
  obtain ⟨pair, rest, idle, queued, rfl⟩ := SendBuffer.popRelease_cases taken
  have same : SendBuffer.queue { out.ring.buffer with
      releasing := some pair
      toRelease := rest } = out.ring.buffer.queue := by
    simp only [SendBuffer.queue, idle, queued, Option.toList_some, Option.toList_none,
      List.nil_append, List.singleton_append]
  refine { handing with queue := ?_, count := ?_ }
  · rw [same]
    exact handing.queue
  · rw [same]
    exact handing.count

theorem Handing.releaseDone {buffer : SendBuffer} (handing : Handing out seen)
    (taken : out.ring.buffer.releaseDone = some buffer) :
    Handing { out with ring := { out.ring with
      buffer := buffer
      retired := out.ring.retired + 1 } } seen := by
  obtain ⟨flag, length, waiting, cleared, rfl⟩ := SendBuffer.releaseDone_cases taken
  have queue := handing.queue
  have count := handing.count
  have shape : out.ring.buffer.queue = (flag, length) :: out.ring.buffer.toRelease := by
    rw [SendBuffer.queue, waiting, Option.toList_some, List.singleton_append]
  rw [shape, List.map_cons, List.length_cons, List.range'_succ, List.cons.injEq] at queue
  rw [shape, List.length_cons] at count
  refine
    { queue := queue.2
      count := ?_
      order := handing.order
      inUse := handing.inUse
      retired := ?_ }
  · change out.ring.retired + 1 + out.ring.buffer.toRelease.length = out.ring.granted.length
    omega
  · intro flag' before
    rcases Nat.lt_succ_iff_lt_or_eq.mp before with old | same
    · exact handing.retired flag' old
    · rw [same, ← queue.1]
      by_contra unseen
      have inUse := (handing.inUse flag).mpr ⟨by omega, unseen⟩
      rw [cleared] at inUse
      cases inUse

end Outgoing

namespace Endpoint

open Outgoing (Handing Tickets)

variable {endpoint after : Endpoint} {seen : List Nat}

theorem step_handing (action : Action) {orphans : List Job}
    (handing : Handing (endpoint.outgoing orphans) seen)
    (tickets : Tickets (endpoint.outgoing orphans))
    (acked : endpoint.acked ≤ endpoint.posted.length)
    (taken : endpoint.step action = some after) (more : List Job) :
    Handing (after.outgoing more) (seen ++ (endpoint.pointer action).toList) := by
  cases sends : action.sends with
  | false =>
      have silent : endpoint.pointer action = none := by
        cases action with
        | dispatch => cases sends
        | _ => rfl
      have same := step_not_sends action sends orphans taken
      rw [silent, Option.toList_none, List.append_nil]
      have kept : Handing (after.outgoing orphans) seen := by
        rw [same]
        exact handing
      exact { kept with }
  | true =>
      by_cases dispatches : action = .dispatch
      · subst dispatches
        obtain ⟨wc, rest, free, batch, branches⟩ := dispatch_cases taken
        have next : (endpoint.outgoing orphans).completions = wc :: (rest ++ endpoint.cq) := by
          unfold outgoing
          rw [batch, List.cons_append]
        have fewer (wc : WC) (rest : List WC)
            (next : (endpoint.outgoing orphans).completions = wc :: (rest ++ endpoint.cq))
            (notSend : wc.isSend = false) : (rest ++ endpoint.cq).filter WC.isSend =
              (endpoint.outgoing orphans).completions.filter WC.isSend := by
          rw [next, List.filter_cons, notSend, if_neg Bool.false_ne_true]
        have shown : endpoint.pointer .dispatch = if wc.isSend then some wc.wrId else none := by
          unfold pointer
          rw [free, batch]
        rcases branches with ⟨code, rfl⟩ | ⟨code, rfl⟩ | ⟨-, other, rfl⟩
        · have notSend : wc.isSend = false := decide_eq_false (by rw [code]; decide)
          rw [shown, notSend, if_neg Bool.false_ne_true, Option.toList_none, List.append_nil]
          have kept := handing.others (fewer wc rest next notSend)
          unfold postNullRecv
          split <;> exact { kept with }
        · have isSend : wc.isSend = true := decide_eq_true code
          rw [shown, isSend, if_pos rfl, Option.toList_some]
          have kept := handing.clear isSend next
          exact { kept with }
        · have notSend : wc.isSend = false := decide_eq_false other
          rw [shown, notSend, if_neg Bool.false_ne_true, Option.toList_none, List.append_nil]
          have kept := handing.others (fewer wc rest next notSend)
          exact { kept with }
      · have silent : endpoint.pointer action = none := by
          cases action with
          | dispatch => exact absurd rfl dispatches
          | _ => rfl
        rw [silent, Option.toList_none, List.append_nil]
        cases action with
        | call msg =>
            cases taken
            exact { handing with }
        | lockIndex i =>
            obtain ⟨msg, -, -, rfl⟩ := lockIndex_cases taken
            exact { handing with }
        | localFirst =>
            obtain ⟨msg, -, rfl⟩ := localFirst_cases taken
            exact { handing with }
        | localSecond =>
            obtain ⟨msg, first, -, rfl⟩ := localSecond_cases taken
            exact { handing with }
        | allocLocal =>
            obtain ⟨msg, -, -, rfl⟩ := allocLocal_cases taken
            exact { handing.alloc msg.wireLen tickets with }
        | copy i =>
            obtain ⟨msg, buf, wrId, slice, rest, addr, -, rfl⟩ := copy_cases taken
            exact { handing with }
        | takeLock i =>
            obtain ⟨msg, buf, wrId, addr, -, -, rfl⟩ := takeLock_cases taken
            exact { handing with }
        | post =>
            obtain ⟨msg, buf, wrId, imm, remote, -, -, rfl⟩ := post_cases taken
            exact { handing.post _ acked with }
        | postFail errno =>
            obtain ⟨msg, buf, wrId, imm, remote, -, rfl⟩ := postFail_cases taken
            exact { handing with }
        | fetch i =>
            obtain ⟨request, -, -, rfl⟩ := fetch_cases taken
            exact { handing with }
        | ack =>
            obtain ⟨request, data, entry, -, rfl⟩ := ack_cases taken
            exact { handing.ack entry (List.append_assoc _ _ _).symm with }
        | popRelease =>
            obtain ⟨buffer, popped, rfl⟩ := popRelease_cases taken
            exact { handing.popRelease popped with }
        | releaseDone =>
            obtain ⟨buffer, done, rfl⟩ := releaseDone_cases taken
            exact { handing.releaseDone done with }
        | dispatch => exact absurd rfl dispatches
        | _ => cases sends

theorem new_handing (recvMr sendMr : MR) (remoteMr : RemoteMR) :
    Handing ((new recvMr sendMr remoteMr).outgoing []) [] where
  queue := rfl
  count := rfl
  order := rfl
  inUse := by
    intro flag
    exact iff_of_false (fun set => nomatch set) (fun both => Nat.not_lt_zero _ both.1)
  retired := by
    intro flag before
    exact absurd before (Nat.not_lt_zero _)

end Endpoint

namespace Endpoint

open Outgoing (Handing)

variable {endpoint : Endpoint} {seen : List Nat} {orphans : List Job} {flag : Nat}

/-- Two references at first, one once the raw one is turned back, none after retirement. -/
theorem strongCount_eq (handing : Handing (endpoint.outgoing orphans) seen)
    (below : flag < endpoint.sendRing.granted.length) : endpoint.strongCount seen flag =
      if flag < endpoint.sendRing.retired then 0 else if flag ∈ seen then 1 else 2 := by
  have queue : endpoint.sendRing.buffer.queue.map Prod.fst =
    List.range' endpoint.sendRing.retired endpoint.sendRing.buffer.queue.length := handing.queue
  have count : endpoint.sendRing.retired + endpoint.sendRing.buffer.queue.length =
    endpoint.sendRing.granted.length := handing.count
  unfold strongCount
  rw [queue, List.count_range_1']
  by_cases before : flag < endpoint.sendRing.retired
  · have turned := handing.retired flag before
    rw [if_pos before, if_neg (by omega), if_neg fun both => both.2 turned]
  · rw [if_neg before, if_pos (by omega)]
    by_cases turned : flag ∈ seen
    · rw [if_neg fun both => both.2 turned, if_pos turned]
    · rw [if_pos ⟨below, turned⟩, if_neg turned]

theorem pointer_announced {action : Action} (shown : endpoint.pointer action = some flag)
    (orphans : List Job) : ∃ rest, (endpoint.outgoing orphans).announced = flag :: rest := by
  unfold pointer at shown
  split at shown
  · split at shown
    · rename_i wc rest free batch
      split at shown
      · rename_i isSend
        cases shown
        unfold Outgoing.announced outgoing
        rw [batch, List.cons_append, List.filter_cons_of_pos isSend, List.map_cons]
        exact ⟨_, rfl⟩
      · cases shown
    · cases shown
  · cases shown

end Endpoint

namespace System

open Outgoing (Handing)

variable {recvMr sendMr : Side → MR} {ok : System → Action → Prop} {side : Side}
  {seen : List Nat} {system : System}

/-- The flags of all calls, those whose post failed among them. -/
theorem run_orphans (run : Runs.Run step ok (new recvMr sendMr) system) (side : Side) :
    ∃ orphans, ((system side).outgoing orphans).Tickets := by
  have start : Runs.Run step Runs.Any (new recvMr sendMr) (new recvMr sendMr) := .refl
  obtain ⟨more, tickets⟩ := run_tickets (fun _ => []) (run_counts start)
    (fun side => new_tickets side) run side
  exact ⟨_, tickets⟩

theorem run_handing
    (run : Runs.Observed step ok (pointers side) (new recvMr sendMr) seen system) :
    Handing ((system side).outgoing []) seen := by
  refine run.invariant (fun seen system => Handing ((system side).outgoing []) seen)
    (Endpoint.new_handing _ _ _) ?_
  intro seen before label after run handing _ taken
  cases label with
  | own chosen action =>
      obtain ⟨mine, acted, rfl⟩ := Option.map_eq_some_iff.mp taken
      rcases side.eq_or_other chosen with rfl | rfl
      · obtain ⟨orphans, tickets⟩ := run_orphans run side
        have handing' : Handing ((before side).outgoing orphans) seen := { handing with }
        have kept := Endpoint.step_handing action handing' tickets
          (run_counts run side).queues.acked acted []
        rw [join_self]
        rw [pointers, if_pos rfl]
        exact kept
      · rw [join_other, pointers, if_neg (Ne.symm chosen.other_ne), List.append_nil]
        exact handing
  | write chosen i =>
      obtain ⟨both, acted, rfl⟩ := Option.map_eq_some_iff.mp taken
      obtain ⟨request, data, -, -, -, rfl⟩ := writeData_cases acted
      rw [pointers, List.append_nil]
      rcases side.eq_or_other chosen with rfl | rfl
      · rw [join_self]
        exact { handing with }
      · rw [join_other]
        exact { handing with }
  | deliver chosen =>
      obtain ⟨both, acted, rfl⟩ := Option.map_eq_some_iff.mp taken
      obtain ⟨request, -, -, -, rfl⟩ := deliverNext_cases acted
      rw [pointers, List.append_nil]
      rcases side.eq_or_other chosen with rfl | rfl
      · rw [join_self]
        exact { handing with }
      · rw [join_other]
        have notSend : WC.isSend request.recvWc = false := rfl
        have same : ((before chosen.other).polled ++ ((before chosen.other).cq ++
            [request.recvWc])).filter WC.isSend =
            ((before chosen.other).polled ++ (before chosen.other).cq).filter WC.isSend := by
          rw [← List.append_assoc, List.filter_append, List.filter_singleton, notSend, cond_false,
            List.append_nil]
        exact { handing.others same with }

/-- Flag lifetimes, whichever posts fail, while all completions are successful. `polling` turns
the raw pointers back in the order of the posts, each once and none before its send has
completed; a flag is set from its allocation until then; of its two references first the raw
one is dropped and then that of the release task; and no pointer is ever turned back whose
flag is not held twice. -/
theorem flags_handed_back (recvMr sendMr : Side → MR) (side : Side) (seen : List Nat)
    (system : System)
    (run : Runs.Observed step Runs.Any (pointers side) (new recvMr sendMr) seen system) :
    seen <+: (system side).posted.map Request.wrId ∧ seen.length ≤ (system side).acked ∧
      seen.Nodup ∧
      (∀ flag, (system side).sendRing.buffer.inUse flag = true ↔
        flag < (system side).sendRing.granted.length ∧ flag ∉ seen) ∧
      (∀ flag, flag < (system side).sendRing.granted.length →
        (system side).strongCount seen flag =
          if flag < (system side).sendRing.retired then 0 else if flag ∈ seen then 1 else 2) ∧
      ∀ action flag, (system side).pointer action = some flag →
        (system side).strongCount seen flag = 2 := by
  obtain ⟨orphans, tickets⟩ := run_orphans run.run side
  have handing : Handing ((system side).outgoing orphans) seen := { run_handing run with }
  have order := handing.order
  have posted : seen <+: (system side).posted.map Request.wrId := by
    rw [List.map_take] at order
    exact (List.prefix_append _ _).trans (order ▸ List.take_prefix _ _)
  have once : (seen ++ ((system side).outgoing orphans).announced).Nodup := by
    rw [order]
    have jobs := tickets.once
    unfold Outgoing.jobs at jobs
    rw [List.map_append, List.map_map] at jobs
    exact ((List.nodup_append.mp jobs).2.1).sublist ((List.take_sublist _ _).map _)
  refine ⟨posted, ?_, (List.nodup_append.mp once).1, handing.inUse,
    fun flag below => Endpoint.strongCount_eq handing below, ?_⟩
  · have length := congrArg List.length order
    rw [List.length_append, List.length_map, List.length_take] at length
    exact Nat.le_trans (Nat.le_add_right _ _) (length ▸ Nat.min_le_left _ _)
  · intro action flag shown
    obtain ⟨rest, next⟩ := Endpoint.pointer_announced shown orphans
    rw [next] at once
    have fresh : flag ∉ seen := fun member =>
      (List.nodup_append.mp once).2.2 _ member _ List.mem_cons_self rfl
    have completed : flag ∈ ((system side).posted.take (system side).acked).map Request.wrId := by
      rw [← show _ = ((system side).posted.take (system side).acked).map Request.wrId from order,
        next]
      exact List.mem_append_right _ List.mem_cons_self
    obtain ⟨request, among, rfl⟩ := List.mem_map.mp completed
    have job : request.job ∈ ((system side).outgoing orphans).jobs :=
      List.mem_append_right _ (List.mem_map_of_mem (List.mem_of_mem_take among))
    have below : request.wrId < (system side).sendRing.granted.length := by
      have fresh : request.wrId < (system side).sendRing.buffer.fresh := tickets.fresh job
      exact tickets.numbered ▸ fresh
    rw [Endpoint.strongCount_eq handing below, if_neg, if_neg fresh]
    exact fun before => fresh (handing.retired _ before)

/-- Two messages, of which the first has been completed, turned back and retired. -/
def firstRetired : List Action :=
  (Endpoint.sendSteps Endpoint.oneByte ++ Endpoint.sendSteps Endpoint.oneByte ++
    [Endpoint.Action.fetch 0, .ack, .poll 1, .dispatch, .popRelease, .releaseDone]).map
      (Action.own .client)

theorem flags_handed_back_first : ∃ seen system,
    Runs.Observed step Runs.Any (pointers .client)
      (new (fun _ => Direction.sampleMr) (fun _ => Direction.sampleMr)) seen system ∧
      seen = [0] ∧ seen.length ≤ (system .client).acked ∧
      (system .client).strongCount seen 0 = 0 ∧ (system .client).strongCount seen 1 = 2 := by
  obtain ⟨seen, system, run, reached⟩ : ∃ seen system,
      Runs.Observed step Runs.Any (pointers .client)
        (new (fun _ => Direction.sampleMr) (fun _ => Direction.sampleMr)) seen system ∧
        decide (seen = [0] ∧ (system .client).sendRing.granted.length = 2 ∧
          (system .client).sendRing.retired = 1) = true :=
    Runs.Observed.exists_of_observe (fun _ _ => true) _ (fun _ _ _ => trivial) firstRetired
      (by decide +kernel)
  obtain ⟨same, granted, retired⟩ := of_decide_eq_true reached
  obtain ⟨-, acked, -, -, strong, -⟩ := flags_handed_back _ _ .client seen system run
  have first := strong 0 (by omega)
  have second := strong 1 (by omega)
  rw [same, retired] at first second
  refine ⟨seen, system, run, same, acked, ?_, ?_⟩
  · rw [same]
    exact first
  · rw [same]
    exact second

end System

end Ibv
