import Ibv.Endpoint

set_option autoImplicit false

namespace Ibv

theorem countP_forces {α : Type} {p q : α → Bool} {list : List α}
    (implied : ∀ a ∈ list, p a = true → q a = true) (same : list.countP p = list.countP q) :
    ∀ a ∈ list, q a = true → p a = true := by
  have parts : list.countP q = list.countP p + list.countP fun a => !p a && q a := by
    clear same
    induction list with
    | nil => rfl
    | cons a list ih =>
        have rest := ih fun b member => implied b (List.mem_cons_of_mem a member)
        have head := implied a List.mem_cons_self
        rw [List.countP_cons, List.countP_cons, List.countP_cons, rest]
        cases first : p a with
        | true =>
            rw [first] at head
            rw [head rfl]
            simp only [Bool.not_true, Bool.false_and, Bool.false_eq_true, ↓reduceIte]
            omega
        | false =>
            simp only [Bool.not_false, Bool.true_and, Bool.false_eq_true, ↓reduceIte]
            omega
  have none_left : (list.countP fun a => !p a && q a) = 0 := by omega
  intro a member holds
  have fails := List.countP_eq_zero.mp none_left a member
  simpa [holds] using fails

/-- The calls that `polling` makes for its completions: `post_null_recv`, `tx.send`, and
`Arc::from_raw` with the store that clears the flag. -/
inductive Effect where
  | postNullRecv
  | send (pair : Nat × Nat)
  | fromRaw (pointer : Nat)
deriving DecidableEq, Repr

namespace Effect

def pair? : Effect → Option (Nat × Nat)
  | send pair => some pair
  | _ => none

def pointer? : Effect → Option Nat
  | fromRaw pointer => some pointer
  | _ => none

end Effect

/-- The body of the loop over `wcs`. -/
def WC.dispatch (wc : WC) : List Effect :=
  match wc.opcode with
  | .writeWithImm => [.postNullRecv, .send wc.pair]
  | .write => [.fromRaw wc.wrId]
  | _ => []

/-- `polling` over the batches that `poll_wc` returns. -/
def polling (batches : List (List WC)) : List Effect :=
  batches.flatMap fun wcs => wcs.flatMap WC.dispatch

namespace Endpoint

/-- What a call of `polling` does to its endpoint. -/
def perform (endpoint : Endpoint) : Effect → Endpoint
  | .postNullRecv => endpoint.postNullRecv
  | .send pair => { endpoint with forward := some pair, handled := endpoint.handled + 1 }
  | .fromRaw pointer => { endpoint with
      sendRing := { endpoint.sendRing with buffer := endpoint.sendRing.buffer.clear pointer } }

theorem dispatch_eq {endpoint : Endpoint} {wc : WC} {rest : List WC}
    (idle : endpoint.forward = none) (next : endpoint.polled = wc :: rest) :
    endpoint.dispatch = some (wc.dispatch.foldl perform { endpoint with polled := rest }) := by
  unfold dispatch WC.dispatch
  simp only [idle, next]
  cases wc.opcode with
  | writeWithImm =>
      simp only [List.foldl_cons, List.foldl_nil, perform, postNullRecv, rqUsed]
      by_cases room : endpoint.receives + endpoint.cq.countP WC.isRecv < maxQpWr
      · simp only [room, ↓reduceIte]
        rfl
      · simp only [room, ↓reduceIte]
        rfl
  | _ => rfl

end Endpoint

inductive Origin where
  | send
  | recv
deriving DecidableEq, Repr

/-- A completion with the queue that its request was posted to and the status that `polling`
does not look at: 0 is `WCStatus::Success`. -/
structure Completion where
  origin : Origin
  status : Nat
  wc : WC
deriving DecidableEq, Repr

namespace Completion

def isSend (completion : Completion) : Bool := completion.origin = .send

def isRecv (completion : Completion) : Bool := completion.origin = .recv

/-- A message that has arrived: a successful receive, of a WRITE_WITH_IMM as all are. -/
def isMessage (completion : Completion) : Bool :=
  completion.origin = .recv && completion.status = 0

/-- The flag pointers of the completed send requests, failed ones included. -/
def sends (completions : List Completion) : List Nat :=
  (completions.filter isSend).map fun completion => completion.wc.wrId

/-- The verbs contract for the requests of this program: flag pointers that are not null on
the send requests, 0 on the receives; each request completes at most once, with its own
wr_id; the opcode tells the two apart where the status is a success. -/
structure Contract (posted : List Nat) (completions : List Completion) : Prop where
  each : (sends completions).Subperm posted
  pointers : 0 ∉ posted
  recvs : ∀ completion ∈ completions, completion.origin = .recv → completion.wc.wrId = 0
  sent : ∀ completion ∈ completions, completion.origin = .send → completion.status = 0 →
    completion.wc.opcode = .write
  received : ∀ completion ∈ completions, completion.origin = .recv → completion.status = 0 →
    completion.wc.opcode = .writeWithImm

/-- Correct calls for a sequence of completions. -/
structure Dispatched (posted : List Nat) (completions : List Completion)
    (effects : List Effect) : Prop where
  /-- The pairs sent are those of the messages, in order. -/
  pairs : effects.filterMap Effect.pair? =
    (completions.filter isMessage).map fun completion => completion.wc.pair
  /-- Flags are reclaimed of requests that were posted and have completed. -/
  owned : ∀ pointer ∈ effects.filterMap Effect.pointer?,
    pointer ∈ posted ∧ pointer ∈ sends completions
  /-- The flag of a send request is reclaimed as often as such a request has completed. -/
  once : ∀ pointer ∈ sends completions,
    (effects.filterMap Effect.pointer?).count pointer = (sends completions).count pointer
  /-- Every receive consumed is replaced. -/
  reposted : effects.count .postNullRecv = completions.countP isRecv

/-- The opcode that `polling` acts on is the one the request would have shown. -/
def Faithful (completion : Completion) : Prop :=
  completion.status ≠ 0 → completion.origin = .send ∧ completion.wc.opcode = .write

instance (completion : Completion) : Decidable completion.Faithful := by
  unfold Faithful
  infer_instance

theorem polling_eq (batches : List (List Completion)) :
    polling (batches.map fun batch => batch.map wc) =
      batches.flatten.flatMap fun completion => completion.wc.dispatch := by
  induction batches with
  | nil => rfl
  | cons batch batches ih =>
      rw [polling] at ih ⊢
      rw [List.map_cons, List.flatMap_cons, ih, List.flatten_cons, List.flatMap_append,
        List.flatMap_map]

theorem dispatch_observed (wc : WC) :
    wc.dispatch.filterMap Effect.pair? = (if wc.isRecv then [wc.pair] else []) ∧
      wc.dispatch.filterMap Effect.pointer? = (if wc.isSend then [wc.wrId] else []) ∧
      wc.dispatch.count .postNullRecv = if wc.isRecv then 1 else 0 := by
  unfold WC.dispatch WC.isRecv WC.isSend
  cases wc.opcode with
  | _ => exact ⟨rfl, rfl, rfl⟩

section

variable (completions : List Completion)

def calls : List Effect := completions.flatMap fun completion => completion.wc.dispatch

/-- What can be read off each dispatch can be read off all of them. -/
theorem calls_filterMap {Observed : Type} {observe : Effect → Option Observed} {acts : WC → Bool}
    {result : WC → Observed}
    (each : ∀ wc : WC, wc.dispatch.filterMap observe = if acts wc then [result wc] else []) :
    (calls completions).filterMap observe =
      (completions.filter fun completion => acts completion.wc).map fun completion =>
        result completion.wc := by
  induction completions with
  | nil => rfl
  | cons completion completions ih =>
      rw [calls] at ih ⊢
      rw [List.flatMap_cons, List.filterMap_append, ih, each, List.filter_cons]
      cases acts completion.wc <;> rfl

theorem calls_pairs : (calls completions).filterMap Effect.pair? =
    (completions.filter fun completion => completion.wc.isRecv).map fun completion =>
      completion.wc.pair :=
  calls_filterMap completions fun wc => (dispatch_observed wc).1

theorem calls_pointers : (calls completions).filterMap Effect.pointer? =
    (completions.filter fun completion => completion.wc.isSend).map fun completion =>
      completion.wc.wrId :=
  calls_filterMap completions fun wc => (dispatch_observed wc).2.1

theorem calls_reposts : (calls completions).count .postNullRecv =
    completions.countP fun completion => completion.wc.isRecv := by
  induction completions with
  | nil => rfl
  | cons completion completions ih =>
      rw [calls] at ih ⊢
      rw [List.flatMap_cons, List.count_append, ih, (dispatch_observed _).2.2, List.countP_cons,
        Nat.add_comm]

end

variable {posted : List Nat} {completions : List Completion}

theorem Contract.sorted (contract : Contract posted completions)
    (faithful : ∀ completion ∈ completions, completion.Faithful) :
    ∀ completion ∈ completions, completion.wc.isRecv = completion.isMessage ∧
      completion.wc.isRecv = completion.isRecv ∧ completion.wc.isSend = completion.isSend := by
  intro completion member
  unfold WC.isRecv WC.isSend isMessage isRecv isSend
  cases origin : completion.origin with
  | send =>
      have opcode : completion.wc.opcode = .write := by
        by_cases ok : completion.status = 0
        · exact contract.sent completion member origin ok
        · exact (faithful completion member ok).2
      rw [opcode]
      exact ⟨rfl, rfl, rfl⟩
  | recv =>
      have ok : completion.status = 0 := by
        by_contra failed
        have sent := (faithful completion member failed).1
        rw [origin] at sent
        cases sent
      rw [contract.received completion member origin ok, ok]
      exact ⟨rfl, rfl, rfl⟩

theorem Contract.dispatched (contract : Contract posted completions)
    (faithful : ∀ completion ∈ completions, completion.Faithful) :
    Dispatched posted completions (calls completions) := by
  have sorted := contract.sorted faithful
  have pointers : (calls completions).filterMap Effect.pointer? = sends completions := by
    rw [calls_pointers, sends]
    congr 1
    exact List.filter_congr fun completion member => (sorted completion member).2.2
  refine ⟨?_, ?_, ?_, ?_⟩
  · rw [calls_pairs]
    congr 1
    exact List.filter_congr fun completion member => (sorted completion member).1
  · intro pointer member
    rw [pointers] at member
    exact ⟨contract.each.subset member, member⟩
  · intro pointer _
    rw [pointers]
  · rw [calls_reposts]
    exact List.countP_congr fun completion member => by rw [(sorted completion member).2.1]

namespace Dispatched

theorem message (contract : Contract posted completions)
    (dispatched : Dispatched posted completions (calls completions)) :
    ∀ completion ∈ completions, completion.wc.isRecv = true → completion.isMessage = true := by
  apply countP_forces
  · intro completion member message
    unfold isMessage at message
    obtain ⟨origin, ok⟩ := Bool.and_eq_true_iff.mp message
    have opcode := contract.received completion member (of_decide_eq_true origin)
      (of_decide_eq_true ok)
    rw [WC.isRecv, opcode]
    rfl
  · have pairs := congrArg List.length dispatched.pairs
    rw [calls_pairs, List.length_map, List.length_map] at pairs
    rw [List.countP_eq_length_filter, List.countP_eq_length_filter]
    exact pairs.symm

theorem received (contract : Contract posted completions)
    (dispatched : Dispatched posted completions (calls completions)) :
    ∀ completion ∈ completions, completion.isRecv = true → completion.isMessage = true := by
  have message := dispatched.message contract
  intro completion member recv
  apply message completion member
  revert completion
  apply countP_forces
  · intro completion member opcode
    have arrived := message completion member opcode
    unfold isMessage at arrived
    exact (Bool.and_eq_true_iff.mp arrived).1
  · rw [← dispatched.reposted, calls_reposts]

theorem reclaimed (contract : Contract posted completions)
    (dispatched : Dispatched posted completions (calls completions)) :
    ∀ completion ∈ completions, completion.isSend = true → completion.wc.isSend = true := by
  intro completion member sent
  have listed : completion.wc.wrId ∈ sends completions :=
    List.mem_map_of_mem (List.mem_filter.mpr ⟨member, sent⟩)
  have once := dispatched.once _ listed
  have pointer : completion.wc.wrId ≠ 0 := fun zero =>
    contract.pointers (zero ▸ contract.each.subset listed)
  rw [calls_pointers, sends, List.count_eq_countP, List.count_eq_countP, List.countP_map,
    List.countP_map, List.countP_filter, List.countP_filter] at once
  -- among the completions with this pointer
  have forced := countP_forces (fun other among shown => by
    obtain ⟨same, opcode⟩ := Bool.and_eq_true_iff.mp shown
    have wrId : other.wc.wrId = completion.wc.wrId := eq_of_beq same
    apply Bool.and_eq_true_iff.mpr ⟨same, ?_⟩
    cases origin : other.origin with
    | send => simp only [isSend, origin, decide_true]
    | recv => exact absurd (wrId ▸ contract.recvs other among origin) pointer) once
    completion member (by simp only [Function.comp_apply, beq_self_eq_true, sent, Bool.and_self])
  exact (Bool.and_eq_true_iff.mp forced).2

end Dispatched

end Completion

/-- Completion dispatch, while the channel's receiver is alive. A receive is replaced by a call
of `post_null_recv`, whether or not the post succeeds. The calls of `polling` are the right
ones exactly if no receive has failed and every failed send shows, by chance, the opcode of a
write. -/
theorem dispatched_iff (posted : List Nat) (batches : List (List Completion))
    (contract : Completion.Contract posted batches.flatten) :
    Completion.Dispatched posted batches.flatten
        (polling (batches.map fun batch => batch.map Completion.wc)) ↔
      ∀ completion ∈ batches.flatten, completion.status ≠ 0 →
        completion.origin = .send ∧ completion.wc.opcode = .write := by
  rw [Completion.polling_eq]
  constructor
  · intro dispatched completion member failed
    have received := Completion.Dispatched.received contract dispatched completion member
    have reclaimed := Completion.Dispatched.reclaimed contract dispatched completion member
    cases origin : completion.origin with
    | send =>
        exact ⟨rfl, of_decide_eq_true (reclaimed (by
          simp only [Completion.isSend, origin, decide_true]))⟩
    | recv =>
        have message := received (by simp only [Completion.isRecv, origin, decide_true])
        exact absurd (of_decide_eq_true (Bool.and_eq_true_iff.mp message).2) failed
  · exact contract.dispatched

namespace Completion

/-- Two posted sends complete and two messages arrive; the second send has failed, and its
opcode happens to be the right one. -/
def sampleBatches : List (List Completion) :=
  [[⟨.send, 0, ⟨0x7f10, 1, 0, 0⟩⟩, ⟨.recv, 0, ⟨0, 129, 5, 0⟩⟩],
    [⟨.recv, 0, ⟨0, 129, 8192, 5⟩⟩, ⟨.send, 12, ⟨0x7f20, 1, 7, 7⟩⟩]]

theorem sampleBatches_contract : Contract [0x7f10, 0x7f20] sampleBatches.flatten where
  each := (List.Sublist.refl _).subperm
  pointers := by decide
  recvs := by decide
  sent := by decide
  received := by decide

theorem dispatched_mixed_batches : Dispatched [0x7f10, 0x7f20] sampleBatches.flatten
    (polling (sampleBatches.map fun batch => batch.map wc)) :=
  (dispatched_iff [0x7f10, 0x7f20] sampleBatches sampleBatches_contract).mpr (by decide)

/-- The queue pair is flushed: a send whose opcode reads 0, a receive whose opcode reads
that of a message, and one whose opcode reads that of a write. -/
def flushed : List Completion :=
  [⟨.send, 5, ⟨0x7f10, 0, 0, 0⟩⟩, ⟨.recv, 5, ⟨0, 129, 7, 9⟩⟩, ⟨.recv, 5, ⟨0, 1, 0, 0⟩⟩]

theorem flushed_contract : Contract [0x7f10] flushed where
  each := (List.Sublist.refl _).subperm
  pointers := by decide
  recvs := by decide
  sent := by decide
  received := by decide

/-- The flag of the send stays set, a message arrives that nobody has sent, the null pointer
is reclaimed as a flag, and one of the two receives is not replaced. -/
theorem misdispatched : Contract [0x7f10] flushed ∧
    polling [flushed.map wc] = [.postNullRecv, .send (7, 9), .fromRaw 0] ∧
    ¬ Dispatched [0x7f10] flushed (polling [flushed.map wc]) := by
  refine ⟨flushed_contract, by decide, fun dispatched => ?_⟩
  have null := (dispatched.owned 0 (by decide)).1
  exact flushed_contract.pointers null

end Completion

end Ibv
