import Mathlib.Data.Multiset.AddSub
import Mathlib.Tactic.Abel
import Ibv.Progress

set_option autoImplicit false

namespace Duplex

/-- `pending` are the calls that have not returned, in no order. `queue` has been sent and
not been taken yet, `hand` is taken from the other party and not passed on yet. `ahead`
counts the messages sent less those taken. -/
@[ext] structure Post (Item : Type) where
  pending : Multiset Item
  queue : List Item
  hand : Option Item
  ahead : Int

inductive Label (Party Item : Type) where
  | call (party : Party) (item : Item)
  | send (party : Party) (item : Item)
  | take (party : Party)
  | receive (party : Party)

inductive Event (Party Item : Type) where
  | called (party : Party) (item : Item)
  | sent (party : Party) (item : Item)
  | received (party : Party) (item : Item)

variable {Party Item : Type} [DecidableEq Party]

namespace Event

def calledBy (party : Party) : Event Party Item → Option Item
  | called chosen item => if chosen = party then some item else none
  | _ => none

def sentBy (party : Party) : Event Party Item → Option Item
  | sent chosen item => if chosen = party then some item else none
  | _ => none

def receivedBy (party : Party) : Event Party Item → Option Item
  | received chosen item => if chosen = party then some item else none
  | _ => none

end Event

def calls (party : Party) (seen : List (Event Party Item)) : List Item :=
  seen.filterMap (Event.calledBy party)

def sends (party : Party) (seen : List (Event Party Item)) : List Item :=
  seen.filterMap (Event.sentBy party)

def receipts (party : Party) (seen : List (Event Party Item)) : List Item :=
  seen.filterMap (Event.receivedBy party)

section Traces

variable (party chosen : Party) (seen more : List (Event Party Item)) (item : Item)

@[simp] theorem calls_append : calls party (seen ++ more) = calls party seen ++ calls party more :=
  List.filterMap_append

@[simp] theorem sends_append : sends party (seen ++ more) = sends party seen ++ sends party more :=
  List.filterMap_append

@[simp] theorem receipts_append :
    receipts party (seen ++ more) = receipts party seen ++ receipts party more :=
  List.filterMap_append

@[simp] theorem calls_nil : calls party ([] : List (Event Party Item)) = [] := rfl

@[simp] theorem sends_nil : sends party ([] : List (Event Party Item)) = [] := rfl

@[simp] theorem receipts_nil : receipts party ([] : List (Event Party Item)) = [] := rfl

@[simp] theorem calls_called :
    calls party [.called chosen item] = if chosen = party then [item] else [] := by
  by_cases same : chosen = party <;> simp [calls, Event.calledBy, same]

@[simp] theorem calls_sent : calls party [.sent chosen item] = [] := rfl

@[simp] theorem calls_received : calls party [.received chosen item] = [] := rfl

@[simp] theorem sends_called : sends party [.called chosen item] = [] := rfl

@[simp] theorem sends_sent :
    sends party [.sent chosen item] = if chosen = party then [item] else [] := by
  by_cases same : chosen = party <;> simp [sends, Event.sentBy, same]

@[simp] theorem sends_received : sends party [.received chosen item] = [] := rfl

@[simp] theorem receipts_called : receipts party [.called chosen item] = [] := rfl

@[simp] theorem receipts_sent : receipts party [.sent chosen item] = [] := rfl

@[simp] theorem receipts_received :
    receipts party [.received chosen item] = if chosen = party then [item] else [] := by
  by_cases same : chosen = party <;> simp [receipts, Event.receivedBy, same]

end Traces

def see (posts : Party → Post Item) : Label Party Item → List (Event Party Item)
  | .call party item => [.called party item]
  | .send party item => [.sent party item]
  | .take _ => []
  | .receive party => (posts party).hand.toList.map (.received party)

def idle : Party → Post Item := fun _ => ⟨0, [], none, 0⟩

variable [DecidableEq Item]

/-- A call is sent when its party may be one more ahead, whichever was made first. What is
taken from the queue of the other party is received before more is taken. -/
def step (other : Party → Party) (limit : Int) (posts : Party → Post Item) :
    Label Party Item → Option (Party → Post Item)
  | .call party item =>
      some (Function.update posts party
        { posts party with pending := item ::ₘ (posts party).pending })
  | .send party item =>
      if item ∈ (posts party).pending ∧ (posts party).ahead < limit then
        some (Function.update posts party
          { posts party with
            pending := (posts party).pending.erase item
            queue := (posts party).queue ++ [item]
            ahead := (posts party).ahead + 1 })
      else none
  | .take party =>
      match (posts party).hand, (posts (other party)).queue with
      | none, item :: rest =>
          some (Function.update
            (Function.update posts (other party) { posts (other party) with queue := rest })
            party { posts party with hand := some item, ahead := (posts party).ahead - 1 })
      | _, _ => none
  | .receive party =>
      match (posts party).hand with
      | some _ => some (Function.update posts party { posts party with hand := none })
      | none => none

section Runs

variable {other : Party → Party} {limit : Int} {posts after : Party → Post Item}
  {seen : List (Event Party Item)}

theorem step_send {party : Party} {item : Item}
    (taken : step other limit posts (.send party item) = some after) :
    (item ∈ (posts party).pending ∧ (posts party).ahead < limit) ∧
      after = Function.update posts party
        { posts party with
          pending := (posts party).pending.erase item
          queue := (posts party).queue ++ [item]
          ahead := (posts party).ahead + 1 } := by
  rw [step] at taken
  split at taken
  · rename_i allowed
    exact ⟨allowed, (Option.some.inj taken).symm⟩
  · cases taken

theorem step_take {party : Party} (taken : step other limit posts (.take party) = some after) :
    ∃ item rest, (posts party).hand = none ∧ (posts (other party)).queue = item :: rest ∧
      after = Function.update
        (Function.update posts (other party) { posts (other party) with queue := rest })
        party { posts party with hand := some item, ahead := (posts party).ahead - 1 } := by
  rw [step] at taken
  split at taken
  · rename_i item rest free first
    exact ⟨item, rest, free, first, (Option.some.inj taken).symm⟩
  · cases taken

theorem step_receive {party : Party}
    (taken : step other limit posts (.receive party) = some after) :
    ∃ item, (posts party).hand = some item ∧
      after = Function.update posts party { posts party with hand := none } := by
  rw [step] at taken
  split at taken
  · rename_i item held
    exact ⟨item, held, (Option.some.inj taken).symm⟩
  · cases taken

/-- What ties the state to the events so far. -/
structure Kept (other : Party → Party) (limit : Int) (seen : List (Event Party Item))
    (posts : Party → Post Item) (party : Party) : Prop where
  fifo : sends party seen =
    receipts (other party) seen ++ (posts (other party)).hand.toList ++ (posts party).queue
  called : (calls party seen : Multiset Item) = sends party seen + (posts party).pending
  ahead : (posts party).ahead = (sends party seen).length - (receipts party seen).length -
    (posts party).hand.toList.length
  limited : (posts party).ahead ≤ limit

omit [DecidableEq Item] in
theorem idle_kept (positive : 0 ≤ limit) (party : Party) :
    Kept other limit [] (idle : Party → Post Item) party :=
  ⟨rfl, rfl, rfl, positive⟩

omit [DecidableEq Item] in
theorem call_kept (chosen : Party) (item : Item) {party : Party}
    (kept : Kept other limit seen posts party) :
    Kept other limit (seen ++ [.called chosen item])
      (Function.update posts chosen
        { posts chosen with pending := item ::ₘ (posts chosen).pending }) party := by
  have hand (other : Party) : (Function.update posts chosen
      { posts chosen with pending := item ::ₘ (posts chosen).pending } other).hand =
      (posts other).hand := by
    by_cases same : other = chosen <;> simp [same]
  refine ⟨?_, ?_, ?_, ?_⟩
  · have fifo := kept.fifo
    by_cases same : party = chosen
    · subst same
      simpa [hand] using fifo
    · simpa [hand, same] using fifo
  · have called := kept.called
    by_cases same : chosen = party
    · subst same
      simp only [calls_append, sends_append, calls_called, sends_called, ↓reduceIte,
        List.append_nil, Function.update_self, ← Multiset.coe_add, called, Multiset.add_cons,
        Multiset.coe_singleton, Multiset.add_comm _ {item}, Multiset.singleton_add]
    · simpa [same, Ne.symm same] using called
  · have ahead := kept.ahead
    by_cases same : party = chosen
    · subst same
      simpa using ahead
    · simpa [same] using ahead
  · have limited := kept.limited
    by_cases same : party = chosen
    · subst same
      simpa using limited
    · simpa [same] using limited

theorem send_kept (chosen : Party) (item : Item) {party : Party}
    (kept : Kept other limit seen posts party) (member : item ∈ (posts chosen).pending)
    (below : (posts chosen).ahead < limit) :
    Kept other limit (seen ++ [.sent chosen item])
      (Function.update posts chosen
        { posts chosen with
          pending := (posts chosen).pending.erase item
          queue := (posts chosen).queue ++ [item]
          ahead := (posts chosen).ahead + 1 }) party := by
  have hand (other : Party) : (Function.update posts chosen
      { posts chosen with
        pending := (posts chosen).pending.erase item
        queue := (posts chosen).queue ++ [item]
        ahead := (posts chosen).ahead + 1 } other).hand = (posts other).hand := by
    by_cases same : other = chosen <;> simp [same]
  refine ⟨?_, ?_, ?_, ?_⟩
  · have fifo := kept.fifo
    by_cases same : party = chosen
    · subst same
      simp [hand, fifo]
    · simpa [hand, same, Ne.symm same] using fifo
  · have called := kept.called
    by_cases same : chosen = party
    · subst same
      simp only [calls_append, sends_append, calls_sent, sends_sent, ↓reduceIte,
        List.append_nil, Function.update_self, ← Multiset.coe_add, called, Multiset.coe_singleton,
        Multiset.add_assoc, Multiset.singleton_add, Multiset.cons_erase member]
    · simpa [same, Ne.symm same] using called
  · have ahead := kept.ahead
    by_cases same : party = chosen
    · subst same
      simp [ahead]
      omega
    · simpa [same, Ne.symm same] using ahead
  · have limited := kept.limited
    by_cases same : party = chosen
    · subst same
      rw [Function.update_self]
      exact below
    · simpa [same] using limited

omit [DecidableEq Item] in
theorem Kept.received {party : Party} (kept : Kept other limit seen posts party) :
    receipts (other party) seen <+: sends party seen := by
  rw [kept.fifo, List.append_assoc]
  exact List.prefix_append _ _

omit [DecidableEq Item] in
theorem Kept.sent {party : Party} (kept : Kept other limit seen posts party) :
    (sends party seen : Multiset Item) ≤ calls party seen := by
  rw [kept.called]
  exact Multiset.le_add_right _ _

omit [DecidableEq Item] in
/-- The user of a party is ahead by the limit, and by the message in hand. -/
theorem Kept.window {party : Party} (kept : Kept other limit seen posts party) :
    (sends party seen).length ≤ (receipts party seen).length + limit + 1 := by
  have ahead := kept.ahead
  have limited := kept.limited
  have hand : (posts party).hand.toList.length ≤ 1 := by
    cases (posts party).hand with
    | none => exact Nat.zero_le _
    | some item => exact Nat.le_refl _
  omega

section Parties

variable (distinct : ∀ party, other party ≠ party)

include distinct

omit [DecidableEq Item] in
theorem receive_kept (chosen : Party) {item : Item} {party : Party}
    (kept : Kept other limit seen posts party) (taken : (posts chosen).hand = some item) :
    Kept other limit (seen ++ [.received chosen item])
      (Function.update posts chosen { posts chosen with hand := none }) party := by
  have apart := distinct chosen
  have fifo := kept.fifo
  have called := kept.called
  have ahead := kept.ahead
  have limited := kept.limited
  by_cases own : party = chosen
  · subst own
    refine ⟨?_, ?_, ?_, ?_⟩
    · simpa [apart, Ne.symm apart] using fifo
    · simpa using called
    · simp [taken] at ahead ⊢
      omega
    · simpa using limited
  · refine ⟨?_, ?_, ?_, ?_⟩
    · by_cases peer : other party = chosen
      · rw [peer, taken] at fifo
        simpa [own, peer] using fifo
      · simpa [own, peer, Ne.symm peer] using fifo
    · simpa [own] using called
    · simpa [own, Ne.symm own] using ahead
    · simpa [own] using limited

variable (involutive : ∀ party, other (other party) = party)

include involutive

omit [DecidableEq Item] in
theorem take_kept (chosen : Party) {item : Item} {rest : List Item} {party : Party}
    (kept : Kept other limit seen posts party) (free : (posts chosen).hand = none)
    (first : (posts (other chosen)).queue = item :: rest) :
    Kept other limit seen
      (Function.update
        (Function.update posts (other chosen) { posts (other chosen) with queue := rest })
        chosen { posts chosen with hand := some item, ahead := (posts chosen).ahead - 1 })
      party := by
  have apart := distinct chosen
  have fifo := kept.fifo
  have called := kept.called
  have ahead := kept.ahead
  have limited := kept.limited
  by_cases own : party = chosen
  · subst own
    refine ⟨?_, ?_, ?_, ?_⟩
    · simpa [apart, Ne.symm apart] using fifo
    · simpa using called
    · simp [free] at ahead ⊢
      omega
    · simp
      omega
  by_cases peer : party = other chosen
  · subst peer
    rw [involutive, free, first] at fifo
    refine ⟨?_, ?_, ?_, ?_⟩
    · simpa [involutive, apart] using fifo
    · simpa [apart] using called
    · simpa [apart] using ahead
    · simpa [apart] using limited
  · have others : other party ≠ chosen := by
      intro same
      rw [← same, involutive] at peer
      exact peer rfl
    have others' : other party ≠ other chosen := by
      intro same
      have back := congrArg other same
      rw [involutive, involutive] at back
      exact own back
    refine ⟨?_, ?_, ?_, ?_⟩
    · simpa [own, peer, others, others'] using fifo
    · simpa [own, peer] using called
    · simpa [own, peer] using ahead
    · simpa [own, peer] using limited

theorem step_kept (label : Label Party Item) (party : Party)
    (kept : Kept other limit seen posts party)
    (taken : step other limit posts label = some after) :
    Kept other limit (seen ++ see posts label) after party := by
  cases label with
  | call chosen item =>
      cases taken
      exact call_kept chosen item kept
  | send chosen item =>
      obtain ⟨⟨member, below⟩, rfl⟩ := step_send taken
      exact send_kept chosen item kept member below
  | take chosen =>
      obtain ⟨item, rest, free, first, rfl⟩ := step_take taken
      rw [see, List.append_nil]
      exact take_kept distinct involutive chosen kept free first
  | receive chosen =>
      obtain ⟨item, held, rfl⟩ := step_receive taken
      rw [see, held]
      exact receive_kept distinct chosen kept held

theorem run_kept (positive : 0 ≤ limit)
    (run : Runs.Observed (step other limit) Runs.Any see idle seen posts) (party : Party) :
    Kept other limit seen posts party := by
  refine run.invariant (fun seen posts => Kept other limit seen posts party)
    (idle_kept positive party) ?_
  intro seen before label after _ kept _ taken
  exact step_kept distinct involutive label party kept taken

end Parties

end Runs

end Duplex
