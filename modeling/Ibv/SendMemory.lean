import Ibv.Outgoing
import Ibv.Race

set_option autoImplicit false

namespace Ibv

open RingFifo

/-- What the run of a connection is assumed to be: messages whose length fits in a u32,
posts that succeed, and wait conditions evaluated on one reading of `done`. -/
def Endpoint.Assumed (endpoint : Endpoint) : Endpoint.Action → Prop
  | .call msg => msg.totalLen < 2 ^ 32
  | .localSecond => ∀ msg first, endpoint.allocating = some (msg, .tested first) →
      endpoint.sendRing.buffer.done = first
  | .remoteSecond => ∀ msg buf wrId imm first,
      endpoint.lock = some ⟨msg, buf, wrId, .placing imm (.tested first)⟩ →
      endpoint.allocator.done = first
  | .postFail _ => False
  | _ => True

/-- The slices before `rest` are in place. -/
structure Copying.Stored (copying : Copying) (memory : Nat → UInt8) : Prop where
  sized : copying.buf.length = copying.msg.totalLen
  front : ∃ front, copying.msg.bytes = front ++ copying.rest.bytes ∧
    copying.addr = copying.buf.addr + front.length ∧
    ByteMemory.read memory copying.buf.addr front.length = front

def Job.Stored (job : Job) (memory : Nat → UInt8) : Prop :=
  ByteMemory.read memory job.buf.addr job.buf.length = job.msg.bytes

theorem Job.Stored.sized {job : Job} {memory : Nat → UInt8} (stored : job.Stored memory) :
    job.buf.length = job.msg.totalLen := by
  have length := congrArg List.length stored
  rw [ByteMemory.read_length, Msg.bytes_length] at length
  exact length

namespace Outgoing

def race (out : Outgoing) : LocalRace :=
  ⟨out.ring, out.allocating.map fun waiting => (waiting.1.wireLen, waiting.2), none⟩

/-- The local ring never grants a region twice, and each message is where its call or its
request says until it has been read. -/
structure Intact (out : Outgoing) : Prop where
  acked : out.acked ≤ out.posted.length
  calls : ∀ msg ∈ out.calls, msg.totalLen < 2 ^ 32
  small : ∀ msg loop, out.allocating = some (msg, loop) → msg.totalLen < 2 ^ 32
  sound : out.race.Sound
  tested : ∀ msg first, out.allocating = some (msg, .tested first) →
    out.ring.buffer.right < out.ring.buffer.index + msg.wireLen →
    out.ring.buffer.left + msg.wireLen < first
  copying : ∀ (i : Nat) (copying : Copying), out.copying[i]? = some copying →
    copying.Stored out.memory
  holder : ∀ job, out.holder = some job → job.Stored out.memory
  unread : ∀ i request, out.posted[i]? = some request → out.fetched i = none →
    request.job.Stored out.memory
  read : ∀ i data, out.fetched i = some data → ∃ request, out.posted[i]? = some request ∧
    data = request.msg.bytes ∧ request.localBuf.length = request.msg.totalLen
  finished : ∀ i, i < out.acked → (out.fetched i).isSome = true

variable {out after : Outgoing}

theorem Tickets.copying_ne {i k : Nat} {first second : Copying} (tickets : Tickets out)
    (entry : out.copying[i]? = some first) (entry' : out.copying[k]? = some second)
    (other : i ≠ k) : first.wrId ≠ second.wrId := by
  have once := tickets.once
  unfold jobs unposted at once
  simp only [List.map_append] at once
  have once := (List.nodup_append.mp (List.nodup_append.mp (List.nodup_append.mp once).1).2.1).1
  intro clash
  apply other
  apply (List.getElem?_inj ?_ once).mp
  · rw [List.getElem?_map, List.getElem?_map, List.getElem?_map, List.getElem?_map, entry, entry']
    exact congrArg some clash
  · rw [List.length_map, List.length_map]
    exact (List.getElem?_eq_some_iff.mp entry).1

theorem Tickets.copying_ne_holder {copying : Copying} {job : Job} (tickets : Tickets out)
    (member : copying ∈ out.copying) (holder : out.holder = some job) :
    copying.wrId ≠ job.wrId := by
  have once := tickets.once
  unfold jobs unposted at once
  simp only [List.map_append] at once
  have once := (List.nodup_append.mp (List.nodup_append.mp (List.nodup_append.mp once).1).2.1).2.2
  apply once
  · exact List.mem_map_of_mem (List.mem_map_of_mem member)
  · rw [holder]
    exact List.mem_singleton.mpr rfl

theorem Tickets.copying_ne_posted {copying : Copying} {request : Request} (tickets : Tickets out)
    (member : copying ∈ out.copying) (posted : request ∈ out.posted) :
    copying.wrId ≠ request.wrId := by
  have once := tickets.once
  unfold jobs at once
  rw [List.map_append] at once
  have own : copying.job ∈ out.unposted :=
    List.mem_append_right _ (List.mem_append_left _ (List.mem_map_of_mem member))
  exact (List.nodup_append.mp once).2.2 _ (List.mem_map_of_mem own) _
    (List.mem_map_of_mem (List.mem_map_of_mem posted))

/-- Two unfinished messages have regions apart from each other. -/
theorem Tickets.regions_apart {first second : Job} (tickets : Tickets out)
    (accounts : out.ring.Accounts) (one : first ∈ out.unfinished) (two : second ∈ out.unfinished)
    (other : first.wrId ≠ second.wrId) : first.buf.region.Apart second.buf.region := by
  have entry : ∀ job ∈ out.unfinished, out.ring.retired ≤ job.wrId ∧
      ((out.ring.granted.drop out.ring.retired).map LocalBuf.region)[job.wrId -
        out.ring.retired]? = some job.buf.region := by
    intro job member
    have queued := (tickets.kept job member).2
    rw [accounts.ids, List.mem_range'_1] at queued
    refine ⟨queued.1, ?_⟩
    rw [List.getElem?_map, List.getElem?_drop, Nat.add_sub_cancel' queued.1,
      (tickets.bought job (mem_jobs_of_unfinished member)).1]
    rfl
  obtain ⟨late, entry₁⟩ := entry first one
  obtain ⟨late', entry₂⟩ := entry second two
  exact Region.apart_of_pairwise accounts.apart entry₁ entry₂ (by omega)

theorem copying_unfinished {i : Nat} {copying : Copying}
    (entry : out.copying[i]? = some copying) : copying.job ∈ out.unfinished := by
  apply List.mem_append_left
  apply List.mem_append_right
  apply List.mem_append_left
  exact List.mem_map_of_mem (List.mem_of_getElem? entry)

theorem holder_unfinished {job : Job} (holder : out.holder = some job) :
    job ∈ out.unfinished := by
  apply List.mem_append_left
  apply List.mem_append_right
  apply List.mem_append_right
  rw [holder]
  exact List.mem_singleton.mpr rfl

/-- A request whose bytes have not been read is not completed. -/
theorem Intact.unread_unfinished {i : Nat} {request : Request} (intact : Intact out)
    (entry : out.posted[i]? = some request) (unread : out.fetched i = none) :
    request.job ∈ out.unfinished := by
  apply List.mem_append_right
  apply List.mem_map_of_mem
  have late : out.acked ≤ i := by
    apply Nat.le_of_not_lt
    intro early
    have finished := intact.finished i early
    rw [unread] at finished
    cases finished
  apply List.mem_of_getElem? (i := i - out.acked)
  rw [List.getElem?_drop, Nat.add_sub_cancel' late]
  exact entry

/-- A copied slice stays inside its own region, where it extends what was copied before. -/
theorem Intact.copy {i : Nat} {msg : Msg} {buf : LocalBuf} {wrId : Nat} {slice : IoSlice}
    {rest : Msg} {addr : Nat} (intact : Intact out) (tickets : Tickets out)
    (entry : out.copying[i]? = some ⟨msg, buf, wrId, slice :: rest, addr⟩) :
    Intact { out with
      copying := out.copying.set i ⟨msg, buf, wrId, rest, addr + slice.len⟩
      memory := ByteMemory.write out.memory addr slice.bytes } := by
  obtain ⟨sized, front, whole, start, stored⟩ := intact.copying i _ entry
  dsimp only at sized whole start stored
  have total := congrArg List.length whole
  rw [Msg.bytes_length, List.length_append, Msg.bytes_cons, List.length_append,
    IoSlice.bytes_length] at total
  have within : Region.Within ⟨addr, slice.bytes.length⟩ buf.region.start
      (buf.region.start + buf.region.length) := by
    unfold Region.Within LocalBuf.region
    dsimp only
    rw [IoSlice.bytes_length]
    omega
  have kept : ∀ job ∈ out.unfinished, wrId ≠ job.wrId → ∀ length, length ≤ job.buf.length →
      ByteMemory.read (ByteMemory.write out.memory addr slice.bytes) job.buf.addr length =
        ByteMemory.read out.memory job.buf.addr length := by
    intro job member other length short
    apply ByteMemory.read_write_apart
    have apart := tickets.regions_apart intact.sound.accounts (copying_unfinished entry) member other
    refine (apart.part within).symm.part ⟨Nat.le_refl _, ?_⟩
    exact Nat.add_le_add_left short _
  refine
    { acked := intact.acked
      calls := intact.calls
      small := intact.small
      sound := intact.sound
      tested := intact.tested
      copying := ?_
      holder := ?_
      unread := ?_
      read := intact.read
      finished := intact.finished }
  · intro k copying entry'
    dsimp only at entry' ⊢
    by_cases same : i = k
    · subst same
      rw [List.getElem?_set_self (List.getElem?_eq_some_iff.mp entry).1] at entry'
      cases entry'
      refine ⟨sized, front ++ slice.bytes, ?_, ?_, ?_⟩
      · rw [whole, Msg.bytes_cons, List.append_assoc]
      · dsimp only
        rw [List.length_append, IoSlice.bytes_length, start, Nat.add_assoc]
      · rw [start]
        exact ByteMemory.read_write_behind _ _ _ _ stored
    · rw [List.getElem?_set_ne same] at entry'
      obtain ⟨sized', front', whole', start', stored'⟩ := intact.copying k copying entry'
      refine ⟨sized', front', whole', start', ?_⟩
      refine (kept copying.job (copying_unfinished entry') ?_ _ ?_).trans stored'
      · exact tickets.copying_ne entry entry' same
      · have total' := congrArg List.length whole'
        rw [Msg.bytes_length, List.length_append] at total'
        change front'.length ≤ copying.buf.length
        omega
  · intro job holder
    refine (kept job (holder_unfinished holder) ?_ _ (Nat.le_refl _)).trans
      (intact.holder job holder)
    exact tickets.copying_ne_holder (List.mem_of_getElem? entry) holder
  · intro k request entry' unread
    refine (kept request.job (intact.unread_unfinished entry' unread) ?_ _ (Nat.le_refl _)).trans
      (intact.unread k request entry' unread)
    exact tickets.copying_ne_posted (List.mem_of_getElem? entry) (List.mem_of_getElem? entry')

theorem Intact.load {msg : Msg} {loop : Loop} (intact : Intact out) (small : msg.totalLen < 2 ^ 32)
    (room : loop = .exited → out.ring.addresses.Admits out.ring.buffer.done out.ring.buffer.index
      msg.wireLen)
    (tested : ∀ first, loop = .tested first →
      out.ring.buffer.right < out.ring.buffer.index + msg.wireLen →
      out.ring.buffer.left + msg.wireLen < first) :
    Intact { out with allocating := some (msg, loop) } :=
  { intact with
    small := by
      intro msg' loop' same
      cases same
      exact small
    sound := intact.sound.load room
    tested := by
      intro msg' first same
      cases same
      exact tested first rfl }

theorem Intact.alloc {msg : Msg} {copying : Copying} (intact : Intact out)
    (exited : out.allocating = some (msg, .exited))
    (same : copying = ⟨msg, (out.ring.buffer.take msg.wireLen).2.1, out.ring.buffer.fresh, msg,
      (out.ring.buffer.take msg.wireLen).2.1.addr⟩) :
    Intact { out with
      allocating := none
      copying := out.copying ++ [copying]
      ring := out.ring.take msg.wireLen } := by
  have taken : out.race.step .take =
      some { out.race with ring := out.race.ring.take msg.wireLen, waiting := none } := by
    simp only [LocalRace.step, race, exited, Option.map_some]
  refine { intact with
    small := ?_
    sound := LocalRace.step_sound .take intact.sound trivial taken
    tested := ?_
    copying := ?_ }
  · intro msg' loop waiting
    cases waiting
  · intro msg' first waiting
    cases waiting
  · intro i copying' entry
    dsimp only at entry
    rw [List.getElem?_append] at entry
    split at entry
    · exact intact.copying i copying' entry
    · rw [List.getElem?_singleton] at entry
      split at entry
      · cases entry
        subst same
        refine ⟨?_, [], rfl, rfl, rfl⟩
        rw [SendBuffer.take_eq]
        exact Msg.wireLen_eq (intact.small msg _ exited)
      · cases entry

theorem Intact.takeLock {i : Nat} {msg : Msg} {buf : LocalBuf} {wrId addr : Nat}
    (intact : Intact out) (entry : out.copying[i]? = some ⟨msg, buf, wrId, [], addr⟩) :
    Intact { out with
      copying := out.copying.eraseIdx i
      holder := some ⟨msg, buf, wrId⟩ } := by
  refine { intact with copying := ?_, holder := ?_ }
  · intro k copying entry'
    dsimp only at entry'
    rw [List.getElem?_eraseIdx] at entry'
    split at entry'
    · exact intact.copying _ copying entry'
    · exact intact.copying _ copying entry'
  · intro job same
    cases same
    obtain ⟨sized, front, whole, -, stored⟩ := intact.copying i _ entry
    rw [Msg.bytes_nil, List.append_nil] at whole
    dsimp only at sized whole stored
    rw [← whole, Msg.bytes_length] at stored
    unfold Job.Stored
    dsimp only
    rw [sized]
    exact stored

theorem Intact.post {request : Request} (intact : Intact out)
    (holder : out.holder = some request.job) :
    Intact { out with
      holder := none
      posted := out.posted ++ [request] } := by
  have acked := intact.acked
  refine { intact with acked := ?_, holder := ?_, unread := ?_, read := ?_ }
  · dsimp only
    rw [List.length_append]
    exact Nat.le_add_right_of_le acked
  · intro job same
    cases same
  · intro i request' entry unread
    dsimp only at entry
    rw [List.getElem?_append] at entry
    split at entry
    · exact intact.unread i request' entry unread
    · rw [List.getElem?_singleton] at entry
      split at entry
      · cases entry
        exact intact.holder _ holder
      · cases entry
  · intro i data fetched
    obtain ⟨request', entry, facts⟩ := intact.read i data fetched
    exact ⟨request', (List.getElem?_append_left (List.getElem?_eq_some_iff.mp entry).1).trans entry,
      facts⟩

/-- The queue pair reads the message itself. -/
theorem Intact.fetch {i : Nat} {request : Request} (intact : Intact out)
    (entry : out.posted[i]? = some request) (fresh : out.fetched i = none) :
    Intact { out with
      fetched := Function.update out.fetched i
        (some (ByteMemory.read out.memory request.localBuf.addr request.localBuf.length)) } := by
  have stored := intact.unread i request entry fresh
  refine { intact with unread := ?_, read := ?_, finished := ?_ }
  · intro k request' entry' unread
    dsimp only at unread
    by_cases same : k = i
    · rw [same, Function.update_self] at unread
      cases unread
    · rw [Function.update_of_ne same] at unread
      exact intact.unread k request' entry' unread
  · intro k data fetched
    dsimp only at fetched
    by_cases same : k = i
    · rw [same, Function.update_self] at fetched
      cases fetched
      exact ⟨request, same ▸ entry, stored, stored.sized⟩
    · rw [Function.update_of_ne same] at fetched
      exact intact.read k data fetched
  · intro k early
    dsimp only
    by_cases same : k = i
    · rw [same, Function.update_self]
      rfl
    · rw [Function.update_of_ne same]
      exact intact.finished k early

theorem Intact.ack {data : List UInt8} {completions : List WC} (intact : Intact out)
    (below : out.acked < out.posted.length) (fetched : out.fetched out.acked = some data) :
    Intact { out with
      acked := out.acked + 1
      completions := completions } := by
  refine { intact with acked := below, finished := ?_ }
  intro i early
  dsimp only at early ⊢
  rcases Nat.lt_succ_iff_lt_or_eq.mp early with before | same
  · exact intact.finished i before
  · rw [same, fetched]
    rfl

theorem Intact.retire {ring : LocalRing} {completions : List WC} (intact : Intact out)
    (sound : ({ out with ring := ring } : Outgoing).race.Sound)
    (same : ring.addresses = out.ring.addresses) (index : ring.buffer.index = out.ring.buffer.index) :
    Intact { out with
      completions := completions
      ring := ring } := by
  have left : ring.buffer.left = out.ring.buffer.left := congrArg Ring.left same
  have right : ring.buffer.right = out.ring.buffer.right := congrArg Ring.right same
  refine { intact with sound := sound, tested := ?_ }
  intro msg first waiting
  dsimp only
  rw [left, right, index]
  exact intact.tested msg first waiting

end Outgoing

namespace Endpoint

open Outgoing (Tickets Intact)

variable {endpoint after : Endpoint}

theorem step_intact (action : Action) {orphans : List Job}
    (intact : Intact (endpoint.outgoing orphans)) (tickets : Tickets (endpoint.outgoing orphans))
    (assumed : endpoint.Assumed action) (taken : endpoint.step action = some after) :
    Intact (after.outgoing orphans) := by
  cases sends : action.sends with
  | false =>
      rw [step_not_sends action sends orphans taken]
      exact intact
  | true =>
      cases action with
      | call msg =>
          cases taken
          refine { intact with calls := ?_ }
          intro msg' member
          rcases List.mem_append.mp member with old | new
          · exact intact.calls msg' old
          · rw [List.mem_singleton.mp new]
            exact assumed
      | lockIndex i =>
          obtain ⟨msg, -, entry, rfl⟩ := lockIndex_cases taken
          have member := List.mem_of_getElem? entry
          have waiting : Intact { endpoint.outgoing orphans with allocating := some (msg, .head) } :=
            intact.load (intact.calls msg member) (fun same => nomatch same)
              (fun first same => nomatch same)
          refine { waiting with calls := ?_ }
          intro msg' member'
          exact intact.calls msg' (List.mem_of_mem_eraseIdx member')
      | localFirst =>
          obtain ⟨msg, waiting, rfl⟩ := localFirst_cases taken
          refine intact.load (intact.small msg _ waiting) ?_ ?_
          · exact Cursors.firstLoad_exits _ _
          · exact fun first tested wraps => Cursors.firstLoad_tested _ _ tested wraps
      | localSecond =>
          obtain ⟨msg, first, waiting, rfl⟩ := localSecond_cases taken
          refine intact.load (intact.small msg _ waiting) ?_ ?_
          · intro exits
            refine Cursors.secondLoad_exits _ _ exits fun wraps => ?_
            have room := intact.tested msg first waiting wraps
            rw [← assumed msg first waiting] at room
            exact room
          · exact fun first' tested => absurd tested (Cursors.secondLoad_decides _ first')
      | allocLocal =>
          obtain ⟨msg, waiting, -, rfl⟩ := allocLocal_cases taken
          refine intact.alloc waiting ?_
          rw [SendBuffer.take_eq]
          rfl
      | copy i =>
          obtain ⟨msg, buf, wrId, slice, rest, addr, entry, rfl⟩ := copy_cases taken
          exact intact.copy tickets entry
      | takeLock i =>
          obtain ⟨msg, buf, wrId, addr, -, entry, rfl⟩ := takeLock_cases taken
          exact intact.takeLock entry
      | post =>
          obtain ⟨msg, buf, wrId, imm, remote, holder, -, rfl⟩ := post_cases taken
          exact intact.post (Option.map_eq_some_iff.mpr ⟨_, holder, rfl⟩)
      | postFail errno => exact absurd assumed not_false
      | fetch i =>
          obtain ⟨request, entry, fresh, rfl⟩ := fetch_cases taken
          exact intact.fetch entry fresh
      | ack =>
          obtain ⟨request, data, entry, fetched, rfl⟩ := ack_cases taken
          exact intact.ack (List.getElem?_eq_some_iff.mp entry).1 fetched
      | dispatch =>
          obtain ⟨wc, rest, -, -, branches⟩ := dispatch_cases taken
          rcases branches with ⟨-, rfl⟩ | ⟨-, rfl⟩ | ⟨-, -, rfl⟩
          · unfold postNullRecv
            split <;> exact { intact with }
          · exact intact.retire (LocalRace.step_sound (.clear wc.wrId) intact.sound trivial rfl)
              rfl rfl
          · exact { intact with }
      | popRelease =>
          obtain ⟨buffer, popped, rfl⟩ := popRelease_cases taken
          have sound : ({ endpoint.outgoing orphans with
              ring := { endpoint.sendRing with buffer := buffer } } : Outgoing).race.Sound :=
            LocalRace.step_sound .popRelease intact.sound trivial
              (Option.map_eq_some_iff.mpr ⟨buffer, popped, rfl⟩)
          obtain ⟨pair, rest, -, -, rfl⟩ := SendBuffer.popRelease_cases popped
          exact intact.retire sound rfl rfl
      | releaseDone =>
          obtain ⟨buffer, done, rfl⟩ := releaseDone_cases taken
          have sound := intact.sound.releaseDone done
          obtain ⟨wrId, length, -, -, rfl⟩ := SendBuffer.releaseDone_cases done
          exact intact.retire sound rfl rfl
      | _ => cases sends

theorem new_intact (recvMr sendMr : MR) (remoteMr : RemoteMR) :
    Intact ((new recvMr sendMr remoteMr).outgoing []) where
  acked := Nat.le_refl _
  calls := by
    intro msg member
    cases member
  small := by
    intro msg loop waiting
    cases waiting
  sound := LocalRace.new_sound sendMr
  tested := by
    intro msg first waiting
    cases waiting
  copying := by
    intro i copying entry
    cases entry
  holder := by
    intro job holder
    cases holder
  unread := by
    intro i request entry
    cases entry
  read := by
    intro i data fetched
    cases fetched
  finished := by
    intro i early
    exact absurd early (Nat.not_lt_zero i)

end Endpoint

end Ibv
