import Ibv.Race
import Ibv.RemoteRing

set_option autoImplicit false

namespace Ibv

open RingFifo
open Direction (sampleMr)

namespace Race

/-- Exclusivity under the two loads, as long as `done` does not wrap between those that let
the wrap branch out of its wait. -/
theorem race_exclusive (remoteMr localMr : MR) (remote : RemoteRace) (localSide : LocalRace)
    (remoteRun : Runs.Run RemoteRace.step RemoteRace.Consistent (.new remoteMr) remote)
    (localRun : Runs.Run LocalRace.step LocalRace.Consistent (.new localMr) localSide) :
    (∀ after, remote.step .fetchAdd = some after →
      ∃ buf, after.direction.granted = remote.direction.granted ++ [buf] ∧
        ∀ k old, remote.direction.granted[k]? = some old →
          remote.direction.reported < (remote.direction.lengths.take (k + 1)).sum →
            buf.region.Apart old.region) ∧
    (∀ after, localSide.step .take = some after →
      ∃ buf, after.ring.granted = localSide.ring.granted ++ [buf] ∧
        ∀ old ∈ localSide.ring.granted.drop localSide.ring.retired,
          buf.region.Apart old.region) := by
  constructor
  · intro after taken
    obtain ⟨buf, granted, updated, reports, apart⟩ :=
      RemoteRace.fetchAdd_apart (RemoteRace.run_sound remoteRun) taken
    refine ⟨buf, granted, ?_⟩
    intro k old entry unreported
    apply apart
    have late : updated ≤ k := by
      by_contra early
      have covered := reports
      rw [show updated = k + 1 + (updated - (k + 1)) by omega, List.take_add, List.sum_append]
        at covered
      omega
    have member : (remote.direction.granted.drop updated)[k - updated]? = some old := by
      rw [List.getElem?_drop, show updated + (k - updated) = k by omega, entry]
    exact List.mem_of_getElem? member
  · intro after taken
    exact LocalRace.take_apart (LocalRace.run_sound localRun) taken

/-- 40 and 20 MiB, the first retired, and then 12 MiB over the right end: the two loads
of the third wait agree. -/
def agreeingActions : List LocalRace.Action × List RemoteRace.Action :=
  ([.call 0x2800000, .firstLoad, .secondLoad, .take, .call 0x1400000, .firstLoad, .secondLoad,
      .take, .clear 0, .popRelease, .releaseLoad, .releaseStore, .call 0xc00000, .firstLoad,
      .secondLoad],
    [.call 0x2800000, .firstLoad, .secondLoad, .fetchAdd, .call 0x1400000, .firstLoad,
      .secondLoad, .fetchAdd, .read, .release, .carry, .updateLoad, .updateStore,
      .call 0xc00000, .firstLoad, .secondLoad, .store])

theorem race_exclusive_over_the_end :
    ∃ (remote after : RemoteRace) (localSide after' : LocalRace),
      remote.step .fetchAdd = some after ∧ localSide.step .take = some after' ∧
      (∃ buf, after.direction.granted = remote.direction.granted ++ [buf] ∧
        buf.region.Apart ⟨0x12800000, 0x1400000⟩) ∧
      ∃ buf, after'.ring.granted = localSide.ring.granted ++ [buf] ∧
        buf.region.Apart ⟨0x12800000, 0x1400000⟩ := by
  obtain ⟨remote, remoteRun, reached⟩ : ∃ race,
      Runs.Run RemoteRace.step RemoteRace.Consistent (.new sampleMr) race ∧
        ((race.step .fetchAdd).isSome && decide (race.direction.reported = 0x2800000 ∧
          race.direction.granted = [⟨0x10000000, 0x2800000, 9⟩, ⟨0x12800000, 0x1400000, 9⟩])) =
            true :=
    Runs.Run.exists_of_execChecked (fun race action => decide (race.Consistent action)) _
      (fun _ _ => of_decide_eq_true) agreeingActions.2 (by decide +kernel)
  obtain ⟨localSide, localRun, reached'⟩ : ∃ race,
      Runs.Run LocalRace.step LocalRace.Consistent (.new sampleMr) race ∧
        ((race.step .take).isSome && decide (race.ring.granted.drop race.ring.retired =
          [⟨0x12800000, 0x1400000, 7⟩])) = true :=
    Runs.Run.exists_of_execChecked (fun race action => decide (race.Consistent action)) _
      (fun _ _ => of_decide_eq_true) agreeingActions.1 (by decide +kernel)
  rw [Bool.and_eq_true, decide_eq_true_eq] at reached reached'
  obtain ⟨after, taken⟩ := Option.isSome_iff_exists.mp reached.1
  obtain ⟨after', taken'⟩ := Option.isSome_iff_exists.mp reached'.1
  have exclusive := race_exclusive sampleMr sampleMr remote localSide remoteRun localRun
  obtain ⟨buf, granted, apart⟩ := exclusive.1 after taken
  obtain ⟨buf', granted', apart'⟩ := exclusive.2 after' taken'
  refine ⟨remote, after, localSide, after', taken, taken', ⟨buf, granted, ?_⟩,
    buf', granted', ?_⟩
  · have outstanding : remote.direction.reported < (remote.direction.lengths.take 2).sum := by
      rw [reached.2.1, Direction.lengths, reached.2.2]
      decide
    exact apart 1 ⟨0x12800000, 0x1400000, 9⟩ (by rw [reached.2.2]; rfl) outstanding
  · exact apart' ⟨0x12800000, 0x1400000, 7⟩ (by rw [reached'.2]; exact List.mem_singleton_self _)

/-- 40, 20, 12 and 26 MiB in a local ring of 64, the third over the right end; the
first is retired before, the next two between the two loads of a sixth of 30 MiB. -/
def localActions : List LocalRace.Action :=
  let alloc (length : Nat) : List LocalRace.Action := [.call length, .firstLoad, .secondLoad, .take]
  let retire (wrId : Nat) : List LocalRace.Action :=
    [.clear wrId, .popRelease, .releaseLoad, .releaseStore]
  alloc 0x2800000 ++ alloc 0x1400000 ++ retire 0 ++ alloc 0xc00000 ++
    [.call 0x1a00000, .firstLoad, .take, .call 0x1e00000, .firstLoad] ++
    retire 1 ++ retire 2 ++ [.secondLoad]

/-- The same shape on the remote ring, 40, 20, 12, 2 and 24 MiB: the peer releases the
second, third and fourth between the two loads, and their notices arrive. -/
def remoteActions : List RemoteRace.Action :=
  let alloc (length : Nat) : List RemoteRace.Action :=
    [.call length, .firstLoad, .secondLoad, .fetchAdd]
  let fits (length : Nat) : List RemoteRace.Action := [.call length, .firstLoad, .fetchAdd]
  alloc 0x2800000 ++ alloc 0x1400000 ++ [.read, .release, .carry, .updateLoad, .updateStore] ++
    [.call 0xc00000, .firstLoad, .secondLoad, .store, .fetchAdd] ++ fits 0x200000 ++
    fits 0x1800000 ++ [.read, .read, .read, .release, .release, .release, .carry, .carry, .carry] ++
    [.call 0x1e00000, .firstLoad, .updateLoad, .updateStore, .updateLoad, .updateLoad,
      .updateStore, .secondLoad, .store]

/-- Where `localActions` leads: the fifth region is about to be granted over the fourth. -/
def localOverlaps (race : LocalRace) : Bool :=
  (race.step .take).any fun after =>
    decide (after.ring.granted = race.ring.granted ++ [⟨0x10000000, 0x1e00000, 7⟩] ∧
      race.ring.granted.drop race.ring.retired = [⟨0x10c00000, 0x1a00000, 7⟩])

/-- Where `remoteActions` leads: the sixth region is about to be granted over the fifth. -/
def remoteOverlaps (race : RemoteRace) : Bool :=
  (race.step .fetchAdd).any fun after =>
    decide (after.direction.granted = race.direction.granted ++ [⟨0x10000000, 0x1e00000, 9⟩] ∧
      race.direction.granted[4]? = some ⟨0x10e00000, 0x1800000, 9⟩ ∧
      race.direction.reported < (race.direction.lengths.take 5).sum)

/-- Two loads that disagree: both allocators return a region that overlaps one which is
not retired. -/
theorem race_overlaps :
    (∃ (race after : RemoteRace) (buf old : RemoteBuf) (k : Nat),
      Runs.Run RemoteRace.step Runs.Any (.new sampleMr) race ∧
      race.step .fetchAdd = some after ∧
      after.direction.granted = race.direction.granted ++ [buf] ∧
      race.direction.granted[k]? = some old ∧
      race.direction.reported < (race.direction.lengths.take (k + 1)).sum ∧
      ¬ buf.region.Apart old.region) ∧
    (∃ (race after : LocalRace) (buf old : LocalBuf),
      Runs.Run LocalRace.step Runs.Any (.new sampleMr) race ∧
      race.step .take = some after ∧ after.ring.granted = race.ring.granted ++ [buf] ∧
      old ∈ race.ring.granted.drop race.ring.retired ∧ ¬ buf.region.Apart old.region) := by
  constructor
  · obtain ⟨race, run, reached⟩ : ∃ race,
        Runs.Run RemoteRace.step Runs.Any (.new sampleMr) race ∧ remoteOverlaps race = true :=
      Runs.Run.exists_of_exec remoteOverlaps remoteActions (by decide +kernel)
    obtain ⟨after, taken, facts⟩ := (Option.any_eq_true _ _).mp reached
    obtain ⟨granted, entry, unreported⟩ := of_decide_eq_true facts
    exact ⟨race, after, _, _, 4, run, taken, granted, entry, unreported, by decide⟩
  · obtain ⟨race, run, reached⟩ : ∃ race,
        Runs.Run LocalRace.step Runs.Any (.new sampleMr) race ∧ localOverlaps race = true :=
      Runs.Run.exists_of_exec localOverlaps localActions (by decide +kernel)
    obtain ⟨after, taken, facts⟩ := (Option.any_eq_true _ _).mp reached
    obtain ⟨granted, outstanding⟩ := of_decide_eq_true facts
    refine ⟨race, after, _, ⟨0x10c00000, 0x1a00000, 7⟩, run, taken, granted, ?_, by decide⟩
    rw [outstanding]
    exact List.mem_singleton_self _

end Race

end Ibv
