/-
Tasks that outlive their record.

# Where it fails

The allocator commits an assignment before the runtime's start claims its
entry in the manager. A stop that reaches the manager in between finds no
entry and no container, succeeds, and ends the record; the start then
claims, launches and leaves a running task that nothing will stop
(`stop_before_claim_leaks`).

# Where it holds

`ended_has_no_task`: as long as no stop looks into the registry while a
start of its execution has not claimed yet, no start that fails leaves a
running task, no wait for a task fails while the task runs, and no
execution ID is assigned anew while a call for it is in progress, an ended
record has no running task. A task runs only under a start or a monitor
that has not reported (`NodeInv.running`), and an ended record has neither
(`NodeInv.ended`).
-/
import R1s.Runtime.Proofs.NodeAllocator

namespace R1s.Runtime

open Allocator

variable {cfg : Config} {p : Platform} {n n' : Node cfg}

-- ===== the runs

theorem NodeInv.entered {tid : Nat} {pc : Pc cfg} (h : NodeInv n)
    (hfree : n.sys.threads.lookup tid = none) (hpc : pc.entry = true)
    (hcalm : pc.recovers = false) :
    NodeInv { n with sys := { n.sys with threads := n.sys.threads.insert tid pc } } := by
  have hsame : ∀ {β : Type} (g : Pc cfg → Option β), g pc = none → ∀ t,
      ((n.sys.threads.insert tid pc).lookup t).bind g = (n.sys.threads.lookup t).bind g := by
    intro β g hg t
    rw [AList.lookup_insert_if]
    split
    next heq =>
      rw [heq, hfree]
      exact hg
    · rfl
  have hstart := hsame Pc.startOf (entry_idle hpc).1
  have hstop := hsame Pc.stopOf (entry_idle hpc).2
  have hrec := hsame Pc.recoverOf (by simp [Pc.recoverOf, hcalm])
  exact
    { ledger := h.ledger
      mgr := h.mgr
      calm := fun t => (hrec t).trans (h.calm t)
      starts := fun ht => (hstart _).trans (h.starts ht)
      single := fun ht ht' =>
        h.single ((hstart _).symm.trans ht) ((hstart _).symm.trans ht')
      unlaunched := fun ht => h.unlaunched ((hstart _).symm.trans ht)
      ended := h.ended
      running := h.running
      stops := fun ht => h.stops ((hstop _).symm.trans ht) }

/-- A section of the allocator outside the calls that touches no
record. -/
theorem NodeInv.quiet {w' : World} (h : NodeInv n) (hw : LedgerWorld cfg w')
    (hsame : w'.mem.executions = n.sys.world.mem.executions) :
    NodeInv { n with sys := { n.sys with world := w' } } := by
  refine h.settle hw h.mgr rfl rfl (fun hu => hu) (fun hrun => ⟨hrun, fun _ hq => hq⟩) ?_
  intro id hend
  refine .inl fun x hx => hend x ?_
  rw [hsame]
  exact hx

/-- The labels the interleavings are made of: neither reloads nor
recovery. -/
def NodeLabel.covered : NodeLabel cfg → Bool
  | .alloc (.restart _ _) | .alloc (.recover _) => false
  | _ => true

/-- The runs the theorem is about. -/
abbrev Node.orderly (n : Node cfg) (l : NodeLabel cfg) : Prop :=
  l.covered = true ∧ n.inOrder l = true

theorem NodeInv.spawn {tid : Nat} {pc : Pc cfg} (h : NodeInv n) (hpc : pc.entry = true)
    (hcalm : pc.recovers = false)
    (hs : (n.sys.spawn tid pc).map (fun s => ({ n with sys := s } : Node cfg)) = some n') :
    NodeInv n' := by
  obtain ⟨s, hspawn, heq⟩ := Option.map_eq_some_iff.mp hs
  cases heq
  unfold System.spawn at hspawn
  split at hspawn
  case isTrue => cases hspawn
  case isFalse hfree =>
    cases hspawn
    exact h.entered (by simpa using hfree) hpc hcalm

theorem NodeInv.alloc {l : Label cfg} (h : NodeInv n) (hok : n.orderly (.alloc l))
    (hs : n.alloc l = some n') : NodeInv n' := by
  have hkept : ∀ {s : System cfg}, n.sys.step l = some s → LedgerWorld cfg s.world := by
    intro s hstep
    refine (h.ledger.step ?_ hstep).inv
    cases l with
    | restart granted now => cases hok.1
    | _ => rfl
  cases l with
  | call | sweep | evictLeases | openTunnel => exact h.spawn rfl rfl hs
  | recover | restart => cases hok.1
  | closeTunnel session =>
    cases hs
    exact h.quiet (hkept rfl) rfl
  | run tid i =>
    obtain ⟨pc, hpc, hrun⟩ := Option.bind_eq_some_iff.mp hs
    split at hrun
    next hans =>
      obtain ⟨s, hstep, heq⟩ := Option.map_eq_some_iff.mp hrun
      obtain ⟨pc', hpc', hmap⟩ := Option.bind_eq_some_iff.mp hstep
      rw [hpc] at hpc'
      cases hpc'
      obtain ⟨⟨w', next⟩, hadv, hresume⟩ := Option.map_eq_some_iff.mp hmap
      cases heq
      cases hresume
      exact h.advance hpc hans hadv hok.2
    · cases hrun
  | completed c i => cases hs
  | expire i =>
    cases hs
    exact h.quiet (hkept rfl) (sweepExpired_executions i n.sys.world)
  | view now =>
    cases hs
    exact h.quiet (hkept rfl) rfl

theorem NodeInv.step {l : NodeLabel cfg} (h : NodeInv n) (hok : n.orderly l)
    (hs : n.step p l = some n') : NodeInv n' := by
  cases l with
  | alloc l => exact h.alloc hok hs
  | call tid i =>
    obtain ⟨m', hr, heq⟩ := Option.map_eq_some_iff.mp hs
    cases heq
    exact h.call hok.2 hr
  | exit id =>
    obtain ⟨m', he, heq⟩ := Option.map_eq_some_iff.mp hs
    cases heq
    exact h.exit he
  | watch q code err i saved => exact h.watch hok.2 hs
  | close =>
    cases hs
    exact h.settle h.ledger (h.mgr.congr ⟨rfl, rfl, rfl, rfl, fun _ => rfl⟩) rfl rfl
      (fun hu => hu) (fun hrun => ⟨hrun, fun _ hq => hq⟩) .inl

theorem nodeInv_reachable (hn : (node cfg p).ReachWhen Node.orderly n) : NodeInv n := by
  refine TransitionSystem.ReachWhen.invariant (I := NodeInv) ?_ ?_ hn
  · intro n₀ h0
    subst h0
    exact ⟨ledgerWorld_reachable (.init rfl), mgrInv_empty, fun _ => rfl, nofun, nofun, nofun,
      fun _ => ⟨nofun, nofun⟩, nofun, nofun⟩
  · intro n l n' h hok hs
    exact h.step hok hs

/-- In a run without reloads and recovery in which no stop looks into the
registry before a start of its execution has claimed, no failed start
leaves a running task, no wait fails while the task runs, and no execution
ID is assigned anew while a call for it is in progress, an ended execution
has no running task, whether or not its calls have returned. -/
theorem ended_has_no_task (cfg : Config) (p : Platform) {n : Node cfg}
    (hn : (node cfg p).ReachWhen Node.orderly n) {id : GoString} {x : ExecutionRecord}
    (hx : n.sys.world.mem.executions.lookup id = some x) (hend : x.phase.terminal = true) :
    n.mgr.tasks.lookup id ≠ some .running := by
  have h := nodeInv_reachable hn
  have hended : Ended n.sys.world id := by
    intro y hy
    rw [hx] at hy
    cases hy
    exact hend
  obtain ⟨hno, hnu⟩ := h.ended hended
  intro hrun
  rcases h.running hrun with ⟨t, q, ht⟩ | ⟨q, hq⟩
  · refine hno ⟨t, ?_⟩
    rw [ht]
    rfl
  · exact hnu ⟨q, _, hq, rfl, rfl⟩

-- ===== a stop before the claim

/-- A platform that takes an image for pinned when it names a digest. -/
def samplePlatform : Platform where
  pinnedDigest image := .ok (image.dropWhile (· ≠ 0x40))
  workloadBytes w := .ok w.image
  policyBytes _ := .ok []
  sum256 := id

def allocRun (ls : List (Label oneSlot)) : List (NodeLabel oneSlot) := ls.map .alloc

/-- The cancellation's stop returns before the assignment's start has
claimed its entry. -/
def earlyStop : List (NodeLabel oneSlot) :=
  allocRun (requestRun ++ assignRun ++ cancelRun)
    ++ [.call 2 {}, .call 2 {}] ++ allocRun (answerRun 2 none)
    ++ [.call 1 {}, .call 1 {}, .call 1 {}] ++ allocRun (answerRun 1 none)

/-- Every handler has returned, the record is CANCELLED and the task
runs. -/
theorem stop_before_claim_leaks :
    ∃ n, (node oneSlot samplePlatform).ReachWhen (fun _ l => l.covered = true) n ∧
      n.sys.threads.keys = [] ∧
      (n.sys.world.mem.executions.lookup (text "x")).map ExecutionRecord.phase
        = some .cancelled ∧
      n.mgr.tasks.lookup (text "x") = some .running := by
  exact (node oneSlot samplePlatform).exists_reachWhen _ rfl earlyStop _ (by decide +kernel)

/-- A cancellation after the start returned: the stop kills the task and
waits for its monitor. -/
def lateStop : List (NodeLabel oneSlot) :=
  allocRun (requestRun ++ assignRun) ++ [.call 1 {}, .call 1 {}, .call 1 {}]
    ++ allocRun (answerRun 1 none ++ cancelRun)
    ++ [ .call 2 {}, .call 2 {}, .exit (text "x"), .watch 0 137 none {} {},
         .watch 0 0 none {} {}, .watch 0 0 none {} {}, .call 2 {} ]
    ++ allocRun (answerRun 2 none)

/-- The record is CANCELLED, and its task is gone. -/
theorem cancelled_has_no_task :
    ∃ n x, (node oneSlot samplePlatform).ReachWhen Node.orderly n ∧
      n.sys.world.mem.executions.lookup (text "x") = some x ∧ x.phase.terminal = true ∧
      n.mgr.tasks.lookup (text "x") ≠ some .running := by
  obtain ⟨n, hn, hp⟩ := (node oneSlot samplePlatform).exists_reachWhen Node.orderly rfl lateStop
    (fun n => (n.sys.world.mem.executions.lookup (text "x")).any fun x => x.phase.terminal)
    (by decide +kernel)
  cases hx : n.sys.world.mem.executions.lookup (text "x") with
  | none =>
    rw [hx] at hp
    cases hp
  | some x =>
    rw [hx] at hp
    exact ⟨n, x, hn, hx, hp, ended_has_no_task oneSlot samplePlatform hn hx hp⟩

end R1s.Runtime
