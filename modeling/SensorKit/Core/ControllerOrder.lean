import SensorKit.Core.ControllerSteps

/-!
# The order of the runs

Runs form a chain: each one replaces the newest run that has not ended, or starts when all
have. A run passes its join only when its predecessor has ended, so by then every earlier run
has. No later run can have been admitted either when a handler starts: its runner would have
cancelled this one before the start was out. `Ordered` is the invariant behind both.
-/

namespace SensorKit.Core

open Lib

variable {K : Type} {next : Next K} {events : List (Event K)}

namespace Controller

/-- Every run before `n` has ended. -/
def EndedBefore (s : Controller K) (n : ℕ) : Prop :=
  ∀ m < n, ∀ r, s.runs m = some r → r.done = true

/-- The runner has ended without failing. -/
def EndedWell (r : TaskRun K) : Prop :=
  ∃ outcome, r.stage = .done outcome ∧ ∀ message, outcome ≠ .failed message

/-- The run has joined its predecessor, and its start or its handler is still to be over. -/
def Begun (r : TaskRun K) : Prop :=
  r.stage = .startWaiting ∨ r.stage = .startPublishing ∨ r.stage = .handling

/-- The runs end in order of admission, and a newer one cancels those that have not started. -/
structure Ordered (s : Controller K) : Prop where
  admitted : ∀ n, (∃ r, s.runs n = some r) ↔ n < s.admitted
  newest : ∀ e, s.execution = some e → e + 1 = s.admitted
  idle : s.execution = none → s.EndedBefore s.admitted
  replaces : ∀ n r p, s.runs n = some r → r.predecessor = some p → p + 1 = n
  alone : ∀ n r, s.runs n = some r → r.predecessor = none → s.EndedBefore n
  joined : ∀ n r, s.runs n = some r → r.stage ≠ .received → r.stage ≠ .joining → s.EndedBefore n
  unfailed : ∀ n r p rp, s.runs n = some r → r.predecessor = some p → s.runs p = some rp → Begun r → EndedWell rp
  waiting : ∀ n r, s.runs n = some r → r.stage = .startWaiting → r.cancelRequested = false
  publishing : ∀ n r, s.runs n = some r → r.stage = .startPublishing → r.cancelRequested = true →
    r.deferred = true
  /-- A run that has taken its first step has cancelled the one it replaces. -/
  interrupted : ∀ n r p rp, s.runs n = some r → r.predecessor = some p → s.runs p = some rp →
    r.stage ≠ .received → rp.cancelRequested = true
  /-- A run about to be attached is next in line. -/
  attaching : ∀ events r prior, s.publication = some ⟨events, .attach r prior⟩ →
    r.stage = .received ∧ (∀ p, r.predecessor = some p → p + 1 = s.admitted) ∧
      (r.predecessor = none → s.EndedBefore s.admitted)
  /-- A start waits for the runners that have yet to begin. -/
  starting : ∀ events n behind, s.publication = some ⟨events, .start n behind⟩ →
    (∃ r, s.runs n = some r ∧ r.stage = .startPublishing) ∧
      ∀ m r, s.runs m = some r → r.stage = .received → m ∈ behind

/-- What a change of the run `n` from `r` to `r'` must keep. -/
structure KeepsOrder (s : Controller K) (n : ℕ) (r r' : TaskRun K) : Prop where
  predecessor : r'.predecessor = r.predecessor
  done : ∀ outcome, r.stage = .done outcome → r'.stage = .done outcome
  past : r'.stage ≠ .received → r'.stage ≠ .joining → s.EndedBefore n
  unfailed : Begun r' → ∀ p, r.predecessor = some p → ∀ rp, s.runs p = some rp → EndedWell rp
  waiting : r'.stage = .startWaiting → r'.cancelRequested = false
  publishing : r'.stage = .startPublishing → r'.cancelRequested = true → r'.deferred = true
  requested : r.cancelRequested = true → r'.cancelRequested = true
  begun : r'.stage ≠ .received → r.stage ≠ .received ∨
    ∀ p, r.predecessor = some p → ∀ rp, s.runs p = some rp → rp.cancelRequested = true
  received : r'.stage = .received → r.stage = .received
  start : ∀ events behind, s.publication = some ⟨events, .start n behind⟩ → r'.stage = .startPublishing

namespace Ordered

variable {s t : Controller K} {n : ℕ} {r r' : TaskRun K}

theorem done_mono (hr : s.runs n = some r) (keeps : ∀ outcome, r.stage = .done outcome → r'.stage = .done outcome)
    {m : ℕ} (h : s.EndedBefore m) : (s.setRun n r').EndedBefore m := by
  intro i hi ri run
  rcases runs_setRun run with ⟨rfl, rfl⟩ | ⟨-, run⟩
  · exact TaskRun.done_iff.2 ((TaskRun.done_iff.1 (h i hi r hr)).imp keeps)
  · exact h i hi ri run

theorem known_of_setRun {p : ℕ} {rp : TaskRun K} (hr : s.runs n = some r) (run : (s.setRun n r').runs p = some rp) :
    ∃ rp₀, s.runs p = some rp₀ := by
  rcases runs_setRun run with ⟨rfl, -⟩ | ⟨-, run⟩
  · exact ⟨r, hr⟩
  · exact ⟨rp, run⟩

section

variable (h : s.Ordered)
include h

theorem setRun (hr : s.runs n = some r) (k : s.KeepsOrder n r r') : (s.setRun n r').Ordered where
  admitted m := by
    rw [setRun_admitted, ← h.admitted m]
    by_cases same : m = n
    · subst same
      exact ⟨fun _ => ⟨r, hr⟩, fun _ => ⟨r', by simp⟩⟩
    · simp [Function.update_of_ne same]
  newest := h.newest
  idle none := done_mono hr k.done (h.idle none)
  replaces m rm p run pred := by
    rcases runs_setRun run with ⟨rfl, rfl⟩ | ⟨-, run⟩
    · exact h.replaces m r p hr (k.predecessor ▸ pred)
    · exact h.replaces m rm p run pred
  alone m rm run pred := by
    rcases runs_setRun run with ⟨rfl, rfl⟩ | ⟨-, run⟩
    · exact done_mono hr k.done (h.alone m r hr (k.predecessor ▸ pred))
    · exact done_mono hr k.done (h.alone m rm run pred)
  joined m rm run received joining := by
    rcases runs_setRun run with ⟨rfl, rfl⟩ | ⟨-, run⟩
    · exact done_mono hr k.done (k.past received joining)
    · exact done_mono hr k.done (h.joined m rm run received joining)
  unfailed m rm p rp run pred runp begun := by
    -- An ended predecessor is what it was.
    have well (rp₀ : TaskRun K) (runp₀ : s.runs p = some rp₀) (h₀ : EndedWell rp₀) : EndedWell rp := by
      rcases runs_setRun runp with ⟨rfl, rfl⟩ | ⟨-, runp⟩
      · obtain rfl : rp₀ = r := by simpa [hr] using runp₀.symm
        exact h₀.imp fun outcome ended => ⟨k.done outcome ended.1, ended.2⟩
      · obtain rfl : rp₀ = rp := by simpa [runp] using runp₀.symm
        exact h₀
    obtain ⟨rp₀, runp₀⟩ := known_of_setRun hr runp
    rcases runs_setRun run with ⟨rfl, rfl⟩ | ⟨-, run⟩
    · exact well rp₀ runp₀ (k.unfailed begun p (k.predecessor ▸ pred) rp₀ runp₀)
    · exact well rp₀ runp₀ (h.unfailed m rm p rp₀ run pred runp₀ begun)
  waiting m rm run := by
    rcases runs_setRun run with ⟨rfl, rfl⟩ | ⟨-, run⟩
    · exact k.waiting
    · exact h.waiting m rm run
  publishing m rm run := by
    rcases runs_setRun run with ⟨rfl, rfl⟩ | ⟨-, run⟩
    · exact k.publishing
    · exact h.publishing m rm run
  interrupted m rm p rp run pred runp begun := by
    -- The earlier record of the predecessor had the flag, and the change keeps it.
    have flag (rp₀ : TaskRun K) (runp₀ : s.runs p = some rp₀) (h₀ : rp₀.cancelRequested = true) :
        rp.cancelRequested = true := by
      rcases runs_setRun runp with ⟨rfl, rfl⟩ | ⟨-, runp⟩
      · obtain rfl : rp₀ = r := by simpa [hr] using runp₀.symm
        exact k.requested h₀
      · obtain rfl : rp₀ = rp := by simpa [runp] using runp₀.symm
        exact h₀
    obtain ⟨rp₀, runp₀⟩ := known_of_setRun hr runp
    rcases runs_setRun run with ⟨rfl, rfl⟩ | ⟨-, run⟩
    · have pred' : r.predecessor = some p := k.predecessor ▸ pred
      rcases k.begun begun with already | flagged
      · exact flag rp₀ runp₀ (h.interrupted m r p rp₀ hr pred' runp₀ already)
      · exact flag rp₀ runp₀ (flagged p pred' rp₀ runp₀)
    · exact flag rp₀ runp₀ (h.interrupted m rm p rp₀ run pred runp₀ begun)
  attaching events ra prior pub := by
    obtain ⟨stage, next, none⟩ := h.attaching events ra prior pub
    exact ⟨stage, next, fun pred => done_mono hr k.done (none pred)⟩
  starting events m behind pub := by
    obtain ⟨⟨rm, run, stage⟩, before⟩ := h.starting events m behind pub
    refine ⟨?_, fun i ri runi received => ?_⟩
    · by_cases same : m = n
      · subst same
        exact ⟨r', by simp, k.start events behind pub⟩
      · exact ⟨rm, by simpa [Function.update_of_ne same] using run, stage⟩
    · rcases runs_setRun runi with ⟨rfl, rfl⟩ | ⟨-, runi⟩
      · exact before i r hr (k.received received)
      · exact before i ri runi received

/-- The invariant reads the runs, the newest one and the publication. -/
theorem congr (runs : t.runs = s.runs) (admitted : t.admitted = s.admitted) (execution : t.execution = s.execution)
    (publication : t.publication = s.publication) : t.Ordered := by
  have ended {m : ℕ} : s.EndedBefore m → t.EndedBefore m := fun e i hi ri run => e i hi ri (runs ▸ run)
  constructor
  · simpa [runs, admitted] using h.admitted
  · simpa [execution, admitted] using h.newest
  · rw [execution, admitted]
    exact fun none => ended (h.idle none)
  · simpa [runs] using h.replaces
  · exact fun n r run pred => ended (h.alone n r (runs ▸ run) pred)
  · exact fun n r run a b => ended (h.joined n r (runs ▸ run) a b)
  · simpa [runs] using h.unfailed
  · simpa [runs] using h.waiting
  · simpa [runs] using h.publishing
  · simpa [runs] using h.interrupted
  · intro events r prior pub
    obtain ⟨stage, next, none⟩ := h.attaching events r prior (publication ▸ pub)
    exact ⟨stage, admitted ▸ next, fun pred => admitted ▸ ended (none pred)⟩
  · simpa [runs, publication] using h.starting

/-- Giving the lock up drops the publication. -/
theorem release : s.release.Ordered :=
  { h with
    attaching := by simp
    starting := by simp }

/-- A publication that neither attaches a run nor starts one. -/
theorem publish (events : List (Event K)) (attach : ∀ r prior, next ≠ .attach r prior)
    (start : ∀ n behind, next ≠ .start n behind) : (s.publish events next).Ordered :=
  { h with
    attaching := by
      rintro _ r prior ⟨⟩
      exact absurd rfl (attach r prior)
    starting := by
      rintro _ n behind ⟨⟩
      exact absurd rfl (start n behind) }

/-- The next run is not known yet. -/
theorem fresh : s.runs s.admitted = none := by
  by_contra known
  exact Nat.lt_irrefl _ ((h.admitted _).1 (Option.ne_none_iff_exists'.1 known))

/-- The new run is the last one, and no run waits behind a start while it is attached. -/
theorem attach (stage : r.stage = .received) (next : ∀ p, r.predecessor = some p → p + 1 = s.admitted)
    (none : r.predecessor = none → s.EndedBefore s.admitted) : (s.attach r).release.Ordered := by
  have old {m : ℕ} (lt : m < s.admitted) : (s.attach r).runs m = s.runs m := by
    simp [Controller.attach, Function.update_of_ne (Nat.ne_of_lt lt)]
  have ended {m : ℕ} (le : m ≤ s.admitted) (e : s.EndedBefore m) : (s.attach r).EndedBefore m :=
    fun i hi ri run => e i hi ri (old (Nat.lt_of_lt_of_le hi le) ▸ run)
  have split {m : ℕ} {rm : TaskRun K} (run : (s.attach r).runs m = some rm) :
      m = s.admitted ∧ rm = r ∨ m < s.admitted ∧ s.runs m = some rm := by
    rcases runs_setRun run with ⟨rfl, rfl⟩ | ⟨-, run⟩
    · exact .inl ⟨rfl, rfl⟩
    · exact .inr ⟨(h.admitted m).1 ⟨rm, run⟩, run⟩
  constructor
  · intro m
    constructor
    · rintro ⟨rm, run⟩
      rcases split run with ⟨rfl, -⟩ | ⟨lt, -⟩
      · exact Nat.lt_succ_self _
      · exact Nat.lt_succ_of_lt lt
    · intro lt
      rcases Nat.lt_succ_iff_lt_or_eq.1 lt with lt | rfl
      · obtain ⟨rm, run⟩ := (h.admitted m).2 lt
        exact ⟨rm, (old lt).trans run⟩
      · exact ⟨r, by simp [Controller.attach]⟩
  · rintro e ⟨⟩
    rfl
  · simp [Controller.attach]
  · intro m rm p run pred
    rcases split run with ⟨rfl, rfl⟩ | ⟨-, run⟩
    · exact next p pred
    · exact h.replaces m rm p run pred
  · intro m rm run pred
    rcases split run with ⟨rfl, rfl⟩ | ⟨lt, run⟩
    · exact ended (Nat.le_refl _) (none pred)
    · exact ended (Nat.le_of_lt lt) (h.alone m rm run pred)
  · intro m rm run received joining
    rcases split run with ⟨rfl, rfl⟩ | ⟨lt, run⟩
    · exact absurd stage received
    · exact ended (Nat.le_of_lt lt) (h.joined m rm run received joining)
  · intro m rm p rp run pred runp begun
    rcases split run with ⟨rfl, rfl⟩ | ⟨lt, run⟩
    · simp [Begun, stage] at begun
    · have lt' : p < s.admitted := by have := h.replaces m rm p run pred; omega
      exact h.unfailed m rm p rp run pred ((old lt').symm.trans runp) begun
  · intro m rm run waiting
    rcases split run with ⟨rfl, rfl⟩ | ⟨lt, run⟩
    · simp [stage] at waiting
    · exact h.waiting m rm run waiting
  · intro m rm run publishing
    rcases split run with ⟨rfl, rfl⟩ | ⟨lt, run⟩
    · simp [stage] at publishing
    · exact h.publishing m rm run publishing
  · intro m rm p rp run pred runp begun
    rcases split run with ⟨rfl, rfl⟩ | ⟨lt, run⟩
    · exact absurd stage begun
    · have lt' : p < s.admitted := by have := h.replaces m rm p run pred; omega
      exact h.interrupted m rm p rp run pred ((old lt').symm.trans runp) begun
  · simp
  · simp

end

section Cancel

variable (h : s.Ordered) (hr : s.runs n = some r)

include h hr

theorem publication_ne_start (stage : r.stage ≠ .startPublishing) (events : List (Event K)) (behind : List ℕ) :
    s.publication ≠ some ⟨events, .start n behind⟩ := by
  intro pub
  obtain ⟨⟨r₀, run, publishing⟩, -⟩ := h.starting events n behind pub
  obtain rfl : r₀ = r := by simpa [hr] using run.symm
  exact stage publishing

/-- A cancellation that leaves the runner where it is. -/
theorem keepsOrder_flag (waiting : r.stage ≠ .startWaiting) (deferred : Bool)
    (publishing : r.stage = .startPublishing → deferred = true) :
    s.KeepsOrder n r { r with cancelRequested := true, deferred } where
  predecessor := rfl
  done _ := id
  past := h.joined n r hr
  unfailed begun p pred rp run := h.unfailed n r p rp hr pred run begun
  waiting stage := absurd stage waiting
  publishing stage _ := publishing stage
  requested _ := rfl
  begun received := .inl received
  received := id
  start events behind pub := by
    obtain ⟨⟨r₀, run, stage⟩, -⟩ := h.starting events n behind pub
    obtain rfl : r₀ = r := by simpa [hr] using run.symm
    exact stage

/-- A cancellation that ends the body. -/
theorem keepsOrder_endBody (past : s.EndedBefore n) (received : r.stage ≠ .received)
    (publishing : r.stage ≠ .startPublishing) (done : r.done = false) :
    s.KeepsOrder n r ({ r with cancelRequested := true }.endBody .cancelled) where
  predecessor := rfl
  done _ ended := by simp [TaskRun.done, ended] at done
  past _ _ := past
  unfailed begun := by simp [Begun, TaskRun.endBody] at begun
  waiting stage := by cases stage
  publishing stage := by cases stage
  requested _ := rfl
  begun _ := .inl received
  received stage := by cases stage
  start events behind pub := absurd pub (h.publication_ne_start hr publishing events behind)

end Cancel

theorem keepsOrder_of_cancel (h : s.Ordered) (hr : s.runs n = some r) (moves : CancelMoves r r') :
    s.KeepsOrder n r r' := by
  cases moves with
  | flags stage =>
    refine h.keepsOrder_flag hr ?_ r.deferred ?_ <;> intro stage' <;> simp [stage', TaskRun.done] at stage
  | ends stage =>
    have past := h.joined n r hr
    rcases stage with stage | stage <;>
      exact h.keepsOrder_endBody hr (past (by simp [stage]) (by simp [stage])) (by simp [stage]) (by simp [stage])
        (by simp [TaskRun.done, stage])
  | defers _ waiting => exact h.keepsOrder_flag hr waiting true fun _ => rfl

/-- Cancelling a run keeps it from starting, and keeps the rest. -/
theorem cancel [DecidableEq K] (h : s.Ordered) (n : ℕ) : (s.cancel n).Ordered := by
  rcases s.cancel_cases n with ⟨same, -⟩ | ⟨r, r', lock, hr, -, moves, -, eq⟩
  · rwa [same]
  · rw [eq]
    have h : Ordered { s with lock } := h.congr rfl rfl rfl rfl
    exact h.setRun hr (h.keepsOrder_of_cancel hr moves)

/-- Where the predecessor has ended, every earlier run has. -/
theorem endedBefore_of_pred {p : ℕ} {rp : TaskRun K} {outcome : Outcome} (h : s.Ordered) (hr : s.runs n = some r)
    (pred : r.predecessor = some p) (run : s.runs p = some rp) (ended : rp.stage = .done outcome) :
    s.EndedBefore n := by
  intro m lt rm runm
  have next := h.replaces n r p hr pred
  rcases Nat.lt_or_eq_of_le (show m ≤ p by omega) with lt | rfl
  · exact h.joined p rp run (by simp [ended]) (by simp [ended]) m lt rm runm
  · obtain rfl : rm = rp := by simpa [run] using runm.symm
    simp [TaskRun.done, ended]

/-- A run that may execute comes after all the earlier ones. -/
theorem endedBefore_of_ready (h : s.Ordered) (hr : s.runs n = some r) (ready : s.ReadyToExecute r) :
    s.EndedBefore n := by
  rcases ready with ⟨-, none⟩ | ⟨-, -, p, rp, outcome, pred, run, ended, -⟩
  · exact h.alone n r hr none
  · exact h.endedBefore_of_pred hr pred run ended

/-- A move of a run that is past its join, or passes it. -/
theorem keepsOrder_past (h : s.Ordered) (hr : s.runs n = some r) (past : s.EndedBefore n)
    (stage : r.stage ≠ .startPublishing) (open_ : r.done = false)
    (begun : r.stage ≠ .received ∨ r.predecessor = none) (predecessor : r'.predecessor = r.predecessor)
    (requested : r'.cancelRequested = r.cancelRequested) (received : r'.stage ≠ .received)
    (waiting : r'.stage = .startWaiting → r'.cancelRequested = false) (publishing : r'.stage ≠ .startPublishing)
    (unfailed : Begun r' → ∀ p, r.predecessor = some p → ∀ rp, s.runs p = some rp → EndedWell rp) :
    s.KeepsOrder n r r' where
  predecessor := predecessor
  done _ ended := by simp [TaskRun.done, ended] at open_
  past _ _ := past
  unfailed := unfailed
  waiting := waiting
  publishing stage := absurd stage publishing
  requested flag := requested ▸ flag
  begun _ := begun.imp_right fun none p pred => by simp [none] at pred
  received stage := absurd stage received
  start events behind pub := absurd pub (h.publication_ne_start hr stage events behind)

theorem ready_stage {s : Controller K} (ready : s.ReadyToExecute r) :
    (r.stage = .received ∨ r.stage = .joining) ∧ (r.stage ≠ .received ∨ r.predecessor = none) := by
  rcases ready with ⟨stage, none⟩ | ⟨stage, -⟩
  · exact ⟨.inl stage, .inr none⟩
  · exact ⟨.inr stage, .inl (by simp [stage])⟩

/-- A run that may execute has joined a predecessor that ended well, if it has one. -/
theorem endedWell_of_ready {s : Controller K} (ready : s.ReadyToExecute r) (p : ℕ) (pred : r.predecessor = some p)
    (rp : TaskRun K) (run : s.runs p = some rp) : EndedWell rp := by
  rcases ready with ⟨-, none⟩ | ⟨-, -, q, rq, outcome, pred', run', ended, well⟩
  · simp [none] at pred
  · obtain rfl : q = p := by simpa [pred] using pred'.symm
    obtain rfl : rq = rp := by simpa [run] using run'.symm
    exact ⟨outcome, ended, well⟩

/-- What a runner does to its own run keeps the order. -/
theorem keepsOrder_of_moves (h : s.Ordered) (hr : s.runs n = some r) (moves : s.RunnerMoves r r') :
    s.KeepsOrder n r r' := by
  have later (received : r.stage ≠ .received) (joining : r.stage ≠ .joining) : s.EndedBefore n :=
    h.joined n r hr received joining
  cases moves with
  | cancelledBefore ready =>
    obtain ⟨stage, begun⟩ := ready_stage ready
    refine h.keepsOrder_past hr (h.endedBefore_of_ready hr ready) ?_ ?_ begun rfl rfl ?_ ?_ ?_ ?_ <;>
      rcases stage with stage | stage <;> simp [stage, TaskRun.done, TaskRun.endBody, Begun]
  | executes ready free =>
    obtain ⟨stage, begun⟩ := ready_stage ready
    refine h.keepsOrder_past hr (h.endedBefore_of_ready hr ready) ?_ ?_ begun rfl rfl ?_ (fun _ => free) ?_
      fun _ => endedWell_of_ready ready
    all_goals rcases stage with stage | stage <;> simp [stage, TaskRun.done]
  | joinFails stage pred run ended =>
    refine h.keepsOrder_past hr (h.endedBefore_of_pred hr pred run ended) ?_ ?_ (.inl ?_) rfl rfl ?_ ?_ ?_ ?_ <;>
      simp [stage, TaskRun.done, TaskRun.fail, TaskRun.endBody, Begun]
  | joinCancelled stage pred run ended =>
    refine h.keepsOrder_past hr (h.endedBefore_of_pred hr pred run ended) ?_ ?_ (.inl ?_) rfl rfl ?_ ?_ ?_ ?_ <;>
      simp [stage, TaskRun.done, TaskRun.endBody, Begun]
  | handlerCancelled stage =>
    refine h.keepsOrder_past hr (later ?_ ?_) ?_ ?_ (.inl ?_) rfl rfl ?_ ?_ ?_ ?_ <;>
      simp [stage, TaskRun.done, TaskRun.endBody, Begun]
  | fails stage message =>
    refine h.keepsOrder_past hr (later ?_ ?_) ?_ ?_ (.inl ?_) rfl rfl ?_ ?_ ?_ ?_ <;>
      rcases stage with stage | stage <;> simp [stage, TaskRun.done, TaskRun.fail, TaskRun.endBody, Begun]
  | succeeds stage latched =>
    refine h.keepsOrder_past hr (later ?_ ?_) ?_ ?_ (.inl ?_) rfl rfl ?_ ?_ ?_ ?_ <;>
      rcases stage with stage | stage <;> simp [stage, TaskRun.done, TaskRun.succeed, TaskRun.endBody, Begun]
  | confirms stage latched =>
    refine h.keepsOrder_past hr (later ?_ ?_) ?_ ?_ (.inl ?_) rfl rfl ?_ ?_ ?_ ?_ <;>
      simp [stage, TaskRun.done, Begun]
  | finishes stage =>
    refine h.keepsOrder_past hr (later ?_ ?_) ?_ ?_ (.inl ?_) rfl rfl ?_ ?_ ?_ ?_ <;>
      simp [stage, TaskRun.done, Begun]
  | ends stage =>
    refine h.keepsOrder_past hr (later ?_ ?_) ?_ ?_ (.inl ?_) rfl rfl ?_ ?_ ?_ ?_ <;>
      simp [stage, TaskRun.done, Begun]

/-! ### Under the lock -/

section

variable (h : s.Ordered)
include h

theorem of_running {p : ℕ} (running : s.running = some (p, r)) : s.runs p = some r ∧ p + 1 = s.admitted := by
  simp only [Controller.running, Controller.current, Option.filter_eq_some_iff, Option.bind_eq_some_iff,
    Option.map_eq_some_iff, Prod.mk.injEq] at running
  obtain ⟨⟨e, newest, r₀, run, rfl, rfl⟩, -⟩ := running
  exact ⟨run, h.newest e newest⟩

/-- With no run open, all have ended. -/
theorem of_not_running (idle : s.running = none) : s.EndedBefore s.admitted := by
  cases newest : s.execution with
  | none => exact h.idle newest
  | some e =>
    have last := h.newest e newest
    obtain ⟨re, run⟩ := (h.admitted e).2 (by omega)
    have ended : re.done = true := by
      simpa [Controller.running, Controller.current, newest, run, Option.filter] using idle
    have past := h.joined e re run
    intro m lt rm runm
    rcases Nat.lt_or_eq_of_le (show m ≤ e by omega) with lt | rfl
    · exact past (by rintro stage; simp [TaskRun.done, stage] at ended)
        (by rintro stage; simp [TaskRun.done, stage] at ended) m lt rm runm
    · obtain rfl : rm = re := by simpa [run] using runm.symm
      exact ended

theorem publish_attach (events : List (Event K)) (prior : ControllerOperatingState K) (stage : r.stage = .received)
    (next : ∀ p, r.predecessor = some p → p + 1 = s.admitted) (none : r.predecessor = none → s.EndedBefore s.admitted) :
    (s.publish events (.attach r prior)).Ordered :=
  { h with
    attaching := by
      rintro _ _ _ ⟨⟩
      exact ⟨stage, next, none⟩
    starting := by rintro _ _ _ ⟨⟩ }

/-- A change of a run that has its stage, and more, in common with the one before. -/
theorem keepsOrder_same (hr : s.runs n = some r) (stage : r'.stage = r.stage)
    (predecessor : r'.predecessor = r.predecessor) (requested : r'.cancelRequested = r.cancelRequested)
    (deferred : r'.deferred = r.deferred) : s.KeepsOrder n r r' where
  predecessor := predecessor
  done _ ended := stage.trans ended
  past := stage ▸ h.joined n r hr
  unfailed begun p pred rp run := h.unfailed n r p rp hr pred run (by simpa [Begun, stage] using begun)
  waiting waiting := requested ▸ h.waiting n r hr (stage ▸ waiting)
  publishing publishing := by
    rw [requested, deferred]
    exact h.publishing n r hr (stage ▸ publishing)
  requested flag := requested ▸ flag
  begun begun := .inl (stage ▸ begun)
  received received := stage ▸ received
  start events behind pub := by
    obtain ⟨⟨r₀, run, publishing⟩, -⟩ := h.starting events n behind pub
    obtain rfl : r₀ = r := by simpa [hr] using run.symm
    exact stage.trans publishing

theorem finished (n : ℕ) (raised : Option String) : (s.finished n raised).release.Ordered := by
  simp only [Controller.finished]
  split
  · rename_i r run
    split
    · rename_i body stage
      rw [setRun_release]
      refine h.release.setRun run (h.release.keepsOrder_past run (h.release.joined n r run ?_ ?_) ?_ ?_ (.inl ?_)
        rfl rfl ?_ ?_ ?_ ?_) <;> simp [stage, TaskRun.done, Begun]
    · exact h.release
  · exact h.release

theorem enter_start (hr : s.runs n = some r) (stage : r.stage = .startWaiting) (free : s.publication = none)
    (events : List (Event K)) :
    ((s.setRun n { r with stage := .startPublishing }).publish events (.start n s.unstarted)).Ordered := by
  have keeps : s.KeepsOrder n r { r with stage := .startPublishing } :=
    { predecessor := rfl
      done := by simp [stage]
      past := fun _ _ => h.joined n r hr (by simp [stage]) (by simp [stage])
      unfailed := fun _ p pred rp run => h.unfailed n r p rp hr pred run (.inl stage)
      waiting := by simp
      publishing := by simp [h.waiting n r hr stage]
      requested := id
      begun := fun _ => .inl (by simp [stage])
      received := by simp
      start := by simp [free] }
  have h' := h.setRun hr keeps
  refine { h' with
    attaching := by rintro _ _ _ ⟨⟩
    starting := ?_ }
  rintro _ _ _ ⟨⟩
  refine ⟨⟨{ r with stage := .startPublishing }, by simp [Controller.publish], rfl⟩, fun m rm runm received => ?_⟩
  rcases runs_setRun runm with ⟨rfl, rfl⟩ | ⟨-, runm⟩
  · cases received
  · simp only [unstarted, List.mem_filter, List.mem_range, runm, Option.any_some]
    exact ⟨(h.admitted m).1 ⟨rm, runm⟩, by simpa using received⟩

/-- The run leaves the publication of its start. -/
theorem leave_start {behind : List ℕ} (pub : s.publication = some ⟨events, .start n behind⟩) (hr : s.runs n = some r)
    (predecessor : r'.predecessor = r.predecessor) (requested : r'.cancelRequested = r.cancelRequested)
    (received : r'.stage ≠ .received) (waiting : r'.stage ≠ .startWaiting) (publishing : r'.stage ≠ .startPublishing) :
    (s.setRun n r').release.Ordered := by
  obtain ⟨⟨r₀, run, stage⟩, -⟩ := h.starting events n behind pub
  obtain rfl : r₀ = r := by simpa [hr] using run.symm
  rw [setRun_release]
  refine h.release.setRun hr
    { predecessor
      done := by simp [stage]
      past := fun _ _ => h.release.joined n r₀ hr (by simp [stage]) (by simp [stage])
      unfailed := fun _ p pred rp run => h.unfailed n r₀ p rp hr pred run (.inr (.inl stage))
      waiting := fun w => absurd w waiting
      publishing := fun p => absurd p publishing
      requested := fun flag => requested ▸ flag
      begun := fun _ => .inl (by simp [stage])
      received := fun r => absurd r received
      start := by simp }

theorem emitAll (events : List (Event K)) : (s.emitAll events).Ordered :=
  h.congr (by simp) (by simp) (by simp) (by simp)

theorem recover (pub : s.publication = some ⟨events, next⟩) (message : String) : (s.recover message next).Ordered := by
  cases next with
  | attach r prior => exact h.publish _ (by simp) (by simp)
  | start n behind =>
    simp only [Controller.recover]
    split
    · rename_i r run
      exact h.leave_start pub run rfl rfl (by simp [TaskRun.fail, TaskRun.endBody])
        (by simp [TaskRun.fail, TaskRun.endBody]) (by simp [TaskRun.fail, TaskRun.endBody])
    · exact h
  | finish n mismatch => exact h.finished n _
  | abort n => exact h.release
  | release => exact h.release

/-- The request of an ended run is over. -/
theorem close (hr : s.runs n = some r) (done : r.done = true) :
    Ordered { s with execution := if s.execution = some n then none else s.execution } := by
  have ended : s.execution = some n → s.EndedBefore s.admitted := by
    intro newest m lt rm run
    have last := h.newest n newest
    obtain ⟨outcome, stage⟩ := TaskRun.done_iff.1 done
    rcases Nat.lt_or_eq_of_le (show m ≤ n by omega) with lt | rfl
    · exact h.joined n r hr (by simp [stage]) (by simp [stage]) m lt rm run
    · obtain rfl : rm = r := by simpa [hr] using run.symm
      exact done
  refine { h with newest := ?_, idle := ?_ }
  · intro e
    by_cases newest : s.execution = some n
    · simp [newest]
    · simpa [newest] using h.newest e
  · intro idle
    by_cases newest : s.execution = some n
    · exact ended newest
    · exact h.idle (by simpa [newest] using idle)

end

theorem started (taskHandlers : List String) (recovered : ControllerState K) (legacy : Bool) :
    (started taskHandlers recovered legacy).Ordered := by
  constructor <;> simp [Controller.started, EndedBefore]

section Locked

variable [DecidableEq K]

theorem admission (h : s.Ordered) (msg : ExecuteRequest K) : (s.admitRequest msg).Ordered := by
  have next (p : ℕ) (pred : s.running.map (·.1) = some p) : p + 1 = s.admitted := by
    obtain ⟨⟨p, r⟩, running, rfl⟩ := Option.map_eq_some_iff.1 pred
    exact (h.of_running running).2
  have none (pred : s.running.map (·.1) = none) : s.EndedBefore s.admitted :=
    h.of_not_running (Option.map_eq_none_iff.1 pred)
  simp only [Controller.admitRequest]
  split
  · exact h.release
  · split
    · split
      · exact h.attach rfl next none
      · exact h.publish_attach _ _ rfl next none
    · exact h.attach rfl next none

/-- Settling a run touches its finish only. -/
theorem settle_run (s : Controller K) (r : TaskRun K) :
    ∃ finishInfo, (s.settle r).1 = { r with finishInfo } := by
  cases lifecycle : r.lifecycle with
  | true =>
    simp only [settle, lifecycle, if_true]
    exact ⟨_, rfl⟩
  | false => exact ⟨r.finishInfo, by simp [settle, lifecycle]⟩

section

variable (h : s.Ordered)
include h

theorem finish (hr : s.runs n = some r) : (s.finish n r).Ordered := by
  obtain ⟨info, eq⟩ := settle_run s r
  have h' : Ordered ({ s with states := (s.settle r).2.1 }.setRun n { (s.settle r).1 with phase := .finished }) := by
    have h₀ : Ordered { s with states := (s.settle r).2.1 } := h.congr rfl rfl rfl rfl
    exact h₀.setRun hr (h₀.keepsOrder_same hr (by rw [eq]) (by rw [eq]) (by rw [eq]) (by rw [eq]))
  simp only [Controller.finish]
  split
  · exact h'.finished n _
  · exact h'.publish _ (by simp) (by simp)

theorem enter (free : s.publication = none) (job : Job K) : (s.enter job).Ordered := by
  cases job with
  | admission msg => exact h.admission msg
  | start n =>
    simp only [Controller.enter]
    split
    · split
      · rename_i r run stage
        exact h.enter_start run stage free _
      · exact h
    · exact h
  | finish n =>
    simp only [Controller.enter]
    split
    · split
      · rename_i r run _
        exact h.finish run
      · exact h
    · exact h
  | abort requested =>
    simp only [Controller.enter, Controller.abort]
    split
    · exact h.release
    · split
      · exact h.release
      · split
        · exact h.publish _ (by simp) (by simp)
        · exact (h.cancel _).release
  | report state context =>
    have h' : Ordered { s with states := s.states.recordObserved state context } := h.congr rfl rfl rfl rfl
    simp only [Controller.enter, Controller.report]
    split
    · exact h'.release
    · exact h'.publish _ (by simp) (by simp)
  | enable enabled => exact h.publish _ (by simp) (by simp)
  | updateContext =>
    simp only [Controller.enter, Controller.updateContext]
    split
    · split
      · exact h.publish _ (by simp) (by simp)
      · exact h.release
    · exact h.release

theorem proceed (pub : s.publication = some ⟨events, next⟩) : (s.proceed next).Ordered := by
  cases next with
  | attach r prior =>
    obtain ⟨stage, next, none⟩ := h.attaching events r prior pub
    exact h.attach stage next none
  | start n behind =>
    simp only [Controller.proceed]
    split
    · rename_i r run
      cases deferred : r.deferred with
      | true =>
        simp only [if_true]
        exact h.leave_start pub run rfl rfl (by simp [TaskRun.endBody]) (by simp [TaskRun.endBody])
          (by simp [TaskRun.endBody])
      | false => exact h.leave_start pub run rfl rfl (by simp) (by simp) (by simp)
    · exact h
  | finish n mismatch => exact h.finished n mismatch
  | abort n => exact (h.cancel n).release
  | release => exact h.release

theorem published (pub : s.publication = some ⟨events, next⟩) (outcome : PublishOutcome) :
    (s.published events next outcome).Ordered := by
  cases outcome with
  | succeeded => exact (h.emitAll events).proceed (by simpa using pub)
  | interrupted => exact (h.emitAll events).recover (by simpa using pub) _
  | failed applied message => exact (h.emitAll _).recover (by simpa using pub) _

/-- A run takes its first step and cancels the one it replaces. -/
theorem interrupt {p : ℕ} (hr : s.runs n = some r) (stage : r.stage = .received) (pred : r.predecessor = some p) :
    ((s.setRun n { r with phase := .interrupting, stage := .joining }).cancel p).Ordered := by
  have next := h.replaces n r p hr pred
  have other : p ≠ n := by omega
  have keeps {s : Controller K} (h : s.Ordered) (hr : s.runs n = some r)
      (flagged : ∀ rp, s.runs p = some rp → rp.cancelRequested = true) :
      s.KeepsOrder n r { r with phase := .interrupting, stage := .joining } :=
    { predecessor := rfl
      done := by simp [stage]
      past := by simp
      unfailed := by simp [Begun]
      waiting := by simp
      publishing := by simp
      requested := id
      begun := fun _ => .inr fun q pred' => by
        obtain rfl : p = q := by simpa [pred] using pred'
        exact flagged
      received := by simp
      start := fun events behind pub => absurd pub (h.publication_ne_start hr (by simp [stage]) events behind) }
  rcases cancel_cases (s.setRun n { r with phase := .interrupting, stage := .joining }) p with
    ⟨same, flagged⟩ | ⟨rp, rp', lock, hp, -, moves, -, eq⟩
  · rw [same]
    exact h.setRun hr (keeps h hr fun rp run => flagged rp (by simpa [Function.update_of_ne other] using run))
  · rw [eq]
    have hp' : s.runs p = some rp := by simpa [Function.update_of_ne other] using hp
    have h₀ : Ordered { s with lock } := h.congr rfl rfl rfl rfl
    have h₁ : Ordered ({ s with lock }.setRun p rp') := h₀.setRun hp' (h₀.keepsOrder_of_cancel hp' moves)
    have hr₁ : ({ s with lock }.setRun p rp').runs n = some r := by simpa [Function.update_of_ne other.symm] using hr
    have h₂ := h₁.setRun hr₁ (keeps h₁ hr₁ (by simp [moves.requested]))
    rwa [setRun_comm other.symm] at h₂

/-- **Every step keeps the order of the runs.** -/
theorem step {label : ControllerLabel K} (hs : s.step label = some t) : t.Ordered := by
  cases moves_of_step hs with
  | @runner _ n r r' lock run _ moves =>
    have h' : Ordered { s with lock } := h.congr rfl rfl rfl rfl
    have keeps := h.keepsOrder_of_moves run moves
    exact h'.setRun run { keeps with }
  | interrupts run stage pred => exact h.interrupt run stage pred
  | enters holder free => exact h.enter free _
  | publishes outcome pub => exact h.published pub outcome
  | queues => exact h.congr rfl rfl rfl rfl
  | wakes => exact h.congr rfl rfl rfl rfl
  | succeeds => exact h.congr rfl rfl rfl rfl
  | @closes n r published run done call =>
    refine (h.close run done).congr rfl rfl rfl rfl
  | @abandons n r run call =>
    cases done : r.done with
    | true => exact h.congr rfl rfl rfl rfl
    | false => exact (h.cancel n).congr rfl rfl rfl rfl

end

end Locked

end Ordered

end Controller

end SensorKit.Core
