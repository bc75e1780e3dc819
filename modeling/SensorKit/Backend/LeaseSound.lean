import SensorKit.Backend.Lease

/-!
# What a lease sees and spares

A lease remembers the revision of its last write, and requires it of every later one. Revisions only grow, so that no
later entry of another holder can have it. The monitor requires no revision of what it reads.
-/

namespace SensorKit.Backend

open Lib

variable {R : Type} {i c : ℕ}

namespace Leases

variable {s s' : Leases R} {key : Key ℕ (LeaseModel R)} {request : Request R} {party : Party R} {kind : KeyRequest R}
  {a : LeaseLabel R}

/-! ## The invariant -/

/-- A lease has written the revision that it remembers; an expired one is not monitored. -/
def PartyOk (key : Key ℕ (LeaseModel R)) (i : ℕ) : Party R → Prop
  | .holding lease => key.Owned i lease.revision ∧ (lease.expired = true → lease.monitor = .done)
  | _ => True

/-- A request requires a revision that its lease has written. -/
def KindOk (key : Key ℕ (LeaseModel R)) (i : ℕ) : KeyRequest R → Prop
  | .update _ revision | .delete (some revision) => key.Owned i revision
  | _ => True

structure RequestOk (key : Key ℕ (LeaseModel R)) (request : Request R) : Prop where
  kind : KindOk key request.party request.kind
  written : ∀ revision, request.answer = some (.written revision) → key.Owned request.party revision

structure Inv (s : Leases R) : Prop where
  parties : ∀ (i : ℕ) party, s.parties[i]? = some party → PartyOk s.key i party
  requests : ∀ (c : ℕ) request, s.requests[c]? = some request → RequestOk s.key request

theorem inv_start : Inv ({} : Leases R) :=
  ⟨by simp, by simp⟩

theorem Inv.setParty (h : s.Inv) (ok : PartyOk s.key i party) : (s.setParty i party).Inv := by
  refine ⟨?_, h.requests⟩
  intro k other found
  rcases found_set found with ⟨rfl, rfl⟩ | ⟨-, found⟩
  · exact ok
  · exact h.parties k other found

theorem Inv.setRequest (h : s.Inv) (ok : RequestOk s.key request) : (s.setRequest c request).Inv := by
  refine ⟨h.parties, ?_⟩
  intro k other found
  rcases found_set found with ⟨rfl, rfl⟩ | ⟨-, found⟩
  · exact ok
  · exact h.requests k other found

theorem Inv.send (h : s.Inv) (ok : KindOk s.key i kind) : (s.send i kind).Inv := by
  refine ⟨h.parties, ?_⟩
  intro k other found
  rcases found_snoc found with found | ⟨-, rfl⟩
  · exact h.requests k other found
  · exact ⟨ok, by simp⟩

/-- What is owned stays so over every change of the key. -/
theorem Inv.rekey (h : s.Inv) (owned : ∀ w r, s.key.Owned w r → key.Owned w r) : ({ s with key } : Leases R).Inv := by
  refine ⟨?_, ?_⟩
  · intro k party found
    have ok := h.parties k party found
    cases party with
    | holding lease => exact ⟨owned _ _ ok.1, ok.2⟩
    | _ => trivial
  · intro k request found
    obtain ⟨kind, written⟩ := h.requests k request found
    refine ⟨?_, fun r answer => owned _ _ (written r answer)⟩
    revert kind
    unfold KindOk
    split
    · exact owned _ _
    · exact owned _ _
    · exact id

theorem lease?_eq_some {lease : Lease R} (found : s.lease? i = some lease) : s.parties[i]? = some (.holding lease) := by
  unfold lease? at found
  split at found
  · cases found
    assumption
  · cases found

theorem lease?_of_holding {lease : Lease R} (here : s.parties[i]? = some (.holding lease)) :
    s.lease? i = some lease := by
  unfold lease?
  rw [here]

theorem Inv.lease (h : s.Inv) {lease : Lease R} (found : s.lease? i = some lease) :
    s.key.Owned i lease.revision ∧ (lease.expired = true → lease.monitor = .done) :=
  h.parties i _ (lease?_eq_some found)

theorem RequestOk.told {awaited : Bool} (h : RequestOk key request) : RequestOk key { request with awaited } :=
  ⟨h.kind, h.written⟩

section

variable (h : s.Inv) (here : s.requests[c]? = some request)
include h here

/-- The answer to a request that has taken effect. -/
theorem Inv.serve {marker : Bool} {gap : ℕ} : (s.serve c request marker gap).Inv := by
  have ok := h.requests c request here
  have refused : RequestOk s.key { request with answer := some .refused } := ⟨ok.kind, by simp⟩
  -- A write that has taken effect is the requester's own.
  have written (v : Option (LeaseModel R)) (reply : Reply R)
      (own : ∀ r, reply = .written r → r = (s.key.put (some request.party) v gap).revision) :
      (({ s with key := s.key.put (some request.party) v gap } : Leases R).setRequest c
        { request with answer := some reply }).Inv := by
    have rekeyed : ({ s with key := s.key.put (some request.party) v gap } : Leases R).Inv :=
      h.rekey fun _ _ owned => owned.put
    refine rekeyed.setRequest ⟨?_, ?_⟩
    · exact (rekeyed.requests c request here).kind
    · intro r answer
      obtain rfl := own r (Option.some.inj answer)
      exact Key.owned_put
  unfold Leases.serve
  dsimp only
  split
  · exact h.setRequest ⟨ok.kind, by simp⟩
  · split
    · rename_i key created
      obtain ⟨-, rfl⟩ := Key.create_eq_some created
      exact written _ _ fun r same => (Reply.written.inj same).symm
    · exact h.setRequest refused
  · split
    · rename_i key updated
      obtain ⟨rfl, -⟩ := Key.update_eq_some updated
      exact written _ _ fun r same => (Reply.written.inj same).symm
    · exact h.setRequest refused
  · split
    · rename_i key deleted
      obtain ⟨rfl, -⟩ := Key.delete_eq_some deleted
      exact written _ _ fun r same => by cases same
    · exact h.setRequest refused

/-- The caller goes on with what it has been told. -/
theorem Inv.answered {reply : Reply R} (told : request.answer = some reply) : (s.answered c request reply).Inv := by
  have ok := h.requests c request here
  have base : (s.setRequest c { request with awaited := false }).Inv := h.setRequest ok.told
  unfold Leases.answered
  dsimp only
  split
  · exact base.send trivial
  · rename_i revision enforce ttl model kind found
    refine base.setParty ⟨ok.written revision told, ?_⟩
    intro expired
    cases expired
  · exact base.setParty trivial
  · rename_i revision lease kind found
    exact base.setParty ⟨ok.written revision told, (h.parties _ _ found).2⟩
  · rename_i lease kind found
    exact base.setParty ⟨(h.parties _ _ found).1, fun _ => rfl⟩
  · rename_i lease kind found
    have before := h.parties request.party _ found
    exact base.setParty before
  · rename_i entry lease kind found
    split_ifs with reading
    · refine base.setParty ?_
      obtain ⟨owned, done⟩ := h.parties _ _ found
      unfold Lease.handleRead
      split
      · exact ⟨owned, fun _ => rfl⟩
      · split_ifs
        · exact ⟨owned, fun _ => rfl⟩
        · refine ⟨owned, ?_⟩
          intro expired
          rw [done expired] at reading
          cases reading
    · exact base
  · exact base

theorem Inv.unanswered : (s.unanswered c request).Inv := by
  have ok := h.requests c request here
  have base : (s.setRequest c { request with awaited := false }).Inv := h.setRequest ok.told
  unfold Leases.unanswered
  dsimp only
  split
  · rename_i lease kind found
    split_ifs
    · exact base.setParty ⟨(h.parties _ _ found).1, fun _ => rfl⟩
    · exact base
  · rename_i lease kind found
    have before := h.parties request.party _ found
    exact base.setParty before
  · exact base.setParty trivial
  · exact base

end

/-- **A step keeps the invariant.** -/
theorem Inv.step (h : s.Inv) (hs : s.step a = some s') : s'.Inv := by
  cases a with
  | acquire enforce ttl now record =>
    cases hs
    have joined : ({ s with parties := s.parties ++ [.acquiring enforce ttl ⟨now, now, record⟩] } : Leases R).Inv := by
      refine ⟨?_, h.requests⟩
      intro k other found
      rcases found_snoc found with found | ⟨-, rfl⟩
      · exact h.parties k other found
      · trivial
    unfold Leases.acquire
    dsimp only
    split_ifs
    · exact joined.send trivial
    · exact joined.send trivial
  | refresh i record now =>
    obtain ⟨lease, found, ⟨⟩⟩ := Option.bind_eq_some_iff.1 hs
    have before := h.lease found
    have ok : PartyOk s.key i (.holding (lease.refreshed record now)) := before
    exact (h.setParty ok).send ok.1
  | expire i =>
    obtain ⟨lease, found, turn⟩ := Option.bind_eq_some_iff.1 hs
    have before := h.lease found
    have ok : PartyOk s.key i (.holding { lease with expireCalled := true, locked := true }) := before
    split_ifs at turn
    · cases turn
      exact h
    · cases turn
      exact (h.setParty ok).send ok.1
  | poll i =>
    obtain ⟨lease, found, turn⟩ := Option.bind_eq_some_iff.1 hs
    obtain ⟨⟨-, current⟩, ⟨⟩⟩ := Option.ite_none_right_eq_some.1 turn
    have ok : PartyOk s.key i (.holding { lease with monitor := .reading s.requests.length }) := by
      refine ⟨(h.lease found).1, ?_⟩
      intro expired
      rw [current] at expired
      cases expired
    exact (h.setParty ok).send trivial
  | abandon i =>
    obtain ⟨lease, found, turn⟩ := Option.bind_eq_some_iff.1 hs
    obtain ⟨-, ⟨⟩⟩ := Option.ite_none_left_eq_some.1 turn
    exact h.setParty ⟨(h.lease found).1, fun _ => rfl⟩
  | effect c marker gap =>
    obtain ⟨request, here, turn⟩ := Option.bind_eq_some_iff.1 hs
    obtain ⟨-, ⟨⟩⟩ := Option.ite_none_right_eq_some.1 turn
    exact h.serve here
  | handle c =>
    obtain ⟨request, here, turn⟩ := Option.bind_eq_some_iff.1 hs
    obtain ⟨reply, told, turn⟩ := Option.bind_eq_some_iff.1 turn
    obtain ⟨-, ⟨⟩⟩ := Option.ite_none_right_eq_some.1 turn
    exact h.answered here told
  | giveUp c =>
    obtain ⟨request, here, turn⟩ := Option.bind_eq_some_iff.1 hs
    obtain ⟨-, ⟨⟩⟩ := Option.ite_none_right_eq_some.1 turn
    exact h.unanswered here
  | ttlExpires marker gap =>
    cases hs
    exact h.rekey fun _ _ owned => owned.expire

/-! ## Steps -/

/-- The monitor goes on with what it has read. -/
theorem answered_read {lease : Lease R} {entry : Option (KeyEntry ℕ (LeaseModel R))} (kind : request.kind = .get)
    (found : s.lease? request.party = some lease) (reading : lease.monitor = .reading c) :
    (s.answered c request (.read entry)).lease? request.party = some (lease.handleRead entry) := by
  have here := lease?_eq_some found
  have after : s.answered c request (.read entry) =
      (s.setRequest c { request with awaited := false }).setParty request.party
        (.holding (lease.handleRead entry)) := by
    have here : (s.setRequest c { request with awaited := false }).parties[request.party]? =
        some (.holding lease) := here
    unfold Leases.answered
    dsimp only
    simp only [kind] at here ⊢
    rw [here]
    exact if_pos reading
  rw [after]
  exact lease?_of_holding (set_found here)

theorem read?_eq_some {entry : Option (KeyEntry ℕ (LeaseModel R))} (read : s.read? c = some (i, entry)) :
    ∃ request lease, s.requests[c]? = some request ∧ request.party = i ∧ request.kind = .get ∧
      request.answer = some (.read entry) ∧ request.awaited = true ∧ s.lease? i = some lease ∧
        lease.monitor = .reading c := by
  obtain ⟨request, here, read⟩ := Option.bind_eq_some_iff.1 read
  obtain ⟨lease, found, read⟩ := Option.bind_eq_some_iff.1 read
  split at read
  · rename_i shown kind answer
    obtain ⟨⟨awaited, reading⟩, shows⟩ := Option.ite_none_right_eq_some.1 read
    cases shows
    exact ⟨request, lease, here, rfl, kind, answer, awaited, found, reading⟩
  · cases read

/-- Whether a loss is noticed depends on who wrote the value that is read, which the monitor does not look at. -/
theorem noticesLoss_iff (h : s.Inv) : s.NoticesLoss a ↔ s.SeesNoOther a := by
  cases a with
  | handle c =>
    have handled (i : ℕ) (entry : Option (KeyEntry ℕ (LeaseModel R))) (read : s.read? c = some (i, entry)) :
        ∃ lease s', s.lease? i = some lease ∧ lease.monitor = .reading c ∧ s.step (.handle c) = some s' ∧
          s'.lease? i = some (lease.handleRead entry) := by
      obtain ⟨request, lease, here, rfl, kind, answer, awaited, found, reading⟩ := read?_eq_some read
      refine ⟨lease, s.answered c request (.read entry), found, reading, ?_, answered_read kind found reading⟩
      simp [step, here, answer, awaited]
    constructor
    · rintro notices ⟨i, entry⟩ read e shown live
      by_contra other
      obtain rfl : entry = some e := shown
      obtain ⟨lease, s', found, reading, turn, found'⟩ := handled i (some e) read
      have theirs : ¬ Own i (some e) := by
        rintro ⟨e', same, own, -⟩
        cases same
        exact other own
      obtain ⟨lease', there, expired⟩ := notices i (some e) s' read theirs turn
      cases found'.symm.trans there
      have value : e.value.isNone = false := by simpa using live
      have current : lease.expired = true := by
        simpa [Lease.handleRead, value] using expired
      have done := (h.lease found).2 current
      rw [reading] at done
      cases done
    · intro sees i entry s' read lost turn
      obtain ⟨lease, s'', found, reading, turn', found'⟩ := handled i entry read
      cases turn'.symm.trans turn
      refine ⟨_, found', ?_⟩
      unfold Lease.handleRead
      split
      · rfl
      · rename_i e
        split_ifs with marker
        · rfl
        · have live : e.value.isSome = true := by simpa [Option.isSome_iff_ne_none] using marker
          exact absurd ⟨e, rfl, sees (i, some e) read e rfl live, live⟩ lost
  | _ => exact Iff.rfl

/-- Only a deletion by force can hit what another holder wrote. -/
theorem spares_iff (h : s.Inv) : s.Spares a ↔ s.ForcesNone a := by
  cases a with
  | effect c marker gap =>
    have serves (request : Request R) (here : s.requests[c]? = some request) (open_ : request.answer = none) :
        s.step (.effect c marker gap) = some (s.serve c request marker gap) := by
      simp [step, here, open_]
    constructor
    · intro spares request here kind open_ e latest live
      refine spares request e _ here (by rw [kind]; simp) (serves request here open_) ?_ latest live
      have deleted : s.key.delete request.party none gap = some (s.key.put (some request.party) none gap) := by
        unfold Key.delete
        simp
      unfold Leases.serve
      simp only [kind, deleted]
      rw [show s.key.latest = some e from latest]
      intro same
      have later : s.key.revision + gap + 1 = e.revision := congrArg KeyEntry.revision (Option.some.inj same)
      have bounded := s.key.bounded e latest
      omega
    · intro forces request e s' here kind turn changed latest live
      obtain ⟨request', here', turn'⟩ := Option.bind_eq_some_iff.1 turn
      cases here.symm.trans here'
      obtain ⟨open_, ⟨⟩⟩ := Option.ite_none_right_eq_some.1 turn'
      have ok := (h.requests c request here).kind
      unfold Leases.serve at changed
      dsimp only at changed
      split at changed
      · exact absurd rfl changed
      · split at changed
        · rename_i key created
          obtain ⟨free, -⟩ := Key.create_eq_some created
          exact absurd ⟨e, latest, live⟩ free
        · exact absurd rfl changed
      · rename_i model revision update
        rw [update] at ok
        split at changed
        · rename_i key updated
          exact ok.own e latest ((Key.update_eq_some updated).2 e latest)
        · exact absurd rfl changed
      · rename_i revision delete
        split at changed
        · rename_i key deleted
          cases revision with
          | none => exact forces request here delete open_ e latest live
          | some revision =>
            rw [delete] at ok
            exact ok.own e latest ((Key.delete_eq_some deleted).2 revision rfl e latest)
        · exact absurd rfl changed
  | _ => exact Iff.rfl

/-! ## Runs -/

theorem okAlong_iff_of_inv {ok ok' : Leases R → LeaseLabel R → Prop} {labels : List (LeaseLabel R)}
    (run : exec step {} labels = some s) (each : ∀ (s : Leases R) a, s.Inv → (ok s a ↔ ok' s a)) :
    okAlong step ok {} labels ↔ okAlong step ok' {} labels := by
  constructor
  · intro h
    exact okAlong_of_invariant run h inv_start fun s a t inv met hs => ⟨inv.step hs, (each s a inv).1 met⟩
  · intro h
    exact okAlong_of_invariant run h inv_start fun s a t inv met hs => ⟨inv.step hs, (each s a inv).2 met⟩

/-- **A lost lease is noticed**, and nothing of another holder's is replaced, in just those runs in which no monitor
handles a read that shows another holder's entry, and no lease is acquired by force over one. -/
theorem leasesNoticed_iff {labels : List (LeaseLabel R)} (run : exec step {} labels = some s) :
    okAlong step (fun s a => s.NoticesLoss a ∧ s.Spares a) {} labels ↔
      okAlong step (fun s a => s.SeesNoOther a ∧ s.ForcesNone a) {} labels :=
  okAlong_iff_of_inv run fun _ _ inv => and_congr (noticesLoss_iff inv) (spares_iff inv)

/-- A holder acquires the lease. -/
def acquired (request : ℕ) (now : ℚ) : List (LeaseLabel Unit) :=
  [.acquire true 30 now (), .effect request false 0, .handle request]

/-- The monitor reads the key. -/
def polled (i request : ℕ) : List (LeaseLabel Unit) :=
  [.poll i, .effect request false 0, .handle request]

/-- A lease is acquired and refreshed, and lost before anyone else acquires it. -/
theorem leasesNoticed_iff_example :
    okAlong step (fun s a => s.NoticesLoss a ∧ s.Spares a) ({} : Leases Unit) (acquired 0 0 ++
      [.refresh 0 none 10, .effect 1 false 0, .handle 1] ++ polled 0 2 ++ [.ttlExpires false 0] ++ polled 0 3) := by
  let labels := acquired 0 0 ++ [.refresh 0 none 10, .effect 1 false 0, .handle 1] ++ polled 0 2 ++
    [.ttlExpires false 0] ++ polled 0 3
  have ends : (exec step ({} : Leases Unit) labels).isSome = true := by decide +kernel
  have apart : okAlong step (fun s a => s.SeesNoOther a ∧ s.ForcesNone a) ({} : Leases Unit) labels := by
    decide +kernel
  obtain ⟨s, run⟩ := Option.isSome_iff_exists.1 ends
  exact (leasesNoticed_iff run).2 apart

/-- The first holder's entry expires, and another acquires the lease before the first looks. Its monitor reads the
other's entry and goes on. -/
theorem loss_not_noticed : ∃ s : Leases Unit, Reaches step always {} s ∧ ¬ s.NoticesLoss (.handle 2) := by
  let labels : List (LeaseLabel Unit) :=
    acquired 0 0 ++ [.ttlExpires false 0] ++ acquired 1 40 ++ [.poll 0, .effect 2 false 0]
  let entry : KeyEntry ℕ (LeaseModel Unit) := ⟨2, some 1, some ⟨40, 40, ()⟩⟩
  have reads : (exec step ({} : Leases Unit) labels).map (·.read? 2) = some (some (0, some entry)) := by
    decide +kernel
  have goes : (exec step ({} : Leases Unit) labels).map (fun s =>
      ((s.step (.handle 2)).bind (·.lease? 0)).map (·.expired)) = some (some false) := by
    decide +kernel
  obtain ⟨s, run, read⟩ := Option.map_eq_some_iff.1 reads
  rw [run, Option.map_some, Option.some.injEq] at goes
  obtain ⟨lease, found, current⟩ := Option.map_eq_some_iff.1 goes
  obtain ⟨s', turn, found⟩ := Option.bind_eq_some_iff.1 found
  refine ⟨s, reaches_of_exec run okAlong_always, ?_⟩
  intro notices
  have lost : ¬ Own 0 (some entry) := by
    rintro ⟨e, same, own, -⟩
    cases same
    cases own
  obtain ⟨lease', there, expired⟩ := notices 0 (some entry) s' read lost turn
  cases found.symm.trans there
  rw [current] at expired
  cases expired

/-- **The entry is guarded**: a party that can refresh or delete it, or has asked to, has written it. So no two can. -/
theorem entry_guarded {e : KeyEntry ℕ (LeaseModel R)} (run : Reaches step always {} s) (here : s.key.latest = some e) :
    (∀ i lease, s.lease? i = some lease → lease.revision = e.revision → e.writer = some i) ∧
      ∀ request ∈ s.requests, (∃ model, request.kind = .update model e.revision) ∨ request.kind = .delete (some e.revision) →
        e.writer = some request.party := by
  have inv : s.Inv := run.invariant inv_start fun _ _ _ inv _ hs => inv.step hs
  refine ⟨fun i lease holds same => (inv.lease holds).1.own e here same.symm, fun request mem asks => ?_⟩
  obtain ⟨c, found⟩ := List.mem_iff_getElem?.1 mem
  have ok := (inv.requests c request found).kind
  rcases asks with ⟨model, kind⟩ | kind <;> rw [kind] at ok <;> exact ok.own e here rfl

theorem entry_guarded_acquired : ∃ (s : Leases Unit) (e : KeyEntry ℕ (LeaseModel Unit)), s.key.latest = some e ∧
    ∀ i lease, s.lease? i = some lease → lease.revision = e.revision → e.writer = some i := by
  have ends : ((exec step ({} : Leases Unit) (acquired 0 0)).bind (·.key.latest)).isSome = true := by decide +kernel
  obtain ⟨e, ends⟩ := Option.isSome_iff_exists.1 ends
  obtain ⟨s, run, here⟩ := Option.bind_eq_some_iff.1 ends
  exact ⟨s, e, here, (entry_guarded (reaches_of_exec run okAlong_always) here).1⟩

end Leases

end SensorKit.Backend
