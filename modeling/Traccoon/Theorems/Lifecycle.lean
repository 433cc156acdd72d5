import Traccoon.Lifecycle

/-!
# What `main` leaves behind

Whether `main` releases all that it has acquired, each resource once, and nothing else (`main_releases`). It does not where it joins
workers that it has not created, leaves those that it has, frees addresses that it has not been given, or closes the listening socket
behind the signal handler. So a server that has been stopped by the signal does not end in order.
-/

namespace Traccoon

open CString Ledger

namespace LifecycleAux

variable {o : Options} {e : MainEnv} {fuel : Nat} {uses : List (Use Resource)} {error : Int}

/-! ## The parts -/

/-- The workers of these numbers created. -/
def created (k : Nat) : List (Use Resource) := ((List.range k).map Resource.worker).map .acquire

theorem nodup_workers (i k : Nat) : ((List.range' i k).map Resource.worker).Nodup :=
  List.Nodup.map (fun _ _ h => by injection h) List.nodup_range'

/-- The loop ends behind the last worker, or in front of the first that is not created. -/
theorem createWorkers_cases (create : Nat → Int) (left i : Nat) :
    ∃ k ≤ left, (createWorkers create i left).1 = ((List.range' i k).map Resource.worker).map .acquire ∧
      (∀ j < k, create (i + j) = 0) ∧
      ((k = left ∧ (createWorkers create i left).2 = 0) ∨
        (k < left ∧ create (i + k) ≠ 0 ∧ (createWorkers create i left).2 = threadcreationError)) := by
  induction left generalizing i with
  | zero => exact ⟨0, Nat.le_refl _, rfl, fun j hj => absurd hj (Nat.not_lt_zero j), Or.inl ⟨rfl, rfl⟩⟩
  | succ left ih =>
    by_cases hc : create i = 0
    · obtain ⟨k, hk, huses, hall, hend⟩ := ih (i + 1)
      refine ⟨k + 1, by omega, ?_, ?_, ?_⟩
      · simp only [createWorkers, hc, ne_eq, not_true_eq_false, if_false, huses, List.range'_succ, List.map_cons]
      · intro j hj
        cases j with
        | zero => exact hc
        | succ j => simpa [Nat.add_assoc, Nat.add_comm 1] using hall j (by omega)
      · simp only [createWorkers, hc, ne_eq, not_true_eq_false, if_false]
        rcases hend with ⟨rfl, h0⟩ | ⟨hlt, hfail, h1⟩
        · exact Or.inl ⟨rfl, h0⟩
        · exact Or.inr ⟨by omega, by simpa [Nat.add_assoc, Nat.add_comm 1] using hfail, h1⟩
    · refine ⟨0, by omega, ?_, fun j hj => absurd hj (Nat.not_lt_zero j), Or.inr ⟨by omega, hc, ?_⟩⟩
      · simp [createWorkers, hc]
      · simp [createWorkers, hc]

/-- What becomes of the addresses and the socket. -/
theorem openServer_cases (h : openServer o e fuel = some (uses, error)) :
    (e.getaddrinfo o.bindhost o.port = none ∧ accepts o e fuel = false ∧ error = socketError ∧ uses = [.release .servinfo]) ∨
    ((e.getaddrinfo o.bindhost o.port).isSome ∧ accepts o e fuel = false ∧ error = socketError ∧
      (uses = [.acquire .servinfo, .release .servinfo] ∨
        uses = [.acquire .servinfo, .acquire .servsock, .release .servsock, .release .servinfo])) ∨
    ((e.getaddrinfo o.bindhost o.port).isSome ∧ accepts o e fuel = true ∧ error = (if e.shutdown.clockFails then generalFailure else 0) ∧
      uses = .acquire .servinfo :: .acquire .servsock :: (List.replicate e.shutdown.signals (.release .servsock) ++
        .release .servsock :: (List.replicate e.shutdown.late (.release .servsock) ++ [.release .servinfo]))) := by
  unfold openServer at h
  unfold accepts
  cases haddr : e.getaddrinfo o.bindhost o.port with
  | none =>
    simp only [haddr, Option.some.injEq, Prod.mk.injEq] at h
    exact Or.inl ⟨rfl, rfl, h.2.symm, h.1.symm⟩
  | some addresses =>
    obtain ⟨first, rest⟩ := addresses
    simp only [haddr] at h
    obtain ⟨s, hs, h⟩ := Option.bind_eq_some_iff.1 h
    right
    by_cases hsock : s.servsock = -1
    · simp only [hsock, if_true, Option.pure_def, Option.some.injEq, Prod.mk.injEq] at h
      exact Or.inl ⟨rfl, by simp [hs, hsock], h.2.symm, Or.inl h.1.symm⟩
    · simp only [hsock, if_false, serverSocket] at h
      by_cases hlistens : e.listens o (bindAddr (first :: rest) s) = true
      · rw [if_pos hlistens] at h
        simp only [Option.pure_def, Option.some.injEq, Prod.mk.injEq] at h
        exact Or.inr ⟨rfl, by simp [hs, hsock, hlistens], h.2.symm, by simp [← h.1]⟩
      · rw [if_neg hlistens] at h
        simp only [Option.pure_def, Option.some.injEq, Prod.mk.injEq] at h
        exact Or.inl ⟨rfl, by simp [hs, hlistens], h.2.symm, Or.inr h.1.symm⟩

/-- What becomes of the workers, the addresses and the socket. -/
theorem startup_cases (h : startup o e fuel = some (uses, error)) :
    (¬OpensDb o e ∧ uses = [] ∧ (error = threadcreationError ↔
      (e.openDb o.trackerDatabaseFile).code = sqliteOk ∧ e.count = threadcreationError)) ∨
    (OpensDb o e ∧ ¬CreatesAll o e ∧ error = threadcreationError ∧
      ∃ k < o.workerthreads.toNat, (k = 0 ↔ e.create 0 ≠ 0) ∧ uses = created k) ∨
    (OpensDb o e ∧ CreatesAll o e ∧
      ∃ uses', openServer o e fuel = some (uses', error) ∧ uses = created o.workerthreads.toNat ++ uses') := by
  unfold startup at h
  by_cases hcode : (e.openDb o.trackerDatabaseFile).code = sqliteOk
  · by_cases hcount : e.count = sqliteOk
    · right
      have hopens : OpensDb o e := ⟨hcode, hcount⟩
      simp only [hcode, hcount, ne_eq, not_true_eq_false, if_false] at h
      obtain ⟨k, hk, huses, hall, hend⟩ := createWorkers_cases e.create o.workerthreads.toNat 0
      simp only [Nat.zero_add, ← List.range_eq_range'] at huses hall hend
      rcases hend with ⟨rfl, h0⟩ | ⟨hlt, hfail, h1⟩
      · simp only [h0, not_true_eq_false, if_false] at h
        obtain ⟨⟨uses', error'⟩, hs, h⟩ := Option.bind_eq_some_iff.1 h
        simp only [Option.pure_def, Option.some.injEq, Prod.mk.injEq] at h
        obtain ⟨hparts, rfl⟩ := h
        exact Or.inr ⟨hopens, hall, uses', hs, by rw [← hparts, huses]; rfl⟩
      · have h2 : threadcreationError ≠ 0 := by decide
        simp only [h1, h2, not_false_eq_true, if_true, Option.some.injEq, Prod.mk.injEq] at h
        refine Or.inl ⟨hopens, fun hc => hfail (hc k hlt), h.2.symm, k, hlt, ?_, by rw [← h.1, huses]; rfl⟩
        constructor
        · rintro rfl
          exact hfail
        · intro h0
          by_contra hk0
          exact h0 (hall 0 (by omega))
    · left
      simp only [hcode, hcount, ne_eq, not_true_eq_false, if_false, not_false_eq_true, if_true, Option.some.injEq, Prod.mk.injEq] at h
      exact ⟨fun hc => hcount hc.2, h.1.symm, by rw [← h.2]; simp [hcode]⟩
  · left
    simp only [hcode, ne_eq, not_false_eq_true, if_true, Option.some.injEq, Prod.mk.injEq] at h
    have h2 : dbError ≠ threadcreationError := by decide
    exact ⟨fun hc => hcode hc.1, h.1.symm, by rw [← h.2]; simp [hcode, h2]⟩

/-! ## The whole -/

/-- The workers of these numbers joined. -/
def joined (m : Nat) : List (Use Resource) := ((List.range m).map Resource.worker).map .release

theorem joinWorkers_eq (o : Options) (error : Int) :
    joinWorkers o error = joined (if error = threadcreationError then 0 else o.workerthreads.toNat) := by
  by_cases h : error = threadcreationError
  · simp [joinWorkers, joined, h]
  · simp [joinWorkers, joined, h]

@[simp] theorem usesOf_created (r : Resource) (k : Nat) :
    usesOf r (created k) = if r ∈ (List.range k).map Resource.worker then [.acquire r] else [] :=
  usesOf_acquire_all (List.range_eq_range' ▸ nodup_workers 0 k) r

@[simp] theorem usesOf_joined (r : Resource) (m : Nat) :
    usesOf r (joined m) = if r ∈ (List.range m).map Resource.worker then [.release r] else [] :=
  usesOf_release_all (List.range_eq_range' ▸ nodup_workers 0 m) r

/-- A worker is released once if it is joined when, and only when, it has been created. -/
theorem toggles_worker (i k m : Nat) :
    Toggles false (usesOf (.worker i) (created k ++ joined m)) false ↔ (i < k ↔ i < m) := by
  by_cases hk : i < k
  · by_cases hm : i < m
    · simp [hk, hm]
    · simp [hk, hm]
  · by_cases hm : i < m
    · simp [hk, hm]
    · simp [hk, hm]

theorem toggles_handle (d : OpenedDb) (close : Int) (r : Resource) :
    Toggles false (usesOf r (d.uses r ++ d.closeUses close r)) false ↔ (d.handle = true → close = sqliteOk) := by
  cases hd : d.handle with
  | false => simp [OpenedDb.uses, OpenedDb.closeUses, hd]
  | true =>
    by_cases hc : close = sqliteOk
    · simp [OpenedDb.uses, OpenedDb.closeUses, hd, hc]
    · simp [OpenedDb.uses, OpenedDb.closeUses, hd, hc]

theorem usesOf_handle {r q : Resource} (h : q ≠ r) (d : OpenedDb) (close : Int) :
    usesOf r (d.uses q) = [] ∧ usesOf r (d.closeUses close q) = [] := by
  constructor
  · rw [OpenedDb.uses]
    split
    · simp [h]
    · rfl
  · rw [OpenedDb.closeUses]
    split
    · simp [h]
    · rfl

/-- The server ends in order if the handle is closed, the workers joined are those created, and the addresses and the socket are
released. -/
theorem leads_parts_iff (d : OpenedDb) (close : Int) (k m : Nat) {uses : List (Use Resource)}
    (huses : ∀ r, r ≠ .servinfo → r ≠ .servsock → usesOf r uses = []) :
    Leads ∅ (.acquire .threads :: .acquire .aqueue :: (d.uses .databaseHandle ++ (created k ++ uses) ++ joined m ++
      d.closeUses close .databaseHandle ++ [.release .threads, .release .aqueue])) ∅ ↔
    (d.handle = true → close = sqliteOk) ∧ k = m ∧ Toggles false (usesOf .servinfo uses) false ∧
      Toggles false (usesOf .servsock uses) false := by
  rw [leads_iff]
  constructor
  · intro h
    have hother : ∀ {r : Resource}, Resource.databaseHandle ≠ r → usesOf r (d.uses .databaseHandle) = [] ∧
        usesOf r (d.closeUses close .databaseHandle) = [] := fun hr => usesOf_handle hr d close
    refine ⟨?_, ?_, ?_, ?_⟩
    · have := h .databaseHandle
      rw [← toggles_handle d close .databaseHandle]
      simpa [huses] using this
    · have hi : ∀ i, i < k ↔ i < m := by
        intro i
        have := h (.worker i)
        rw [← toggles_worker i k m]
        simpa [huses, hother] using this
      have h1 := hi k
      have h2 := hi m
      omega
    · simpa [hother] using h .servinfo
    · simpa [hother] using h .servsock
  · rintro ⟨hd, rfl, hinfo, hsock⟩ r
    have hother : Resource.databaseHandle ≠ r → usesOf r (d.uses .databaseHandle) = [] ∧
        usesOf r (d.closeUses close .databaseHandle) = [] := fun hr => usesOf_handle hr d close
    cases r with
    | threads => simp [huses, hother]
    | aqueue => simp [huses, hother]
    | databaseHandle => simpa [huses] using (toggles_handle d close .databaseHandle).2 hd
    | worker i => simpa [huses, hother] using (toggles_worker i k k).2 Iff.rfl
    | servinfo => simpa [hother] using hinfo
    | servsock => simpa [hother] using hsock
    | dbHandle => simp [huses, hother]

/-- What `main` does once it has begun. -/
theorem handleClients_eq (hb : Begins o e) (h : handleClients o e fuel = some (uses, error)) :
    ∃ uses', startup o e fuel = some (uses', error) ∧
      uses = .acquire .threads :: .acquire .aqueue :: ((e.openDb o.trackerDatabaseFile).uses .databaseHandle ++ uses' ++
        joined (if error = threadcreationError then 0 else o.workerthreads.toNat) ++
        (e.openDb o.trackerDatabaseFile).closeUses e.close .databaseHandle ++ [.release .threads, .release .aqueue]) := by
  obtain ⟨hthreads, haqueue, hclock⟩ := hb
  simp only [handleClients, hthreads, haqueue, hclock, Bool.true_eq_false, if_false] at h
  obtain ⟨⟨uses', error'⟩, hs, h⟩ := Option.bind_eq_some_iff.1 h
  simp only [Option.pure_def, Option.some.injEq, Prod.mk.injEq, joinWorkers_eq] at h
  obtain ⟨hparts, rfl⟩ := h
  exact ⟨uses', hs, hparts.symm⟩

/-- What is acquired before there is a time is released. -/
theorem leads_of_not_begins (hb : ¬Begins o e) (h : handleClients o e fuel = some (uses, error)) : Leads ∅ uses ∅ := by
  unfold handleClients at h
  split at h
  · obtain ⟨rfl, -⟩ := Prod.mk.inj (Option.some.inj h)
    decide
  split at h
  · obtain ⟨rfl, -⟩ := Prod.mk.inj (Option.some.inj h)
    decide
  split at h
  · obtain ⟨rfl, -⟩ := Prod.mk.inj (Option.some.inj h)
    decide
  · rename_i hthreads haqueue hclock
    exact absurd ⟨by simpa using hthreads, by simpa using haqueue, by simpa using hclock⟩ hb

/-- The listening socket, closed by the signal handler so often before and behind `main`. -/
theorem toggles_servsock (signals late : Nat) :
    Toggles true (List.replicate signals (.release Resource.servsock) ++ .release .servsock :: List.replicate late (.release .servsock))
      false ↔ signals = 0 ∧ late = 0 := by
  cases signals with
  | zero =>
    cases late with
    | zero => simp
    | succ late => simp [List.replicate_succ]
  | succ signals =>
    cases signals with
    | zero => simp [List.replicate_succ]
    | succ signals => simp [List.replicate_succ]

theorem usesOf_replicate (r q : Resource) (n : Nat) :
    usesOf r (List.replicate n (.release q)) = if q = r then List.replicate n (.release q) else [] := by
  induction n with
  | zero => simp
  | succ n ih =>
    rw [List.replicate_succ, usesOf_release, ih]
    split
    · rfl
    · rfl

/-- The addresses and the socket are released if there are addresses, and no signal comes in the accept loop. -/
theorem openServer_toggles (h : openServer o e fuel = some (uses, error)) :
    (∀ r, r ≠ .servinfo → r ≠ .servsock → usesOf r uses = []) ∧
    (Toggles false (usesOf .servinfo uses) false ∧ Toggles false (usesOf .servsock uses) false ↔
      (e.getaddrinfo o.bindhost o.port).isSome = true ∧
        (accepts o e fuel = true → e.shutdown.signals = 0 ∧ e.shutdown.late = 0)) := by
  rcases openServer_cases h with ⟨haddr, haccepts, -, rfl⟩ | ⟨haddr, haccepts, -, rfl | rfl⟩ | ⟨haddr, haccepts, -, rfl⟩
  · exact ⟨fun r h1 _ => by simp [h1.symm], by simp [haddr]⟩
  · exact ⟨fun r h1 _ => by simp [h1.symm], by simp [haddr, haccepts]⟩
  · exact ⟨fun r h1 h2 => by simp [h1.symm, h2.symm], by simp [haddr, haccepts]⟩
  · refine ⟨fun r h1 h2 => by simp [h1.symm, h2.symm, usesOf_replicate], ?_⟩
    simp [haddr, haccepts, usesOf_replicate, toggles_servsock]

/-- Behind the creation of the workers, no other error is taken for its failure. -/
theorem openServer_error (h : openServer o e fuel = some (uses, error)) : error ≠ threadcreationError := by
  rcases openServer_cases h with ⟨-, -, rfl, -⟩ | ⟨-, -, rfl, -⟩ | ⟨-, -, rfl, -⟩
  · decide
  · decide
  · split
    · decide
    · decide

/-- Once it has begun, the server releases what it has acquired, and nothing else, if it ends in order. -/
theorem leads_iff_inOrder (hb : Begins o e) (h : handleClients o e fuel = some (uses, error)) :
    Leads ∅ uses ∅ ↔ InOrder o e fuel := by
  obtain ⟨uses', hs, rfl⟩ := handleClients_eq hb h
  rcases startup_cases hs with ⟨hopens, rfl, herror⟩ | ⟨hopens, hall, rfl, k, -, hk0, rfl⟩ | ⟨hopens, hall, rest, hrest, rfl⟩
  · have hparts := @leads_parts_iff (e.openDb o.trackerDatabaseFile) e.close 0
      (if error = threadcreationError then 0 else o.workerthreads.toNat) [] (fun r _ _ => usesOf_nil r)
    refine hparts.trans (and_congr_right fun _ => ?_)
    simp only [usesOf_nil, toggles_nil, and_true, hopens, not_false_eq_true, true_imp_iff, false_imp_iff, ← herror]
    split
    · rename_i h9003
      simp [h9003]
    · rename_i h9003
      simp only [h9003, or_false]
      omega
  · have hparts := @leads_parts_iff (e.openDb o.trackerDatabaseFile) e.close k 0 [] (fun r _ _ => usesOf_nil r)
    rw [List.append_nil] at hparts
    rw [if_pos rfl]
    refine hparts.trans (and_congr_right fun _ => ?_)
    simp [hopens, hall, hk0]
  · obtain ⟨hother, htoggles⟩ := openServer_toggles hrest
    rw [if_neg (openServer_error hrest)]
    refine (leads_parts_iff _ e.close _ _ hother).trans (and_congr_right fun _ => ?_)
    simp only [hopens, hall, htoggles, not_true_eq_false, false_imp_iff, true_imp_iff, true_and]

/-- With which error a server ends that has reached the accept loop. -/
theorem error_of_accepts (hb : Begins o e) (hopens : OpensDb o e) (hall : CreatesAll o e) (haccepts : accepts o e fuel = true)
    (h : handleClients o e fuel = some (uses, error)) : error = if e.shutdown.clockFails then generalFailure else 0 := by
  obtain ⟨uses', hs, rfl⟩ := handleClients_eq hb h
  rcases startup_cases hs with ⟨hnot, -⟩ | ⟨-, hnot, -⟩ | ⟨-, -, rest, hrest, -⟩
  · exact absurd hopens hnot
  · exact absurd hall hnot
  · rcases openServer_cases hrest with ⟨-, hnot, -⟩ | ⟨-, hnot, -⟩ | ⟨-, -, heq, -⟩
    · rw [haccepts] at hnot
      cases hnot
    · rw [haccepts] at hnot
      cases hnot
    · exact heq

/-- A database is created without a handle left open if all calls succeed, or there is no handle. -/
theorem createEmptyDatabase_leads_iff (e : MainEnv) (filename : Bytes) :
    Leads ∅ (createEmptyDatabase e filename).1 ∅ ↔ ((e.openDb filename).handle = true →
      (e.openDb filename).code = sqliteOk ∧ e.createTorrents = sqliteOk ∧ e.createPeers = sqliteOk ∧ e.close = sqliteOk) := by
  have hnone : Leads ∅ ([] : List (Use Resource)) ∅ := by decide
  have hopen : ¬Leads ∅ [Use.acquire Resource.dbHandle] ∅ := by decide
  have hclosed : Leads ∅ [Use.acquire Resource.dbHandle, .release .dbHandle] ∅ := by decide
  cases hd : (e.openDb filename).handle with
  | false =>
    have hcode : (e.openDb filename).code ≠ sqliteOk := fun hc => by simp [(e.openDb filename).given hc] at hd
    simpa [createEmptyDatabase, hcode, OpenedDb.uses, hd] using hnone
  | true =>
    by_cases hok : (e.openDb filename).code = sqliteOk ∧ e.createTorrents = sqliteOk ∧ e.createPeers = sqliteOk
    · by_cases hc : e.close = sqliteOk
      · simpa [createEmptyDatabase, OpenedDb.uses, OpenedDb.closeUses, hd, hok, hc] using hclosed
      · simpa [createEmptyDatabase, OpenedDb.uses, OpenedDb.closeUses, hd, hok, hc] using hopen
    · have hfail : (e.openDb filename).code ≠ sqliteOk ∨ e.createTorrents ≠ sqliteOk ∨ e.createPeers ≠ sqliteOk := by
        by_contra hall
        simp only [not_or, not_not] at hall
        exact hok hall
      simp only [createEmptyDatabase, if_pos hfail, OpenedDb.uses, hd, if_true, true_imp_iff]
      exact ⟨fun h => absurd h hopen, fun h => absurd ⟨h.1, h.2.1, h.2.2.1⟩ hok⟩

end LifecycleAux

open LifecycleAux

/-- For all arguments and all answers to the calls of `main`: a run of the server releases everything it has acquired, each resource once,
and nothing it has not acquired, if and only if it does not begin or ends in order; and one that has reached the accept loop and does so
ends with a failure. The creation of a database does so if and only if it succeeds or there is no handle. -/
theorem main_releases (argv : List Bytes) (e : MainEnv) (fuel : Nat) (uses : List (Use Resource)) (error : Int)
    (h : main argv e fuel = some (uses, error)) :
    (∀ o, command argv = some (.serve o) →
      (Leads ∅ uses ∅ ↔ (Begins o e → InOrder o e fuel)) ∧
      (Begins o e → OpensDb o e → CreatesAll o e → accepts o e fuel = true → Leads ∅ uses ∅ → error = generalFailure)) ∧
    ∀ filename, command argv = some (.create filename) →
      (Leads ∅ uses ∅ ↔ ((e.openDb filename).handle = true →
        (e.openDb filename).code = sqliteOk ∧ e.createTorrents = sqliteOk ∧ e.createPeers = sqliteOk ∧ e.close = sqliteOk)) := by
  obtain ⟨c, hc, h⟩ := Option.bind_eq_some_iff.1 h
  refine ⟨fun o ho => ?_, fun filename hf => ?_⟩
  · obtain rfl := Option.some.inj (hc.symm.trans ho)
    have hiff : Leads ∅ uses ∅ ↔ (Begins o e → InOrder o e fuel) := by
      by_cases hb : Begins o e
      · simpa only [hb, true_imp_iff] using leads_iff_inOrder hb h
      · simpa only [hb, false_imp_iff, iff_true] using leads_of_not_begins hb h
    refine ⟨hiff, fun hb hopens hall haccepts hleads => ?_⟩
    have hquiet := ((hiff.1 hleads hb).2.2.2 hopens hall).2 haccepts
    rw [error_of_accepts hb hopens hall haccepts h, e.shutdown.left hquiet.1, if_pos rfl]
  · obtain rfl := Option.some.inj (hc.symm.trans hf)
    obtain rfl := congrArg Prod.fst (Option.some.inj h)
    exact createEmptyDatabase_leads_iff e filename

namespace LifecycleExample

/-- `traccoon -w 2 -p 80`. -/
def argv : List Bytes := [ascii "traccoon", ascii "-w", ascii "2", ascii "-p", ascii "80"]

/-- All calls succeed, and the accept loop is left by one signal. -/
def answers : MainEnv :=
  { threads := fun _ => true
    aqueue := fun _ => true
    clock := true
    openDb := fun _ => { code := sqliteOk, handle := true, given := fun _ => rfl }
    count := sqliteOk
    createTorrents := sqliteOk
    createPeers := sqliteOk
    create := fun _ => 0
    getaddrinfo := fun _ _ => some ({ aiFamily := 2, aiSocktype := 1, aiProtocol := 6, aiAddr := [] }, [])
    socket := fun _ _ _ _ => 3
    setsockopt := true
    bind := fun _ => true
    listen := fun _ => true
    shutdown := { signals := 1, late := 0, clockFails := false, left := fun h => absurd h (by decide) }
    close := sqliteOk }

/-- No signal comes, and the accept loop is left when there is no time. -/
def timeless : MainEnv := { answers with shutdown := { signals := 0, late := 0, clockFails := true, left := fun _ => rfl } }

end LifecycleExample

open LifecycleExample

/-- Two workers: stopped by the signal, the listening socket is closed twice; without one all is released, and `main` ends with a
failure. -/
theorem main_releases_stopped :
    (∃ uses, main argv answers 1 = some (uses, 0) ∧ ¬Leads ∅ uses ∅) ∧
    ∃ uses error, main argv timeless 1 = some (uses, error) ∧ Leads ∅ uses ∅ ∧ error = generalFailure := by
  constructor
  · refine ⟨_, rfl, fun hleads => ?_⟩
    have h := main_releases argv answers 1 _ 0 rfl
    have herror := (h.1 _ rfl).2 ⟨rfl, rfl, rfl⟩ ⟨rfl, rfl⟩ (fun _ _ => rfl) (by decide) hleads
    exact absurd herror (by decide)
  · refine ⟨_, _, rfl, ?_⟩
    have h := main_releases argv timeless 1 _ _ rfl
    have hleads := (h.1 _ rfl).1.2 fun _ => ⟨fun _ => rfl, fun hopens => absurd ⟨rfl, rfl⟩ hopens,
      fun _ hall => absurd (fun _ _ => rfl) hall, fun _ _ => ⟨rfl, fun _ => ⟨rfl, rfl⟩⟩⟩
    exact ⟨hleads, (h.1 _ rfl).2 ⟨rfl, rfl, rfl⟩ ⟨rfl, rfl⟩ (fun _ _ => rfl) (by decide) hleads⟩

end Traccoon
