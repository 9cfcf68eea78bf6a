import Noobs.Proof.Boot
import Noobs.Spec.Server

/-!
# One request, one response

Two callbacks send the response themselves and then boot. A boot that fails returns, and
the server sends the response again.

* `one_response_iff`: **a request gets exactly one response** iff receiving and parsing it
  do not end the process, and the boot succeeds where a callback tries one.
-/

namespace Noobs

variable {I : IntType} {sys : Sysfs} {parseOS : Text → Except Fault (Option OSInfo)}
  {m : Machine} {request : Request} {c : Connection} {response : Response}

/-! ## Boots that do not return -/

/-- The default boot file names a partition, there is a file to hand its number over, and
the next `reboot` succeeds. -/
def CanBoot (m : Machine) : Prop :=
  (partitionNumberOf m.world.defaultDevice).isSome = true ∧ m.world.rebootDev.isSome = true ∧
    (m.next .reboot).ok = true

instance (m : Machine) : Decidable (CanBoot m) := by unfold CanBoot; infer_instance

theorem next_handOver (m : Machine) (dev : Path) (n : ℤ) : (m.handOver dev n).next .reboot = m.next .reboot := by
  have hopened : (m.act (.openFile dev) .empty).2.next .reboot = m.next .reboot := next_act (by simp)
  unfold Machine.handOver
  simp only
  rw [next_act (by simp), next_act (by simp)]
  split_ifs
  · rw [next_act (by simp), hopened]
  · exact hopened

/-- **A boot gets as far as to reboot** iff it can. -/
theorem boots_iff : (m.run (bootIntoPartition [])).1 = true ↔ CanBoot m := by
  rw [run_boot_default, run_bootDevice]
  unfold CanBoot
  cases partitionNumberOf m.world.defaultDevice with
  | none => simp
  | some n =>
    cases m.world.rebootDev with
    | none => simp
    | some dev =>
      show ((m.handOver dev n).next .reboot).ok = true ↔ _
      rw [next_handOver]
      simp

/-! ## Callbacks -/

/-- A callback that boots has sent its response twice if it cannot. -/
theorem sendAndBoot_responses (hc : c.responses = []) :
    (afterCallback (sendAndBoot response c)).2.responses.length = 1 ↔ CanBoot c.machine := by
  have hrun : ((c.sendResponse response).machine.run (bootIntoPartition [])).1 = true ↔
      CanBoot c.machine := boots_iff
  unfold sendAndBoot
  simp only [hrun]
  split_ifs with hboot
  · simp [afterCallback, Connection.sendResponse, hc, hboot]
  · simp [afterCallback, Connection.sendResponse, hc, hboot]

/-- What the body of a request to install asks for goes through without a fault, and the
device boots after an installation that is to end with it. -/
def InstallAnsweredOnce (I : IntType) (sys : Sysfs) (parseOS : Text → Except Fault (Option OSInfo))
    (request : Request) (m : Machine) : Prop :=
  ∃ osInfo, parseOS (cString request.body) = .ok osInfo ∧
    let autoReboot := request.header.contains "AutoReboot".toList
    let r := m.run (installOSREST I sys autoReboot osInfo)
    r.1.code = 200 → autoReboot = true → CanBoot r.2

theorem installOSCallback_responses (hc : c.responses = []) :
    (afterCallback (installOSCallback I sys parseOS request c)).2.responses.length = 1 ↔
      InstallAnsweredOnce I sys parseOS request c.machine := by
  unfold installOSCallback InstallAnsweredOnce
  cases hparse : parseOS (cString request.body) with
  | error f => simp [afterCallback, hc]
  | ok osInfo =>
    simp only [Except.ok.injEq, exists_eq_left']
    split_ifs with h
    · have hc' : ({ c with machine := (c.machine.run (installOSREST I sys
          (request.header.contains "AutoReboot".toList) osInfo)).2 } : Connection).responses = [] := hc
      exact (sendAndBoot_responses hc').trans ⟨fun hboot _ _ => hboot, fun hboot => hboot h.1 h.2⟩
    · have hone : ∀ r (c : Connection), c.responses = [] →
          (afterCallback (.response r, c)).2.responses.length = 1 := by
        intro r c hc
        simp [afterCallback, Connection.sendResponse, hc]
      rw [not_and] at h
      exact iff_of_true (hone _ _ hc) fun h1 h2 => absurd h2 (h h1)

/-! ## Requests -/

/-- The request is to this path and posts. -/
def Request.PostsTo (request : Request) (path : String) : Prop :=
  request.path = path.toList ∧ request.method = "POST".toList

instance (request : Request) (path : String) : Decidable (request.PostsTo path) := by
  unfold Request.PostsTo; infer_instance

theorem post_matches (path : String) (callback : Callback) :
    (post path callback).Matches request = true ↔ request.PostsTo path := by
  have hall : "POST".toList ≠ "ALL".toList := by decide
  unfold Route.Matches post Request.PostsTo
  rw [decide_eq_true_iff]
  simp only [hall, or_false, eq_comm]

/-- Nothing stands in the way of exactly one response to what was received. -/
def AnsweredOnce (I : IntType) (sys : Sysfs) (parseOS : Text → Except Fault (Option OSInfo)) (m : Machine) :
    Except Fault (Bool × Request × Socket) → Prop
  | .error _ => False
  | .ok (false, _) => True
  | .ok (true, request, _) =>
    if request.PostsTo "/os" then InstallAnsweredOnce I sys parseOS request m
    else if request.PostsTo "/reboot" then CanBoot m
    else True

/-- **A request gets exactly one response** iff receiving and parsing it do not end the
process, and the boot succeeds where a callback tries one. -/
theorem one_response_iff {fuel : ℕ} {socket : Socket} {received : Except Fault (Bool × Request × Socket)}
    (h : receiveRequest fuel socket = some received) :
    ∃ ending c, serveConnection I sys parseOS fuel socket m = some (ending, c) ∧
      (c.responses.length = 1 ↔ AnsweredOnce I sys parseOS m received) := by
  unfold serveConnection
  rw [h]
  rcases received with f | ⟨_ | _, request, socket'⟩
  · exact ⟨_, _, rfl, by simp [AnsweredOnce]⟩
  · exact ⟨_, _, rfl, by simp [AnsweredOnce, Connection.sendResponse]⟩
  -- the request goes to one of the routes, or to none
  simp only [routes, matchRoute, post_matches, AnsweredOnce]
  by_cases hos : request.PostsTo "/os"
  · rw [if_pos hos, if_pos hos]
    exact ⟨_, _, rfl, installOSCallback_responses rfl⟩
  rw [if_neg hos, if_neg hos]
  by_cases hset : request.PostsTo "/bootPartition"
  · rw [if_pos hset, if_neg fun hboot => by
      have heq := hset.1.symm.trans hboot.1
      revert heq
      decide]
    exact ⟨_, _, rfl, iff_of_true rfl trivial⟩
  rw [if_neg hset]
  by_cases hboot : request.PostsTo "/reboot"
  · rw [if_pos hboot, if_pos hboot]
    exact ⟨_, _, rfl, sendAndBoot_responses rfl⟩
  rw [if_neg hboot, if_neg hboot]
  by_cases hexit : request.PostsTo "/exit"
  · rw [if_pos hexit]
    exact ⟨_, _, rfl, iff_of_true rfl trivial⟩
  · rw [if_neg hexit]
    exact ⟨_, _, rfl, iff_of_true rfl trivial⟩

/-- `POST /reboot`. -/
def rebootSocket : Socket :=
  { events := [.chunk ⟨"POST /reboot HTTP/1.1\r\n\r\n".toList, by decide, by decide⟩], idle := .timeout }

/-- A device that can boot partition 6 says so and reboots. -/
theorem demo_one_response : ∃ ending c,
    serveConnection int32 smallCard (fun _ => .ok none) 1 rebootSocket
        (storing "/dev/mmcblk0p6".toList) = some (ending, c) ∧ c.responses.length = 1 := by
  obtain ⟨request, socket, hreceived, hreboot⟩ : ∃ request socket,
      receiveRequest 1 rebootSocket = some (.ok (true, request, socket)) ∧ request.PostsTo "/reboot" :=
    ⟨_, _, rfl, by decide⟩
  obtain ⟨ending, c, hserve, hiff⟩ :=
    @one_response_iff int32 smallCard (fun _ => .ok none) (storing "/dev/mmcblk0p6".toList) _ _ _ hreceived
  refine ⟨ending, c, hserve, hiff.2 ?_⟩
  have hnot : ¬request.PostsTo "/os" := by
    intro hos
    have heq := hos.1.symm.trans hreboot.1
    revert heq
    decide
  simp only [AnsweredOnce, if_neg hnot, if_pos hreboot]
  decide

/-- Nothing is named by its default boot file, so it does not reboot, and says so twice. -/
theorem second_response : ∃ ending c,
    serveConnection int32 smallCard (fun _ => .ok none) 1 rebootSocket (storing []) = some (ending, c) ∧
      ending = .closed ∧ c.responses.length = 2 ∧ ¬c.responses.length = 1 := by
  refine ⟨_, _, rfl, rfl, rfl, ?_⟩
  decide

end Noobs
