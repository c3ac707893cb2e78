import LbRpc.Reactor.ThreadPool

/-!
# What is sent to a worker is done once, in order

A message goes from the queue of a worker through the loop of `deal_task_message`, a task
from there through `_ready_tasks`.

* `Worker.Good`: what a worker has done and what is on its way are together what it was
  sent, and the counter of its eventfd counts its queue. Every statement keeps it.
* `Worker.work`: how many statements a worker is away from having done all.
* `sent_once`: in every run nothing is lost, repeated or overtaken, a queue that is not empty
  can be read from its eventfd, and what was sent is done when the worker has gone on often
  enough, whatever comes behind it.
-/

namespace LbRpc

open Runs

namespace ThreadPool

variable {n : ℕ} {τ : Type*} {k : Worker τ}

/-- The descriptors of the `NEW_CONN` messages. -/
def connsOf : List (TaskMsg τ) → List Fd
  | [] => []
  | .newConn connfd :: ms => connfd :: connsOf ms
  | .newTask _ _ :: ms => connsOf ms

/-- The tasks of the `NEW_TASK` messages. -/
def tasksOf : List (TaskMsg τ) → List (τ × Option ℕ)
  | [] => []
  | .newConn _ :: ms => tasksOf ms
  | .newTask task call :: ms => (task, call) :: tasksOf ms

theorem connsOf_append (ms ms' : List (TaskMsg τ)) : connsOf (ms ++ ms') = connsOf ms ++ connsOf ms' := by
  induction ms with
  | nil => rfl
  | cons m ms ih =>
    cases m with
    | newConn connfd => exact congrArg (connfd :: ·) ih
    | newTask task call => exact ih

theorem tasksOf_append (ms ms' : List (TaskMsg τ)) : tasksOf (ms ++ ms') = tasksOf ms ++ tasksOf ms' := by
  induction ms with
  | nil => rfl
  | cons m ms ih =>
    cases m with
    | newConn connfd => exact ih
    | newTask task call => exact congrArg ((task, call) :: ·) ih

namespace Worker

/-- The messages that the worker has received and not dealt with. -/
def received (k : Worker τ) : List (TaskMsg τ) :=
  match k.pc with
  | .deal tasks => tasks
  | _ => []

/-- The ready tasks that are still to be run. -/
def deferred (k : Worker τ) : List (τ × Option ℕ) :=
  match k.pc with
  | .execute rest => rest
  | _ => k.readyTasks

/-- The descriptors that are on their way to a `TCPConn`. -/
def pendingConns (k : Worker τ) : List Fd := connsOf (k.received ++ k.queue)

/-- The tasks that are on their way to be run. -/
def pendingTasks (k : Worker τ) : List (τ × Option ℕ) := k.deferred ++ tasksOf (k.received ++ k.queue)

/-- The loop has ready tasks only between `deal_task_message` and `execute_ready_tasks`. -/
def Cleared (k : Worker τ) : Prop :=
  match k.pc with
  | .setCallback => k.readyTasks = []
  | .epollWait => k.readyTasks = []
  | .fired => k.readyTasks = []
  | .deal _ => True
  | .execute _ => True

/-- **Done and on the way are what was sent.** -/
structure Good (k : Worker τ) : Prop where
  evfd : k.evfd = k.queue.length
  cleared : k.Cleared
  conns : k.conns ++ k.pendingConns = connsOf k.sent
  tasks : k.ran ++ k.pendingTasks = tasksOf k.sent

theorem good_new : (new : Worker τ).Good := ⟨rfl, rfl, rfl, rfl⟩

theorem Good.send (h : k.Good) (m : TaskMsg τ) : (k.send m).Good where
  evfd := by
    show k.evfd + 1 = (k.queue ++ [m]).length
    rw [h.evfd, List.length_append, List.length_singleton]
  cleared := h.cleared
  conns := by
    show k.conns ++ connsOf (k.received ++ (k.queue ++ [m])) = connsOf (k.sent ++ [m])
    rw [connsOf_append k.sent, ← h.conns, ← List.append_assoc k.received, connsOf_append _ [m],
      ← List.append_assoc]
    rfl
  tasks := by
    show k.ran ++ (k.deferred ++ tasksOf (k.received ++ (k.queue ++ [m]))) = tasksOf (k.sent ++ [m])
    rw [tasksOf_append k.sent, ← h.tasks, ← List.append_assoc k.received, tasksOf_append _ [m],
      ← List.append_assoc k.deferred, ← List.append_assoc]
    rfl

/-- **Every statement of a worker hands on what it takes.** -/
theorem Good.go (h : k.Good) : k.go.Good := by
  obtain ⟨pc, queue, evfd, readyTasks, conns, ran, sent⟩ := k
  obtain ⟨hevfd, hclear, hconns, htasks⟩ := h
  cases pc with
  | setCallback => exact ⟨hevfd, hclear, hconns, htasks⟩
  | epollWait =>
    unfold Worker.go
    dsimp only
    split
    · exact ⟨hevfd, hclear, hconns, htasks⟩
    · exact ⟨hevfd, trivial, hconns, htasks⟩
  | fired =>
    refine ⟨rfl, trivial, ?_, ?_⟩
    · show conns ++ connsOf (queue ++ []) = connsOf sent
      rw [List.append_nil]
      exact hconns
    · show ran ++ (readyTasks ++ tasksOf (queue ++ [])) = tasksOf sent
      rw [List.append_nil]
      exact htasks
  | deal tasks =>
    cases tasks with
    | nil => exact ⟨hevfd, trivial, hconns, htasks⟩
    | cons m tasks =>
      cases m with
      | newConn connfd =>
        refine ⟨hevfd, trivial, ?_, htasks⟩
        show conns ++ [connfd] ++ connsOf (tasks ++ queue) = connsOf sent
        rw [List.append_assoc]
        exact hconns
      | newTask task call =>
        refine ⟨hevfd, trivial, hconns, ?_⟩
        show ran ++ (readyTasks ++ [(task, call)] ++ tasksOf (tasks ++ queue)) = tasksOf sent
        rw [List.append_assoc readyTasks]
        exact htasks
  | execute rest =>
    cases rest with
    | nil => exact ⟨hevfd, rfl, hconns, htasks⟩
    | cons task rest =>
      refine ⟨hevfd, trivial, hconns, ?_⟩
      show ran ++ [task] ++ (rest ++ tasksOf ([] ++ queue)) = tasksOf sent
      rw [List.append_assoc]
      exact htasks

theorem Good.pass (h : k.Good) : k.pass.Good := by
  obtain ⟨pc, queue, evfd, readyTasks, conns, ran, sent⟩ := k
  obtain ⟨hevfd, hclear, hconns, htasks⟩ := h
  cases pc with
  | epollWait => exact ⟨hevfd, trivial, hconns, htasks⟩
  | setCallback => exact ⟨hevfd, hclear, hconns, htasks⟩
  | fired => exact ⟨hevfd, hclear, hconns, htasks⟩
  | deal tasks => exact ⟨hevfd, hclear, hconns, htasks⟩
  | execute rest => exact ⟨hevfd, hclear, hconns, htasks⟩

/-! ## How far a worker is from having done all -/

/-- What a queue that waits for the next `epoll_wait` still costs, from the end of
`execute_ready_tasks` on. -/
def roundTrip (queue : List (TaskMsg τ)) : ℕ := if queue = [] then 0 else 2 * queue.length + 4

/-- The statements until all that was sent is done. -/
def work (k : Worker τ) : ℕ :=
  match k.pc with
  | .setCallback => roundTrip k.queue
  | .epollWait => roundTrip k.queue - 1
  | .fired => 2 * k.queue.length + 2
  | .deal tasks => 2 * tasks.length + k.readyTasks.length + 1 + roundTrip k.queue
  | .execute rest => rest.length + roundTrip k.queue

theorem roundTrip_snoc (queue : List (TaskMsg τ)) (m : TaskMsg τ) :
    roundTrip queue ≤ roundTrip (queue ++ [m]) ∧ roundTrip (queue ++ [m]) ≤ roundTrip queue + 6 := by
  have hne : queue ++ [m] ≠ [] := by simp
  unfold roundTrip
  rw [if_neg hne, List.length_append, List.length_singleton]
  split
  · rename_i hnil
    rw [hnil, List.length_nil]
    omega
  · omega

theorem work_send (k : Worker τ) (m : TaskMsg τ) : (k.send m).work ≤ k.work + 6 := by
  obtain ⟨pc, queue, evfd, readyTasks, conns, ran, sent⟩ := k
  have htrip := roundTrip_snoc queue m
  have hlen : (queue ++ [m]).length = queue.length + 1 := by simp
  unfold work Worker.send
  cases pc <;> dsimp only <;> omega

/-- **Each statement brings a worker nearer** to having done all. -/
theorem Good.work_go (h : k.Good) (hne : k.work ≠ 0) : k.go.work + 1 ≤ k.work := by
  obtain ⟨pc, queue, evfd, readyTasks, conns, ran, sent⟩ := k
  obtain ⟨hevfd, hclear, -, -⟩ := h
  change evfd = queue.length at hevfd
  have hnil : roundTrip ([] : List (TaskMsg τ)) = 0 := rfl
  have hcons : queue ≠ [] → roundTrip queue = 2 * queue.length + 4 := fun hq => if_neg hq
  have hlen := List.length_pos_iff (l := queue)
  unfold work at hne ⊢
  unfold Worker.go Worker.recv
  cases pc with
  | setCallback =>
    dsimp only at hne ⊢
    omega
  | epollWait =>
    dsimp only at hne ⊢
    have hq : queue ≠ [] := by
      rintro rfl
      rw [hnil] at hne
      omega
    have hread : 0 < evfd := by
      rw [hevfd]
      exact hlen.2 hq
    rw [if_pos hread]
    dsimp only
    have htrip := hcons hq
    omega
  | fired =>
    have hready : readyTasks = [] := hclear
    dsimp only
    rw [hready, hnil, List.length_nil]
  | deal tasks =>
    cases tasks with
    | nil =>
      dsimp only
      rw [List.length_nil]
      omega
    | cons m tasks =>
      cases m with
      | newConn connfd =>
        dsimp only
        rw [List.length_cons]
        omega
      | newTask task call =>
        dsimp only
        rw [List.length_cons, List.length_append, List.length_singleton]
        omega
  | execute rest =>
    cases rest with
    | nil =>
      dsimp only at hne ⊢
      rw [List.length_nil] at hne ⊢
      omega
    | cons task rest =>
      dsimp only
      rw [List.length_cons]
      omega

/-- A worker without work has done all that it was sent. -/
theorem Good.done (h : k.Good) (hwork : k.work = 0) : k.conns = connsOf k.sent ∧ k.ran = tasksOf k.sent := by
  obtain ⟨pc, queue, evfd, readyTasks, conns, ran, sent⟩ := k
  obtain ⟨-, hclear, hconns, htasks⟩ := h
  have hq : roundTrip queue ≤ 1 → queue = [] := by
    intro hle
    by_contra hne
    unfold roundTrip at hle
    rw [if_neg hne] at hle
    omega
  unfold work at hwork
  unfold pendingConns received at hconns
  unfold pendingTasks received deferred at htasks
  cases pc with
  | setCallback =>
    have hready : readyTasks = [] := hclear
    dsimp only at hwork hconns htasks
    rw [hq (by omega)] at hconns htasks
    rw [hready] at htasks
    exact ⟨(List.append_nil _).symm.trans hconns, (List.append_nil _).symm.trans htasks⟩
  | epollWait =>
    have hready : readyTasks = [] := hclear
    dsimp only at hwork hconns htasks
    rw [hq (by omega)] at hconns htasks
    rw [hready] at htasks
    exact ⟨(List.append_nil _).symm.trans hconns, (List.append_nil _).symm.trans htasks⟩
  | fired =>
    dsimp only at hwork
    omega
  | deal tasks =>
    dsimp only at hwork
    omega
  | execute rest =>
    dsimp only at hwork hconns htasks
    have hrest : rest = [] := List.length_eq_zero_iff.1 (by omega)
    rw [hq (by omega)] at hconns htasks
    rw [hrest] at htasks
    exact ⟨(List.append_nil _).symm.trans hconns, (List.append_nil _).symm.trans htasks⟩

theorem go_sent (k : Worker τ) : k.go.sent = k.sent := by
  unfold Worker.go
  split
  · rfl
  · split <;> rfl
  all_goals rfl

theorem pass_sent (k : Worker τ) : k.pass.sent = k.sent := by
  unfold Worker.pass
  split <;> rfl

end Worker

/-! ## The pool -/

variable {s s' : ThreadPool n τ} {e : Event n τ} {w : Fin n}

/-- What a worker is to have been sent by a call of `send_task`: its task, once the loop of
the call has been there. -/
def callTasks (s : ThreadPool n τ) (call : ℕ) (w : Fin n) : List (τ × Option ℕ) :=
  match s.calls[call]? with
  | none => []
  | some c => if w < c.i then [(c.task, some call)] else []

/-- The tasks of one call. -/
def ofCall (call : ℕ) (tasks : List (τ × Option ℕ)) : List (τ × Option ℕ) :=
  tasks.filter fun t => t.2 = some call

/-- **Delivery at one moment.** Neither a descriptor nor a task is lost, repeated or
overtaken, and nothing waits behind an eventfd that cannot be read. -/
structure Delivering (s : ThreadPool n τ) : Prop where
  readable : ∀ w, (s.workers w).queue ≠ [] → 0 < (s.workers w).evfd
  conns : ∀ w, (s.workers w).conns ++ (s.workers w).pendingConns = connsOf (s.workers w).sent
  tasks : ∀ w, (s.workers w).ran ++ (s.workers w).pendingTasks = tasksOf (s.workers w).sent
  calls : ∀ call w,
    ofCall call ((s.workers w).ran ++ (s.workers w).pendingTasks) = s.callTasks call w

/-- The invariant of the pool. -/
structure Inv (s : ThreadPool n τ) : Prop where
  good : ∀ w, (s.workers w).Good
  calls : ∀ call w, ofCall call (tasksOf (s.workers w).sent) = s.callTasks call w

theorem inv_new : (new n τ).Inv := ⟨fun _ => Worker.good_new, fun _ _ => rfl⟩

theorem Inv.delivering (h : s.Inv) : s.Delivering where
  readable := by
    intro w hne
    rw [(h.good w).evfd]
    exact List.length_pos_iff.2 hne
  conns := fun w => (h.good w).conns
  tasks := fun w => (h.good w).tasks
  calls := fun call w => by rw [(h.good w).tasks, h.calls]

theorem workers_modify (s : ThreadPool n τ) (w w' : Fin n) (f : Worker τ → Worker τ) :
    (s.modify w f).workers w' = if w' = w then f (s.workers w) else s.workers w' :=
  Function.update_apply ..

theorem good_modify (h : s.Inv) (w : Fin n) {f : Worker τ → Worker τ}
    (hf : ∀ k : Worker τ, k.Good → (f k).Good) (w' : Fin n) : ((s.modify w f).workers w').Good := by
  rw [workers_modify]
  split
  · exact hf _ (h.good w)
  · exact h.good w'

/-- A step that sends no task of a call. -/
theorem Inv.modify (h : s.Inv) (w : Fin n) {f : Worker τ → Worker τ}
    (hf : ∀ k : Worker τ, k.Good → (f k).Good)
    (hsent : ∀ k call, ofCall call (tasksOf (f k).sent) = ofCall call (tasksOf k.sent)) :
    (s.modify w f).Inv := by
  refine ⟨good_modify h w hf, fun call w' => ?_⟩
  show ofCall call (tasksOf ((s.modify w f).workers w').sent) = s.callTasks call w'
  rw [workers_modify]
  split
  · rename_i hw
    rw [hsent, hw]
    exact h.calls call w
  · exact h.calls call w'

theorem Inv.sendTask (h : s.Inv) (task : τ) : Inv { s with calls := s.calls ++ [⟨task, 0⟩] } := by
  refine ⟨h.good, fun call w => ?_⟩
  have hsame : callTasks { s with calls := s.calls ++ [⟨task, 0⟩] } call w = s.callTasks call w := by
    unfold callTasks
    rcases Nat.lt_trichotomy call s.calls.length with hlt | heq | hgt
    · rw [List.getElem?_append_left hlt]
    · subst heq
      simp
    · rw [List.getElem?_eq_none (by simp; omega), List.getElem?_eq_none (by omega)]
  rw [hsame]
  exact h.calls call w

/-- **One turn of the loop of `send_task`** sends the task to one more worker. -/
theorem Inv.advance (h : s.Inv) (call : ℕ) : (s.advance call).Inv := by
  unfold ThreadPool.advance
  cases hc : s.calls[call]? with
  | none => exact h
  | some c =>
    dsimp only
    split
    · rename_i hi
      have hlt : call < s.calls.length := (List.getElem?_eq_some_iff.1 hc).1
      refine ⟨good_modify h _ fun k hk => hk.send _, fun call' w => ?_⟩
      have hold := h.calls call' w
      show ofCall call' (tasksOf ((s.modify ⟨c.i, hi⟩ _).workers w).sent) = _
      rw [workers_modify]
      unfold callTasks at hold ⊢
      dsimp only
      by_cases hcall : call' = call
      · -- this call: the worker it has come to, and the others
        subst hcall
        rw [hc] at hold
        rw [List.getElem?_set_self hlt]
        dsimp only at hold ⊢
        by_cases hw : w = ⟨c.i, hi⟩
        · subst hw
          rw [if_neg (by simp)] at hold
          rw [if_pos rfl, if_pos (by simp)]
          show ofCall call' (tasksOf ((s.workers ⟨c.i, hi⟩).sent ++ [.newTask c.task (some call')])) = _
          unfold ofCall at hold ⊢
          rw [tasksOf_append, List.filter_append, hold]
          simp [tasksOf]
        · have hne : (w : ℕ) ≠ c.i := fun heq => hw (Fin.ext heq)
          have hiff : (w : ℕ) < c.i + 1 ↔ (w : ℕ) < c.i := by omega
          rw [if_neg hw, hold]
          simp only [hiff]
      · rw [List.getElem?_set_ne (fun heq => hcall heq.symm)]
        rw [← hold]
        split
        · rename_i hw
          subst hw
          have hother : (some call : Option ℕ) ≠ some call' := fun heq => hcall (Option.some.inj heq).symm
          show ofCall call' (tasksOf ((s.workers ⟨c.i, hi⟩).sent ++ [.newTask c.task (some call)])) = _
          unfold ofCall
          rw [tasksOf_append, List.filter_append]
          simp [tasksOf, hother]
        · rfl
    · exact h

/-- **One step of the pool**, whosever it is. -/
theorem Inv.step (h : s.Inv) (e : Event n τ) : (s.apply e).Inv := by
  cases e with
  | sendConn w connfd =>
    refine h.modify w (fun k hk => hk.send _) fun k call => ?_
    show ofCall call (tasksOf (k.sent ++ [.newConn connfd])) = _
    rw [tasksOf_append]
    exact congrArg (ofCall call) (List.append_nil _)
  | sendOne w task =>
    refine h.modify w (fun k hk => hk.send _) fun k call => ?_
    show ofCall call (tasksOf (k.sent ++ [.newTask task none])) = _
    unfold ofCall
    rw [tasksOf_append, List.filter_append]
    simp [tasksOf]
  | sendTask task => exact h.sendTask task
  | advance call => exact h.advance call
  | go w => exact h.modify w (fun k hk => hk.go) fun k call => by rw [Worker.go_sent]
  | pass w => exact h.modify w (fun k hk => hk.pass) fun k call => by rw [Worker.pass_sent]

/-! ## What was done stays done -/

/-- What a worker has done, and what it was sent, only grows. -/
structure Worker.Grows (k k' : Worker τ) : Prop where
  conns : k.conns <+: k'.conns
  ran : k.ran <+: k'.ran
  sent : k.sent <+: k'.sent

theorem Worker.Grows.refl (k : Worker τ) : k.Grows k :=
  ⟨List.prefix_rfl, List.prefix_rfl, List.prefix_rfl⟩

theorem Worker.Grows.trans {k₁ k₂ k₃ : Worker τ} (h : k₁.Grows k₂) (h' : k₂.Grows k₃) : k₁.Grows k₃ :=
  ⟨h.conns.trans h'.conns, h.ran.trans h'.ran, h.sent.trans h'.sent⟩

theorem Worker.grows_send (k : Worker τ) (m : TaskMsg τ) : k.Grows (k.send m) :=
  ⟨List.prefix_rfl, List.prefix_rfl, List.prefix_append _ _⟩

theorem Worker.grows_go (k : Worker τ) : k.Grows k.go := by
  obtain ⟨pc, queue, evfd, readyTasks, conns, ran, sent⟩ := k
  unfold Worker.go Worker.recv
  cases pc with
  | setCallback => exact ⟨List.prefix_rfl, List.prefix_rfl, List.prefix_rfl⟩
  | epollWait =>
    dsimp only
    split <;> exact ⟨List.prefix_rfl, List.prefix_rfl, List.prefix_rfl⟩
  | fired => exact ⟨List.prefix_rfl, List.prefix_rfl, List.prefix_rfl⟩
  | deal tasks =>
    cases tasks with
    | nil => exact ⟨List.prefix_rfl, List.prefix_rfl, List.prefix_rfl⟩
    | cons m tasks =>
      cases m with
      | newConn connfd => exact ⟨List.prefix_append _ _, List.prefix_rfl, List.prefix_rfl⟩
      | newTask task call => exact ⟨List.prefix_rfl, List.prefix_rfl, List.prefix_rfl⟩
  | execute rest =>
    cases rest with
    | nil => exact ⟨List.prefix_rfl, List.prefix_rfl, List.prefix_rfl⟩
    | cons task rest => exact ⟨List.prefix_rfl, List.prefix_append _ _, List.prefix_rfl⟩

theorem Worker.grows_pass (k : Worker τ) : k.Grows k.pass := by
  unfold Worker.pass
  split <;> exact ⟨List.prefix_rfl, List.prefix_rfl, List.prefix_rfl⟩

theorem grows_modify (w w' : Fin n) {f : Worker τ → Worker τ} (hf : ∀ k : Worker τ, k.Grows (f k)) :
    (s.workers w').Grows ((s.modify w f).workers w') := by
  rw [workers_modify]
  split
  · rename_i hw
    rw [hw]
    exact hf _
  · exact .refl _

theorem grows_apply (e : Event n τ) (w : Fin n) : (s.workers w).Grows ((s.apply e).workers w) := by
  cases e with
  | sendConn w' connfd => exact grows_modify w' w fun k => k.grows_send _
  | sendOne w' task => exact grows_modify w' w fun k => k.grows_send _
  | sendTask task => exact .refl _
  | advance call =>
    show (s.workers w).Grows ((s.advance call).workers w)
    unfold ThreadPool.advance
    split
    · exact .refl _
    · split
      · exact grows_modify _ w fun k => k.grows_send _
      · exact .refl _
  | go w' => exact grows_modify w' w fun k => k.grows_go
  | pass w' => exact grows_modify w' w fun k => k.grows_pass

theorem grows_run {es : List (Event n τ)} (hrun : run ThreadPool.step s es = .ok s') (w : Fin n) :
    (s.workers w).Grows (s'.workers w) := by
  refine run_inv (I := fun t => (s.workers w).Grows (t.workers w)) (fun t e u ht hu => ?_) (.refl _) hrun
  cases hu
  exact ht.trans (grows_apply e w)

theorem inv_run {es : List (Event n τ)} (h : s.Inv) (hrun : run ThreadPool.step s es = .ok s') : s'.Inv := by
  refine run_inv (I := Inv) (fun t e u ht hu => ?_) h hrun
  cases hu
  exact ht.step e

/-! ## What was sent gets done -/

/-- How much an event can add to the work of a worker. -/
def Event.gain : Event n τ → ℕ
  | sendConn _ _ => 6
  | sendOne _ _ => 6
  | sendTask _ => 0
  | advance _ => 6
  | go _ => 0
  | pass _ => 0

/-- 1 for a statement of this worker. -/
def Event.goes (w : Fin n) : Event n τ → ℕ
  | go w' => if w' = w then 1 else 0
  | _ => 0

theorem work_modify (w w' : Fin n) {f : Worker τ → Worker τ} {c : ℕ}
    (hf : ∀ k : Worker τ, (f k).work ≤ k.work + c) :
    ((s.modify w' f).workers w).work ≤ (s.workers w).work + c := by
  rw [workers_modify]
  split
  · rename_i hw
    rw [hw]
    exact hf _
  · exact Nat.le_add_right _ _

/-- **Each event and the work of a worker**, whose `epoll_wait` reports what can be read. -/
theorem work_apply (h : s.Inv) (e : Event n τ) (hpass : e ≠ .pass w) (hne : (s.workers w).work ≠ 0) :
    ((s.apply e).workers w).work + e.goes w ≤ (s.workers w).work + e.gain := by
  cases e with
  | sendConn w' connfd => exact work_modify w w' fun k => k.work_send _
  | sendOne w' task => exact work_modify w w' fun k => k.work_send _
  | sendTask task => exact Nat.le_refl _
  | advance call =>
    show ((s.advance call).workers w).work ≤ (s.workers w).work + 6
    unfold ThreadPool.advance
    split
    · exact Nat.le_add_right _ _
    · split
      · exact work_modify w _ fun k => k.work_send _
      · exact Nat.le_add_right _ _
  | go w' =>
    show ((s.modify w' Worker.go).workers w).work + (if w' = w then 1 else 0) ≤ (s.workers w).work
    rw [workers_modify]
    by_cases hw : w' = w
    · subst hw
      rw [if_pos rfl, if_pos rfl]
      exact (h.good w').work_go hne
    · rw [if_neg (fun heq => hw heq.symm), if_neg hw]
      exact Nat.le_refl _
  | pass w' =>
    show ((s.modify w' Worker.pass).workers w).work ≤ (s.workers w).work
    rw [workers_modify]
    rw [if_neg (fun heq => hpass (by rw [heq]))]

/-- **A worker that goes on often enough** has done what it was sent before. -/
theorem done_of_goes (h : s.Inv) {fs : List (Event n τ)} (hpass : Event.pass w ∉ fs)
    (hgoes : (s.workers w).work + (fs.map Event.gain).sum ≤ (fs.map (Event.goes w)).sum)
    (hrun : run ThreadPool.step s fs = .ok s') :
    connsOf (s.workers w).sent <+: (s'.workers w).conns ∧ tasksOf (s.workers w).sent <+: (s'.workers w).ran := by
  obtain ⟨pre, t, ⟨post, rfl⟩, ht, hzero⟩ :=
    zero_of_progress (I := Inv) (μ := fun t => (t.workers w).work) (fun t e v he hI hv => by
      cases hv
      exact ⟨hI.step e, work_apply hI e fun heq => hpass (heq ▸ he)⟩) h hrun hgoes
  obtain ⟨t', ht', hpost⟩ := run_append_ok.1 hrun
  rw [ht] at ht'
  cases ht'
  obtain ⟨hconns, hran⟩ := ((inv_run h ht).good w).done hzero
  have hbefore := grows_run ht w
  have hafter := grows_run hpost w
  obtain ⟨later, hlater⟩ := hbefore.sent
  constructor
  · rw [← hlater, connsOf_append] at hconns
    exact (List.prefix_append _ _).trans (hconns ▸ hafter.conns)
  · rw [← hlater, tasksOf_append] at hran
    exact (List.prefix_append _ _).trans (hran ▸ hafter.ran)

theorem length_callTasks_le (s : ThreadPool n τ) (call : ℕ) (w : Fin n) : (s.callTasks call w).length ≤ 1 := by
  unfold callTasks
  split
  · exact Nat.zero_le 1
  · split
    · exact Nat.le_refl 1
    · exact Nat.zero_le 1

/-- A task that a call of `send_task` has sent to a worker is among those it ran, once. -/
theorem ran_once (h : s.Inv) (h' : s'.Inv) {call : ℕ} {c : Call τ} (hc : s.calls[call]? = some c)
    (hw : w < c.i) (hran : tasksOf (s.workers w).sent <+: (s'.workers w).ran) :
    ofCall call (s'.workers w).ran = [(c.task, some call)] := by
  have hsent : ofCall call (tasksOf (s.workers w).sent) = [(c.task, some call)] := by
    rw [h.calls]
    unfold callTasks
    rw [hc]
    exact if_pos hw
  have hlow : [(c.task, some call)] <+: ofCall call (s'.workers w).ran := by
    rw [← hsent]
    exact hran.filter _
  have hhigh : (ofCall call (s'.workers w).ran).length ≤ 1 := by
    have hall : (s'.workers w).ran <+: tasksOf (s'.workers w).sent := ⟨_, (h'.good w).tasks⟩
    have hle := (hall.filter fun t => t.2 = some call).length_le
    have hone := length_callTasks_le s' call w
    rw [← h'.calls call w] at hone
    exact hle.trans hone
  exact (hlow.eq_of_length_le hhigh).symm

/-- **Every message is done once, in the order of the `send`s**, for any number of workers
and any interleaving: at every moment what was sent to a worker is done or on its way, and
a worker that goes on does all of it. -/
theorem sent_once (n : ℕ) (τ : Type*) (es : List (Event n τ)) :
    Always ThreadPool.step (fun _ s => s.Delivering) (new n τ) es ∧
      ∀ s, run ThreadPool.step (new n τ) es = .ok s → ∀ (w : Fin n) fs s', Event.pass w ∉ fs →
        (s.workers w).work + (fs.map Event.gain).sum ≤ (fs.map (Event.goes w)).sum →
        run ThreadPool.step s fs = .ok s' →
        connsOf (s.workers w).sent <+: (s'.workers w).conns ∧
          tasksOf (s.workers w).sent <+: (s'.workers w).ran ∧
          ∀ call (c : Call τ), s.calls[call]? = some c → w < c.i →
            ofCall call (s'.workers w).ran = [(c.task, some call)] := by
  constructor
  · have hinv : Always ThreadPool.step (fun _ s => s.Inv) (new n τ) es :=
      always_of_step inv_new fun _ e _ t _ h => ⟨t.apply e, rfl, h.step e⟩
    exact hinv.imp fun _ _ h => h.delivering
  · intro s hs w fs s' hpass hgoes hrun
    have h := inv_run inv_new hs
    obtain ⟨hconns, hran⟩ := done_of_goes h hpass hgoes hrun
    exact ⟨hconns, hran, fun call c hc hw => ran_once h (inv_run h hrun) hc hw hran⟩

/-- A connection and a task for two workers, of which the first goes on while it gets another
connection. -/
theorem sent_once_two :
    let es : List (Event 2 ℕ) := [.sendConn 0 7, .sendTask 3, .advance 0, .advance 0]
    let fs : List (Event 2 ℕ) := .go 0 :: .sendConn 0 9 :: List.replicate 14 (.go 0)
    ∃ s s', run ThreadPool.step (new 2 ℕ) es = .ok s ∧ run ThreadPool.step s fs = .ok s' ∧
      [7] <+: (s'.workers 0).conns ∧ [(3, some 0)] <+: (s'.workers 0).ran ∧
      ofCall 0 (s'.workers 0).ran = [(3, some 0)] := by
  intro es fs
  obtain ⟨-, hdone⟩ := sent_once 2 ℕ es
  obtain ⟨hconns, htasks, hran⟩ := hdone _ rfl 0 fs _ (by simp [fs]) (by decide) rfl
  exact ⟨_, _, rfl, rfl, hconns, htasks, hran 0 ⟨3, 2⟩ rfl (by decide)⟩

end ThreadPool

end LbRpc
