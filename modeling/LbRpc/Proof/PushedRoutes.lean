import LbRpc.Proof.PushTargets
import LbRpc.Proof.ResponseOrder

/-!
# Subscribers get the new routes

`get_route` subscribes before it reads the routes, and the checker swaps the maps before it
publishes. So whoever subscribes too late for a `publish` reads the new map, and everybody
else is in the list that `publish` goes through.

* `Owed`: how a connection still comes to the answer that a `publish` promises it.
* `DnsServer.move_informed`: every move keeps the promises.
* `DnsServer.changes_delivered`: where pushes reach every entry, keys unpack and sends find
  room, the last response for a changed pair is from the map of that `publish` or a later one.
* `DnsServer.changes_delivered_fails`: a pair whose key does not unpack is not heard of again.
-/

namespace LbRpc

/-- The last response that was sent for a pair. -/
def DnsConn.lastResponse {n : ℕ} (conn : DnsConn n) (modid cmdid : Int32) : Option Lbrss.GetRouteResponse :=
  ((conn.sent.map Prod.fst).filter fun rsp => rsp.modid = modid ∧ rsp.cmdid = cmdid).getLast?

/-! ## What a call of `publish` owes a connection -/

/-- A task has taken its part of the push list. -/
def Job.taken : Job → ℕ
  | .pushNext _ => 1
  | .pushHosts _ _ _ => 1
  | .push _ _ _ _ _ => 1
  | _ => 0

/-- The pairs that a push has still to look up. -/
def Job.todo : Job → Finset (Fd × UInt64)
  | .pushNext rest => rest
  | .pushHosts fd mod rest => insert (fd, mod) rest
  | .push _ _ _ _ rest => rest
  | _ => ∅

/-- **How the connection `c` with descriptor `fd` comes to an answer for `mod`** that is made
from a map not older than `map`, given the job of its worker, the tasks it has finished, the
entry of the descriptor in `_push_list`, and what was sent. The `publish` is number `k`. -/
inductive Owed (job : Job) (tasksRun : ℕ) (entry : Finset UInt64)
    (sent : List (Lbrss.GetRouteResponse × ℕ)) (c : ConnAddr) (fd : Fd) (k map : ℕ) (mod : UInt64) : Prop
  /-- it was sent -/
  | told (a : Lbrss.GetRouteResponse × ℕ) (ha : a ∈ sent) (hkey : key a.1.modid a.1.cmdid = mod)
    (hmap : map ≤ a.2)
  /-- `get_route` reads the routes only now -/
  | asked (req : Lbrss.GetRouteRequest) (hkey : subscribeKey req = mod)
    (hjob : job = .subscribe c req ∨ job = .getHosts c req)
  | answered (req : Lbrss.GetRouteRequest) (hosts : Finset UInt64) (i : ℕ) (hkey : subscribeKey req = mod)
    (hjob : job = .respond c req hosts i) (hmap : map ≤ i)
  /-- its entry waits for a task that is still to come -/
  | waiting (hmem : mod ∈ entry) (htask : tasksRun + job.taken ≤ k)
  /-- a push has it in front -/
  | pending (hmem : (fd, mod) ∈ job.todo)
  | pushed (hosts : Finset UInt64) (i : ℕ) (rest : Finset (Fd × UInt64))
    (hjob : job = .push fd mod hosts i rest) (hmap : map ≤ i)

/-- A job that is on the way to an answer of `get_route`. -/
def Job.answering : Job → Bool
  | .subscribe _ _ => true
  | .getHosts _ _ => true
  | .respond _ _ _ _ => true
  | _ => false

theorem Job.not_answering {j : Job} (h : j.answering = false) (c : ConnAddr) (req : Lbrss.GetRouteRequest) :
    j ≠ .subscribe c req ∧ j ≠ .getHosts c req ∧ ∀ hosts i, j ≠ .respond c req hosts i := by
  refine ⟨?_, ?_, fun hosts i => ?_⟩ <;> rintro rfl <;> cases h

/-- A job on another connection, or on none, answers nothing here. -/
theorem Job.not_asked {j : Job} {c : ConnAddr} (h : j.conn ≠ some c) (req : Lbrss.GetRouteRequest) :
    j ≠ .subscribe c req ∧ j ≠ .getHosts c req ∧ ∀ hosts i, j ≠ .respond c req hosts i := by
  refine ⟨?_, ?_, fun hosts i => ?_⟩ <;> rintro rfl <;> exact h rfl

theorem Job.subscribing_of_stage {j : Job} {c : ConnAddr} {m : UInt64} (h : j.stage c = .subscribing m) :
    ∃ req, j = .subscribe c req ∧ subscribeKey req = m := by
  unfold Job.stage at h
  split at h
  · rename_i hc
    cases j <;> simp_all [Job.conn]
  · cases h

theorem Job.leaving_of_stage {j : Job} {c : ConnAddr} {rest : Finset UInt64} (h : j.stage c = .leaving rest) :
    ∃ rest', j = .unsubscribe c rest' := by
  unfold Job.stage at h
  split at h
  · rename_i hc
    cases j <;> simp_all [Job.conn]
  · cases h

section Owed

variable {job job' : Job} {tasksRun k map : ℕ} {entry entry' : Finset UInt64}
  {sent sent' : List (Lbrss.GetRouteResponse × ℕ)} {c : ConnAddr} {fd : Fd} {mod : UInt64}

/-- More entries and more messages do no harm. -/
theorem Owed.mono (h : Owed job tasksRun entry sent c fd k map mod) (hentry : entry ⊆ entry')
    (hsent : ∀ a ∈ sent, a ∈ sent') : Owed job tasksRun entry' sent' c fd k map mod := by
  cases h with
  | told a ha hkey hmap => exact .told a (hsent a ha) hkey hmap
  | asked req hkey hjob => exact .asked req hkey hjob
  | answered req hosts i hkey hjob hmap => exact .answered req hosts i hkey hjob hmap
  | waiting hmem htask => exact .waiting (hentry hmem) htask
  | pending hmem => exact .pending hmem
  | pushed hosts i rest hjob hmap => exact .pushed hosts i rest hjob hmap

/-- A job that is about no answer of this connection is no way to it. -/
theorem Owed.settled (h : Owed job tasksRun entry sent c fd k map mod) (htaken : job.taken = 0)
    (hask : ∀ req, job ≠ .subscribe c req ∧ job ≠ .getHosts c req ∧
      ∀ hosts i, job ≠ .respond c req hosts i) :
    (∃ a ∈ sent, key a.1.modid a.1.cmdid = mod ∧ map ≤ a.2) ∨ (mod ∈ entry ∧ tasksRun ≤ k) := by
  cases h with
  | told a ha hkey hmap => exact Or.inl ⟨a, ha, hkey, hmap⟩
  | asked req hkey hjob =>
    rcases hjob with hjob | hjob
    · exact absurd hjob (hask req).1
    · exact absurd hjob (hask req).2.1
  | answered req hosts i hkey hjob hmap => exact absurd hjob ((hask req).2.2 hosts i)
  | waiting hmem htask => exact Or.inr ⟨hmem, by omega⟩
  | pending hmem =>
    exfalso
    revert hmem htaken
    cases job <;> simp [Job.todo, Job.taken]
  | pushed hosts i rest hjob hmap =>
    subst hjob
    cases htaken

/-- The worker takes up another job instead of such a one. -/
theorem Owed.turn (h : Owed job tasksRun entry sent c fd k map mod) (htaken : job.taken = 0)
    (hask : ∀ req, job ≠ .subscribe c req ∧ job ≠ .getHosts c req ∧
      ∀ hosts i, job ≠ .respond c req hosts i) (htaken' : job'.taken = 0) :
    Owed job' tasksRun entry sent c fd k map mod := by
  rcases h.settled htaken hask with ⟨a, ha, hkey, hmap⟩ | ⟨hmem, htask⟩
  · exact .told a ha hkey hmap
  · exact .waiting hmem (by rw [htaken']; exact htask)

end Owed

namespace DnsServer

variable {n : ℕ} {p : Process n} {s s' : DnsServer n} {e : Event n} {v w : Fin n} {c d : ConnAddr}
  {conn conn' : DnsConn n} {fd : Fd} {mod : UInt64}

/-- What the call of `publish` number `k` owes a connection. -/
def Owes (s : DnsServer n) (c : ConnAddr) (conn : DnsConn n) (k map : ℕ) (mod : UInt64) : Prop :=
  Owed (s.workers conn.loop).job (s.workers conn.loop).tasksRun ((s.pushList conn.connfd).getD ∅)
    conn.sent c conn.connfd k map mod

/-- **Every open connection that is not being closed is owed the changes of its list.** The
mods are those that `push_change_task` unpacks rightly. -/
def Informed (s : DnsServer n) : Prop :=
  ∀ (k : ℕ) (a : Announcement), s.published[k]? = some a → ∀ (c : ConnAddr) (conn : DnsConn n) l,
    s.heap.read c = some conn → conn.connfd ≠ -1 → conn.param = some l →
    (∀ rest, (s.workers conn.loop).job ≠ .unsubscribe c rest) →
    ∀ mod ∈ a.changes, mod ∈ l → key (pushPair mod).1 (pushPair mod).2 = mod →
      s.Owes c conn k a.map mod

/-- Every entry of an online descriptor is taken, and every send finds room. -/
def Heard (p : Process n) (s : DnsServer n) : Event n → Prop
  | .makePublishMap w fds => ∀ fd ∈ s.openFds, s.pushList fd ≠ none → s.Online p w fd → fd ∈ fds
  | .respond _ _ room => room = true
  | .push _ _ room => room = true
  | .request _ _ req => 0 ≤ req.cmdid
  | _ => True

instance (p : Process n) (s : DnsServer n) : (e : Event n) → Decidable (s.Heard p e)
  | .accept _ _ => isTrue trivial
  | .recv _ => isTrue trivial
  | .request _ _ req => inferInstanceAs (Decidable (0 ≤ req.cmdid))
  | .hangUp _ _ => isTrue trivial
  | .runTask _ => isTrue trivial
  | .go _ => isTrue trivial
  | .respond _ _ room => inferInstanceAs (Decidable (room = true))
  | .unsubscribe _ _ => isTrue trivial
  | .makePublishMap w fds =>
    inferInstanceAs (Decidable (∀ fd ∈ s.openFds, s.pushList fd ≠ none → s.Online p w fd → fd ∈ fds))
  | .pushNext _ _ _ => isTrue trivial
  | .push _ _ room => inferInstanceAs (Decidable (room = true))
  | .checker _ _ _ => isTrue trivial

/-- The old connection behind a connection that did not change, for those that have a list. -/
def SameList (s s' : DnsServer n) : Prop :=
  ∀ c conn' l, s'.heap.read c = some conn' → conn'.connfd ≠ -1 → conn'.param = some l → l = ∅ ∨
    ∃ conn, s.heap.read c = some conn ∧ conn'.connfd = conn.connfd ∧ conn'.loop = conn.loop ∧
      conn'.sent = conn.sent ∧ conn.param = some l

theorem SameList.of_heap (hheap : s'.heap = s.heap) : SameList s s' :=
  fun _ conn' _ hc _ hl => Or.inr ⟨conn', hheap ▸ hc, rfl, rfl, rfl, hl⟩

/-- A move of one worker that sends nothing and leaves lists and entries alone. -/
theorem Informed.ofWorker (h : Informed s) (w : Fin n) {k : DnsWorker}
    (hworkers : s'.workers = Function.update s.workers w k) (hpub : s'.published = s.published)
    (hpush : s'.pushList = s.pushList) (hback : SameList s s')
    (hleave : ∀ c rest, (s.workers w).job = .unsubscribe c rest → (∃ rest', k.job = .unsubscribe c rest') ∨
      ∀ b, s'.heap.read c = some b → b.param = none)
    (hturn : ∀ c conn, s.heap.read c = some conn → conn.loop = w → ∀ a ∈ s.published, ∀ i mod,
      Owed (s.workers w).job (s.workers w).tasksRun ((s.pushList conn.connfd).getD ∅) conn.sent c
        conn.connfd i a.map mod →
      Owed k.job k.tasksRun ((s.pushList conn.connfd).getD ∅) conn.sent c conn.connfd i a.map mod) :
    Informed s' := by
  intro i a ha c conn' l hc hne hl hstay mod hmod hmem hkey
  rw [hpub] at ha
  rcases hback c conn' l hc hne hl with rfl | ⟨conn, hread, hfd, hloop, hsent, hparam⟩
  · exact absurd hmem (Finset.notMem_empty mod)
  · -- a connection that is not being closed now was not before, or its list is gone
    have hstay' : ∀ rest, (s.workers conn.loop).job ≠ .unsubscribe c rest := by
      intro rest hj
      by_cases hw : conn.loop = w
      · rw [hw] at hj
        rcases hleave c rest hj with ⟨rest', hk⟩ | hgone
        · refine hstay rest' ?_
          rw [hloop, hw, hworkers, Function.update_self]
          exact hk
        · rw [hgone conn' hc] at hl
          cases hl
      · refine hstay rest ?_
        rw [hloop, hworkers, Function.update_of_ne hw]
        exact hj
    have hold := h i a ha c conn l hread (hfd ▸ hne) hparam hstay' mod hmod hmem hkey
    unfold Owes at hold ⊢
    rw [hloop, hfd, hsent, hpush, hworkers]
    by_cases hw : conn.loop = w
    · rw [hw, Function.update_self]
      rw [hw] at hold
      exact hturn c conn hread hw a (List.mem_of_getElem? ha) i mod hold
    · rw [Function.update_of_ne hw]
      exact hold

/-- A worker without an answer under way takes up a job, or goes on with one. -/
theorem Informed.ofJob (h : Informed s) (w : Fin n) {j : Job} (hj : (s.workers w).job = j)
    (htaken : j.taken = 0) (hask : j.answering = false) {k : DnsWorker}
    (hworkers : s'.workers = Function.update s.workers w k) (hpub : s'.published = s.published)
    (hpush : s'.pushList = s.pushList) (htaken' : k.job.taken = 0)
    (htasks : k.tasksRun = (s.workers w).tasksRun) (hback : SameList s s')
    (hleave : ∀ c rest, j = .unsubscribe c rest → (∃ rest', k.job = .unsubscribe c rest') ∨
      ∀ b, s'.heap.read c = some b → b.param = none) : Informed s' := by
  subst hj
  refine h.ofWorker w hworkers hpub hpush hback hleave fun c conn _ _ a _ i mod ho => ?_
  rw [htasks]
  exact ho.turn htaken (Job.not_answering hask c) htaken'

/-- A message more on one connection. -/
theorem sent_of_modify {g : DnsConn n → DnsConn n} {x : Lbrss.GetRouteResponse × ℕ} {room : Bool}
    (hg : ∀ b, g b = if room then { b with sent := b.sent ++ [x] } else b)
    (hd : (s.heap.modify c g).read d = some conn') : ∃ b, s.heap.read d = some b ∧
      conn'.connfd = b.connfd ∧ conn'.loop = b.loop ∧ conn'.param = b.param ∧
      (∀ a ∈ b.sent, a ∈ conn'.sent) ∧ (d = c → room = true → x ∈ conn'.sent) := by
  rcases Heap.read_modify_cases hd with ⟨rfl, b, hb, rfl⟩ | ⟨hdc, hd'⟩
  · refine ⟨b, hb, ?_⟩
    rw [hg]
    cases room
    · exact ⟨rfl, rfl, rfl, fun _ => id, fun _ hroom => by cases hroom⟩
    · exact ⟨rfl, rfl, rfl, fun a ha => List.mem_append_left _ ha,
        fun _ _ => List.mem_append_right _ (List.mem_singleton.2 rfl)⟩
  · exact ⟨conn', hd', rfl, rfl, rfl, fun _ => id, fun heq => absurd heq hdc⟩

/-- A worker sends on a connection of its own and goes on with another job. -/
theorem Informed.send (h : Informed s) (w : Fin n) {j : Job} {room : Bool} {g : DnsConn n → DnsConn n}
    {x : Lbrss.GetRouteResponse × ℕ} (hg : ∀ b, g b = if room then { b with sent := b.sent ++ [x] } else b)
    (hstay : ∀ c rest, (s.workers w).job ≠ .unsubscribe c rest)
    (hturn : ∀ d conn sent', s.heap.read d = some conn → conn.loop = w → (∀ a ∈ conn.sent, a ∈ sent') →
      (d = c → room = true → x ∈ sent') → ∀ i map mod, key (pushPair mod).1 (pushPair mod).2 = mod →
      Owed (s.workers w).job (s.workers w).tasksRun ((s.pushList conn.connfd).getD ∅) conn.sent d
        conn.connfd i map mod →
      Owed j (s.workers w).tasksRun ((s.pushList conn.connfd).getD ∅) sent' d conn.connfd i map mod) :
    Informed ((s.modifyConn c g).setJob w j) := by
  intro i a ha d conn' l hd hne hl hleave mod hmod hmem hkey
  obtain ⟨b, hb, hfd, hloop, hparam, hsent, hnew⟩ := sent_of_modify hg hd
  have hstay' : ∀ rest, (s.workers b.loop).job ≠ .unsubscribe d rest := by
    intro rest hj
    by_cases hw : b.loop = w
    · exact hstay d rest (hw ▸ hj)
    · refine hleave rest ?_
      rw [hloop, setJob, modifyWorker_ne hw]
      exact hj
  have hold := h i a ha d b l hb (hfd ▸ hne) (hparam ▸ hl) hstay' mod hmod hmem hkey
  unfold Owes at hold ⊢
  rw [hloop, hfd]
  by_cases hw : b.loop = w
  · rw [hw] at hold ⊢
    rw [setJob, modifyWorker_self]
    exact hturn d b conn'.sent hb hw hsent hnew i a.map mod hkey hold
  · rw [setJob, modifyWorker_ne hw]
    exact hold.mono (Finset.Subset.refl _) hsent

/-- Moves of one worker that change no job. -/
theorem Informed.ofQueue (h : Informed s) (w : Fin n) {k : DnsWorker}
    (hworkers : s'.workers = Function.update s.workers w k) (hpub : s'.published = s.published)
    (hpush : s'.pushList = s.pushList) (hback : SameList s s') (hjob : k.job = (s.workers w).job)
    (htasks : k.tasksRun = (s.workers w).tasksRun) : Informed s' := by
  refine h.ofWorker w hworkers hpub hpush hback (fun c rest hj => Or.inl ⟨rest, hjob.trans hj⟩)
    fun c conn _ _ a _ i mod ho => ?_
  rw [hjob, htasks]
  exact ho

/-- A list grows by the mod that is being asked for. -/
theorem informed_unknown (h : Informed s) (hw : Wired p s) {req : Lbrss.GetRouteRequest}
    {subList : Finset UInt64} (hjob : (s.workers w).job = .idle) (hio : (s.workers w).ioEvs fd = some c)
    (hc : s.heap.read c = some conn) (hl : conn.param = some subList) :
    Informed ((s.modifyConn c fun b => { b with param := some (insert (subscribeKey req) subList) }).setJob w
      (.subscribe c req)) := by
  intro i a ha d conn' l hd hne hparam hleave mod hmod hmem hkey
  obtain ⟨hloopc, -, -⟩ := hw.ofIo hc hio
  -- what was in the list before is owed as before
  have hturn : ∀ {b : DnsConn n}, s.heap.read d = some b → b.connfd ≠ -1 →
      (∃ l, b.param = some l ∧ mod ∈ l) →
      Owed (((s.modifyConn c fun b => { b with param := some (insert (subscribeKey req) subList) }).setJob w
        (.subscribe c req)).workers b.loop).job
        (((s.modifyConn c fun b => { b with param := some (insert (subscribeKey req) subList) }).setJob w
        (.subscribe c req)).workers b.loop).tasksRun ((s.pushList b.connfd).getD ∅) b.sent d b.connfd i
        a.map mod := by
    rintro b hb hbne ⟨l', hl', hmem'⟩
    by_cases hbw : b.loop = w
    · have hold := h i a ha d b l' hb hbne hl' (fun rest hj => by rw [hbw, hjob] at hj; cases hj) mod hmod hmem'
        hkey
      unfold Owes at hold
      rw [hbw, hjob] at hold
      rw [hbw, setJob, modifyWorker_self]
      exact hold.turn rfl (Job.not_asked fun heq => by cases heq) rfl
    · have hold := h i a ha d b l' hb hbne hl' (fun rest hj => ?_) mod hmod hmem' hkey
      · rw [setJob, modifyWorker_ne hbw]
        exact hold
      · have hsame : conn'.loop = b.loop := by
          rcases Heap.read_modify_cases hd with ⟨rfl, b', hb', rfl⟩ | ⟨-, hd'⟩
          · rw [hb] at hb'
            cases hb'
            rfl
          · rw [hb] at hd'
            cases hd'
            rfl
        refine hleave rest ?_
        rw [hsame, setJob, modifyWorker_ne hbw]
        exact hj
  rcases Heap.read_modify_cases hd with ⟨rfl, b, hb, rfl⟩ | ⟨-, hd'⟩
  · rw [hc] at hb
    cases hb
    cases hparam
    rcases Finset.mem_insert.1 hmem with rfl | hmem
    · -- the new mod is owed because the routes are read from here on
      refine .asked req rfl (Or.inl ?_)
      show ((setJob _ _ _).workers conn.loop).job = _
      rw [hloopc, setJob, modifyWorker_self]
    · have hold := hturn (b := conn) hc hne ⟨_, hl, hmem⟩
      exact hold
  · exact hturn hd' hne ⟨_, hparam, hmem⟩

/-- A task takes all entries of the descriptors of its loop. -/
theorem informed_makePublishMap (h : Informed s) (hw : Wired p s) {fds : Finset Fd}
    (hjob : (s.workers w).job = .makePublishMap)
    (hfds : ∀ fd ∈ fds, s.pushList fd ≠ none ∧ s.Online p w fd)
    (hall : ∀ fd ∈ s.openFds, s.pushList fd ≠ none → s.Online p w fd → fd ∈ fds) :
    Informed ({ s with pushList := fun fd => if fd ∈ fds then none else s.pushList fd }.setJob w
      (.pushNext (needPublish fds s.pushList))) := by
  intro i a ha c conn l hc hne hl hleave mod hmod hmem hkey
  have hc' : s.heap.read c = some conn := hc
  have hopen := hw.conn c conn hc' hne
  by_cases hcw : conn.loop = w
  · have hold := h i a ha c conn l hc' hne hl (fun rest hj => by rw [hcw, hjob] at hj; cases hj) mod hmod
      hmem hkey
    unfold Owes at hold ⊢
    rw [hcw, hjob] at hold
    rw [hcw, setJob, modifyWorker_self]
    rcases hold.settled rfl (Job.not_asked fun heq => by cases heq) with ⟨b, hb, hbkey, hmap⟩ | ⟨hentry, htask⟩
    · exact .told b hb hbkey hmap
    · -- its entry is one of those that are taken
      have hserving := hw.serving hc' hne (by rw [hcw, hjob]; exact fun heq => by cases heq)
      have hpush : s.pushList conn.connfd ≠ none := by
        intro hnone
        rw [hnone] at hentry
        exact absurd hentry (Finset.notMem_empty mod)
      have honline : s.Online p w conn.connfd := by
        refine Or.inr ?_
        rw [← hcw, hserving.1]
        exact Option.some_ne_none c
      exact .pending (mem_needPublish.2 ⟨hall _ hopen.isOpen hpush honline, hentry⟩)
  · have hold := h i a ha c conn l hc' hne hl (fun rest hj => hleave rest ?_) mod hmod hmem hkey
    · unfold Owes at hold ⊢
      rw [setJob, modifyWorker_ne hcw]
      -- the task leaves the entries of other loops where they are
      have hother : conn.connfd ∉ fds := by
        intro hmemfds
        rcases (hfds _ hmemfds).2 with hev | hio
        · exact hopen.noEvent w hev
        · obtain ⟨d, hd⟩ := Option.ne_none_iff_exists'.1 hio
          have hdc := hw.ioOwn hc' hne hd
          subst hdc
          exact hcw (hw.ofIo hc' hd).1
      show Owed _ _ ((if conn.connfd ∈ fds then none else s.pushList conn.connfd).getD ∅) _ _ _ _ _ _
      rw [if_neg hother]
      exact hold
    · rw [setJob, modifyWorker_ne hcw]
      exact hj

/-- **Who is in service when `publish` goes through its lists is owed the new answer**, by an
entry in `_push_list` or because it has still to read the routes. -/
theorem informed_publish (h : Informed s) (hw : Wired p s) (hcount : Counted s) {changes : Finset UInt64} :
    Informed { s with
      pushList := pushInsert changes s.bookList s.pushList
      sending := some 0
      published := s.published ++ [⟨changes, s.mapNumber⟩] } := by
  intro i a ha c conn l hc hne hl hleave mod hmod hmem hkey
  have hc' : s.heap.read c = some conn := hc
  rcases lt_or_ge i s.published.length with hi | hi
  · -- an earlier call
    have ha' : s.published[i]? = some a := (List.getElem?_append_left hi).symm.trans ha
    refine (h i a ha' c conn l hc' hne hl hleave mod hmod hmem hkey).mono (fun m hm => ?_) fun _ => id
    exact mem_pushInsert.2 (Or.inl hm)
  · have hi' : i = s.published.length := by
      have hlt := (List.getElem?_eq_some_iff.1 ha).1
      rw [List.length_append, List.length_singleton] at hlt
      omega
    subst hi'
    have haeq : (⟨changes, s.mapNumber⟩ : Announcement) = a := by
      rw [List.getElem?_concat_length] at ha
      exact Option.some.inj ha
    subst haeq
    -- an entry that is made now waits for a task that the worker has not run yet
    have hbooked : s.Booked conn.connfd mod → Owed (s.workers conn.loop).job (s.workers conn.loop).tasksRun
        ((pushInsert changes s.bookList s.pushList conn.connfd).getD ∅) conn.sent c conn.connfd
        s.published.length s.mapNumber mod := by
      intro hb
      refine .waiting (mem_pushInsert.2 (Or.inr ⟨hmod, hb⟩)) ?_
      have hle := hcount.tasks conn.loop
      have htaken : (s.workers conn.loop).job.taken ≤ (s.workers conn.loop).job.running := by
        cases (s.workers conn.loop).job <;> simp [Job.taken, Job.running]
      unfold DnsWorker.tasks at hle
      omega
    have hst := (hw.conn c conn hc' hne).stage
    cases hj : (s.workers conn.loop).job.stage c with
    | made | registered =>
      -- a new connection has asked for nothing
      rw [hj] at hst
      rw [hst.1] at hl
      cases hl
      exact absurd hmem (Finset.notMem_empty mod)
    | serving =>
      rw [hj] at hst
      obtain ⟨-, -, l', hl', hbook⟩ := hst
      rw [show conn.param = some l from hl] at hl'
      cases hl'
      exact hbooked ((hbook mod).2 hmem)
    | subscribing m =>
      rw [hj] at hst
      obtain ⟨-, -, l', hl', -, hbook⟩ := hst
      rw [show conn.param = some l from hl] at hl'
      cases hl'
      by_cases hm : mod = m
      · -- not in the book yet, but the routes are read behind this `publish`
        obtain ⟨req, hreq, hsub⟩ := Job.subscribing_of_stage hj
        exact .asked req (hsub.trans hm.symm) (Or.inl hreq)
      · exact hbooked ((hbook mod).2 ⟨hmem, hm⟩)
    | leaving rest =>
      obtain ⟨rest', hrest⟩ := Job.leaving_of_stage hj
      exact absurd hrest (hleave rest')
    | unlisted | removed | deaf =>
      -- the list is gone
      rw [hj] at hst
      rw [hst.1] at hl
      cases hl

/-- A worker that pushes goes on to the next statement. -/
theorem Informed.ofPush (h : Informed s) (w : Fin n) {j j' : Job} (hj : (s.workers w).job = j)
    (hstay : ∀ c rest, j ≠ .unsubscribe c rest)
    (hturn : ∀ c conn, s.heap.read c = some conn → conn.loop = w → ∀ a ∈ s.published, ∀ i mod entry sent,
      Owed j (s.workers w).tasksRun entry sent c conn.connfd i a.map mod →
      Owed j' (s.workers w).tasksRun entry sent c conn.connfd i a.map mod) : Informed (s.setJob w j') := by
  subst hj
  exact h.ofWorker w rfl rfl rfl (.of_heap rfl) (fun c rest hj => absurd hj (hstay c rest))
    fun c conn hc hw a ha i mod ho => hturn c conn hc hw a ha i mod _ _ ho

/-- **Every move keeps the promises of `publish`.** -/
theorem move_informed (hw : Wired p s) (ha : Aimed p s) (hcount : Counted s) (hans : Answered s)
    (h : Informed s) (he : s.Heard p e) (hm : Move p s e s') : Informed s' := by
  cases hm with
  | skip => exact h
  | accept w connfd h0 hnew => exact h.ofQueue w rfl rfl rfl (.of_heap rfl) rfl rfl
  | newTask w hjob hq => exact h.ofQueue w rfl rfl rfl (.of_heap rfl) rfl rfl
  | newConn w hjob hq =>
    refine h.ofJob w hjob rfl rfl rfl rfl rfl rfl rfl (fun c b l hc hne hl => ?_) fun c rest hj => by cases hj
    rcases Heap.read_alloc_cases hc with ⟨-, rfl⟩ | hc'
    · cases hl
      exact Or.inl rfl
    · exact Or.inr ⟨b, hc', rfl, rfl, rfl, hl⟩
  | known w hjob hio hc hl hk =>
    exact h.ofJob w hjob rfl rfl rfl rfl rfl rfl rfl (.of_heap rfl) (fun c rest hj => by cases hj)
  | unknown w hjob hio hc hl hk => exact informed_unknown h hw hjob hio hc hl
  | hangUp w hjob hio hc hl =>
    exact h.ofJob w hjob rfl rfl rfl rfl rfl rfl rfl (.of_heap rfl) (fun c rest hj => by cases hj)
  | runTask w hjob hk =>
    exact h.ofJob w hjob rfl rfl rfl rfl rfl rfl rfl (.of_heap rfl) (fun c rest hj => by cases hj)
  | addIoEvent w hjob hc =>
    exact h.ofJob w hjob rfl rfl rfl rfl rfl rfl rfl (.of_heap rfl) (fun c rest hj => by cases hj)
  | increaseConn w hjob hc =>
    exact h.ofJob w hjob rfl rfl rfl rfl rfl rfl rfl (.of_heap rfl) (fun c rest hj => by cases hj)
  | @subscribe w c conn req hjob hc =>
    refine h.ofWorker w rfl rfl rfl (.of_heap rfl) (fun d rest hj => by rw [hjob] at hj; cases hj)
      fun d b _ _ a _ i mod ho => ?_
    -- one case for each way in which an answer can be owed
    rw [hjob] at ho
    cases ho with
    | told a' ha' hkey hmap => exact .told a' ha' hkey hmap
    | asked req' hkey hj =>
      rcases hj with hj | hj <;> cases hj
      exact .asked req hkey (Or.inr rfl)
    | answered req' hosts i' hkey hj hmap => cases hj
    | waiting hmem htask => exact .waiting hmem htask
    | pending hmem => exact absurd hmem (Finset.notMem_empty _)
    | pushed hosts i' rest hj hmap => cases hj
  | @getHosts w c req hjob =>
    refine h.ofWorker w rfl rfl rfl (.of_heap rfl) (fun d rest hj => by rw [hjob] at hj; cases hj)
      fun d b _ _ a hpub i mod ho => ?_
    rw [hjob] at ho
    cases ho with
    | told a' ha' hkey hmap => exact .told a' ha' hkey hmap
    | asked req' hkey hj =>
      rcases hj with hj | hj <;> cases hj
      -- the map that is read now is not older than the one at the call
      exact .answered req _ _ hkey rfl (hans.published a hpub)
    | answered req' hosts i' hkey hj hmap => cases hj
    | waiting hmem htask => exact .waiting hmem htask
    | pending hmem => exact absurd hmem (Finset.notMem_empty _)
    | pushed hosts i' rest hj hmap => cases hj
  | @respond w c conn req hosts map walk room hjob hc hwalk =>
    have hroom : room = true := he
    refine h.send w (fun _ => rfl) (fun d rest hj => by rw [hjob] at hj; cases hj)
      fun d b sent' _ _ hsent hnew i j mod _ ho => ?_
    rw [hjob] at ho
    cases ho with
    | told a' ha' hkey hmap => exact .told a' (hsent a' ha') hkey hmap
    | asked req' hkey hj => rcases hj with hj | hj <;> cases hj
    | answered req' hosts' i' hkey hj hmap =>
      cases hj
      exact .told _ (hnew rfl hroom) hkey hmap
    | waiting hmem htask => exact .waiting hmem htask
    | pending hmem => exact absurd hmem (Finset.notMem_empty _)
    | pushed hosts' i' rest hj hmap => cases hj
  | unsubscribe w hjob hc hmod =>
    refine h.ofJob w hjob rfl rfl rfl rfl rfl rfl rfl (.of_heap rfl) fun c rest hj => ?_
    cases hj
    exact Or.inl ⟨_, rfl⟩
  | @cleared w c hjob =>
    have hnone : ∀ b, (s.heap.modify c fun b => { b with param := none }).read c = some b → b.param = none := by
      intro b hb
      rcases Heap.read_modify_cases hb with ⟨-, b', -, rfl⟩ | ⟨hne, -⟩
      · rfl
      · exact absurd rfl hne
    refine h.ofJob w hjob rfl rfl rfl rfl rfl rfl rfl (fun d b l hd hne hl => ?_) fun d rest hj => ?_
    · rcases Heap.read_modify_cases hd with ⟨-, b', -, rfl⟩ | ⟨-, hd'⟩
      · cases hl
      · exact Or.inr ⟨b, hd', rfl, rfl, rfl, hl⟩
    · cases hj
      exact Or.inr hnone
  | decreaseConn w hjob hc =>
    exact h.ofJob w hjob rfl rfl rfl rfl rfl rfl rfl (.of_heap rfl) (fun c rest hj => by cases hj)
  | delIoEvent w hjob hc =>
    exact h.ofJob w hjob rfl rfl rfl rfl rfl rfl rfl (.of_heap rfl) (fun c rest hj => by cases hj)
  | @close w c conn hjob hc =>
    refine h.ofJob w hjob rfl rfl rfl rfl rfl rfl rfl (fun d b l hd hne hl => ?_) fun d rest hj => by cases hj
    rcases Heap.read_modify_cases hd with ⟨-, b', -, rfl⟩ | ⟨-, hd'⟩
    · exact absurd rfl hne
    · exact Or.inr ⟨b, hd', rfl, rfl, rfl, hl⟩
  | makePublishMap w hjob hfds => exact informed_makePublishMap h hw hjob hfds he
  | @pushNext w fd mod rest hjob hmem =>
    refine h.ofPush w hjob (fun _ _ hj => by cases hj) fun c conn _ _ a _ i m entry sent ho => ?_
    cases ho with
    | told a' ha' hkey hmap => exact .told a' ha' hkey hmap
    | asked req hkey hj => rcases hj with hj | hj <;> cases hj
    | answered req hosts i' hkey hj hmap => cases hj
    | waiting hmem' htask => exact .waiting hmem' htask
    | pending hmem' =>
      have hin : (conn.connfd, m) ∈ rest := hmem'
      refine .pending ?_
      show (conn.connfd, m) ∈ insert (fd, mod) (rest.erase (fd, mod))
      rw [Finset.insert_erase hmem]
      exact hin
    | pushed hosts i' rest' hj hmap => cases hj
  | @pushHosts w fd mod rest hjob =>
    refine h.ofPush w hjob (fun _ _ hj => by cases hj) fun c conn _ _ a hpub i m entry sent ho => ?_
    cases ho with
    | told a' ha' hkey hmap => exact .told a' ha' hkey hmap
    | asked req hkey hj => rcases hj with hj | hj <;> cases hj
    | answered req hosts i' hkey hj hmap => cases hj
    | waiting hmem' htask => exact .waiting hmem' htask
    | pending hmem' =>
      rcases Finset.mem_insert.1 hmem' with heq | hin
      · cases heq
        exact .pushed _ _ rest rfl (hans.published a hpub)
      · exact .pending hin
    | pushed hosts i' rest' hj hmap => cases hj
  | @pushNull w fd mod hosts map rest walk room hjob hwalk hc =>
    refine h.ofPush w hjob (fun _ _ hj => by cases hj) fun c conn _ _ a _ i m entry sent ho => ?_
    cases ho with
    | told a' ha' hkey hmap => exact .told a' ha' hkey hmap
    | asked req hkey hj => rcases hj with hj | hj <;> cases hj
    | answered req hosts i' hkey hj hmap => cases hj
    | waiting hmem' htask => exact .waiting hmem' htask
    | pending hmem' => exact .pending hmem'
    | pushed hosts' i' rest' hj hmap =>
      cases hj
      have hpair : (conn.connfd, mod) ∈ (s.workers w).job.pairs := by
        rw [hjob]
        exact Finset.mem_insert_self ..
      obtain ⟨d, b, -, -, hfd, -, -, hconns, -⟩ := target_serving hw ha hpair
      rw [hfd, hc] at hconns
      cases hconns
  | @push w fd mod hosts map rest walk room c conn hjob hwalk hfd hc =>
    have hroom : room = true := he
    refine h.send w (fun _ => rfl) (fun d rest hj => by rw [hjob] at hj; cases hj)
      fun d b sent' hd hloop hsent hnew i j m hkey ho => ?_
    rw [hjob] at ho
    cases ho with
    | told a' ha' hk hmap => exact .told a' (hsent a' ha') hk hmap
    | asked req hk hj => rcases hj with hj | hj <;> cases hj
    | answered req hosts' i' hk hj hmap => cases hj
    | waiting hmem' htask => exact .waiting hmem' htask
    | pending hmem' => exact .pending hmem'
    | pushed hosts' i' rest' hj hmap =>
      cases hj
      -- the connection behind the number is this very one
      have hpair : (b.connfd, mod) ∈ (s.workers w).job.pairs := by
        rw [hjob]
        exact Finset.mem_insert_self ..
      obtain ⟨d', b', hd', -, hfd', hne, -, hconns, -⟩ := target_serving hw ha hpair
      have hdd := hw.fds d' d b' b hd' hd (hfd' ▸ hne) hfd'.symm
      rw [hfd', hfd] at hconns
      cases hconns
      exact .told _ (hnew hdd hroom) hkey hmap
  | pushed w hjob =>
    refine h.ofWorker w rfl rfl rfl (.of_heap rfl) (fun d rest hj => by rw [hjob] at hj; cases hj)
      fun d b _ _ a _ i mod ho => ?_
    rw [hjob] at ho
    cases ho with
    | told a' ha' hkey hmap => exact .told a' ha' hkey hmap
    | asked req hkey hj => rcases hj with hj | hj <;> cases hj
    | answered req hosts i' hkey hj hmap => cases hj
    | waiting hmem htask => exact .waiting hmem htask
    | pending hmem => exact absurd hmem (Finset.notMem_empty _)
    | pushed hosts i' rest hj hmap => cases hj
  | sendTask hi hs => exact h.ofQueue ⟨_, hi⟩ rfl rfl rfl (.of_heap rfl) rfl rfl
  | sentAll hi hs => exact h
  | publish hs hpc => exact informed_publish h hw hcount
  | swap hs hpc => exact h
  | statement hs hpc hswap hreload => exact h

/-! ## The lists hold keys that unpack -/

/-- What `push_change_task` unpacks from the lists is what was asked for. -/
def Unpacked (s : DnsServer n) : Prop :=
  ∀ c conn l, s.heap.read c = some conn → conn.param = some l → ∀ mod ∈ l,
    key (pushPair mod).1 (pushPair mod).2 = mod

/-- The old lists behind a change of one connection. -/
theorem list_of_modify {g : DnsConn n → DnsConn n} {l : Finset UInt64} (hg : ∀ b, (g b).param = b.param)
    (hd : (s.heap.modify c g).read d = some conn') (hl : conn'.param = some l) :
    ∃ conn, s.heap.read d = some conn ∧ conn.param = some l := by
  rcases Heap.read_modify_cases hd with ⟨rfl, b, hb, rfl⟩ | ⟨-, hd'⟩
  · exact ⟨b, hb, (hg b).symm.trans hl⟩
  · exact ⟨conn', hd', hl⟩

/-- **A list is new and empty, or as before, or has got the key of a request.** -/
theorem move_list (hm : Move p s e s') {l : Finset UInt64} (hd : s'.heap.read d = some conn')
    (hl : conn'.param = some l) : l = ∅ ∨ ∃ conn l', s.heap.read d = some conn ∧ conn.param = some l' ∧
      (l = l' ∨ ∃ w fd req, e = .request w fd req ∧ l = insert (subscribeKey req) l') := by
  have hkept : (∃ conn, s.heap.read d = some conn ∧ conn.param = some l) → l = ∅ ∨
      ∃ conn l', s.heap.read d = some conn ∧ conn.param = some l' ∧
        (l = l' ∨ ∃ w fd req, e = .request w fd req ∧ l = insert (subscribeKey req) l') := by
    rintro ⟨conn, hc, hparam⟩
    exact Or.inr ⟨conn, l, hc, hparam, Or.inl rfl⟩
  cases hm with
  | newConn w hjob hq =>
    rcases Heap.read_alloc_cases hd with ⟨-, rfl⟩ | hd'
    · cases hl
      exact Or.inl rfl
    · exact hkept ⟨conn', hd', hl⟩
  | @unknown w fd req c conn subList hjob hio hc hparam hk =>
    rcases Heap.read_modify_cases hd with ⟨rfl, b, hb, rfl⟩ | ⟨-, hd'⟩
    · cases hl
      exact Or.inr ⟨conn, subList, hc, hparam, Or.inr ⟨w, fd, req, rfl, rfl⟩⟩
    · exact hkept ⟨conn', hd', hl⟩
  | respond w hjob hc hwalk => exact hkept (list_of_modify (fun b => by split <;> rfl) hd hl)
  | @cleared w c hjob =>
    rcases Heap.read_modify_cases hd with ⟨-, b, -, rfl⟩ | ⟨-, hd'⟩
    · cases hl
    · exact hkept ⟨conn', hd', hl⟩
  | close w hjob hc => exact hkept (list_of_modify (g := fun b => { b with connfd := -1 }) (fun _ => rfl) hd hl)
  | push w hjob hwalk hfd hc => exact hkept (list_of_modify (fun b => by split <;> rfl) hd hl)
  | _ => exact hkept ⟨conn', hd, hl⟩

theorem move_unpacked (h : Unpacked s) (he : s.Heard p e) (hm : Move p s e s') : Unpacked s' := by
  intro d conn' l hd hl mod hmod
  rcases move_list hm hd hl with rfl | ⟨conn, l', hc, hparam, rfl | ⟨w, fd, req, rfl, rfl⟩⟩
  · exact absurd hmod (Finset.notMem_empty mod)
  · exact h d conn l hc hparam mod hmod
  · rcases Finset.mem_insert.1 hmod with rfl | hmod
    · exact key_pushPair he
    · exact h d conn l' hc hparam mod hmod

/-! ## The last response for a changed pair -/

theorem boot_informed (p : Process n) : Informed p.boot := by
  intro i a ha
  cases ha

theorem boot_unpacked (p : Process n) : Unpacked p.boot := by
  intro c conn l hc
  cases hc

/-- **Who is told is told the new routes**: when the task of a `publish` has run on the worker
of an open connection and no handler is in progress there, the last response for each changed
pair of its list has the hosts of the map that was in force at the `publish`, or of a later one. -/
def UpToDate (s : DnsServer n) : Prop :=
  ∀ (k : ℕ) (a : Announcement), s.published[k]? = some a → ∀ (c : ConnAddr) (conn : DnsConn n) l,
    s.heap.read c = some conn → conn.connfd ≠ -1 → conn.param = some l →
    (s.workers conn.loop).job = .idle → k < (s.workers conn.loop).tasksRun →
    ∀ modid cmdid, key modid cmdid ∈ a.changes → key modid cmdid ∈ l →
      ∃ rsp, conn.lastResponse modid cmdid = some rsp ∧ ∃ i, a.map ≤ i ∧ FromMap s.maps (rsp, i)

/-- The last of an ordered list is not behind its members. -/
theorem le_getLast {l : List (Lbrss.GetRouteResponse × ℕ)} (h : l.Pairwise fun a b => a.2 ≤ b.2)
    {a : Lbrss.GetRouteResponse × ℕ} (ha : a ∈ l) : ∃ b ∈ l, l.getLast? = some b ∧ a.2 ≤ b.2 := by
  have hne : l ≠ [] := List.ne_nil_of_mem ha
  refine ⟨l.getLast hne, List.getLast_mem hne, List.getLast?_eq_some_getLast hne, ?_⟩
  rw [← List.dropLast_append_getLast hne, List.mem_append, List.mem_singleton] at ha
  rcases ha with ha | heq
  · rw [← List.dropLast_append_getLast hne, List.pairwise_append] at h
    exact h.2.2 a ha _ (List.mem_singleton.2 rfl)
  · rw [← heq]

/-- The promises are kept when the worker is idle and behind the task. -/
theorem Informed.upToDate (h : Informed s) (hans : Answered s) (hkeys : Unpacked s) : UpToDate s := by
  intro k a ha c conn l hc hne hl hidle hrun modid cmdid hmod hmem
  have howed := h k a ha c conn l hc hne hl (fun rest hj => by rw [hidle] at hj; cases hj) _ hmod hmem
    (hkeys c conn l hc hl _ hmem)
  unfold Owes at howed
  rw [hidle] at howed
  rcases howed.settled rfl (Job.not_answering rfl c) with ⟨b, hb, hkey, hmap⟩ | ⟨-, htask⟩
  · -- one is sent, and the last for the pair is from the same map or a later one
    obtain ⟨hmodid, hcmdid⟩ := key_inj hkey
    have hpair : b ∈ conn.sent.filter fun a => a.1.modid = modid ∧ a.1.cmdid = cmdid :=
      List.mem_filter.2 ⟨hb, decide_eq_true ⟨hmodid, hcmdid⟩⟩
    obtain ⟨x, hx, hlast, hle⟩ := le_getLast ((hans.order c conn hc).filter _) hpair
    refine ⟨x.1, ?_, x.2, hmap.trans hle, (hans.sent c conn hc x (List.mem_filter.1 hx).1).1⟩
    rw [DnsConn.lastResponse, List.filter_map, List.getLast?_map]
    exact congrArg (Option.map Prod.fst) hlast
  · omega

/-- **Subscribers get the new routes**, in every run whose pushes reach every entry, whose
requests have `0 ≤ cmdid` and whose sends find room. -/
theorem changes_delivered (p : Process n) (es : List (Event n))
    (hes : Runs.Along (step p) (fun _ s e => s.Heard p e) p.boot es) :
    Runs.Throughout (step p) (fun _ s => UpToDate s) p.boot es := by
  have hall : Runs.Throughout (step p) (fun _ s => (Wired p s ∧ Aimed p s) ∧ Counted s ∧ Answered s ∧
      Informed s ∧ Unpacked s) p.boot es := by
    refine Runs.throughout_of_along ⟨⟨boot_wired p, boot_aimed p⟩, boot_counted p, boot_answered p,
      boot_informed p, boot_unpacked p⟩ ?_ hes
    rintro pre e s s' ⟨⟨hw, ha⟩, hcount, hans, hinf, hkeys⟩ he hs
    have hm := step_move hs
    exact ⟨⟨move_wired hw hm, move_aimed hw ha hm⟩, move_counted hcount hm, move_answered hw ha hcount hans hm,
      move_informed hw ha hcount hans hinf he hm, move_unpacked hkeys he hm⟩
  intro pre hpre s hs
  obtain ⟨-, -, hans, hinf, hkeys⟩ := hall pre hpre s hs
  exact hinf.upToDate hans hkeys

/-- The tables at time 1, when (1, `cmdid`) has got its first server. -/
def serverAdded (cmdid : UInt32) : Db :=
  ⟨⟨[⟨0, 1, cmdid, 5, 6⟩], 1, by simp⟩, some 1, ⟨[⟨0, 1, cmdid, 1⟩], 1, by simp⟩⟩

/-- A client gets descriptor 7 and asks for (1, `cmdid`), the new map is published, and the
worker runs `push_change_task` up to its push. -/
def addAndPush (cmdid : UInt32) : List (Event 1) :=
  let w : Fin 1 := Fin.last 0
  [.accept w 7, .recv w, .go w, .go w, .request w 7 ⟨1, cmdid.toInt32⟩, .go w, .go w, .respond w [] true] ++
    List.replicate 7 (.checker true 1 (serverAdded cmdid)) ++
    [.recv w, .runTask w, .makePublishMap w {7}, .pushNext w 7 (key 1 cmdid.toInt32), .go w]

theorem changes_delivered_ok :
    Runs.Throughout (step oneWorker) (fun _ s => UpToDate s) oneWorker.boot
      (addAndPush 1 ++ [.push 0 [key 5 6] true, .go 0]) := by
  refine changes_delivered oneWorker _ (Runs.along_of_check (c := fun s e => decide (s.Heard oneWorker e)) ?_ ?_)
  · decide +kernel
  · exact fun _ _ _ h => of_decide_eq_true h

/-- `make_publish_map` comes to every entry, and every query succeeds. -/
def Scanned (p : Process n) (s : DnsServer n) : Event n → Prop
  | .makePublishMap w fds => ∀ fd ∈ s.openFds, s.pushList fd ≠ none → s.Online p w fd → fd ∈ fds
  | .checker ok _ _ => ok = true
  | _ => True

instance (p : Process n) (s : DnsServer n) : (e : Event n) → Decidable (s.Scanned p e)
  | .accept _ _ => isTrue trivial
  | .recv _ => isTrue trivial
  | .request _ _ _ => isTrue trivial
  | .hangUp _ _ => isTrue trivial
  | .runTask _ => isTrue trivial
  | .go _ => isTrue trivial
  | .respond _ _ _ => isTrue trivial
  | .unsubscribe _ _ => isTrue trivial
  | .makePublishMap w fds =>
    inferInstanceAs (Decidable (∀ fd ∈ s.openFds, s.pushList fd ≠ none → s.Online p w fd → fd ∈ fds))
  | .pushNext _ _ _ => isTrue trivial
  | .push _ _ _ => isTrue trivial
  | .checker ok _ _ => inferInstanceAs (Decidable (ok = true))

/-- The test for a last response without hosts, where every map since the `publish` has some. -/
def emptied (c : ConnAddr) (modid cmdid : Int32) (k : ℕ) (s : DnsServer n) : Bool :=
  match s.published[k]?, s.heap.read c with
  | some a, some conn =>
    match conn.param with
    | none => false
    | some l => decide (conn.connfd ≠ -1 ∧ (s.workers conn.loop).job = .idle ∧
        k < (s.workers conn.loop).tasksRun ∧ key modid cmdid ∈ a.changes ∧ key modid cmdid ∈ l ∧
        (∀ rsp ∈ conn.lastResponse modid cmdid, rsp.host = []) ∧
        ∀ map ∈ s.maps.drop a.map, mapHosts (key modid cmdid) map ≠ ∅)
  | _, _ => false

theorem not_upToDate_of_emptied {modid cmdid : Int32} {k : ℕ} (h : s.emptied c modid cmdid k = true) :
    ¬UpToDate s := by
  intro hup
  unfold emptied at h
  split at h
  · rename_i a conn ha hc
    split at h
    · cases h
    · rename_i l hl
      obtain ⟨hne, hidle, hrun, hmod, hmem, hrsp, hmaps⟩ := of_decide_eq_true h
      obtain ⟨rsp, hlast, i, hi, map, walk, hmap, ⟨-, hwalk⟩, hresp⟩ :=
        hup k a ha c conn l hc hne hl hidle hrun modid cmdid hmod hmem
      have hkey : rsp.modid = modid ∧ rsp.cmdid = cmdid := by
        have hmemf := List.mem_of_getLast? hlast
        exact of_decide_eq_true (List.mem_filter.1 hmemf).2
      have hnil : walk = [] := by
        have hhost := hrsp rsp hlast
        rw [show rsp = _ from hresp] at hhost
        exact List.map_eq_nil_iff.1 hhost
      have hin : map ∈ s.maps.drop a.map := by
        refine List.mem_of_getElem? (i := i - a.map) ?_
        rw [List.getElem?_drop, Nat.add_sub_cancel' hi]
        exact hmap
      refine hmaps map hin ?_
      rw [← hkey.1, ← hkey.2, ← hwalk, hnil, List.toFinset_nil]
  · cases h

/-- A client that has asked for (1, -1) hears nothing of its first server. -/
theorem changes_delivered_fails :
    ¬∀ (n : ℕ) (p : Process n) (es : List (Event n)),
      Runs.Along (step p) (fun _ s e => s.Scanned p e) p.boot es →
        Runs.Throughout (step p) (fun _ s => UpToDate s) p.boot es := by
  intro h
  have hrun : (match Runs.run (step oneWorker) oneWorker.boot
      (addAndPush 0xFFFFFFFF ++ [.push 0 [] true, .go 0]) with
      | .ok s => s.emptied 0 1 (-1) 0
      | .error _ => false) = true := by decide +kernel
  split at hrun
  · rename_i s hs
    refine not_upToDate_of_emptied hrun (h 1 oneWorker _ ?_ _ (List.prefix_refl _) s hs)
    refine Runs.along_of_check (c := fun s e => decide (s.Scanned oneWorker e)) ?_ ?_
    · decide +kernel
    · exact fun _ _ _ h => of_decide_eq_true h
  · cases hrun

end DnsServer

end LbRpc
