import LbRpc.Base.Runs
import LbRpc.Reactor.ClientFds

/-!
# Whose descriptor the TCP client closes

`clean_conn` closes `_sockfd` and leaves the number in it, and the `do_connect` at its end
closes that number again. Another thread may have got it in between.

* `owned_closes_iff`: the client closes its own descriptors alone **if and only if** it comes
  to no `do_connect` and no `clean_conn` while a `clean_conn` is in its hook.
* `closes_of_other`: it closes a descriptor that another thread has just opened.
* `cleanConn_fds`: the descriptor of `ClientLoop` is the one that is followed here.
-/

namespace LbRpc

open Runs

/-! ## The descriptor of a client on its loop -/

namespace ClientLoop

variable {s s' : ClientLoop}

theorem sendMessage_sockfd {m : Message} (h : s.sendMessage m = .ok s') : s'.sockfd = s.sockfd := by
  unfold sendMessage at h
  split at h
  · cases h
  · cases h
    rfl

theorem sendAll_sockfd {ms : List Message} (h : s.sendAll ms = .ok s') : s'.sockfd = s.sockfd := by
  induction ms generalizing s with
  | nil =>
    cases h
    rfl
  | cons m ms ih =>
    unfold sendAll at h
    cases hm : s.sendMessage m with
    | error f =>
      rw [hm] at h
      cases h
    | ok t =>
      rw [hm] at h
      exact (ih h).trans (sendMessage_sockfd hm)

theorem established_sockfd {ms : List Message} (h : s.established ms = .ok s') : s'.sockfd = s.sockfd := by
  unfold established at h
  split at h
  · cases h
  · rename_i t ht
    cases h
    have hsock := sendAll_sockfd ht
    exact hsock

/-- A `do_connect` that comes back has the socket that it made. -/
theorem doConnect_sockfd {socket : Fd} {result : ConnectResult} {ms : List Message}
    (h : s.doConnect socket result ms = .ok s') :
    socket ≠ -1 ∧ result ≠ .failed ∧ s'.sockfd = socket := by
  unfold doConnect at h
  dsimp only at h
  by_cases hsock : socket = -1
  · rw [if_pos hsock] at h
    cases h
  · rw [if_neg hsock] at h
    cases result with
    | connected => exact ⟨hsock, by simp, established_sockfd h⟩
    | inProgress =>
      cases h
      exact ⟨hsock, by simp, rfl⟩
    | failed => cases h

theorem cleanConn_sockfd {d : Dial} (h : s.cleanConn d = .ok s') :
    d.socket ≠ -1 ∧ d.connect ≠ .failed ∧ s'.sockfd = d.socket := by
  unfold cleanConn at h
  dsimp only at h
  split at h
  · cases h
  · exact doConnect_sockfd h

end ClientLoop

namespace ClientFds

variable {τ : Type*} {s s' : ClientFds τ}

/-- Every `close` of the client was of a descriptor that it had open. -/
def OwnedCloses (s : ClientFds τ) : Prop := ∀ c ∈ s.closes, c.2 = some .client

/-- The event is a call of `do_connect` or `clean_conn`. -/
def Event.Enters (e : Event τ) : Prop := e = .doConnect ∨ e = .cleanConn ∨ e = .reconnect

/-- The client has its descriptor open, under the number in `_sockfd`. -/
def Connected (s : ClientFds τ) : Prop := s.sockfd ≠ -1 ∧ s.owner s.sockfd = some .client

/-- What holds up to the second `close` of a number. -/
structure Inv (s : ClientFds τ) : Prop where
  /-- what another thread has not closed is its own -/
  held : ∀ fd t, t ∈ s.held fd → s.owner fd = some (.other t)
  connected : s.pc = .connect ∨ (s.pc = .idle ∧ s.due = 0) → s.Connected
  /-- in the hook of a `clean_conn`, the number in `_sockfd` is closed -/
  stale : s.due ≠ 0 → s.pc = .idle ∧ s.sockfd ≠ -1 ∧ s.owner s.sockfd ≠ some .client
  closes : s.OwnedCloses

theorem inv_construct (owner : Fd → Option τ) : (construct owner).Inv where
  held := by
    intro fd t ht
    have howner : owner fd = some t := by simpa [construct] using ht
    simp [construct, howner]
  connected := by
    intro h
    simp [construct] at h
  stale := by
    intro h
    simp [construct] at h
  closes := by
    intro c hc
    simp [construct] at hc

/-! ## The calls of the client -/

@[simp] theorem cleanConn_pc : s.cleanConn.pc = s.pc := by
  unfold ClientFds.cleanConn
  split <;> rfl

@[simp] theorem cleanConn_due : s.cleanConn.due = s.due + 1 := rfl

@[simp] theorem cleanConn_fd : s.cleanConn.sockfd = s.sockfd := by
  unfold ClientFds.cleanConn
  split <;> rfl

@[simp] theorem doConnect_due : s.doConnect.due = s.due := by
  unfold ClientFds.doConnect
  split <;> rfl

/-- Both calls leave no number open but those that were, and not the one in `_sockfd`. -/
theorem owner_doConnect (fd : Fd) (h : s.owner fd = none ∨ fd = s.sockfd ∧ fd ≠ -1) :
    s.doConnect.owner fd = none := by
  unfold ClientFds.doConnect
  by_cases hsock : s.sockfd ≠ -1
  · rw [if_pos hsock]
    show Function.update s.owner s.sockfd none fd = none
    by_cases hfd : fd = s.sockfd
    · rw [hfd, Function.update_self]
    · rw [Function.update_of_ne hfd]
      exact h.resolve_right fun hor => hfd hor.1
  · rw [if_neg hsock]
    exact h.resolve_right fun hor => hsock (hor.1 ▸ hor.2)

theorem owner_cleanConn {fd : Fd} (h : s.owner fd = none) : s.cleanConn.owner fd = none := by
  unfold ClientFds.cleanConn
  split
  · show Function.update s.owner s.sockfd none fd = none
    by_cases hfd : fd = s.sockfd
    · rw [hfd, Function.update_self]
    · rw [Function.update_of_ne hfd]
      exact h
  · exact h

/-- A number that the client has open is held by no other thread. -/
theorem Inv.notMem_held (h : s.Inv) (hc : s.Connected) (t : τ) : t ∉ s.held s.sockfd := by
  intro ht
  have howner := h.held _ _ ht
  rw [hc.2] at howner
  cases howner

/-- Nobody else is hurt by a `close` of one's own descriptor. -/
theorem Inv.held_close (h : s.Inv) (hc : s.Connected) {fd : Fd} {t : τ} (ht : t ∈ s.held fd) :
    s.close.owner fd = some (.other t) := by
  have hne : fd ≠ s.sockfd := by
    rintro rfl
    exact h.notMem_held hc t ht
  have hsame : s.close.owner fd = s.owner fd := Function.update_of_ne hne _ _
  rw [hsame]
  exact h.held fd t ht

/-- The client closes its own descriptor. -/
theorem Inv.ownedCloses_close (h : s.Inv) (hc : s.Connected) : s.close.OwnedCloses := by
  intro c hmem
  rcases List.mem_append.1 hmem with hold | hnew
  · exact h.closes c hold
  · rw [List.mem_singleton] at hnew
    rw [hnew]
    exact hc.2

/-- A call inside the hook of a `clean_conn` closes a number that is not the client's. -/
theorem Inv.not_ownedCloses (h : s.Inv) (hdue : s.due ≠ 0) : ¬ s.close.OwnedCloses := by
  intro hall
  have howner := hall (s.sockfd, s.owner s.sockfd) (List.mem_append_right _ List.mem_cons_self)
  exact (h.stale hdue).2.2 howner

theorem Inv.doConnect (h : s.Inv) (hc : s.Connected) (hdue : s.due = 0) : s.doConnect.Inv := by
  unfold ClientFds.doConnect
  rw [if_pos hc.1]
  refine ⟨fun fd t ht => h.held_close hc ht, ?_, ?_, h.ownedCloses_close hc⟩
  · rintro (hpc | ⟨hpc, -⟩)
    · cases hpc
    · cases hpc
  · exact fun hne => absurd hdue hne

theorem Inv.cleanConn (h : s.Inv) (hc : s.Connected) (hpc : s.pc = .idle) : s.cleanConn.Inv := by
  unfold ClientFds.cleanConn
  rw [if_pos hc.1]
  refine ⟨fun fd t ht => h.held_close hc ht, ?_, ?_, h.ownedCloses_close hc⟩
  · rintro (hpc' | ⟨-, hdue⟩)
    · have hidle : s.pc = .connect := hpc'
      rw [hpc] at hidle
      cases hidle
    · exact absurd hdue (Nat.succ_ne_zero _)
  · intro _
    refine ⟨hpc, hc.1, ?_⟩
    have hclosed : s.close.owner s.sockfd = none := Function.update_self _ _ _
    show s.close.owner s.sockfd ≠ some .client
    rw [hclosed]
    simp

theorem Inv.destroy (h : s.Inv) (hc : s.Connected) (hdue : s.due = 0) : s.destroy.Inv := by
  refine ⟨fun fd t ht => h.held_close hc ht, ?_, ?_, h.ownedCloses_close hc⟩
  · rintro (hpc | ⟨hpc, -⟩)
    · cases hpc
    · cases hpc
  · exact fun hne => absurd hdue hne

/-- The kernel hands out a number for the client. -/
theorem Inv.socket (h : s.Inv) (hpc : s.pc = .socket) {fd : Fd} (hfree : s.Free fd) :
    Inv { s with owner := Function.update s.owner fd (some .client), sockfd := fd, pc := .connect } := by
  have hdue : s.due = 0 := by
    by_contra hne
    have hidle := (h.stale hne).1
    rw [hpc] at hidle
    cases hidle
  refine ⟨?_, ?_, fun hne => absurd hdue hne, h.closes⟩
  · intro fd' t ht
    have howner := h.held fd' t ht
    have hne : fd' ≠ fd := by
      rintro rfl
      rw [hfree.2] at howner
      cases howner
    show Function.update s.owner fd (some .client) fd' = some (.other t)
    rw [Function.update_of_ne hne]
    exact howner
  · intro _
    have hpos : (0 : ℤ) ≤ fd := hfree.1
    refine ⟨?_, Function.update_self _ _ _⟩
    rintro (rfl : fd = -1)
    exact absurd hpos (by decide)

/-- A connection is on its way. -/
theorem Inv.connect (h : s.Inv) (hpc : s.pc = .connect) : Inv { s with pc := .idle } := by
  refine ⟨h.held, fun _ => h.connected (Or.inl hpc), ?_, h.closes⟩
  intro hne
  have hidle := (h.stale hne).1
  rw [hpc] at hidle
  cases hidle

/-! ## The other threads -/

/-- What others do to the table, as long as they leave the client what it has and give it
nothing. -/
theorem Inv.others (h : s.Inv) {owner : Fd → Option (FdOwner τ)} {held : Fd → List τ}
    (hheld : ∀ fd t, t ∈ held fd → owner fd = some (.other t))
    (hclient : owner s.sockfd = some .client ↔ s.owner s.sockfd = some .client) :
    Inv { s with owner := owner, held := held } where
  held := hheld
  connected := by
    intro hat
    have hc := h.connected hat
    exact ⟨hc.1, hclient.2 hc.2⟩
  stale := by
    intro hdue
    obtain ⟨hpc, hsock, hnot⟩ := h.stale hdue
    exact ⟨hpc, hsock, fun heq => hnot (hclient.1 heq)⟩
  closes := h.closes

/-- An entry of the table changes that the client does not have, neither before nor behind. -/
theorem update_client {owner : Fd → Option (FdOwner τ)} {fd sockfd : Fd} {o : Option (FdOwner τ)}
    (hold : owner fd ≠ some .client) (hnew : o ≠ some .client) :
    Function.update owner fd o sockfd = some .client ↔ owner sockfd = some .client := by
  by_cases heq : sockfd = fd
  · rw [heq, Function.update_self]
    simp [hold, hnew]
  · rw [Function.update_of_ne heq]

theorem Inv.otherOpen (h : s.Inv) (t : τ) {fd : Fd} (hfree : s.Free fd) :
    Inv { s with
      owner := Function.update s.owner fd (some (.other t))
      held := Function.update s.held fd (t :: s.held fd) } := by
  have hheld : s.held fd = [] := by
    rw [List.eq_nil_iff_forall_not_mem]
    intro u hu
    have howner := h.held fd u hu
    rw [hfree.2] at howner
    cases howner
  refine h.others ?_ (update_client (by simp [hfree.2]) (by simp))
  intro fd' u hu
  by_cases hfd : fd' = fd
  · subst hfd
    rw [Function.update_self, hheld, List.mem_singleton] at hu
    rw [Function.update_self, hu]
  · rw [Function.update_of_ne hfd] at hu ⊢
    exact h.held fd' u hu

variable [DecidableEq τ]

theorem Inv.otherClose (h : s.Inv) {t : τ} {fd : Fd} (ht : t ∈ s.held fd) :
    Inv { s with
      owner := Function.update s.owner fd none
      held := Function.update s.held fd ((s.held fd).filter (· ≠ t)) } := by
  have howner := h.held fd t ht
  refine h.others ?_ (update_client (by simp [howner]) (by simp))
  intro fd' u hu
  by_cases hfd : fd' = fd
  · -- the number has one owner, so no other thread is left
    subst hfd
    rw [Function.update_self, List.mem_filter] at hu
    have hsame := h.held fd' u hu.1
    rw [howner] at hsame
    cases hsame
    simp at hu
  · rw [Function.update_of_ne hfd] at hu ⊢
    exact h.held fd' u hu

/-! ## Runs -/

/-- **One step**, where no `clean_conn` is in its hook when the client is called. -/
theorem Inv.step (h : s.Inv) {e : Event τ} (hC : e.Enters → s.due = 0) (hs : s.step e = .ok s') :
    s'.Inv := by
  cases e with
  | doConnect =>
    have hdue := hC (Or.inl rfl)
    cases hs
    by_cases hpc : s.pc = .idle
    · rw [if_pos hpc]
      exact h.doConnect (h.connected (Or.inr ⟨hpc, hdue⟩)) hdue
    · rw [if_neg hpc]
      exact h
  | socket fd =>
    unfold ClientFds.step at hs
    dsimp only at hs
    by_cases hpc : s.pc = .socket
    · rw [if_pos hpc] at hs
      by_cases hfail : fd = -1
      · rw [if_pos hfail] at hs
        cases hs
      · rw [if_neg hfail] at hs
        by_cases hfree : s.Free fd
        · rw [if_pos hfree] at hs
          cases hs
          exact h.socket hpc hfree
        · rw [if_neg hfree] at hs
          cases hs
          exact h
    · rw [if_neg hpc] at hs
      cases hs
      exact h
  | connect result =>
    unfold ClientFds.step at hs
    dsimp only at hs
    by_cases hpc : s.pc = .connect
    · rw [if_pos hpc] at hs
      by_cases hfail : result = .failed
      · rw [if_pos hfail] at hs
        cases hs
      · rw [if_neg hfail] at hs
        cases hs
        exact h.connect hpc
    · rw [if_neg hpc] at hs
      cases hs
      exact h
  | cleanConn =>
    have hdue := hC (Or.inr (Or.inl rfl))
    cases hs
    by_cases hpc : s.pc = .idle
    · rw [if_pos hpc]
      exact h.cleanConn (h.connected (Or.inr ⟨hpc, hdue⟩)) hpc
    · rw [if_neg hpc]
      exact h
  | reconnect =>
    have hdue := hC (Or.inr (Or.inr rfl))
    cases hs
    rw [if_neg fun hat => hat.2 hdue]
    exact h
  | destroy =>
    cases hs
    by_cases hat : s.pc = .idle ∧ s.due = 0
    · rw [if_pos hat]
      exact h.destroy (h.connected (Or.inr hat)) hat.2
    · rw [if_neg hat]
      exact h
  | otherOpen t fd =>
    cases hs
    by_cases hfree : s.Free fd
    · rw [if_pos hfree]
      exact h.otherOpen t hfree
    · rw [if_neg hfree]
      exact h
  | otherClose t fd =>
    cases hs
    by_cases ht : t ∈ s.held fd
    · rw [if_pos ht]
      exact h.otherClose ht
    · rw [if_neg ht]
      exact h

/-- A call in the hook of a `clean_conn` closes once more what that one has closed. -/
theorem Inv.enters (h : s.Inv) {e : Event τ} (he : e.Enters) (hdue : s.due ≠ 0) :
    ∃ s', s.step e = .ok s' ∧ ¬ s'.OwnedCloses := by
  obtain ⟨hpc, hsock, -⟩ := h.stale hdue
  have hbad := h.not_ownedCloses hdue
  rcases he with rfl | rfl | rfl
  · refine ⟨_, rfl, ?_⟩
    rw [if_pos hpc]
    unfold ClientFds.doConnect
    rw [if_pos hsock]
    exact hbad
  · refine ⟨_, rfl, ?_⟩
    rw [if_pos hpc]
    unfold ClientFds.cleanConn
    rw [if_pos hsock]
    exact hbad
  · refine ⟨_, rfl, ?_⟩
    rw [if_pos ⟨hpc, hdue⟩]
    unfold ClientFds.doConnect
    dsimp only
    rw [if_pos hsock]
    exact hbad

/-- **The client closes its own descriptors alone if and only if** it comes to no `do_connect`
and no `clean_conn` while a `clean_conn` is in its hook. The call at the end of a `clean_conn`
is such a `do_connect`. -/
theorem owned_closes_iff (owner : Fd → Option τ) (es : List (Event τ)) :
    Throughout step (fun _ s => s.OwnedCloses) (construct owner) es ↔
      Along step (fun _ s e => e.Enters → s.due = 0) (construct owner) es := by
  rw [throughout_iff_upTo]
  refine alwaysUpTo_iff (Q := fun _ s => s.Inv) (fun _ s h => h.closes) (inv_construct owner) ?_ ?_
  · intro pre e _ s _ h hC
    cases hs : s.step e with
    | ok s' => exact Or.inl ⟨s', rfl, h.step hC hs⟩
    | error f => exact Or.inr ⟨f, rfl, trivial⟩
  · intro pre e _ s _ h hout he
    by_contra hdue
    obtain ⟨s', hs, hbad⟩ := h.enters he hdue
    rcases hout with ⟨u, hu, hgood⟩ | ⟨f, hf, -⟩
    · rw [hs] at hu
      cases hu
      exact hbad hgood
    · rw [hs] at hf
      cases hf

/-- The connection 5 is lost. Another thread opens a file before the client is back from its
hook, and gets the number 5. -/
def fileOpened : List (Event Unit) :=
  [.socket 5, .connect .inProgress, .cleanConn, .otherOpen () 5, .reconnect]

/-- **The client closes a descriptor that another thread has just opened.** -/
theorem closes_of_other : ¬ ∀ es : List (Event Unit),
    Throughout step (fun _ s => s.OwnedCloses) (construct fun _ => none) es := by
  intro hall
  obtain ⟨s, hs, hcloses⟩ : ∃ s, run step (construct fun _ => none) fileOpened = .ok s ∧
      s.closes = [(5, some .client), (5, some (.other ()))] := ⟨_, rfl, rfl⟩
  have howned := hall fileOpened fileOpened (List.prefix_refl _) s hs (5, some (.other ()))
  rw [hcloses] at howned
  simp at howned

/-! ## A whole `clean_conn` -/

/-- **The descriptor of `ClientLoop`** is the one that is followed here: a `clean_conn` that
comes back has gone through its two halves, and has the number that `socket` handed out. -/
theorem cleanConn_fds {d : Dial} {c c' : ClientLoop} (h : c.cleanConn d = .ok c') (hpc : s.pc = .idle)
    (hpos : 0 ≤ d.socket) (hfree : s.owner d.socket = none ∨ d.socket = s.sockfd) :
    ∃ s', run step s [.cleanConn, .reconnect, .socket d.socket, .connect d.connect] = .ok s' ∧
      s'.sockfd = c'.sockfd ∧ s'.pc = .idle ∧ s'.due = s.due := by
  obtain ⟨hsocket, hresult, hfd⟩ := ClientLoop.cleanConn_sockfd h
  have hne : d.socket ≠ -1 := by omega
  let t : ClientFds τ := { s.cleanConn with due := s.cleanConn.due - 1 }
  have howner : t.doConnect.owner d.socket = none := by
    refine owner_doConnect d.socket ?_
    rcases hfree with hnone | hsame
    · exact Or.inl (owner_cleanConn hnone)
    · exact Or.inr ⟨hsame.trans cleanConn_fd.symm, hne⟩
  have h1 : step s .cleanConn = .ok s.cleanConn := by
    show Except.ok (if s.pc = .idle then s.cleanConn else s) = _
    rw [if_pos hpc]
  have h2 : step s.cleanConn .reconnect = .ok t.doConnect := by
    show Except.ok (if s.cleanConn.pc = .idle ∧ s.cleanConn.due ≠ 0 then t.doConnect else _) = _
    rw [if_pos ⟨cleanConn_pc.trans hpc, by simp⟩]
  have h3 : step t.doConnect (.socket d.socket) = .ok { t.doConnect with
      owner := Function.update t.doConnect.owner d.socket (some .client)
      sockfd := d.socket
      pc := .connect } := by
    have hfree' : t.doConnect.Free d.socket := ⟨hpos, howner⟩
    show (if d.socket = -1 then _ else _) = _
    rw [if_neg hsocket, if_pos hfree']
  have h4 : ∀ u : ClientFds τ, u.pc = .connect → step u (.connect d.connect) = .ok { u with pc := .idle } := by
    intro u hu
    show (if u.pc = .connect then if d.connect = .failed then _ else _ else _) = _
    rw [if_pos hu, if_neg hresult]
  have hrun := run_cons_ok.2 ⟨_, h3, run_cons_ok.2 ⟨_, h4 _ rfl, run_nil _⟩⟩
  refine ⟨_, run_cons_ok.2 ⟨_, h1, run_cons_ok.2 ⟨_, h2, hrun⟩⟩, hfd.symm, rfl, ?_⟩
  show t.doConnect.due = s.due
  simp [t]

end ClientFds

end LbRpc
