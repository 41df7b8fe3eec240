import RoomSpeaker.Foundation.Run
import RoomSpeaker.Model.Poll
import RoomSpeaker.Verified.PilotIndex
import RoomSpeaker.Verified.SrvSpec

/-!
# Which descriptors `pool` polls

The loop that fills the `fd_set` looks at each client's socket and leaves the
closed ones out; the loop that reads the clients does not look.  A client that
`qsend` or `rec` closed stays in the map until `_clean`, which `pool` calls last,
so the next `pool` asks `FD_ISSET` about −1 whenever `select` reports anything.

## Main results

* `openFds_step` — the descriptor of an open client is a real one.
* `pollsLive_iff` — when one `pool` polls live descriptors only.
* `pollsLive_iff_replacesClosed` — and when all calls of a run do.
-/

namespace RoomSpeaker

open Foundation

/-- Each descriptor that the call hands to `FD_ISSET` is from 0 up, and was put in
the set by the call or belongs to the client it accepted; no client it tests is
closed. -/
structure Poller.LivePoll (s : Poller) (i : PollIn) : Prop where
  fds : ∀ d ∈ s.polled i, 0 ≤ d ∧
    (d ∈ s.fdSet ∨ ∃ ip, i.pool.conn = some ip ∧ d = (s.acceptIf i).fd ip)
  clients : s.polled i ≠ [] →
    ∀ e ∈ (s.acceptIf i).srv.clis.entries, e.2.isopen = true

/-- A `pool` call of the run polls live descriptors only. -/
def PollsLive (s : Poller) : PollOp → Prop
  | .qsend _ => True
  | .pool i => s.LivePoll i

/-- When `select` reports anything, the clients closed so far are replaced by the
connection accepted in the call. -/
def ReplacesClosed (s : Poller) : PollOp → Prop
  | .qsend _ => True
  | .pool i => i.pool.selectErr = none → i.wakes = true →
      ∀ e ∈ s.srv.clis.entries, e.2.isopen = false → i.pool.conn = some e.1

/-- The descriptor of an open client is more than 0. -/
def Poller.OpenFds (s : Poller) : Prop :=
  ∀ e ∈ s.srv.clis.entries, e.2.isopen = true → 0 < s.fd e.1

/-! ## The descriptors of open clients -/

theorem openFds_qsend {s : Poller} (h : s.OpenFds) (i : QsendIn) :
    (s.step (.qsend i)).OpenFds := by
  intro e' he' hopen
  obtain ⟨e, he, hkey, hkept⟩ :=
    exists_left_of_forall₂ (qsend_clients s.srv 0 i) he'
  rw [hkey]
  exact h e he (hkept.isopen hopen)

theorem openFds_pool {s : Poller} (h : s.OpenFds) (i : PollIn) :
    (s.step (.pool i)).OpenFds := by
  intro e he hopen
  show 0 < (s.pool i).fd e.1
  have hmem : e ∈ (s.srv.pool i.pool).1.clis.entries := by
    unfold Poller.step Poller.pool at he
    cases herr : i.pool.selectErr with
    | some errno => simpa only [herr] using he
    | none => simpa only [herr] using he
  unfold Poller.pool
  cases pool_open hmem hopen with
  | inl hacc =>
      rw [hacc.1]
      show 0 < if i.pool.conn = some e.1 then i.newFd else s.fd e.1
      rw [if_pos hacc.2]
      exact i.accepted
  | inr hold =>
      obtain ⟨hnew, k, hk, hkopen⟩ := hold
      have hfd := h (e.1, k) hk hkopen
      cases herr : i.pool.selectErr with
      | some errno => exact hfd
      | none =>
          show 0 < if i.pool.conn = some e.1 then i.newFd else s.fd e.1
          rw [if_neg (fun hconn => hnew ⟨herr, hconn⟩)]
          exact hfd

theorem openFds_step {s : Poller} (h : s.OpenFds) (op : PollOp) :
    (s.step op).OpenFds := by
  cases op with
  | qsend i => exact openFds_qsend h i
  | pool i => exact openFds_pool h i

/-! ## One call -/

/-- What a call polls when `select` reports something. -/
theorem polled_wakes (s : Poller) {i : PollIn} (herr : i.pool.selectErr = none)
    (hwakes : i.wakes = true) :
    s.polled i = s.listener :: (s.acceptIf i).sockets := by
  simp [Poller.polled, herr, hwakes]

/-- Otherwise it polls nothing. -/
theorem polled_quiet (s : Poller) {i : PollIn}
    (h : ¬(i.pool.selectErr = none ∧ i.wakes = true)) : s.polled i = [] := by
  unfold Poller.polled
  cases herr : i.pool.selectErr with
  | some errno => rfl
  | none =>
      show (if i.wakes then _ else []) = []
      rw [if_neg (fun hwakes => h ⟨herr, hwakes⟩)]

/-- A client after the accepting branch, and its descriptor: it was just
accepted, or it was there before. -/
theorem acceptIf_cases {s : Poller} {i : PollIn} {e : Ip × Clictx}
    (he : e ∈ (s.acceptIf i).srv.clis.entries) :
    (i.pool.conn = some e.1 ∧ e.2.isopen = true ∧
      e.2.socket ((s.acceptIf i).fd e.1) = (s.acceptIf i).fd e.1 ∧
      0 < (s.acceptIf i).fd e.1) ∨
    (i.pool.conn ≠ some e.1 ∧ e ∈ s.srv.clis.entries ∧
      (s.acceptIf i).fd e.1 = s.fd e.1) := by
  cases (mem_acceptIf s.srv i.pool.conn e).mp he with
  | inl hacc =>
      obtain ⟨hconn, hclient⟩ := hacc
      have hopen : e.2.isopen = true := by
        rw [hclient]
        rfl
      have hfd : (s.acceptIf i).fd e.1 = i.newFd := if_pos hconn
      refine Or.inl ⟨hconn, hopen, ?_, ?_⟩
      · unfold Clictx.socket
        rw [if_pos hopen]
      · rw [hfd]
        exact i.accepted
  | inr hold => exact Or.inr ⟨hold.1, hold.2, if_neg hold.1⟩

/-- The descriptor of an open client is put in the set. -/
theorem socket_mem_fdSet {s : Poller} (h : s.OpenFds) {e : Ip × Clictx}
    (he : e ∈ s.srv.clis.entries) (hopen : e.2.isopen = true) :
    0 < e.2.socket (s.fd e.1) ∧ e.2.socket (s.fd e.1) ∈ s.fdSet := by
  have hpos : 0 < e.2.socket (s.fd e.1) := by
    unfold Clictx.socket
    rw [if_pos hopen]
    exact h e he hopen
  have hmem : e.2.socket (s.fd e.1) ∈ s.sockets :=
    List.mem_map.mpr ⟨e, he, rfl⟩
  exact ⟨hpos, List.mem_cons_of_mem _
    (List.mem_filter.mpr ⟨hmem, decide_eq_true hpos⟩)⟩

/-- A call whose accepted connection replaces the closed clients. -/
theorem livePoll_of_replaces {s : Poller} (h : s.OpenFds) {i : PollIn}
    (hrepl : ∀ e ∈ s.srv.clis.entries, e.2.isopen = false →
      i.pool.conn = some e.1) (hpolled : s.polled i =
      s.listener :: (s.acceptIf i).sockets) : s.LivePoll i := by
  have hopen : ∀ e ∈ s.srv.clis.entries, i.pool.conn ≠ some e.1 →
      e.2.isopen = true := by
    intro e he hconn
    cases hcase : e.2.isopen with
    | true => rfl
    | false => exact absurd (hrepl e he hcase) hconn
  constructor
  · intro d hd
    rw [hpolled] at hd
    cases List.mem_cons.mp hd with
    | inl hlisten =>
        have hpos := s.listening
        rw [hlisten]
        exact ⟨by omega, Or.inl List.mem_cons_self⟩
    | inr hclient =>
        obtain ⟨e, he, rfl⟩ := List.mem_map.mp hclient
        cases acceptIf_cases he with
        | inl hacc =>
            obtain ⟨hconn, _, hsocket, hpos⟩ := hacc
            rw [hsocket]
            exact ⟨by omega, Or.inr ⟨e.1, hconn, rfl⟩⟩
        | inr hold =>
            obtain ⟨hconn, hmem, hfd⟩ := hold
            obtain ⟨hpos, hset⟩ := socket_mem_fdSet h hmem (hopen e hmem hconn)
            rw [hfd]
            exact ⟨by omega, Or.inl hset⟩
  · intro _ e he
    cases acceptIf_cases he with
    | inl hacc => exact hacc.2.1
    | inr hold => exact hopen e hold.2.1 hold.1

/-- A call polls live descriptors only exactly when nothing closed is left to
poll. -/
theorem pollsLive_iff {s : Poller} (h : s.OpenFds) (op : PollOp) :
    PollsLive s op ↔ ReplacesClosed s op := by
  cases op with
  | qsend i => exact Iff.rfl
  | pool i =>
      constructor
      · intro hlive herr hwakes e he hclosed
        by_contra hconn
        have hpolled := polled_wakes s herr hwakes
        have hmem := (mem_acceptIf s.srv i.pool.conn e).mpr (Or.inr ⟨hconn, he⟩)
        have hopen := hlive.clients (by simp [hpolled]) e hmem
        rw [hclosed] at hopen
        cases hopen
      · intro hrepl
        by_cases hwakes : i.pool.selectErr = none ∧ i.wakes = true
        · exact livePoll_of_replaces h (hrepl hwakes.1 hwakes.2)
            (polled_wakes s hwakes.1 hwakes.2)
        · have hnone := polled_quiet s hwakes
          constructor
          · intro d hd
            rw [hnone] at hd
            cases hd
          · intro hsome
            exact absurd hnone hsome

/-! ## A run -/

/--
**`pool` never polls a dead client exactly when none is left to poll.**

In a run of the server loop every descriptor handed to `FD_ISSET` is live if and
only if, whenever `select` reports anything, the clients that `qsend` and `rec`
closed before are replaced by the connection accepted in the same call.
-/
theorem pollsLive_iff_replacesClosed (listener : Int) (h : 0 < listener)
    (ops : List PollOp) :
    Along Poller.step PollsLive (Poller.init listener h) ops ↔
      Along Poller.step ReplacesClosed (Poller.init listener h) ops := by
  apply along_iff_along (I := Poller.OpenFds) (E := fun _ _ => True)
  · intro s op hs _ _
    exact openFds_step hs op
  · intro s op hs _
    exact pollsLive_iff hs op
  · intro e he
    cases he
  · exact along_true _ _ _

/-- A `pool` call in which `select` reports something. -/
def PollIn.waking (i : PoolIn) (fd : Nat) : PollIn where
  pool := i
  wakes := true
  newFd := fd + 1
  quiet := fun h => Bool.noConfusion h
  accepted := by omega

/-- The probe, with a peer that went away. -/
def QsendIn.failing (ip : Ip) : QsendIn :=
  { QsendIn.probe with
    sends := fun a => if a = ip then [⟨-1, 32⟩] else [⟨49, 0⟩] }

/-- The accepting of the first client. -/
theorem pollsLive_first_client :
    Along Poller.step PollsLive (Poller.init 3 (by decide))
      [.qsend .probe, .pool (.waking (.accepting 7) 4)] := by
  apply (pollsLive_iff_replacesClosed 3 (by decide) _).mpr
  refine ⟨trivial, ?_, trivial⟩
  intro _ _ e he
  cases he

/-- Two clients connect; the send to the first fails, then the second reports:
`FD_ISSET` is asked about −1. -/
theorem pollsDead_after_failed_send :
    ¬∀ ops, Along Poller.step PollsLive (Poller.init 3 (by decide)) ops := by
  intro h
  have hrun := h
    [.qsend .probe, .pool (.waking (.accepting 7) 4), .qsend .probe,
      .pool (.waking (.accepting 8) 5), .qsend (.failing 7),
      .pool (.waking (.reporting 8 BufHdr.zero) 6)]
  have hdead := (hrun.2.2.2.2.2.1.fds (-1) (by decide)).1
  exact absurd hdead (by decide)

end RoomSpeaker
