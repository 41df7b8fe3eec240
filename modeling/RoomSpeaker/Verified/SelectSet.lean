import RoomSpeaker.Verified.Descriptors

/-!
# Descriptors and addresses

`Model.TcpSrv` is told which clients have something to say, and who connects.  The
code asks a set of descriptors, after `accept` has changed the clients it asks
about.  The two agree as long as `select` sets no descriptor but those it was given,
and `accept` returns one that was not open: the client just accepted is then never
taken for one that `select` looked at, even when it has the descriptor of a client
closed before.

What `FD_ISSET` makes of −1 is open.

## Main results

* `srv_fdPool` — a `pool` that is told of descriptors is one that is told of
  addresses.
* `descriptors_follow_addresses` — and so is every run.
-/

namespace RoomSpeaker

open Foundation

namespace Poller

/-- The inputs of a `pool` that is told of addresses. -/
def poolIn (s : Poller) (i : FdPoolIn) : PoolIn where
  selectErr := i.selectErr
  ready :=
    if i.wakes then
      (s.srv.clis.entries.filter fun e => i.isset (e.2.socket (s.fd e.1))).map Prod.fst
    else []
  conn :=
    if i.wakes && (i.isset s.listener && decide (0 < i.newFd)) then some i.newIp
    else none
  recv := i.recv
  tick := i.tick

/-- The call, for a server that is told of addresses. -/
def srvOps (s : Poller) : FdOp → List SrvOp
  | .qsend i => [.qsend i]
  | .pool i => [.pool (s.poolIn i)]

/-- `select` leaves no descriptor in the set but those it was given. -/
def SelectOk (s : Poller) : FdOp → Prop
  | .qsend _ => True
  | .pool i => ∀ d, 0 ≤ d → i.isset d = true → d ∈ s.fdSet

end Poller

/-! ## The reading loop -/

/-- The loop that asks for descriptors reads the same clients as the one that asks
for addresses, if these say the same of each client. -/
theorem readLoopFd_eq {i : FdPoolIn} {j : PoolIn} (hrecv : j.recv = i.recv)
    (htick : j.tick = i.tick) (fd : Ip → Int) (rd : List Ip)
    (es : List (Ip × Clictx))
    (hsame : ∀ e ∈ es, i.isset (e.2.socket (fd e.1)) = true ↔ e.1 ∈ rd) :
    ∀ p, (readLoopFd i fd p es).1 = (readLoop j rd p es).1 ∧
      (readLoopFd i fd p es).2.1 = (readLoop j rd p es).2 := by
  induction es with
  | nil => intro p; exact ⟨rfl, rfl⟩
  | cons e es ih =>
      intro p
      have hone : (readOneFd i fd p e).1 = (readOne j rd p e).1 ∧
          (readOneFd i fd p e).2.1 = (readOne j rd p e).2 := by
        simp only [readOneFd, readOne, hrecv, htick]
        by_cases hmem : e.1 ∈ rd
        · rw [if_pos hmem, if_pos ((hsame e List.mem_cons_self).mpr hmem)]
          exact ⟨rfl, rfl⟩
        · rw [if_neg hmem,
            if_neg fun hset => hmem ((hsame e List.mem_cons_self).mp hset)]
          exact ⟨rfl, rfl⟩
      have hrest := ih (fun x hx => hsame x (List.mem_cons_of_mem e hx))
        (readOneFd i fd p e).1
      simp only [readLoopFd, readLoop]
      rw [hone.1] at hrest ⊢
      exact ⟨hrest.1, congrArg₂ List.cons hone.2 hrest.2⟩

namespace Poller

variable {s : Poller}

theorem srv_readAllFd {i : FdPoolIn} {j : PoolIn} (hrecv : j.recv = i.recv)
    (htick : j.tick = i.tick) (rd : List Ip)
    (hsame : ∀ e ∈ s.srv.clis.entries,
      i.isset (e.2.socket (s.fd e.1)) = true ↔ e.1 ∈ rd) :
    (s.readAllFd i).1.srv = s.srv.readAll j rd := by
  obtain ⟨hpilot, hclients⟩ :=
    readLoopFd_eq hrecv htick s.fd rd s.srv.clis.entries hsame s.srv.pilot
  have hclis : (s.readAllFd i).1.srv.clis = (s.srv.readAll j rd).clis :=
    KeyMap.ext_entries hclients
  have hfields : (s.readAllFd i).1.srv =
      { s.srv with
        clis := (s.readAllFd i).1.srv.clis
        pilot := (readLoopFd i s.fd s.srv.pilot s.srv.clis.entries).1 } := rfl
  rw [hfields, hclis, hpilot]
  rfl

/-- Nobody is read when nothing was reported. -/
theorem readAll_nil (t : TcpSrv) (j : PoolIn) : t.readAll j [] = t := by
  have hloop : ∀ (es : List (Ip × Clictx)) p, readLoop j [] p es = (p, es) := by
    intro es
    induction es with
    | nil => intro p; rfl
    | cons e es ih => intro p; simp [readLoop, readOne, ih]
  have hclis : (t.readAll j []).clis = t.clis := by
    apply KeyMap.ext_entries
    show (readLoop j [] t.pilot t.clis.entries).2 = _
    rw [hloop]
  have hfields : t.readAll j [] =
      { t with
        clis := (t.readAll j []).clis
        pilot := (readLoop j [] t.pilot t.clis.entries).1 } := rfl
  rw [hfields, hclis, hloop]

/-! ## `pool` -/

/-- The client that is accepted, if there is one. -/
theorem srv_acceptFd {i : FdPoolIn} (hwakes : i.wakes = true) :
    (s.acceptFd i).1.srv = s.srv.acceptIf (s.poolIn i).conn := by
  unfold acceptFd poolIn
  cases hset : i.isset s.listener with
  | true =>
      by_cases hpos : 0 < i.newFd
      · simp only [hwakes, hpos]
        rfl
      · simp only [hwakes, hpos]
        rfl
  | false =>
      simp only [hwakes]
      rfl

/-- What is known of a client by its descriptor is known by its address. -/
theorem isset_iff_ready {i : FdPoolIn} (hwakes : i.wakes = true) {e : Ip × Clictx}
    (he : e ∈ s.srv.clis.entries) :
    i.isset (e.2.socket (s.fd e.1)) = true ↔ e.1 ∈ (s.poolIn i).ready := by
  have hready : (s.poolIn i).ready =
      (s.srv.clis.entries.filter fun e => i.isset (e.2.socket (s.fd e.1))).map
        Prod.fst := by
    unfold poolIn
    rw [if_pos hwakes]
  rw [hready, List.mem_map]
  constructor
  · intro hset
    exact ⟨e, List.mem_filter.mpr ⟨he, hset⟩, rfl⟩
  · rintro ⟨e', he', hkey⟩
    obtain ⟨hmem, hset⟩ := List.mem_filter.mp he'
    obtain ⟨ip, k⟩ := e
    obtain ⟨ip', k'⟩ := e'
    obtain rfl : ip' = ip := hkey
    rw [s.srv.clis.eq_of_mem he hmem]
    exact hset

theorem conn_eq_some {i : FdPoolIn} {ip : Ip} (hconn : (s.poolIn i).conn = some ip) :
    i.isset s.listener = true ∧ 0 < i.newFd ∧ i.newIp = ip := by
  unfold poolIn at hconn
  simp only [Option.ite_none_right_eq_some, Bool.and_eq_true, decide_eq_true_eq,
    Option.some.injEq] at hconn
  exact ⟨hconn.1.2.1, hconn.1.2.2, hconn.2⟩

/-- The descriptor of a client after the accepting branch. -/
theorem fd_acceptFd {i : FdPoolIn} (hwakes : i.wakes = true) (ip : Ip) :
    (s.acceptFd i).1.fd ip =
      if (s.poolIn i).conn = some ip then i.newFd else s.fd ip := by
  unfold acceptFd poolIn
  cases hset : i.isset s.listener with
  | true =>
      by_cases hpos : 0 < i.newFd
      · simp [hwakes, hpos, eq_comm]
      · simp [hpos]
  | false => simp

/-- After `accept` too: the new client is not asked about. -/
theorem isset_iff_readSet {i : FdPoolIn} (hwakes : i.wakes = true)
    (hselect : ∀ d, 0 ≤ d → i.isset d = true → d ∈ s.fdSet)
    (hnew : i.isset s.listener = true → 0 < i.newFd → i.newFd ∉ s.held)
    {e : Ip × Clictx} (he : e ∈ (s.acceptFd i).1.srv.clis.entries) :
    i.isset (e.2.socket ((s.acceptFd i).1.fd e.1)) = true ↔
      e.1 ∈ (s.poolIn i).readSet := by
  rw [srv_acceptFd hwakes] at he
  rw [fd_acceptFd hwakes, PoolIn.readSet, List.mem_filter]
  rcases (mem_acceptIf s.srv _ e).mp he with ⟨hconn, hclient⟩ | ⟨hconn, hmem⟩
  · obtain ⟨hset, hpos, _⟩ := conn_eq_some hconn
    -- it was not open when `select` was called
    have hclear : i.isset i.newFd = false := by
      by_contra hnot
      have hmem := hselect i.newFd (by omega) (by simpa using hnot)
      exact hnew hset hpos (fdSet_held hmem)
    have hsock : e.2.socket i.newFd = i.newFd := by
      rw [hclient]
      rfl
    rw [if_pos hconn, hsock, hclear]
    simp [hconn]
  · rw [if_neg hconn, isset_iff_ready hwakes hmem]
    simp [hconn]

/-- The server after the accepting and the reading part. -/
theorem srv_serveFd {i : FdPoolIn} (hwakes : i.wakes = true)
    (hselect : ∀ d, 0 ≤ d → i.isset d = true → d ∈ s.fdSet)
    (hnew : i.isset s.listener = true → 0 < i.newFd → i.newFd ∉ s.held) :
    (s.serveFd i).1.srv =
      (s.srv.acceptIf (s.poolIn i).conn).readAll (s.poolIn i) (s.poolIn i).readSet := by
  rw [serveFd, ← srv_acceptFd hwakes]
  exact srv_readAllFd rfl rfl _ fun e he => isset_iff_readSet hwakes hselect hnew he

/-- A `pool` that is told of descriptors is one that is told of addresses. -/
theorem srv_fdPool {i : FdPoolIn} (hselect : s.SelectOk (.pool i))
    (hfresh : Fresh s.held (handlesOf (s.fdPool i).2)) :
    (s.fdPool i).1.srv = (s.srv.pool (s.poolIn i)).1 := by
  have herrs : (s.poolIn i).selectErr = i.selectErr := rfl
  unfold TcpSrv.pool
  cases herr : i.selectErr with
  | some errno =>
      unfold fdPool
      simp only [herrs, herr]
  | none =>
      have hserved : (if i.wakes then serveFd { s with srv := s.srv.markDirty } i
            else ({ s with srv := s.srv.markDirty }, [])).1.srv =
          (s.srv.markDirty.acceptIf (s.poolIn i).conn).readAll (s.poolIn i)
            (s.poolIn i).readSet := by
        by_cases hwakes : i.wakes = true
        · rw [if_pos hwakes]
          have hnew := fresh_acceptFd herr hwakes hfresh
          exact srv_serveFd hwakes hselect fun hset hpos =>
            notMem_of_fresh hset hpos hnew
        · have hconn : (s.poolIn i).conn = none := by simp [poolIn, hwakes]
          have hready : (s.poolIn i).readSet = [] := by
            simp [poolIn, PoolIn.readSet, hwakes]
          rw [if_neg hwakes, hconn, hready, readAll_nil]
          rfl
      unfold fdPool
      simp only [herrs, herr]
      rw [hserved]

/-- Every call. -/
theorem srv_fdStep (op : FdOp) (hselect : s.SelectOk op)
    (hfresh : Fresh s.held (handlesOf (s.fdCalls op))) :
    (s.fdStep op).srv = run TcpSrv.step s.srv (s.srvOps op) := by
  cases op with
  | qsend i => rfl
  | pool i => exact srv_fdPool hselect hfresh

end Poller

/--
**The server follows its descriptors as it would follow addresses.**

If `select` sets no descriptor but those it was given, and no descriptor is handed
out while it is open, the server that is told of descriptors goes through the states
of the one that is told of addresses, whatever `FD_ISSET` makes of −1.
-/
theorem descriptors_follow_addresses (tries : Nat → ListenTry) (ops : List FdOp)
    (hfresh : Fresh ∅ (handlesOf (TcpSrv.life tries ops)))
    (h : 0 < (TcpSrv.listen tries).1)
    (hselect : Along Poller.fdStep Poller.SelectOk
      (Poller.init (TcpSrv.listen tries).1 h) ops) :
    (run Poller.fdStep (Poller.init (TcpSrv.listen tries).1 h) ops).srv =
      run TcpSrv.step TcpSrv.init
        (trace Poller.fdStep Poller.srvOps (Poller.init (TcpSrv.listen tries).1 h)
          ops) := by
  have hlent := (serves_run (TcpSrv.listen tries).1 h ops _
    (fresh_life hfresh h)).2
  exact run_view_along (v := Poller.srv) (I := Poller.FdInv)
    (fun s op hs hC => (Poller.serves_fdStep hs op hC.1).inv)
    (fun s op _ hC => Poller.srv_fdStep op hC.2 hC.1) ops _
    (Poller.fdInv_init (TcpSrv.listen tries).1 h) (along_and ops _ hlent hselect)

/-- The new client has the descriptor of the lost one and another address. -/
theorem handed_on_by_address :
    (run Poller.fdStep (Poller.init (TcpSrv.listen secondTry).1 (by decide +kernel))
        handedOn).srv =
      run TcpSrv.step TcpSrv.init
        (trace Poller.fdStep Poller.srvOps
          (Poller.init (TcpSrv.listen secondTry).1 (by decide +kernel)) handedOn) := by
  apply descriptors_follow_addresses secondTry handedOn fresh_handedOn
  have hlistener : ∀ (s : Poller) ip, s.listener = 3 →
      s.SelectOk (.pool (.accepting ip)) := by
    intro s ip hs d _ hset
    obtain rfl : d = 3 := of_decide_eq_true hset
    exact hs ▸ List.mem_cons_self
  exact ⟨hlistener _ 7 (by decide +kernel), trivial,
    hlistener _ 8 (by decide +kernel), trivial⟩

end RoomSpeaker
