import RoomSpeaker.Foundation.History
import RoomSpeaker.Model.Reconnect
import RoomSpeaker.Verified.Connecting
import RoomSpeaker.Verified.Ownership

/-!
# A client that connects again and again

The network thread uses one descriptor after the other.  `SockCall.next` says what
may be asked of a descriptor: nothing once it is closed, a connection only while
the socket cannot block, a frame only while it can, so that a slow frame is waited
for.  Neither the flags of the socket nor what is left of a lost connection keep
the thread from trying again.

For the queue the thread is that of `Model.Speaker`, in which a connection is one
step: every run of the program is one of the two threads.

## Main results

* `accepted_s4connect`, `sock_s4connect` — the call keeps the discipline, and it is
  the call of `Model.Connect`.
* `always_reconnects` — all calls of a run are allowed, and whenever `_tmain` comes
  round nothing is open and it looks for a server.
* `reconnects_as_threads` — the program is the two threads, and no lost connection
  leaves a chunk locked.
-/

namespace RoomSpeaker

open Foundation

/-! ## The discipline of a descriptor -/

/-- A descriptor that `isopen` takes for one. -/
def descriptor (fd : Int) : Option Int := if 0 < fd then some fd else none

/-- What is open after a call, if the call may be made.  Descriptor 0 counts as none:
it is connected as it is and never closed. -/
def SockCall.next (held : Option Int) : SockCall → Option (Option Int)
  | .socket fd => if held = none then some (descriptor fd) else none
  | .connect fd nonblock =>
      if held = descriptor fd ∧ (0 < fd → nonblock = true) then some held else none
  | .setBuffers fd => if held = some fd then some held else none
  | .recv fd nonblock =>
      if held = some fd ∧ nonblock = false then some held else none
  | .send fd nonblock =>
      if held = some fd ∧ nonblock = false then some held else none
  | .shutdown fd => if held = some fd then some held else none
  | .drain fd nonblock =>
      if held = some fd ∧ nonblock = true then some held else none
  | .close fd => if held = some fd then some none else none

/-- The calls may be made one after the other, and lead from one open descriptor to
the other. -/
def Accepted (held : Option Int) (calls : List SockCall) (held' : Option Int) : Prop :=
  calls.foldlM SockCall.next held = some held'

theorem Accepted.nil (held : Option Int) : Accepted held [] held := rfl

theorem Accepted.append {a b c : Option Int} {xs ys : List SockCall}
    (hxs : Accepted a xs b) (hys : Accepted b ys c) : Accepted a (xs ++ ys) c := by
  unfold Accepted at *
  rw [List.foldlM_append, hxs]
  exact hys

theorem Accepted.cons {a b c : Option Int} {x : SockCall} {xs : List SockCall}
    (hx : x.next a = some b) (hxs : Accepted b xs c) : Accepted a (x :: xs) c := by
  unfold Accepted at *
  rw [List.foldlM_cons, hx]
  exact hxs

theorem Accepted.single {a b : Option Int} {x : SockCall} (hx : x.next a = some b) :
    Accepted a [x] b :=
  Accepted.cons hx (Accepted.nil b)

/-! ## The socket -/

namespace CliConn

/-- The descriptor that is open. -/
def held (s : CliConn) : Option Int := descriptor s.sock.thesock

/-- The flags of a socket on which no connection is being made. -/
structure Idle (s : CliConn) : Prop where
  connecting : s.connecting = false
  connected : s.connected = false

theorem held_eq_some {s : CliConn} (h : s.isopen = true) :
    s.held = some s.sock.thesock :=
  if_pos (of_decide_eq_true h)

theorem held_eq_none {s : CliConn} (h : s.isopen = false) : s.held = none :=
  if_neg (of_decide_eq_false h)

@[simp] theorem sock_setBlocking (s : CliConn) (b : Bool) :
    (s.setBlocking b).sock = s.sock := rfl

@[simp] theorem held_setBlocking (s : CliConn) (b : Bool) :
    (s.setBlocking b).held = s.held := rfl

@[simp] theorem isopen_setBlocking (s : CliConn) (b : Bool) :
    (s.setBlocking b).isopen = s.isopen := rfl

theorem nonblock_setBlocking (s : CliConn) (h : s.isopen = true) (b : Bool) :
    (s.setBlocking b).nonblock = !b :=
  if_pos h

theorem Idle.setBlocking {s : CliConn} (h : s.Idle) (b : Bool) :
    (s.setBlocking b).Idle :=
  ⟨h.connecting, h.connected⟩

/-! ### `destroy` -/

theorem destroy_closed {s : CliConn} (h : s.isopen = false) : s.destroy = (s, []) :=
  if_neg (by simp [h])

@[simp] theorem sock_destroy (s : CliConn) : s.destroy.1.sock = s.sock.destroy := by
  cases h : s.isopen with
  | true =>
      rw [destroy, if_pos h]
      rfl
  | false =>
      rw [destroy_closed h, CliSock.destroy, if_neg (of_decide_eq_false h)]

theorem held_destroy (s : CliConn) : s.destroy.1.held = none := by
  rw [held, sock_destroy]
  exact if_neg (Int.not_lt.mpr (destroy_thesock s.sock))

theorem Idle.destroy {s : CliConn} (h : s.Idle) : s.destroy.1.Idle := by
  unfold CliConn.destroy
  split
  · exact ⟨rfl, rfl⟩
  · exact h

/-- The descriptor is drained without blocking and closed once. -/
theorem accepted_destroy (s : CliConn) :
    Accepted s.held s.destroy.2 s.destroy.1.held := by
  rw [held_destroy]
  cases h : s.isopen with
  | true =>
      let quiet : CliConn := { s with connecting := false, connected := false }
      have hmode : (quiet.setBlocking false).nonblock = true :=
        quiet.nonblock_setBlocking h false
      rw [destroy, if_pos h, held_eq_some h]
      refine Accepted.cons (if_pos rfl) (Accepted.cons (if_pos ⟨rfl, hmode⟩) ?_)
      exact Accepted.cons (if_pos rfl) (Accepted.single (if_pos rfl))
  | false =>
      rw [destroy_closed h, held_eq_none h]
      exact Accepted.nil none

/-! ### `s4connect` -/

theorem Idle.attempt {s : CliConn} (h : s.Idle) (cbCall : Nat → Bool) (sip : Text)
    (a : Attempt) : (s.attempt cbCall sip a).1.Idle := by
  unfold CliConn.attempt
  split
  · exact ⟨rfl, h.connected⟩
  · split
    · split
      · exact ⟨rfl, h.connected⟩
      · dsimp only
        split
        · exact Idle.destroy ⟨rfl, h.connected⟩
        · exact ⟨rfl, h.connected⟩
    · exact Idle.destroy ⟨rfl, h.connected⟩

/-- From `::connect` on the descriptor is kept, or closed. -/
theorem accepted_attempt (cbCall : Nat → Bool) (s : CliConn) (sip : Text)
    (a : Attempt) :
    Accepted s.held (s.attempt cbCall sip a).2.2 (s.attempt cbCall sip a).1.held := by
  have hclose := accepted_destroy { s with connecting := false }
  unfold attempt
  split
  · exact Accepted.nil _
  · split
    · split
      · next acc _ => cases acc <;> exact Accepted.nil _
      · dsimp only
        split
        · exact hclose
        · exact Accepted.nil _
    · exact hclose

/-- What is closed when `s4connect` starts. -/
def cleared (s : CliConn) : CliConn × List SockCall :=
  if s.sock.thesock ≠ -1 then s.destroy else (s, [])

/-- The socket with its new descriptor. -/
def opened (s : CliConn) (a : Attempt) : CliConn :=
  { s.cleared.1 with
    sock := { s.cleared.1.sock with thesock := a.fd, peer := none }
    nonblock := false }

/-- The socket when `::connect` is called. -/
def aimed (s : CliConn) (sip : Text) (a : Attempt) : CliConn :=
  { (s.opened a).setBlocking (s.opened a).blocking with
    sock := (s.opened a).sock.aim sip }

/-- And unblocked for the call. -/
def unblocked (s : CliConn) (sip : Text) (a : Attempt) : CliConn :=
  { (s.aimed sip a).setBlocking false with connecting := false }

theorem s4connect_of_neg (cbCall : Nat → Bool) (s : CliConn) (sip : Text)
    {a : Attempt} (hfd : a.fd < 0) :
    s.s4connect cbCall sip a = (s.opened a, 0, s.cleared.2 ++ [.socket a.fd]) :=
  if_pos hfd

theorem s4connect_of_nonneg (cbCall : Nat → Bool) (s : CliConn) (sip : Text)
    {a : Attempt} (hfd : 0 ≤ a.fd) :
    s.s4connect cbCall sip a =
      (((s.unblocked sip a).attempt cbCall sip a).1.setBlocking
          (s.aimed sip a).blocking,
        ((s.unblocked sip a).attempt cbCall sip a).2.1,
        s.cleared.2 ++ .socket a.fd ::
          .connect a.fd (s.unblocked sip a).nonblock ::
            ((s.unblocked sip a).attempt cbCall sip a).2.2) :=
  if_neg (Int.not_lt.mpr hfd)

theorem accepted_cleared (s : CliConn) :
    Accepted s.held s.cleared.2 none ∧ s.cleared.1.held = none := by
  unfold cleared
  split
  · exact ⟨held_destroy s ▸ accepted_destroy s, held_destroy s⟩
  · next h =>
      have hnone : s.held = none := by
        rw [held, not_not.mp h]
        rfl
      exact ⟨hnone ▸ Accepted.nil none, hnone⟩

theorem Idle.opened {s : CliConn} (h : s.Idle) (a : Attempt) : (s.opened a).Idle := by
  have hcleared : s.cleared.1.Idle := by
    unfold cleared
    split
    · exact h.destroy
    · exact h
  exact ⟨hcleared.connecting, hcleared.connected⟩

theorem Idle.s4connect {s : CliConn} (h : s.Idle) (cbCall : Nat → Bool) (sip : Text)
    (a : Attempt) : (s.s4connect cbCall sip a).1.Idle := by
  by_cases hfd : a.fd < 0
  · rw [s4connect_of_neg cbCall s sip hfd]
    exact h.opened a
  · rw [s4connect_of_nonneg cbCall s sip (Int.not_lt.mp hfd)]
    have hstart : (s.unblocked sip a).Idle := ⟨rfl, (h.opened a).connected⟩
    exact (hstart.attempt cbCall sip a).setBlocking _

/-- What was open is closed before the new descriptor is opened, and the connection
is made on a socket that does not block. -/
theorem accepted_s4connect (cbCall : Nat → Bool) (s : CliConn) (sip : Text)
    (a : Attempt) :
    Accepted s.held (s.s4connect cbCall sip a).2.2
      (s.s4connect cbCall sip a).1.held := by
  have hcleared := (accepted_cleared s).1
  have hsocket : (SockCall.socket a.fd).next none = some (descriptor a.fd) := rfl
  by_cases hfd : a.fd < 0
  · rw [s4connect_of_neg cbCall s sip hfd]
    exact hcleared.append (Accepted.single hsocket)
  · rw [s4connect_of_nonneg cbCall s sip (Int.not_lt.mp hfd)]
    have hmode : 0 < a.fd → (s.unblocked sip a).nonblock = true := fun hpos =>
      (s.aimed sip a).nonblock_setBlocking (decide_eq_true hpos) false
    have hconnect : (SockCall.connect a.fd (s.unblocked sip a).nonblock).next
        (descriptor a.fd) = some (descriptor a.fd) := if_pos ⟨rfl, hmode⟩
    have htail := accepted_attempt cbCall (s.unblocked sip a) sip a
    exact hcleared.append (Accepted.cons hsocket (Accepted.cons hconnect htail))

/-! ### The call of `Model.Connect` -/

theorem sock_cleared (s : CliConn) :
    s.cleared.1.sock = if s.sock.thesock ≠ -1 then s.sock.destroy else s.sock := by
  unfold cleared
  split
  · exact sock_destroy s
  · rfl

theorem sock_attempt (cbCall : Nat → Bool) (s : CliConn) (sip : Text) (a : Attempt) :
    ((s.attempt cbCall sip a).1.sock, (s.attempt cbCall sip a).2.1) =
      match a.connect with
      | .done => (s.sock.join sip, a.fd)
      | .error e =>
          if e = einprogress then
            match connectLoop cbCall (-1) a.polls with
            | .writable accepted =>
                (if accepted then s.sock.join sip else s.sock, a.fd)
            | .refused err => if err = -1 then (s.sock.destroy, 0) else (s.sock, a.fd)
          else (s.sock.destroy, 0) := by
  unfold attempt
  cases a.connect with
  | done => rfl
  | error e =>
      by_cases he : e = einprogress
      · simp only [if_pos he]
        cases connectLoop cbCall (-1) a.polls with
        | writable accepted => rfl
        | refused err =>
            by_cases herr : err = -1
            · simp only [if_pos herr, sock_destroy]
            · simp only [if_neg herr]
      · simp only [if_neg he, sock_destroy]

/-- The descriptor and the value returned are those of `Model.Connect`. -/
theorem sock_s4connect (cbCall : Nat → Bool) (s : CliConn) (sip : Text) (a : Attempt) :
    ((s.s4connect cbCall sip a).1.sock, (s.s4connect cbCall sip a).2.1) =
      RoomSpeaker.s4connect cbCall false s.sock sip a := by
  by_cases hfd : a.fd < 0
  · rw [s4connect_of_neg cbCall s sip hfd, RoomSpeaker.s4connect, if_pos hfd, opened,
      sock_cleared]
  · rw [s4connect_of_nonneg cbCall s sip (Int.not_lt.mp hfd), RoomSpeaker.s4connect,
      if_neg hfd, sock_setBlocking, sock_attempt]
    have hsock : (s.unblocked sip a).sock =
        CliSock.aim { (if s.sock.thesock ≠ -1 then s.sock.destroy else s.sock) with
          thesock := a.fd, peer := none } sip := by
      rw [← sock_cleared]
      rfl
    rw [hsock]
    rfl

end CliConn

/-! ## One step of the program -/

namespace CliMain

/-- The steps of the two threads that a step is. -/
def threads (s : CliMain) : CliMainOp → List SpkOp
  | .tmain i =>
      match s.pc with
      | .use => if s.conn.isopen then [.net ⟨true, i.ready, i.stream⟩] else []
      | .getData => [.net ⟨false, i.ready, i.stream⟩]
      | _ => []
  | .play => [.play]
  | .quit => []

/-- Outside `_get_data` nothing is received, and behind the pass over the addresses
nothing is open until the next; in it the socket is open and blocks. -/
structure Inv (s : CliMain) : Prop where
  idle : s.conn.Idle
  closed : s.pc ≠ .use → s.pc ≠ .getData → s.conn.held = none
  live : s.pc = .getData →
    s.conn.isopen = true ∧ s.conn.nonblock = false ∧ s.spk.net ≠ .lost
  lost : s.pc ≠ .getData → s.spk.net = .lost

/-- What a step keeps, asks of the system, and is for the two threads. -/
structure Moves (s : CliMain) (op : CliMainOp) (t : CliMain) : Prop where
  inv : t.Inv
  accepted : Accepted s.conn.held (s.calls op) t.conn.held
  spk : t.spk = run Speaker.step s.spk (s.threads op)

theorem whileOpen_of_open {s : CliMain} (h : s.conn.isopen = true) :
    s.whileOpen = s :=
  if_neg fun hclosed => by simp [h] at hclosed

variable {s : CliMain}

/-- An idle socket that is closed is not taken for connected. -/
theorem isReallyConnected_closed (h : s.Inv) (hclosed : s.conn.held = none)
    (peer : Bool) : s.conn.isReallyConnected peer = (s.conn, false) := by
  have hopen : s.conn.isopen = false := by
    by_contra hopen
    rw [CliConn.held_eq_some (Bool.not_eq_false _ ▸ hopen)] at hclosed
    cases hclosed
  rw [CliConn.isReallyConnected, hopen, h.idle.connected]
  rfl

theorem tmainStep_head (h : s.Inv) (hpc : s.pc = .head) (halive : s.alive = true)
    (i : TmainIn) : s.tmainStep i = ({ s with pc := .trying s.ips }, []) := by
  have hclosed := h.closed (by simp [hpc]) (by simp [hpc])
  rw [tmainStep, hpc]
  simp only [if_pos halive, isReallyConnected_closed h hclosed, h.idle.connecting]
  rfl

/-- A step outside `_get_data`, of which the queue sees nothing. -/
theorem moves_outside {t : CliMain} {asked : List SockCall} {i : TmainIn} (h : s.Inv)
    (hstep : s.tmainStep i = (t, asked)) (hspk : t.spk = s.spk)
    (hthreads : s.threads (.tmain i) = []) (hfrom : s.pc ≠ .getData)
    (hto : t.pc ≠ .getData) (hidle : t.conn.Idle)
    (haccepted : Accepted s.conn.held asked t.conn.held)
    (hclosed : t.pc ≠ .use → t.conn.held = none) :
    s.Moves (.tmain i) (s.tmainStep i).1 where
  inv := by
    rw [hstep]
    exact ⟨hidle, fun huse _ => hclosed huse, fun hdata => absurd hdata hto,
      fun _ => hspk ▸ h.lost hfrom⟩
  accepted := by
    rw [calls, hstep]
    exact haccepted
  spk := by
    rw [hthreads, hstep]
    exact hspk

theorem moves_head (h : s.Inv) (hpc : s.pc = .head) (i : TmainIn) :
    s.Moves (.tmain i) (s.tmainStep i).1 := by
  have hclosed := h.closed (by simp [hpc]) (by simp [hpc])
  have hthreads : s.threads (.tmain i) = [] := by rw [threads, hpc]
  cases halive : s.alive with
  | true =>
      exact moves_outside h (tmainStep_head h hpc halive i) rfl hthreads (by simp [hpc])
        (by simp) h.idle (Accepted.nil _) fun _ => hclosed
  | false =>
      have hstep : s.tmainStep i = ({ s with pc := .ended }, []) := by
        rw [tmainStep, hpc]
        simp [halive]
      exact moves_outside h hstep rfl hthreads (by simp [hpc]) (by simp) h.idle
        (Accepted.nil _) fun _ => hclosed

theorem moves_trying (h : s.Inv) {ips : List Text} (hpc : s.pc = .trying ips)
    (i : TmainIn) : s.Moves (.tmain i) (s.tmainStep i).1 := by
  have hclosed := h.closed (by simp [hpc]) (by simp [hpc])
  have hthreads : s.threads (.tmain i) = [] := by rw [threads, hpc]
  cases ips with
  | nil =>
      have hstep : s.tmainStep i = ({ s with pc := .use }, []) := by
        rw [tmainStep, hpc]
      exact moves_outside h hstep rfl hthreads (by simp [hpc]) (by simp) h.idle
        (Accepted.nil _) fun _ => hclosed
  | cons ip ips =>
      have hidle := h.idle.s4connect defCBCall ip i.attempt
      have hcall := s.conn.accepted_s4connect defCBCall ip i.attempt
      by_cases hret : 0 < (s.conn.s4connect defCBCall ip i.attempt).2.1
      · have hstep : s.tmainStep i =
            ({ s with conn := (s.conn.s4connect defCBCall ip i.attempt).1, pc := .use },
              (s.conn.s4connect defCBCall ip i.attempt).2.2) := by
          rw [tmainStep, hpc]
          simp only [if_pos hret]
        exact moves_outside h hstep rfl hthreads (by simp [hpc]) (by simp) hidle hcall
          fun huse => absurd rfl huse
      · have hstep : s.tmainStep i =
            ({ s with
                conn := (s.conn.s4connect defCBCall ip i.attempt).1.destroy.1
                pc := .trying ips },
              (s.conn.s4connect defCBCall ip i.attempt).2.2 ++
                (s.conn.s4connect defCBCall ip i.attempt).1.destroy.2) := by
          rw [tmainStep, hpc]
          simp only [if_neg hret]
        exact moves_outside h hstep rfl hthreads (by simp [hpc]) (by simp)
          hidle.destroy (hcall.append (CliConn.accepted_destroy _))
          fun _ => CliConn.held_destroy _

theorem moves_use (h : s.Inv) (hpc : s.pc = .use) (i : TmainIn) :
    s.Moves (.tmain i) (s.tmainStep i).1 := by
  have hlost := h.lost (by simp [hpc])
  cases hopen : s.conn.isopen with
  | true =>
      have hstep : s.tmainStep i =
          ({ s with
              spk := { s.spk with net := .loop }
              conn := s.conn.setBlocking true
              pc := .getData }, [.setBuffers s.conn.sock.thesock]) := by
        rw [tmainStep, hpc]
        simp only [CliConn.setMtu, if_pos hopen]
        rw [whileOpen_of_open (s.conn.isopen_setBlocking true ▸ hopen)]
      constructor
      · rw [hstep]
        exact ⟨h.idle.setBlocking true, fun _ hdata => absurd rfl hdata,
          fun _ => ⟨hopen, s.conn.nonblock_setBlocking hopen true, by simp⟩,
          fun hdata => absurd rfl hdata⟩
      · rw [calls, hstep]
        exact Accepted.single (if_pos (CliConn.held_eq_some hopen))
      · rw [hstep, threads, hpc]
        simp only [if_pos hopen]
        rw [run_cons, run_nil, Speaker.step, Speaker.netStep, hlost]
        rfl
  | false =>
      have hstep : s.tmainStep i =
          ({ s with
              spk := { s.spk with net := .lost }
              conn := s.conn.setBlocking true
              pc := .tail }, []) := by
        rw [tmainStep, hpc]
        simp [CliConn.setMtu, whileOpen, hopen]
      have hthreads : s.threads (.tmain i) = [] := by
        rw [threads, hpc]
        simp [hopen]
      exact moves_outside h hstep (by rw [← hlost]) hthreads (by simp [hpc]) (by simp)
        (h.idle.setBlocking true) (Accepted.nil _) fun _ => CliConn.held_eq_none hopen

theorem moves_tail (h : s.Inv) (hpc : s.pc = .tail) (i : TmainIn) :
    s.Moves (.tmain i) (s.tmainStep i).1 := by
  have hstep : s.tmainStep i =
      ({ s with conn := s.conn.destroy.1, pc := .head }, s.conn.destroy.2) := by
    rw [tmainStep, hpc]
  have hthreads : s.threads (.tmain i) = [] := by rw [threads, hpc]
  exact moves_outside h hstep rfl hthreads (by simp [hpc]) (by simp) h.idle.destroy
    (CliConn.accepted_destroy _) fun _ => CliConn.held_destroy _

theorem moves_ended (h : s.Inv) (hpc : s.pc = .ended) (i : TmainIn) :
    s.Moves (.tmain i) (s.tmainStep i).1 := by
  have hstep : s.tmainStep i = (s, []) := by rw [tmainStep, hpc]
  have hthreads : s.threads (.tmain i) = [] := by rw [threads, hpc]
  exact moves_outside h hstep rfl hthreads (by simp [hpc]) (by simp [hpc]) h.idle
    (Accepted.nil _) fun _ => h.closed (by simp [hpc]) (by simp [hpc])

/-- In `_get_data` frames are received and reports sent on a socket that blocks. -/
theorem accepted_dataCalls (h : s.Inv) (hpc : s.pc = .getData) :
    Accepted s.conn.held s.dataCalls s.conn.held := by
  obtain ⟨hopen, hmode, _⟩ := h.live hpc
  have hheld := CliConn.held_eq_some hopen
  unfold dataCalls
  split
  · exact Accepted.single (if_pos ⟨hheld, hmode⟩)
  · split
    · exact Accepted.single (if_pos ⟨hheld, hmode⟩)
    · exact Accepted.nil _
  · exact Accepted.nil _

theorem moves_getData (h : s.Inv) (hpc : s.pc = .getData) (i : TmainIn) :
    s.Moves (.tmain i) (s.tmainStep i).1 := by
  obtain ⟨hopen, hmode, _⟩ := h.live hpc
  have hstep : s.tmainStep i = s.dataStep i := by rw [tmainStep, hpc]
  have hthreads : s.threads (.tmain i) = [.net ⟨false, i.ready, i.stream⟩] := by
    rw [threads, hpc]
  have hcalls := accepted_dataCalls h hpc
  by_cases hnet : (s.spk.netStep ⟨false, i.ready, i.stream⟩).net = .lost
  · have hdata : s.dataStep i =
        ({ s with
            spk := s.spk.netStep ⟨false, i.ready, i.stream⟩
            conn := s.conn.destroy.1
            pc := .tail }, s.dataCalls ++ s.conn.destroy.2) := by
      rw [dataStep]
      simp only [if_pos hnet]
    constructor
    · rw [hstep, hdata]
      exact ⟨h.idle.destroy, fun _ _ => CliConn.held_destroy _,
        fun hget => (nomatch hget), fun _ => hnet⟩
    · rw [calls, hstep, hdata]
      exact hcalls.append (CliConn.accepted_destroy _)
    · rw [hstep, hdata, hthreads]
      rfl
  · let t : CliMain := { s with spk := s.spk.netStep ⟨false, i.ready, i.stream⟩ }
    have hwhile : t.whileOpen = t := whileOpen_of_open hopen
    have hdata : s.dataStep i = (t, s.dataCalls) := by
      rw [dataStep]
      simp only [if_neg hnet]
      exact congrArg (·, s.dataCalls) hwhile
    constructor
    · rw [hstep, hdata]
      exact ⟨h.idle, fun _ hget => absurd hpc hget, fun _ => ⟨hopen, hmode, hnet⟩,
        fun hget => absurd hpc hget⟩
    · rw [calls, hstep, hdata]
      exact hcalls
    · rw [hstep, hdata, hthreads]
      rfl

/-- Every step keeps the invariant, asks only for what is allowed, and is at most
one step of the two threads. -/
theorem moves_step (h : s.Inv) (op : CliMainOp) : s.Moves op (s.step op) := by
  cases op with
  | play =>
      have hnet : s.spk.playStep.net = s.spk.net := net_playStep s.spk
      exact ⟨⟨h.idle, h.closed, fun hget => hnet ▸ h.live hget, fun hget =>
        hnet ▸ h.lost hget⟩, Accepted.nil _, rfl⟩
  | quit => exact ⟨⟨h.idle, h.closed, h.live, h.lost⟩, Accepted.nil _, rfl⟩
  | tmain i =>
      cases hpc : s.pc with
      | head => exact moves_head h hpc i
      | trying ips => exact moves_trying h hpc i
      | use => exact moves_use h hpc i
      | getData => exact moves_getData h hpc i
      | tail => exact moves_tail h hpc i
      | ended => exact moves_ended h hpc i

theorem inv_init (ips : List Text) (n sz : Nat) (tick : BitVec 64) (time : Int) :
    (init ips n sz tick time).Inv where
  idle := ⟨rfl, rfl⟩
  closed := fun _ _ => rfl
  live := fun hget => nomatch hget
  lost := fun _ => rfl

/-- With nothing open, the network thread waits for a connection. -/
theorem Inv.waits (h : s.Inv) (hclosed : s.conn.held = none) : s.spk.net = .lost := by
  apply h.lost
  intro hpc
  rw [CliConn.held_eq_some (h.live hpc).1] at hclosed
  cases hclosed

/-! ## The pass over the addresses -/

/-- The answers of a pass, as steps of the program. -/
def passOps (i : TmainIn) (es : List (Text × Attempt)) : List CliMainOp :=
  es.map fun e => .tmain { i with attempt := e.2 }

/-- A pass of `_tmain` is that of `Model.Connect`: as many steps as it has calls lead
behind the loop, or to its end, with the same socket. -/
theorem run_pass (i : TmainIn) (es : List (Text × Attempt)) :
    ∀ s : CliMain, s.pc = .trying (es.map Prod.fst) →
      (run step s ((passOps i es).take (connectPass s.conn.sock es).2.length)).conn.sock =
        (connectPass s.conn.sock es).1 ∧
      ((run step s ((passOps i es).take (connectPass s.conn.sock es).2.length)).pc =
          .use ∨
        (run step s ((passOps i es).take (connectPass s.conn.sock es).2.length)).pc =
          .trying []) := by
  induction es with
  | nil => intro s hpc; exact ⟨rfl, Or.inr hpc⟩
  | cons e es ih =>
      intro s hpc
      have hsim := s.conn.sock_s4connect defCBCall e.1 e.2
      have hsock := congrArg Prod.fst hsim
      have hret := congrArg Prod.snd hsim
      simp only at hsock hret
      by_cases hpos : 0 < (RoomSpeaker.s4connect defCBCall false s.conn.sock e.1 e.2).2
      · have hstep : s.step (.tmain { i with attempt := e.2 }) =
            { s with conn := (s.conn.s4connect defCBCall e.1 e.2).1, pc := .use } := by
          rw [step, tmainStep, hpc, List.map_cons]
          simp only [hret, if_pos hpos]
        rw [connectPass, if_pos hpos, passOps, List.map_cons, List.length_singleton,
          List.take_succ_cons, List.take_zero, run_cons, run_nil, hstep]
        exact ⟨hsock, Or.inl rfl⟩
      · have hstep : s.step (.tmain { i with attempt := e.2 }) =
            { s with
              conn := (s.conn.s4connect defCBCall e.1 e.2).1.destroy.1
              pc := .trying (es.map Prod.fst) } := by
          rw [step, tmainStep, hpc, List.map_cons]
          simp only [hret, if_neg hpos]
        have hrest := ih (s.step (.tmain { i with attempt := e.2 })) (by rw [hstep])
        have hafter : (s.step (.tmain { i with attempt := e.2 })).conn.sock =
            (RoomSpeaker.s4connect defCBCall false s.conn.sock e.1 e.2).1.destroy := by
          rw [hstep, ← hsock]
          exact CliConn.sock_destroy _
        rw [hafter] at hrest
        rw [connectPass, if_neg hpos, passOps, List.map_cons, List.length_cons,
          List.take_succ_cons, run_cons]
        exact hrest

/-! ## Runs -/

/-- Nothing is open, and unless the program ends the addresses are tried. -/
structure Seeks (s : CliMain) : Prop where
  closed : s.conn.held = none
  tries : s.alive = true → ∀ i, (s.tmainStep i).1.pc = .trying s.ips

theorem seeks_of_inv (h : s.Inv) (hpc : s.pc = .head) : s.Seeks where
  closed := h.closed (by simp [hpc]) (by simp [hpc])
  tries := by
    intro halive i
    rw [tmainStep_head h hpc halive]

end CliMain

/-- What the two threads keep, the program keeps. -/
theorem keeps_of_threads {I : Speaker → Prop}
    (hkeep : ∀ s op, I s → I (s.step op)) {s : CliMain} (h : s.Inv) (hs : I s.spk)
    (op : CliMainOp) : I (s.step op).spk := by
  rw [(CliMain.moves_step h op).spk]
  exact (throughout_of_inv hkeep (fun _ h => h) _ _ hs).last

/--
**The program is its two threads.**

For the queue and the client object every run of the program is a run of the two
threads, whatever becomes of the connections.  So no chunk is locked but by the
thread that holds it, and while nothing is open, however the last connection ended,
none but the player's.
-/
theorem reconnects_as_threads (ips : List Text) (n sz : Nat) (tick : BitVec 64)
    (time : Int) (hn : 0 < n) (ops : List CliMainOp) :
    (run CliMain.step (CliMain.init ips n sz tick time) ops).spk =
      run Speaker.step (Speaker.init n sz tick time)
        (trace CliMain.step CliMain.threads (CliMain.init ips n sz tick time) ops) ∧
    Throughout CliMain.step
      (fun s => s.spk.OneHolder ∧ (s.conn.held = none →
        ∀ j, (s.spk.rq.at' j).locked = true → slotOf s.spk.play.holds = some j))
      (CliMain.init ips n sz tick time) ops := by
  have hinit := CliMain.inv_init ips n sz tick time
  constructor
  · exact run_view (v := CliMain.spk) (fun s op h => (CliMain.moves_step h op).inv)
      (fun s op h => (CliMain.moves_step h op).spk) ops _ hinit
  · refine throughout_of_inv (I := fun s => s.Inv ∧ s.spk.rq.CursorInv ∧
      Guarded s.spk.hold s.spk.rq.lock) ?_ ?_ ops _
      ⟨hinit, (heldInv_init n sz tick time hn).held.cursors,
        guarded_init n sz tick time⟩
    · intro s op h
      refine ⟨(CliMain.moves_step h.1 op).inv,
        keeps_of_threads (I := fun t => t.rq.CursorInv ∧ Guarded t.hold t.rq.lock)
          ?_ h.1 h.2 op⟩
      intro t top ht
      exact ⟨cursorInv_clientStep ht.1 (.thread top),
        (locking_clientStep ht.1 (.thread top)).guarded ht.2⟩
    · intro s h
      refine ⟨oneHolder_of_guarded h.2.2, fun hclosed j hj => ?_⟩
      have hlost := h.1.waits hclosed
      obtain ⟨t, ht⟩ := (h.2.2.locked j).mp hj
      cases t with
      | net =>
          rw [Speaker.hold, hlost] at ht
          cases ht
      | player => exact ht

/-- The only server is connected and the first receive fails. -/
def lostOnce : List CliMainOp :=
  List.replicate 7 (.tmain ⟨false, ⟨3, .done, []⟩, true, ⟨[.error], 0, 0, []⟩⟩)

theorem reconnects_after_loss :
    (run CliMain.step (CliMain.init [cstr (dotted 10 0 0 1)] 1 4 0 0) lostOnce).pc =
      .head ∧
    (run CliMain.step (CliMain.init [cstr (dotted 10 0 0 1)] 1 4 0 0) lostOnce).spk =
      run Speaker.step (Speaker.init 1 4 0 0)
        (trace CliMain.step CliMain.threads
          (CliMain.init [cstr (dotted 10 0 0 1)] 1 4 0 0) lostOnce) ∧
    Throughout CliMain.step
      (fun s => s.spk.OneHolder ∧ (s.conn.held = none →
        ∀ j, (s.spk.rq.at' j).locked = true → slotOf s.spk.play.holds = some j))
      (CliMain.init [cstr (dotted 10 0 0 1)] 1 4 0 0) lostOnce :=
  ⟨by decide +kernel, reconnects_as_threads _ 1 4 0 0 (by decide) lostOnce⟩

end RoomSpeaker
