import RoomSpeaker.Foundation.Run
import RoomSpeaker.Model.Connection
import RoomSpeaker.Model.System
import RoomSpeaker.Verified.SockSpec

/-!
# How the bytes are cut does not matter

TCP hands over a byte stream in pieces of any size, and neither program sees
where one piece ends and the next begins.  What it does see is where a receive
fails: there the loop of `receiveall` stops.

So a socket is read as a stream with gaps, in which every byte is an item and
every failure a gap.  Two sockets with the same stream cannot be told apart, now
or later.

## Main results

* `receiveall_events` — `receiveall` reads the stream up to the first gap.
* `recut_run` — a client on two sockets with the same streams goes through the
  same states.
* `coalesced_run` — a run of the whole system is the run in which all that
  arrives, arrives in one piece.
-/

namespace RoomSpeaker

open Foundation

/-! ## Streams with gaps -/

section

variable {α : Type*}

/-- Reads `n` items, or those before the first gap, which is skipped. -/
def readUpTo : Nat → List (Option α) → List α × List (Option α)
  | 0, es => ([], es)
  | _ + 1, [] => ([], [])
  | _ + 1, none :: es => ([], es)
  | n + 1, some a :: es =>
      let r := readUpTo n es
      (a :: r.1, r.2)

/-- Items that come first are read first. -/
theorem readUpTo_append (as : List α) (es : List (Option α)) :
    ∀ n, as.length ≤ n →
      readUpTo n (as.map some ++ es) =
        (as ++ (readUpTo (n - as.length) es).1,
          (readUpTo (n - as.length) es).2) := by
  induction as with
  | nil => intro n _; rfl
  | cons a as ih =>
      intro n hn
      cases n with
      | zero => simp at hn
      | succ n =>
          have hrest := ih n (Nat.le_of_succ_le_succ hn)
          rw [List.map_cons, List.cons_append, readUpTo, hrest, List.length_cons,
            Nat.add_sub_add_right]
          rfl

end

/-! ## A socket as a stream -/

/-- What one result of `::recv` brings: its bytes, or a gap. -/
def RecvOut.events : RecvOut → List (Option Byte)
  | .data (b :: bs) => (b :: bs).map some
  | _ => [none]

/-- The stream of a socket. -/
def events (sock : List RecvOut) : List (Option Byte) :=
  sock.flatMap RecvOut.events

@[simp] theorem events_cons (o : RecvOut) (sock : List RecvOut) :
    events (o :: sock) = o.events ++ events sock := rfl

theorem events_data {bs : List Byte} (h : bs ≠ []) :
    (RecvOut.data bs).events = bs.map some := by
  cases bs with
  | nil => exact absurd rfl h
  | cons b bs => rfl

/-- One `receive` with room for at least a byte reads into a gap, or takes bytes
off the stream. -/
theorem receive_events {n : Nat} (hn : 0 < n) (sock : List RecvOut) :
    ((receive n sock).1 ≤ 0 ∧
      readUpTo n (events sock) = ([], events (receive n sock).2.2)) ∨
    (0 < (receive n sock).1 ∧ (receive n sock).2.1.length ≤ n ∧
      0 < (receive n sock).2.1.length ∧
      events sock =
        (receive n sock).2.1.map some ++ events (receive n sock).2.2) := by
  obtain ⟨n, rfl⟩ := Nat.exists_eq_succ_of_ne_zero (Nat.ne_of_gt hn)
  cases sock with
  | nil => exact Or.inl ⟨Int.le_refl 0, rfl⟩
  | cons o rest =>
      cases o with
      | again => exact Or.inl ⟨by simp [receive], rfl⟩
      | error => exact Or.inl ⟨Int.le_refl 0, rfl⟩
      | data bs =>
          by_cases hbs : bs = []
          · subst hbs
            exact Or.inl ⟨by simp [receive], rfl⟩
          · have hpos : 0 < bs.length := List.length_pos_of_ne_nil hbs
            apply Or.inr
            rw [events_cons, events_data hbs]
            by_cases hfit : bs.length ≤ n + 1
            · simp only [receive, if_pos hfit]
              exact ⟨by omega, hfit, hpos, trivial⟩
            · simp only [receive, if_neg hfit]
              have hdrop : bs.drop (n + 1) ≠ [] := by
                rw [ne_eq, List.drop_eq_nil_iff]
                exact hfit
              refine ⟨by omega, by rw [List.length_take]; omega,
                by rw [List.length_take]; omega, ?_⟩
              rw [events_cons, events_data hdrop, ← List.append_assoc,
                ← List.map_append, List.take_append_drop]

/-- The loop from the middle. -/
private theorem receiveallLoop_events (turns : Nat) :
    ∀ (n : Nat) (got : List Byte) (sock : List RecvOut), n ≤ turns →
      (receiveallLoop turns n got sock).1 = got ++ (readUpTo n (events sock)).1 ∧
      events (receiveallLoop turns n got sock).2 =
        (readUpTo n (events sock)).2 := by
  induction turns with
  | zero =>
      intro n got sock hn
      obtain rfl := Nat.le_zero.mp hn
      simp [receiveallLoop, readUpTo]
  | succ turns ih =>
      intro n got sock hn
      by_cases hzero : n = 0
      · subst hzero
        simp [receiveallLoop, readUpTo]
      · rw [receiveallLoop, if_neg hzero]
        rcases receive_events (Nat.pos_of_ne_zero hzero) sock with
          ⟨hshot, hgap⟩ | ⟨hshot, hfit, hpos, hbytes⟩
        · simp only [if_pos hshot, hgap, List.append_nil, and_self]
        · obtain ⟨hgot, hrest⟩ := ih (n - (receive n sock).2.1.length)
            (got ++ (receive n sock).2.1) (receive n sock).2.2 (by omega)
          simp only [if_neg (Int.not_le.mpr hshot)]
          rw [hgot, hrest, hbytes, readUpTo_append _ _ n hfit, List.append_assoc]
          exact ⟨rfl, rfl⟩

/-- `receiveall` stores the bytes up to the first gap, and leaves the stream
behind it. -/
theorem receiveall_events (n : Nat) (sock : List RecvOut) :
    (receiveall n sock).1 = (readUpTo n (events sock)).1 ∧
      events (receiveall n sock).2 = (readUpTo n (events sock)).2 :=
  receiveallLoop_events n n [] sock (Nat.le_refl n)

/-- `receiveall` cannot tell sockets with the same stream apart, and leaves
sockets with the same stream. -/
theorem receiveall_recut (n : Nat) {sock sock' : List RecvOut}
    (h : events sock = events sock') :
    (receiveall n sock).1 = (receiveall n sock').1 ∧
      events (receiveall n sock).2 = events (receiveall n sock').2 := by
  obtain ⟨hgot, hrest⟩ := receiveall_events n sock
  obtain ⟨hgot', hrest'⟩ := receiveall_events n sock'
  rw [h] at hgot hrest
  exact ⟨hgot.trans hgot'.symm, hrest.trans hrest'.symm⟩

/-! ## The client -/

/-- What the two receives leave, without the socket. -/
def Received.seen (r : Received) : Chunk × Nat × Bool :=
  (r.chunk, r.bufLen, r.whole)

theorem Received.ok_of_seen {r r' : Received} (h : r.seen = r'.seen) :
    r.ok = r'.ok := by
  simp only [Received.seen, Prod.mk.injEq] at h
  rw [Received.ok, Received.ok, h.1, h.2.1, h.2.2]

theorem Received.short_of_seen {r r' : Received} (h : r.seen = r'.seen) :
    r.short = r'.short := by
  simp only [Received.seen, Prod.mk.injEq] at h
  rw [Received.short, Received.short, h.1, h.2.1, h.2.2]

/-- Receives that bring the same bytes show the same. -/
theorem recvFrame_seen (pk : Chunk) {sock sock' : List RecvOut}
    (hhdr : (receiveall sizeofBufHdr sock).1 = (receiveall sizeofBufHdr sock').1)
    (hpay : (receiveall sizeofBufHdr sock').1.length = sizeofBufHdr → ∀ n,
      (receiveall n (receiveall sizeofBufHdr sock).2).1 =
        (receiveall n (receiveall sizeofBufHdr sock').2).1) :
    (recvFrame pk sock).seen = (recvFrame pk sock').seen := by
  unfold recvFrame
  generalize receiveall sizeofBufHdr sock = h at hhdr hpay ⊢
  generalize receiveall sizeofBufHdr sock' = h' at hhdr hpay ⊢
  obtain ⟨bs, rest⟩ := h
  obtain ⟨bs', rest'⟩ := h'
  obtain rfl : bs = bs' := hhdr
  by_cases hfull : bs.length = sizeofBufHdr
  · simp only [hfull, ne_eq, not_true_eq_false, if_false, hpay hfull]
    split <;> rfl
  · simp only [ne_eq, hfull, not_false_eq_true, if_true]
    rfl

theorem recvFrame_recut (pk : Chunk) {sock sock' : List RecvOut}
    (h : events sock = events sock') :
    (recvFrame pk sock).seen = (recvFrame pk sock').seen ∧
      events (recvFrame pk sock).sock = events (recvFrame pk sock').sock := by
  obtain ⟨hhdr, hrest⟩ := receiveall_recut sizeofBufHdr h
  refine ⟨recvFrame_seen pk hhdr fun _ n => (receiveall_recut n hrest).1, ?_⟩
  unfold recvFrame
  generalize receiveall sizeofBufHdr sock = h at hhdr hrest ⊢
  generalize receiveall sizeofBufHdr sock' = h' at hhdr hrest ⊢
  obtain ⟨bs, rest⟩ := h
  obtain ⟨bs', rest'⟩ := h'
  obtain rfl : bs = bs' := hhdr
  dsimp only
  split
  · exact hrest
  · split
    · exact (receiveall_recut _ hrest).2
    · exact hrest

/-- A step of the network thread needs of the socket only what the two receives
see of it. -/
theorem netStep_of_seen (s : Speaker) (up ready : Bool) (time : Int)
    (tick : BitVec 64) (sends : List SendOut) {sock sock' : List RecvOut}
    (h : ∀ pk : Chunk, (recvFrame pk sock).seen = (recvFrame pk sock').seen) :
    s.netStep ⟨up, ready, ⟨sock, time, tick, sends⟩⟩ =
      s.netStep ⟨up, ready, ⟨sock', time, tick, sends⟩⟩ := by
  unfold Speaker.netStep
  cases s.net with
  | got pk =>
      have hseen := h (s.rq.deref pk)
      have hok := Received.ok_of_seen hseen
      simp only [Received.seen, Prod.mk.injEq] at hseen
      simp only [hok, hseen.1, hseen.2.1, hseen.2.2]
  | _ => rfl

namespace Line

/-- Two clients in the same state, on sockets with the same stream. -/
structure Recut (s t : Line) : Prop where
  spk : s.spk = t.spk
  sock : events s.sock = events t.sock

end Line

/-- The inputs differ in how a new connection cuts its bytes, at most. -/
inductive LineOp.Recut : LineOp → LineOp → Prop
  | net (ready : Bool) (time : Int) (tick : BitVec 64) (sends : List SendOut)
      {up up' : Option (List RecvOut)} (h : up.map events = up'.map events) :
      Recut (.net ⟨up, ready, time, tick, sends⟩)
        (.net ⟨up', ready, time, tick, sends⟩)
  | play : Recut .play .play

theorem recut_step (s t : Line) (i j : LineOp) (h : s.Recut t) (hij : i.Recut j) :
    (s.step i).Recut (t.step j) := by
  obtain ⟨spk, sock⟩ := s
  obtain ⟨spk', sock'⟩ := t
  obtain ⟨hspk, hsock⟩ := h
  obtain rfl : spk = spk' := hspk
  cases hij with
  | play => exact ⟨rfl, hsock⟩
  | @net ready time tick sends up up' hup =>
      have hsome : up.isSome = up'.isSome := by
        have hmap := congrArg Option.isSome hup
        rwa [Option.isSome_map, Option.isSome_map] at hmap
      have hstep : spk.netStep ⟨up.isSome, ready, ⟨sock, time, tick, sends⟩⟩ =
          spk.netStep ⟨up'.isSome, ready, ⟨sock', time, tick, sends⟩⟩ := by
        rw [hsome]
        exact netStep_of_seen spk _ ready time tick sends fun pk =>
          (recvFrame_recut pk hsock).1
      simp only [Line.step, Line.net]
      cases spk.net with
      | lost =>
          refine ⟨hstep, ?_⟩
          cases up with
          | none =>
              cases up' with
              | none => exact hsock
              | some _ => cases hup
          | some _ =>
              cases up' with
              | none => cases hup
              | some _ => exact Option.some.inj hup
      | got pk => exact ⟨hstep, (recvFrame_recut _ hsock).2⟩
      | _ => exact ⟨hstep, hsock⟩

/--
**The cut of the stream is not seen.**

Two runs of the client program, on connections that bring the same bytes and
fail at the same places in the stream, go through the same states, whatever the
bytes are and however `::recv` hands them over.
-/
theorem recut_run {is js : List LineOp} (h : List.Forall₂ LineOp.Recut is js)
    {s t : Line} (hst : s.Recut t) :
    (run Line.step s is).Recut (run Line.step t js) :=
  run_lockstep recut_step h hst

/-- The header's first bytes come in two pieces, then `::recv` is interrupted;
or they come in one piece, and then it fails. -/
theorem recut_two_pieces :
    (run Line.step ⟨Speaker.init 4 tcpSndLen 0 0, []⟩
      [.net ⟨some [.data [1], .data [2, 3], .again], true, 0, 0, []⟩,
        .net ⟨none, true, 0, 0, []⟩, .net ⟨none, true, 0, 0, []⟩, .play]).Recut
    (run Line.step ⟨Speaker.init 4 tcpSndLen 0 0, []⟩
      [.net ⟨some [.data [1, 2, 3], .error], true, 0, 0, []⟩,
        .net ⟨none, true, 0, 0, []⟩, .net ⟨none, true, 0, 0, []⟩, .play]) := by
  have hsame (ready : Bool) (time : Int) (tick : BitVec 64) (sends : List SendOut) :
      (LineOp.net ⟨none, ready, time, tick, sends⟩).Recut
        (.net ⟨none, ready, time, tick, sends⟩) := .net _ _ _ _ rfl
  exact recut_run
    (.cons (.net _ _ _ _ rfl) (.cons (hsame _ _ _ _) (.cons (hsame _ _ _ _)
      (.cons .play .nil)))) ⟨rfl, rfl⟩

/-- A connection that carries frames is one that carries bytes. -/
def Conn.line (s : Conn) : Line := ⟨s.spk, s.sock⟩

def ConnOp.line : ConnOp → LineOp
  | .net i => .net ⟨i.up.map FrameStream.sock, i.ready, i.time, i.tick, i.sends⟩
  | .play => .play

theorem line_step (s : Conn) (op : ConnOp) : (s.step op).line = s.line.step op.line := by
  cases op with
  | play => rfl
  | net i =>
      obtain ⟨up, ready, time, tick, sends⟩ := i
      simp only [Conn.step, Conn.net, ConnOp.line, Line.step, Line.net, Conn.line,
        Conn.input, Option.isSome_map]
      cases s.spk.net with
      | lost => cases up <;> rfl
      | _ => rfl

/-- So what holds of clients on any stream holds of those that are sent
frames. -/
theorem line_run (s : Conn) (ops : List ConnOp) :
    (run Conn.step s ops).line = run Line.step s.line (ops.map ConnOp.line) := by
  induction ops generalizing s with
  | nil => rfl
  | cons op ops ih => rw [List.map_cons, run_cons, run_cons, ih, line_step]

/-! ## The whole system -/

/-- How many bytes the cuts let through: a cut of 0 looks like the end of the
stream. -/
def reach : List Nat → Nat
  | [] => 0
  | 0 :: _ => 0
  | (c + 1) :: cuts => c + 1 + reach cuts

/-- The step with all bytes that arrive in one piece. -/
def SysOp.coalesce : SysOp → SysOp
  | .serve i cuts => .serve i fun ip => [reach (cuts ip)]
  | .net ip i cuts => .net ip i [reach cuts]
  | op => op

theorem delivered_segments_eq (cuts : List Nat) :
    ∀ bs, delivered (segments cuts bs) = bs.take (reach cuts) := by
  induction cuts with
  | nil => intro bs; rfl
  | cons c cuts ih =>
      intro bs
      cases c with
      | zero => rfl
      | succ c =>
          have hreach : reach ((c + 1) :: cuts) = c + 1 + reach cuts := rfl
          rw [segments, hreach]
          cases bs with
          | nil => rw [List.take_nil, List.take_nil]; rfl
          | cons b bs =>
              have hne : (b :: bs).take (c + 1) ≠ [] := List.cons_ne_nil b (bs.take c)
              rw [delivered_data hne, ih]
              exact List.take_add.symm

theorem delivered_coalesced (cuts : List Nat) (bs : List Byte) :
    delivered (segments [reach cuts] bs) = delivered (segments cuts bs) := by
  rw [delivered_segments_eq, delivered_segments_eq]
  congr 1
  cases hreach : reach cuts with
  | zero => rfl
  | succ n => rfl

theorem receiveall_of_delivered (n : Nat) {sock sock' : List RecvOut}
    (h : delivered sock = delivered sock') :
    (receiveall n sock).1 = (receiveall n sock').1 := by
  rw [receiveall_bytes, receiveall_bytes, h]

/-- The two receives are over at the first failure, so what they see lies before
it. -/
theorem recvFrame_of_delivered (pk : Chunk) {sock sock' : List RecvOut}
    (h : delivered sock = delivered sock') :
    (recvFrame pk sock).seen = (recvFrame pk sock').seen := by
  apply recvFrame_seen pk (receiveall_of_delivered sizeofBufHdr h)
  intro hfull n
  have hlen : sizeofBufHdr ≤ (delivered sock').length := by
    rw [length_receiveall] at hfull
    omega
  apply receiveall_of_delivered n
  rw [delivered_receiveall _ _ (h ▸ hlen), delivered_receiveall _ _ hlen, h]

theorem net_coalesce (n : Node) (i : NetIn) (cuts : List Nat) :
    n.net i [reach cuts] = n.net i cuts := by
  have hseen := fun pk : Chunk =>
    recvFrame_of_delivered pk (delivered_coalesced cuts n.toCli)
  have hstep := netStep_of_seen n.spk i.up i.ready i.stream.time i.stream.tick
    i.stream.sends hseen
  unfold Node.net
  simp only [hstep]
  cases n.spk.net with
  | got pk =>
      have hpk := hseen (n.spk.rq.deref pk)
      have hshort := Received.short_of_seen hpk
      simp only [Received.seen, Prod.mk.injEq] at hpk
      simp only [hshort, hpk.2.1]
  | done pk ok => cases pk <;> cases ok <;> rfl
  | _ => rfl

theorem readOne_of_delivered {i j : PoolIn} (htick : i.tick = j.tick)
    (h : ∀ ip, delivered (i.recv ip) = delivered (j.recv ip)) (rd : List Ip)
    (p : Pilot) (e : Ip × Clictx) : readOne i rd p e = readOne j rd p e := by
  have hsock : delivered (e.2.sock (i.recv e.1)) =
      delivered (e.2.sock (j.recv e.1)) := by
    unfold Clictx.sock
    split
    · exact h e.1
    · rfl
  simp only [readOne, Clictx.rec', receiveall_of_delivered sizeofBufHdr hsock, htick]

theorem readLoop_of_delivered {i j : PoolIn} (htick : i.tick = j.tick)
    (h : ∀ ip, delivered (i.recv ip) = delivered (j.recv ip)) (rd : List Ip)
    (es : List (Ip × Clictx)) : ∀ p, readLoop i rd p es = readLoop j rd p es := by
  induction es with
  | nil => intro p; rfl
  | cons e es ih =>
      intro p
      simp only [readLoop, readOne_of_delivered htick h, ih]

theorem pool_of_delivered (s : TcpSrv) (i : PoolIn) {recv' : Ip → List RecvOut}
    (h : ∀ ip, delivered (i.recv ip) = delivered (recv' ip)) :
    s.pool i = s.pool { i with recv := recv' } := by
  let j : PoolIn := { i with recv := recv' }
  have hloop : ∀ p es, readLoop i i.readSet p es = readLoop j i.readSet p es := by
    intro p es
    exact readLoop_of_delivered (i := i) (j := j) rfl h i.readSet es p
  have hread : ∀ t : TcpSrv, t.readAll i i.readSet = t.readAll j j.readSet := by
    intro t
    simp only [TcpSrv.readAll, hloop]
    rfl
  unfold TcpSrv.pool
  simp only [hread]
  rfl

theorem serve_coalesce (s : System) (i : PoolIn) (cuts : Ip → List Nat) :
    s.serve i (fun ip => [reach (cuts ip)]) = s.serve i cuts := by
  have hdel := fun ip => delivered_coalesced (cuts ip) (s.node ip).toSrv
  have htaken : ∀ ip, (s.node ip).taken [reach (cuts ip)] =
      (s.node ip).taken (cuts ip) := by
    intro ip
    simp only [Node.taken, receiveall_of_delivered sizeofBufHdr (hdel ip)]
  have hpool := pool_of_delivered s.server.srv
    { i with recv := fun ip => segments [reach (cuts ip)] (s.node ip).toSrv } hdel
  unfold System.serve Server.serve
  simp only [htaken, hpool]

theorem step_coalesce (s : System) (op : SysOp) :
    s.step op.coalesce = s.step op := by
  cases op with
  | serve i cuts => exact serve_coalesce s i cuts
  | net ip i cuts => simp only [SysOp.coalesce, System.step, net_coalesce]
  | _ => rfl

/--
**All that arrives may as well arrive at once.**

A run of the server and its speakers is the run in which every receive finds all
the bytes that reach it in one piece.
-/
theorem coalesced_run (s : System) (ops : List SysOp) :
    run System.step s (ops.map SysOp.coalesce) = run System.step s ops := by
  induction ops generalizing s with
  | nil => rfl
  | cons op ops ih => rw [List.map_cons, run_cons, run_cons, step_coalesce, ih]

end RoomSpeaker
