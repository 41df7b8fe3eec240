import RoomSpeaker.Model.Pacing
import RoomSpeaker.Verified.Broadcast

/-!
# What the silent handshake leaves idle

No frame in flight carries a pilot position, and the server sends no
`RESET_ALL`.  So no client resynchronises, no chunk is ever dropped from a queue,
and the server, which hears of no queue, paces its loop by the clock alone.

## Main results

* `unsteeredInv_step` — the invariant, over every step of the system.
* `queues_are_never_steered` — in every run every queue keeps the optimum it was
  given, its gate is open, and nothing but the player takes chunks out of it; and
  the loop sleeps by the clock.
* `steady_room_plays_every_frame` — a room whose connection is steady plays the
  beginning of what was sent to it, without a gap.
-/

namespace RoomSpeaker

open Foundation

/-! ## One client -/

/-- The header of a frame that is not a `RESET_ALL`. -/
def NoReset (bs : List Byte) : Prop := (BufHdr.decode bs).frmSig ≠ resetAll

/-- The queue's optimum and gate are as they were set up. -/
structure Circle.Unsteered (c : Circle) (optim : Nat) : Prop where
  optim : c.optim = optim
  gate : c.blockGet = false

/-- A client that was never steered, and that nothing under way will steer. -/
structure UnsteeredNode (optim : Nat) (n : Node) : Prop where
  heads : Heads frameSize sizeofBufHdr NoReset n.toCli
  frame : ∀ pk bufLen, n.spk.net = .frame pk bufLen →
    (n.spk.rq.deref pk).hdr.frmSig ≠ resetAll
  queue : n.spk.rq.Unsteered optim

theorem Circle.Unsteered.assign {c : Circle} {optim : Nat}
    (h : c.Unsteered optim) (r : ChunkRef) (k : Chunk) :
    (c.assign r k).Unsteered optim := by
  cases r <;> exact ⟨h.optim, h.gate⟩

theorem Circle.Unsteered.fed {c : Circle} {optim : Nat}
    (h : c.Unsteered optim) : c.fed.Unsteered optim := by
  constructor
  · exact h.optim
  · show (c.blockGet && _) = false
    rw [h.gate, Bool.false_and]

theorem Circle.Unsteered.refused {c : Circle} {optim : Nat}
    (h : c.Unsteered optim) : c.refused.Unsteered optim := by
  constructor
  · exact h.optim
  · show (c.blockGet && _) = false
    rw [h.gate, Bool.false_and]

/-- Writing a chunk leaves the count alone. -/
private theorem length_assign (c : Circle) (r : ChunkRef) (k : Chunk) :
    (c.assign r k).length = c.length := by
  cases r <;> rfl

/-- A step of the network thread that acts on no `RESET_ALL` and no pilot
position. -/
private theorem unsteered_net {s : Speaker} {optim : Nat}
    (h : s.rq.Unsteered optim) (hunasked : s.Unasked)
    (hsig : ∀ pk bufLen, s.net = .frame pk bufLen →
      (s.rq.deref pk).hdr.frmSig ≠ resetAll) (i : NetIn) :
    (s.netStep i).rq.Unsteered optim ∧
      s.rq.length ≤ (s.netStep i).rq.length := by
  unfold Speaker.Unasked at hunasked
  unfold Speaker.netStep
  cases hpc : s.net with
  | lost =>
      simp only
      split <;> exact ⟨h, Nat.le_refl _⟩
  | loop =>
      simp only
      split
      · rcases s.rq.qFeedup_cases with ⟨_, _, hcall⟩ | ⟨_, hcall⟩
        · rw [hcall]
          exact ⟨h.fed, Nat.le_succ _⟩
        · rw [hcall]
          exact ⟨⟨h.optim, h.gate⟩, Nat.le_refl _⟩
      · exact ⟨h, Nat.le_refl _⟩
  | got pk => exact ⟨h.assign pk _, Nat.le_of_eq (length_assign _ _ _).symm⟩
  | frame pk bufLen =>
      rw [hpc] at hunasked
      have hsyncs : (s.rq.deref pk).hdr.syncs = false := by
        simp [BufHdr.syncs, show (s.rq.deref pk).hdr.pilotSeq = 0 from hunasked]
      simp only [hsig pk bufLen hpc, hsyncs, if_false, Bool.false_eq_true]
      exact ⟨h, Nat.le_refl _⟩
  | resync pk newopt =>
      rw [hpc] at hunasked
      exact hunasked.elim
  | report pk =>
      rw [hpc] at hunasked
      exact hunasked.elim
  | done pk ok => exact ⟨h.assign pk _, Nat.le_of_eq (length_assign _ _ _).symm⟩

/-- The network thread acts on a frame it has just received whole. -/
private theorem frame_netStep {s : Speaker} {i : NetIn} {pk : ChunkRef}
    {bufLen : Nat} (h : (s.netStep i).net = .frame pk bufLen) :
    s.net = .got pk ∧ (recvFrame (s.rq.deref pk) i.stream.recv).ok = true := by
  unfold Speaker.netStep at h
  cases hnet : s.net with
  | got r =>
      rw [hnet] at h
      simp only at h
      split at h
      next hok =>
        obtain ⟨rfl, _⟩ := NetPc.frame.inj h
        exact ⟨rfl, hok⟩
      next => cases h
  | lost =>
      rw [hnet] at h
      simp only at h
      split at h
      · cases h
      · rw [hnet] at h
        cases h
  | loop =>
      rw [hnet] at h
      simp only at h
      split at h
      · rcases s.rq.qFeedup_cases with ⟨_, _, hcall⟩ | ⟨_, hcall⟩
        · rw [hcall] at h
          cases h
        · rw [hcall] at h
          cases h
      · rw [hnet] at h
        cases h
  | frame r b =>
      rw [hnet] at h
      simp only at h
      split at h
      · cases h
      · split at h <;> cases h
  | resync r newopt =>
      rw [hnet] at h
      cases h
  | report r =>
      rw [hnet] at h
      cases h
  | done r ok =>
      rw [hnet] at h
      cases r <;> cases ok <;> cases h

/-- A step of the player. -/
private theorem unsteered_play {s : Speaker} {optim : Nat}
    (h : s.rq.Unsteered optim) : s.playStep.rq.Unsteered optim := by
  unfold Speaker.playStep
  cases s.play with
  | loop =>
      simp only
      split <;> exact h
  | consume =>
      simp only
      rcases s.rq.qConsume_cases with ⟨_, _, _, hcall⟩ | ⟨_, hcall⟩
      · rw [hcall]
        exact ⟨h.optim, h.gate⟩
      · rw [hcall]
        exact h.refused
  | hold pk => exact h.assign pk _
  | played pk hdr => exact h.assign pk _
  | _ => exact h

section Node

variable {n : Node} {optim : Nat}

/-- A header that arrived whole is that of a frame in flight. -/
private theorem UnsteeredNode.header (h : UnsteeredNode optim n) {pk : Chunk}
    {cuts : List Nat}
    (hwhole : (recvFrame pk (segments cuts n.toCli)).whole = true) :
    (recvFrame pk (segments cuts n.toCli)).chunk.hdr.frmSig ≠ resetAll := by
  obtain ⟨hle, hhdr⟩ := recvFrame_whole hwhole
  have hprefix := delivered_segments cuts n.toCli
  obtain ⟨rest, hrest⟩ := hprefix
  have htake : (delivered (segments cuts n.toCli)).take sizeofBufHdr =
      n.toCli.take sizeofBufHdr :=
    (List.take_append_of_le_length hle).symm.trans (by rw [hrest])
  rw [hhdr, htake]
  apply h.heads.first
  rw [← hrest, List.length_append]
  omega

theorem UnsteeredNode.player (h : UnsteeredNode optim n) (hnode : NodeInv n) :
    UnsteeredNode optim n.player where
  heads := h.heads
  queue := unsteered_play h.queue
  frame := by
    intro pk bufLen hpc
    have hbefore : n.spk.net = .frame pk bufLen :=
      (net_playStep n.spk).symm.trans hpc
    show ((n.spk.step .play).rq.deref pk).hdr.frmSig ≠ resetAll
    rcases deref_step hnode.held.held.cursors .play pk with
      hsame | ⟨i, hop, _⟩ | ⟨_, hclear⟩
    · rw [show ((n.spk.step .play).rq.deref pk).hdr = _ from
        congrArg Prod.fst hsame]
      exact h.frame pk bufLen hbefore
    · cases hop
    · rw [hclear]
      show (0 : BitVec 8) ≠ resetAll
      decide

theorem UnsteeredNode.net (h : UnsteeredNode optim n) (hnode : NodeInv n)
    (i : NetIn) (cuts : List Nat) : UnsteeredNode optim (n.net i cuts) where
  heads := by
    obtain ⟨_, _, hflight⟩ := hnode.net_conn i cuts
    rcases hflight with hsame | hnone | hrest
    · rw [hsame]
      exact h.heads
    · rw [hnone]
      exact heads_nil NoReset (by decide)
    · rw [hrest]
      exact heads_drop h.heads
  queue := by
    rw [net_spk]
    exact (unsteered_net h.queue hnode.unasked h.frame _).1
  frame := by
    intro pk bufLen hpc
    rw [net_spk] at hpc ⊢
    obtain ⟨hgot, hok⟩ := frame_netStep hpc
    have hwhole := ((Bool.and_eq_true _ _).mp hok).1
    have hchunk : ((n.spk.step (.net (n.input i cuts))).rq.deref pk) =
        (recvFrame (n.spk.rq.deref pk) (segments cuts n.toCli)).chunk := by
      have hheld := hnode.held.held
      rw [hgot] at hheld
      show ((n.spk.netStep (n.input i cuts)).rq.deref pk) = _
      unfold Speaker.netStep
      rw [hgot]
      exact hheld.deref_assign _
    rw [hchunk]
    exact h.header hwhole

/-- Sent bytes are behind whole frames. -/
theorem UnsteeredNode.deliver (h : UnsteeredNode optim n) {x : Content}
    {p : List Byte} (hp : p <+: x.bytes) (hlen : x.2.length = tcpSndLen)
    (hsig : x.1.frmSig ≠ resetAll)
    (hwhole : n.linked = true → n.toCli.length % frameSize = 0) :
    UnsteeredNode optim (n.deliver p) := by
  unfold Node.deliver
  split
  next hlinked =>
    refine ⟨?_, h.frame, h.queue⟩
    have henc := x.1.length_encode
    have hsize : p.length ≤ frameSize := by
      have hle := hp.length_le
      unfold Content.bytes at hle
      rw [List.length_append, henc, hlen] at hle
      exact hle
    apply heads_append (by decide) (by decide) h.heads (hwhole hlinked) hsize
    intro hin
    obtain ⟨rest, hrest⟩ := hp
    have htake : p.take sizeofBufHdr = x.1.encode := by
      unfold Content.bytes at hrest
      rw [← List.take_append_of_le_length hin, hrest, BufHdr.take_encode]
    unfold NoReset
    rw [htake, BufHdr.decode_encode]
    exact hsig
  next => exact h

/-- What is in flight does not grow otherwise. -/
theorem UnsteeredNode.congr {n' : Node} (h : UnsteeredNode optim n)
    (hspk : n'.spk = n.spk) (hflight : n'.toCli = n.toCli ∨ n'.toCli = []) :
    UnsteeredNode optim n' := by
  refine ⟨?_, hspk ▸ h.frame, hspk ▸ h.queue⟩
  rcases hflight with hsame | hnone
  · rw [hsame]
    exact h.heads
  · rw [hnone]
    exact heads_nil NoReset (by decide)

end Node

/-! ## The whole system -/

/-- The optimum `main` gives to a queue of that capacity. -/
def optimOf (chunks : Nat) : Nat :=
  ((Circle.reserve chunks tcpSndLen).setOptimPerc cliSyncPercent).optim

/-- No client was or will be steered, and the server knows of no queue. -/
structure UnsteeredInv (chunks : Ip → Nat) (s : System) : Prop where
  silent : SilentInv s
  pilot : s.server.srv.pilot = Pilot.zero
  nodes : ∀ ip, UnsteeredNode (optimOf (chunks ip)) (s.node ip)

theorem unsteeredInv_init {chunks : Ip → Nat} (hn : ∀ ip, 0 < chunks ip)
    (tick : BitVec 64) (time : Int) :
    UnsteeredInv chunks (System.init chunks tick time) where
  silent := silentInv_init hn tick time
  pilot := rfl
  nodes := fun ip =>
    { heads := heads_nil NoReset (by decide)
      frame := by
        intro pk bufLen hpc
        cases hpc
      queue := ⟨rfl, rfl⟩ }

section System

variable {chunks : Ip → Nat} {s : System}

/-- Sending leaves the pilot fields clear. -/
private theorem pilot_send (h : s.server.srv.pilot = Pilot.zero) (i : LoopIn) :
    (s.server.send i).1.srv.pilot = Pilot.zero := by
  rcases send_cases s.server i with ⟨hsrv, _⟩ | ⟨q, _, _, hsrv, _⟩
  · rw [hsrv]
    exact h
  · rw [hsrv, qsend_pilot, h]
    split <;> rfl

/-- No report comes in. -/
private theorem pilot_pool (hs : SilentInv s)
    (h : s.server.srv.pilot = Pilot.zero) (i : PoolIn) (cuts : Ip → List Nat) :
    (s.server.srv.pool { i with
      recv := fun ip => segments (cuts ip) (s.node ip).toSrv }).1.pilot =
        Pilot.zero := by
  have hnone : ∀ ip, delivered (segments (cuts ip) (s.node ip).toSrv) = [] := by
    intro ip
    have hprefix := delivered_segments (cuts ip) (s.node ip).toSrv
    rw [(hs.nodes ip).silent] at hprefix ⊢
    exact List.prefix_nil.mp hprefix
  rcases pool_silent s.server.srv
    { i with recv := fun ip => segments (cuts ip) (s.node ip).toSrv }
    hnone with hsame | hzero
  · rw [hsame, h]
  · exact hzero

/-- No step of any program steers a queue. -/
theorem unsteeredInv_step (h : UnsteeredInv chunks s) (op : SysOp) :
    UnsteeredInv chunks (s.step op) := by
  refine ⟨silentInv_step h.silent op, ?_, ?_⟩
  · cases op with
    | send i =>
        show (s.send i).server.srv.pilot = _
        unfold System.send
        split
        · exact pilot_send h.pilot i
        · exact h.pilot
    | serve i cuts =>
        show (s.serve i cuts).server.srv.pilot = _
        unfold System.serve
        split
        · exact pilot_pool h.silent h.pilot i cuts
        · exact h.pilot
    | net a i cuts => exact h.pilot
    | play a => exact h.pilot
  · intro ip
    have hnode := h.nodes ip
    cases op with
    | send i =>
        show UnsteeredNode _ ((s.send i).node ip)
        unfold System.send
        split
        · show UnsteeredNode _ ((s.node ip).deliver
            (bytesTo ip (s.server.send i).2.1))
          rcases sendTo_cases s.server i ip with
            ⟨hnil, _⟩ | ⟨k, x, hk, hopen, hlen, hsig, _, hpart, _⟩
          · rw [hnil]
            unfold Node.deliver
            split
            · exact hnode.congr rfl (Or.inl (List.append_nil _))
            · exact hnode
          · exact hnode.deliver hpart (hlen.trans h.silent.chunk) hsig
              (h.silent.whole ip k hk hopen)
        · exact hnode
    | serve i cuts =>
        show UnsteeredNode _ ((s.serve i cuts).node ip)
        unfold System.serve
        split
        · dsimp only
          split
          · exact hnode.congr rfl (Or.inr rfl)
          · split
            · exact hnode.congr rfl (Or.inl rfl)
            · exact hnode
        · exact hnode
    | net a i cuts =>
        show UnsteeredNode _ (Function.update s.node a _ ip)
        by_cases ha : a = ip
        · subst ha
          rw [Function.update_self]
          exact hnode.net (h.silent.nodes a) i cuts
        · rw [Function.update_of_ne (Ne.symm ha)]
          exact hnode
    | play a =>
        show UnsteeredNode _ (Function.update s.node a _ ip)
        by_cases ha : a = ip
        · subst ha
          rw [Function.update_self]
          exact hnode.player (h.silent.nodes a)
        · rw [Function.update_of_ne (Ne.symm ha)]
          exact hnode

/-- The network thread of no client takes anything out of its queue. -/
theorem UnsteeredInv.keepsQueued (h : UnsteeredInv chunks s) (ip : Ip)
    (op : SysOp) : ∀ o ∈ s.spkOp ip op, (s.node ip).spk.KeepsQueued o := by
  rintro o _ i rfl
  exact (unsteered_net (h.nodes ip).queue (h.silent.nodes ip).unasked
    (h.nodes ip).frame i).2

end System

/-! ## Nothing is steered -/

/-- Every queue is as it was set up but for the chunks in it, no client is about
to resynchronise or to report, `pool` finds nothing to correct, and a turn that
ends now sleeps by the clock alone. -/
structure System.Unsteered (chunks : Ip → Nat) (s : System) : Prop where
  queues : ∀ ip, (s.node ip).spk.rq.Unsteered (optimOf (chunks ip))
  resync : ∀ ip pk newopt, (s.node ip).spk.net ≠ .resync pk newopt
  report : ∀ ip pk, (s.node ip).spk.net ≠ .report pk
  pool : ∀ (i : PoolIn) (cuts : Ip → List Nat), i.selectErr = none →
    (s.server.srv.pool { i with
      recv := fun ip => segments (cuts ip) (s.node ip).toSrv }).2 = 0
  clock : ∀ pid t1 t2 frmdiff, pace pid t1 t2 s.server.srv.pilot frmdiff =
    (usOf (slploopOf (t2 - t1))).map fun us => (pid, us)

theorem UnsteeredInv.unsteered {chunks : Ip → Nat} {s : System}
    (h : UnsteeredInv chunks s) : s.Unsteered chunks where
  queues := fun ip => (h.nodes ip).queue
  resync := by
    intro ip pk newopt hpc
    have hunasked := (h.silent.nodes ip).unasked
    unfold Speaker.Unasked at hunasked
    rw [hpc] at hunasked
    exact hunasked
  report := by
    intro ip pk hpc
    have hunasked := (h.silent.nodes ip).unasked
    unfold Speaker.Unasked at hunasked
    rw [hpc] at hunasked
    exact hunasked
  pool := by
    intro i cuts hsel
    have hzero := pilot_pool h.silent h.pilot i cuts
    unfold TcpSrv.pool at hzero ⊢
    simp only [hsel] at hzero ⊢
    rw [hzero]
    rfl
  clock := by
    intro pid t1 t2 frmdiff
    rw [h.pilot]
    unfold pace
    have hzero : Pilot.zero.qsz = 0 := rfl
    simp only [hzero, ne_eq, not_true_eq_false, false_and, and_false, if_false]
    exact Option.map_eq_bind.symm

/--
**The queues are never steered.**

In every run of the server and its clients, in every state: each queue has the
optimum it was set up with and an open gate, no client is about to resynchronise
its queue or to report, `pool` finds nothing to correct, and the controller does
not touch the sleep.  And no step of a network thread takes a chunk out of its
queue.
-/
theorem queues_are_never_steered {chunks : Ip → Nat} (hn : ∀ ip, 0 < chunks ip)
    (tick : BitVec 64) (time : Int) (ops : List SysOp) :
    Throughout System.step (System.Unsteered chunks)
        (System.init chunks tick time) ops ∧
      Along System.step
        (fun s op => ∀ ip, ∀ o ∈ s.spkOp ip op, (s.node ip).spk.KeepsQueued o)
        (System.init chunks tick time) ops := by
  have hinit := unsteeredInv_init hn tick time
  constructor
  · exact throughout_of_inv (fun _ op h => unsteeredInv_step h op)
      (fun _ h => h.unsteered) ops _ hinit
  · exact along_of_inv (C := fun _ _ => True)
      (fun _ op h _ => unsteeredInv_step h op)
      (fun _ op h _ ip => h.keepsQueued ip op) ops _ hinit
      (along_true System.step ops _)

/-- `queues_are_never_steered` for the run in which room 7 plays a chunk. -/
theorem queues_never_steered_on_air :
    Throughout System.step (System.Unsteered fun _ => 1)
        (System.init (fun _ => 1) 0 0) onAir ∧
      Along System.step
        (fun s op => ∀ ip, ∀ o ∈ s.spkOp ip op, (s.node ip).spk.KeepsQueued o)
        (System.init (fun _ => 1) 0 0) onAir :=
  queues_are_never_steered (fun _ => by decide) 0 0 onAir

/-! ## Without a gap -/

/-- While the connection is steady, what was received and what is in flight is
all that was sent; and nothing received was discarded. -/
structure SteadyInv (chunks : Ip → Nat) (ip : Ip) (s : System)
    (heard sent : List Content) : Prop where
  unsteered : UnsteeredInv chunks s
  way : ∃ f got fs, PlaybackInv f (s.node ip).spk got heard ∧ f.lost = [] ∧
    SentInv (s.node ip) got fs sent ∧ got ++ fs = sent

theorem steadyInv_init {chunks : Ip → Nat} (hn : ∀ ip, 0 < chunks ip)
    (tick : BitVec 64) (time : Int) (ip : Ip) :
    SteadyInv chunks ip (System.init chunks tick time) [] [] where
  unsteered := unsteeredInv_init hn tick time
  way := ⟨Fifo.empty, [], [],
    playbackInv_init (chunks ip) tcpSndLen tick time (hn ip), rfl,
    sentInv_init tick time, rfl⟩

theorem steadyInv_step {chunks : Ip → Nat} {ip : Ip} {s : System}
    {heard sent : List Content} (h : SteadyInv chunks ip s heard sent)
    (op : SysOp) (hsteady : s.Steady ip op) :
    SteadyInv chunks ip (s.step op) (heard ++ s.played ip op)
      (sent ++ s.sent ip op) := by
  obtain ⟨f, got, fs, hplay, hlost, hsent, hall⟩ := h.way
  obtain ⟨f', hplay', hlost'⟩ :=
    playback_step hplay op fun o ho => (hsteady.1 o ho).1
  obtain ⟨fs', hsent', hall'⟩ :=
    sentInv_step h.unsteered.silent op hsent hsteady.1
  refine ⟨unsteeredInv_step h.unsteered op, f', _, fs', hplay', ?_, hsent',
    hall' hsteady hall⟩
  rw [hlost' (h.unsteered.keepsQueued ip op), hlost]

/-- In a steady room nothing is missing before what was played last. -/
theorem SteadyInv.isPrefix {chunks : Ip → Nat} {ip : Ip} {s : System}
    {heard sent : List Content} (h : SteadyInv chunks ip s heard sent) :
    heard <+: sent := by
  obtain ⟨f, got, fs, hplay, hlost, _, hall⟩ := h.way
  rw [← hall]
  exact (hplay.sim.fifoRefines.isPrefix hlost).trans (List.prefix_append _ _)

theorem steadyInv_run {chunks : Ip → Nat} (hn : ∀ ip, 0 < chunks ip)
    (tick : BitVec 64) (time : Int) (ip : Ip) {ops : List SysOp}
    (hsteady : Along System.step (System.Steady ip)
      (System.init chunks tick time) ops) :
    SteadyInv chunks ip (run System.step (System.init chunks tick time) ops)
      (trace System.step (System.played ip) (System.init chunks tick time) ops)
      (trace System.step (System.sent ip) (System.init chunks tick time) ops) :=
  trace_inv_nil (C := System.Steady ip) (I := SteadyInv chunks ip)
    (fun _ op _ _ h hs => steadyInv_step h op hs)
    (steadyInv_init hn tick time ip) hsteady

end RoomSpeaker
