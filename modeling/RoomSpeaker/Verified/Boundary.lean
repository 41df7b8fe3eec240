import RoomSpeaker.Foundation.Records
import RoomSpeaker.Foundation.Run
import RoomSpeaker.Model.Connection
import RoomSpeaker.Verified.Handshake
import RoomSpeaker.Verified.SpeakerSpec

/-!
# Where in the stream headers are read

`_check_stream` takes a header from wherever the last receive stopped.  A receive
that came up short stops inside a frame.  The normal path of `_get_data` gives the
connection up when `_check_stream` returns false; the drop path, which receives
into the scrap chunk while the queue is full, goes on with it.  And the payload of
a frame may stop exactly where its `buf_len` ends: then it is accepted.

## Main results

* `inFlight_recvFrame`, `takes_eq` — the receives take the next bytes of the
  stream, a frame of them unless a `::recv` fails before.
* `connInv_step` — a receive that takes nothing, takes a whole frame, or fails on
  the normal path keeps the connection at a frame boundary.
* `atBoundary_iff_keepsBoundary` — the client stays at the boundaries exactly
  along the runs of such receives, and then reads its headers there.
-/

namespace RoomSpeaker

open Foundation

/-! ## The bytes taken -/

theorem inFlight_receive (n : Nat) (sock : List RecvOut) :
    (receive n sock).2.1 ++ inFlight (receive n sock).2.2 = inFlight sock := by
  cases sock with
  | nil => rfl
  | cons o rest =>
      cases o with
      | data bs =>
          by_cases hfit : bs.length ≤ n
          · simp only [receive, if_pos hfit]
            rfl
          · simp only [receive, if_neg hfit]
            show bs.take n ++ (bs.drop n ++ inFlight rest) = bs ++ inFlight rest
            rw [← List.append_assoc, List.take_append_drop]
      | again => rfl
      | error => rfl

/-- A `receive` that returns no byte count stored nothing. -/
theorem receive_failed {n : Nat} {sock : List RecvOut}
    (h : (receive n sock).1 ≤ 0) : (receive n sock).2.1 = [] := by
  cases sock with
  | nil => rfl
  | cons o rest =>
      cases o with
      | data bs =>
          unfold receive at h ⊢
          by_cases hfit : bs.length ≤ n
          · simp only [if_pos hfit] at h ⊢
            exact List.eq_nil_of_length_eq_zero (by omega)
          · simp only [if_neg hfit] at h ⊢
            have hzero : n = 0 := by omega
            rw [hzero, List.take_zero]
      | again => rfl
      | error => rfl

private theorem inFlight_receiveallLoop (turns : Nat) :
    ∀ (n : Nat) (got : List Byte) (sock : List RecvOut),
      (receiveallLoop turns n got sock).1 ++
          inFlight (receiveallLoop turns n got sock).2 =
        got ++ inFlight sock := by
  induction turns with
  | zero => intro n got sock; rfl
  | succ turns ih =>
      intro n got sock
      have hreceive := inFlight_receive n sock
      unfold receiveallLoop
      simp only
      split
      · rfl
      · split
        next hfail =>
          rw [receive_failed hfail, List.nil_append] at hreceive
          rw [hreceive]
        next hmore => rw [ih, List.append_assoc, hreceive]

/-- `receiveall` takes the next bytes of the stream. -/
theorem inFlight_receiveall (n : Nat) (sock : List RecvOut) :
    (receiveall n sock).1 ++ inFlight (receiveall n sock).2 = inFlight sock :=
  inFlight_receiveallLoop n n [] sock

/-- What the socket delivers before it fails is the beginning of the stream. -/
theorem delivered_begins (sock : List RecvOut) :
    delivered sock <+: inFlight sock := by
  induction sock with
  | nil => exact List.prefix_refl []
  | cons o rest ih =>
      cases o with
      | data bs =>
          by_cases hbs : bs = []
          · rw [hbs]
            exact List.nil_prefix
          · rw [delivered_data hbs]
            exact (List.prefix_append_right_inj bs).mpr ih
      | again => exact List.nil_prefix
      | error => exact List.nil_prefix

/-- The two receives take the next bytes of the stream. -/
theorem inFlight_recvFrame (pk : Chunk) (sock : List RecvOut) :
    ∃ bs : List Byte, bs.length = pk.takes sock ∧
      bs ++ inFlight (recvFrame pk sock).sock = inFlight sock := by
  have hhdr := inFlight_receiveall sizeofBufHdr sock
  have hpay := inFlight_receiveall pk.len (receiveall sizeofBufHdr sock).2
  have hboth : (receiveall sizeofBufHdr sock).1 ++
      ((receiveall pk.len (receiveall sizeofBufHdr sock).2).1 ++
        inFlight (receiveall pk.len (receiveall sizeofBufHdr sock).2).2) =
      inFlight sock := by
    rw [hpay, hhdr]
  unfold Chunk.takes recvFrame
  simp only
  split
  · exact ⟨_, rfl, hhdr⟩
  · split
    · exact ⟨_, List.length_append,
        (List.append_assoc _ _ _).trans hboth⟩
    · exact ⟨_, rfl, hhdr⟩

/-- The header announces a payload. -/
def Announced (bs : List Byte) : Prop := (BufHdr.decode bs).bufLen ≠ 0

/-- The two receives take a frame, or what there is of one before a `::recv`
fails. -/
theorem takes_eq {pk : Chunk} {sock : List RecvOut} (hlen : pk.len = tcpSndLen)
    (hannounced : sizeofBufHdr ≤ (delivered sock).length →
      Announced ((delivered sock).take sizeofBufHdr)) :
    pk.takes sock = min frameSize (delivered sock).length := by
  have hhdr := length_receiveall sizeofBufHdr sock
  unfold Chunk.takes frameSize
  by_cases hwhole : sizeofBufHdr ≤ (delivered sock).length
  · rw [(recvFrame_payload pk hwhole).2, if_neg (hannounced hwhole), hlen]
    omega
  · rw [(recvFrame_short pk (Nat.lt_of_not_le hwhole)).2]
    omega

/-! ## Connections -/

/-- The thread goes on with the connection it has.  After a failed receive into a
slot it does not. -/
def NetPc.attached : NetPc → Bool
  | .lost => false
  | .done (.slot _) false => false
  | _ => true

/-- The next receive on the connection starts at a frame boundary. -/
def Conn.AtBoundary (s : Conn) : Prop :=
  s.spk.net.attached = true → s.taken % frameSize = 0

/-- The chunk that a step receives into. -/
def Conn.receives (s : Conn) : ConnOp → Option ChunkRef
  | .net _ =>
      match s.spk.net with
      | .got pk => some pk
      | _ => none
  | .play => none

theorem Conn.mem_receives {s : Conn} {i : ConnIn} {pk : ChunkRef} :
    pk ∈ s.receives (.net i) ↔ s.spk.net = .got pk := by
  unfold Conn.receives
  cases s.spk.net <;> simp [Option.mem_def]

/-- A header that `_check_stream` gets whole, and so looks at, starts at a frame
boundary. -/
def Conn.ReadsAtBoundary (s : Conn) (op : ConnOp) : Prop :=
  ∀ pk ∈ s.receives op,
    (recvFrame (s.spk.rq.deref pk) s.sock).whole = true →
      s.taken % frameSize = 0

instance (s : Conn) (op : ConnOp) : Decidable (s.ReadsAtBoundary op) :=
  inferInstanceAs (Decidable (∀ pk ∈ s.receives op, _))

/-- A receive finds no byte, or a whole frame before any `::recv` fails; or it is
one on the normal path whose frame does not arrive. -/
def Conn.KeepsBoundary (s : Conn) (op : ConnOp) : Prop :=
  ∀ pk ∈ s.receives op,
    delivered s.sock = [] ∨ frameSize ≤ (delivered s.sock).length ∨
      (pk ≠ .scrap ∧ ¬ FrameArrives tcpSndLen s.sock)

instance (s : Conn) (op : ConnOp) : Decidable (s.KeepsBoundary op) :=
  inferInstanceAs (Decidable (∀ pk ∈ s.receives op, _))

/-- At a boundary, with only whole frames to come. -/
structure ConnInv (s : Conn) : Prop where
  held : HeldInv s.spk
  sized : s.spk.Sized tcpSndLen
  frames : s.spk.net.attached = true →
    Heads frameSize sizeofBufHdr Announced (inFlight s.sock)
  boundary : s.AtBoundary

theorem connInv_init {chunks : Nat} (hn : 0 < chunks) (tick : BitVec 64)
    (time : Int) : ConnInv (Conn.init chunks tick time) where
  held := heldInv_init chunks tcpSndLen tick time hn
  sized := sized_init chunks tcpSndLen tick time
  frames := fun hnone => Bool.noConfusion hnone
  boundary := fun hnone => Bool.noConfusion hnone

/-- The frames of a stream announce their payloads. -/
theorem FrameStream.heads (st : FrameStream) :
    Heads frameSize sizeofBufHdr Announced (inFlight st.sock) := by
  have hall : ∀ fs : List (BufHdr × List Byte),
      (∀ f ∈ fs, f.2.length = tcpSndLen) → (∀ f ∈ fs, f.1.bufLen ≠ 0) →
      Heads frameSize sizeofBufHdr Announced
        (fs.flatMap fun f => f.1.encode ++ f.2) := by
    intro fs
    induction fs with
    | nil => intro _ _; exact heads_nil Announced (by decide)
    | cons f fs ih =>
        intro hwhole hannounced
        have hlen := hwhole f List.mem_cons_self
        have hne := hannounced f List.mem_cons_self
        rw [List.flatMap_cons]
        refine heads_cons (show sizeofBufHdr ≤ frameSize by decide) ?_ ?_ ?_
        · rw [List.length_append, f.1.length_encode, hlen]
          rfl
        · rw [BufHdr.take_encode]
          unfold Announced
          rw [BufHdr.decode_encode]
          exact hne
        · exact ih (fun g hg => hwhole g (List.mem_cons_of_mem f hg))
            (fun g hg => hannounced g (List.mem_cons_of_mem f hg))
  exact heads_beginning (hall st.frames st.whole st.announced) st.order

/-! ## The network thread -/

theorem spk_net (s : Conn) (i : ConnIn) :
    (s.net i).spk = s.spk.netStep (s.input i) := by
  unfold Conn.net
  cases s.spk.net with
  | lost => cases i.up <;> rfl
  | _ => rfl

/-- Except for a new connection and for the receives, a step of the network thread
takes nothing off the connection, and keeps it only if it was kept before. -/
theorem net_other {s : Conn} (i : ConnIn) (hlost : s.spk.net ≠ .lost)
    (hgot : ∀ pk, s.spk.net ≠ .got pk) :
    (s.net i).sock = s.sock ∧ (s.net i).taken = s.taken ∧
      ((s.net i).spk.net.attached = true → s.spk.net.attached = true) := by
  rw [spk_net]
  unfold Conn.net
  cases hpc : s.spk.net with
  | lost => exact absurd hpc hlost
  | got pk => exact absurd hpc (hgot pk)
  | done pk ok =>
      refine ⟨rfl, rfl, ?_⟩
      unfold Speaker.netStep
      simp only [hpc]
      cases pk <;> cases ok <;> simp [NetPc.attached]
  | _ => exact ⟨rfl, rfl, fun _ => rfl⟩

/-- After the receives: the thread has accepted the frame, or goes on without it
on the drop path. -/
theorem attached_got {s : Conn} {pk : ChunkRef} (h : ConnInv s)
    (hgot : s.spk.net = .got pk) (i : ConnIn) :
    (s.net i).spk.net.attached = true ↔
      ¬(pk ≠ .scrap ∧ ¬ FrameArrives tcpSndLen s.sock) := by
  have hok := recvFrame_ok_iff (s.spk.rq.deref pk) s.sock
  rw [h.sized.len_held h.held (by rw [hgot]; rfl)] at hok
  have hnet : (s.net i).spk.net =
      if (recvFrame (s.spk.rq.deref pk) s.sock).ok
      then .frame pk (recvFrame (s.spk.rq.deref pk) s.sock).bufLen
      else .done pk false := by
    rw [spk_net]
    unfold Speaker.netStep
    rw [hgot]
    rfl
  rw [hnet, ← hok]
  cases hcase : (recvFrame (s.spk.rq.deref pk) s.sock).ok with
  | true => simp [NetPc.attached]
  | false => cases pk <;> simp [NetPc.attached]

/-- What the connection holds after the receives. -/
theorem conn_got {s : Conn} {pk : ChunkRef} (h : ConnInv s)
    (hgot : s.spk.net = .got pk) (i : ConnIn) :
    (s.net i).taken =
        s.taken + min frameSize (delivered s.sock).length ∧
      inFlight (s.net i).sock =
        (inFlight s.sock).drop (min frameSize (delivered s.sock).length) := by
  have hattached : s.spk.net.attached = true := by
    rw [hgot]
    rfl
  have hhead : sizeofBufHdr ≤ (delivered s.sock).length →
      Announced ((delivered s.sock).take sizeofBufHdr) :=
    (heads_beginning (h.frames hattached) (delivered_begins s.sock)).first
  have htakes := takes_eq (h.sized.len_held h.held (by rw [hgot]; rfl)) hhead
  obtain ⟨bs, hlen, hbytes⟩ := inFlight_recvFrame (s.spk.rq.deref pk) s.sock
  rw [htakes] at hlen
  unfold Conn.net
  simp only [hgot]
  constructor
  · rw [htakes]
  · rw [← hbytes, ← hlen, List.drop_left]

/-! ## The invariant along a run -/

theorem connInv_net {s : Conn} (h : ConnInv s) (i : ConnIn)
    (hkeep : s.KeepsBoundary (.net i)) : ConnInv (s.net i) := by
  have hsteps : HeldInv (s.net i).spk ∧ (s.net i).spk.Sized tcpSndLen := by
    rw [spk_net]
    exact ⟨heldInv_step h.held (.net (s.input i)),
      sized_step h.sized h.held.held.cursors (.net (s.input i))⟩
  have hconn : (s.net i).spk.net.attached = true →
      Heads frameSize sizeofBufHdr Announced (inFlight (s.net i).sock) ∧
        (s.net i).taken % frameSize = 0 := by
    intro hattached
    cases hpc : s.spk.net with
    | lost =>
        rw [spk_net] at hattached
        unfold Speaker.netStep at hattached
        unfold Conn.net
        simp only [hpc] at hattached ⊢
        cases hup : i.up with
        | none => simp [Conn.input, hup, hpc, NetPc.attached] at hattached
        | some st => exact ⟨st.heads, rfl⟩
    | got pk =>
        obtain ⟨htaken, hbytes⟩ := conn_got h hpc i
        have hnow : s.spk.net.attached = true := by
          rw [hpc]
          rfl
        have hmod := h.boundary hnow
        rw [htaken, hbytes]
        rcases hkeep pk (Conn.mem_receives.mpr hpc) with
          hnone | hwhole | hfails
        · rw [hnone, List.length_nil, Nat.min_zero]
          exact ⟨h.frames hnow, hmod⟩
        · rw [Nat.min_eq_left hwhole, Nat.add_mod_right]
          exact ⟨heads_drop (h.frames hnow), hmod⟩
        · exact absurd hfails ((attached_got h hpc i).mp hattached)
    | _ =>
        obtain ⟨hsock, htaken, hkept⟩ :=
          net_other i (by rw [hpc]; simp) (by rw [hpc]; simp)
        rw [hsock, htaken]
        exact ⟨h.frames (hkept hattached), h.boundary (hkept hattached)⟩
  exact ⟨hsteps.1, hsteps.2, fun ha => (hconn ha).1, fun ha => (hconn ha).2⟩

theorem connInv_step {s : Conn} (h : ConnInv s) (op : ConnOp)
    (hkeep : s.KeepsBoundary op) : ConnInv (s.step op) := by
  cases op with
  | net i => exact connInv_net h i hkeep
  | play =>
      have hnet : s.spk.playStep.net = s.spk.net := net_playStep s.spk
      refine ⟨heldInv_step h.held .play,
        sized_step h.sized h.held.held.cursors .play, ?_, ?_⟩
      · intro hattached
        exact h.frames (hnet ▸ hattached)
      · intro hattached
        exact h.boundary (hnet ▸ hattached)

/-- A receive that leaves the connection at a boundary is one that keeps it
there. -/
theorem keepsBoundary_of_atBoundary {s : Conn} (h : ConnInv s) (op : ConnOp)
    (hat : (s.step op).AtBoundary) : s.KeepsBoundary op := by
  intro pk hpk
  cases op with
  | play => cases hpk
  | net i =>
      have hgot := Conn.mem_receives.mp hpk
      obtain ⟨htaken, _⟩ := conn_got h hgot i
      have hnow : s.taken % frameSize = 0 := by
        apply h.boundary
        rw [hgot]
        rfl
      by_cases hfails : pk ≠ .scrap ∧ ¬ FrameArrives tcpSndLen s.sock
      · exact Or.inr (Or.inr hfails)
      · have hafter : (s.net i).taken % frameSize = 0 :=
          hat ((attached_got h hgot i).mpr hfails)
        have hsize : frameSize = 4144 := rfl
        rw [htaken, hsize] at hafter
        rw [hsize] at hnow ⊢
        by_cases hnone : (delivered s.sock).length = 0
        · exact Or.inl (List.eq_nil_of_length_eq_zero hnone)
        · have hwhole : 4144 ≤ (delivered s.sock).length := by omega
          exact Or.inr (Or.inl hwhole)

/--
**The client is aligned as long as its receives are whole or given up.**

In any run of the two threads over any connections: the next receive always starts
at a frame boundary iff every receive finds no byte, finds a whole frame, or is
one into a slot whose frame does not arrive; and then every header that
`_check_stream` looks at starts at a frame boundary.
-/
theorem atBoundary_iff_keepsBoundary (chunks : Nat) (tick : BitVec 64)
    (time : Int) (ops : List ConnOp) (hn : 0 < chunks) :
    (Throughout Conn.step Conn.AtBoundary (Conn.init chunks tick time) ops ↔
      Along Conn.step Conn.KeepsBoundary (Conn.init chunks tick time) ops) ∧
    (Along Conn.step Conn.KeepsBoundary (Conn.init chunks tick time) ops →
      Along Conn.step Conn.ReadsAtBoundary (Conn.init chunks tick time) ops) := by
  have hinit := connInv_init hn tick time
  constructor
  · apply throughout_iff_along (I := ConnInv)
    · intro s op h hkeep
      exact connInv_step h op hkeep
    · intro s h
      exact h.boundary
    · intro s op h hat
      exact keepsBoundary_of_atBoundary h op hat
    · exact hinit
  · apply along_of_inv (I := ConnInv)
    · intro s op h hkeep
      exact connInv_step h op hkeep
    · intro s op h _ pk hpk _
      cases op with
      | play => cases hpk
      | net i =>
          apply h.boundary
          rw [Conn.mem_receives.mp hpk]
          rfl
    · exact hinit

/-! ## A short receive on the drop path -/

/-- The bytes of a frame with a whole payload. -/
def wholeBytes : List Byte :=
  { BufHdr.zero with
    frmSig := aliveData, bufLen := BitVec.ofNat 32 tcpSndLen }.encode ++
    List.replicate tcpSndLen 7

/-- Two frames.  After ten bytes of the second one `::recv` has nothing ready
once. -/
def hesitating : FrameStream where
  frames := List.replicate 2
    ({ BufHdr.zero with
        frmSig := aliveData, bufLen := BitVec.ofNat 32 tcpSndLen },
      List.replicate tcpSndLen 7)
  sock := [.data wholeBytes, .data (wholeBytes.take 10), .again,
    .data (wholeBytes.drop 10)]
  whole := fun f hf => by
    rw [(List.mem_replicate.mp hf).2]
    exact List.length_replicate
  announced := fun f hf => by
    rw [(List.mem_replicate.mp hf).2]
    decide
  order := by
    have hsecond : wholeBytes.take 10 ++ (wholeBytes.drop 10 ++ []) =
        wholeBytes ++ [] := by
      rw [← List.append_assoc, List.take_append_drop]
    exact ⟨[], (List.append_nil _).trans (congrArg (wholeBytes ++ ·) hsecond)⟩

/-- A step on a readable socket. -/
def ConnIn.readable : ConnIn := ⟨some hesitating, true, 0, 0, []⟩

/-- The client receives a frame, and the player takes its chunk. -/
def receiveAndHold : List ConnOp :=
  List.replicate 5 (.net .readable) ++ List.replicate 6 .play

theorem readsAtBoundary_whole_frame :
    Along Conn.step Conn.ReadsAtBoundary (Conn.init 1 0 0) receiveAndHold :=
  (atBoundary_iff_keepsBoundary 1 0 0 receiveAndHold (by decide)).2
    (by decide +kernel)

/-- While the player holds the only chunk, the ten bytes go into the scrap chunk,
and the next header is read from the middle of a frame. -/
theorem readsAtBoundary_fails_on_drop :
    ¬ ∀ ops, Along Conn.step Conn.ReadsAtBoundary (Conn.init 1 0 0) ops := by
  intro h
  have hrun := h (receiveAndHold ++ List.replicate 5 (.net .readable))
  exact absurd hrun (by decide +kernel)

end RoomSpeaker
