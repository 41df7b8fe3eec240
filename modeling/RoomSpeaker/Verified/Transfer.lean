import RoomSpeaker.Model.Transfer
import RoomSpeaker.Verified.SockSpec

/-!
# The stream loops lose nothing

In `sendall` offset and remaining length always add up to the length of the
buffer, and each call either makes the rest shorter or takes one from the budget
for retries, or is the last.  In `receiveall` each call but the last stores a
byte, and the bytes stored are those the socket delivered so far.

## Main results

* `sendallTurns_spec`, `receiveallTurns_spec` — what each loop does from the
  middle.
* `sendallRun_ret`, `receiveallRun_bytes` — the loops with counters do what
  `sendall` and `receiveall` do.
* `transfer_lossless` — the two calls, and the way from one buffer to the other.
-/

namespace RoomSpeaker

open Foundation

/-! ## Sending -/

/-- A `send` takes no more than it is given. -/
theorem SendOut.result_le (o : SendOut) (length : Int) :
    o.result length ≤ length := by
  unfold SendOut.result
  omega

/-- A `send` that is given something takes nothing exactly when the socket
does not accept anything. -/
theorem SendOut.result_nonpos_iff (o : SendOut) {length : Int}
    (h : 0 < length) : o.result length ≤ 0 ↔ o.shot ≤ 0 := by
  unfold SendOut.result
  omega

/-- A socket that would accept more than there is takes all of it. -/
theorem SendOut.drop_shot (o : SendOut) (buff : List Byte) :
    buff.drop o.shot.toNat = buff.drop (o.result buff.length).toNat := by
  by_cases hfit : o.shot ≤ buff.length
  · rw [SendOut.result, Int.min_eq_left hfit]
  · rw [SendOut.result, Int.min_eq_right (by omega), Int.toNat_natCast,
      List.drop_length, List.drop_eq_nil_of_le (by omega)]

/-- Turns from the middle of a `sendall`: the socket accepts the next bytes of
the buffer, and what it does not accept is counted in the return value. -/
theorem sendallTurns_spec (buff : List Byte) (outs : List SendOut) :
    ∀ (tout length : Int) (sent : Nat), 0 ≤ tout → 0 ≤ length →
      sent + length = buff.length →
      let r := sendallTurns buff outs tout length sent
      0 ≤ r.ret ∧ r.ret ≤ length ∧
        r.accepted = (buff.drop sent).take (length - r.ret).toNat ∧
        (r.calls : Int) ≤ length + tout + 1 := by
  induction outs with
  | nil =>
      intro tout length sent htout hlen hsum
      unfold sendallTurns
      split <;> simp <;> omega
  | cons o outs ih =>
      intro tout length sent htout hlen hsum
      have hstop : let r : SendallOut := ⟨length, [], 1⟩
          0 ≤ r.ret ∧ r.ret ≤ length ∧
            r.accepted = (buff.drop sent).take (length - r.ret).toNat ∧
            (r.calls : Int) ≤ length + tout + 1 := by
        simp
        omega
      unfold sendallTurns
      by_cases hdone : length ≤ 0
      · rw [if_pos hdone]
        simp
        omega
      · rw [if_neg hdone]
        by_cases hshot : o.result length ≤ 0
        · simp only [if_pos hshot]
          by_cases hquiet : o.errno = 0
          · rw [if_pos hquiet]
            exact hstop
          · rw [if_neg hquiet]
            by_cases hagain : o.errno = eagain
            · rw [if_pos hagain]
              by_cases hspent : tout - 1 < 0
              · rw [if_pos hspent]
                exact hstop
              · rw [if_neg hspent]
                obtain ⟨hnn, hle, hacc, hcalls⟩ :=
                  ih (tout - 1) length sent (by omega) hlen hsum
                refine ⟨hnn, hle, hacc, ?_⟩
                simp only [SendallOut.after]
                omega
            · rw [if_neg hagain]
              exact hstop
        · simp only [if_neg hshot]
          have hfit := o.result_le length
          obtain ⟨hnn, hle, hacc, hcalls⟩ :=
            ih tout (length - o.result length) (sent + (o.result length).toNat)
              htout (by omega) (by omega)
          refine ⟨hnn, by simp only [SendallOut.after]; omega, ?_, ?_⟩
          · simp only [SendallOut.after]
            rw [hacc, ← List.drop_drop, ← List.take_add]
            congr 1
            omega
          · simp only [SendallOut.after]
            omega

theorem sendallLoop_cons (o : SendOut) (outs : List SendOut) (tout : Int)
    (b : Byte) (bs : List Byte) :
    sendallLoop (o :: outs) tout (b :: bs) =
      if o.shot ≤ 0 then
        if o.errno = eagain then
          if tout - 1 < 0 then b :: bs else sendallLoop outs (tout - 1) (b :: bs)
        else b :: bs
      else sendallLoop outs tout ((b :: bs).drop o.shot.toNat) := rfl

/-- The loop with counters returns the length of what `sendall` leaves. -/
theorem sendallTurns_ret (buff : List Byte) (outs : List SendOut) :
    ∀ (tout : Int) (length sent : Nat), sent + length = buff.length →
      (sendallTurns buff outs tout length sent).ret =
        (sendallLoop outs tout (buff.drop sent)).length := by
  induction outs with
  | nil =>
      intro tout length sent hsum
      have hleft : (buff.drop sent).length = length := by
        rw [List.length_drop]
        omega
      rw [sendallLoop_nil, hleft, sendallTurns]
      split <;> rfl
  | cons o outs ih =>
      intro tout length sent hsum
      have hleft : (buff.drop sent).length = length := by
        rw [List.length_drop]
        omega
      unfold sendallTurns
      cases hrest : buff.drop sent with
      | nil =>
          rw [hrest] at hleft
          subst hleft
          simp [sendallLoop]
      | cons b bs =>
          have hpos : ¬(length : Int) ≤ 0 := by
            rw [← hleft, hrest, List.length_cons]
            omega
          rw [if_neg hpos, sendallLoop_cons, ← hrest]
          have hiff := o.result_nonpos_iff (Int.not_le.mp hpos)
          by_cases hshot : o.shot ≤ 0
          · have hresult := hiff.mpr hshot
            simp only [if_pos hshot, if_pos hresult]
            by_cases hagain : o.errno = eagain
            · have herr : ¬o.errno = 0 := by
                rw [hagain]
                decide
              rw [if_neg herr, if_pos hagain, if_pos hagain]
              by_cases hspent : tout - 1 < 0
              · rw [if_pos hspent, if_pos hspent, hleft]
              · rw [if_neg hspent, if_neg hspent]
                exact ih (tout - 1) length sent hsum
            · rw [if_neg hagain, if_neg hagain, hleft, ite_self]
          · have hresult : ¬o.result length ≤ 0 := fun h => hshot (hiff.mp h)
            have hle := o.result_le length
            simp only [if_neg hshot, if_neg hresult]
            have hshort : (length : Int) - o.result length =
                (length - (o.result length).toNat : Nat) := by
              omega
            rw [hshort, o.drop_shot, hleft, List.drop_drop]
            apply ih
            omega

/-- With the default time-out the loop returns the length of what `sendall`
leaves. -/
theorem sendallRun_ret (buff : List Byte) (outs : List SendOut) :
    (sendallRun buff 8000 outs).ret = (sendall buff outs).length :=
  sendallTurns_ret buff outs _ buff.length 0 (by omega)

/-! ## Receiving -/

/-- A `receive` that brings something brings as many bytes as it says. -/
theorem receive_length {n : Nat} {sock : List RecvOut}
    (h : 0 < (receive n sock).1) :
    (receive n sock).1.toNat = (receive n sock).2.1.length := by
  cases sock with
  | nil => exact absurd h (by simp [receive])
  | cons o rest =>
      cases o with
      | again => exact absurd h (by simp [receive])
      | error => exact absurd h (by simp [receive])
      | data bs =>
          by_cases hfit : bs.length ≤ n
          · simp only [receive, if_pos hfit, Int.toNat_natCast]
          · simp only [receive, if_neg hfit, Int.toNat_natCast,
              List.length_take]
            omega

/-- Turns from the middle of a `receiveall`: the bytes the socket delivers are
stored behind those stored before. -/
theorem receiveallTurns_spec (n got : Nat) (mem : List Byte)
    (sock : List RecvOut) (hroom : got + n ≤ mem.length) :
    let r := receiveallTurns n got mem sock
    let bs := (delivered sock).take n
    r.ret = got + bs.length ∧ r.mem = storeAt mem got bs ∧ r.calls ≤ n := by
  induction n, got, mem, sock using receiveallTurns.induct with
  | case1 got mem sock =>
      unfold receiveallTurns
      simp [storeAt_nil]
  | case2 n got mem sock hne r hshot =>
      have hend : (receive n sock).1 ≤ 0 := hshot
      rcases receive_cases n (by omega) sock with ⟨_, hnone⟩ | ⟨hpos, _⟩
      · unfold receiveallTurns
        rw [if_neg hne]
        simp only [if_pos hend, hnone, List.take_nil, storeAt_nil,
          List.length_nil]
        exact ⟨rfl, trivial, Nat.pos_of_ne_zero hne⟩
      · exact absurd hpos (by omega)
  | case3 n got mem sock hne r hshot ih =>
      rcases receive_cases n (by omega) sock with
        ⟨hnone, _⟩ | ⟨hpos, hfit, hbytes, hdel⟩
      · exact absurd hnone hshot
      · have hlen : r.1.toNat = r.2.1.length := receive_length hpos
        have hsome : 0 < r.2.1.length := List.length_pos_of_ne_nil hbytes
        have hfits : r.2.1.length ≤ n := hfit
        have hfull : (storeAt mem got r.2.1).length = mem.length :=
          length_storeAt (by omega)
        rw [hlen] at ih
        obtain ⟨hret, hmem, hcalls⟩ := ih (by rw [hfull]; omega)
        have htake : (delivered sock).take n =
            r.2.1 ++ (delivered r.2.2).take (n - r.2.1.length) := by
          rw [hdel, List.take_append, List.take_of_length_le hfits]
        have hturn : receiveallTurns n got mem sock =
            { receiveallTurns (n - r.2.1.length) (got + r.2.1.length)
                (storeAt mem got r.2.1) r.2.2 with
              calls := (receiveallTurns (n - r.2.1.length)
                (got + r.2.1.length) (storeAt mem got r.2.1) r.2.2).calls + 1 } := by
          rw [receiveallTurns, if_neg hne]
          simp only [if_neg (show ¬(receive n sock).1 ≤ 0 from hshot)]
          rw [← hlen]
        rw [hturn, htake]
        refine ⟨?_, ?_, ?_⟩
        · rw [hret, List.length_append, Nat.add_assoc]
        · rw [hmem, storeAt_storeAt _ _ (by omega)]
        · show _ + 1 ≤ n
          omega

/-- The memory gets the bytes `receiveall` returns. -/
theorem receiveallRun_bytes (n : Nat) (mem : List Byte) (sock : List RecvOut)
    (hroom : n ≤ mem.length) :
    (receiveallRun n mem sock).ret = (receiveall n sock).1.length ∧
      (receiveallRun n mem sock).mem = storeAt mem 0 (receiveall n sock).1 := by
  obtain ⟨hret, hmem, _⟩ := receiveallTurns_spec n 0 mem sock (by omega)
  rw [receiveall_bytes]
  rw [Nat.zero_add] at hret
  exact ⟨hret, hmem⟩

/-! ## Both calls -/

/-- `sendall` hands the front of the buffer to the socket, and says how much is
left. -/
structure SendsExactly (buff : List Byte) (tout : Nat) (outs : List SendOut) :
    Prop where
  calls : (sendallRun buff tout outs).calls ≤ buff.length + tout / 10 + 2
  nonneg : 0 ≤ (sendallRun buff tout outs).ret
  le : (sendallRun buff tout outs).ret ≤ buff.length
  accepted : (sendallRun buff tout outs).accepted =
    buff.take (buff.length - (sendallRun buff tout outs).ret).toNat

/-- `receiveall` stores what the socket delivers, and nothing else. -/
structure ReceivesExactly (length : Nat) (mem : List Byte)
    (sock : List RecvOut) : Prop where
  calls : (receiveallRun length mem sock).calls ≤ length
  le : (receiveallRun length mem sock).ret ≤ length
  ret : (receiveallRun length mem sock).ret =
    min length (delivered sock).length
  stored : (receiveallRun length mem sock).mem =
    (delivered sock).take length ++
      mem.drop (receiveallRun length mem sock).ret

theorem sendsExactly (buff : List Byte) (tout : Nat) (outs : List SendOut) :
    SendsExactly buff tout outs := by
  obtain ⟨hnn, hle, hacc, hcalls⟩ :=
    sendallTurns_spec buff outs ((tout / 10 : Nat) + 1) buff.length 0 (by omega)
      (by omega) (by omega)
  refine ⟨?_, hnn, hle, ?_⟩
  · have hbound : ((sendallRun buff tout outs).calls : Int) ≤
        buff.length + ((tout / 10 : Nat) + 1) + 1 := hcalls
    omega
  · rw [List.drop_zero] at hacc
    exact hacc

theorem receivesExactly (length : Nat) (mem : List Byte) (sock : List RecvOut)
    (hroom : length ≤ mem.length) : ReceivesExactly length mem sock := by
  obtain ⟨hret, hmem, hcalls⟩ :=
    receiveallTurns_spec length 0 mem sock (by omega)
  rw [Nat.zero_add] at hret
  have hlen : (receiveallRun length mem sock).ret =
      min length (delivered sock).length := by
    rw [← List.length_take]
    exact hret
  refine ⟨hcalls, ?_, hlen, ?_⟩
  · rw [hlen]
    exact Nat.min_le_left _ _
  · rw [receiveallRun, hmem, hret, storeAt, List.take_zero, List.nil_append,
      Nat.zero_add]

/-- `sendall` and `receiveall` come to an end and lose nothing.  When both did
all of their work and the stream carries the sender's bytes, perhaps followed by
others, the buffer that was filled is the one that was sent. -/
theorem transfer_lossless (buff : List Byte) (tout : Nat) (outs : List SendOut)
    (length : Nat) (mem : List Byte) (sock : List RecvOut)
    (hroom : length ≤ mem.length) :
    SendsExactly buff tout outs ∧ ReceivesExactly length mem sock ∧
      ∀ more, delivered sock <+: (sendallRun buff tout outs).accepted ++ more →
        (sendallRun buff tout outs).ret = 0 → length = buff.length →
        (receiveallRun length mem sock).ret = length →
        (receiveallRun length mem sock).mem.take length = buff := by
  have hsend := sendsExactly buff tout outs
  have hrecv := receivesExactly length mem sock hroom
  refine ⟨hsend, hrecv, ?_⟩
  intro more hstream hall hlen hgot
  have hfull : length ≤ (delivered sock).length := by
    have hret := hrecv.ret
    omega
  have hacc : (sendallRun buff tout outs).accepted = buff := by
    rw [hsend.accepted, hall, Int.sub_zero, Int.toNat_natCast, List.take_length]
  have hbytes : (delivered sock).take length = buff := by
    obtain ⟨rest, hrest⟩ := hstream
    rw [hacc] at hrest
    have htake := congrArg (List.take length) hrest
    rwa [List.take_append_of_le_length hfull, hlen, List.take_left,
      ← hlen] at htake
  have hfits : ((delivered sock).take length).length = length := by
    rw [List.length_take]
    omega
  rw [hrecv.stored, List.take_left' hfits]
  exact hbytes

/-- Three bytes sent in two parts with a retry between them, and received in two
other parts. -/
theorem transfer_lossless_two_parts :
    (receiveallRun 3 [0, 0, 0, 9] [.data [1], .data [2, 3, 4]]).mem.take 3 =
      [1, 2, 3] :=
  (transfer_lossless [1, 2, 3] 8000 [⟨2, 0⟩, ⟨-1, eagain⟩, ⟨5, 0⟩] 3 [0, 0, 0, 9]
    [.data [1], .data [2, 3, 4]] (by decide)).2.2 [4]
    (by decide) (by decide) rfl
    (by rw [(receivesExactly 3 [0, 0, 0, 9] _ (by decide)).ret]; decide)

end RoomSpeaker
