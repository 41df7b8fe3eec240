import RoomSpeaker.Model.Sock

/-!
# What the stream loops deliver

However the kernel cuts the stream, `receiveall` stores the next bytes of one
byte string, `delivered`: everything up to the first failure or end of stream.

## Main results

* `receiveall_bytes` — `receiveall` stores the first bytes of what the socket
  delivers.
* `delivered_receiveall` — and when it stored all it was asked for, the socket
  goes on delivering the rest.
* `length_sendall_congr` — how much `sendall` leaves does not depend on the
  bytes.
-/

namespace RoomSpeaker

open Foundation

/-- The bytes a socket delivers before it first fails or ends. -/
def delivered : List RecvOut → List Byte
  | .data (b :: bs) :: rest => b :: bs ++ delivered rest
  | _ => []

@[simp] theorem delivered_nil : delivered [] = [] := rfl

@[simp] theorem delivered_error (rest : List RecvOut) :
    delivered (.error :: rest) = [] := rfl

@[simp] theorem delivered_again (rest : List RecvOut) :
    delivered (.again :: rest) = [] := rfl

theorem delivered_data {bs : List Byte} (h : bs ≠ []) (rest : List RecvOut) :
    delivered (.data bs :: rest) = bs ++ delivered rest := by
  cases bs with
  | nil => exact absurd rfl h
  | cons b bs => rfl

/-- One `receive` with room for at least a byte: either it returns no byte and
the socket had none to deliver, or it returns the next bytes. -/
theorem receive_cases (n : Nat) (hn : 0 < n) (sock : List RecvOut) :
    ((receive n sock).1 ≤ 0 ∧ delivered sock = []) ∨
    (0 < (receive n sock).1 ∧ (receive n sock).2.1.length ≤ n ∧
      (receive n sock).2.1 ≠ [] ∧
      delivered sock =
        (receive n sock).2.1 ++ delivered (receive n sock).2.2) := by
  cases sock with
  | nil => exact Or.inl ⟨Int.le_refl 0, rfl⟩
  | cons o rest =>
      cases o with
      | again => exact Or.inl ⟨by simp [receive], rfl⟩
      | error => exact Or.inl ⟨Int.le_refl 0, rfl⟩
      | data bs =>
          by_cases hbs : bs = []
          · subst hbs
            exact Or.inl ⟨by simp [receive], rfl⟩
          · have hpos : 0 < bs.length := List.length_pos_of_ne_nil hbs
            apply Or.inr
            by_cases hfit : bs.length ≤ n
            · simp only [receive, if_pos hfit]
              exact ⟨by omega, hfit, hbs, delivered_data hbs rest⟩
            · simp only [receive, if_neg hfit]
              have htake : bs.take n ≠ [] := by
                intro hnil
                have hlen := congrArg List.length hnil
                simp only [List.length_take, List.length_nil] at hlen
                omega
              have hdrop : bs.drop n ≠ [] := by
                intro hnil
                have hlen := congrArg List.length hnil
                simp only [List.length_drop, List.length_nil] at hlen
                omega
              refine ⟨by omega, by rw [List.length_take]; omega, htake, ?_⟩
              rw [delivered_data hbs, delivered_data hdrop,
                ← List.append_assoc, List.take_append_drop]

/-- The loop appends the next bytes to those it has; with all of them stored,
the socket goes on with the rest. -/
private theorem receiveallLoop_spec (turns : Nat) :
    ∀ (n : Nat) (got : List Byte) (sock : List RecvOut), n ≤ turns →
      (receiveallLoop turns n got sock).1 = got ++ (delivered sock).take n ∧
      (n ≤ (delivered sock).length →
        delivered (receiveallLoop turns n got sock).2 =
          (delivered sock).drop n) := by
  induction turns with
  | zero =>
      intro n got sock hn
      have hzero : n = 0 := by omega
      subst hzero
      simp [receiveallLoop]
  | succ turns ih =>
      intro n got sock hn
      by_cases hzero : n = 0
      · subst hzero
        simp [receiveallLoop]
      · rcases receive_cases n (by omega) sock with
          ⟨hshot, hnone⟩ | ⟨hshot, hfit, hne, hbytes⟩
        · rw [receiveallLoop, if_neg hzero]
          simp only [if_pos hshot, hnone, List.take_nil, List.append_nil,
            List.length_nil, true_and]
          intro hle
          omega
        · have hpos := List.length_pos_of_ne_nil hne
          obtain ⟨hgot, hrest⟩ := ih (n - (receive n sock).2.1.length)
            (got ++ (receive n sock).2.1) (receive n sock).2.2 (by omega)
          rw [receiveallLoop, if_neg hzero]
          simp only [if_neg (show ¬(receive n sock).1 ≤ 0 by omega)]
          constructor
          · rw [hgot, hbytes, List.take_append, List.take_of_length_le hfit,
              List.append_assoc]
          · intro hle
            rw [hbytes, List.length_append] at hle
            rw [hrest (by omega), hbytes, List.drop_append,
              List.drop_eq_nil_of_le hfit, List.nil_append]

/-- `receiveall` stores the first bytes of what the socket delivers. -/
theorem receiveall_bytes (n : Nat) (sock : List RecvOut) :
    (receiveall n sock).1 = (delivered sock).take n := by
  have h := (receiveallLoop_spec n n [] sock (Nat.le_refl n)).1
  rwa [List.nil_append] at h

/-- After a full `receiveall` the socket goes on delivering the rest. -/
theorem delivered_receiveall (n : Nat) (sock : List RecvOut)
    (h : n ≤ (delivered sock).length) :
    delivered (receiveall n sock).2 = (delivered sock).drop n :=
  (receiveallLoop_spec n n [] sock (Nat.le_refl n)).2 h

theorem length_receiveall (n : Nat) (sock : List RecvOut) :
    (receiveall n sock).1.length = min n (delivered sock).length := by
  rw [receiveall_bytes, List.length_take]

/-- Nothing is received from a socket that delivers nothing. -/
theorem receiveall_eq_nil (n : Nat) (sock : List RecvOut)
    (h : delivered sock = []) : (receiveall n sock).1 = [] := by
  rw [receiveall_bytes, h, List.take_nil]

/-! ## Sending -/

theorem sendallLoop_nil (tout : Int) (buff : List Byte) :
    sendallLoop [] tout buff = buff := by
  cases buff <;> rfl

/-- Nothing is sent on a socket that only fails. -/
@[simp] theorem sendall_nil (buff : List Byte) : sendall buff [] = buff :=
  sendallLoop_nil _ buff

private theorem length_sendallLoop_congr (outs : List SendOut) :
    ∀ (tout : Int) (buff buff' : List Byte), buff.length = buff'.length →
      (sendallLoop outs tout buff).length =
        (sendallLoop outs tout buff').length := by
  induction outs with
  | nil =>
      intro tout buff buff' hlen
      rw [sendallLoop_nil, sendallLoop_nil, hlen]
  | cons o outs ih =>
      intro tout buff buff' hlen
      cases buff with
      | nil =>
          rw [List.eq_nil_of_length_eq_zero hlen.symm]
      | cons b bs =>
          cases buff' with
          | nil => simp at hlen
          | cons b' bs' =>
              simp only [sendallLoop]
              split
              · split
                · split
                  · exact hlen
                  · exact ih _ _ _ hlen
                · exact hlen
              · apply ih
                simp only [List.length_drop, hlen]

/-- How much `sendall` leaves depends on how much it was given, not on the
bytes. -/
theorem length_sendall_congr {buff buff' : List Byte} (outs : List SendOut)
    (h : buff.length = buff'.length) :
    (sendall buff outs).length = (sendall buff' outs).length :=
  length_sendallLoop_congr outs _ buff buff' h

end RoomSpeaker
