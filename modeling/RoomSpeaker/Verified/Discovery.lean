import RoomSpeaker.Model.Udper
import RoomSpeaker.Verified.AddrText

/-!
# What the client finds

The reply of the server is taken apart at its first colon, and what is
remembered is the address (`inserted_reply`).  Of other datagrams a suffix is
remembered, unless the colon is the last byte received: then the string that is
copied starts behind the terminator.

Before a datagram is taken apart it is looked up whole among the addresses.

## Main results

* `mem_discover` — what a call adds is what its datagrams insert.
* `discover_decodes_iff` — when the datagrams of a call are decoded as they
  should be, and nothing else is read.
-/

namespace RoomSpeaker

open Foundation

namespace Heard

/-- What the client should make of a datagram: of a reply its address, of any
other nothing or a suffix, and no byte behind the terminator is read.  The host
name has at most 64 bytes; a dotted address has at most 15. -/
structure Decodes (r : Heard) : Prop where
  reply : ∀ (hostname ip : Text) (request rest : List Byte),
    ch ':' ∉ hostname.chars → hostname.length ≤ 64 → ip.length ≤ 15 →
    listenAndRespond hostname ip request rest = some r.dgram →
    r.next = insert ip r.remips
  suffix : (0 : Byte) ∉ r.dgram → r.dgram.length ≤ udpRecvSize →
    ∀ t, r.inserted = some t → t.chars <:+ r.dgram
  within : (0 : Byte) ∉ r.dgram → r.dgram.length ≤ udpRecvSize →
    ∀ k, r.insertEnd = some k → k ≤ r.dgram.length

/-- A reply is not among the addresses, or its address is there already; and a
datagram whose first colon comes last is among them. -/
structure Decodable (r : Heard) : Prop where
  reply : ∀ hostname ip : Text, ch ':' ∉ hostname.chars →
    hostname.length ≤ 64 → ip.length ≤ 15 →
    r.dgram = (replyText hostname ip).chars →
    replyText hostname ip ∉ r.remips ∨ ip ∈ r.remips
  colon : ∀ t : Text, t.length ≤ udpRecvSize → r.dgram = t.chars →
    (∀ a, ch ':' ∉ a → t.chars ≠ a ++ [ch ':']) ∨ t ∈ r.remips

/-! ## One datagram -/

/-- A datagram that fits and holds no NUL is a stored text. -/
theorem buff_text (r : Heard) (t : Text) (hlen : t.length ≤ udpRecvSize)
    (ht : r.dgram = t.chars) : r.buff = t.chars ++ 0 :: r.rest := by
  rw [buff, udpBuff, ht, List.take_of_length_le hlen]

theorem cstr_buff (r : Heard) (t : Text) (hlen : t.length ≤ udpRecvSize)
    (ht : r.dgram = t.chars) : cstr r.buff = t := by
  rw [r.buff_text t hlen ht, cstr_append_nul]

/-- Where the colon of a datagram is found. -/
theorem pip_eq_some_iff (r : Heard) (t : Text) (hlen : t.length ≤ udpRecvSize)
    (ht : r.dgram = t.chars) (p : Nat) :
    r.pip = some p ↔ t ∉ r.remips ∧
      ∃ a b, t.chars = a ++ ch ':' :: b ∧ ch ':' ∉ a ∧ a.length = p := by
  have hfind := strchr_eq_some_iff r.buff (ch ':') p
  rw [r.cstr_buff t hlen ht] at hfind
  rw [pip, r.cstr_buff t hlen ht, ← hfind]
  by_cases hmem : t ∈ r.remips
  · simp [hmem]
  · simp [hmem]

/-- Unless the colon comes last, the string copied is the rest of the datagram
from the second byte behind it. -/
theorem inserted_inside (r : Heard) (t : Text) (hlen : t.length ≤ udpRecvSize)
    (ht : r.dgram = t.chars) {p : Nat} (hp : p + 2 ≤ t.length) :
    (cstr (r.buff.drop (p + 2))).chars = t.chars.drop (p + 2) := by
  rw [r.buff_text t hlen ht]
  exact cstr_drop_append_nul t r.rest hp

/-- A colon that is not the last byte has a byte behind it to skip. -/
theorem skip_le {t : Text} {a b : List Byte} (ht : t.chars = a ++ ch ':' :: b)
    (hb : b ≠ []) : a.length + 2 ≤ t.length := by
  have hpos := List.length_pos_iff.mpr hb
  rw [Text.length, ht, List.length_append, List.length_cons]
  omega

theorem next_of_mem (r : Heard) (t : Text) (hlen : t.length ≤ udpRecvSize)
    (ht : r.dgram = t.chars) (hmem : t ∈ r.remips) : r.next = r.remips := by
  rw [next, inserted, pip, r.cstr_buff t hlen ht, if_pos hmem]
  rfl

end Heard

/-! ## Replies -/

/-- What is sent back, if anything, is the reply. -/
theorem listenAndRespond_some {hostname ip : Text} {request rest d : List Byte}
    (h : listenAndRespond hostname ip request rest = some d) :
    d = (replyText hostname ip).chars := by
  unfold listenAndRespond at h
  split at h
  · exact (Option.some.inj h).symm
  · cases h

theorem listenAndRespond_spkDisc (hostname ip : Text) :
    listenAndRespond hostname ip spkDisc [] =
      some (replyText hostname ip).chars :=
  if_pos (by decide)

theorem chars_replyText (hostname ip : Text) :
    (replyText hostname ip).chars = hostname.chars ++ ch ':' :: ch ' ' :: ip.chars := by
  simp [replyText, Text.append, replySep]

theorem length_replyText (hostname ip : Text) :
    (replyText hostname ip).length = hostname.length + 2 + ip.length := by
  simp only [Text.length, chars_replyText, List.length_append, List.length_cons]
  omega

/-- A reply fits the client's buffer. -/
theorem length_replyText_le {hostname ip : Text} (hhost : hostname.length ≤ 64)
    (hip : ip.length ≤ 15) : (replyText hostname ip).length ≤ udpRecvSize := by
  rw [length_replyText, udpRecvSize]
  omega

/-- A reply that is taken apart gives the address. -/
theorem Heard.inserted_reply (r : Heard) {hostname ip : Text}
    (hcolon : ch ':' ∉ hostname.chars)
    (hlen : (replyText hostname ip).length ≤ udpRecvSize)
    (ht : r.dgram = (replyText hostname ip).chars)
    (hnew : replyText hostname ip ∉ r.remips) : r.inserted = some ip := by
  have hpip : r.pip = some hostname.length :=
    (r.pip_eq_some_iff _ hlen ht _).mpr
      ⟨hnew, _, _, chars_replyText hostname ip, hcolon, rfl⟩
  have hskip : hostname.length + 2 ≤ (replyText hostname ip).length := by
    rw [length_replyText]
    omega
  rw [Heard.inserted, hpip, Option.map_some]
  congr 1
  apply Text.ext_chars
  rw [r.inserted_inside _ hlen ht hskip, chars_replyText]
  have hhost : hostname.chars.length = hostname.length := rfl
  simp [← hhost]

/-! ## When a datagram is decoded -/

namespace Heard

/-- The colon that is found is not the last byte. -/
theorem Decodable.skip {r : Heard} (h : r.Decodable) (t : Text)
    (hlen : t.length ≤ udpRecvSize) (ht : r.dgram = t.chars) {p : Nat}
    (hp : r.pip = some p) : p + 2 ≤ t.length := by
  obtain ⟨hnew, a, b, hsplit, ha, rfl⟩ := (r.pip_eq_some_iff t hlen ht p).mp hp
  refine skip_le hsplit fun hb => ?_
  subst hb
  rcases h.colon t hlen ht with hinner | hmem
  · exact hinner a ha hsplit
  · exact hnew hmem

theorem Decodable.decodes {r : Heard} (h : r.Decodable) : r.Decodes where
  reply := by
    intro hostname ip request rest hcolon hhost hip hsent
    have ht := listenAndRespond_some hsent
    have hlen := length_replyText_le hhost hip
    by_cases hmem : replyText hostname ip ∈ r.remips
    · have hold := (h.reply hostname ip hcolon hhost hip ht).resolve_left
        (not_not_intro hmem)
      rw [r.next_of_mem _ hlen ht hmem, Finset.insert_eq_of_mem hold]
    · rw [next, r.inserted_reply hcolon hlen ht hmem]
  suffix := by
    intro hnonul hlen t ht
    obtain ⟨p, hp, rfl⟩ := Option.map_eq_some_iff.mp ht
    have hskip := h.skip ⟨r.dgram, hnonul⟩ hlen rfl hp
    rw [r.inserted_inside ⟨r.dgram, hnonul⟩ hlen rfl hskip]
    exact List.drop_suffix _ _
  within := by
    intro hnonul hlen k hk
    obtain ⟨p, hp, rfl⟩ := Option.map_eq_some_iff.mp hk
    have hskip := h.skip ⟨r.dgram, hnonul⟩ hlen rfl hp
    have hlength := r.inserted_inside ⟨r.dgram, hnonul⟩ hlen rfl hskip
    simp only [Text.length, hlength, List.length_drop] at hskip ⊢
    omega

theorem Decodes.decodable {r : Heard} (h : r.Decodes) : r.Decodable where
  reply := by
    intro hostname ip hcolon hhost hip ht
    by_cases hmem : replyText hostname ip ∈ r.remips
    · have hlen := length_replyText_le hhost hip
      have hnext := h.reply hostname ip spkDisc [] hcolon hhost hip
        (ht ▸ listenAndRespond_spkDisc hostname ip)
      rw [r.next_of_mem _ hlen ht hmem] at hnext
      exact Or.inr (hnext ▸ Finset.mem_insert_self ip r.remips)
    · exact Or.inl hmem
  colon := by
    intro t hlen ht
    by_cases hmem : t ∈ r.remips
    · exact Or.inr hmem
    · refine Or.inl fun a ha hlast => ?_
      -- the string copied starts behind the terminator
      have hp : r.pip = some a.length :=
        (r.pip_eq_some_iff t hlen ht _).mpr ⟨hmem, a, [], hlast, ha, rfl⟩
      have hk := h.within (ht ▸ t.nonul) (ht ▸ hlen) _
        (congrArg (Option.map _) hp)
      rw [ht, hlast, List.length_append] at hk
      simp only [List.length_singleton] at hk
      omega

theorem decodes_iff (r : Heard) : r.Decodes ↔ r.Decodable :=
  ⟨Decodes.decodable, Decodable.decodes⟩

/-- A server with a dotted address is remembered under it. -/
theorem Decodable.next_dotted {r : Heard} (h : r.Decodable) {hostname : Text}
    (hcolon : ch ':' ∉ hostname.chars) (hhost : hostname.length ≤ 64)
    (a b c d : Byte) (ht : r.dgram = (replyText hostname (dottedText a b c d)).chars) :
    r.next = insert (dottedText a b c d) r.remips :=
  h.decodes.reply hostname _ spkDisc [] hcolon hhost (length_dotted_le a b c d)
    (ht ▸ listenAndRespond_spkDisc hostname _)

end Heard

/-! ## The call -/

theorem mem_next (r : Heard) (t : Text) :
    t ∈ r.next ↔ t ∈ r.remips ∨ r.inserted = some t := by
  unfold Heard.next
  cases h : r.inserted with
  | none => simp
  | some u =>
      rw [Finset.mem_insert, Option.some.injEq, or_comm, eq_comm]

theorem mem_discoverLoop (remips : Finset Text) (turns : List DiscTurn)
    (t : Text) :
    t ∈ (discoverLoop remips turns).2 ↔
      t ∈ remips ∨ ∃ r ∈ (discoverLoop remips turns).1, r.inserted = some t := by
  induction turns generalizing remips with
  | nil => simp [discoverLoop]
  | cons e turns ih =>
      cases e with
      | broken => simp [discoverLoop]
      | quiet => exact ih remips
      | received dgram rest =>
          by_cases hempty : dgram = []
          · simp only [discoverLoop, if_pos hempty]
            exact ih remips
          · simp only [discoverLoop, if_neg hempty, List.exists_mem_cons_iff]
            rw [ih, mem_next, or_assoc]

/-- What a call adds to the addresses is what its datagrams insert. -/
theorem mem_discover (remips : Finset Text) (turns : List DiscTurn) (t : Text) :
    t ∈ (discover remips turns).2 ↔
      t ∈ remips ∨ ∃ r ∈ (discover remips turns).1, r.inserted = some t :=
  mem_discoverLoop remips (turns.take 64) t

/-- The datagrams of a call are decoded to the server's address and nothing else
is read, exactly when none of them has its first colon at its end or is taken
for an address that is known. -/
theorem discover_decodes_iff (remips : Finset Text) (turns : List DiscTurn) :
    (∀ r ∈ (discover remips turns).1, r.Decodes) ↔
      ∀ r ∈ (discover remips turns).1, r.Decodable :=
  forall₂_congr fun r _ => r.decodes_iff

/-- A datagram that ends with its colon; behind the terminator lies an `x`. -/
theorem discover_reads_behind :
    ¬∀ r ∈ (discover ∅ [.received [ch 'a', ch ':'] [ch 'x', 0]]).1,
      r.Decodes := by
  intro h
  have hdec := h ⟨∅, [ch 'a', ch ':'], [ch 'x', 0]⟩ List.mem_cons_self
  exact absurd (hdec.within (by decide) (by decide) 4 (by decide)) (by decide)

end RoomSpeaker
