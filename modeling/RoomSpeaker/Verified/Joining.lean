import RoomSpeaker.Foundation.History
import RoomSpeaker.Model.Connect
import RoomSpeaker.Verified.Beacon

/-!
# From an interface to a connection

On a network that delivers only what servers sent, in any order and any number of
times, the client collects the addresses of the replies it looks at and nothing
else, and a connection to one of them is aimed at an interface that a server had
found.

A reply is a host name, a colon and an address, and an address has no colon.  So no
reply is taken for an address that is known, and every one of them is taken apart.

## Main results

* `replies_heard` — what a call of `discover` makes of replies.
* `joins_real_addresses` — what the client has collected, in every run.
-/

namespace RoomSpeaker

open Foundation

/-! ## Replies -/

/-- The reply of a host to this address. -/
def IsReply (d : List Byte) (t : Text) : Prop :=
  ∃ hostname : Text, ch ':' ∉ hostname.chars ∧ hostname.length ≤ 64 ∧
    d = (replyText hostname t).chars

/-- The text of an address. -/
def IsAddr (t : Text) : Prop := ∃ a b c d, t = dottedText a b c d

theorem IfAddr.AnswersAs.isAddr {x : IfAddr} {t : Text} (h : x.AnswersAs t) :
    IsAddr t :=
  let ⟨_, y, _, ht⟩ := h
  ⟨y.a, y.b, y.c, y.d, ht⟩

theorem IsAddr.length_le {t : Text} (h : IsAddr t) : t.length ≤ 15 := by
  obtain ⟨a, b, c, d, rfl⟩ := h
  exact length_dotted_le a b c d

/-- No reply is an address. -/
theorem IsAddr.ne_replyText {t : Text} (h : IsAddr t) (hostname ip : Text) :
    replyText hostname ip ≠ t := by
  rintro rfl
  obtain ⟨a, b, c, d, heq⟩ := h
  have hcolon : ch ':' ∈ (replyText hostname ip).chars := by
    rw [chars_replyText]
    simp
  rw [heq] at hcolon
  exact notMem_dotted a b c d (x := ch ':') (by decide) (by decide) (by decide) hcolon

/-- Where only addresses are known, the address of a reply is inserted. -/
theorem inserted_of_isReply {r : Heard} {t : Text} (hknown : ∀ s ∈ r.remips, IsAddr s)
    (hd : IsReply r.dgram t) (ht : IsAddr t) : r.inserted = some t := by
  obtain ⟨hostname, hcolon, hhost, hdgram⟩ := hd
  have hnew : replyText hostname t ∉ r.remips := fun hmem =>
    (hknown _ hmem).ne_replyText hostname t rfl
  exact r.inserted_reply hcolon (length_replyText_le hhost ht.length_le) hdgram hnew

/-! ## A call of `discover` -/

/-- The datagrams among the turns. -/
def DiscTurn.dgrams : DiscTurn → List (List Byte)
  | .received dgram _ => [dgram]
  | _ => []

/-- What is looked at has been received. -/
theorem dgram_of_heard (ts : List DiscTurn) :
    ∀ remips, ∀ r ∈ (discoverLoop remips ts).1,
      r.dgram ≠ [] ∧ r.dgram ∈ ts.flatMap DiscTurn.dgrams := by
  induction ts with
  | nil => intro remips r hr; cases hr
  | cons e ts ih =>
      intro remips r hr
      cases e with
      | broken => cases hr
      | quiet => exact ih remips r hr
      | received dgram rest =>
          rw [List.flatMap_cons]
          by_cases hempty : dgram = []
          · simp only [discoverLoop, if_pos hempty] at hr
            exact ⟨(ih remips r hr).1, List.mem_append_right _ (ih remips r hr).2⟩
          · simp only [discoverLoop, if_neg hempty] at hr
            rcases List.mem_cons.mp hr with rfl | hr
            · exact ⟨hempty, List.mem_append_left _ (List.mem_singleton_self dgram)⟩
            · exact ⟨(ih _ r hr).1, List.mem_append_right _ (ih _ r hr).2⟩

/-- If only replies are received and only addresses known, each datagram that is
looked at gives its address. -/
theorem replies_heard (ts : List DiscTurn)
    (hts : ∀ d ∈ ts.flatMap DiscTurn.dgrams, d = [] ∨ ∃ t, IsReply d t ∧ IsAddr t) :
    ∀ remips : Finset Text, (∀ s ∈ remips, IsAddr s) →
      ∀ r ∈ (discoverLoop remips ts).1,
        ∃ t, IsReply r.dgram t ∧ IsAddr t ∧ r.inserted = some t ∧
          ∀ s, IsReply r.dgram s → IsAddr s → s = t := by
  induction ts with
  | nil => intro remips _ r hr; cases hr
  | cons e ts ih =>
      intro remips hknown r hr
      rw [List.flatMap_cons] at hts
      have hrest := ih fun d hd => hts d (List.mem_append_right _ hd)
      cases e with
      | broken => cases hr
      | quiet => exact hrest remips hknown r hr
      | received dgram rest =>
          by_cases hempty : dgram = []
          · simp only [discoverLoop, if_pos hempty] at hr
            exact hrest remips hknown r hr
          · obtain ⟨t, hreply, ht⟩ := (hts dgram
              (List.mem_append_left _ (List.mem_singleton_self dgram))).resolve_left hempty
            let first : Heard := ⟨remips, dgram, rest⟩
            have hins : first.inserted = some t := inserted_of_isReply hknown hreply ht
            simp only [discoverLoop, if_neg hempty] at hr
            rcases List.mem_cons.mp hr with rfl | hr
            · refine ⟨t, hreply, ht, hins, fun s hs haddr => ?_⟩
              have hsame : first.inserted = some s := inserted_of_isReply hknown hs haddr
              exact Option.some.inj (hsame.symm.trans hins)
            · refine hrest first.next (fun s hs => ?_) r hr
              rcases (mem_next first s).mp hs with hold | hnew
              · exact hknown s hold
              · exact Option.some.inj (hins.symm.trans hnew) ▸ ht

/-- What a call adds to the addresses. -/
theorem mem_discover_replies {turns : List DiscTurn} {remips : Finset Text}
    (hts : ∀ d ∈ turns.flatMap DiscTurn.dgrams, d = [] ∨ ∃ t, IsReply d t ∧ IsAddr t)
    (hknown : ∀ s ∈ remips, IsAddr s) (t : Text) :
    t ∈ (discover remips turns).2 ↔ t ∈ remips ∨
      ∃ d ∈ (discover remips turns).1.map Heard.dgram, IsReply d t ∧ IsAddr t := by
  have htake : ∀ d ∈ (turns.take 64).flatMap DiscTurn.dgrams,
      d = [] ∨ ∃ t, IsReply d t ∧ IsAddr t := by
    intro d hd
    obtain ⟨e, he, hd⟩ := List.mem_flatMap.mp hd
    exact hts d (List.mem_flatMap.mpr ⟨e, List.mem_of_mem_take he, hd⟩)
  have hheard := replies_heard (turns.take 64) htake remips hknown
  rw [mem_discover]
  refine or_congr_right ?_
  constructor
  · rintro ⟨r, hr, hins⟩
    obtain ⟨u, hreply, haddr, hu, _⟩ := hheard r hr
    obtain rfl : u = t := Option.some.inj (hu.symm.trans hins)
    exact ⟨r.dgram, List.mem_map_of_mem hr, hreply, haddr⟩
  · rintro ⟨d, hd, hreply, haddr⟩
    obtain ⟨r, hr, rfl⟩ := List.mem_map.mp hd
    obtain ⟨u, _, _, hu, honly⟩ := hheard r hr
    exact ⟨r, hr, honly t hreply haddr ▸ hu⟩

/-! ## The client -/

namespace Join

@[simp] theorem ipis_next (s : Join) : s.next.ipis = s.ipis := by
  unfold next
  split <;> rfl

@[simp] theorem udps_next (s : Join) : s.next.udps = s.udps := by
  unfold next
  split <;> rfl

/-- The addresses are collected, and nothing else. -/
structure Collects (s : Join) (heard : List (List Byte)) : Prop where
  ipis : ∀ t, t ∈ s.ipis ↔ ∃ d ∈ heard, IsReply d t ∧ IsAddr t
  remips : ∀ u ∈ s.udps, u.remips ⊆ s.ipis

theorem remips_new (iface : Text) : (Udper.new iface).remips = ∅ := by
  unfold Udper.new
  split <;> rfl

theorem Collects.start {s : Join} {heard : List (List Byte)} (h : s.Collects heard)
    (ifaddrs : List IfAddr) : (s.start ifaddrs).Collects heard := by
  unfold Join.start
  split
  · refine ⟨h.ipis, fun u hu => ?_⟩
    obtain ⟨iface, _, rfl⟩ := List.mem_map.mp hu
    rw [remips_new]
    exact Finset.empty_subset _
  · exact h

/-- What `q_consume` copies, if it is called. -/
theorem mem_consumed (ipis remips : Finset Text) (t : Text) :
    t ∈ (if 0 < remips.card then ipis ∪ remips else ipis) ↔ t ∈ ipis ∨ t ∈ remips := by
  split
  · exact Finset.mem_union
  · next hcard =>
      rw [Finset.card_pos, Finset.not_nonempty_iff_eq_empty] at hcard
      simp [hcard]

/-- A call that receives only replies collects those it looks at. -/
theorem Collects.call {s : Join} {heard : List (List Byte)} (h : s.Collects heard)
    {c : DiscCall} (hc : ∀ d ∈ c.turns.flatMap DiscTurn.dgrams,
      d = [] ∨ ∃ t, IsReply d t ∧ IsAddr t) :
    (s.call c).Collects (heard ++ s.hears c) := by
  unfold Join.call Join.hears
  cases hu : s.udps[s.u]? with
  | none => simpa only [List.append_nil] using h
  | some pu =>
      by_cases hk : s.k < 4
      · cases hopened : c.opened with
        | false =>
            simp only [if_pos hk, Bool.false_eq_true, and_false, if_false,
              List.append_nil]
            exact ⟨by simpa using h.ipis, by simpa using h.remips⟩
        | true =>
            have hpu : pu.remips ⊆ s.ipis := h.remips pu (List.mem_of_getElem? hu)
            have hmem := mem_discover_replies hc fun t ht =>
              have ⟨_, _, _, haddr⟩ := (h.ipis t).mp (hpu ht)
              haddr
            simp only [if_pos hk, if_true, and_true]
            constructor
            · intro t
              rw [ipis_next, mem_consumed, hmem, h.ipis]
              simp only [List.mem_append, or_and_right, exists_or]
              constructor
              · rintro (hold | hin | hnew)
                · exact Or.inl hold
                · exact Or.inl ((h.ipis t).mp (hpu hin))
                · exact Or.inr hnew
              · rintro (hold | hnew)
                · exact Or.inl hold
                · exact Or.inr (Or.inr hnew)
            · intro u hmemu t ht
              rw [ipis_next, mem_consumed]
              rw [udps_next] at hmemu
              rcases List.mem_or_eq_of_mem_set hmemu with hold | rfl
              · exact Or.inl (h.remips u hold ht)
              · exact Or.inr ht
      · simp only [if_neg hk]
        rwa [if_neg fun hboth => hk hboth.1, List.append_nil]

/-- What a call looks at it has received. -/
theorem mem_hears {s : Join} {c : DiscCall} {d : List Byte} (h : d ∈ s.hears c) :
    d ≠ [] ∧ d ∈ c.turns.flatMap DiscTurn.dgrams := by
  unfold Join.hears at h
  split at h
  · next pu _ =>
      split at h
      · obtain ⟨r, hr, rfl⟩ := List.mem_map.mp h
        obtain ⟨hne, hd⟩ := dgram_of_heard (c.turns.take 64) pu.remips r hr
        obtain ⟨e, he, hd⟩ := List.mem_flatMap.mp hd
        exact ⟨hne, List.mem_flatMap.mpr ⟨e, List.mem_of_mem_take he, hd⟩⟩
      · cases h
  · cases h

end Join

/-! ## Runs of the network -/

namespace Lan

/-- Host names are such, and the client receives only what was sent. -/
def Fair (s : Lan) : LanOp → Prop
  | .server _ i => ch ':' ∉ i.hostname.chars ∧ i.hostname.length ≤ 64
  | .start _ => True
  | .call c => ∀ d ∈ c.turns.flatMap DiscTurn.dgrams, d = [] ∨ d ∈ s.sent

/-- The interfaces a server finds in this step, if it looks and the look counts. -/
def found (s : Lan) : LanOp → List IfAddr
  | .server k i =>
      if (s.servers k).due = true ∧ i.mtime ≠ (s.servers k).prev then i.ifaddrs else []
  | _ => []

/-- The datagrams the client looks at in this step. -/
def heard (s : Lan) : LanOp → List (List Byte)
  | .call c => s.join.hears c
  | _ => []

/-- What is true of the network after these interfaces were found and these datagrams
looked at. -/
structure Inv (s : Lan) (ifs : List IfAddr) (ds : List (List Byte)) : Prop where
  servers : ∀ k, ∀ u ∈ (s.servers k).udps, ∃ x ∈ ifs, x.AnswersAs u.ip
  sent : ∀ d ∈ s.sent, ∃ t, IsReply d t ∧ ∃ x ∈ ifs, x.AnswersAs t
  delivered : ∀ d ∈ ds, d ∈ s.sent
  join : s.join.Collects ds

theorem inv_init : Inv init [] [] where
  servers := fun k u hu => by cases hu
  sent := fun d hd => by cases hd
  delivered := fun d hd => by cases hd
  join := ⟨by simp [init, Join.init], fun u hu => by cases hu⟩

variable {s : Lan} {ifs : List IfAddr} {ds : List (List Byte)}

/-- The `Udper`s of a server after its look. -/
theorem Inv.refreshed (h : s.Inv ifs ds) (k : Nat) (i : BeaconIn) :
    ∀ u ∈ ((s.servers k).refresh i).udps,
      ∃ x ∈ ifs ++ s.found (.server k i), x.AnswersAs u.ip := by
  intro u hu
  have hold : u ∈ (s.servers k).udps →
      ∃ x ∈ ifs ++ s.found (.server k i), x.AnswersAs u.ip := fun hmem =>
    have ⟨x, hx, hans⟩ := h.servers k u hmem
    ⟨x, List.mem_append_left _ hx, hans⟩
  unfold Beacon.refresh at hu
  split at hu
  · next hdue =>
      rw [udps_reInterface] at hu
      split at hu
      · next hnew =>
          obtain ⟨x, hx, hans⟩ := (mem_udps i.ifaddrs u.ip).mp ⟨u, hu, rfl⟩
          refine ⟨x, List.mem_append_right _ ?_, hans⟩
          rw [found, if_pos ⟨hdue, hnew⟩]
          exact hx
      · exact hold hu
  · exact hold hu

theorem inv_server (h : s.Inv ifs ds) (k : Nat) (i : BeaconIn)
    (hfair : s.Fair (.server k i)) :
    (s.step (.server k i)).Inv (ifs ++ s.found (.server k i)) ds where
  servers := by
    intro j u hu
    by_cases hj : j = k
    · subst hj
      have hu : u ∈ ((s.servers j).step i).udps := by
        simpa only [step, if_true] using hu
      exact h.refreshed j i u hu
    · have hu : u ∈ (s.servers j).udps := by
        simpa only [step, if_neg hj] using hu
      obtain ⟨x, hx, hans⟩ := h.servers j u hu
      exact ⟨x, List.mem_append_left _ hx, hans⟩
  sent := by
    intro d hd
    rcases List.mem_append.mp hd with hold | hnew
    · obtain ⟨t, ht, x, hx, hans⟩ := h.sent d hold
      exact ⟨t, ht, x, List.mem_append_left _ hx, hans⟩
    · obtain ⟨u, hu, rfl⟩ := mem_replies hnew
      exact ⟨u.ip, ⟨i.hostname, hfair.1, hfair.2, rfl⟩, h.refreshed k i u hu⟩
  delivered := fun d hd => List.mem_append_left _ (h.delivered d hd)
  join := h.join

theorem inv_call (h : s.Inv ifs ds) (c : DiscCall) (hfair : s.Fair (.call c)) :
    (s.step (.call c)).Inv ifs (ds ++ s.heard (.call c)) where
  servers := h.servers
  sent := h.sent
  delivered := by
    intro d hd
    rcases List.mem_append.mp hd with hold | hnew
    · exact h.delivered d hold
    · obtain ⟨hne, hmem⟩ := Join.mem_hears hnew
      exact (hfair d hmem).resolve_left hne
  join := by
    refine h.join.call fun d hd => (hfair d hd).imp_right fun hsent => ?_
    obtain ⟨t, ht, x, _, hans⟩ := h.sent d hsent
    exact ⟨t, ht, hans.isAddr⟩

theorem inv_step (s : Lan) (op : LanOp) (ifs : List IfAddr) (ds : List (List Byte))
    (h : s.Inv ifs ds) (hfair : s.Fair op) :
    (s.step op).Inv (ifs ++ s.found op) (ds ++ s.heard op) := by
  cases op with
  | server k i =>
      rw [show s.heard (.server k i) = [] from rfl, List.append_nil]
      exact inv_server h k i hfair
  | start ifaddrs =>
      rw [show s.heard (.start ifaddrs) = [] from rfl,
        show s.found (.start ifaddrs) = [] from rfl, List.append_nil, List.append_nil]
      exact ⟨h.servers, h.sent, h.delivered, h.join.start ifaddrs⟩
  | call c =>
      rw [show s.found (.call c) = [] from rfl, List.append_nil]
      exact inv_call h c hfair

/-- What is known at the end of a fair run. -/
theorem inv_run {ops : List LanOp} (hfair : Along step Fair init ops) :
    (run step init ops).Inv (trace step found init ops) (trace step heard init ops) :=
  trace_inv_nil (I := Inv) (fun s op ifs ds h hop => inv_step s op ifs ds h hop)
    inv_init hfair

/-- An address that was joined is that of an interface. -/
theorem Inv.answers (h : s.Inv ifs ds) {t : Text} (ht : t ∈ s.join.ipis) :
    ∃ x ∈ ifs, x.AnswersAs t := by
  obtain ⟨d, hd, hreply, haddr⟩ := (h.join.ipis t).mp ht
  obtain ⟨u, hsent, x, hx, hans⟩ := h.sent d (h.delivered d hd)
  -- the reply has one address
  let lone : Heard := ⟨∅, d, []⟩
  have hone : lone.inserted = some t :=
    inserted_of_isReply (fun s hs => absurd hs (Finset.notMem_empty s)) hreply haddr
  have htwo : lone.inserted = some u :=
    inserted_of_isReply (fun s hs => absurd hs (Finset.notMem_empty s)) hsent hans.isAddr
  obtain rfl : u = t := Option.some.inj (htwo.symm.trans hone)
  exact ⟨x, hx, hans⟩

end Lan

/-- `s4connect` aims at the address that was printed. -/
theorem remote_aim_dotted (s : CliSock) (a b c d : Byte) :
    (s.aim (dottedText a b c d)).remote = word a b c d := by
  rw [CliSock.aim, show (dottedText a b c d).chars = dotted a b c d from rfl,
    inetAton_dotted]
  rfl

/--
**The client joins what it hears, and it hears of interfaces.**

In every run of the network, the addresses of the client are those of the replies it
has looked at, in whichever call and however often.  Each is the address of an
interface that a server had found before, and `s4connect` aims at this interface.
-/
theorem joins_real_addresses (ops : List LanOp)
    (hfair : Along Lan.step Lan.Fair Lan.init ops) (t : Text) :
    (t ∈ (run Lan.step Lan.init ops).join.ipis ↔
      ∃ d ∈ trace Lan.step Lan.heard Lan.init ops, IsReply d t ∧ IsAddr t) ∧
    (t ∈ (run Lan.step Lan.init ops).join.ipis →
      ∃ x ∈ trace Lan.step Lan.found Lan.init ops, x.AnswersAs t ∧
        ∃ y, x.addr = some y ∧ ∀ s : CliSock, (s.aim t).remote = word y.a y.b y.c y.d) := by
  have hinv := Lan.inv_run hfair
  refine ⟨hinv.join.ipis t, fun hmem => ?_⟩
  obtain ⟨x, hx, hans⟩ := hinv.answers hmem
  obtain ⟨y, hy, ht⟩ := hans.2
  refine ⟨x, hx, hans, y, hy, fun s => ?_⟩
  rw [ht, remote_aim_dotted]

/-- A server `h` at 10.0.0.1 is asked in its first turn, and the client hears it. -/
def oneServer : List LanOp :=
  [.server 0 ⟨1, [⟨cstr [ch 'e'], some ⟨10, 0, 0, 1⟩⟩], cstr [ch 'h'],
      [some (spkDisc, [])]⟩,
    .start [],
    .call ⟨true, [.received (replyText (cstr [ch 'h']) (dottedText 10 0 0 1)).chars []]⟩]

theorem joins_one_server :
    dottedText 10 0 0 1 ∈ (run Lan.step Lan.init oneServer).join.ipis ∧
    (dottedText 10 0 0 1 ∈ (run Lan.step Lan.init oneServer).join.ipis ↔
      ∃ d ∈ trace Lan.step Lan.heard Lan.init oneServer,
        IsReply d (dottedText 10 0 0 1) ∧ IsAddr (dottedText 10 0 0 1)) ∧
    (dottedText 10 0 0 1 ∈ (run Lan.step Lan.init oneServer).join.ipis →
      ∃ x ∈ trace Lan.step Lan.found Lan.init oneServer,
        x.AnswersAs (dottedText 10 0 0 1) ∧ ∃ y, x.addr = some y ∧
          ∀ s : CliSock, (s.aim (dottedText 10 0 0 1)).remote = word y.a y.b y.c y.d) :=
  ⟨by decide +kernel, joins_real_addresses oneServer
    ⟨⟨by decide, by decide⟩, trivial, by
      show ∀ d ∈ _, _
      decide +kernel, trivial⟩ _⟩

end RoomSpeaker
