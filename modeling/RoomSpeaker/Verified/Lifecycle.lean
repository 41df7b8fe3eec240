import RoomSpeaker.Verified.Joining
import RoomSpeaker.Verified.Reconnecting

/-!
# Whom the client connects to

`main` hands the addresses that were joined to the network thread, which goes over
them for as long as the program runs.

## Main results

* `aims_of_ips` — a connection is aimed at one of the addresses of the program.
* `connects_to_found` — and so, whatever the network did, at an interface that a
  server had found.
-/

namespace RoomSpeaker

open Foundation

namespace CliMain

/-- `_remote_sin` when `::connect` is called, if it is in this step. -/
def aims (s : CliMain) : CliMainOp → List (BitVec 32)
  | .tmain i =>
      match s.pc with
      | .trying (ip :: _) =>
          if 0 ≤ i.attempt.fd then [(s.conn.aimed ip i.attempt).sock.remote] else []
      | _ => []
  | _ => []

/-- The program keeps its addresses, and tries no other. -/
structure Tries (ips : List Text) (s : CliMain) : Prop where
  kept : s.ips = ips
  left : ∀ l, s.pc = .trying l → l ⊆ ips

theorem ips_whileOpen (s : CliMain) : s.whileOpen.ips = s.ips := by
  unfold whileOpen
  split <;> rfl

theorem pc_whileOpen (s : CliMain) : s.whileOpen.pc = s.pc ∨ s.whileOpen.pc = .tail := by
  unfold whileOpen
  split
  · exact Or.inr rfl
  · exact Or.inl rfl

/-- Where a step leads that does not come from the list of addresses. -/
theorem Tries.of_pc {ips : List Text} {s t : CliMain} (h : s.Tries ips)
    (hips : t.ips = s.ips) (hpc : ∀ l, t.pc = .trying l → l = ips ∨ s.pc = .trying l) :
    t.Tries ips where
  kept := hips.trans h.kept
  left := by
    intro l hl
    rcases hpc l hl with rfl | hold
    · exact List.Subset.refl l
    · exact h.left l hold

theorem tries_tmainStep {ips : List Text} {s : CliMain} (h : s.Tries ips)
    (i : TmainIn) : (s.tmainStep i).1.Tries ips := by
  unfold tmainStep
  cases hpc : s.pc with
  | head =>
      simp only
      split
      · refine h.of_pc rfl fun l hl => Or.inl ?_
        simp only at hl
        split at hl
        · exact (TmainPc.trying.inj hl).symm.trans h.kept
        · cases hl
      · exact h.of_pc rfl fun l hl => absurd hl (by simp)
  | trying l =>
      cases l with
      | nil => exact h.of_pc rfl fun l hl => absurd hl (by simp)
      | cons ip l =>
          simp only
          split
          · exact h.of_pc rfl fun l hl => absurd hl (by simp)
          · refine ⟨h.kept, fun l' hl' => ?_⟩
            obtain rfl := TmainPc.trying.inj hl'
            exact fun t ht => h.left _ hpc (List.mem_cons_of_mem ip ht)
  | use =>
      refine h.of_pc (ips_whileOpen _) fun l hl => ?_
      rcases pc_whileOpen { s with
        spk := { s.spk with net := .loop }
        conn := s.conn.setBlocking true
        pc := .getData } with hsame | htail
      · exact absurd (hsame.symm.trans hl) (by simp)
      · exact absurd (htail.symm.trans hl) (by simp)
  | getData =>
      simp only [dataStep]
      split
      · exact h.of_pc rfl fun l hl => absurd hl (by simp)
      · refine h.of_pc (ips_whileOpen _) fun l hl => ?_
        rcases pc_whileOpen { s with
          spk := s.spk.netStep ⟨false, i.ready, i.stream⟩ } with hsame | htail
        · exact absurd ((hsame.trans hpc).symm.trans hl) (by simp)
        · exact absurd (htail.symm.trans hl) (by simp)
  | tail => exact h.of_pc rfl fun l hl => absurd hl (by simp)
  | ended => exact h.of_pc rfl fun l hl => absurd (hpc.symm.trans hl) (by simp)

theorem tries_step {ips : List Text} {s : CliMain} (h : s.Tries ips) (op : CliMainOp) :
    (s.step op).Tries ips := by
  cases op with
  | tmain i => exact tries_tmainStep h i
  | play => exact ⟨h.kept, h.left⟩
  | quit => exact ⟨h.kept, h.left⟩

end CliMain

/-- Every connection is aimed at one of the addresses. -/
theorem aims_of_ips {ips : List Text} {s : CliMain} (h : s.Tries ips)
    (op : CliMainOp) {w : BitVec 32} (hw : w ∈ s.aims op) :
    ∃ t ∈ ips, ∃ k : CliSock, w = (k.aim t).remote := by
  cases op with
  | tmain i =>
      rw [CliMain.aims] at hw
      split at hw
      · next hpc =>
          split at hw
          · rw [List.mem_singleton.mp hw]
            exact ⟨_, h.left _ hpc List.mem_cons_self, (s.conn.opened i.attempt).sock, rfl⟩
          · cases hw
      · cases hw
  | play => cases hw
  | quit => cases hw

/--
**The client connects to servers only.**

Whatever the network did to the search, and however the connections go afterwards:
every connection that is tried in a run of the program is aimed at the address of an
interface that a server had found.
-/
theorem connects_to_found (lan : List LanOp)
    (hfair : Along Lan.step Lan.Fair Lan.init lan) (ips : List Text)
    (hips : ∀ t ∈ ips, t ∈ (run Lan.step Lan.init lan).join.ipis) (n sz : Nat)
    (tick : BitVec 64) (time : Int) (ops : List CliMainOp) :
    ∀ w ∈ trace CliMain.step CliMain.aims (CliMain.init ips n sz tick time) ops,
      ∃ x ∈ trace Lan.step Lan.found Lan.init lan, ∃ y, x.addr = some y ∧
        x.name.chars.take 2 ≠ ['l', 'o'].map ch ∧ w = word y.a y.b y.c y.d := by
  intro w hw
  obtain ⟨before, op, after, _, hmem⟩ := of_mem_trace ops _ hw
  have hinit : (CliMain.init ips n sz tick time).Tries ips :=
    ⟨rfl, fun l hl => absurd hl (by simp [CliMain.init])⟩
  have hthen : (run CliMain.step (CliMain.init ips n sz tick time) before).Tries ips :=
    (throughout_of_inv (I := CliMain.Tries ips)
      (fun s op h => CliMain.tries_step h op) (fun _ h => h) before _ hinit).last
  obtain ⟨t, ht, k, rfl⟩ := aims_of_ips hthen op hmem
  obtain ⟨x, hx, hname, y, hy, htext⟩ := (Lan.inv_run hfair).answers (hips t ht)
  refine ⟨x, hx, y, hy, hname, ?_⟩
  rw [htext, remote_aim_dotted]

/-- The server that was heard is connected, and lost. -/
theorem connects_to_one_server :
    trace CliMain.step CliMain.aims (CliMain.init [dottedText 10 0 0 1] 1 4 0 0)
      lostOnce = [word 10 0 0 1] ∧
    ∀ w ∈ trace CliMain.step CliMain.aims
      (CliMain.init [dottedText 10 0 0 1] 1 4 0 0) lostOnce,
      ∃ x ∈ trace Lan.step Lan.found Lan.init oneServer, ∃ y, x.addr = some y ∧
        x.name.chars.take 2 ≠ ['l', 'o'].map ch ∧ w = word y.a y.b y.c y.d :=
  ⟨by decide +kernel, connects_to_found oneServer
    ⟨⟨by decide, by decide⟩, trivial, by
      show ∀ d ∈ _, _
      decide +kernel, trivial⟩ [dottedText 10 0 0 1] (by decide +kernel) 1 4 0 0
    lostOnce⟩

end RoomSpeaker
