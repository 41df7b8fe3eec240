import Mathlib.Data.List.Induction
import RoomSpeaker.Model.Connect

/-!
# Finding a server that accepts

The pass over the addresses stops at the first call of `s4connect` that returns
more than 0.  That it connected is not what such a value means: a writable
socket may have failed, and after a time-out the result of the last `select`
counts.

## Main results

* `connectLoop_eq` — how the wait ends.
* `ret_pos_iff` — when `s4connect` returns more than 0, with any callback.
* `findsServer_iff` — when the pass finds the first server that accepts and takes
  no other address for one.
-/

namespace RoomSpeaker

open Foundation

/-! ## What an attempt comes to -/

/-- What `select` says of the attempt, if it says anything. -/
def ConnectPoll.answer (p : ConnectPoll) : Option Bool :=
  match p.out with
  | .writable accepted => some accepted
  | _ => none

namespace Attempt

/-- The turns the callback grants. -/
def granted (cbCall : Nat → Bool) (a : Attempt) : List ConnectPoll :=
  a.polls.takeWhile fun p => cbCall p.tdiff

/-- The host accepts: at once, or while the callback waits for it. -/
def accepted (cbCall : Nat → Bool) (a : Attempt) : Bool :=
  decide (0 ≤ a.fd) &&
    match a.connect with
    | .done => true
    | .error e =>
        decide (e = einprogress) &&
          decide ((a.granted cbCall).findSome? ConnectPoll.answer = some true)

/-- The attempt fails so that it shows: without a descriptor, in `connect`, or
in a wait in which the socket never was writable and the last `select`, if there
was one, failed. -/
def Dropped (cbCall : Nat → Bool) (a : Attempt) : Prop :=
  a.fd ≤ 0 ∨ ∃ e, a.connect = .error e ∧
    (e = einprogress → (∀ p ∈ a.granted cbCall, p.answer = none) ∧
      ∀ p ∈ (a.granted cbCall).getLast?, p.out = .failed)

end Attempt

/-! ## The wait -/

/-- The result of the last `select`, or what was there before. -/
def lastResult (err : Int) (ps : List ConnectPoll) : Int :=
  ps.foldl (fun _ p => if p.out = .failed then -1 else 0) err

theorem lastResult_iff (ps : List ConnectPoll) :
    lastResult (-1) ps = -1 ↔ ∀ p ∈ ps.getLast?, p.out = .failed := by
  induction ps using List.reverseRecOn with
  | nil => simp [lastResult]
  | append_singleton ps p =>
      rw [lastResult, List.foldl_append, List.getLast?_concat]
      by_cases hp : p.out = .failed
      · simp [hp]
      · simp [hp]

/-- The wait ends with the first answer, or with the last result. -/
theorem connectLoop_eq (cbCall : Nat → Bool) (err : Int) (ps : List ConnectPoll) :
    connectLoop cbCall err ps =
      match (ps.takeWhile fun p => cbCall p.tdiff).findSome? ConnectPoll.answer with
      | some acc => .writable acc
      | none => .refused (lastResult err (ps.takeWhile fun p => cbCall p.tdiff)) := by
  induction ps generalizing err with
  | nil => rfl
  | cons p ps ih =>
      rw [connectLoop, List.takeWhile_cons]
      by_cases hcb : cbCall p.tdiff = true
      · rw [if_pos hcb, if_pos hcb, List.findSome?_cons]
        obtain ⟨tdiff, out⟩ := p
        cases out with
        | timeout => exact ih 0
        | failed => exact ih (-1)
        | writable acc => rfl
      · rw [if_neg hcb, if_neg hcb]
        rfl

/-! ## `s4connect` -/

theorem destroy_thesock (s : CliSock) : s.destroy.thesock ≤ 0 := by
  unfold CliSock.destroy
  split
  · show (-1 : Int) ≤ 0
    omega
  · next h => exact Int.not_lt.mp h

/-- Once there is a descriptor, `connect` decides. -/
theorem s4connect_eq (cbCall : Nat → Bool) (s : CliSock) (sip : Text) (a : Attempt)
    (hfd : 0 ≤ a.fd) :
    ∃ t : CliSock, t.thesock = a.fd ∧ t.peer = none ∧
      s4connect cbCall false s sip a =
        match a.connect with
        | .done => (t.join sip, a.fd)
        | .error e =>
            if e = einprogress then
              match (a.granted cbCall).findSome? ConnectPoll.answer with
              | some acc => (if acc then t.join sip else t, a.fd)
              | none =>
                  if lastResult (-1) (a.granted cbCall) = -1 then (t.destroy, 0)
                  else (t, a.fd)
            else (t.destroy, 0) := by
  let start := if s.thesock ≠ -1 then s.destroy else s
  refine ⟨CliSock.aim { start with thesock := a.fd, peer := none } sip, rfl, rfl, ?_⟩
  rw [s4connect, if_neg (Int.not_lt.mpr hfd), connectLoop_eq, Attempt.granted]
  cases a.connect with
  | done => rfl
  | error e =>
      cases hans : (a.polls.takeWhile fun p => cbCall p.tdiff).findSome?
        ConnectPoll.answer with
      | some acc => rfl
      | none => rfl

/-- An attempt that fails so that it shows returns no descriptor. -/
theorem ret_of_dropped {cbCall : Nat → Bool} (s : CliSock) (sip : Text) {a : Attempt}
    (h : a.Dropped cbCall) : (s4connect cbCall false s sip a).2 ≤ 0 := by
  by_cases hfd : a.fd < 0
  · exact Int.le_of_eq (congrArg Prod.snd (if_pos hfd))
  · obtain ⟨t, _, _, heq⟩ := s4connect_eq cbCall s sip a (Int.not_lt.mp hfd)
    rw [heq]
    rcases h with hle | ⟨e, hconn, hwait⟩
    · cases a.connect with
      | done => exact hle
      | error e =>
          dsimp only
          split
          · split
            · exact hle
            · split
              · exact Int.le_refl 0
              · exact hle
          · exact Int.le_refl 0
    · rw [hconn]
      by_cases he : e = einprogress
      · obtain ⟨hnone, hlast⟩ := hwait he
        have hans := List.findSome?_eq_none_iff.mpr hnone
        have hfailed := (lastResult_iff _).mpr hlast
        simp only [if_pos he, hans, if_pos hfailed]
        exact Int.le_refl 0
      · simp only [if_neg he]
        exact Int.le_refl 0

/-- The socket is connected to the host of this address. -/
def CliSock.ConnectedTo (s : CliSock) (sip : Text) : Prop :=
  0 < s.thesock ∧ s.peer = some sip

/-- The host of this address accepts. -/
def Accepts (cbCall : Nat → Bool) (sip : Text) (a : Attempt) : Prop :=
  (inetAton sip.chars).isSome ∧ a.accepted cbCall = true

/-- Any other attempt returns its descriptor. -/
theorem ret_of_not_dropped {cbCall : Nat → Bool} (s : CliSock) (sip : Text)
    {a : Attempt} (h : ¬a.Dropped cbCall) :
    0 < (s4connect cbCall false s sip a).2 ∧
      (Accepts cbCall sip a →
        (s4connect cbCall false s sip a).1.ConnectedTo sip) := by
  obtain ⟨hle, hconn⟩ := not_or.mp h
  have hfd : 0 < a.fd := Int.not_le.mp hle
  obtain ⟨t, hsock, _, heq⟩ := s4connect_eq cbCall s sip a (Int.le_of_lt hfd)
  have hjoin : (inetAton sip.chars).isSome → (t.join sip).ConnectedTo sip :=
    fun haddr => ⟨hsock ▸ hfd, if_pos haddr⟩
  cases hc : a.connect with
  | done =>
      rw [heq, hc]
      exact ⟨hfd, fun hacc => hjoin hacc.1⟩
  | error e =>
      have hwait : e = einprogress ∧
          ¬((∀ p ∈ a.granted cbCall, p.answer = none) ∧
            ∀ p ∈ (a.granted cbCall).getLast?, p.out = .failed) :=
        Classical.not_imp.mp fun himp => hconn ⟨e, hc, himp⟩
      obtain ⟨he, hnot⟩ := hwait
      rw [heq, hc]
      simp only [if_pos he]
      cases hans : (a.granted cbCall).findSome? ConnectPoll.answer with
      | some acc =>
          refine ⟨hfd, fun hacc => ?_⟩
          have htrue : acc = true := by
            have hgiven := hacc.2
            simp only [Attempt.accepted, hc, hans, Bool.and_eq_true, decide_eq_true_eq,
              Option.some.injEq] at hgiven
            exact hgiven.2.2
          simp only [if_pos htrue]
          exact hjoin hacc.1
      | none =>
          have hlast : lastResult (-1) (a.granted cbCall) ≠ -1 := fun hres =>
            hnot ⟨List.findSome?_eq_none_iff.mp hans, (lastResult_iff _).mp hres⟩
          simp only [if_neg hlast]
          refine ⟨hfd, fun hacc => ?_⟩
          have hgiven := hacc.2
          simp [Attempt.accepted, hc, hans] at hgiven

/-- When `s4connect` returns more than 0. -/
theorem ret_pos_iff (cbCall : Nat → Bool) (s : CliSock) (sip : Text) (a : Attempt) :
    0 < (s4connect cbCall false s sip a).2 ↔ ¬a.Dropped cbCall := by
  constructor
  · intro hpos hdrop
    exact absurd hpos (Int.not_lt.mpr (ret_of_dropped s sip hdrop))
  · intro h
    exact (ret_of_not_dropped s sip h).1

/-- A host that accepts is dropped only at descriptor 0. -/
theorem Accepts.dropped_iff {cbCall : Nat → Bool} {sip : Text} {a : Attempt}
    (h : Accepts cbCall sip a) : a.Dropped cbCall ↔ a.fd = 0 := by
  have hacc := h.2
  rw [Attempt.accepted, Bool.and_eq_true, decide_eq_true_eq] at hacc
  obtain ⟨hfd, hacc⟩ := hacc
  constructor
  · rintro (hle | ⟨e, hconn, hwait⟩)
    · omega
    · rw [hconn, Bool.and_eq_true, decide_eq_true_eq, decide_eq_true_eq] at hacc
      have hnone := List.findSome?_eq_none_iff.mpr (hwait hacc.1).1
      rw [hnone] at hacc
      exact absurd hacc.2 (by decide)
  · intro hzero
    exact Or.inl (by omega)

/-- Whatever host the socket is connected to, its address was called. -/
theorem connectedTo_s4connect {cbCall : Nat → Bool} {s : CliSock} {sip k : Text}
    {a : Attempt} (h : (s4connect cbCall false s sip a).1.ConnectedTo k) :
    k = sip := by
  by_cases hfd : a.fd < 0
  · rw [s4connect, if_pos hfd] at h
    exact absurd h.1 (Int.not_lt.mpr (Int.le_of_lt hfd))
  · obtain ⟨t, _, hpeer, heq⟩ := s4connect_eq cbCall s sip a (Int.not_lt.mp hfd)
    have hjoin : (t.join sip).ConnectedTo k → k = sip := by
      rintro ⟨_, hsome⟩
      rw [CliSock.join] at hsome
      split at hsome
      · exact (Option.some.inj hsome).symm
      · cases hsome
    have hkept : ¬t.ConnectedTo k := fun hc => nomatch hpeer.symm.trans hc.2
    have hgone : ¬t.destroy.ConnectedTo k := fun hc =>
      Int.not_lt.mpr (destroy_thesock t) hc.1
    rw [heq] at h
    split at h
    · exact hjoin h
    · split at h
      · split at h
        · split at h
          · exact hjoin h
          · exact absurd h hkept
        · split at h
          · exact absurd h hgone
          · exact absurd h hkept
      · exact absurd h hgone

/-! ## The pass -/

theorem connectPass_stop (s : CliSock) (e : Text × Attempt)
    (es : List (Text × Attempt)) (h : ¬e.2.Dropped defCBCall) :
    connectPass s (e :: es) =
      ((s4connect defCBCall false s e.1 e.2).1,
        [⟨e.1, e.2, (s4connect defCBCall false s e.1 e.2).2⟩]) :=
  if_pos ((ret_pos_iff defCBCall s e.1 e.2).mpr h)

theorem connectPass_next (s : CliSock) (e : Text × Attempt)
    (es : List (Text × Attempt)) (h : e.2.Dropped defCBCall) :
    connectPass s (e :: es) =
      ((connectPass (s4connect defCBCall false s e.1 e.2).1.destroy es).1,
        ⟨e.1, e.2, (s4connect defCBCall false s e.1 e.2).2⟩ ::
          (connectPass (s4connect defCBCall false s e.1 e.2).1.destroy es).2) :=
  if_neg (Int.not_lt.mpr (ret_of_dropped s e.1 h))

/-- A socket that the pass connects is connected to one of the addresses. -/
theorem mem_of_connectedTo {s : CliSock} {es : List (Text × Attempt)} {k : Text}
    (hs : s.thesock ≤ 0) (h : (connectPass s es).1.ConnectedTo k) :
    k ∈ es.map Prod.fst := by
  induction es generalizing s with
  | nil => exact absurd h.1 (Int.not_lt.mpr hs)
  | cons e es ih =>
      by_cases hdrop : e.2.Dropped defCBCall
      · rw [connectPass_next s e es hdrop] at h
        exact List.mem_cons_of_mem _ (ih (destroy_thesock _) h)
      · rw [connectPass_stop s e es hdrop] at h
        exact List.mem_cons.mpr (Or.inl (connectedTo_s4connect h))

/-- A pass takes only servers that accept for connected, and connects to the
first of them. -/
structure FindsServer (s : CliSock) (es : List (Text × Attempt)) : Prop where
  sound : ∀ c ∈ (connectPass s es).2, 0 < c.ret → Accepts defCBCall c.ip c.attempt
  found : ∀ before e after, es = before ++ e :: after →
    (∀ x ∈ before, ¬Accepts defCBCall x.1 x.2) → Accepts defCBCall e.1 e.2 →
    (connectPass s es).1.ConnectedTo e.1

/-- Every address before the first that accepts fails so that it shows, and the
descriptor there is not 0. -/
def FailuresShow : List (Text × Attempt) → Prop
  | [] => True
  | e :: es =>
      (Accepts defCBCall e.1 e.2 ∧ e.2.fd ≠ 0) ∨
        (¬Accepts defCBCall e.1 e.2 ∧ e.2.Dropped defCBCall ∧ FailuresShow es)

/-- The pass at an address that accepts. -/
theorem findsServer_accepting (s : CliSock) {e : Text × Attempt}
    {es : List (Text × Attempt)} (hnew : e.1 ∉ es.map Prod.fst)
    (hacc : Accepts defCBCall e.1 e.2) :
    FindsServer s (e :: es) ↔ e.2.fd ≠ 0 := by
  constructor
  · intro h hzero
    have hconn := h.found [] e es rfl (fun x hx => nomatch hx) hacc
    rw [connectPass_next s e es (hacc.dropped_iff.mpr hzero)] at hconn
    exact hnew (mem_of_connectedTo (destroy_thesock _) hconn)
  · intro hfd
    have hdrop : ¬e.2.Dropped defCBCall := mt hacc.dropped_iff.mp hfd
    constructor
    · intro c hc _
      rw [connectPass_stop s e es hdrop] at hc
      rw [List.mem_singleton.mp hc]
      exact hacc
    · intro before x after hsplit hbefore _
      rw [connectPass_stop s e es hdrop]
      cases before with
      | nil =>
          obtain rfl : e = x := (List.cons.inj hsplit).1
          exact (ret_of_not_dropped s e.1 hdrop).2 hacc
      | cons y before =>
          obtain rfl : e = y := (List.cons.inj hsplit).1
          exact absurd hacc (hbefore e List.mem_cons_self)

/-- The pass at an address that does not. -/
theorem findsServer_refusing (s : CliSock) {e : Text × Attempt}
    {es : List (Text × Attempt)} (hacc : ¬Accepts defCBCall e.1 e.2) :
    FindsServer s (e :: es) ↔ e.2.Dropped defCBCall ∧
      FindsServer (s4connect defCBCall false s e.1 e.2).1.destroy es := by
  by_cases hdrop : e.2.Dropped defCBCall
  · rw [and_iff_right hdrop]
    constructor
    · intro h
      constructor
      · intro c hc hpos
        refine h.sound c ?_ hpos
        rw [connectPass_next s e es hdrop]
        exact List.mem_cons_of_mem _ hc
      · intro before x after hsplit hbefore hx
        have hconn := h.found (e :: before) x after (by rw [hsplit]; rfl)
          (fun y hy => (List.mem_cons.mp hy).elim (fun heq => heq ▸ hacc) (hbefore y)) hx
        rwa [connectPass_next s e es hdrop] at hconn
    · intro h
      constructor
      · intro c hc hpos
        rw [connectPass_next s e es hdrop] at hc
        rcases List.mem_cons.mp hc with rfl | hc
        · exact absurd hpos (Int.not_lt.mpr (ret_of_dropped s e.1 hdrop))
        · exact h.sound c hc hpos
      · intro before x after hsplit hbefore hx
        rw [connectPass_next s e es hdrop]
        cases before with
        | nil =>
            obtain rfl : e = x := (List.cons.inj hsplit).1
            exact absurd hx hacc
        | cons y before =>
            exact h.found before x after (List.cons.inj hsplit).2
              (fun z hz => hbefore z (List.mem_cons_of_mem y hz)) hx
  · refine iff_of_false (fun h => hacc ?_) fun h => hdrop h.1
    -- the call returns its descriptor, though nobody accepted
    refine h.sound ⟨e.1, e.2, (s4connect defCBCall false s e.1 e.2).2⟩ ?_
      ((ret_pos_iff defCBCall s e.1 e.2).mpr hdrop)
    rw [connectPass_stop s e es hdrop]
    exact List.mem_singleton_self _

theorem findsServer_iff_of_nodup (s : CliSock) {es : List (Text × Attempt)}
    (hnodup : (es.map Prod.fst).Nodup) : FindsServer s es ↔ FailuresShow es := by
  induction es generalizing s with
  | nil =>
      refine iff_of_true ⟨fun c hc => (nomatch hc), fun before e after h => ?_⟩ trivial
      simp at h
  | cons e es ih =>
      rw [List.map_cons, List.nodup_cons] at hnodup
      by_cases hacc : Accepts defCBCall e.1 e.2
      · rw [findsServer_accepting s hnodup.1 hacc, FailuresShow]
        simp [hacc]
      · rw [findsServer_refusing s hacc, ih _ hnodup.2, FailuresShow]
        simp [hacc]

/-- A pass over any set of addresses finds its server exactly when the failures
before it show. -/
theorem findsServer_iff (s : CliSock) (ips : KeyMap Text Attempt) :
    FindsServer s ips.entries ↔ FailuresShow ips.entries :=
  findsServer_iff_of_nodup s ips.keys_nodup

/-- One server, which refuses the connection while `s4connect` waits: the
descriptor is returned all the same. -/
theorem findsServer_fails_on_refusal :
    ¬FindsServer ⟨-1, 0, none⟩
      (KeyMap.empty.insert (cstr (dotted 10 0 0 1))
        (Attempt.mk 3 (.error einprogress) [⟨0, .writable false⟩])).entries := by
  intro h
  have hacc := h.sound
    ⟨cstr (dotted 10 0 0 1), ⟨3, .error einprogress, [⟨0, .writable false⟩]⟩, 3⟩
    (List.mem_singleton_self _) (by decide)
  exact absurd hacc.2 (by decide)

end RoomSpeaker
