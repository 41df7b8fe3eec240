import Mathlib.Data.List.ReduceOption
import Mathlib.Order.BooleanAlgebra.Set
import Mathlib.Tactic.Tauto
import RoomSpeaker.Foundation.Run

/-!
# Handles that a system lends

A program acquires handles, uses them and releases them; the system that lends them
knows them by name only, and may hand out a name again once it was released.  So a
use after the release, or a second release, may hit a handle that belongs to
somebody else by then.

`Disciplined held ops held'` says that the operations are made, one after the other,
on handles held at that moment.  That an acquired handle is not held already is up
to the lender: `Fresh`.

## Main results

* `Disciplined.balance` — in a disciplined history a handle is released as often as
  it is acquired, but for those still held.
* `Turns.disciplined` — parties that hold one handle each at most, and act one after
  the other, are disciplined together.
* `disciplined_run` — what single steps keep, a run keeps.
-/

namespace RoomSpeaker.Foundation

variable {H σ ι : Type*}

/-- What is done with a handle. -/
inductive HandleOp (H : Type*) where
  | acquire (h : H)
  | use (h : H)
  | release (h : H)
  deriving DecidableEq

/-- The handles held after an operation. -/
def HandleOp.after (held : Set H) : HandleOp H → Set H
  | .acquire h => insert h held
  | .use _ => held
  | .release h => held \ {h}

/-- The operation is made with a handle that is held, or acquires one that is
not. -/
def HandleOp.Allowed (held : Set H) : HandleOp H → Prop
  | .acquire h => h ∉ held
  | .use h => h ∈ held
  | .release h => h ∈ held

/-- The lender does not hand out what is held. -/
def HandleOp.Lent (held : Set H) : HandleOp H → Prop
  | .acquire h => h ∉ held
  | _ => True

/-- A history of operations that are allowed, with the handles held before and
after. -/
inductive Disciplined : Set H → List (HandleOp H) → Set H → Prop
  | nil (held : Set H) : Disciplined held [] held
  | cons {held held' : Set H} {x : HandleOp H} {xs : List (HandleOp H)}
      (hx : x.Allowed held) (hxs : Disciplined (x.after held) xs held') :
      Disciplined held (x :: xs) held'

/-- A history in which nothing is handed out while it is held. -/
def Fresh : Set H → List (HandleOp H) → Prop
  | _, [] => True
  | held, x :: xs => x.Lent held ∧ Fresh (x.after held) xs

/-! ## Composing histories -/

theorem Disciplined.append {a b c : Set H} {xs ys : List (HandleOp H)}
    (hxs : Disciplined a xs b) (hys : Disciplined b ys c) :
    Disciplined a (xs ++ ys) c := by
  induction hxs with
  | nil held => exact hys
  | cons hx _ ih => exact .cons hx (ih hys)

theorem Disciplined.single {held : Set H} {x : HandleOp H} (hx : x.Allowed held) :
    Disciplined held [x] (x.after held) :=
  .cons hx (.nil _)

/-- Handles that are held may be used any number of times. -/
theorem Disciplined.uses {held : Set H} {hs : List H} (hheld : ∀ h ∈ hs, h ∈ held) :
    Disciplined held (hs.map .use) held := by
  induction hs with
  | nil => exact .nil held
  | cons h hs ih =>
      refine .cons (hheld h List.mem_cons_self) (ih ?_)
      exact fun x hx => hheld x (List.mem_cons_of_mem h hx)

/-- What comes behind a disciplined history finds what it left. -/
theorem Disciplined.fresh_rest {a b : Set H} {xs ys : List (HandleOp H)}
    (hxs : Disciplined a xs b) (hfresh : Fresh a (xs ++ ys)) : Fresh b ys := by
  induction hxs with
  | nil held => exact hfresh
  | cons _ _ ih => exact ih hfresh.2

theorem Fresh.left {xs ys : List (HandleOp H)} :
    ∀ {held : Set H}, Fresh held (xs ++ ys) → Fresh held xs := by
  induction xs with
  | nil => intro held _; trivial
  | cons x xs ih => intro held h; exact ⟨h.1, ih h.2⟩

/-- What is handed out or comes back. -/
def HandleOp.moves : HandleOp H → Bool
  | .use _ => false
  | _ => true

/-- Uses need not be looked at to see that nothing is handed out twice. -/
theorem fresh_of_moves {xs : List (HandleOp H)} :
    ∀ {held : Set H}, Fresh held (xs.filter HandleOp.moves) → Fresh held xs := by
  induction xs with
  | nil => intro held _; trivial
  | cons x xs ih =>
      intro held h
      cases x with
      | use x => exact ⟨trivial, ih h⟩
      | acquire x => exact ⟨h.1, ih h.2⟩
      | release x => exact ⟨trivial, ih h.2⟩

/-! ## Balance -/

open Classical in
/-- 1 for a handle that is held, 0 for another. -/
noncomputable def presence (held : Set H) (h : H) : Nat := if h ∈ held then 1 else 0

theorem presence_of_mem {held : Set H} {h : H} (hmem : h ∈ held) :
    presence held h = 1 := if_pos hmem

theorem presence_of_notMem {held : Set H} {h : H} (hnot : h ∉ held) :
    presence held h = 0 := if_neg hnot

theorem presence_congr {a b : Set H} {h : H} (hab : h ∈ a ↔ h ∈ b) :
    presence a h = presence b h := by
  by_cases hb : h ∈ b
  · rw [presence_of_mem hb, presence_of_mem (hab.mpr hb)]
  · rw [presence_of_notMem hb, presence_of_notMem fun ha => hb (hab.mp ha)]

/-- How often a handle is acquired in a disciplined history: once for each release,
and once more if it is held in the end and was not at the beginning. -/
theorem Disciplined.balance [DecidableEq H] {a b : Set H} {xs : List (HandleOp H)}
    (hxs : Disciplined a xs b) (h : H) :
    xs.count (.acquire h) + presence a h = xs.count (.release h) + presence b h := by
  induction hxs with
  | nil held => rfl
  | @cons held held' x xs hx _ ih =>
      cases x with
      | acquire x =>
          by_cases hxh : x = h
          · subst hxh
            have hnow : presence (insert x held) x = 1 :=
              presence_of_mem (Set.mem_insert x held)
            have hbefore : presence held x = 0 := presence_of_notMem hx
            simp only [HandleOp.after, hnow] at ih
            simp only [List.count_cons_self, hbefore,
              List.count_cons_of_ne (show HandleOp.acquire x ≠ .release x by simp)]
            omega
          · have hsame : presence (insert x held) h = presence held h :=
              presence_congr (by simp [Ne.symm hxh])
            simpa [HandleOp.after, hsame, hxh] using ih
      | use x => simpa [HandleOp.after] using ih
      | release x =>
          by_cases hxh : x = h
          · subst hxh
            have hnow : presence (held \ {x}) x = 0 :=
              presence_of_notMem fun hmem => hmem.2 rfl
            have hbefore : presence held x = 1 := presence_of_mem hx
            simp only [HandleOp.after, hnow] at ih
            simp only [List.count_cons_self, hbefore,
              List.count_cons_of_ne (show HandleOp.release x ≠ .acquire x by simp)]
            omega
          · have hsame : presence (held \ {x}) h = presence held h :=
              presence_congr (by simp [Ne.symm hxh])
            simpa [HandleOp.after, hsame, hxh] using ih

/-! ## Parties with one handle each -/

/-- The turn of a party: it uses the handle it holds, and may release it last. -/
inductive Turn : Option H → List (HandleOp H) → Option H → Prop
  | keep {o : Option H} {hs : List H} (huses : ∀ h ∈ hs, o = some h) :
      Turn o (hs.map .use) o
  | give {h : H} {hs : List H} (huses : ∀ x ∈ hs, x = h) :
      Turn (some h) (hs.map .use ++ [.release h]) none

/-- A party may do nothing. -/
theorem Turn.idle (o : Option H) : Turn o [] o :=
  have hnone : ∀ h ∈ ([] : List H), o = some h := fun _ h => absurd h List.not_mem_nil
  .keep hnone

/-- A party may use its handle first. -/
theorem Turn.use_first {h : H} {xs : List (HandleOp H)} {o' : Option H}
    (hturn : Turn (some h) xs o') : Turn (some h) (.use h :: xs) o' := by
  cases hturn with
  | @keep _ hs huses =>
      have hall : ∀ x ∈ h :: hs, some h = some x := by
        intro x hx
        rcases List.mem_cons.mp hx with rfl | hx
        · rfl
        · exact huses x hx
      exact .keep hall
  | @give _ hs huses =>
      have hall : ∀ x ∈ h :: hs, x = h := by
        intro x hx
        rcases List.mem_cons.mp hx with rfl | hx
        · rfl
        · exact huses x hx
      exact .give hall

/-- One turn for each party. -/
inductive Turns : List (Option H) → List (HandleOp H) → List (Option H) → Prop
  | nil : Turns [] [] []
  | cons {o o' : Option H} {os os' : List (Option H)} {xs ys : List (HandleOp H)}
      (hturn : Turn o xs o') (hturns : Turns os ys os') :
      Turns (o :: os) (xs ++ ys) (o' :: os')

/-- The handles of the parties, and those of a frame. -/
def pooled (frame : Set H) (os : List (Option H)) : Set H :=
  frame ∪ {h | h ∈ os.reduceOption}

theorem mem_pooled {frame : Set H} {os : List (Option H)} {h : H} :
    h ∈ pooled frame os ↔ h ∈ frame ∨ h ∈ os.reduceOption := Iff.rfl

/-- No handle is held by two parties, or by one and the frame. -/
structure Unshared (frame : Set H) (os : List (Option H)) : Prop where
  frame : ∀ h ∈ frame, h ∉ os.reduceOption
  parties : os.reduceOption.Nodup

@[simp] theorem pooled_nil (frame : Set H) : pooled frame [] = frame := by
  ext h
  simp [mem_pooled]

theorem pooled_none (frame : Set H) (os : List (Option H)) :
    pooled frame (none :: os) = pooled frame os := by
  ext h
  simp [mem_pooled]

/-- A party's handle may count as part of the frame. -/
theorem pooled_some (frame : Set H) (h : H) (os : List (Option H)) :
    pooled frame (some h :: os) = pooled (insert h frame) os := by
  ext x
  simp only [mem_pooled, List.reduceOption_cons_of_some, List.mem_cons,
    Set.mem_insert_iff]
  tauto

theorem insert_pooled (frame : Set H) (h : H) (os : List (Option H)) :
    insert h (pooled frame os) = pooled frame (some h :: os) := by
  ext x
  simp only [mem_pooled, List.reduceOption_cons_of_some, List.mem_cons,
    Set.mem_insert_iff]
  tauto

theorem unshared_none {frame : Set H} {os : List (Option H)} :
    Unshared frame (none :: os) ↔ Unshared frame os := by
  constructor
  · intro h
    exact ⟨h.frame, h.parties⟩
  · intro h
    exact ⟨h.frame, h.parties⟩

theorem unshared_some {frame : Set H} {h : H} {os : List (Option H)} :
    Unshared frame (some h :: os) ↔ h ∉ pooled frame os ∧ Unshared frame os := by
  constructor
  · intro hun
    have hparties := List.nodup_cons.mp hun.parties
    refine ⟨?_, fun x hx hmem => hun.frame x hx (List.mem_cons_of_mem h hmem),
      hparties.2⟩
    rintro (hframe | hmem)
    · exact hun.frame h hframe List.mem_cons_self
    · exact hparties.1 hmem
  · rintro ⟨hnot, hun⟩
    constructor
    · intro x hx hmem
      rcases List.mem_cons.mp hmem with heq | hrest
      · exact hnot (Or.inl (heq ▸ hx))
      · exact hun.frame x hx hrest
    · exact List.nodup_cons.mpr ⟨fun hmem => hnot (Or.inr hmem), hun.parties⟩

/-- The frame may take over a party's handle. -/
theorem Unshared.absorb {frame : Set H} {h : H} {os : List (Option H)}
    (hun : Unshared frame (some h :: os)) : Unshared (insert h frame) os := by
  obtain ⟨hnot, hrest⟩ := unshared_some.mp hun
  constructor
  · rintro x (rfl | hx) hmem
    · exact hnot (Or.inr hmem)
    · exact hrest.frame x hx hmem
  · exact hrest.parties

/-- A party that drops out leaves the others apart. -/
theorem Unshared.tail {frame : Set H} {o : Option H} {os : List (Option H)}
    (hun : Unshared frame (o :: os)) : Unshared frame os := by
  cases o with
  | none => exact unshared_none.mp hun
  | some h => exact (unshared_some.mp hun).2

/-- Fewer handles are apart all the more. -/
theorem Unshared.sublist {frame : Set H} {os os' : List (Option H)}
    (hun : Unshared frame os) (hsub : os'.reduceOption.Sublist os.reduceOption) :
    Unshared frame os' :=
  ⟨fun h hframe hmem => hun.frame h hframe (hsub.subset hmem),
    hun.parties.sublist hsub⟩

theorem Unshared.perm {frame : Set H} {os os' : List (Option H)}
    (hun : Unshared frame os) (hperm : os.reduceOption.Perm os'.reduceOption) :
    Unshared frame os' :=
  ⟨fun h hframe hmem => hun.frame h hframe (hperm.mem_iff.mpr hmem),
    hperm.nodup_iff.mp hun.parties⟩

theorem pooled_perm {frame : Set H} {os os' : List (Option H)}
    (hperm : os.reduceOption.Perm os'.reduceOption) :
    pooled frame os = pooled frame os' := by
  ext h
  rw [mem_pooled, mem_pooled, hperm.mem_iff]

/-- A released handle is gone from the pool. -/
theorem pooled_release {frame : Set H} {h : H} {os : List (Option H)}
    (hun : Unshared frame (some h :: os)) :
    pooled frame (some h :: os) \ {h} = pooled frame os := by
  rw [← insert_pooled]
  exact Set.insert_sdiff_self_of_notMem (unshared_some.mp hun).1

/-- A turn, seen from the whole pool. -/
theorem Turn.disciplined {o o' : Option H} {xs : List (HandleOp H)}
    (h : Turn o xs o') {frame : Set H} {os : List (Option H)}
    (hun : Unshared frame (o :: os)) :
    Disciplined (pooled frame (o :: os)) xs (pooled frame (o' :: os)) := by
  have hown : ∀ {x : H}, o = some x → x ∈ pooled frame (o :: os) := by
    rintro x rfl
    exact mem_pooled.mpr (Or.inr List.mem_cons_self)
  cases h with
  | keep huses => exact .uses fun x hx => hown (huses x hx)
  | @give x hs huses =>
      have huse : Disciplined (pooled frame (some x :: os)) (hs.map .use)
          (pooled frame (some x :: os)) :=
        .uses fun y hy => hown (by rw [huses y hy])
      have hallowed : (HandleOp.release x).Allowed (pooled frame (some x :: os)) :=
        hown rfl
      have hrelease := Disciplined.single hallowed
      rw [HandleOp.after, pooled_release hun, ← pooled_none frame os] at hrelease
      exact huse.append hrelease

/-- A party has the handle it had, or none. -/
theorem Turn.sublist {o o' : Option H} {xs : List (HandleOp H)} (h : Turn o xs o') :
    [o'].reduceOption.Sublist [o].reduceOption := by
  cases h with
  | keep _ => exact List.Sublist.refl _
  | give _ => exact List.nil_sublist _

theorem Turns.sublist {os os' : List (Option H)} {xs : List (HandleOp H)}
    (h : Turns os xs os') : os'.reduceOption.Sublist os.reduceOption := by
  induction h with
  | nil => exact List.Sublist.refl _
  | @cons o o' os os' xs ys hturn _ ih =>
      have happend := hturn.sublist.append ih
      rwa [← List.reduceOption_append, ← List.reduceOption_append] at happend

/-- The turns of all parties. -/
theorem Turns.disciplined {os os' : List (Option H)} {xs : List (HandleOp H)}
    (h : Turns os xs os') : ∀ {frame : Set H}, Unshared frame os →
      Disciplined (pooled frame os) xs (pooled frame os') := by
  induction h with
  | nil => intro frame _; exact .nil _
  | @cons o o' os os' xs ys hturn _ ih =>
      intro frame hun
      have hhead := hturn.disciplined hun
      -- the others act while this party stands in the frame
      have hrest : Disciplined (pooled frame (o' :: os)) ys
          (pooled frame (o' :: os')) := by
        have hkept : Unshared frame (o' :: os) := by
          apply hun.sublist
          have happend := hturn.sublist.append (List.Sublist.refl os.reduceOption)
          rwa [← List.reduceOption_append, ← List.reduceOption_append] at happend
        cases o' with
        | none =>
            rw [pooled_none, pooled_none]
            exact ih hkept.tail
        | some h =>
            rw [pooled_some, pooled_some]
            exact ih hkept.absorb
      exact hhead.append hrest

/-! ## Runs -/

/-- If every step that is lent fresh handles is disciplined and keeps an invariant,
so is every run, whatever comes behind it. -/
theorem disciplined_run {step : σ → ι → σ} {I : σ → Prop} {held : σ → Set H}
    {obs : σ → ι → List (HandleOp H)}
    (hstep : ∀ s i, I s → Fresh (held s) (obs s i) →
      I (step s i) ∧ Disciplined (held s) (obs s i) (held (step s i)))
    (rest : List (HandleOp H)) (is : List ι) :
    ∀ s, I s → Fresh (held s) (trace step obs s is ++ rest) →
      (I (run step s is) ∧
        Disciplined (held s) (trace step obs s is) (held (run step s is))) ∧
      Along step (fun s i => Fresh (held s) (obs s i)) s is := by
  induction is with
  | nil => intro s hI _; exact ⟨⟨hI, .nil _⟩, trivial⟩
  | cons i is ih =>
      intro s hI hfresh
      rw [trace, List.append_assoc] at hfresh
      obtain ⟨hnext, hhead⟩ := hstep s i hI hfresh.left
      obtain ⟨⟨hlast, htail⟩, halong⟩ := ih (step s i) hnext (hhead.fresh_rest hfresh)
      exact ⟨⟨hlast, hhead.append htail⟩, hfresh.left, halong⟩

end RoomSpeaker.Foundation
