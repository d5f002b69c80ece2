import Mathlib.Algebra.Order.Ring.Nat
import Upf.Lib.Table

/-!
# Requests this node sends, and their answers

A request draws the next number of a 32-bit counter, is entered into the table
`pendingReqs` under it, and waits.  An answer carries the number it echoes in
the 24 bits the wire has for it, and is handed to the request found under what
came back.  The number of a request is not cut to those 24 bits before it becomes
a key.

Callers run side by side: between the draw and the entry of one request others may
draw, send and be answered.  A request that is never answered is sent again, and
its caller ends the association after the last attempt.

Main results: `answer_delivered_iff`, `answer_handed_once`.
-/

namespace Upf.Outgoing

open Function Lib List UInt32 Nat Bool

/-- A request: the how-manieth it is on its association, and the sequence number
its message was built with. -/
structure Request where
  number : Nat
  sequence : UInt32
deriving DecidableEq

/-- The number that the peer reads from the wire and echoes. -/
def Request.wireSequence (r : Request) : UInt32 := r.sequence &&& 0xFFFFFF

/-- An association, as far as its own requests go.  The fields from
`drawn` on belong to the callers: requests that have their number and are not
sent yet, those waiting for an answer, and all that were sent with a waiter, the
last one first. -/
structure Association where
  seq : UInt32 := 0
  pendingReqs : Table UInt32 Request := fun _ => none
  shutdown : Bool := false
  count : Nat := 0
  drawn : List Request := []
  waiting : List Request := []
  sent : List Request := []

namespace Association

def getSeqNum (a : Association) : UInt32 × Association :=
  let seq := a.seq + 1
  (seq, { a with seq })

def draw (a : Association) : Association :=
  let (sequence, a) := a.getSeqNum
  { a with count := a.count + 1, drawn := { number := a.count + 1, sequence } :: a.drawn }

/-- The first lines of `sendPFCPRequestMessage`, after which the caller waits. -/
def sendPFCPRequestMessage (a : Association) (r : Request) : Association :=
  { a with
    pendingReqs := update a.pendingReqs r.sequence (some r)
    drawn := a.drawn.erase r
    waiting := r :: a.waiting
    sent := r :: a.sent }

def handleIncomingResponse (a : Association) (sequence : UInt32) : Option Request × Association :=
  match a.pendingReqs sequence with
  | none => (none, a)
  | some r =>
    (some r, { a with
      pendingReqs := update a.pendingReqs sequence none
      waiting := a.waiting.filter (· ≠ r) })

inductive Event where
  | draw
  /-- An association setup or a heartbeat request, for which the caller waits. -/
  | request (r : Request)
  /-- A session report request, for which nobody waits. -/
  | report (r : Request)
  | resend (r : Request)
  | response (sequence : UInt32)
  /-- No answer after the last attempt. -/
  | giveUp (r : Request)
  /-- The association ends for another reason. -/
  | close

/-- The end of the association: nobody waits any longer. -/
def executeShutdown (a : Association) : Association := { a with shutdown := true, waiting := [] }

/-- An event; one that does not fit the state changes nothing. -/
def step (a : Association) : Event → Association
  | .draw => if a.shutdown then a else a.draw
  | .request r => if ¬ a.shutdown ∧ r ∈ a.drawn then a.sendPFCPRequestMessage r else a
  | .report r => if ¬ a.shutdown ∧ r ∈ a.drawn then { a with drawn := a.drawn.erase r } else a
  | .resend _ => a
  | .response sequence => if a.shutdown then a else (a.handleIncomingResponse sequence).2
  | .giveUp r => if r ∈ a.waiting then a.executeShutdown else a
  | .close => a.executeShutdown

def run (events : List Event) : Association := events.foldl step {}

def sentAfter (a : Association) (r : Request) : List Request := a.sent.takeWhile (· ≠ r)

def Newest (a : Association) (r : Request) : Prop :=
  ∀ r' ∈ a.sentAfter r, r'.sequence ≠ r.sequence

/-- The table follows the requests. -/
structure Tracks (a : Association) : Prop where
  seq : a.seq = UInt32.ofNat a.count
  numbered : ∀ r ∈ a.drawn ++ a.sent, r.number ≤ a.count ∧ r.sequence = UInt32.ofNat r.number
  once : (a.drawn ++ a.sent).Nodup
  closed : a.shutdown = true → a.waiting = []
  waiting : ∀ r ∈ a.waiting, r ∈ a.sent
  pending : a.shutdown = false → ∀ k r, a.pendingReqs k = some r →
    r ∈ a.waiting ∧ r.sequence = k ∧ a.Newest r
  found : ∀ r ∈ a.waiting, a.Newest r → a.pendingReqs r.sequence = some r

theorem tracks_empty : Tracks {} where
  seq := rfl
  numbered := fun _ hr => (nomatch hr)
  once := nodup_nil
  closed := fun _ => rfl
  waiting := fun _ hr => (nomatch hr)
  pending := fun _ _ _ hr => (nomatch hr)
  found := fun _ hr => (nomatch hr)

variable {a : Association}

theorem Tracks.draw (h : a.Tracks) : a.draw.Tracks := by
  have hseq : a.seq + 1 = UInt32.ofNat (a.count + 1) := by
    rw [h.seq, ofNat_add]
    rfl
  have hfresh : (⟨a.count + 1, a.seq + 1⟩ : Request) ∉ a.drawn ++ a.sent := fun hmem =>
    absurd (h.numbered _ hmem).1 (not_succ_le_self _)
  refine ⟨hseq, ?_, nodup_cons.mpr ⟨hfresh, h.once⟩, h.closed, h.waiting, h.pending,
    h.found⟩
  intro r hr
  rcases mem_cons.mp hr with rfl | hr
  · exact ⟨Nat.le_refl _, hseq⟩
  · exact ⟨le_succ_of_le (h.numbered r hr).1, (h.numbered r hr).2⟩

variable {r : Request}

theorem sentAfter_send {r' : Request} (hne : r' ≠ r) :
    (a.sendPFCPRequestMessage r).sentAfter r' = r :: a.sentAfter r' := by
  rw [sentAfter, sendPFCPRequestMessage, takeWhile_cons_of_pos (by simpa using hne.symm)]
  rfl

theorem newest_send_self (r : Request) : (a.sendPFCPRequestMessage r).Newest r := by
  intro r' hr'
  rw [sentAfter, sendPFCPRequestMessage, takeWhile_cons_of_neg (by simp)] at hr'
  exact (nomatch hr')

theorem newest_send {r' : Request} (hne : r' ≠ r) :
    (a.sendPFCPRequestMessage r).Newest r' ↔ r.sequence ≠ r'.sequence ∧ a.Newest r' := by
  rw [Newest, sentAfter_send hne, forall_mem_cons]
  rfl

theorem Tracks.send (h : a.Tracks) (hopen : a.shutdown = false)
    (hr : r ∈ a.drawn) :
    (a.sendPFCPRequestMessage r).Tracks := by
  have hperm : (a.drawn.erase r ++ r :: a.sent).Perm (a.drawn ++ a.sent) := by
    apply perm_middle.trans
    exact (perm_cons_erase hr).symm.append_right a.sent
  have hsent : r ∉ a.sent := fun hmem => (nodup_append.mp h.once).2.2 r hr r hmem rfl
  refine ⟨h.seq, fun r' hr' => h.numbered r' (hperm.mem_iff.mp hr'), hperm.nodup_iff.mpr h.once,
    fun hclosed => absurd hopen (by simp [show a.shutdown = true from hclosed]), ?_, ?_, ?_⟩
  · intro r' hr'
    rcases mem_cons.mp hr' with rfl | hr'
    · exact mem_cons_self
    · exact mem_cons_of_mem _ (h.waiting r' hr')
  · intro _ k r' hk
    simp only [sendPFCPRequestMessage] at hk
    by_cases hkr : k = r.sequence
    · subst hkr
      rw [update_self, Option.some.injEq] at hk
      subst hk
      exact ⟨mem_cons_self, rfl, newest_send_self r⟩
    · rw [update_of_ne hkr] at hk
      obtain ⟨hwait, hseq, hnew⟩ := h.pending hopen k r' hk
      have hne : r' ≠ r := fun heq => hsent (heq ▸ h.waiting r' hwait)
      refine ⟨mem_cons_of_mem _ hwait, hseq, (newest_send hne).mpr ⟨?_, hnew⟩⟩
      exact fun heq => hkr (hseq.symm.trans heq.symm)
  · intro r' hr' hnew
    simp only [sendPFCPRequestMessage]
    rcases mem_cons.mp hr' with rfl | hr'
    · exact update_self ..
    · have hne : r' ≠ r := fun heq => hsent (heq ▸ h.waiting r' hr')
      obtain ⟨hseq, hnew⟩ := (newest_send hne).mp hnew
      rw [update_of_ne hseq.symm]
      exact h.found r' hr' hnew

theorem Tracks.report (h : a.Tracks) (r : Request) :
    Tracks { a with drawn := a.drawn.erase r } := by
  have hsub : (a.drawn.erase r ++ a.sent).Sublist (a.drawn ++ a.sent) :=
    erase_sublist.append (List.Sublist.refl _)
  exact ⟨h.seq, fun r' hr' => h.numbered r' (hsub.subset hr'), h.once.sublist hsub, h.closed,
    h.waiting, h.pending, h.found⟩

theorem Tracks.response (h : a.Tracks) (hopen : a.shutdown = false) (sequence : UInt32) :
    (a.handleIncomingResponse sequence).2.Tracks := by
  unfold handleIncomingResponse
  cases hk : a.pendingReqs sequence with
  | none => exact h
  | some r =>
    obtain ⟨-, hseq, -⟩ := h.pending hopen sequence r hk
    have hwaiting : ∀ r', r' ∈ a.waiting.filter (· ≠ r) ↔ r' ∈ a.waiting ∧ r' ≠ r := by simp
    refine ⟨h.seq, h.numbered, h.once,
      fun hclosed => absurd hopen (by simp [show a.shutdown = true from hclosed]),
      fun r' hr' => h.waiting r' ((hwaiting r').mp hr').1, ?_, ?_⟩
    · intro _ k r' hk'
      have hne : k ≠ sequence := by
        rintro rfl
        simp at hk'
      have hk'' : a.pendingReqs k = some r' := by
        simpa [update_of_ne hne] using hk'
      obtain ⟨hwait, hseq', hnew⟩ := h.pending hopen k r' hk''
      refine ⟨(hwaiting r').mpr ⟨hwait, ?_⟩, hseq', hnew⟩
      exact fun heq => hne (hseq'.symm.trans (heq ▸ hseq))
    · intro r' hr' hnew
      obtain ⟨hwait, hne⟩ := (hwaiting r').mp hr'
      have hfound := h.found r' hwait hnew
      have hkey : r'.sequence ≠ sequence := by
        intro heq
        rw [heq, hk, Option.some.injEq] at hfound
        exact hne hfound.symm
      simp only [update_of_ne hkey]
      exact hfound

theorem Tracks.executeShutdown (h : a.Tracks) : a.executeShutdown.Tracks where
  seq := h.seq
  numbered := h.numbered
  once := h.once
  closed := fun _ => rfl
  waiting := fun _ hr => (nomatch hr)
  pending := fun hopen => (nomatch hopen)
  found := fun _ hr => (nomatch hr)

theorem Tracks.step (h : a.Tracks) (event : Event) : (a.step event).Tracks := by
  cases event with
  | draw =>
    simp only [Association.step]
    split
    · exact h
    · exact h.draw
  | request =>
    simp only [Association.step]
    split
    case isTrue hr => exact h.send (not_eq_true _ ▸ hr.1) hr.2
    case isFalse => exact h
  | report r =>
    simp only [Association.step]
    split
    · exact h.report r
    · exact h
  | resend => exact h
  | response sequence =>
    simp only [Association.step]
    split
    case isTrue => exact h
    case isFalse hopen => exact h.response (not_eq_true _ ▸ hopen) sequence
  | giveUp =>
    simp only [Association.step]
    split
    · exact h.executeShutdown
    · exact h
  | close => exact h.executeShutdown

theorem tracks_run (events : List Event) : (run events).Tracks := by
  suffices h : ∀ a : Association, a.Tracks → (events.foldl Association.step a).Tracks from
    h {} tracks_empty
  induction events with
  | nil => exact fun a h => h
  | cons event events ih => exact fun a h => ih _ (h.step event)

theorem Tracks.open_of_waiting (h : a.Tracks) (hr : r ∈ a.waiting) :
    a.shutdown = false := by
  by_contra hclosed
  rw [h.closed (not_eq_false _ ▸ hclosed)] at hr
  cases hr

theorem Tracks.handed_iff (h : a.Tracks) (hr : r ∈ a.waiting) (sequence : UInt32) :
    (a.handleIncomingResponse sequence).1 = some r ↔ r.sequence = sequence ∧ a.Newest r := by
  unfold handleIncomingResponse
  constructor
  · intro hhanded
    cases hk : a.pendingReqs sequence with
    | none =>
      rw [hk] at hhanded
      cases hhanded
    | some =>
      rw [hk] at hhanded
      cases hhanded
      exact (h.pending (h.open_of_waiting hr) sequence r hk).2
  · rintro ⟨rfl, hnew⟩
    rw [h.found r hr hnew]

theorem wireSequence_eq_iff (r : Request) :
    r.sequence = r.wireSequence ↔ r.sequence.toNat < 2 ^ 24 := by
  have hmask : r.wireSequence.toNat = r.sequence.toNat % 2 ^ 24 := by
    rw [Request.wireSequence, UInt32.toNat_and]
    exact and_two_pow_sub_one_eq_mod _ 24
  rw [← UInt32.toNat_inj, hmask]
  omega

/-- In every run: the answer to the request that is the `n`-th of its
association and waits reaches it exactly when `n` modulo 2^32 fits the 24 bits of
the wire and no request sent later has the same number modulo 2^32. -/
theorem answer_delivered_iff (events : List Event) (r : Request)
    (hr : r ∈ (run events).waiting) :
    ((run events).handleIncomingResponse r.wireSequence).1 = some r ↔
      r.number % 2 ^ 32 < 2 ^ 24 ∧
      ∀ r' ∈ (run events).sentAfter r, r'.number % 2 ^ 32 ≠ r.number % 2 ^ 32 := by
  have htracks := tracks_run events
  have hsequence {r' : Request} (hr' : r' ∈ (run events).sent) :
      r'.sequence.toNat = r'.number % 2 ^ 32 := by
    rw [(htracks.numbered r' (mem_append_right _ hr')).2]
    exact toNat_ofNat'
  have hsent := htracks.waiting r hr
  rw [htracks.handed_iff hr, wireSequence_eq_iff, hsequence hsent]
  apply and_congr_right
  intro _
  apply forall₂_congr
  intro r' hr'
  rw [← hsequence hsent, ← hsequence ((takeWhile_sublist _).subset hr'), ne_eq, ne_eq,
    UInt32.toNat_inj]

/-- Two requests that wait, sent in the other order than their numbers were drawn. -/
def twoWaiting : List Event := [.draw, .draw, .request ⟨2, 2⟩, .request ⟨1, 1⟩]

theorem answer_delivered_first :
    ((run twoWaiting).handleIncomingResponse 2).1 = some ⟨2, 2⟩ := by
  have hiff := answer_delivered_iff twoWaiting ⟨2, 2⟩ (by decide)
  exact hiff.mpr ⟨by decide, by decide⟩

/-- In every run an answer is handed to a request that waits under its number, the last one
sent under it, and the next answer with this number to nobody. -/
theorem answer_handed_once (events : List Event) (sequence : UInt32) (r : Request)
    (after : Association) (hopen : (run events).shutdown = false)
    (h : (run events).handleIncomingResponse sequence = (some r, after)) :
    (r ∈ (run events).waiting ∧ r.sequence = sequence ∧ (run events).Newest r) ∧
      r ∉ after.waiting ∧ (after.handleIncomingResponse sequence).1 = none := by
  unfold handleIncomingResponse at h
  cases hk : (run events).pendingReqs sequence with
  | none =>
    rw [hk] at h
    cases h
  | some =>
    rw [hk] at h
    cases h
    refine ⟨(tracks_run events).pending hopen sequence r hk, by simp, ?_⟩
    simp [handleIncomingResponse]

theorem answer_handed_once_first :
    ((run twoWaiting).handleIncomingResponse 2).2.waiting = [⟨1, 1⟩] ∧
      (((run twoWaiting).handleIncomingResponse 2).2.handleIncomingResponse 2).1 = none :=
  ⟨by decide, (answer_handed_once twoWaiting 2 ⟨2, 2⟩ _ rfl rfl).2.2⟩

def exchange (n : Nat) : List Event :=
  [.draw, .request ⟨n, UInt32.ofNat n⟩, .response (UInt32.ofNat n)]

/-- The first `n` requests, each answered before the next is drawn. -/
def exchanges : Nat → List Event
  | 0 => []
  | n + 1 => exchanges n ++ exchange (n + 1)

structure Idle (a : Association) (n : Nat) : Prop where
  seq : a.seq = UInt32.ofNat n
  count : a.count = n
  shutdown : a.shutdown = false
  drawn : a.drawn = []
  waiting : a.waiting = []
  pendingReqs : a.pendingReqs = fun _ => none

theorem Idle.sent {n : Nat} (h : a.Idle n) :
    ([.draw, .request ⟨n + 1, UInt32.ofNat (n + 1)⟩] : List Event).foldl step a =
      { a with
        seq := UInt32.ofNat (n + 1)
        count := n + 1
        pendingReqs := update (fun _ => none) (UInt32.ofNat (n + 1))
          (some ⟨n + 1, UInt32.ofNat (n + 1)⟩)
        waiting := [⟨n + 1, UInt32.ofNat (n + 1)⟩]
        sent := ⟨n + 1, UInt32.ofNat (n + 1)⟩ :: a.sent } := by
  have hseq : a.seq + 1 = UInt32.ofNat (n + 1) := by
    rw [h.seq, ofNat_add]
    rfl
  simp [step, draw, getSeqNum, sendPFCPRequestMessage, h.shutdown, h.count, h.drawn, h.waiting,
    h.pendingReqs, hseq]

theorem Idle.exchange {n : Nat} (h : a.Idle n) :
    ((exchange (n + 1)).foldl step a).Idle (n + 1) := by
  have hsplit : Association.exchange (n + 1) = [.draw, .request ⟨n + 1, UInt32.ofNat (n + 1)⟩] ++
      [.response (UInt32.ofNat (n + 1))] := rfl
  rw [hsplit, foldl_append, h.sent, foldl_cons, foldl_nil]
  simp only [step, handleIncomingResponse, h.shutdown, update_self, false_eq_true,
    if_false]
  refine ⟨rfl, rfl, rfl, h.drawn, by simp, ?_⟩
  rw [update_idem, update_eq_self]

theorem idle_exchanges (n : Nat) : (run (exchanges n)).Idle n := by
  induction n with
  | zero => exact ⟨rfl, rfl, rfl, rfl, rfl, rfl⟩
  | succ n ih =>
    rw [run, exchanges, foldl_append]
    exact ih.exchange

/-- The request after `n` exchanges waits; where its number is not the one on
the wire, its answer is handed to nobody. -/
theorem unmatched_after_exchanges (n : Nat)
    (hwire : Request.wireSequence ⟨n + 1, UInt32.ofNat (n + 1)⟩ ≠ UInt32.ofNat (n + 1)) :
    ∃ events, (⟨n + 1, UInt32.ofNat (n + 1)⟩ : Request) ∈ (run events).waiting ∧
      ((run events).handleIncomingResponse
        (Request.wireSequence ⟨n + 1, UInt32.ofNat (n + 1)⟩)).1 = none := by
  refine ⟨exchanges n ++ [.draw, .request ⟨n + 1, UInt32.ofNat (n + 1)⟩], ?_⟩
  have hsent := (idle_exchanges n).sent
  rw [run] at hsent
  rw [run, foldl_append, hsent]
  refine ⟨mem_singleton.mpr rfl, ?_⟩
  simp only [handleIncomingResponse, update_of_ne hwire]

/-- After 2^24 - 1 requests that were all answered, the next one waits and its
answer is handed to nobody. -/
theorem answer_lost :
    ∃ events, (⟨16777215 + 1, UInt32.ofNat (16777215 + 1)⟩ : Request) ∈ (run events).waiting ∧
      ((run events).handleIncomingResponse
        (Request.wireSequence ⟨16777215 + 1, UInt32.ofNat (16777215 + 1)⟩)).1 = none :=
  unmatched_after_exchanges 16777215 (by decide)

end Association

end Upf.Outgoing
