import OwnX.Nio.Session
import OwnX.Foundations.Proofs.MachineProofs
import Mathlib.Data.List.Nodup
import Mathlib.Tactic.Push

/-!
# Proofs: how often a session is closed

A closing call always starts the callback, also for a session that was closed before. The callback of
a session is therefore called once exactly as long as no closing call reaches a session that a
`CloseSession` has taken out of the map or an earlier `Close` has swept.
-/

namespace OwnX.Nio

/-! ## The reader -/

/-- The place of `readIo` between two turns of its loop. -/
def ReadState.reader (s : ReadState) : Reader := if s.returned then .returned else .check s.failTimes

/-- The goroutine goes through its loop as `readIo` does, and calls `session.Close` when it does. -/
theorem readTurn_reader {V : Type} {c : DefaultCodec V} {ordered : Bool} {fuel : Nat}
    {s s' : ReadState} {e : ReadEvent} (hret : s.returned = false) (hcl : s.sessionClosed = false)
    (h : readTurn c ordered fuel s e = some s') :
    Reader.turn s.failTimes e = (s'.reader, s'.sessionClosed) := by
  unfold readTurn at h
  rw [if_neg (by simp [hret])] at h
  unfold Reader.turn ReadState.reader
  cases e with
  | socketClosed =>
    cases h
    simp [hcl]
  | connectionLost =>
    cases h
    rfl
  | readError =>
    simp only at h ⊢
    by_cases hthree : 3 ≤ s.failTimes + 1
    · rw [if_pos hthree] at h ⊢
      cases h
      rfl
    · rw [if_neg hthree] at h ⊢
      cases h
      simp [hret, hcl]
  | data chunk =>
    simp only at h ⊢
    split_ifs at h
    · obtain ⟨r, -, rfl⟩ := Option.map_eq_some_iff.mp h
      simp [ReadState.handOn, hret, hcl]
    · cases h
      simp [hret, hcl]

namespace Socket

variable {s s' : Socket} {e : SocketEvent} {id : Nat}

/-! ## The books of a socket -/

/-- The callback was called for the sessions that are no longer in the map, and for those that were
there at a `Close`. -/
structure Accounted (s : Socket) : Prop where
  nodup : s.sessions.Nodup
  made : ∀ id ∈ s.sessions, id < s.created
  called : ∀ id, id ∈ s.calls ↔ id < s.created ∧ (id ∉ s.sessions ∨ id ∈ s.swept)
  swept : ∀ id ∈ s.swept, id < s.created
  client : s.isClient = true → s.sessions = [0] ∧ s.created = 1 ∧ s.accepting = .ended

namespace Accounted

theorem setReader (h : s.Accounted) (id : Nat) (r : Reader) : (s.setReader id r).Accounted :=
  ⟨h.nodup, h.made, h.called, h.swept, h.client⟩

/-- The goroutine of `handlerConnection` goes on. -/
theorem setAccepting (h : s.Accounted) {a : Accepting} (ha : s.accepting ≠ .ended) :
    { s with accepting := a }.Accounted :=
  ⟨h.nodup, h.made, h.called, h.swept, fun hc => absurd (h.client hc).2.2 ha⟩

theorem close (h : s.Accounted) : s.close.Accounted := by
  constructor
  case nodup => exact h.nodup
  case made => exact h.made
  case called =>
    intro id
    have hmade := h.made id
    have hcalled := h.called id
    simp only [Socket.close, List.mem_append, hcalled]
    tauto
  case swept =>
    intro id hid
    rcases List.mem_append.mp hid with hid | hid
    · exact h.swept id hid
    · exact h.made id hid
  case client => exact h.client

theorem closeSession (h : s.Accounted) (hserver : s.isClient = false) (hid : id < s.created) :
    (s.closeSession id).Accounted := by
  constructor
  case nodup => exact h.nodup.erase id
  case made => exact fun j hj => h.made j (List.mem_of_mem_erase hj)
  case called =>
    intro j
    have hcalled := h.called j
    simp only [Socket.closeSession, List.mem_append, List.mem_singleton, hcalled]
    by_cases hj : j = id
    · subst hj
      simp [hid, h.nodup.not_mem_erase]
    · simp [hj, List.mem_erase_of_ne hj]
  case swept => exact h.swept
  case client =>
    intro hc
    cases hserver.symm.trans hc

theorem sessionClose (h : s.Accounted) (hid : id < s.created) : (s.sessionClose id).Accounted := by
  unfold Socket.sessionClose
  split_ifs with hc
  · exact h.close
  · exact h.closeSession (by simpa using hc) hid

theorem addSession (h : s.Accounted) (hserver : s.isClient = false) : s.addSession.Accounted := by
  have hfresh : s.created ∉ s.sessions := fun hmem => Nat.lt_irrefl _ (h.made _ hmem)
  constructor
  case nodup =>
    refine List.nodup_append.mpr ⟨h.nodup, List.nodup_singleton _, ?_⟩
    rintro a ha b hb rfl
    exact hfresh (List.mem_singleton.mp hb ▸ ha)
  case made =>
    intro id hid
    show id < s.created + 1
    rcases List.mem_append.mp hid with hid | hid
    · have hlt := h.made id hid
      omega
    · rw [List.mem_singleton.mp hid]
      omega
  case called =>
    intro id
    have hcalled := h.called id
    have hswept := h.swept id
    simp only [Socket.addSession, List.mem_append, List.mem_singleton, hcalled]
    by_cases hid : id = s.created
    · subst hid
      simp only [Nat.lt_irrefl, false_and, or_true, not_true_eq_false, false_or, false_iff, not_and]
      exact fun _ hsw => Nat.lt_irrefl _ (hswept hsw)
    · have hlt : id < s.created ↔ id < s.created + 1 := by omega
      simp [hid, hlt]
  case swept =>
    intro id hid
    have hlt := h.swept id hid
    show id < s.created + 1
    omega
  case client =>
    intro hc
    cases hserver.symm.trans hc

end Accounted

theorem accounted_start (isClient : Bool) : (start isClient).Accounted := by
  cases isClient with
  | true => exact ⟨by simp [start], by simp [start], by simp [start], by simp [start], by simp [start]⟩
  | false => exact ⟨by simp [start], by simp [start], by simp [start], by simp [start], by simp [start]⟩

/-- What a step does to the books: nothing, a new session, a closing call of the whole socket, or of
one session. -/
theorem step_cases (h : s.Accounted) (hs : s.step e = some s') :
    (s'.Accounted ∧ s'.calls = s.calls) ∨ (e = .close ∧ s' = s.close) ∨
    ∃ id r, id < s.created ∧ s' = (s.setReader id r).sessionClose id ∧
      (e = .sessionClose id ∨ ∃ failTimes e', e = .read id e' ∧ s.readers id = .read failTimes ∧
        (Reader.turn failTimes e').2 = true) := by
  cases e with
  | close =>
    cases hs
    exact Or.inr (Or.inl ⟨rfl, rfl⟩)
  | sessionClose id =>
    simp only [step, Option.ite_none_right_eq_some, Option.some.injEq] at hs
    obtain ⟨hid, rfl⟩ := hs
    refine Or.inr (Or.inr ⟨id, s.readers id, hid, ?_, Or.inl rfl⟩)
    have hsame : s.setReader id (s.readers id) = s := by
      unfold setReader
      congr 1
      funext i
      split_ifs with hi
      · rw [hi]
      · rfl
    rw [hsame]
  | loop =>
    simp only [step, Option.ite_none_right_eq_some, Option.some.injEq] at hs
    obtain ⟨hacc, rfl⟩ := hs
    exact Or.inl ⟨h.setAccepting (by simp [hacc]), rfl⟩
  | accept ok =>
    simp only [step, Option.ite_none_right_eq_some, Option.some.injEq] at hs
    obtain ⟨⟨hacc, -⟩, rfl⟩ := hs
    exact Or.inl ⟨h.setAccepting (by simp [hacc]), rfl⟩
  | add ok =>
    simp only [step, Option.ite_none_right_eq_some, Option.some.injEq] at hs
    obtain ⟨hacc, rfl⟩ := hs
    have hserver : s.isClient = false := by
      by_contra hc
      have hend := (h.client (by simpa using hc)).2.2
      cases hacc.symm.trans hend
    left
    cases ok with
    | true =>
      refine ⟨(h.addSession hserver).setAccepting ?_, rfl⟩
      show s.accepting ≠ .ended
      simp [hacc]
    | false => exact ⟨h.setAccepting (by simp [hacc]), rfl⟩
  | check id =>
    simp only [step, Option.ite_none_right_eq_some] at hs
    obtain ⟨-, hs⟩ := hs
    split at hs
    · cases hs
      exact Or.inl ⟨h.setReader _ _, rfl⟩
    · cases hs
  | read id e' =>
    simp only [step, Option.ite_none_right_eq_some] at hs
    obtain ⟨hid, hs⟩ := hs
    split at hs
    · rename_i failTimes hr
      split_ifs at hs with hsock hclose
      · cases hs
        exact Or.inr (Or.inr ⟨id, _, hid, rfl, Or.inr ⟨failTimes, e', rfl, hr, hclose⟩⟩)
      · cases hs
        exact Or.inl ⟨h.setReader _ _, rfl⟩
    · cases hs

theorem Accounted.step (h : s.Accounted) (hs : s.step e = some s') : s'.Accounted := by
  rcases step_cases h hs with ⟨h', -⟩ | ⟨-, rfl⟩ | ⟨id, r, hid, rfl, -⟩
  · exact h'
  · exact h.close
  · exact (h.setReader id r).sessionClose hid

/-- The session is in the map and no `Close` has swept it. -/
def SessionOpen (s : Socket) (id : Nat) : Prop := id ∈ s.sessions ∧ id ∉ s.swept

/-- The closing calls that the step makes reach open sessions only. -/
def ClosesOpen (s : Socket) : SocketEvent → Prop
  | .close => ∀ id ∈ s.sessions, id ∉ s.swept
  | .sessionClose id => s.SessionOpen id
  | .read id e =>
    match s.readers id with
    | .read failTimes => (Reader.turn failTimes e).2 = true → s.SessionOpen id
    | _ => True
  | _ => True

instance (s : Socket) (e : SocketEvent) : Decidable (s.ClosesOpen e) := by
  unfold ClosesOpen SessionOpen
  split
  · infer_instance
  · infer_instance
  · split <;> infer_instance
  · infer_instance

/-- The session a step makes a closing call for is open. -/
theorem sessionOpen_of (hok : s.ClosesOpen e)
    (he : e = .sessionClose id ∨ ∃ failTimes e', e = .read id e' ∧ s.readers id = .read failTimes ∧
      (Reader.turn failTimes e').2 = true) : s.SessionOpen id := by
  rcases he with rfl | ⟨failTimes, e', rfl, hr, hclose⟩
  · exact hok
  · simp only [ClosesOpen, hr] at hok
    exact hok hclose

theorem Accounted.nodup_close (h : s.Accounted) (hnd : s.calls.Nodup)
    (hopen : ∀ id ∈ s.sessions, id ∉ s.swept) : s.close.calls.Nodup := by
  refine List.nodup_append.mpr ⟨hnd, h.nodup, ?_⟩
  rintro id hcalled id' hid rfl
  rcases (h.called id).mp hcalled with ⟨-, hout | hsw⟩
  · exact hout hid
  · exact hopen id hid hsw

theorem Accounted.nodup_sessionClose (h : s.Accounted) (hnd : s.calls.Nodup)
    (hopen : s.SessionOpen id) : (s.sessionClose id).calls.Nodup := by
  have hfresh : id ∉ s.calls := by
    intro hcalled
    rcases (h.called id).mp hcalled with ⟨-, hout | hsw⟩
    · exact hout hopen.1
    · exact hopen.2 hsw
  unfold Socket.sessionClose
  split_ifs with hc
  · apply h.nodup_close hnd
    intro j hj
    have hone := (h.client hc).1
    rw [hone, List.mem_singleton] at hj
    have hid := hopen.1
    rw [hone, List.mem_singleton] at hid
    rw [hj, ← hid]
    exact hopen.2
  · refine List.nodup_append.mpr ⟨hnd, List.nodup_singleton _, ?_⟩
    rintro j hj j' hj' rfl
    exact hfresh (List.mem_singleton.mp hj' ▸ hj)

theorem count_sessionClose (h : s.Accounted) (hid : id < s.created) (hclosed : ¬ s.SessionOpen id) :
    2 ≤ (s.sessionClose id).calls.count id := by
  have hcalled : id ∈ s.calls := by
    refine (h.called id).mpr ⟨hid, ?_⟩
    by_contra hcon
    push Not at hcon
    exact hclosed hcon
  have hpos : 0 < s.calls.count id := List.count_pos_iff.mpr hcalled
  unfold sessionClose
  split_ifs with hc
  · obtain ⟨hone, hmade, -⟩ := h.client hc
    have hzero : id = 0 := by omega
    show 2 ≤ (s.calls ++ s.sessions).count id
    rw [List.count_append, hone, hzero, List.count_singleton_self]
    rw [hzero] at hpos
    omega
  · show 2 ≤ (s.calls ++ [id]).count id
    rw [List.count_append, List.count_singleton_self]
    omega

end Socket

open Socket

variable {isClient : Bool} {s s' : Socket} {e : SocketEvent}

theorem accounted_reachable {ok : Socket → SocketEvent → Prop}
    (h : (socket isClient).ReachableWhen ok s) : s.Accounted := by
  refine h.invariant Socket.Accounted ?_ ?_
  · rintro s rfl
    exact accounted_start isClient
  · intro s e s' _ hacc _ hs
    exact hacc.step hs

/-- The callback of every session is called at most once, in every run whose closing calls reach open
sessions only. -/
theorem session_closed_once (h : (socket isClient).ReachableWhen Socket.ClosesOpen s) (id : Nat) :
    s.calls.count id ≤ 1 := by
  have hnd : s.calls.Nodup := by
    refine h.invariant (fun s => s.calls.Nodup) ?_ ?_
    · rintro s rfl
      cases isClient <;> exact List.nodup_nil
    · intro s e s' hr hnd hok hs
      have hacc := accounted_reachable hr
      rcases step_cases hacc hs with ⟨-, hcalls⟩ | ⟨rfl, rfl⟩ | ⟨id, r, hid, rfl, he⟩
      · rw [hcalls]
        exact hnd
      · exact hacc.nodup_close hnd hok
      · have hopen : s.SessionOpen id := sessionOpen_of hok he
        exact (hacc.setReader id r).nodup_sessionClose hnd hopen
  exact List.nodup_iff_count_le_one.mp hnd id

/-- Two sessions are accepted. The first loses its connection, and then the acceptor is closed. -/
theorem session_closed_once_acceptor :
    ∃ s, (socket false).ReachableWhen Socket.ClosesOpen s ∧ s.calls = [0, 1] ∧
      ∀ id, s.calls.count id ≤ 1 := by
  have hrun : (((socket false).restrict Socket.ClosesOpen).run (Socket.start false)
      [.loop, .accept true, .add true, .loop, .accept true, .add true, .check 0,
        .read 0 .connectionLost, .close]).map Socket.calls = some [0, 1] := by
    decide
  obtain ⟨s, hr, hcalls⟩ := Machine.observedWhen_of_run hrun rfl
  exact ⟨s, hr, hcalls, session_closed_once hr⟩

/-- The socket is closed while `readIo` is in its read. When the read fails, `readIo` closes the session
a second time, on both sides. -/
theorem session_closed_twice :
    (∃ s, (socket true).Reachable s ∧ s.calls.count 0 = 2) ∧
      ∃ s, (socket false).Reachable s ∧ s.calls.count 0 = 2 := by
  have hclient : ((socket true).run (Socket.start true)
      [.check 0, .close, .read 0 .connectionLost]).map (fun s => s.calls.count 0) = some 2 := by
    decide
  have hserver : ((socket false).run (Socket.start false)
      [.loop, .accept true, .add true, .check 0, .close, .read 0 .connectionLost]).map
      (fun s => s.calls.count 0) = some 2 := by
    decide
  exact ⟨Machine.observed_of_run hclient rfl, Machine.observed_of_run hserver rfl⟩

/-- A closing call that reaches a session which is not open any more calls its callback again. -/
theorem session_closed_again (h : (socket isClient).Reachable s) (hs : s.step e = some s')
    (hbad : ¬ s.ClosesOpen e) : ∃ id, 2 ≤ s'.calls.count id := by
  have hacc := accounted_reachable h
  cases e with
  | close =>
    cases hs
    simp only [ClosesOpen, not_forall, not_not] at hbad
    obtain ⟨id, hid, hsw⟩ := hbad
    have hcalled : id ∈ s.calls := (hacc.called id).mpr ⟨hacc.made id hid, Or.inr hsw⟩
    have hpos : 0 < s.calls.count id := List.count_pos_iff.mpr hcalled
    have hpos' : 0 < s.sessions.count id := List.count_pos_iff.mpr hid
    refine ⟨id, ?_⟩
    show 2 ≤ (s.calls ++ s.sessions).count id
    rw [List.count_append]
    omega
  | sessionClose id =>
    simp only [Socket.step, Option.ite_none_right_eq_some, Option.some.injEq] at hs
    obtain ⟨hid, rfl⟩ := hs
    exact ⟨id, count_sessionClose hacc hid hbad⟩
  | read id e' =>
    simp only [Socket.step, Option.ite_none_right_eq_some] at hs
    obtain ⟨hid, hs⟩ := hs
    split at hs
    · rename_i failTimes hr
      simp only [ClosesOpen, hr, not_forall] at hbad
      obtain ⟨hclose, hopen⟩ := hbad
      split_ifs at hs
      cases hs
      exact ⟨id, count_sessionClose (hacc.setReader id _) hid hopen⟩
    · cases hs
  | _ => exact absurd trivial hbad

end OwnX.Nio
