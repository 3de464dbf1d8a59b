import Aesd.Server.FileSessions.Handler

/-!
# Runs with a timer

Any number of connections, whatever their clients send, in any order of the steps of their threads,
with the signals of the timer delivered to any thread at any moment.
-/

namespace Aesd.FileSessions

open Exec Threads Threaded

variable {n : ℕ} {w : Workload n} {i : Fin n}

/-- What is known when a frame has come to its end. -/
def Ended (w : Workload n) : Frame n → List ServerMutex → Unit → Shared n → Prop
  | .inl (.handler i), held, _, s =>
    held = [] ∧ Knows w i (w.segs i) s ∧ s.fileFD (.inl (.handler i)) = none ∨ s.exited = true
  | _, held, _, _ => held = []

lemma start_inv (w : Workload n) :
    Shared.Inv w ⟨[], fun _ => none, w.outcomes, [], [], [], false⟩ where
  outcomes := List.suffix_refl _
  plan i := List.nil_prefix
  writes _ i := rfl
  replied x hx := absurd hx List.not_mem_nil
  exited hexited := by cases hexited
  quiet _ c hc := absurd hc List.not_mem_nil

lemma start_safe (w : Workload n) : w.start.Safe (protocol w) (Ended w) := by
  refine Config.start_safe (fun _ => trivial) fun f => ?_
  have hidle : ∀ f : Frame n, w.program f = Prog.ret () → (∀ i, f ≠ .inl (.handler i)) →
      (w.program f).Ok (protocol w) f (Ended w f) []
        ⟨[], fun _ => none, w.outcomes, [], [], [], false⟩ := by
    intro f hf hne
    rw [hf]
    intro u _
    rcases f with (_ | _ | i) | t
    · rfl
    · rfl
    · exact absurd rfl (hne i)
    · rfl
  rcases f with (_ | _ | i) | t
  · exact hidle _ rfl nofun
  · exact hidle _ rfl nofun
  · have hclosed : Knows w i [] ⟨[], fun _ => none, w.outcomes, [], [], [], false⟩ :=
      ⟨start_inv w, rfl⟩
    refine ((fileCalls_ok w i).connectionHandlerThread ⟨hclosed, rfl⟩ (w.awaits i)
      (w.segs_eq i).1 (List.nil_append _)).bind fun held _ s hs => ?_
    rcases hs with ⟨rfl, hknows, hnone⟩ | hexited
    · exact fun u hu => .inl ⟨rfl, hknows.rely hu, (Rely.fileFD hu).trans hnone⟩
    · exact fun u hu => .inr (Rely.exited hu hexited)
  · exact hidle _ rfl nofun

/-- `TimeStamper` may interrupt every thread at every moment. -/
lemma interruptible (w : Workload n) :
    Config.Interruptible (protocol w) (Ended w) Shared.exited (Shared.Inv w) timeStamper where
  keeps _ _ _ _ hguar hs := hguar.inv hs
  handler t time s _ := timeStamper_ok w t time s
  ends f held a s hs := by
    rcases f with (_ | _ | i) | t
    · exact .inl hs
    · exact .inl hs
    · rcases hs with ⟨hnil, -⟩ | hexited
      · exact .inl hnil
      · exact .inr hexited
    · exact .inl hs

lemma runFileServer_inv (w : Workload n) (events : List (ServerEvent n)) :
    Returns (runFileServer events) w.start fun _ c =>
      c.Safe (protocol w) (Ended w) ∧ c.shared.Inv w :=
  (start_safe w).events (interruptible w) (start_inv w) events

/-- What a handler that has ended leaves behind. -/
lemma ended_of_safe {c : Config Fault (Shared n) ServerMutex (Frame n) Unit}
    (h : c.Safe (protocol w) (Ended w)) (hended : c.Ended (.inl (.handler i)))
    (hrunning : c.shared.exited = false) :
    c.shared.carriedBy i = w.segs i ∧ c.shared.fileFD (.inl (.handler i)) = none := by
  obtain ⟨held, h⟩ := h
  obtain ⟨a, ha⟩ := hended
  have hok := h.thread (.inl (.handler i))
  rw [ha] at hok
  rcases hok _ (Protocol.Rely.refl _) with ⟨-, hknows, hclosed⟩ | hexited
  · exact ⟨hknows.done, hclosed⟩
  · rw [hrunning] at hexited
    cases hexited

/-- In no order of the steps and the signals a thread unlocks a mutex that it has not locked. At
every moment every connection has carried out the first of the segments that the sequential thread
hands on when it receives the same, and all of them when its thread has ended, and it has written
those that are no commands, each as a whole, unless a `write` has not; only then a handler exits the
process. A reply is never more than what the file held when the thread asked for its size. -/
theorem fileServer_safe (w : Workload n) (events : List (ServerEvent n)) :
    Returns (runFileServer events) w.start fun _ c =>
      (∀ i, Returns (Machine.run (Aesd.connectionHandlerStep recordSegments) (w.input i))
        (.start (w.buffer i) (w.beyond i) (w.residual i) []) fun _ t =>
          (c.shared.carriedBy i).map Segment.bytes <+: t.shared ∧
          (c.Ended (.inl (.handler i)) → c.shared.exited = false →
            (c.shared.carriedBy i).map Segment.bytes = t.shared ∧
              c.shared.fileFD (.inl (.handler i)) = none)) ∧
      ((∀ x ∈ c.shared.carried, x.ok = true) →
        c.shared.exited = false ∧ ∀ i, c.shared.writes i = ordinary (c.shared.carriedBy i)) ∧
      (w.Quiet → ∀ x ∈ c.shared.carried, x.ok = true) ∧
      ∀ x ∈ c.shared.replied, x.Sound w := by
  refine (runFileServer_inv w events).mono ?_
  rintro os c ⟨hsafe, hinv⟩
  refine ⟨fun i => ?_, fun hall => ⟨?_, hinv.writes hall⟩, hinv.quiet, hinv.replied⟩
  · refine (w.segs_eq i).2.mono ?_
    rintro os' t ht
    rw [ht]
    refine ⟨(hinv.plan i).map _, fun hended hrunning => ?_⟩
    obtain ⟨hdone, hclosed⟩ := ended_of_safe hsafe hended hrunning
    rw [hdone]
    exact ⟨rfl, hclosed⟩
  · by_contra hexited
    obtain ⟨x, hx, hfailed⟩ := hinv.exited (Bool.not_eq_false _ ▸ hexited)
    rw [hall x hx] at hfailed
    cases hfailed

/-! ### The signal and the mutex -/

instance : Finite (ServerThread n) := by
  apply Finite.of_injective (β := Option (Option (Fin n))) fun t => match t with
    | .main => none
    | .receiver => some none
    | .handler i => some (some i)
  rintro (_ | _ | i) (_ | _ | j) h <;> simp_all

instance : Nonempty (ServerThread n) := ⟨.main⟩

/-- No signal was delivered to a thread whose program had locked `FileMutex`. -/
def Spared (w : Workload n) (events : List (ServerEvent n)) : Prop :=
  Machine.Meets fileEvent (Config.Spares Shared.exited) events w.start

/-- A run either spares the thread that holds `FileMutex`, or that thread waits for itself. -/
lemma runFileServer_or (w : Workload n) (events : List (ServerEvent n)) :
    Returns (runFileServer events) w.start fun _ c =>
      Spared w events ∧ (c.Safe (protocol w) (Ended w) ∧ c.shared.Inv w) ∧ c.Unburdened ∨
      ¬ Spared w events ∧ (c.Safe (protocol w) (Ended w) ∧ c.shared.Inv w) ∧
        ∃ t, c.Wedged t .fileMutex ∧ c.shared.exited = false := by
  apply (start_safe w).unburdened_or_wedged (interruptible w) (start_inv w)
  · intro t _ mutex howner
    cases howner
  · exact fun t time => ⟨_, rfl⟩
  · intro f held s s' hnot hguar hrunning
    rw [(hguar.outside hnot).exited, hrunning]

/-- A thread that waits for itself keeps `FileMutex`. -/
lemma later_of_wedged {c : Config Fault (Shared n) ServerMutex (Frame n) Unit} {t : ServerThread n}
    (hw : c.Wedged t .fileMutex) (hsafe : c.Safe (protocol w) (Ended w)) (hinv : c.shared.Inv w)
    (later : List (ServerEvent n)) :
    Returns (runFileServer later) c fun _ c' =>
      c'.Wedged t .fileMutex ∧ Outside c.shared c'.shared :=
  hw.events hsafe (interruptible w) hinv (Outside.refl c.shared)
    (fun _ _ _ _ hnot hguar hs => hs.trans (hguar.outside hnot)) later

/-- A client that sends one line. -/
def oneLine : Workload 1 where
  buffer _ := List.replicate bufferSize 0
  beyond _ := []
  residual _ := List.replicate bufferSize 0
  input _ := [.data [97, 98, newline]]
  length_buffer _ := List.length_replicate
  fits _ := ⟨by decide, fun _ _ _ => trivial⟩
  outcomes := []

end Aesd.FileSessions
