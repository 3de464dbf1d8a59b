import Aesd.Library.Lines

/-!
# A log of the most recent lines

The purpose of a line log: it keeps the last `n` complete lines of everything that was ever written
to it, and the unterminated tail on a stage. How the stream was cut into writes cannot be told from
the log.
-/

/-- Append to a queue that keeps its last `n` elements. -/
def pushLast {α : Type*} (n : ℕ) (q : List α) (a : α) : List α := (q ++ [a]).rtake n

section pushLast

variable {α : Type*} {n : ℕ}

lemma rtake_eq_self {l : List α} (h : l.length ≤ n) : l.rtake n = l := by
  simp [List.rtake, Nat.sub_eq_zero_of_le h]

@[simp] lemma length_rtake (l : List α) : (l.rtake n).length = min n l.length := by
  simp only [List.rtake, List.length_drop]
  omega

lemma rtake_rtake_append (l l' : List α) : (l.rtake n ++ l').rtake n = (l ++ l').rtake n := by
  simp only [List.rtake, List.length_append, List.length_drop, List.drop_append, List.drop_drop]
  congr 1 <;> congr 1 <;> omega

lemma mem_of_mem_rtake {l : List α} {a : α} (h : a ∈ l.rtake n) : a ∈ l :=
  List.mem_of_mem_drop h

/-- Pushing one by one keeps the last `n` of the queue and everything pushed. -/
lemma foldl_pushLast (q l : List α) (hq : q.length ≤ n) :
    l.foldl (pushLast n) q = (q ++ l).rtake n := by
  induction l generalizing q with
  | nil => simp [rtake_eq_self hq]
  | cons a l ih =>
    have hlen : (pushLast n q a).length ≤ n := by simp [pushLast]
    rw [List.foldl_cons, ih _ hlen, pushLast, rtake_rtake_append, List.append_assoc,
      List.singleton_append]

/-- A push that finds room drops nothing. -/
lemma pushLast_of_lt {q : List α} {a : α} (h : q.length < n) : pushLast n q a = q ++ [a] :=
  rtake_eq_self (by simpa using h)

/-- A push into a full queue drops the oldest element. -/
lemma pushLast_of_eq {q : List α} {a : α} (hn : 0 < n) (h : q.length = n) :
    pushLast n q a = q.tail ++ [a] := by
  cases q with
  | nil => simp at h; omega
  | cons b q =>
    have hdrop : n + 1 - n = 1 := by omega
    simp only [List.length_cons] at h
    simp [pushLast, List.rtake, h, hdrop]

lemma map_pushLast {β : Type*} (f : α → β) (q : List α) (a : α) :
    (pushLast n q a).map f = pushLast n (q.map f) (f a) := by
  simp [pushLast, List.rtake, List.map_drop]

end pushLast

/-- The last lines of a stream, and its unterminated tail. -/
structure LineLog (α : Type*) where
  lines : List (List α)
  stage : List α

namespace LineLog

variable {α : Type*} [DecidableEq α]

def empty : LineLog α := ⟨[], []⟩

/-- Write to a log that keeps `n` lines delimited by `d`. -/
def write (n : ℕ) (d : α) (log : LineLog α) (data : List α) : LineLog α where
  lines := (log.lines ++ Delimited.lines d (log.stage ++ data)).rtake n
  stage := Delimited.rest d (log.stage ++ data)

/-- Everything the log stores, as one stream. -/
def content (log : LineLog α) : List α := log.lines.flatten

/-- Two writes are one write of the concatenated data. -/
lemma write_write (n : ℕ) (d : α) (log : LineLog α) (s s' : List α) :
    (log.write n d s).write n d s' = log.write n d (s ++ s') := by
  have hlines := Delimited.lines_append d (log.stage ++ s) s'
  have hrest := Delimited.rest_append d (log.stage ++ s) s'
  rw [List.append_assoc] at hlines hrest
  simp only [write, rtake_rtake_append, List.append_assoc, hlines, hrest]

/-- A log remembers the last `n` lines and the tail of the whole stream written to it. -/
lemma foldl_write (n : ℕ) (d : α) (writes : List (List α)) :
    writes.foldl (write n d) empty
      = ⟨(Delimited.lines d writes.flatten).rtake n, Delimited.rest d writes.flatten⟩ := by
  suffices h : ∀ s : List α, writes.foldl (write n d) (empty.write n d s)
      = empty.write n d (s ++ writes.flatten) by
    simpa [write, empty] using h []
  induction writes with
  | nil => intro s; simp
  | cons w ws ih =>
    intro s
    rw [List.foldl_cons, write_write, ih, List.append_assoc, List.flatten_cons]

end LineLog
