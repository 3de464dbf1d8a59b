import Aesd.Library.Machine
import Aesd.Server.ConnectionList.Basic

/-!
# The list of connections as a sequence

The items from the head of the list on are a sequence of connections, and every call does to the
sequence what it is for. `DestroyConnectionList` looks its items up by their descriptors, and every
time it finds the one that it has in its hand: it is the first one of the list.
-/

namespace Aesd

open Exec Chain

/-- The connections in their order, each with its item, the number of the next item, and what was
joined and freed so far. -/
structure Connections where
  items : List (ItemPtr × ConnectionList.Connection)
  allocated : ℕ
  joined : List ThreadId
  freed : List ItemPtr

namespace Connections

/-- A new connection comes last. -/
def add (connectionFD : ℤ) (thread : ThreadId) (c : Connections) : Connections :=
  { c with
    items := c.items ++ [(c.allocated, ⟨connectionFD, thread⟩)]
    allocated := c.allocated + 1 }

/-- The first connection with this descriptor is joined, freed and removed. -/
def close (connectionFD : ℤ) (c : Connections) : Connections :=
  match c.items.find? (·.2.connectionFD = connectionFD) with
  | some x => { c with
      items := c.items.eraseP (·.2.connectionFD = connectionFD)
      joined := c.joined ++ [x.2.thread]
      freed := c.freed ++ [x.1] }
  | none => c

/-- The value of a call that closes: 0 if there is something to close. -/
def closeStatus (connectionFD : ℤ) (c : Connections) : ℤ :=
  if c.items.any (·.2.connectionFD = connectionFD) then 0 else if c.items = [] then 1 else -1

/-- All connections are joined and freed, each of them once. -/
def destroy (c : Connections) : Connections :=
  { c with
    items := []
    joined := c.joined ++ c.items.map (·.2.thread)
    freed := c.freed ++ ptrs c.items }

/-- What a call returns, and what it does to the sequence. -/
def step (call : ListCall) (c : Connections) : ListReturn × Connections :=
  match call with
  | .add connectionFD thread => (.connection c.allocated, c.add connectionFD thread)
  | .close connectionFD => (.status (c.closeStatus connectionFD), c.close connectionFD)
  | .destroy => (.nothing, c.destroy)

def init : Connections := ⟨[], 0, [], []⟩

end Connections

/-- The list holds the items of the sequence, in this order, and no other item is left. -/
structure ListMemory.Holds (m : ListMemory) (c : Connections) : Prop where
  chain : Segment m.items m.list.head c.items none
  lt_allocated : ∀ p ∈ ptrs c.items, p < c.allocated
  eq_none : ∀ p, p ∉ ptrs c.items → m.items p = none
  allocated : m.allocated = c.allocated
  joined : m.joined = c.joined
  freed : m.freed = c.freed

/-- A mutex that can be locked when it is `free`, and unlocked when it is `held`. -/
structure MutexCalls.Alternates (mutex : MutexCalls) (free held : MutexState) : Prop where
  lock : ∀ m, m.list.mutex = free → mutex.lock m = .ok ((), { m with list.mutex := held })
  unlock : ∀ m, m.list.mutex = held → mutex.unlock m = .ok ((), { m with list.mutex := free })

variable {mutex : MutexCalls} {free held : MutexState} {m : ListMemory} {c : Connections}
  {p prev : Option ItemPtr} {connectionFD : ℤ} {fuel : ℕ}
  {x : ItemPtr × ConnectionList.Connection}
  {items before after : List (ItemPtr × ConnectionList.Connection)}

lemma noMutex_alternates (s : MutexState) : ConnectionList.noMutex.Alternates s s where
  lock := by
    rintro m rfl
    rfl
  unlock := by
    rintro m rfl
    rfl

lemma pthreadMutex_alternates :
    ConnectionList.pthreadMutex.Alternates .released .locked where
  lock := by
    intro m h
    simp only [ConnectionList.pthreadMutex, read_bind_apply, h]
    rfl
  unlock := by
    intro m h
    simp only [ConnectionList.pthreadMutex, read_bind_apply, h]
    rfl

/-- A released mutex can be destroyed. -/
lemma pthreadMutex_destroy (m : ListMemory) (h : m.list.mutex = .released) :
    ConnectionList.pthreadMutex.destroy m = .ok ((), { m with list.mutex := .destroyed }) := by
  simp only [ConnectionList.pthreadMutex, read_bind_apply, h]
  rfl

namespace ListMemory.Holds

lemma init : ListMemory.init.Holds .init where
  chain := .nil none
  lt_allocated _ h := absurd h List.not_mem_nil
  eq_none _ _ := rfl
  allocated := rfl
  joined := rfl
  freed := rfl

lemma setMutex (h : m.Holds c) (s : MutexState) :
    ListMemory.Holds { m with list.mutex := s } c := { h with }

/-- There are no more items than allocations. -/
lemma length_le (h : m.Holds c) : c.items.length ≤ m.allocated := by
  have hsub : ptrs c.items ⊆ List.range m.allocated := by
    intro p hp
    rw [List.mem_range, h.allocated]
    exact h.lt_allocated p hp
  have hlen := (h.chain.nodup.subperm hsub).length_le
  rwa [ptrs, List.length_map, List.length_range] at hlen

lemma allocated_notMem (h : m.Holds c) : m.allocated ∉ ptrs c.items := by
  intro hmem
  have hlt := h.lt_allocated _ hmem
  rw [h.allocated] at hlt
  exact lt_irrefl _ hlt

end ListMemory.Holds

namespace ConnectionList

/-! ### Looking up -/

lemma item_of_some {a : ItemPtr} {v : Connection} {next : Option ItemPtr}
    (h : m.items a = some ⟨v, next⟩) : item a m = .ok (⟨v, next⟩, m) := by
  simp only [item, h]

/-- The item before the first one behind `before`. -/
def lastPtr (prev : Option ItemPtr) (before : List (ItemPtr × Connection)) : Option ItemPtr :=
  before.foldl (fun _ x => some x.1) prev

lemma lastPtr_concat (x : ItemPtr × Connection) :
    lastPtr prev (before ++ [x]) = some x.1 := by
  rw [lastPtr, List.foldl_append]
  rfl

/-- The loop stops at the first item with the descriptor. -/
lemma findLoop_of_found (prev : Option ItemPtr) (h : Segment m.items p (before ++ x :: after) none)
    (hbefore : ∀ y ∈ before, y.2.connectionFD ≠ connectionFD)
    (hx : x.2.connectionFD = connectionFD) (hfuel : before.length < fuel) :
    findLoop connectionFD fuel p prev m = .ok (some (x.1, lastPtr prev before), m) := by
  induction before generalizing p prev fuel with
  | nil =>
    obtain ⟨fuel, rfl⟩ := Nat.exists_eq_succ_of_ne_zero hfuel.ne_bot
    obtain ⟨rfl, next, hmem, -⟩ := h.of_cons
    rw [findLoop, bind_ok (item_of_some hmem), if_pos hx]
    rfl
  | cons y before ih =>
    obtain ⟨fuel, rfl⟩ := Nat.exists_eq_succ_of_ne_zero hfuel.ne_bot
    obtain ⟨rfl, next, hmem, htail⟩ := h.of_cons
    rw [findLoop, bind_ok (item_of_some hmem), if_neg (hbefore y List.mem_cons_self)]
    exact ih _ htail (fun z hz => hbefore z (List.mem_cons_of_mem y hz))
      (Nat.lt_of_succ_lt_succ hfuel)

/-- The loop passes all items if none has the descriptor. -/
lemma findLoop_of_forall_ne (prev : Option ItemPtr) (h : Segment m.items p items none)
    (hitems : ∀ y ∈ items, y.2.connectionFD ≠ connectionFD) (hfuel : items.length < fuel) :
    findLoop connectionFD fuel p prev m = .ok (none, m) := by
  induction items generalizing p prev fuel with
  | nil =>
    obtain ⟨fuel, rfl⟩ := Nat.exists_eq_succ_of_ne_zero hfuel.ne_bot
    obtain rfl := h.of_nil
    rfl
  | cons y items ih =>
    obtain ⟨fuel, rfl⟩ := Nat.exists_eq_succ_of_ne_zero hfuel.ne_bot
    obtain ⟨rfl, next, hmem, htail⟩ := h.of_cons
    rw [findLoop, bind_ok (item_of_some hmem), if_neg (hitems y List.mem_cons_self)]
    exact ih _ htail (fun z hz => hitems z (List.mem_cons_of_mem y hz))
      (Nat.lt_of_succ_lt_succ hfuel)

lemma endLoop_of_segment {a : ItemPtr} (h : Segment m.items (some a) (before ++ [x]) none)
    (hfuel : before.length < fuel) : endLoop fuel a m = .ok (x.1, m) := by
  induction before generalizing a fuel with
  | nil =>
    obtain ⟨fuel, rfl⟩ := Nat.exists_eq_succ_of_ne_zero hfuel.ne_bot
    obtain ⟨heq, next, hmem, htail⟩ := h.of_cons
    cases heq
    obtain rfl := htail.of_nil
    rw [endLoop, bind_ok (item_of_some hmem)]
    rfl
  | cons y before ih =>
    obtain ⟨fuel, rfl⟩ := Nat.exists_eq_succ_of_ne_zero hfuel.ne_bot
    obtain ⟨heq, next, hmem, htail⟩ := h.of_cons
    cases heq
    rw [endLoop, bind_ok (item_of_some hmem)]
    cases next with
    | none => exact absurd (htail.start_eq_none_iff.mp rfl) (by simp)
    | some b => exact ih htail (Nat.lt_of_succ_lt_succ hfuel)

/-! ### Adding -/

/-- `FindEnd_nolock` finds the last item. -/
lemma findEndNolock_eq (h : Segment m.items m.list.head items none)
    (hlen : items.length ≤ m.allocated) :
    findEndNolock m = .ok (items.getLast?.map Prod.fst, m) := by
  rw [findEndNolock, read_bind_apply, id]
  rcases List.eq_nil_or_concat' items with rfl | ⟨before, x, rfl⟩
  · rw [h.of_nil]
    rfl
  · cases hhead : m.list.head with
    | none =>
      rw [hhead] at h
      exact absurd (h.start_eq_none_iff.mp rfl) (by simp)
    | some a =>
      rw [hhead] at h
      rw [List.length_append, List.length_singleton] at hlen
      dsimp only
      rw [bind_ok (endLoop_of_segment h (by omega)), List.getLast?_concat]
      rfl

/-- The new item hangs behind the last one. -/
lemma linkItem_spec {a : ItemPtr} {v : Connection} (h : Segment m.items m.list.head items none)
    (ha : m.items a = some ⟨v, none⟩) (hnew : a ∉ ptrs items) :
    Returns (linkItem a (items.getLast?.map Prod.fst)) m fun _ m' =>
      Segment m'.items m'.list.head (items ++ [(a, v)]) none ∧
      (∀ p, p ∉ ptrs items → m'.items p = m.items p) ∧
      m' = { m with items := m'.items, list.head := m'.list.head } := by
  rcases List.eq_nil_or_concat' items with rfl | ⟨before, x, rfl⟩
  · refine ⟨(), _, rfl, .cons ha (.nil none), fun _ _ => rfl, rfl⟩
  · obtain ⟨next, hx⟩ := h.exists_node (List.mem_append_right before List.mem_cons_self)
    have hnodup := h.nodup
    rw [ptrs_append, ptrs_cons, ptrs_nil] at hnodup hnew
    have hbefore : x.1 ∉ ptrs before := by
      have := List.disjoint_of_nodup_append hnodup
      exact fun hmem => this hmem List.mem_cons_self
    have hne : a ≠ x.1 := by
      rintro rfl
      exact hnew (List.mem_append_right _ List.mem_cons_self)
    rw [List.getLast?_concat, Option.map_some, linkItem, setNext]
    refine .step (item_of_some hx) ⟨(), _, rfl, ?_, ?_, rfl⟩
    · refine (h.redirect hbefore (some a)).append (.cons ?_ (.nil none))
      exact (Function.update_of_ne hne _ _).trans ha
    · intro p hp
      refine Function.update_of_ne ?_ _ _
      rintro rfl
      exact hp (by simp)

/-- `AddConnection` -/
lemma addConnection_spec (hmutex : mutex.Alternates free held) (h : m.Holds c)
    (hfree : m.list.mutex = free) (connectionFD : ℤ) (thread : ThreadId) :
    Returns (addConnection mutex connectionFD thread) m fun p m' =>
      p = c.allocated ∧ m'.Holds (c.add connectionFD thread) ∧ m'.list.mutex = free := by
  have hnew := h.allocated_notMem
  have hlen := h.length_le
  set m₂ : ListMemory := { m with
    list.mutex := held
    items := Function.update m.items m.allocated (some ⟨⟨connectionFD, thread⟩, none⟩)
    allocated := m.allocated + 1 } with hm₂
  have hchain : Segment m₂.items m₂.list.head c.items none := h.chain.update_of_notMem hnew _
  obtain ⟨_, m₃, hlink, hchain₃, hother, hm₃⟩ :=
    linkItem_spec (v := ⟨connectionFD, thread⟩) hchain (Function.update_self ..) hnew
  have hlink' := bind_ok (f := fun _ => mutex.unlock >>= fun _ => pure m.allocated) hlink
  have hunlock := hmutex.unlock m₃ (by rw [hm₃])
  have hfind := findEndNolock_eq hchain (Nat.le_succ_of_le hlen)
  refine ⟨m.allocated, { m₃ with list.mutex := free }, ?_, h.allocated, ?_, rfl⟩
  · rw [addConnection, bind_ok (hmutex.lock m hfree)]
    have hnewItem : newItem ⟨connectionFD, thread⟩ { m with list.mutex := held }
        = .ok (m.allocated, m₂) := rfl
    rw [bind_ok hnewItem, bind_ok hfind, hlink', bind_ok hunlock]
    rfl
  · rw [hm₃]
    refine ⟨?_, ?_, ?_, ?_, h.joined, h.freed⟩
    · rw [Connections.add, ← h.allocated]
      exact hchain₃
    · intro p hp
      rw [Connections.add, ptrs_append, List.mem_append] at hp
      rcases hp with hp | hp
      · exact Nat.lt_succ_of_lt (h.lt_allocated p hp)
      · rw [List.mem_singleton.mp hp]
        exact Nat.lt_succ_self _
    · intro p hp
      rw [Connections.add, ptrs_append, List.mem_append, not_or, ← h.allocated] at hp
      have hne : p ≠ m.allocated := by
        rintro rfl
        exact hp.2 List.mem_cons_self
      exact (hother p hp.1).trans ((Function.update_of_ne hne _ _).trans (h.eq_none p hp.1))
    · exact congrArg (· + 1) h.allocated

/-! ### Closing -/

/-- The item that was found comes out of the list, and its place is closed. -/
lemma unlinkItem_spec (h : Segment m.items m.list.head (before ++ x :: after) none) :
    Returns (unlinkItem x.1 (lastPtr none before)) m fun _ m' =>
      Segment m'.items m'.list.head (before ++ after) none ∧
      m'.items x.1 = m.items x.1 ∧
      (∀ p, p ∉ ptrs before → m'.items p = m.items p) ∧
      m' = { m with items := m'.items, list.head := m'.list.head } := by
  obtain ⟨link, hbefore, hrest⟩ := h.of_append
  obtain ⟨rfl, next, hx, hafter⟩ := hrest.of_cons
  have hnodup := h.nodup
  rw [ptrs_append, ptrs_cons] at hnodup
  rcases List.eq_nil_or_concat' before with rfl | ⟨front, y, rfl⟩
  · rw [lastPtr, List.foldl_nil, unlinkItem]
    exact .step (item_of_some hx) ⟨(), _, rfl, hafter, rfl, fun _ _ => rfl, rfl⟩
  · obtain ⟨nexty, hy⟩ := hbefore.exists_node (List.mem_append_right front List.mem_cons_self)
    rw [ptrs_append, ptrs_cons, ptrs_nil] at hnodup
    obtain ⟨hfront, hback, hdisjoint⟩ := List.nodup_append.mp hnodup
    have hyfront : y.1 ∉ ptrs front := by
      have := List.disjoint_of_nodup_append hfront
      exact fun hmem => this hmem List.mem_cons_self
    have hyback : y.1 ∉ x.1 :: ptrs after := by
      intro hmem
      exact hdisjoint y.1 (List.mem_append_right _ List.mem_cons_self) y.1 hmem rfl
    rw [List.mem_cons, not_or] at hyback
    rw [lastPtr_concat, unlinkItem]
    refine .step (item_of_some hx) ?_
    rw [setNext]
    refine .step (item_of_some hy) ⟨(), _, rfl, ?_, ?_, ?_, rfl⟩
    · exact (hbefore.redirect hyfront next).append (hafter.update_of_notMem hyback.2 _)
    · exact Function.update_of_ne (Ne.symm hyback.1) _ _
    · intro p hp
      refine Function.update_of_ne ?_ _ _
      rintro rfl
      exact hp (by simp)

lemma freeItem_of_some {a : ItemPtr} {node : Chain.Node ItemPtr Connection}
    (h : m.items a = some node) : freeItem a m = .ok ((), { m with
      items := Function.update m.items a none
      freed := m.freed ++ [a] }) := by
  rw [freeItem, read_bind_apply, h]
  rfl

/-- What `CloseConnection` does when it has found an item. -/
lemma closeFound_spec (h : m.Holds c) (hitems : c.items = before ++ x :: after) :
    Returns (closeFound (some (x.1, lastPtr none before))) m fun status m' =>
      status = 0 ∧ m'.list.mutex = m.list.mutex ∧ m'.Holds { c with
        items := before ++ after
        joined := c.joined ++ [x.2.thread]
        freed := c.freed ++ [x.1] } := by
  have hchain := h.chain
  rw [hitems] at hchain
  have hnodup := hchain.nodup
  rw [ptrs_append, ptrs_cons] at hnodup
  obtain ⟨hxafter, hnodup⟩ := List.nodup_cons.mp (List.perm_middle.nodup_iff.mp hnodup)
  rw [← ptrs_append] at hxafter
  obtain ⟨next, hx⟩ := hchain.exists_node (List.mem_append_right before List.mem_cons_self)
  obtain ⟨_, m₁, hunlink, hchain₁, hx₁, hother, hm₁⟩ := unlinkItem_spec hchain
  rw [hx] at hx₁
  rw [closeFound]
  refine .step hunlink (.step (item_of_some hx₁) (.step (update_apply _ _)
    (.step (freeItem_of_some hx₁) ⟨0, _, rfl, rfl, by rw [hm₁], ?_⟩)))
  have hmem : ∀ p, p ∈ ptrs c.items ↔ p = x.1 ∨ p ∈ ptrs (before ++ after) := by
    intro p
    rw [hitems, ptrs_append, ptrs_append, ptrs_cons, ← List.mem_cons]
    exact List.perm_middle.mem_iff
  refine ⟨hchain₁.update_of_notMem hxafter none, ?_, ?_, ?_, ?_, ?_⟩
  · intro p hp
    exact h.lt_allocated p ((hmem p).mpr (.inr hp))
  · intro p hp
    by_cases heq : p = x.1
    · rw [heq]
      exact Function.update_self ..
    · have hbefore : p ∉ ptrs before := by
        intro hp'
        rw [ptrs_append] at hp
        exact hp (List.mem_append_left _ hp')
      refine (Function.update_of_ne heq _ _).trans ((hother p hbefore).trans (h.eq_none p ?_))
      rw [hmem]
      exact not_or.mpr ⟨heq, hp⟩
  · rw [hm₁]
    exact h.allocated
  · change m₁.joined ++ _ = _
    rw [hm₁]
    exact congrArg (· ++ [x.2.thread]) h.joined
  · change m₁.freed ++ _ = _
    rw [hm₁]
    exact congrArg (· ++ [x.1]) h.freed

end ConnectionList

/-- There is a first item with the descriptor, or there is none. -/
lemma Connections.close_cases (connectionFD : ℤ) (c : Connections) :
    (∃ before x after, c.items = before ++ x :: after ∧
      (∀ y ∈ before, y.2.connectionFD ≠ connectionFD) ∧ x.2.connectionFD = connectionFD ∧
      c.closeStatus connectionFD = 0 ∧ c.close connectionFD = { c with
        items := before ++ after
        joined := c.joined ++ [x.2.thread]
        freed := c.freed ++ [x.1] }) ∨
    ((∀ y ∈ c.items, y.2.connectionFD ≠ connectionFD) ∧
      c.closeStatus connectionFD = (if c.items = [] then 1 else -1) ∧
      c.close connectionFD = c) := by
  rw [closeStatus, close]
  cases hfind : c.items.find? (·.2.connectionFD = connectionFD) with
  | none =>
    have hnone : ∀ y ∈ c.items, y.2.connectionFD ≠ connectionFD := by
      simpa using List.find?_eq_none.mp hfind
    refine .inr ⟨hnone, ?_, rfl⟩
    rw [if_neg]
    simpa using hnone
  | some x =>
    obtain ⟨hx, before, after, hitems, hbefore⟩ := List.find?_eq_some_iff_append.mp hfind
    simp only [decide_eq_true_eq] at hx
    refine .inl ⟨before, x, after, hitems, by simpa using hbefore, hx, ?_, ?_⟩
    · rw [if_pos]
      rw [hitems]
      simp [hx]
    · have herase : c.items.eraseP (·.2.connectionFD = connectionFD) = before ++ after := by
        rw [hitems, List.eraseP_append_right _ (by simpa using hbefore),
          List.eraseP_cons_of_pos (by simpa using hx)]
      dsimp only
      rw [herase]

namespace ConnectionList

/-- `CloseConnection`. The mutex stays locked exactly if the list is empty. -/
lemma closeConnection_spec (hmutex : mutex.Alternates free held) (h : m.Holds c)
    (hfree : m.list.mutex = free) (connectionFD : ℤ) :
    Returns (closeConnection mutex connectionFD) m fun status m' =>
      status = c.closeStatus connectionFD ∧ m'.Holds (c.close connectionFD) ∧
        m'.list.mutex = if c.items = [] then held else free := by
  have hempty : m.list.head = none ↔ c.items = [] := h.chain.start_eq_none_iff
  have hlen := h.length_le
  have h₁ := h.setMutex held
  rw [closeConnection]
  refine .step (hmutex.lock m hfree) (.step (read_apply _ _) ?_)
  by_cases hhead : m.list.head = none
  · rw [if_pos hhead, if_pos (hempty.mp hhead)]
    rcases c.close_cases connectionFD with ⟨before, x, after, hitems, -⟩ | ⟨-, hstatus, hclose⟩
    · rw [hempty.mp hhead] at hitems
      exact absurd hitems.symm (by simp)
    · rw [hstatus, hclose, if_pos (hempty.mp hhead)]
      exact ⟨1, _, rfl, rfl, h₁, rfl⟩
  · have hne : c.items ≠ [] := fun hnil => hhead (hempty.mpr hnil)
    rw [if_neg hhead, if_neg hne]
    rcases c.close_cases connectionFD with
      ⟨before, x, after, hitems, hbefore, hx, hstatus, hclose⟩ | ⟨hnone, hstatus, hclose⟩
    · rw [hstatus, hclose]
      have hchain := h₁.chain
      rw [hitems] at hchain hlen
      rw [List.length_append, List.length_cons] at hlen
      obtain ⟨_, m₂, hfound, rfl, hmutex₂, h₂⟩ := closeFound_spec h₁ hitems
      have hfind := findLoop_of_found none hchain hbefore hx
        (by omega : before.length < m.allocated + 1)
      exact .step hfind (.step hfound (.step (hmutex.unlock m₂ hmutex₂)
        ⟨0, _, rfl, rfl, h₂.setMutex free, rfl⟩))
    · rw [hstatus, hclose, if_neg hne]
      have hfind := findLoop_of_forall_ne none h₁.chain hnone
        (Nat.lt_succ_of_le hlen)
      exact .step hfind (.step rfl (.step (hmutex.unlock _ rfl) ⟨-1, _, rfl, rfl, h₁.setMutex free,
        rfl⟩))

/-! ### Destroying -/

/-- Closing the first connection. -/
lemma close_head (hitems : c.items = x :: items) :
    c.close x.2.connectionFD = { c with
      items := items
      joined := c.joined ++ [x.2.thread]
      freed := c.freed ++ [x.1] } := by
  rw [Connections.close, hitems, List.find?_cons_of_pos (by simp)]
  simp

/-- The loop has the first item of the list in its hand, and so it closes all of them. -/
lemma destroyLoop_spec (hmutex : mutex.Alternates free held) (h : m.Holds c)
    (hfree : m.list.mutex = free) (hfuel : c.items.length < fuel) :
    Returns (destroyLoop mutex fuel m.list.head) m fun _ m' =>
      m'.Holds c.destroy ∧ m'.list.mutex = free := by
  induction fuel generalizing m c with
  | zero => omega
  | succ fuel ih =>
    have hchain := h.chain
    cases hitems : c.items with
    | nil =>
      rw [h.chain.start_eq_none_iff.mpr hitems]
      refine ⟨(), m, rfl, ?_, hfree⟩
      have hdestroy : c.destroy = c := by
        obtain ⟨items, allocated, joined, freed⟩ := c
        obtain rfl : items = [] := hitems
        simp [Connections.destroy]
      rw [hdestroy]
      exact h
    | cons x items =>
      rw [hitems] at hchain hfuel
      obtain ⟨hhead, next, hx, htail⟩ := hchain.of_cons
      obtain ⟨_, m₁, hclose, -, h₁, hmutex₁⟩ :=
        closeConnection_spec hmutex h hfree x.2.connectionFD
      rw [close_head hitems] at h₁
      rw [hitems, if_neg (List.cons_ne_nil _ _)] at hmutex₁
      rw [hhead, destroyLoop]
      refine .step (item_of_some hx) (.step hclose ?_)
      have hnext : m₁.list.head = next := h₁.chain.start_unique htail
      obtain ⟨_, m₂, hloop, h₂, hmutex₂⟩ := ih h₁ hmutex₁ (Nat.lt_of_succ_lt_succ hfuel)
      rw [hnext] at hloop
      refine ⟨(), m₂, hloop, ?_, hmutex₂⟩
      have hdestroy : c.destroy = Connections.destroy { c with
          items := items
          joined := c.joined ++ [x.2.thread]
          freed := c.freed ++ [x.1] } := by
        simp [Connections.destroy, hitems]
      rw [hdestroy]
      exact h₂

/-- `DestroyConnectionList`, up to the mutex. -/
lemma destroyConnectionList_spec (hmutex : mutex.Alternates free held) (h : m.Holds c)
    (hfree : m.list.mutex = free) {gone : MutexState}
    (hdestroy : ∀ m, m.list.mutex = free →
      mutex.destroy m = .ok ((), { m with list.mutex := gone })) :
    Returns (destroyConnectionList mutex) m fun _ m' =>
      m'.Holds c.destroy ∧ m'.list.mutex = gone := by
  have hlen := h.length_le
  rw [destroyConnectionList]
  refine .step (read_apply _ m) ?_
  obtain ⟨_, m₁, hloop, h₁, hmutex₁⟩ :=
    destroyLoop_spec hmutex h hfree (by omega : c.items.length < m.allocated + 1)
  exact .step hloop ⟨(), _, hdestroy m₁ hmutex₁, h₁.setMutex gone, rfl⟩

end ConnectionList

/-! ### Every run -/

lemma listStep_noMutex (h : m.Holds c) (call : ListCall) :
    Returns (listStep ConnectionList.noMutex call) m fun ret m' =>
      ret = (Connections.step call c).1 ∧ m'.Holds (Connections.step call c).2 := by
  have hmutex := noMutex_alternates m.list.mutex
  cases call with
  | add connectionFD thread =>
    obtain ⟨p, m', hadd, rfl, h', -⟩ :=
      ConnectionList.addConnection_spec hmutex h rfl connectionFD thread
    exact .step hadd ⟨_, m', rfl, rfl, h'⟩
  | close connectionFD =>
    obtain ⟨status, m', hclose, rfl, h', -⟩ :=
      ConnectionList.closeConnection_spec hmutex h rfl connectionFD
    exact .step hclose ⟨_, m', rfl, rfl, h'⟩
  | destroy =>
    have hgone : ∀ m', m'.list.mutex = m.list.mutex → ConnectionList.noMutex.destroy m'
        = .ok ((), { m' with list.mutex := m.list.mutex }) := by
      intro m' hm'
      rw [← hm']
      rfl
    obtain ⟨_, m', hdestroy, h', -⟩ :=
      ConnectionList.destroyConnectionList_spec hmutex h rfl hgone
    exact .step hdestroy ⟨_, m', rfl, rfl, h'⟩

/-- Whatever calls are made, with whatever descriptors: nothing is used after it was freed, every
call returns what it returns for the sequence, and the list holds the sequence. -/
theorem connectionList_refines_sequence (calls : List ListCall) :
    Returns (Machine.run (listStep ConnectionList.noMutex) calls) .init fun rets m =>
      rets = (Machine.runSpec Connections.step calls .init).1 ∧
      m.Holds (Machine.runSpec Connections.step calls .init).2 ∧
      (ptrs (Machine.runSpec Connections.step calls .init).2.items).Nodup := by
  have hrun := Machine.run_simulates (R := ListMemory.Holds)
    (fun call m c h => listStep_noMutex (m := m) (c := c) h call) calls .init
  refine hrun.mono ?_
  rintro rets m ⟨hrets, h⟩
  exact ⟨hrets, h, h.chain.nodup⟩

end Aesd
