import Mathlib.Tactic

/-!
# Chains of nodes

Nodes that are linked by pointers, in a memory that is a partial map. `Segment mem p items q` is the
part of a chain from the link `p` to the link `q`, with the pointer and the value of every node on
it. A segment that ends with the null link never comes back to one of its nodes.
-/

namespace Chain

/-- A node with the link to the next one. -/
structure Node (P V : Type) where
  value : V
  next : Option P
  deriving DecidableEq, Repr

/-- The nodes from one link to another. -/
inductive Segment {P V : Type} (mem : P → Option (Node P V)) :
    Option P → List (P × V) → Option P → Prop
  | nil (p : Option P) : Segment mem p [] p
  | cons {p : P} {v : V} {next q : Option P} {items : List (P × V)} :
      mem p = some ⟨v, next⟩ → Segment mem next items q → Segment mem (some p) ((p, v) :: items) q

variable {P V : Type} {mem mem' : P → Option (Node P V)} {p q r : Option P} {a : P} {v : V}
  {items items' : List (P × V)}

/-- The pointers of the nodes. -/
def ptrs (items : List (P × V)) : List P := items.map Prod.fst

@[simp] lemma ptrs_nil : ptrs ([] : List (P × V)) = [] := rfl

@[simp] lemma ptrs_cons (x : P × V) : ptrs (x :: items) = x.1 :: ptrs items := rfl

@[simp] lemma ptrs_append : ptrs (items ++ items') = ptrs items ++ ptrs items' := List.map_append ..

lemma mem_ptrs {x : P × V} (h : x ∈ items) : x.1 ∈ ptrs items := List.mem_map_of_mem h

namespace Segment

lemma of_nil (h : Segment mem p [] q) : p = q := by
  cases h
  rfl

lemma of_cons {x : P × V} (h : Segment mem p (x :: items) q) :
    p = some x.1 ∧ ∃ next, mem x.1 = some ⟨x.2, next⟩ ∧ Segment mem next items q := by
  cases h with
  | cons hmem htail => exact ⟨rfl, _, hmem, htail⟩

/-- A chain is empty exactly if it starts with the null link. -/
lemma start_eq_none_iff (h : Segment mem p items none) : p = none ↔ items = [] := by
  cases h with
  | nil => exact iff_of_true rfl rfl
  | cons _ _ => exact iff_of_false (Option.some_ne_none _) (List.cons_ne_nil _ _)

/-- The first link of a segment is that of its first node. -/
lemma start_unique (h : Segment mem p items q) (h' : Segment mem' r items q) : p = r := by
  cases h with
  | nil => exact h'.of_nil.symm
  | cons _ _ => exact h'.of_cons.1.symm

lemma append (h : Segment mem p items q) (h' : Segment mem q items' r) :
    Segment mem p (items ++ items') r := by
  induction h with
  | nil => exact h'
  | cons hmem _ ih => exact .cons hmem (ih h')

lemma of_append (h : Segment mem p (items ++ items') r) :
    ∃ q, Segment mem p items q ∧ Segment mem q items' r := by
  induction items generalizing p with
  | nil => exact ⟨p, .nil p, h⟩
  | cons x items ih =>
    obtain ⟨rfl, next, hmem, htail⟩ := h.of_cons
    obtain ⟨q, hleft, hright⟩ := ih htail
    exact ⟨q, .cons hmem hleft, hright⟩

/-- What is not on a segment does not matter to it. -/
lemma congr (h : Segment mem p items q) (hmem : ∀ a ∈ ptrs items, mem' a = mem a) :
    Segment mem' p items q := by
  induction h with
  | nil => exact .nil _
  | cons hnode _ ih =>
    refine .cons ((hmem _ List.mem_cons_self).trans hnode) (ih ?_)
    intro a ha
    exact hmem a (List.mem_cons_of_mem _ ha)

lemma update_of_notMem [DecidableEq P] (h : Segment mem p items q) (ha : a ∉ ptrs items)
    (x : Option (Node P V)) : Segment (Function.update mem a x) p items q := by
  refine h.congr ?_
  intro b hb
  have hne : b ≠ a := by
    rintro rfl
    exact ha hb
  exact Function.update_of_ne hne _ _

lemma exists_node (h : Segment mem p items q) {x : P × V} (hx : x ∈ items) :
    ∃ next, mem x.1 = some ⟨x.2, next⟩ := by
  induction h with
  | nil => cases hx
  | cons hmem _ ih =>
    rcases List.mem_cons.mp hx with rfl | hx
    · exact ⟨_, hmem⟩
    · exact ih hx

/-- Where a chain goes is determined by its first link. -/
lemma unique (h : Segment mem p items none) (h' : Segment mem p items' none) : items = items' := by
  induction items generalizing p items' with
  | nil =>
    obtain rfl := h.of_nil
    cases h'
    rfl
  | cons x items ih =>
    obtain ⟨rfl, next, hmem, htail⟩ := h.of_cons
    cases h' with
    | cons hmem' htail' =>
      rw [hmem] at hmem'
      cases hmem'
      rw [ih htail htail']

/-- A chain that ends has no cycle. -/
lemma nodup (h : Segment mem p items none) : (ptrs items).Nodup := by
  induction items generalizing p with
  | nil => exact List.nodup_nil
  | cons x items ih =>
    obtain ⟨-, next, -, htail⟩ := id h.of_cons
    refine List.nodup_cons.mpr ⟨?_, ih htail⟩
    intro hback
    obtain ⟨y, hy, heq⟩ := List.mem_map.mp hback
    obtain ⟨front, back, hcut⟩ := List.append_of_mem hy
    -- from the second visit on the chain would be as long as from the first
    rw [hcut] at htail
    obtain ⟨link, -, hagain⟩ := htail.of_append
    have hlink : link = p := by rw [hagain.of_cons.1, heq, h.of_cons.1]
    rw [hlink] at hagain
    have hlen := congrArg List.length (h.unique hagain)
    rw [hcut] at hlen
    simp only [List.length_cons, List.length_append] at hlen
    omega

/-- Redirecting the link of the last node of a segment. -/
lemma redirect [DecidableEq P] (h : Segment mem p (items ++ [(a, v)]) q)
    (ha : a ∉ ptrs items) (r : Option P) :
    Segment (Function.update mem a (some ⟨v, r⟩)) p (items ++ [(a, v)]) r := by
  obtain ⟨link, hleft, hlast⟩ := h.of_append
  obtain ⟨rfl, -⟩ := hlast.of_cons
  exact (hleft.update_of_notMem ha _).append (.cons (Function.update_self ..) (.nil r))

end Segment

end Chain
