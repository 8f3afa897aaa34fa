import Mathlib.Data.List.Chain
import Mathlib.Data.List.Infix
import Mathlib.Data.List.Nodup
import Mathlib.Logic.Function.Basic
import Mathlib.Tactic.Common

/-!
# Circular doubly linked lists

Nodes with a pointer to the next node and one to the previous node. From its head a ring leads
through the nodes of a list and back; it is built and taken apart by connecting nodes, two at a
time.
-/

/-- The pointers of the nodes. -/
structure Links (A : Type*) where
  next : A → Option A
  prev : A → Option A

namespace Links

variable {A : Type*} [DecidableEq A]

def setNext (k : Links A) (x : A) (p : Option A) : Links A :=
  { k with next := Function.update k.next x p }

def setPrev (k : Links A) (x : A) (p : Option A) : Links A :=
  { k with prev := Function.update k.prev x p }

/-- Lets `y` follow `x`. -/
def connect (k : Links A) (x y : A) : Links A := (k.setNext x (some y)).setPrev y (some x)

/-- `y` follows `x`, whichever way one looks at it. -/
def Linked (k : Links A) (x y : A) : Prop := k.next x = some y ∧ k.prev y = some x

/-- The nodes of `l`, in this order, and `head` form a ring. -/
def Ring (k : Links A) (head : A) (l : List A) : Prop := (head :: (l ++ [head])).IsChain k.Linked

/-- The pointers `f` lead from `x` through the nodes of `l` to `y`. -/
def Path (f : A → Option A) (x : A) (l : List A) (y : A) : Prop :=
  (x :: (l ++ [y])).IsChain fun a b => f a = some b

variable {k k' : Links A} {x y z w head p : A} {l l' segment : List A}

lemma setNext_self {p : Option A} (h : k.next x = p) : k.setNext x p = k := by
  rw [setNext, ← h, Function.update_eq_self]

lemma setPrev_self {p : Option A} (h : k.prev x = p) : k.setPrev x p = k := by
  rw [setPrev, ← h, Function.update_eq_self]

/-! ### Connecting two nodes -/

lemma linked_connect : (k.connect x y).Linked x y := by
  simp [Linked, connect, setNext, setPrev]

lemma linked_connect_of_ne (h : k.Linked z w) (hx : z ≠ x) (hy : w ≠ y) :
    (k.connect x y).Linked z w := by
  simpa [Linked, connect, setNext, setPrev, hx, hy] using h

/-- A connection leaves the chains that it does not cut. -/
lemma isChain_connect (h : l.IsChain k.Linked) (hx : x ∉ l.dropLast) (hy : y ∉ l.tail) :
    l.IsChain (k.connect x y).Linked := by
  rw [List.isChain_iff_forall_rel_of_append_cons_cons] at h ⊢
  intro a b l₁ l₂ hl
  have ha : a ∈ l.dropLast := by
    rw [hl, List.dropLast_append_of_ne_nil (List.cons_ne_nil _ _), List.dropLast_cons_of_ne_nil
      (List.cons_ne_nil _ _)]
    simp
  have hb : b ∈ l.tail := by
    rw [hl]
    cases l₁ <;> simp
  refine linked_connect_of_ne (h hl) ?_ ?_
  · rintro rfl
    exact hx ha
  · rintro rfl
    exact hy hb

/-- A connection of the end of a chain with the start of another one. -/
lemma isChain_connect_append (h : l.IsChain k.Linked) (h' : l'.IsChain k.Linked)
    (hx : x ∈ l.getLast?) (hy : y ∈ l'.head?) (hxl : x ∉ l.dropLast) (hyl : y ∉ l.tail)
    (hxl' : x ∉ l'.dropLast) (hyl' : y ∉ l'.tail) :
    (l ++ l').IsChain (k.connect x y).Linked := by
  rw [List.isChain_append]
  refine ⟨isChain_connect h hxl hyl, isChain_connect h' hxl' hyl', ?_⟩
  intro x' hx' y' hy'
  rw [Option.mem_unique hx' hx, Option.mem_unique hy' hy]
  exact linked_connect

omit [DecidableEq A] in
lemma not_mem_dropLast (h : l.Nodup) (hx : x ∈ l.getLast?) : x ∉ l.dropLast := by
  rw [← List.dropLast_append_getLast? x hx, List.nodup_append] at h
  exact fun hmem => h.2.2 x hmem x (List.mem_singleton_self x) rfl

omit [DecidableEq A] in
lemma not_mem_tail (h : l.Nodup) (hy : y ∈ l.head?) : y ∉ l.tail := by
  rw [← List.cons_head?_tail hy] at h
  exact (List.nodup_cons.mp h).1

/-- Two chains of different nodes become one. -/
lemma isChain_join (hnodup : (l ++ l').Nodup) (h : l.IsChain k.Linked) (h' : l'.IsChain k.Linked)
    (hx : x ∈ l.getLast?) (hy : y ∈ l'.head?) : (l ++ l').IsChain (k.connect x y).Linked := by
  obtain ⟨hl, hl', hdisjoint⟩ := List.nodup_append.mp hnodup
  have hxl := List.mem_of_mem_getLast? hx
  have hyl' := List.mem_of_mem_head? hy
  refine isChain_connect_append h h' hx hy (not_mem_dropLast hl hx) ?_ ?_ (not_mem_tail hl' hy)
  · exact fun hmem => hdisjoint y (List.mem_of_mem_tail hmem) y hyl' rfl
  · exact fun hmem => hdisjoint x hxl x (List.mem_of_mem_dropLast hmem) rfl

/-! ### Rings -/

omit [DecidableEq A] in
lemma Ring.append_head (h : k.Ring head l) : (head :: l ++ [head]).IsChain k.Linked := h

omit [DecidableEq A] in
lemma Ring.chain (h : k.Ring head l) : (head :: l).IsChain k.Linked :=
  h.append_head.left_of_append

omit [DecidableEq A] in
/-- The head follows the last node. -/
lemma Ring.exists_last (h : k.Ring head l) :
    ∃ x ∈ (head :: l).getLast?, k.prev head = some x := by
  have hlast := (List.isChain_append.mp h.append_head).2.2
  obtain ⟨x, hx⟩ := Option.isSome_iff_exists.mp (by simp : (head :: l).getLast?.isSome)
  exact ⟨x, hx, (hlast x hx head rfl).2⟩

omit [DecidableEq A] in
/-- The first node follows the head. -/
lemma Ring.exists_first (h : k.Ring head l) :
    ∃ w ∈ (l ++ [head]).head?, k.next head = some w := by
  obtain ⟨w, hw⟩ := Option.isSome_iff_exists.mp (by simp : (l ++ [head]).head?.isSome)
  exact ⟨w, hw, ((List.isChain_cons.mp h).1 w hw).1⟩

omit [DecidableEq A] in
lemma Ring.exists_second (h : k.Ring head (p :: l)) :
    ∃ w ∈ (l ++ [head]).head?, k.next p = some w := by
  obtain ⟨w, hw⟩ := Option.isSome_iff_exists.mp (by simp : (l ++ [head]).head?.isSome)
  exact ⟨w, hw, ((List.isChain_cons.mp h.tail).1 w hw).1⟩

omit [DecidableEq A] in
/-- The nodes but the head are a chain, from the one after the head to the one before it. -/
lemma Ring.exists_ends (h : k.Ring head l) (hne : l ≠ []) :
    ∃ y ∈ l.head?, ∃ z ∈ l.getLast?, k.next head = some y ∧ k.prev head = some z := by
  obtain ⟨y, hy, hnext⟩ := h.exists_first
  obtain ⟨z, hz, hprev⟩ := h.exists_last
  rw [List.head?_append_of_ne_nil l hne] at hy
  obtain ⟨a, l, rfl⟩ := List.exists_cons_of_ne_nil hne
  rw [List.getLast?_cons_cons] at hz
  exact ⟨y, hy, z, hz, hnext, hprev⟩

omit [DecidableEq A] in
lemma Ring.last (h : k.Ring head l) (hx : k.prev head = some x) : x ∈ (head :: l).getLast? := by
  obtain ⟨x', hx', hprev⟩ := h.exists_last
  rw [hprev] at hx
  exact Option.some.inj hx ▸ hx'

omit [DecidableEq A] in
lemma Ring.first (h : k.Ring head l) (hw : k.next head = some w) : w ∈ (l ++ [head]).head? := by
  obtain ⟨w', hw', hnext⟩ := h.exists_first
  rw [hnext] at hw
  exact Option.some.inj hw ▸ hw'

/-- A chain that starts with the head is closed by its last node. -/
lemma ring_of_last (hnodup : (head :: l).Nodup) (h : (head :: l).IsChain k.Linked)
    (hx : x ∈ (head :: l).getLast?) : (k.connect x head).Ring head l := by
  have hring : (head :: l ++ [head]).IsChain (k.connect x head).Linked :=
    isChain_connect_append h (List.isChain_singleton head) hx rfl (not_mem_dropLast hnodup hx)
      (List.nodup_cons.mp hnodup).1 List.not_mem_nil List.not_mem_nil
  exact hring

/-- A chain that ends with the head is closed by its first node. -/
lemma ring_of_first (hnodup : (l ++ [head]).Nodup) (h : (l ++ [head]).IsChain k.Linked)
    (hy : y ∈ (l ++ [head]).head?) : (k.connect head y).Ring head l := by
  have hring : ([head] ++ (l ++ [head])).IsChain (k.connect head y).Linked :=
    isChain_connect_append (List.isChain_singleton head) h rfl hy List.not_mem_nil
      List.not_mem_nil (not_mem_dropLast hnodup (by simp)) (not_mem_tail hnodup hy)
  exact hring

/-- A ring of the head alone. -/
lemma ring_nil : (k.connect head head).Ring head [] :=
  ring_of_last (List.nodup_singleton head) (List.isChain_singleton head) rfl

/-- A chain of new nodes behind the last one. -/
theorem Ring.append (h : k.Ring head l) (hsegment : segment.IsChain k.Linked)
    (hnodup : (head :: (l ++ segment)).Nodup) (hx : k.prev head = some x)
    (hy : y ∈ segment.head?) (hz : z ∈ segment.getLast?) :
    ((k.connect x y).connect z head).Ring head (l ++ segment) := by
  have hjoined : (head :: (l ++ segment)).IsChain (k.connect x y).Linked :=
    isChain_join hnodup h.chain hsegment (h.last hx) hy
  refine ring_of_last hnodup hjoined ?_
  rw [← List.cons_append, List.getLast?_append, Option.mem_def.mp hz]
  rfl

/-- A chain of new nodes before the first one. -/
theorem Ring.prepend (h : k.Ring head l) (hsegment : segment.IsChain k.Linked)
    (hnodup : (head :: (segment ++ l)).Nodup) (hw : k.next head = some w)
    (hy : y ∈ segment.head?) (hz : z ∈ segment.getLast?) :
    ((k.connect z w).connect head y).Ring head (segment ++ l) := by
  have hnodup' : (segment ++ (l ++ [head])).Nodup := by
    rw [← List.append_assoc]
    exact (List.perm_append_singleton head _).nodup_iff.mpr hnodup
  have hjoined : (segment ++ (l ++ [head])).IsChain (k.connect z w).Linked :=
    isChain_join hnodup' hsegment h.tail hz (h.first hw)
  rw [← List.append_assoc] at hnodup' hjoined
  refine ring_of_first hnodup' hjoined ?_
  rw [List.append_assoc, List.head?_append, Option.mem_def.mp hy]
  rfl

/-- The first node is taken out. -/
theorem Ring.unlink (h : k.Ring head (p :: l)) (hnodup : (head :: p :: l).Nodup)
    (hw : k.next p = some w) : (k.connect head w).Ring head l := by
  have htail : (l ++ [head]).IsChain k.Linked := (List.IsChain.tail h).tail
  have hnodup' : (l ++ [head]).Nodup :=
    (List.perm_append_singleton head l).nodup_iff.mpr (hnodup.sublist (by simp))
  obtain ⟨w', hw', hnext⟩ := h.exists_second
  rw [hnext] at hw
  exact ring_of_first hnodup' htail (Option.some.inj hw ▸ hw')

/-- A connection of other nodes. -/
lemma Ring.connect (h : k.Ring head l) (hx : x ∉ head :: l) (hy : y ∉ head :: l) :
    (k.connect x y).Ring head l := by
  refine isChain_connect h (fun hmem => hx ?_) (fun hmem => hy ?_)
  · rwa [← List.cons_append, List.dropLast_concat] at hmem
  · rwa [List.tail_cons, List.mem_append, List.mem_singleton, or_comm, ← List.mem_cons] at hmem

omit [DecidableEq A] in
/-- A ring is a matter of its own pointers. -/
lemma Ring.congr (h : k.Ring head l) (hnext : ∀ a ∈ head :: l, k'.next a = k.next a)
    (hprev : ∀ a ∈ head :: l, k'.prev a = k.prev a) : k'.Ring head l := by
  refine List.IsChain.imp_of_mem_imp (fun a b ha hb hab => ?_) h
  have hmem : ∀ c ∈ head :: (l ++ [head]), c ∈ head :: l := by
    intro c hc
    simp only [List.mem_cons, List.mem_append, List.not_mem_nil, or_false] at hc ⊢
    tauto
  exact ⟨(hnext a (hmem a ha)).trans hab.1, (hprev b (hmem b hb)).trans hab.2⟩

/-! ### Going round -/

omit [DecidableEq A] in
theorem Ring.forward (h : k.Ring head l) : Path k.next head l head :=
  List.IsChain.imp (fun _ _ hab => hab.1) h

omit [DecidableEq A] in
theorem Ring.backward (h : k.Ring head l) : Path k.prev head l.reverse head := by
  have hreverse : (head :: (l ++ [head])).reverse.IsChain fun a b => k.prev a = some b :=
    List.isChain_reverse.mpr (List.IsChain.imp (fun _ _ hab => hab.2) h)
  simpa [Path] using hreverse

omit [DecidableEq A] in
/-- Only a ring without further nodes leads from its head right back. -/
lemma Ring.next_eq_head (h : k.Ring head l) (hnodup : (head :: l).Nodup) :
    k.next head = some head ↔ l = [] := by
  constructor
  · intro hnext
    cases l with
    | nil => rfl
    | cons p l =>
      have hp : k.next head = some p := (List.isChain_cons_cons.mp h).1.1
      rw [hp] at hnext
      rw [Option.some.inj hnext] at hnodup
      simp at hnodup
  · rintro rfl
    exact (List.isChain_pair.mp h).1

omit [DecidableEq A] in
lemma Ring.prev_eq_head (h : k.Ring head l) (hnodup : (head :: l).Nodup) :
    k.prev head = some head ↔ l = [] := by
  constructor
  · intro hprev
    have hlast := h.last hprev
    by_contra hne
    exact not_mem_dropLast hnodup hlast (by
      rw [List.dropLast_cons_of_ne_nil hne]
      exact List.mem_cons_self)
  · rintro rfl
    exact (List.isChain_pair.mp h).2

/-- From the head the pointers lead through the nodes of `l`, each visited once, and back, in the
same order forward and in the reverse order backward. -/
structure Circular (k : Links A) (head : A) (l : List A) : Prop where
  forward : Path k.next head l head
  backward : Path k.prev head l.reverse head
  nodup : (head :: l).Nodup
  ends : k.prev head = some head ↔ k.next head = some head

omit [DecidableEq A] in
theorem Ring.circular (h : k.Ring head l) (hnodup : (head :: l).Nodup) : k.Circular head l :=
  ⟨h.forward, h.backward, hnodup,
    (h.prev_eq_head hnodup).trans (h.next_eq_head hnodup).symm⟩

end Links
