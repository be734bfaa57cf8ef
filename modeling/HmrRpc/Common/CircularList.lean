import Mathlib.Data.List.Chain
import Mathlib.Data.List.Nodup
import Mathlib.Logic.Function.Basic

/-!
# Circular lists of doubly linked nodes

A node has a link in either direction, and only a node in memory can be followed to. A list
is a head and the nodes reached from it, each linked to the next one both ways and the last
one to the head. Every change of a list is a `link` or two between nodes that are not linked
by it already, and a link between two nodes disturbs only what leads out of the first and
into the second.
-/

namespace HmrRpc.Common

/-- Nodes with their links, and which of them are in memory. -/
structure NodeHeap (A : Type*) where
  next : A → Option A
  prev : A → Option A
  live : A → Bool

namespace NodeHeap

variable {A : Type*}

/-- The node a pointer can be followed to. -/
def deref (h : NodeHeap A) (p : Option A) : Option A := p.filter h.live

/-- The forward link behind a pointer. -/
def readNext (h : NodeHeap A) (p : Option A) : Option (Option A) := (h.deref p).map h.next

/-- The backward link behind a pointer. -/
def readPrev (h : NodeHeap A) (p : Option A) : Option (Option A) := (h.deref p).map h.prev

/-- The nodes are linked to one another both ways. -/
def Joined (h : NodeHeap A) (a b : A) : Prop := h.next a = some b ∧ h.prev b = some a

/-- A head with the nodes of its list. -/
structure Circular (h : NodeHeap A) (head : A) (nodes : List A) : Prop where
  nodup : (head :: nodes).Nodup
  joined : (head :: nodes ++ [head]).IsChain h.Joined
  live : ∀ a ∈ head :: nodes, h.live a

@[simp] theorem deref_some {h : NodeHeap A} {a : A} (ha : h.live a) : h.deref (some a) = some a :=
  Option.filter_some_pos ha

section Update

variable [DecidableEq A]

/-- Store a forward link behind a pointer. -/
def writeNext (h : NodeHeap A) (p link : Option A) : Option (NodeHeap A) :=
  (h.deref p).map fun a => { h with next := Function.update h.next a link }

/-- Store a backward link behind a pointer. -/
def writePrev (h : NodeHeap A) (p link : Option A) : Option (NodeHeap A) :=
  (h.deref p).map fun a => { h with prev := Function.update h.prev a link }

/-- Link one node to another both ways. -/
def link (h : NodeHeap A) (a b : A) : NodeHeap A :=
  { h with next := Function.update h.next a (some b), prev := Function.update h.prev b (some a) }

/-- Take a new node into memory. -/
def alloc (h : NodeHeap A) (a : A) : NodeHeap A :=
  { h with live := Function.update h.live a true }

/-- Give a node back. -/
def free (h : NodeHeap A) (a : A) : NodeHeap A :=
  { h with live := Function.update h.live a false }

end Update

variable {h h' : NodeHeap A} {head a b : A} {nodes xs ys l r : List A}

/-- Links lead on only from the nodes before the last, and back only from those behind the first. -/
theorem joined_congr (hl : l.IsChain h.Joined) (hnext : ∀ a ∈ l.dropLast, h'.next a = h.next a)
    (hprev : ∀ a ∈ l.tail, h'.prev a = h.prev a) : l.IsChain h'.Joined := by
  rw [List.isChain_iff_forall_rel_of_append_cons_cons] at hl ⊢
  rintro a b l₁ l₂ rfl
  obtain ⟨hab, hba⟩ := hl rfl
  have ha : a ∈ (l₁ ++ a :: b :: l₂).dropLast := by
    simp [List.dropLast_append_of_ne_nil]
  have hb : b ∈ (l₁ ++ a :: b :: l₂).tail := by
    cases l₁ <;> simp
  exact ⟨(hnext a ha).trans hab, (hprev b hb).trans hba⟩

/-- What a node of a list is linked to: the node behind it, and the head behind the last. -/
theorem Circular.next (hc : h.Circular head (xs ++ a :: ys)) :
    h.next a = some (ys.headD head) := by
  have hpath : head :: (xs ++ a :: ys) ++ [head] = (head :: xs) ++ a :: (ys ++ [head]) := by simp
  have hjoined := (List.isChain_split.mp (hpath ▸ hc.joined)).2
  cases ys with
  | nil => exact (List.isChain_cons_cons.mp hjoined).1.1
  | cons b ys => exact (List.isChain_cons_cons.mp hjoined).1.1

/-- So is the head to the first node. -/
theorem Circular.next_head (hc : h.Circular head nodes) : h.next head = some (nodes.headD head) := by
  cases nodes with
  | nil => exact (List.isChain_cons_cons.mp hc.joined).1.1
  | cons b nodes => exact (List.isChain_cons_cons.mp hc.joined).1.1

/-- A node is on its list once. -/
theorem Circular.notMem (hc : h.Circular head (xs ++ a :: ys)) : a ∉ head :: (xs ++ ys) := by
  have hnodup : (head :: xs ++ a :: ys).Nodup := hc.nodup
  exact (List.nodup_cons.mp (List.nodup_middle.mp hnodup)).1

/-- A path to a node that is not on it before its end is determined by the links. -/
theorem joined_unique (hl : (a :: xs ++ [b]).IsChain h.Joined) (hr : (a :: ys ++ [b]).IsChain h.Joined)
    (hxs : b ∉ xs) (hys : b ∉ ys) : xs = ys := by
  induction xs generalizing a ys with
  | nil =>
    cases ys with
    | nil => rfl
    | cons c ys =>
      have heq := (List.isChain_cons_cons.mp hl).1.1.symm.trans (List.isChain_cons_cons.mp hr).1.1
      exact absurd (Option.some.inj heq ▸ .head _) hys
  | cons c xs ih =>
    obtain ⟨hac, hl⟩ := List.isChain_cons_cons.mp hl
    cases ys with
    | nil =>
      have heq := hac.1.symm.trans (List.isChain_cons_cons.mp hr).1.1
      exact absurd (Option.some.inj heq ▸ .head _) hxs
    | cons e ys =>
      obtain ⟨hae, hr⟩ := List.isChain_cons_cons.mp hr
      obtain rfl := Option.some.inj (hac.1.symm.trans hae.1)
      rw [ih hl hr (fun hmem => hxs (.tail _ hmem)) fun hmem => hys (.tail _ hmem)]

/-- So a head has one list of nodes. -/
theorem Circular.unique (hc : h.Circular head xs) (hc' : h.Circular head ys) : xs = ys :=
  joined_unique hc.joined hc'.joined (List.nodup_cons.mp hc.nodup).1 (List.nodup_cons.mp hc'.nodup).1

/-- What keeps the nodes of a list keeps the list. -/
theorem Circular.congr (hc : h.Circular head nodes)
    (hnext : ∀ a ∈ head :: nodes, h'.next a = h.next a)
    (hprev : ∀ a ∈ head :: nodes, h'.prev a = h.prev a)
    (hlive : ∀ a ∈ head :: nodes, h'.live a = h.live a) : h'.Circular head nodes where
  nodup := hc.nodup
  joined := by
    refine joined_congr hc.joined (fun a ha => hnext a ?_) fun a ha => hprev a ?_
    · rwa [List.dropLast_concat] at ha
    · simpa [or_comm] using ha
  live a ha := (hlive a ha).trans (hc.live a ha)

section Access

variable {p : Option A}

@[simp] theorem readNext_some (ha : h.live a) : h.readNext (some a) = some (h.next a) := by
  simp [readNext, ha]

@[simp] theorem readPrev_some (ha : h.live a) : h.readPrev (some a) = some (h.prev a) := by
  simp [readPrev, ha]

/-- What is behind the head in memory. -/
theorem Circular.readNext_head (hc : h.Circular head nodes) :
    h.readNext (some head) = some (some (nodes.headD head)) := by
  rw [readNext_some (hc.live head (.head _)), hc.next_head]

/-- And behind the first node, or behind the head of an empty list. -/
theorem Circular.readNext_first (hc : h.Circular head nodes) :
    h.readNext (some (nodes.headD head)) = some (some (nodes.tail.headD head)) := by
  cases nodes with
  | nil => exact hc.readNext_head
  | cons a nodes =>
    have hfirst : h.Circular head ([] ++ a :: nodes) := hc
    rw [List.headD_cons, readNext_some (hc.live a (by simp)), hfirst.next]
    rfl

variable [DecidableEq A]

@[simp] theorem writeNext_some (ha : h.live a) :
    h.writeNext (some a) p = some { h with next := Function.update h.next a p } := by
  simp [writeNext, ha]

@[simp] theorem writePrev_some (ha : h.live a) :
    h.writePrev (some a) p = some { h with prev := Function.update h.prev a p } := by
  simp [writePrev, ha]

end Access

section Link

variable [DecidableEq A]

@[simp] theorem link_live : (h.link a b).live = h.live := rfl

theorem link_joined : (h.link a b).Joined a b := ⟨Function.update_self .., Function.update_self ..⟩

/-- A link disturbs no path that neither leaves its first node nor enters its second. -/
theorem joined_link (hl : l.IsChain h.Joined) (ha : a ∉ l.dropLast) (hb : b ∉ l.tail) :
    l.IsChain (h.link a b).Joined := by
  refine joined_congr hl (fun c hc => ?_) fun c hc => ?_
  · exact Function.update_of_ne (ne_of_mem_of_not_mem hc ha) ..
  · exact Function.update_of_ne (ne_of_mem_of_not_mem hc hb) ..

/-- A link between nodes outside a list changes no list. -/
theorem Circular.link (hc : h.Circular head nodes) (ha : a ∉ head :: nodes)
    (hb : b ∉ head :: nodes) : (h.link a b).Circular head nodes :=
  hc.congr (fun _ hc => Function.update_of_ne (ne_of_mem_of_not_mem hc ha) ..)
    (fun _ hc => Function.update_of_ne (ne_of_mem_of_not_mem hc hb) ..) fun _ _ => rfl

/-- Nor does taking another node into memory. -/
theorem Circular.alloc (hc : h.Circular head nodes) (ha : a ∉ head :: nodes) :
    (h.alloc a).Circular head nodes :=
  hc.congr (fun _ _ => rfl) (fun _ _ => rfl) fun _ hc =>
    Function.update_of_ne (ne_of_mem_of_not_mem hc ha) ..

/-- Or giving one back. -/
theorem Circular.free (hc : h.Circular head nodes) (ha : a ∉ head :: nodes) :
    (h.free a).Circular head nodes :=
  hc.congr (fun _ _ => rfl) (fun _ _ => rfl) fun _ hc =>
    Function.update_of_ne (ne_of_mem_of_not_mem hc ha) ..

/-- The neighbours of a node linked to one another leave it out of a path they are on once. -/
theorem joined_unlink {x z : A} (hpath : (l ++ x :: a :: z :: r).IsChain h.Joined)
    (hx : x ∉ l ++ (z :: r).dropLast) (hz : z ∉ (l ++ [x]).tail ++ r) :
    (l ++ x :: z :: r).IsChain (h.link x z).Joined := by
  obtain ⟨hpast, -, hrest⟩ := List.isChain_append_cons_cons.mp hpath
  obtain ⟨-, hahead⟩ := List.isChain_cons_cons.mp hrest
  simp only [List.mem_append, not_or] at hx hz
  refine List.isChain_append_cons_cons.mpr ⟨joined_link hpast ?_ hz.1, link_joined,
    joined_link hahead hx.2 hz.2⟩
  rw [List.dropLast_concat]
  exact hx.1

/-- So a node leaves its list when its neighbours are linked to one another. -/
theorem Circular.remove (hc : h.Circular head (xs ++ a :: ys)) :
    ∃ x z, h.prev a = some x ∧ h.next a = some z ∧ h.live x ∧ h.live z ∧
      (h.link x z).Circular head (xs ++ ys) := by
  obtain ⟨l, x, hl⟩ : ∃ l x, head :: xs = l ++ [x] :=
    ⟨_, _, (List.dropLast_append_getLast (List.cons_ne_nil head xs)).symm⟩
  obtain ⟨z, r, hr⟩ : ∃ z r, ys ++ [head] = z :: r := List.exists_cons_of_ne_nil (by simp)
  have hbefore : head :: (xs ++ a :: ys) ++ [head] = l ++ x :: a :: z :: r := by
    calc
      head :: (xs ++ a :: ys) ++ [head] = (head :: xs) ++ a :: (ys ++ [head]) := by simp
      _ = l ++ x :: a :: z :: r := by rw [hl, hr, List.append_assoc, List.singleton_append]
  have hafter : head :: (xs ++ ys) ++ [head] = l ++ x :: z :: r := by
    calc
      head :: (xs ++ ys) ++ [head] = (head :: xs) ++ (ys ++ [head]) := by simp
      _ = l ++ x :: z :: r := by rw [hl, hr, List.append_assoc, List.singleton_append]
  have hsub : List.Sublist (head :: (xs ++ ys)) (head :: (xs ++ a :: ys)) :=
    ((List.sublist_cons_self a ys).append_left xs).cons_cons head
  have hnodup : (head :: (xs ++ ys)).Nodup := hc.nodup.sublist hsub
  have hx : x ∉ l ++ ys := by
    have hsplit : head :: (xs ++ ys) = l ++ x :: ys := by
      rw [← List.cons_append, hl, List.append_assoc, List.singleton_append]
    exact (List.nodup_cons.mp (List.nodup_middle.mp (hsplit ▸ hnodup))).1
  have hz : z ∉ xs ++ r := by
    have hturned : (xs ++ z :: r).Nodup := by
      rw [← hr, ← List.append_assoc]
      exact List.nodup_append_comm.mp hnodup
    exact (List.nodup_cons.mp (List.nodup_middle.mp hturned)).1
  have hpath := hbefore ▸ hc.joined
  obtain ⟨-, hin, hrest⟩ := List.isChain_append_cons_cons.mp hpath
  have hlive (b : A) (hb : b ∈ l ++ x :: z :: r) : h.live b := by
    rw [← hafter] at hb
    simp only [List.mem_append, List.mem_singleton] at hb
    rcases hb with hb | rfl
    · exact hc.live b (hsub.subset hb)
    · exact hc.live b (.head _)
  refine ⟨x, z, hin.2, (List.isChain_cons_cons.mp hrest).1.1, hlive x (by simp), hlive z (by simp),
    hnodup, ?_, fun b hb => hc.live b (hsub.subset hb)⟩
  rw [hafter]
  refine joined_unlink hpath ?_ ?_
  · rwa [← hr, List.dropLast_concat]
  · rwa [← hl]

/-- A new node becomes the first when it is linked between the head and the node there. -/
theorem Circular.insert (hc : h.Circular head nodes) (hlive : h.live a) (ha : a ∉ head :: nodes) :
    ∃ z, h.next head = some z ∧ h.live z ∧ a ≠ z ∧
      ((h.link head a).link a z).Circular head (a :: nodes) := by
  obtain ⟨z, r, hr⟩ : ∃ z r, nodes ++ [head] = z :: r := List.exists_cons_of_ne_nil (by simp)
  have hpath : (head :: z :: r).IsChain h.Joined := by
    rw [← hr]
    exact hc.joined
  obtain ⟨hfirst, hrest⟩ := List.isChain_cons_cons.mp hpath
  obtain ⟨hhead, -⟩ := List.nodup_cons.mp hc.nodup
  have hsame (b : A) : b ∈ z :: r ↔ b ∈ head :: nodes := by
    rw [← hr]
    simp [or_comm]
  have hz : z ∉ r := by
    have hturned : (z :: r).Nodup := by
      rw [← hr]
      exact List.nodup_append_comm.mp hc.nodup
    exact (List.nodup_cons.mp hturned).1
  have haz : a ≠ z := by
    rintro rfl
    exact ha ((hsame a).mp (.head _))
  refine ⟨z, hfirst.1, hc.live z ((hsame z).mp (.head _)), haz, ?_, ?_, ?_⟩
  · refine List.nodup_cons.mpr ⟨?_, List.nodup_cons.mpr ⟨?_, hc.nodup.of_cons⟩⟩
    · simp only [List.mem_cons, not_or] at ha ⊢
      exact ⟨fun heq => ha.1 heq.symm, hhead⟩
    · exact fun hmem => ha (.tail _ hmem)
  · rw [List.cons_append, List.cons_append, hr]
    have hahead : (z :: r).IsChain (h.link head a).Joined := by
      refine joined_link hrest ?_ fun hmem => ha ((hsame a).mp (.tail _ hmem))
      rwa [← hr, List.dropLast_concat]
    have hlinked : [head, a].IsChain ((h.link head a).link a z).Joined := by
      refine joined_link (List.isChain_pair.mpr link_joined) ?_ ?_
      · exact fun hmem => ha (List.mem_singleton.mp hmem ▸ .head _)
      · exact fun hmem => haz (List.mem_singleton.mp hmem).symm
    refine List.isChain_cons_cons.mpr ⟨List.isChain_pair.mp hlinked,
      List.isChain_cons_cons.mpr ⟨link_joined, joined_link hahead ?_ hz⟩⟩
    rw [← hr, List.dropLast_concat]
    exact fun hmem => ha (.tail _ hmem)
  · intro b hb
    simp only [List.mem_cons] at hb
    rcases hb with rfl | rfl | hb
    · exact hc.live b (.head _)
    · exact hlive
    · exact hc.live b (.tail _ hb)

/-- A node outside a path enters it between two neighbours when it is linked to both, if these
occur there only once. -/
theorem joined_splice {x z : A} (hpath : (l ++ x :: z :: r).IsChain h.Joined)
    (ha : a ∉ l ++ x :: z :: r) (hx : x ∉ l ++ (z :: r).dropLast) (hz : z ∉ (l ++ [x]).tail ++ r) :
    (l ++ x :: a :: z :: r).IsChain ((h.link x a).link a z).Joined := by
  obtain ⟨hpast, -, hahead⟩ := List.isChain_append_cons_cons.mp hpath
  simp only [List.mem_append, not_or] at hx hz
  have hbefore : a ∉ l ++ [x] := fun hmem => ha (by
    rw [← List.singleton_append, ← List.append_assoc]
    exact List.mem_append_left _ hmem)
  have hbehind : a ∉ z :: r := fun hmem => ha (by simp [hmem])
  have hleft : (l ++ [x]).IsChain ((h.link x a).link a z).Joined := by
    refine joined_link (joined_link hpast ?_ ?_) ?_ hz.1
    · rw [List.dropLast_concat]
      exact hx.1
    · exact fun hmem => hbefore (List.mem_of_mem_tail hmem)
    · exact fun hmem => hbefore (List.dropLast_subset _ hmem)
  have hlinked : [x, a].IsChain ((h.link x a).link a z).Joined := by
    refine joined_link (List.isChain_pair.mpr link_joined) ?_ ?_
    · exact fun hmem => hbefore (List.mem_append_right _ hmem)
    · exact fun hmem => hbehind (List.mem_singleton.mp hmem ▸ .head _)
  have hright : (z :: r).IsChain ((h.link x a).link a z).Joined := by
    refine joined_link (joined_link hahead hx.2 fun hmem => hbehind (.tail _ hmem)) ?_ hz.2
    exact fun hmem => hbehind (List.dropLast_subset _ hmem)
  exact List.isChain_append_cons_cons.mpr ⟨hleft, List.isChain_pair.mp hlinked,
    List.isChain_cons_cons.mpr ⟨link_joined, hright⟩⟩

/-- So a new node becomes the last when it is linked between the node there and the head. -/
theorem Circular.append (hc : h.Circular head nodes) (hlive : h.live a) (ha : a ∉ head :: nodes) :
    ∃ x, h.prev head = some x ∧ h.live x ∧ a ≠ x ∧
      ((h.link x a).link a head).Circular head (nodes ++ [a]) := by
  obtain ⟨l, x, hl⟩ : ∃ l x, head :: nodes = l ++ [x] :=
    ⟨_, _, (List.dropLast_append_getLast (List.cons_ne_nil head nodes)).symm⟩
  have hpath : head :: nodes ++ [head] = l ++ x :: head :: [] := by
    rw [hl, List.append_assoc, List.singleton_append]
  have hjoined : (l ++ x :: head :: []).IsChain h.Joined := hpath ▸ hc.joined
  obtain ⟨-, hback, -⟩ := List.isChain_append_cons_cons.mp hjoined
  have hmem : x ∈ head :: nodes := hl ▸ List.mem_append_right _ (.head _)
  obtain ⟨hhead, -⟩ := List.nodup_cons.mp hc.nodup
  have hx : x ∉ l := by
    have hnodup : (l ++ [x]).Nodup := hl ▸ hc.nodup
    exact (List.nodup_cons.mp (List.nodup_append_comm.mp hnodup)).1
  refine ⟨x, hback.2, hc.live x hmem, fun heq => ha (heq ▸ hmem), ?_, ?_, ?_⟩
  · rw [← List.cons_append, List.nodup_append_comm]
    exact List.nodup_cons.mpr ⟨ha, hc.nodup⟩
  · have hspliced := joined_splice hjoined (a := a) ?_ (by simpa using hx) ?_
    · rw [← List.cons_append, hl]
      simpa using hspliced
    · rw [← hpath]
      simpa [or_comm] using ha
    · rw [← hl]
      simpa using hhead
  · intro b hb
    rw [← List.cons_append, List.mem_append, List.mem_singleton] at hb
    rcases hb with hb | rfl
    · exact hc.live b hb
    · exact hlive

end Link

end NodeHeap

end HmrRpc.Common
