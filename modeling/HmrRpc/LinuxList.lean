import HmrRpc.Common.CircularList

/-!
# The kernel's lists (`linux/list.h`)

The operations on `struct list_head` that the program's lists go through, each the reads and
writes it makes in their order. An access to a node that is not in memory has no result.
-/

namespace HmrRpc

open Common

section Operations

variable {A : Type*} [DecidableEq A]

/-- `LIST_POISON1`, which points to no node. -/
def listPoison1 : Option A := none

/-- `LIST_POISON2`, which points to no node either. -/
def listPoison2 : Option A := none

/-- `INIT_LIST_HEAD`. -/
def initListHead (h : NodeHeap A) (list : Option A) : Option (NodeHeap A) := do
  let h ← h.writeNext list list
  h.writePrev list list

/-- `__list_add`. -/
def _listAdd (h : NodeHeap A) (new prev next : Option A) : Option (NodeHeap A) := do
  let h ← h.writePrev next new
  let h ← h.writeNext new next
  let h ← h.writePrev new prev
  h.writeNext prev new

/-- `list_add`. -/
def listAdd (h : NodeHeap A) (new head : Option A) : Option (NodeHeap A) := do
  _listAdd h new head (← h.readNext head)

/-- `__list_del`. -/
def _listDel (h : NodeHeap A) (prev next : Option A) : Option (NodeHeap A) := do
  let h ← h.writePrev next prev
  h.writeNext prev next

/-- `__list_del_entry`. -/
def _listDelEntry (h : NodeHeap A) (entry : Option A) : Option (NodeHeap A) := do
  _listDel h (← h.readPrev entry) (← h.readNext entry)

/-- `list_del`. -/
def listDel (h : NodeHeap A) (entry : Option A) : Option (NodeHeap A) := do
  let h ← _listDel h (← h.readPrev entry) (← h.readNext entry)
  let h ← h.writeNext entry listPoison1
  h.writePrev entry listPoison2

/-- `list_del_init`. -/
def listDelInit (h : NodeHeap A) (entry : Option A) : Option (NodeHeap A) := do
  let h ← _listDelEntry h entry
  initListHead h entry

/-- `list_add_tail`. -/
def listAddTail (h : NodeHeap A) (new head : Option A) : Option (NodeHeap A) := do
  _listAdd h new (← h.readPrev head) head

/-- `list_empty`. -/
def listEmpty (h : NodeHeap A) (head : Option A) : Option Bool :=
  (h.readNext head).map fun next => next = head

/-- The nodes that the first passes of `list_for_each_entry` visit, from `pos` on. -/
def listForEachEntry (h : NodeHeap A) (head : Option A) : ℕ → Option A → Option (List A)
  | 0, _ => some []
  | passes + 1, pos =>
    if pos = head then some []
    else do
      let node ← h.deref pos
      let rest ← listForEachEntry h head passes (← h.readNext pos)
      some (node :: rest)

/-- `list_for_each_entry_safe` with `list_del_init` of each node, from `pos` and `next` on. -/
def listDelInitEach (head : Option A) : ℕ → Option A → Option A → NodeHeap A → Option (NodeHeap A)
  | 0, _, _, _ => none
  | fuel + 1, pos, next, h =>
    if pos = head then some h
    else do
      let h ← listDelInit h pos
      listDelInitEach head fuel next (← h.readNext next) h

end Operations

section Circular

variable {A : Type*} [DecidableEq A] {h : NodeHeap A} {head a x z : A} {nodes xs ys : List A}

/-- A node initialized is linked to itself. -/
theorem initListHead_eq (ha : h.live a) : initListHead h (some a) = some (h.link a a) := by
  simp [initListHead, NodeHeap.link, ha]

/-- `__list_del` links two nodes to one another. -/
theorem _listDel_eq (hx : h.live x) (hz : h.live z) :
    _listDel h (some x) (some z) = some (h.link x z) := by
  simp [_listDel, NodeHeap.link, hx, hz]

/-- `__list_add` links a node between two others. -/
theorem _listAdd_eq (ha : h.live a) (hx : h.live x) (hz : h.live z) (hax : a ≠ x) (haz : a ≠ z) :
    _listAdd h (some a) (some x) (some z) = some ((h.link x a).link a z) := by
  simp [_listAdd, NodeHeap.link, ha, hx, hz, Function.update_comm hax, Function.update_comm haz]

/-- `list_add` puts a new node in front. -/
theorem listAdd_circular (hc : h.Circular head nodes) (hlive : h.live a) (ha : a ∉ head :: nodes) :
    ∃ h', listAdd h (some a) (some head) = some h' ∧ h'.Circular head (a :: nodes) ∧
      h'.live = h.live := by
  obtain ⟨z, hnext, hz, haz, hadded⟩ := hc.insert hlive ha
  have hhead := hc.live head (.head _)
  have hax : a ≠ head := fun heq => ha (heq ▸ .head _)
  refine ⟨_, ?_, hadded, rfl⟩
  simp [listAdd, hhead, hnext, _listAdd_eq hlive hhead hz hax haz]

/-- `list_add_tail` puts a new node behind the others. -/
theorem listAddTail_circular (hc : h.Circular head nodes) (hlive : h.live a) (ha : a ∉ head :: nodes) :
    ∃ h', listAddTail h (some a) (some head) = some h' ∧ h'.Circular head (nodes ++ [a]) ∧
      h'.live = h.live := by
  obtain ⟨x, hprev, hx, hax, hadded⟩ := hc.append hlive ha
  have hhead := hc.live head (.head _)
  have haz : a ≠ head := fun heq => ha (heq ▸ .head _)
  refine ⟨_, ?_, hadded, rfl⟩
  simp [listAddTail, hhead, hprev, _listAdd_eq hlive hx hhead hax haz]

/-- `list_empty` tells whether there is a node. -/
theorem listEmpty_circular (hc : h.Circular head nodes) :
    listEmpty h (some head) = some nodes.isEmpty := by
  rw [listEmpty, hc.readNext_head, Option.map_some]
  cases nodes with
  | nil => simp
  | cons a nodes =>
    have hne : a ≠ head := fun heq => (List.nodup_cons.mp hc.nodup).1 (heq ▸ .head _)
    simp [hne]

/-- `list_for_each_entry` visits the nodes in order. -/
theorem listForEachEntry_circular (hc : h.Circular head (xs ++ ys)) (passes : ℕ) :
    listForEachEntry h (some head) passes (some (ys.headD head)) = some (ys.take passes) := by
  induction passes generalizing xs ys with
  | zero => rfl
  | succ passes ih =>
    cases ys with
    | nil => simp [listForEachEntry]
    | cons a ys =>
      have ha : h.live a := hc.live a (by simp)
      have hne : a ≠ head := fun heq => hc.notMem (heq ▸ .head _)
      have hrest : h.Circular head ((xs ++ [a]) ++ ys) := by rwa [List.append_assoc]
      simp only [listForEachEntry, List.headD_cons, Option.some.injEq, hne, if_false,
        NodeHeap.deref_some ha, NodeHeap.readNext_some ha, hc.next, Option.bind_eq_bind,
        Option.bind_some, ih hrest, List.take_succ_cons]

/-- `list_del_init` takes a node out and leaves it linked to itself. -/
theorem listDelInit_circular (hc : h.Circular head (xs ++ a :: ys)) :
    ∃ h', listDelInit h (some a) = some h' ∧ h'.Circular head (xs ++ ys) ∧ h'.Joined a a ∧
      h'.live = h.live := by
  obtain ⟨x, z, hprev, hnext, hx, hz, hremoved⟩ := hc.remove
  have ha : h.live a := hc.live a (by simp)
  refine ⟨(h.link x z).link a a, ?_, hremoved.link hc.notMem hc.notMem, NodeHeap.link_joined, rfl⟩
  simp [listDelInit, _listDelEntry, ha, hprev, hnext, _listDel_eq hx hz, initListHead_eq]

/-- So the `list_del` behind it writes to that node alone. -/
theorem listDel_eq (hself : h.Joined a a) (ha : h.live a) :
    listDel h (some a) = some { h with
      next := Function.update h.next a listPoison1
      prev := Function.update h.prev a listPoison2 } := by
  obtain ⟨hnext, hprev⟩ := hself
  simp [listDel, ha, hnext, hprev, _listDel_eq, NodeHeap.link]

/-- And keeps the list the node has left. -/
theorem listDel_circular (hc : h.Circular head nodes) (hself : h.Joined a a) (hlive : h.live a)
    (ha : a ∉ head :: nodes) :
    ∃ h', listDel h (some a) = some h' ∧ h'.Circular head nodes ∧ h'.live = h.live := by
  refine ⟨_, listDel_eq hself hlive, hc.congr (fun b hb => ?_) (fun b hb => ?_) fun _ _ => rfl, rfl⟩
  · exact Function.update_of_ne (ne_of_mem_of_not_mem hb ha) ..
  · exact Function.update_of_ne (ne_of_mem_of_not_mem hb ha) ..

/-- The loop over all nodes that takes each out empties the list. -/
theorem listDelInitEach_circular (hc : h.Circular head nodes) :
    ∃ h', h'.Circular head [] ∧ h'.live = h.live ∧ ∀ fuel, nodes.length < fuel →
      listDelInitEach (some head) fuel (some (nodes.headD head)) (some (nodes.tail.headD head)) h =
        some h' := by
  induction nodes generalizing h with
  | nil =>
    refine ⟨h, hc, rfl, fun fuel hfuel => ?_⟩
    cases fuel with
    | zero => contradiction
    | succ fuel => simp [listDelInitEach]
  | cons a nodes ih =>
    have hfirst : h.Circular head ([] ++ a :: nodes) := hc
    have hne : a ≠ head := fun heq => hfirst.notMem (heq ▸ .head _)
    obtain ⟨u, hdel, hlist, -, hlive⟩ := listDelInit_circular hfirst
    obtain ⟨h', hempty, hlive', hloop⟩ := ih hlist
    refine ⟨h', hempty, hlive'.trans hlive, fun fuel hfuel => ?_⟩
    cases fuel with
    | zero => contradiction
    | succ fuel =>
      have hnext := NodeHeap.Circular.readNext_first hlist
      rw [List.nil_append] at hnext
      simp only [listDelInitEach, List.headD_cons, List.tail_cons, Option.some.injEq, hne, if_false,
        hdel, hnext, Option.bind_eq_bind, Option.bind_some]
      exact hloop fuel (Nat.lt_of_succ_lt_succ hfuel)

end Circular

end HmrRpc
