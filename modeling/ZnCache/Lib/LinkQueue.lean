/-
  ZnCache.Lib.LinkQueue — a doubly linked queue whose links can be held by
  handle, and the index that maps an element to its link.

  A recency list kept as "queue + map from element to its link" is only right
  while the map and the queue agree.  `Indexed q idx` is that agreement; each
  operation comes with the one lemma that says it keeps it:

    * `Indexed.push`  — append an element that is not queued,
    * `Indexed.touch` — delete an element's link and append the element again,
    * `Indexed.pop`   — remove the head.

  Handles are never reused, so a stale handle names no link.
-/
import Mathlib.Data.List.Nodup
import Mathlib.Data.List.Basic

namespace ZnCache.Lib

universe u

/-- A queue of links, each with its handle.  The two proof fields say that
handles are distinct and that `next` has not been handed out. -/
structure LinkQueue (α : Type u) where
  links : List (Nat × α)
  next : Nat
  nodup : (links.map Prod.fst).Nodup
  fresh : ∀ l ∈ links, l.1 < next

namespace LinkQueue

variable {α : Type u}

/-! ## §1. The operations. -/

def empty : LinkQueue α := ⟨[], 0, List.nodup_nil, by simp⟩

def length (q : LinkQueue α) : Nat := q.links.length

/-- The elements, head first. -/
def toList (q : LinkQueue α) : List α := q.links.map Prod.snd

/-- Append an element on a new link. -/
def pushTail (q : LinkQueue α) (a : α) : LinkQueue α where
  links := q.links ++ [(q.next, a)]
  next := q.next + 1
  nodup := by
    rw [List.map_append, List.nodup_append]
    refine ⟨q.nodup, by simp, ?_⟩
    intro x hx y hy
    obtain ⟨l, hl, rfl⟩ := List.mem_map.mp hx
    have hlt := q.fresh l hl
    simp only [List.map_cons, List.map_nil, List.mem_singleton] at hy
    omega
  fresh := by
    intro l hl
    rcases List.mem_append.mp hl with h | h
    · exact Nat.lt_succ_of_lt (q.fresh l h)
    · rw [List.mem_singleton] at h
      subst h
      exact Nat.lt_succ_self _

/-- The handle of the last link. -/
def peekTailLink (q : LinkQueue α) : Option Nat := q.links.getLast?.map Prod.fst

/-- Remove the first link. -/
def dropHead (q : LinkQueue α) : LinkQueue α where
  links := q.links.tail
  next := q.next
  nodup := by
    rw [List.map_tail]
    exact q.nodup.tail
  fresh := fun l hl => q.fresh l (List.mem_of_mem_tail hl)

/-- Remove the first link and answer its element. -/
def popHead (q : LinkQueue α) : Option α × LinkQueue α :=
  (q.links.head?.map Prod.snd, q.dropHead)

/-- The element on a link, if the link is in the queue. -/
def linkData (q : LinkQueue α) (node : Nat) : Option α :=
  (q.links.find? (fun l => l.1 == node)).map Prod.snd

/-- Unlink one link. -/
def deleteLink (q : LinkQueue α) (node : Nat) : LinkQueue α where
  links := q.links.filter (fun l => l.1 != node)
  next := q.next
  nodup := q.nodup.sublist (List.filter_sublist.map _)
  fresh := fun l hl => q.fresh l (List.mem_of_mem_filter hl)

/-! ## §2. What the operations do to the links. -/

@[simp] theorem links_pushTail (q : LinkQueue α) (a : α) :
    (q.pushTail a).links = q.links ++ [(q.next, a)] := rfl

@[simp] theorem links_deleteLink (q : LinkQueue α) (node : Nat) :
    (q.deleteLink node).links = q.links.filter (fun l => l.1 != node) := rfl

@[simp] theorem peekTailLink_pushTail (q : LinkQueue α) (a : α) :
    (q.pushTail a).peekTailLink = some q.next := by
  simp [peekTailLink]

@[simp] theorem toList_pushTail (q : LinkQueue α) (a : α) :
    (q.pushTail a).toList = q.toList ++ [a] := by
  simp [toList]

theorem length_eq (q : LinkQueue α) : q.length = q.toList.length := by
  simp [length, toList]

/-- A handle names at most one link. -/
theorem eq_of_mem {q : LinkQueue α} {node : Nat} {a b : α}
    (ha : (node, a) ∈ q.links) (hb : (node, b) ∈ q.links) : a = b := by
  exact (Prod.mk.inj (List.inj_on_of_nodup_map q.nodup ha hb rfl)).2

theorem linkData_eq_some {q : LinkQueue α} {node : Nat} {a : α}
    (h : (node, a) ∈ q.links) : q.linkData node = some a := by
  unfold linkData
  cases hf : q.links.find? (fun l => l.1 == node) with
  | none =>
    have := List.find?_eq_none.mp hf _ h
    simp at this
  | some l =>
    obtain ⟨n, b⟩ := l
    have hn : n = node := by simpa using List.find?_some hf
    subst hn
    rw [Option.map_some, eq_of_mem h (List.mem_of_find?_eq_some hf)]

/-! ## §3. The index of a queue. -/

/-- `idx` maps exactly the queued elements, each to its link. -/
def Indexed (q : LinkQueue α) (idx : α → Option Nat) : Prop :=
  ∀ a node, idx a = some node ↔ (node, a) ∈ q.links

namespace Indexed

variable {q : LinkQueue α} {idx : α → Option Nat}

theorem isSome_iff (h : Indexed q idx) (a : α) : (idx a).isSome ↔ a ∈ q.toList := by
  rw [Option.isSome_iff_exists, toList, List.mem_map]
  constructor
  · rintro ⟨node, hn⟩
    exact ⟨_, (h a node).mp hn, rfl⟩
  · rintro ⟨⟨node, b⟩, hm, rfl⟩
    exact ⟨node, (h b node).mpr hm⟩

theorem eq_none_iff (h : Indexed q idx) (a : α) : idx a = none ↔ a ∉ q.toList := by
  rw [← h.isSome_iff, Option.not_isSome_iff_eq_none]

/-- No element is queued twice: two links of it would share a handle. -/
theorem nodup_toList (h : Indexed q idx) : q.toList.Nodup := by
  refine List.Nodup.map_on ?_ (List.Nodup.of_map _ q.nodup)
  rintro ⟨m, a⟩ hm ⟨n, b⟩ hn hab
  obtain rfl : a = b := hab
  have hmn := ((h a m).mpr hm).symm.trans ((h a n).mpr hn)
  rw [Option.some.inj hmn]

variable [DecidableEq α]

theorem push (h : Indexed q idx) {a : α} (ha : a ∉ q.toList) :
    Indexed (q.pushTail a) (Function.update idx a (some q.next)) := by
  intro b node
  rw [links_pushTail, List.mem_append, List.mem_singleton]
  by_cases hb : b = a
  · subst hb
    rw [Function.update_self]
    have hno : (node, b) ∉ q.links := fun hm => ha (List.mem_map.mpr ⟨_, hm, rfl⟩)
    constructor
    · intro hs
      exact Or.inr (by rw [Option.some.inj hs])
    · rintro (hm | he)
      · exact absurd hm hno
      · rw [(Prod.mk.inj he).1]
  · rw [Function.update_of_ne hb, h b node]
    simp [hb]

theorem touch (h : Indexed q idx) {a : α} {node : Nat} (ha : idx a = some node) :
    Indexed ((q.deleteLink node).pushTail a)
      (Function.update idx a (some (q.deleteLink node).next)) := by
  intro b m
  rw [links_pushTail, List.mem_append, List.mem_singleton, links_deleteLink, List.mem_filter]
  have hmem : (node, a) ∈ q.links := (h a node).mp ha
  by_cases hb : b = a
  · subst hb
    rw [Function.update_self]
    constructor
    · intro hs
      exact Or.inr (by rw [Option.some.inj hs])
    · rintro (⟨hm, hne⟩ | he)
      · -- the only link of `b` is the one just deleted
        have := ((h b m).mpr hm).symm.trans ha
        rw [Option.some.inj this] at hne
        simp at hne
      · rw [(Prod.mk.inj he).1]
  · rw [Function.update_of_ne hb, h b m]
    constructor
    · intro hm
      refine Or.inl ⟨hm, ?_⟩
      simp only [bne_iff_ne, ne_eq]
      intro hmn
      subst hmn
      exact hb (eq_of_mem hm hmem)
    · rintro (⟨hm, -⟩ | he)
      · exact hm
      · exact absurd (Prod.mk.inj he).2 hb

/-- The order after a touch: the element moves to the tail. -/
theorem toList_touch (h : Indexed q idx) {a : α} {node : Nat} (ha : idx a = some node) :
    ((q.deleteLink node).pushTail a).toList = q.toList.erase a ++ [a] := by
  have hmem : (node, a) ∈ q.links := (h a node).mp ha
  rw [toList_pushTail, h.nodup_toList.erase_eq_filter, toList, toList, links_deleteLink,
      List.filter_map]
  congr 2
  apply List.filter_congr
  rintro ⟨m, b⟩ hm
  have hiff : m = node ↔ b = a := by
    constructor
    · rintro rfl
      exact eq_of_mem hm hmem
    · rintro rfl
      exact Option.some.inj (((h b m).mpr hm).symm.trans ha)
  simp only [Function.comp_apply, bne, hiff, beq_eq_decide]

theorem pop (h : Indexed q idx) {a : α} {rest : List α} (ha : q.toList = a :: rest) :
    Indexed q.dropHead (Function.update idx a none) ∧ q.dropHead.toList = rest
      ∧ q.popHead.1 = some a := by
  obtain ⟨⟨n, a'⟩, tl, hlinks⟩ : ∃ l tl, q.links = l :: tl := by
    cases hq : q.links with
    | nil => rw [toList, hq] at ha; simp at ha
    | cons l tl => exact ⟨l, tl, rfl⟩
  have hcons : a' = a ∧ tl.map Prod.snd = rest := by
    rw [toList, hlinks] at ha
    simpa using ha
  obtain ⟨rfl, hrest⟩ := hcons
  have htail : q.dropHead.links = tl := by
    show q.links.tail = tl
    rw [hlinks, List.tail_cons]
  have hnd := h.nodup_toList
  rw [toList, hlinks, List.map_cons, List.nodup_cons] at hnd
  refine ⟨?_, by rw [toList, htail, hrest], by simp [popHead, hlinks]⟩
  intro b m
  rw [htail]
  by_cases hb : b = a'
  · subst hb
    rw [Function.update_self]
    constructor
    · intro hs; cases hs
    · intro hm
      exact absurd (List.mem_map.mpr ⟨_, hm, rfl⟩) hnd.1
  · rw [Function.update_of_ne hb, h b m, hlinks, List.mem_cons]
    simp [hb]

end Indexed

theorem indexed_empty : Indexed (empty : LinkQueue α) (fun _ => none) := by
  intro a node
  simp [empty]

end LinkQueue

end ZnCache.Lib
