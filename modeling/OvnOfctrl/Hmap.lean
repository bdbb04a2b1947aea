-- The hash maps of lib/hmap of Open vSwitch, which ofctrl.c uses and which are not among
-- these files. A map has `mask + 1` buckets, each a chain of nodes with the newest first.
-- `hmap_insert` puts a node at the head of its bucket's chain; once the map holds more than
-- two nodes per bucket it moves every node into a map with more buckets, taking the old buckets
-- in order and each chain from its head. HMAP_FOR_EACH goes from a node to the next of its
-- chain, or to the head of the next bucket that is not empty. Without inserts that order is
-- the buckets read one after the other; a walk that inserts as it goes follows the map as it
-- is after each insert, resized or not.
import Mathlib.Data.List.Perm.Basic
import Mathlib.Data.List.Nodup

namespace OvnOfctrl

/-- An `hmap`: its buckets, each a chain of nodes from head to tail, its mask and its count. -/
structure Hmap (α : Type) where
  buckets : List (List α)
  mask : Nat
  n : Nat

section Hmap

variable {α : Type} (hash : α → Nat)

/-- `hmap_init`: one empty bucket. -/
def hmap_init : Hmap α := ⟨[[]], 0, 0⟩

/-- `hmap_insert_fast`: the node goes to the head of the chain of its bucket. -/
def hmap_insert_fast (h : Hmap α) (x : α) : Hmap α :=
  { h with buckets := h.buckets.modify (x :: ·) (hash x &&& h.mask), n := h.n + 1 }

/-- `calc_mask`: the bits below the highest bit of `capacity / 2` all set, and at least 3
once that is not 0 (`size_t` of 64 bits). -/
def calc_mask (capacity : Nat) : Nat :=
  let mask := capacity / 2
  let mask := mask ||| mask >>> 1
  let mask := mask ||| mask >>> 2
  let mask := mask ||| mask >>> 4
  let mask := mask ||| mask >>> 8
  let mask := mask ||| mask >>> 16
  let mask := mask ||| mask >>> 32
  mask ||| (mask &&& 1) <<< 1

/-- `resize`: bucket by bucket, and each chain from its head, every node goes to the head of
its chain in a map of `new_mask + 1` buckets. -/
def resize (h : Hmap α) (new_mask : Nat) : Hmap α :=
  h.buckets.flatten.foldl (hmap_insert_fast hash) ⟨List.replicate (new_mask + 1) [], new_mask, 0⟩

/-- `hmap_expand`. -/
def hmap_expand (h : Hmap α) : Hmap α :=
  if calc_mask h.n > h.mask then resize hash h (calc_mask h.n) else h

/-- `hmap_insert`. -/
def hmap_insert (h : Hmap α) (x : α) : Hmap α :=
  let h := hmap_insert_fast hash h x
  if h.n / 2 > h.mask then hmap_expand hash h else h

/-- `hmap_next__`: the head of the first bucket from `start` on that is not empty. -/
def hmap_next__ (h : Hmap α) (start : Nat) : Option α :=
  (h.buckets.drop start).findSome? List.head?

/-- `hmap_first`. -/
def hmap_first (h : Hmap α) : Option α := hmap_next__ h 0

/-- The `next` of node `x` in a chain. -/
def chainNext [DecidableEq α] (x : α) : List α → Option α
  | [] => none
  | y :: rest => if y = x then rest.head? else chainNext x rest

/-- `hmap_next`: the next node of `x`'s chain, or the head of the next bucket that is not
empty. -/
def hmap_next [DecidableEq α] (h : Hmap α) (x : α) : Option α :=
  match chainNext x (h.buckets.getD (hash x &&& h.mask) []) with
  | some y => some y
  | none => hmap_next__ h ((hash x &&& h.mask) + 1)

/-! ## The order of a map -/

/-- What the operations keep: `mask + 1` buckets, each node in the bucket of its hash. -/
def HmapOk (h : Hmap α) : Prop :=
  h.buckets.length = h.mask + 1 ∧ ∀ i, ∀ x ∈ h.buckets.getD i [], hash x &&& h.mask = i

theorem hmapOk_init : HmapOk hash (hmap_init : Hmap α) := by
  refine ⟨rfl, fun i x hx => ?_⟩
  cases i <;> simp [hmap_init] at hx

variable {hash}

theorem HmapOk.bucket_lt {h : Hmap α} (hok : HmapOk hash h) (x : α) :
    hash x &&& h.mask < h.buckets.length :=
  hok.1 ▸ Nat.lt_succ_of_le Nat.and_le_right

theorem buckets_split {L : List (List α)} {b : Nat} (hb : b < L.length) :
    L.flatten = (L.take b).flatten ++ L[b] ++ (L.drop (b + 1)).flatten := by
  have e : L = L.take b ++ L[b] :: L.drop (b + 1) := by
    rw [List.getElem_cons_drop, List.take_append_drop]
  rw [List.append_assoc, ← List.flatten_cons, ← List.flatten_append, ← e]

theorem HmapOk.insert_fast {h : Hmap α} (hok : HmapOk hash h) (x : α) :
    HmapOk hash (hmap_insert_fast hash h x) := by
  refine ⟨(List.length_modify _ _ _).trans hok.1, fun i y hy => ?_⟩
  simp only [hmap_insert_fast, List.getD_eq_getElem?_getD, List.getElem?_modify] at hy ⊢
  cases hi : h.buckets[i]? with
  | none => simp [hi] at hy
  | some c =>
    have hc := hok.2 i y
    simp only [List.getD_eq_getElem?_getD, hi, Option.getD_some] at hc
    simp only [hi, Option.map_some', Option.getD_some] at hy
    split_ifs at hy with e
    · rcases List.mem_cons.1 hy with rfl | hy
      · exact e
      · exact hc hy
    · exact hc hy

theorem HmapOk.flatten_insert_fast {h : Hmap α} (hok : HmapOk hash h) (x : α) :
    ∃ A B, h.buckets.flatten = A ++ B ∧
      (hmap_insert_fast hash h x).buckets.flatten = A ++ x :: B := by
  have hb := hok.bucket_lt x
  set b := hash x &&& h.mask
  refine ⟨(h.buckets.take b).flatten, h.buckets[b] ++ (h.buckets.drop (b + 1)).flatten,
    by rw [buckets_split hb, List.append_assoc], ?_⟩
  simp [hmap_insert_fast, List.modify_eq_take_cons_drop hb]

theorem HmapOk.perm_insert_fast {h : Hmap α} (hok : HmapOk hash h) (x : α) :
    (hmap_insert_fast hash h x).buckets.flatten.Perm (x :: h.buckets.flatten) := by
  obtain ⟨A, B, e, e'⟩ := hok.flatten_insert_fast x
  rw [e, e']
  exact List.perm_middle

theorem resize_spec {h : Hmap α} (new_mask : Nat) :
    HmapOk hash (resize hash h new_mask) ∧ (resize hash h new_mask).mask = new_mask ∧
      (resize hash h new_mask).buckets.flatten.Perm h.buckets.flatten := by
  suffices ∀ (l : List α) (acc : Hmap α), HmapOk hash acc →
      HmapOk hash (l.foldl (hmap_insert_fast hash) acc) ∧
        (l.foldl (hmap_insert_fast hash) acc).mask = acc.mask ∧
        (l.foldl (hmap_insert_fast hash) acc).buckets.flatten.Perm
          (l.reverse ++ acc.buckets.flatten) by
    have hempty : HmapOk hash (⟨List.replicate (new_mask + 1) [], new_mask, 0⟩ : Hmap α) :=
      ⟨List.length_replicate _ _, fun i x hx => by
        simp only [List.getD_eq_getElem?_getD, List.getElem?_replicate] at hx
        split at hx <;> simp at hx⟩
    obtain ⟨h1, h2, h3⟩ := this h.buckets.flatten _ hempty
    exact ⟨h1, h2, h3.trans (by simp)⟩
  intro l
  induction l with
  | nil => intro acc hacc; exact ⟨hacc, rfl, by simp⟩
  | cons x l ih =>
    intro acc hacc
    obtain ⟨h1, h2, h3⟩ := ih _ (hacc.insert_fast x)
    refine ⟨h1, h2, h3.trans ?_⟩
    simp [List.perm_cons, List.Perm.append_left l.reverse (hacc.perm_insert_fast x)]

theorem HmapOk.insert {h : Hmap α} (hok : HmapOk hash h) (x : α) :
    HmapOk hash (hmap_insert hash h x) ∧
      (hmap_insert hash h x).buckets.flatten.Perm (x :: h.buckets.flatten) ∧
      h.mask ≤ (hmap_insert hash h x).mask := by
  have h1 := hok.insert_fast x
  have p1 := hok.perm_insert_fast x
  unfold hmap_insert hmap_expand
  dsimp only
  split_ifs with hn hc
  · obtain ⟨r1, r2, r3⟩ :=
      resize_spec (h := hmap_insert_fast hash h x) (calc_mask (hmap_insert_fast hash h x).n)
    exact ⟨r1, r3.trans p1, by rw [r2]; exact le_of_lt hc⟩
  · exact ⟨h1, p1, le_rfl⟩
  · exact ⟨h1, p1, le_rfl⟩

theorem HmapOk.sublist_insert {h : Hmap α} (hok : HmapOk hash h) (x : α)
    (hm : (hmap_insert hash h x).mask = h.mask) :
    h.buckets.flatten.Sublist (hmap_insert hash h x).buckets.flatten := by
  have hf : h.buckets.flatten.Sublist (hmap_insert_fast hash h x).buckets.flatten := by
    obtain ⟨A, B, e, e'⟩ := hok.flatten_insert_fast x
    rw [e, e']
    exact (List.sublist_cons_self x B).append_left A
  unfold hmap_insert hmap_expand at hm ⊢
  dsimp only at hm ⊢
  split_ifs at hm ⊢ with hn hc
  · rw [(resize_spec (h := hmap_insert_fast hash h x) _).2.1] at hm
    exact absurd hm (ne_of_gt hc)
  · exact hf
  · exact hf

section Fold

variable (hash) in
/-- The map built by inserting the nodes of `l`, in order, into an empty map. -/
def hmapOfList (l : List α) : Hmap α := l.foldl (hmap_insert hash) hmap_init

theorem hmapOfList_spec (l : List α) :
    HmapOk hash (hmapOfList hash l) ∧ (hmapOfList hash l).buckets.flatten.Perm l := by
  suffices ∀ (acc : Hmap α), HmapOk hash acc →
      HmapOk hash (l.foldl (hmap_insert hash) acc) ∧
        (l.foldl (hmap_insert hash) acc).buckets.flatten.Perm (l.reverse ++ acc.buckets.flatten) by
    obtain ⟨h1, h2⟩ := this _ (hmapOk_init hash)
    exact ⟨h1, h2.trans (by simp [hmap_init])⟩
  induction l with
  | nil => intro acc hacc; exact ⟨hacc, by simp⟩
  | cons x l ih =>
    intro acc hacc
    obtain ⟨i1, i2, -⟩ := hacc.insert x
    obtain ⟨h1, h2⟩ := ih _ i1
    exact ⟨h1, h2.trans (by simpa using List.Perm.append_left l.reverse i2)⟩

theorem HmapOk.mask_le_foldl {acc : Hmap α} (hok : HmapOk hash acc) (A : List α) :
    acc.mask ≤ (A.foldl (hmap_insert hash) acc).mask := by
  induction A generalizing acc with
  | nil => exact le_rfl
  | cons x A ih =>
    obtain ⟨i1, -, i3⟩ := hok.insert x
    exact i3.trans (ih i1)

theorem HmapOk.sublist_foldl {acc : Hmap α} (hok : HmapOk hash acc) (A : List α)
    (hm : (A.foldl (hmap_insert hash) acc).mask = acc.mask) :
    acc.buckets.flatten.Sublist (A.foldl (hmap_insert hash) acc).buckets.flatten := by
  induction A generalizing acc with
  | nil => exact List.Sublist.refl _
  | cons x A ih =>
    obtain ⟨i1, -, i3⟩ := hok.insert x
    have hx : (hmap_insert hash acc x).mask = acc.mask :=
      le_antisymm (hm ▸ i1.mask_le_foldl A) i3
    exact (hok.sublist_insert x hx).trans (ih i1 (hm.trans hx.symm))

/-- Inserting more nodes never shrinks the mask, and when it leaves the mask as it was, the
order of the nodes already there is kept. -/
theorem hmapOfList_append (l A : List α) :
    (hmapOfList hash l).mask ≤ (hmapOfList hash (l ++ A)).mask ∧
      ((hmapOfList hash (l ++ A)).mask = (hmapOfList hash l).mask →
        (hmapOfList hash l).buckets.flatten.Sublist
          (hmapOfList hash (l ++ A)).buckets.flatten) := by
  unfold hmapOfList
  rw [List.foldl_append]
  have hok : HmapOk hash (hmapOfList hash l) := (hmapOfList_spec l).1
  exact ⟨hok.mask_le_foldl A, hok.sublist_foldl A⟩

end Fold

/-! ## The walk -/

theorem findSome?_head? (L : List (List α)) : L.findSome? List.head? = L.flatten.head? := by
  induction L with
  | nil => rfl
  | cons B L ih => cases B <;> simp [List.findSome?_cons, ih]

theorem chainNext_eq [DecidableEq α] {x : α} {p q : List α} (hp : x ∉ p) :
    chainNext x (p ++ x :: q) = q.head? := by
  induction p with
  | nil => simp [chainNext]
  | cons y p ih =>
    rw [List.mem_cons, not_or] at hp
    simp [chainNext, Ne.symm hp.1, ih hp.2]

/-- Without repeats a node cuts a list in one place only. -/
theorem eq_of_cut {x : α} {a b c d : List α} (hn : (a ++ x :: b).Nodup)
    (e : a ++ x :: b = c ++ x :: d) : b = d := by
  induction a generalizing c with
  | nil =>
    cases c with
    | nil => simpa using e
    | cons y c =>
      simp only [List.nil_append, List.cons_append, List.cons.injEq] at e
      obtain ⟨rfl, rfl⟩ := e
      exact absurd (by simp) (List.nodup_cons.1 hn).1
  | cons y a ih =>
    cases c with
    | nil =>
      simp only [List.nil_append, List.cons_append, List.cons.injEq] at e
      obtain ⟨rfl, rfl⟩ := e
      exact absurd (by simp) (List.nodup_cons.1 hn).1
    | cons z c =>
      simp only [List.cons_append, List.cons.injEq] at e
      exact ih (List.nodup_cons.1 hn).2 e.2

/-- A node after `x` in a list stays after `x` in any list without repeats that holds the
first as a sublist. -/
theorem mem_of_cut_sublist {x y : α} {l1 l2 m1 m2 : List α}
    (hs : (l1 ++ x :: l2).Sublist (m1 ++ x :: m2)) (hn : (m1 ++ x :: m2).Nodup) (hy : y ∈ l2) :
    y ∈ m2 := by
  have hxy : [x, y].Sublist (m1 ++ x :: m2) :=
    ((List.singleton_sublist.2 hy).cons₂ x).trans ((List.sublist_append_right l1 _).trans hs)
  obtain ⟨r1, r2, e, hx, hy'⟩ := List.cons_sublist_iff.1 hxy
  obtain ⟨a, b, rfl⟩ := List.append_of_mem hx
  rw [List.append_assoc, List.cons_append] at e
  rw [eq_of_cut hn e]
  exact List.mem_append_right _ (List.singleton_sublist.1 hy')

theorem hmap_first_eq (h : Hmap α) : hmap_first h = h.buckets.flatten.head? := by
  simp [hmap_first, hmap_next__, findSome?_head?]

/-- On a map without repeats, `hmap_next` of a node is the node after it in the map's order. -/
theorem HmapOk.hmap_next_eq [DecidableEq α] {h : Hmap α} (hok : HmapOk hash h)
    (hn : h.buckets.flatten.Nodup) {x : α} {l1 l2 : List α}
    (hx : h.buckets.flatten = l1 ++ x :: l2) :
    hmap_next hash h x = l2.head? := by
  have hb := hok.bucket_lt x
  set b := hash x &&& h.mask
  -- the node is in the bucket of its hash
  have hxb : x ∈ h.buckets[b] := by
    obtain ⟨B, hB, hxB⟩ :=
      List.mem_flatten.1 (hx ▸ List.mem_append_right l1 (List.mem_cons_self x l2))
    obtain ⟨i, hi, rfl⟩ := List.mem_iff_getElem.1 hB
    have := hok.2 i x (by simpa [List.getD_eq_getElem?_getD, hi] using hxB)
    subst this
    exact hxB
  obtain ⟨p, q, hpq⟩ := List.append_of_mem hxb
  have hcut : h.buckets.flatten =
      ((h.buckets.take b).flatten ++ p) ++ x :: (q ++ (h.buckets.drop (b + 1)).flatten) := by
    rw [buckets_split hb, hpq]; simp
  have hxp : x ∉ p := fun hm => List.disjoint_of_nodup_append (hcut ▸ hn)
    (List.mem_append_right _ hm) (List.mem_cons_self x _)
  have hl2 := eq_of_cut (hx ▸ hn) (hx.symm.trans hcut)
  unfold hmap_next
  rw [List.getD_eq_getElem?_getD, List.getElem?_eq_getElem hb, Option.getD_some, hpq,
    chainNext_eq hxp]
  cases q with
  | cons y q => simp [hl2]
  | nil => simp [hmap_next__, findSome?_head?, hl2]

end Hmap

end OvnOfctrl
