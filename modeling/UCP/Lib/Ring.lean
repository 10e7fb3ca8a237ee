import Mathlib.Data.List.Nodup

/-- Following `next` from `start` leads through the nodes, in order, to `stop`. -/
def LinkPath {α : Type*} (next : α → Option α) (start : α) : List α → α → Prop
  | [], stop => next start = some stop
  | node :: nodes, stop => next start = some node ∧ LinkPath next node nodes stop

namespace LinkPath

variable {α : Type*} {next next' : α → Option α} {start stop node : α} {nodes left right : List α}

theorem append_iff : LinkPath next start (left ++ node :: right) stop ↔
    LinkPath next start left node ∧ LinkPath next node right stop := by
  induction left generalizing start with
  | nil => rfl
  | cons first left ih => rw [List.cons_append, LinkPath, LinkPath, ih, and_assoc]

/-- Where a path starts matters only for its first step. -/
theorem restart (path : LinkPath next start nodes stop) {start' : α} (first : next' start' = next start)
    (others : ∀ x ∈ nodes, next' x = next x) : LinkPath next' start' nodes stop := by
  induction nodes generalizing start start' with
  | nil => exact first.trans path
  | cons node nodes ih =>
    exact ⟨first.trans path.1, ih path.2 (others node (List.mem_cons_self ..)) fun x member =>
      others x (List.mem_cons_of_mem _ member)⟩

theorem congr (path : LinkPath next start nodes stop) (same : ∀ x ∈ start :: nodes, next' x = next x) :
    LinkPath next' start nodes stop :=
  path.restart (same start (List.mem_cons_self ..)) fun x member => same x (List.mem_cons_of_mem _ member)

theorem getLastD_mem (start : α) (left : List α) : left.getLastD start ∈ start :: left := by
  rcases List.eq_nil_or_concat left with rfl | ⟨left, last, rfl⟩
  · exact List.mem_cons_self ..
  · rw [List.concat_eq_append, List.getLastD_concat]
    exact List.mem_cons_of_mem _ List.mem_concat_self

/-- The path from the last node in front of a place on it. -/
theorem onward (path : LinkPath next start (left ++ right) stop) :
    LinkPath next (left.getLastD start) right stop := by
  rcases List.eq_nil_or_concat left with rfl | ⟨left, last, rfl⟩
  · exact path
  · rw [List.concat_eq_append, List.append_assoc, List.singleton_append, append_iff] at path
    rw [List.concat_eq_append, List.getLastD_concat]
    exact path.2

theorem first (path : LinkPath next start nodes stop) : next start = some (nodes.headD stop) := by
  cases nodes with
  | nil => exact path
  | cons node nodes => exact path.1

/-- The last node in front of a place on a path can lead on elsewhere. -/
theorem redirect {onwards : List α} (path : LinkPath next start (left ++ right) stop)
    (nodup : (start :: left).Nodup)
    (same : ∀ x ∈ start :: left, x ≠ left.getLastD start → next' x = next x)
    (rest : LinkPath next' (left.getLastD start) onwards stop) : LinkPath next' start (left ++ onwards) stop := by
  rcases List.eq_nil_or_concat left with rfl | ⟨left, last, rfl⟩
  · exact rest
  · rw [List.concat_eq_append, List.getLastD_concat] at same rest
    rw [List.concat_eq_append, List.append_assoc, List.singleton_append] at path ⊢
    rw [List.concat_eq_append, ← List.cons_append] at nodup
    refine append_iff.mpr ⟨(append_iff.mp path).1.congr fun x member => same x ?_ ?_, rest⟩
    · exact List.mem_append_left _ member
    · rintro rfl
      exact List.disjoint_of_nodup_append nodup member (List.mem_singleton_self _)

end LinkPath

/-- A ring around an anchor: `next` leads from it through the nodes and back to
it, and `prev` the other way round. -/
structure LinkRing {α : Type*} (next prev : α → Option α) (anchor : α) (nodes : List α) : Prop where
  nodup : (anchor :: nodes).Nodup
  forth : LinkPath next anchor nodes anchor
  back : LinkPath prev anchor nodes.reverse anchor

namespace LinkRing

variable {α : Type*} {next prev next' prev' : α → Option α} {anchor node : α} {nodes left right : List α}

theorem symm (ring : LinkRing next prev anchor nodes) : LinkRing prev next anchor nodes.reverse where
  nodup := by
    rw [List.nodup_cons, List.mem_reverse, List.nodup_reverse]
    exact List.nodup_cons.mp ring.nodup
  forth := ring.back
  back := by
    rw [List.reverse_reverse]
    exact ring.forth

theorem next_eq (ring : LinkRing next prev anchor (left ++ right)) :
    next (left.getLastD anchor) = some (right.headD anchor) := ring.forth.onward.first

theorem getLastD_reverse (anchor : α) (nodes : List α) : nodes.reverse.getLastD anchor = nodes.headD anchor := by
  cases nodes with
  | nil => rfl
  | cons node nodes => rw [List.reverse_cons, List.getLastD_concat, List.headD_cons]

theorem headD_reverse (anchor : α) (nodes : List α) : nodes.reverse.headD anchor = nodes.getLastD anchor := by
  rw [← getLastD_reverse, List.reverse_reverse]

theorem prev_eq (ring : LinkRing next prev anchor (left ++ right)) :
    prev (right.headD anchor) = some (left.getLastD anchor) := by
  have mirrored := ring.symm
  rw [List.reverse_append] at mirrored
  have link := mirrored.next_eq
  rwa [getLastD_reverse, headD_reverse] at link

theorem exists_next (ring : LinkRing next prev anchor nodes) {x : α} (member : x ∈ anchor :: nodes) :
    ∃ y, next x = some y := by
  rcases List.mem_cons.mp member with rfl | inside
  · exact ⟨_, ring.forth.first⟩
  · obtain ⟨left, right, rfl⟩ := List.append_of_mem inside
    exact ⟨_, (LinkPath.append_iff.mp ring.forth).2.first⟩

/-- The neighbours of a place in a ring of more than the anchor are different. -/
theorem apart (ring : LinkRing next prev anchor (left ++ right)) (nonempty : left ++ right ≠ []) :
    left.getLastD anchor ≠ right.headD anchor := by
  obtain ⟨outside, nodup⟩ := List.nodup_cons.mp ring.nodup
  rcases List.eq_nil_or_concat left with rfl | ⟨left, last, rfl⟩
  · cases right with
    | nil => exact absurd rfl nonempty
    | cons node right =>
      rintro (rfl : anchor = node)
      exact outside (List.mem_cons_self ..)
  · rw [List.concat_eq_append] at nodup outside ⊢
    rw [List.getLastD_concat]
    cases right with
    | nil =>
      rintro (rfl : last = anchor)
      exact outside (by simp)
    | cons node right =>
      rintro (rfl : last = node)
      exact List.disjoint_of_nodup_append nodup List.mem_concat_self (List.mem_cons_self ..)

/-- What one direction of a ring needs for a node to be inserted at a place. -/
theorem forth_insert (ring : LinkRing next prev anchor (left ++ right)) (fresh : node ∉ anchor :: (left ++ right))
    (link : next' (left.getLastD anchor) = some node) (new : next' node = some (right.headD anchor))
    (others : ∀ x, x ≠ node → x ≠ left.getLastD anchor → next' x = next x) :
    LinkPath next' anchor (left ++ node :: right) anchor := by
  have nodup : ((anchor :: left) ++ right).Nodup := ring.nodup
  have fresh : node ∉ (anchor :: left) ++ right := fresh
  refine ring.forth.redirect (List.Nodup.of_append_left nodup) (fun x member notLast => others x ?_ notLast) ⟨link, ?_⟩
  · rintro rfl
    exact fresh (List.mem_append_left _ member)
  · refine ring.forth.onward.restart (new.trans ring.next_eq.symm) fun x member => others x ?_ ?_
    · rintro rfl
      exact fresh (List.mem_append_right _ member)
    · rintro rfl
      exact List.disjoint_of_nodup_append nodup (LinkPath.getLastD_mem anchor left) member

theorem forth_remove (ring : LinkRing next prev anchor (left ++ node :: right))
    (link : next' (left.getLastD anchor) = some (right.headD anchor))
    (others : ∀ x, x ≠ node → x ≠ left.getLastD anchor → next' x = next x) :
    LinkPath next' anchor (left ++ right) anchor := by
  have nodup : ((anchor :: left) ++ node :: right).Nodup := ring.nodup
  have apart := List.disjoint_of_nodup_append nodup
  have behind : LinkPath next node right anchor := (LinkPath.append_iff.mp ring.forth).2
  refine ring.forth.redirect (List.Nodup.of_append_left nodup) (fun x member notLast => others x ?_ notLast) ?_
  · rintro rfl
    exact apart member (List.mem_cons_self ..)
  · refine behind.restart (link.trans behind.first.symm) fun x member => others x ?_ ?_
    · rintro rfl
      exact (List.nodup_cons.mp (List.Nodup.of_append_right nodup)).1 member
    · rintro rfl
      exact apart (LinkPath.getLastD_mem anchor left) (List.mem_cons_of_mem _ member)

/-- A node is linked in between two neighbours, and nothing else changes. -/
theorem insert (ring : LinkRing next prev anchor (left ++ right)) (fresh : node ∉ anchor :: (left ++ right))
    (link : next' (left.getLastD anchor) = some node) (new : next' node = some (right.headD anchor))
    (others : ∀ x, x ≠ node → x ≠ left.getLastD anchor → next' x = next x)
    (linkBack : prev' (right.headD anchor) = some node) (newBack : prev' node = some (left.getLastD anchor))
    (othersBack : ∀ x, x ≠ node → x ≠ right.headD anchor → prev' x = prev x) :
    LinkRing next' prev' anchor (left ++ node :: right) where
  nodup := by
    have middle := @List.nodup_middle _ node (anchor :: left) right
    exact middle.mpr (List.nodup_cons.mpr ⟨fresh, ring.nodup⟩)
  forth := ring.forth_insert fresh link new others
  back := by
    have mirrored := ring.symm
    rw [List.reverse_append] at mirrored
    rw [← getLastD_reverse] at linkBack othersBack
    rw [← headD_reverse] at newBack
    have path := mirrored.forth_insert (by simpa [or_comm, or_left_comm] using fresh) linkBack newBack othersBack
    simpa using path

/-- A node is unlinked, its neighbours are linked, and nothing else changes. -/
theorem remove (ring : LinkRing next prev anchor (left ++ node :: right))
    (link : next' (left.getLastD anchor) = some (right.headD anchor))
    (others : ∀ x, x ≠ node → x ≠ left.getLastD anchor → next' x = next x)
    (linkBack : prev' (right.headD anchor) = some (left.getLastD anchor))
    (othersBack : ∀ x, x ≠ node → x ≠ right.headD anchor → prev' x = prev x) :
    LinkRing next' prev' anchor (left ++ right) where
  nodup := by
    have middle := @List.nodup_middle _ node (anchor :: left) right
    exact (List.nodup_cons.mp (middle.mp ring.nodup)).2
  forth := ring.forth_remove link others
  back := by
    have mirrored := ring.symm
    rw [List.reverse_append, List.reverse_cons, List.append_assoc, List.singleton_append] at mirrored
    rw [← getLastD_reverse, ← headD_reverse anchor left] at linkBack
    rw [← getLastD_reverse] at othersBack
    rw [List.reverse_append]
    exact mirrored.forth_remove linkBack othersBack

end LinkRing
