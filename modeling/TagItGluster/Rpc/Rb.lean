import TagItGluster.Base.SearchTree

/-!
# Red-black trees

The tables of `contrib/rbtree`: `rb_find`, `rb_probe` and `rb_delete`, with the stacks that the last
two keep. Where the source reads a child that a red-black tree always has, and there is none,
nothing is done. For a comparison that is a strict total order on the items, a table is the list of
its items in order. Line numbers: `contrib/rbtree/rb.c`.
-/

namespace TagItGluster.Rpc

open Base SearchTree

/-- `enum rb_color`. -/
inductive RbColor where
  | black
  | red
deriving DecidableEq

/-- The nodes of a table. -/
abbrev RbTree (α : Type) : Type := SearchTree RbColor α

variable {α : Type}

namespace RbTree

/-- A node that is there and red. -/
def isRed : RbTree α → Bool
  | .nil => false
  | .node color _ _ _ => color = .red

/-- The root is made black. -/
def blacken : RbTree α → RbTree α
  | .nil => .nil
  | .node _ left item right => .node .black left item right

/-- The loop of `rb_probe` behind the insertion of a red node. -/
def probeFix : RbTree α → List (Frame RbColor α) → RbTree α
  | n, p :: g :: rest =>
    if p.mark = .red then
      if isRed g.sibling then
        probeFix ((n.under { p with mark := .black }).under
          { g with mark := .red, sibling := blacken g.sibling }) rest
      else
        match g.isLeft, p.isLeft, n with
        | true, true, n =>
          plug (.node .black n p.item (.node .red p.sibling g.item g.sibling)) rest
        | true, false, .node _ a item b =>
          plug (.node .black (.node p.mark p.sibling p.item a) item
            (.node .red b g.item g.sibling)) rest
        | false, false, n =>
          plug (.node .black (.node .red g.sibling g.item p.sibling) p.item n) rest
        | false, true, .node _ a item b =>
          plug (.node .black (.node .red g.sibling g.item a) item
            (.node p.mark b p.item p.sibling)) rest
        | _, _, .nil => plug n (p :: g :: rest)
    else plug n (p :: g :: rest)
  | n, fs => plug n fs

/-- `rb_probe` (93): the item of the table that is equal, or the new one; nothing if there is no
memory. -/
def rbProbe (cmp : α → α → Int) (item : α) (alloc : Bool) (t : RbTree α) : Option α × RbTree α :=
  match t.descend (cmp item) [] with
  | (.node _ _ found _, _) => (some found, t)
  | (.nil, fs) =>
    if alloc then (some item, blacken (probeFix (.node .red .nil item .nil) fs)) else (none, t)

/-- The leftmost node of a tree that is not empty: its color, its item, its right child and the
stack. -/
def leftmost : RbColor → RbTree α → α → RbTree α → List (Frame RbColor α) →
    RbColor × α × RbTree α × List (Frame RbColor α)
  | color, .nil, item, right, fs => (color, item, right, fs)
  | color, .node c l i r, item, right, fs => leftmost c l i r (⟨true, color, item, right⟩ :: fs)

/-- The rotation at the end of the loop of `rb_delete`, for a child `x` on the left and its sibling
with a red child. -/
def rotateLeft (x : RbTree α) (p : Frame RbColor α) (whole wl : RbTree α) (wi : α)
    (wr : RbTree α) : RbTree α :=
  if isRed wr then .node p.mark (.node .black x p.item wl) wi (blacken wr)
  else match wl with
    | .node _ yl yi yr => .node p.mark (.node .black x p.item yl) yi (.node .black yr wi wr)
    | .nil => x.under { p with sibling := whole }

/-- The same for a child on the right. -/
def rotateRight (x : RbTree α) (p : Frame RbColor α) (whole wl : RbTree α) (wi : α)
    (wr : RbTree α) : RbTree α :=
  if isRed wl then .node p.mark (blacken wl) wi (.node .black wr p.item x)
  else match wr with
    | .node _ yl yi yr => .node p.mark (.node .black wl wi yl) yi (.node .black yr p.item x)
    | .nil => x.under { p with sibling := whole }

/-- The rotation for either side. -/
def rotate (x : RbTree α) (p : Frame RbColor α) (whole wl : RbTree α) (wi : α) (wr : RbTree α) :
    RbTree α :=
  if p.isLeft then rotateLeft x p whole wl wi wr else rotateRight x p whole wl wi wr

/-- A red sibling is rotated up: the frame of the parent, which is red now, and the one of the
sibling. -/
def redSibling (p : Frame RbColor α) (wl : RbTree α) (wi : α) (wr : RbTree α) :
    Frame RbColor α × Frame RbColor α :=
  if p.isLeft then ({ p with mark := .red, sibling := wl }, ⟨true, .black, wi, wr⟩)
  else ({ p with mark := .red, sibling := wr }, ⟨false, .black, wi, wl⟩)

/-- The loop of `rb_delete` behind the removal of a black node. Behind the rotation of a red sibling
it ends: the parent is red. -/
def deleteFix : RbTree α → List (Frame RbColor α) → RbTree α
  | x, [] => if isRed x then blacken x else x
  | x, p :: rest =>
    if isRed x then plug (blacken x) (p :: rest)
    else match p.sibling with
      | .nil => plug x (p :: rest)
      | .node .black wl wi wr =>
        if isRed wl || isRed wr then plug (rotate x p (.node .black wl wi wr) wl wi wr) rest
        else deleteFix (x.under { p with sibling := .node .red wl wi wr }) rest
      | .node .red wl wi wr =>
        let (p', w) := redSibling p wl wi wr
        match p'.sibling with
        | .nil => plug x (p' :: w :: rest)
        | .node c vl vi vr =>
          if isRed vl || isRed vr then plug (rotate x p' (.node c vl vi vr) vl vi vr) (w :: rest)
          else plug (blacken (x.under { p' with sibling := .node .red vl vi vr })) (w :: rest)

/-- The node of a stack is removed: it is replaced by its left child, or by the leftmost node on its
right. -/
def remove (color : RbColor) (left right : RbTree α) (fs : List (Frame RbColor α)) : RbTree α :=
  match right with
  | .nil => if color = .black then deleteFix left fs else plug left fs
  | .node c l i r =>
    let (removed, item, child, below) := leftmost c l i r []
    let fs := below ++ ⟨false, color, item, left⟩ :: fs
    if removed = .black then deleteFix child fs else plug child fs

/-- `rb_delete` (237). -/
def rbDelete (cmp : α → α → Int) (item : α) (t : RbTree α) : RbTree α :=
  match t.descend (cmp item) [] with
  | (.node color left _ right, fs) => remove color left right fs
  | (.nil, _) => t

/-! ### Items in order -/

@[simp] lemma toList_blacken (t : RbTree α) : (blacken t).toList = t.toList := by
  cases t <;> rfl

private lemma toList_probeFix (n : RbTree α) (fs : List (Frame RbColor α)) :
    (probeFix n fs).toList = before fs ++ n.toList ++ after fs := by
  fun_induction probeFix n fs with
  | case1 n p g rest hred huncle ih =>
    rw [ih]
    simp [toList_under, before, after]
  | case2 p g rest hred huncle n hp hg => simp [toList_plug, before, after, hg, hp]
  | case3 p g rest hred huncle c a item b hp hg => simp [toList_plug, before, after, hg, hp]
  | case4 p g rest hred huncle n hp hg => simp [toList_plug, before, after, hg, hp]
  | case5 p g rest hred huncle c a item b hp hg => simp [toList_plug, before, after, hg, hp]
  | case6 => rw [toList_plug]
  | case7 => rw [toList_plug]
  | case8 => rw [toList_plug]

private lemma toList_rotate (x : RbTree α) (p : Frame RbColor α) (color : RbColor) (wl : RbTree α)
    (wi : α) (wr : RbTree α) :
    (rotate x p (.node color wl wi wr) wl wi wr).toList =
      (x.under { p with sibling := .node color wl wi wr }).toList := by
  unfold rotate
  split_ifs with hleft
  · unfold rotateLeft
    split_ifs
    · simp [under, hleft]
    · cases wl <;> simp [under, hleft]
  · unfold rotateRight
    split_ifs
    · simp [under, hleft]
    · cases wr <;> simp [under, hleft]

private lemma toList_redSibling (x : RbTree α) (p : Frame RbColor α) (color : RbColor)
    (wl : RbTree α) (wi : α) (wr : RbTree α) :
    ((x.under (redSibling p wl wi wr).1).under (redSibling p wl wi wr).2).toList =
      (x.under { p with sibling := .node color wl wi wr }).toList := by
  unfold redSibling
  split_ifs with hleft <;> simp [under, hleft]

private lemma toList_deleteFix (x : RbTree α) (fs : List (Frame RbColor α)) :
    (deleteFix x fs).toList = before fs ++ x.toList ++ after fs := by
  induction fs generalizing x with
  | nil =>
    unfold deleteFix
    split <;> simp [before, after]
  | cons p rest ih =>
    have hstack : ∀ y : RbTree α, y.toList = (x.under p).toList →
        (y.plug rest).toList = before (p :: rest) ++ x.toList ++ after (p :: rest) := by
      intro y hy
      rw [toList_plug, hy, toList_under]
      simp [before, after]
    unfold deleteFix
    split
    · simp [toList_plug]
    cases hsibling : p.sibling with
    | nil =>
      rw [toList_plug]
    | node color wl wi wr =>
      have hp : p = { p with sibling := .node color wl wi wr } := by
        rw [← hsibling]
      cases color with
      | black =>
        dsimp only
        split
        · exact hstack _ (by rw [toList_rotate, ← hp])
        · rw [ih, ← toList_plug]
          refine hstack _ ?_
          simp [toList_under, hsibling]
      | red =>
        have hred := toList_redSibling x p .red wl wi wr
        rw [← hp] at hred
        dsimp only
        generalize redSibling p wl wi wr = r at hred
        obtain ⟨p', w⟩ := r
        cases hv : p'.sibling with
        | nil =>
          exact hstack _ hred
        | node c vl vi vr =>
          have hp' : p' = { p' with sibling := .node c vl vi vr } := by
            rw [← hv]
          dsimp only
          split
          · refine hstack _ ?_
            rw [← hred, toList_under, toList_rotate, ← hp', ← toList_under]
          · refine hstack _ ?_
            rw [← hred, toList_under _ w]
            simp [toList_under, hv]

/-- The leftmost node has the first item, and only its right child is left of it. -/
lemma leftmost_spec {color : RbColor} {left : RbTree α} {item : α} {right : RbTree α}
    {fs : List (Frame RbColor α)} {c : RbColor} {i : α} {child : RbTree α}
    {below : List (Frame RbColor α)}
    (h : leftmost color left item right fs = (c, i, child, below)) :
    before below = before fs ∧
      i :: (child.toList ++ after below) = left.toList ++ item :: (right.toList ++ after fs) := by
  induction left generalizing color item right fs with
  | nil =>
    cases h
    exact ⟨rfl, rfl⟩
  | node color' l item' r ihl _ =>
    obtain ⟨hbefore, hafter⟩ := ihl h
    simp only [before, after, if_true, List.append_nil] at hbefore hafter
    refine ⟨hbefore, hafter.trans ?_⟩
    simp

private lemma toList_remove (color : RbColor) (left right : RbTree α) (fs : List (Frame RbColor α))
    :
    (remove color left right fs).toList = before fs ++ left.toList ++ right.toList ++ after fs := by
  unfold remove
  cases right with
  | nil =>
    dsimp only
    split
    · rw [toList_deleteFix]
      simp
    · rw [toList_plug]
      simp
  | node c l i r =>
    dsimp only
    generalize hm : leftmost c l i r [] = m
    obtain ⟨removed, item, child, below⟩ := m
    obtain ⟨hbefore, hafter⟩ := leftmost_spec hm
    simp only [after, List.append_nil] at hbefore hafter
    have hitems : before (below ++ ⟨false, color, item, left⟩ :: fs) ++ child.toList ++
        after (below ++ ⟨false, color, item, left⟩ :: fs) =
        before fs ++ left.toList ++ (node c l i r).toList ++ after fs := by
      rw [before_append, after_append, hbefore, toList_node, ← hafter]
      simp [before, after]
    split
    · rw [toList_deleteFix, hitems]
    · rw [toList_plug, hitems]

variable {cmp : α → α → Int} {item : α} {t : RbTree α}
  (hcuts : Cuts (cmp item) t.toList)
include hcuts

private lemma descend_spec : Found (cmp item) t.toList (t.descend (cmp item) []) :=
  descend_found (by simp [before, after]) hcuts (by simp [before]) (by simp [after])

/-- `rb_probe` finds the item that is equal, or puts the new one where it belongs. -/
lemma rbProbe_spec (alloc : Bool) :
    (∃ found ∈ t.toList, cmp item found = 0 ∧ rbProbe cmp item alloc t = (some found, t)) ∨
      (∀ a ∈ t.toList, cmp item a ≠ 0) ∧ (alloc = false → rbProbe cmp item alloc t = (none, t)) ∧
        (alloc → ∃ xs ys s, t.toList = xs ++ ys ∧ s.toList = xs ++ item :: ys ∧
          (∀ a ∈ xs, 0 < cmp item a) ∧ (∀ a ∈ ys, cmp item a < 0) ∧
          rbProbe cmp item alloc t = (some item, s)) := by
  have hfound := descend_spec hcuts
  unfold rbProbe
  generalize t.descend (cmp item) [] = r at hfound
  obtain ⟨s, fs⟩ := r
  rcases hfound.place with heq | ⟨color, left, found, right, heq, hzero⟩
  · subst heq
    right
    refine ⟨hfound.ne_zero, ?_, ?_⟩
    · intro halloc
      subst halloc
      rfl
    intro halloc
    subst halloc
    have hitems := hfound.items
    rw [toList_nil, List.append_nil] at hitems
    refine ⟨before fs, after fs, _, hitems.symm, ?_, hfound.front, hfound.back, rfl⟩
    rw [toList_blacken, toList_probeFix]
    simp
  · subst heq
    left
    refine ⟨found, ?_, hzero, rfl⟩
    rw [← hfound.items]
    simp

/-- `rb_delete` removes the item that is equal, if there is one. -/
lemma rbDelete_spec : (∃ xs found ys, t.toList = xs ++ found :: ys ∧ cmp item found = 0 ∧
        (rbDelete cmp item t).toList = xs ++ ys) ∨
      (∀ a ∈ t.toList, cmp item a ≠ 0) ∧ rbDelete cmp item t = t := by
  have hfound := descend_spec hcuts
  unfold rbDelete
  generalize t.descend (cmp item) [] = r at hfound
  obtain ⟨s, fs⟩ := r
  rcases hfound.place with heq | ⟨color, left, found, right, heq, hzero⟩
  · subst heq
    exact .inr ⟨hfound.ne_zero, rfl⟩
  subst heq
  left
  refine ⟨before fs ++ left.toList, found, right.toList ++ after fs, ?_, hzero, ?_⟩
  · rw [← hfound.items]
    simp
  · rw [toList_remove]
    simp

end RbTree

end TagItGluster.Rpc
